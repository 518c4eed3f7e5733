import Mathlib

/-
  Nodes that keep the newest record of each key.

  A record has a stamp from a linear order. What a node knows
  is below what another knows when the other has a record of
  each key that is as new. Nodes that know no less than each
  other know the same, if a stamp determines its record.

  Main declarations:
    * `Below`
    * `Below.antisymm`
    * `eq_of_linked`
-/

------------------------------------------------------------
-- Newest Records
------------------------------------------------------------

namespace Cs2520

namespace Lib

variable {ν κ α τ : Type}
variable [LinearOrder τ]
variable {stamp : α → τ}

/- Each record of the one is at most as new as the other's. -/
def Below
    (stamp : α → τ)
    (f g : κ → Option α) : Prop :=
  ∀ k x, f k = some x →
    ∃ y, g k = some y ∧ stamp x ≤ stamp y

namespace Below

variable {f g : κ → Option α}

theorem refl
    (f : κ → Option α) :
    Below stamp f f :=
  fun _ x hSome => ⟨x, hSome, le_refl _⟩

/- A stamp stands for one record of a key. -/
def Coherent
    (stamp : α → τ)
    (f g : κ → Option α) : Prop :=
  ∀ k x y,
    f k = some x → g k = some y → stamp x = stamp y → x = y

theorem antisymm
    (hLeft : Below stamp f g)
    (hRight : Below stamp g f)
    (hCoherent : Coherent stamp f g) :
    f = g := by
  funext k
  cases hLow : f k with
  | none =>
      cases hHigh : g k with
      | none => rfl
      | some y =>
          rcases hRight k y hHigh with ⟨x, hSome, _⟩
          rw [hLow] at hSome
          cases hSome
  | some x =>
      rcases hLeft k x hLow with ⟨y, hHigh, hLe⟩
      rcases hRight k y hHigh with ⟨z, hSame, hGe⟩
      have hEq : z = x :=
        Option.some.inj (hSame.symm.trans hLow)
      rw [hEq] at hGe
      have hStamp : stamp x = stamp y := le_antisymm hLe hGe
      rw [hHigh, hCoherent k x y hLow hHigh hStamp]

end Below

/-
  If linked nodes know no less than each other, all nodes on
  a path know the same.
-/
theorem eq_of_linked
    (stamp : α → τ)
    (know : ν → κ → Option α)
    {Linked : ν → ν → Prop}
    (hBelow :
      ∀ a b, Linked a b →
        Below stamp (know a) (know b) ∧
          Below stamp (know b) (know a))
    (hCoherent :
      ∀ a b, Below.Coherent stamp (know a) (know b))
    {a b : ν}
    (hPath : Relation.ReflTransGen Linked a b) :
    know a = know b := by
  induction hPath with
  | refl => rfl
  | tail _ hLast ih =>
      have hBoth := hBelow _ _ hLast
      exact
        ih.trans
          (hBoth.1.antisymm hBoth.2 (hCoherent _ _))

end Lib

end Cs2520
