import Mathlib.Order.Bounds.Basic
import Mathlib.Data.List.Induction
import Mathlib.Tactic.Common

/-
  Running extremes: the greatest and the least value of a
  list, kept up to date one value at a time.

  Main declarations:
    * `Extremes.note`
    * `Extremes.note_map`
    * `Extremes.Covers`
    * `Extremes.Covers.note`
    * `Extremes.covers_foldl`
    * `Extremes.Covers.cons_iff`
-/

------------------------------------------------------------
-- Running Extremes
------------------------------------------------------------

namespace Cs2520

namespace Lib

/- The greatest and the least value so far. -/
structure Extremes (α : Type) where
  max : α
  min : α
deriving DecidableEq

namespace Extremes

/- Take one more value into account. -/
def note
    {α : Type} [LT α] [DecidableLT α]
    (e : Extremes α)
    (x : α) : Extremes α where
  max := if e.max < x then x else e.max
  min := if x < e.min then x else e.min

/- The same extremes as values of another type. -/
def map
    {α β : Type}
    (f : α → β)
    (e : Extremes α) : Extremes β where
  max := f e.max
  min := f e.min

/- A map that keeps the order keeps what is noted. -/
theorem note_map
    {α β : Type}
    [LT α] [DecidableLT α] [LT β] [DecidableLT β]
    {f : α → β}
    (hLt : ∀ x y, f x < f y ↔ x < y)
    (e : Extremes α)
    (x : α) :
    (e.map f).note (f x) = (e.note x).map f := by
  simp only [note, map, hLt, apply_ite f]

variable {α : Type} [LinearOrder α]

/- Both are extremes of the values in a list. -/
structure Covers
    (e : Extremes α)
    (xs : List α) : Prop where
  max : IsGreatest {x | x ∈ xs} e.max
  min : IsLeast {x | x ∈ xs} e.min

theorem covers_singleton
    (x : α) :
    Covers { max := x, min := x } [x] := by
  constructor
  · constructor
    · exact List.mem_singleton_self x
    · rintro y hMem
      exact (List.mem_singleton.mp hMem).le
  · constructor
    · exact List.mem_singleton_self x
    · rintro y hMem
      exact (List.mem_singleton.mp hMem).ge

/- Noting a value at the end keeps the extremes. -/
theorem Covers.note
    {e : Extremes α}
    {xs : List α}
    (h : e.Covers xs)
    (x : α) :
    (e.note x).Covers (xs ++ [x]) := by
  have hSet :
      {y | y ∈ xs ++ [x]} = insert x {y | y ∈ xs} := by
    ext y
    simp [or_comm]
  constructor
  · unfold Extremes.note
    dsimp only
    rw [hSet, ← max_def_lt, max_comm]
    exact h.max.insert x
  · unfold Extremes.note
    dsimp only
    rw [hSet, ← min_def_lt]
    exact h.min.insert x

/- Started with the first value, the extremes are right. -/
theorem covers_foldl
    (x : α)
    (xs : List α) :
    (xs.foldl note { max := x, min := x }).Covers
      (x :: xs) := by
  induction xs using List.reverseRecOn with
  | nil => exact covers_singleton x
  | append_singleton xs y ih =>
      rw [List.foldl_append]
      exact ih.note y

/-
  Extremes of a list are those with one more value in front
  when the list has values on either side of it.
-/
theorem Covers.cons_iff
    {e : Extremes α}
    {xs : List α}
    (h : e.Covers xs)
    (x : α) :
    e.Covers (x :: xs) ↔
      (∃ y ∈ xs, x ≤ y) ∧ ∃ y ∈ xs, y ≤ x := by
  rcases h with ⟨⟨hMaxIn, hMax⟩, ⟨hMinIn, hMin⟩⟩
  constructor
  · rintro ⟨⟨_, hUpper⟩, ⟨_, hLower⟩⟩
    exact
      ⟨⟨_, hMaxIn, hUpper List.mem_cons_self⟩,
        ⟨_, hMinIn, hLower List.mem_cons_self⟩⟩
  · rintro ⟨⟨y, hIn, hLe⟩, ⟨z, hIn', hLe'⟩⟩
    refine
      ⟨⟨List.mem_cons_of_mem x hMaxIn, ?_⟩,
        ⟨List.mem_cons_of_mem x hMinIn, ?_⟩⟩
    · intro v hMem
      rcases List.mem_cons.mp hMem with rfl | hRest
      · exact hLe.trans (hMax hIn)
      · exact hMax hRest
    · intro v hMem
      rcases List.mem_cons.mp hMem with rfl | hRest
      · exact (hMin hIn').trans hLe'
      · exact hMin hRest

end Extremes

end Lib

end Cs2520
