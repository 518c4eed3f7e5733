import Mathlib.Data.Int.Range
import Mathlib.Data.List.Perm.Basic
import Mathlib.Tactic.Common

/-
  The numbers missing from a range: those of `lo ..< hi` that
  are not held.

  Main declarations:
    * `missing`
    * `mem_missing`
    * `missing_append`
    * `missing_congr`
    * `missing_increasing`
    * `length_missing`
    * `ofFn_getD`
-/

------------------------------------------------------------
-- Ranges
------------------------------------------------------------

namespace Cs2520

namespace Lib

theorem range_nil
    {lo hi : Int}
    (hEmpty : hi ≤ lo) :
    Int.range lo hi = [] := by
  have hLength : (hi - lo).toNat = 0 := by omega
  rw [Int.range, hLength]
  rfl

theorem range_cons
    {lo hi : Int}
    (hLt : lo < hi) :
    Int.range lo hi = lo :: Int.range (lo + 1) hi := by
  have hLength :
      (hi - lo).toNat = (hi - (lo + 1)).toNat + 1 := by
    omega
  rw [Int.range, hLength, List.range_succ_eq_map,
    List.map_cons, List.map_map, Int.range]
  congr 1
  · omega
  · apply List.map_congr_left
    intro k _
    simp only [Function.comp_apply]
    omega

theorem range_append
    {lo mid hi : Int}
    (hLo : lo ≤ mid)
    (hHi : mid ≤ hi) :
    Int.range lo hi =
      Int.range lo mid ++ Int.range mid hi := by
  rcases hLo.eq_or_lt with rfl | hLt
  · rw [range_nil (Int.le_refl lo), List.nil_append]
  · have hRest :
        Int.range (lo + 1) hi =
          Int.range (lo + 1) mid ++ Int.range mid hi :=
      range_append (by omega) hHi
    rw [range_cons (hLt.trans_le hHi), hRest,
      range_cons hLt, List.cons_append]
termination_by (mid - lo).toNat

theorem range_increasing
    (lo hi : Int) :
    (Int.range lo hi).Pairwise (fun i j => i < j) := by
  rw [Int.range, List.pairwise_map]
  apply List.pairwise_lt_range.imp
  intro a b hLt
  omega

theorem length_range
    (lo hi : Int) :
    (Int.range lo hi).length = (hi - lo).toNat := by
  rw [Int.range, List.length_map, List.length_range]

end Lib

end Cs2520

------------------------------------------------------------
-- Missing Numbers
------------------------------------------------------------

namespace Cs2520

namespace Lib

variable (held : Int → Prop)
variable [DecidablePred held]

/- The numbers from `lo` to below `hi` that are not held. -/
def missing
    (lo hi : Int) : List Int :=
  (Int.range lo hi).filter (fun i => ¬ held i)

@[simp] theorem mem_missing
    {lo hi i : Int} :
    i ∈ missing held lo hi ↔
      (lo ≤ i ∧ i < hi) ∧ ¬ held i := by
  simp [missing, Int.mem_range_iff]

theorem missing_nil
    {lo hi : Int}
    (hEmpty : hi ≤ lo) :
    missing held lo hi = [] := by
  rw [missing, range_nil hEmpty, List.filter_nil]

/- A number that is held is passed over. -/
theorem missing_of_held
    {lo hi : Int}
    (hLt : lo < hi)
    (hHeld : held lo) :
    missing held lo hi = missing held (lo + 1) hi := by
  rw [missing, range_cons hLt,
    List.filter_cons_of_neg (by simp [hHeld])]
  rfl

/- The first number is missing. -/
theorem missing_of_not
    {lo hi : Int}
    (hLt : lo < hi)
    (hNot : ¬ held lo) :
    missing held lo hi = lo :: missing held (lo + 1) hi
    := by
  rw [missing, range_cons hLt,
    List.filter_cons_of_pos (by simp [hNot])]
  rfl

/- Nothing is missing when all of the range is held. -/
theorem missing_eq_nil_iff
    {lo hi : Int} :
    missing held lo hi = [] ↔
      ∀ i, lo ≤ i → i < hi → held i := by
  rw [List.eq_nil_iff_forall_not_mem]
  constructor
  · intro hNone i hLo hHi
    by_contra hNot
    exact
      hNone i ((mem_missing held).mpr ⟨⟨hLo, hHi⟩, hNot⟩)
  · intro hAll i hMem
    rcases (mem_missing held).mp hMem with
      ⟨⟨hLo, hHi⟩, hNot⟩
    exact hNot (hAll i hLo hHi)

theorem missing_append
    {lo mid hi : Int}
    (hLo : lo ≤ mid)
    (hHi : mid ≤ hi) :
    missing held lo hi =
      missing held lo mid ++ missing held mid hi := by
  rw [missing, range_append hLo hHi, List.filter_append]
  rfl

theorem missing_increasing
    (lo hi : Int) :
    (missing held lo hi).Pairwise (fun i j => i < j) :=
  (range_increasing lo hi).filter _

/- Only what is held in the range matters. -/
theorem missing_congr
    (held' : Int → Prop)
    [DecidablePred held']
    {lo hi : Int}
    (hSame :
      ∀ i, lo ≤ i → i < hi → (held i ↔ held' i)) :
    missing held lo hi = missing held' lo hi := by
  apply List.filter_congr
  intro i hMem
  rcases Int.mem_range_iff.mp hMem with ⟨hLo, hHi⟩
  simp [hSame i hLo hHi]

/-
  Of a range, the numbers in an increasing list and the
  missing ones make up all of it.
-/
theorem length_missing
    {lo hi : Int}
    (hLe : lo ≤ hi)
    {l : List Int}
    (hIncreasing : l.Pairwise (fun i j => i < j))
    (hRange : ∀ i ∈ l, lo ≤ i ∧ i < hi) :
    ((missing (fun i => i ∈ l) lo hi).length : Int) =
      hi - lo - l.length := by
  have hHeld :
      ((Int.range lo hi).filter (fun i => i ∈ l)).Perm l := by
    apply
      (List.perm_ext_iff_of_nodup
        (((range_increasing lo hi).filter _).imp
          Int.ne_of_lt)
        (hIncreasing.imp Int.ne_of_lt)).mpr
    intro i
    simp only [List.mem_filter, Int.mem_range_iff,
      decide_eq_true_eq]
    exact
      ⟨fun hMem => hMem.2, fun hMem => ⟨hRange i hMem, hMem⟩⟩
  have hSplit :=
    List.length_eq_length_filter_add
      (l := Int.range lo hi) (fun i => decide (i ∈ l))
  have hRest :
      ((Int.range lo hi).filter
          (fun i => !decide (i ∈ l))).length =
        (missing (fun i => i ∈ l) lo hi).length := by
    simp [missing]
  rw [length_range, hHeld.length_eq, hRest] at hSplit
  omega

/- An array filled from a list, and padded behind it. -/
theorem ofFn_getD
    {α : Type}
    (l : List α)
    (n : Nat)
    (d : α) :
    List.ofFn (fun k : Fin n => (l[(k : Nat)]?).getD d) =
      l.take n ++ List.replicate (n - l.length) d := by
  apply List.ext_getElem
  · rw [List.length_ofFn, List.length_append,
      List.length_take, List.length_replicate]
    omega
  · intro k hk _
    rw [List.getElem_ofFn, List.getElem_append]
    rw [List.length_ofFn] at hk
    dsimp only
    split
    · next hTaken =>
        rw [List.length_take] at hTaken
        rw [List.getElem_take,
          List.getElem?_eq_getElem (by omega)]
        rfl
    · next hRest =>
        rw [List.length_take] at hRest
        rw [List.getElem_replicate,
          List.getElem?_eq_none (by omega)]
        rfl

end Lib

end Cs2520
