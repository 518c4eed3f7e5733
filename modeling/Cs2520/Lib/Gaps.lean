import Cs2520.Lib.Missing
import Mathlib.Data.List.Induction

/-
  Gaps in an increasing list of numbers that should be
  `lo, lo + 1, lo + 2, …`.

  Main declarations:
    * `gapEnds`
    * `gapEnds_concat`
    * `gapEnds_eq_nil_iff`
    * `length_gapEnds_le`
-/

------------------------------------------------------------
-- Gaps
------------------------------------------------------------

namespace Cs2520

namespace Lib

/- The numbers that come right after a gap. -/
def gapEnds
    (lo : Int)
    (xs : List Int) : List Int :=
  xs.filter (fun x => x ≠ lo ∧ x - 1 ∉ xs)

variable {lo x : Int}
variable {xs : List Int}

theorem mem_gapEnds :
    x ∈ gapEnds lo xs ↔ x ∈ xs ∧ x ≠ lo ∧ x - 1 ∉ xs := by
  simp [gapEnds]

/- The last number is the greatest. -/
theorem le_getLastD
    (hIncreasing : xs.Pairwise (fun i j => i < j))
    (d : Int)
    (hMem : x ∈ xs) :
    x ≤ xs.getLastD d := by
  rcases List.eq_nil_or_concat xs with rfl | ⟨first, y, hLast⟩
  · cases hMem
  · rw [List.concat_eq_append] at hLast
    subst hLast
    rw [List.getLastD_concat]
    rcases List.mem_append.mp hMem with hIn | hEnd
    · exact
        Int.le_of_lt
          ((List.pairwise_append.mp hIncreasing).2.2 x hIn y
            (List.mem_singleton_self y))
    · rw [List.mem_singleton.mp hEnd]

/- The last number is in the list, or the list is empty. -/
theorem getLastD_mem
    (xs : List Int)
    (d : Int) :
    xs = [] ∨ xs.getLastD d ∈ xs := by
  rcases List.eq_nil_or_concat xs with rfl | ⟨first, y, hLast⟩
  · exact Or.inl rfl
  · rw [List.concat_eq_append] at hLast
    subst hLast
    rw [List.getLastD_concat]
    exact Or.inr (by simp)

/- A new last number ends a gap if it skips a number. -/
theorem skips_iff
    (hIncreasing :
      (xs ++ [x]).Pairwise (fun i j => i < j))
    (hLow : ∀ y ∈ xs ++ [x], lo ≤ y) :
    (x ≠ lo ∧ x - 1 ∉ xs) ↔
      x ≠ xs.getLastD (lo - 1) + 1 := by
  rcases List.pairwise_append.mp hIncreasing with
    ⟨hFirst, _, hAfter⟩
  rcases getLastD_mem xs (lo - 1) with rfl | hLast
  · simp only [List.getLastD_nil, List.not_mem_nil,
      not_false_eq_true, and_true]
    omega
  · have hLt := hAfter _ hLast x (List.mem_singleton_self x)
    have hLe := hLow _ (List.mem_append_left [x] hLast)
    constructor
    · rintro ⟨_, hNot⟩ hNext
      apply hNot
      rw [hNext, Int.add_sub_cancel]
      exact hLast
    · intro hSkip
      refine ⟨by omega, ?_⟩
      intro hMem
      have hUpTo := le_getLastD hFirst (lo - 1) hMem
      omega

theorem gapEnds_concat
    (hIncreasing :
      (xs ++ [x]).Pairwise (fun i j => i < j))
    (hLow : ∀ y ∈ xs ++ [x], lo ≤ y) :
    gapEnds lo (xs ++ [x]) =
      gapEnds lo xs ++
        if x = xs.getLastD (lo - 1) + 1 then [] else [x] := by
  have hSkips := skips_iff hIncreasing hLow
  have hBefore : ∀ y ∈ xs, y < x :=
    fun y hMem =>
      (List.pairwise_append.mp hIncreasing).2.2 y hMem x
        (List.mem_singleton_self x)
  rw [gapEnds, List.filter_append]
  congr 1
  · apply List.filter_congr
    intro y hMem
    have hLt := hBefore y hMem
    have hNe : y - 1 ≠ x := by omega
    simp [hNe]
  · have hNe : x - 1 ≠ x := by omega
    by_cases hNext : x = xs.getLastD (lo - 1) + 1
    · rw [if_pos hNext]
      apply List.filter_eq_nil_iff.mpr
      intro y hMem
      rw [List.mem_singleton.mp hMem]
      simp only [List.mem_append, List.mem_singleton, hNe,
        or_false, decide_eq_true_eq, hSkips]
      exact fun hSkip => hSkip hNext
    · rw [if_neg hNext]
      apply List.filter_eq_self.mpr
      intro y hMem
      rw [List.mem_singleton.mp hMem]
      simp only [List.mem_append, List.mem_singleton, hNe,
        or_false, decide_eq_true_eq, hSkips]
      exact hNext

theorem range_succ
    {hi : Int}
    (hLe : lo ≤ hi) :
    Int.range lo (hi + 1) = Int.range lo hi ++ [hi] := by
  rw [range_append hLe (by omega),
    range_cons (Int.lt_succ hi), range_nil (Int.le_refl _)]

theorem getLastD_range
    {hi : Int}
    (hLe : lo ≤ hi) :
    (Int.range lo hi).getLastD (lo - 1) = hi - 1 := by
  rcases hLe.eq_or_lt with rfl | hLt
  · rw [range_nil (Int.le_refl _), List.getLastD_nil]
  · obtain ⟨m, rfl⟩ : ∃ m, hi = m + 1 :=
      ⟨hi - 1, by omega⟩
    rw [range_succ (by omega), List.getLastD_concat]
    omega

/- Without a gap the list has every number. -/
theorem gapEnds_eq_nil_iff
    (hIncreasing : xs.Pairwise (fun i j => i < j))
    (hLow : ∀ y ∈ xs, lo ≤ y) :
    gapEnds lo xs = [] ↔
      xs = Int.range lo (lo + xs.length) := by
  induction xs using List.reverseRecOn with
  | nil =>
      rw [List.length_nil, Int.ofNat_zero, Int.add_zero,
        range_nil (Int.le_refl _)]
      exact iff_of_true rfl rfl
  | append_singleton xs x ih =>
      have hRest :=
        ih (List.pairwise_append.mp hIncreasing).1
          (fun y hMem =>
            hLow y (List.mem_append_left [x] hMem))
      have hSplit :
          Int.range lo (lo + (xs ++ [x]).length) =
            Int.range lo (lo + xs.length) ++
              [lo + xs.length] := by
        rw [List.length_append, List.length_singleton,
          Int.natCast_add, ← Int.add_assoc]
        exact range_succ (by omega)
      rw [gapEnds_concat hIncreasing hLow, hSplit,
        List.append_eq_nil_iff, hRest]
      constructor
      · rintro ⟨hAll, hNext⟩
        split at hNext
        · next hLast =>
            rw [hAll, getLastD_range (by omega)] at hLast
            rw [← hAll]
            congr 2
            omega
        · cases hNext
      · intro hSame
        rcases List.append_inj' hSame rfl with
          ⟨hAll, hLast⟩
        refine ⟨hAll, ?_⟩
        rw [if_pos]
        rw [hAll, getLastD_range (by omega),
          List.singleton_inj.mp hLast]
        omega

/- Every gap has a number of its own that is missing. -/
theorem length_gapEnds_le
    (hIncreasing : xs.Pairwise (fun i j => i < j))
    (hLow : ∀ y ∈ xs, lo ≤ y) :
    (gapEnds lo xs).length ≤
      (missing (fun i => i ∈ xs) lo
        (xs.getLastD (lo - 1) + 1)).length := by
  have hNodup :
      ((gapEnds lo xs).map (fun x => x - 1)).Nodup := by
    apply List.pairwise_map.mpr
    apply (hIncreasing.filter _).imp
    intro i j hLt hSame
    omega
  have hSub :
      (gapEnds lo xs).map (fun x => x - 1) ⊆
        missing (fun i => i ∈ xs) lo
          (xs.getLastD (lo - 1) + 1) := by
    intro i hMem
    rcases List.mem_map.mp hMem with ⟨x, hEnd, rfl⟩
    rcases mem_gapEnds.mp hEnd with ⟨hIn, hNe, hNot⟩
    have hLo := hLow x hIn
    have hHi := le_getLastD hIncreasing (lo - 1) hIn
    apply (mem_missing _).mpr
    exact ⟨by omega, hNot⟩
  rw [← List.length_map (fun x => x - 1)]
  exact (List.subperm_of_subset hNodup hSub).length_le

end Lib

end Cs2520
