import Mathlib.Algebra.BigOperators.Group.List.Basic
import Mathlib.Tactic.Ring

/-
  Running means in integers, and what their divisions drop.

  A mean of the latest samples is renewed from its last
  value by a division towards zero. Its error is the sum of
  all remainders that the divisions have dropped.

  Main declarations:
    * `tdiv_lt_iff`
    * `le_tdiv_iff`
    * `Throughout`
    * `recent`
    * `Mean`
    * `Mean.grow`
    * `Mean.slide`
    * `Mean.within_iff`
    * `slack`
-/

------------------------------------------------------------
-- Division Towards Zero
------------------------------------------------------------

namespace Cs2520

namespace Lib

/- A quotient is below a positive number. -/
theorem tdiv_lt_iff
    {a c d : Int}
    (hd : 0 < d)
    (hc : 0 < c) :
    a.tdiv d < c ↔ a < d * c := by
  rcases Int.le_total 0 a with hPos | hNeg
  · rw [Int.tdiv_eq_ediv_of_nonneg hPos,
      Int.ediv_lt_iff_lt_mul hd, Int.mul_comm c d]
  · have hProd : 0 < d * c := Int.mul_pos hd hc
    have hQuot : a.tdiv d ≤ 0 := by
      have hOpp : 0 ≤ (-a).tdiv d :=
        Int.tdiv_nonneg (by omega) (Int.le_of_lt hd)
      rw [Int.neg_tdiv] at hOpp
      omega
    constructor
    · intro _
      omega
    · intro _
      omega

/- A quotient is above the opposite of such a number. -/
theorem le_tdiv_iff
    {a c d : Int}
    (hd : 0 < d)
    (hc : 0 ≤ c) :
    -c ≤ a.tdiv d ↔ -(d * (c + 1)) < a := by
  have hOpp :=
    tdiv_lt_iff (a := -a) hd (by omega : 0 < c + 1)
  rw [Int.neg_tdiv] at hOpp
  constructor
  · intro hLe
    have hLt := hOpp.mp (by omega)
    omega
  · intro hLt
    have hLe := hOpp.mpr (by omega)
    omega

/- What a quotient leaves is the remainder. -/
theorem sub_tdiv_mul
    (a d : Int) :
    a - a.tdiv d * d = a.tmod d := by
  rw [Int.tdiv_mul_self]
  omega

/- A remainder is smaller than its divisor. -/
theorem tmod_bounds
    (a : Int)
    {d : Int}
    (hd : 0 < d) :
    -d < a.tmod d ∧ a.tmod d < d :=
  ⟨Int.lt_tmod_of_pos a hd, Int.tmod_lt_of_pos a hd⟩

end Lib

end Cs2520

------------------------------------------------------------
-- Conditions on a Sequence of Samples
------------------------------------------------------------

namespace Cs2520

namespace Lib

variable {α : Type}
variable {P Q : List α → α → Prop}
variable {xs pre : List α}

/-
  The condition holds of every sample but the first, with all
  samples before it.
-/
def Throughout
    (P : List α → α → Prop)
    (xs : List α) : Prop :=
  ∀ n, ∀ h : n < xs.length, 0 < n → P (xs.take n) xs[n]

instance
    [∀ pre x, Decidable (P pre x)] :
    Decidable (Throughout P xs) :=
  inferInstanceAs
    (Decidable
      (∀ n, ∀ h : n < xs.length,
        0 < n → P (xs.take n) xs[n]))

theorem throughout_iff :
    Throughout P xs ↔
      ∀ pre x, pre ≠ [] → pre ++ [x] <+: xs → P pre x := by
  constructor
  · rintro h pre x hSome ⟨post, rfl⟩
    have hLt : pre.length < (pre ++ [x] ++ post).length := by
      simp
    have hHere := h _ hLt (List.length_pos_of_ne_nil hSome)
    simpa using hHere
  · intro h n hLt hPos
    apply h
    · intro hNil
      have hLength := congrArg List.length hNil
      rw [List.length_take, List.length_nil] at hLength
      omega
    · rw [List.take_concat_get']
      exact List.take_prefix _ _

theorem Throughout.begin
    (h : Throughout P xs)
    (hPrefix : pre <+: xs) :
    Throughout P pre := by
  rw [throughout_iff] at h ⊢
  intro pre' x hSome hBegin
  exact h pre' x hSome (hBegin.trans hPrefix)

theorem throughout_nil :
    Throughout P [] := by
  intro n hLt
  exact absurd hLt (Nat.not_lt_zero n)

/- One more sample has to meet the condition. -/
theorem throughout_append
    {x : α} :
    Throughout P (xs ++ [x]) ↔
      Throughout P xs ∧ (xs ≠ [] → P xs x) := by
  constructor
  · intro h
    refine ⟨h.begin (List.prefix_append _ _), ?_⟩
    intro hSome
    exact throughout_iff.mp h xs x hSome List.prefix_rfl
  · rintro ⟨hOld, hNew⟩
    rw [throughout_iff] at hOld ⊢
    intro pre y hSome hPrefix
    rcases List.prefix_concat_iff.mp hPrefix with
      hAll | hBegin
    · rcases List.append_inj' hAll rfl with ⟨rfl, hSame⟩
      cases hSame
      exact hNew hSome
    · exact hOld pre y hSome hBegin

end Lib

end Cs2520

------------------------------------------------------------
-- Means of the Latest Samples
------------------------------------------------------------

namespace Cs2520

namespace Lib

variable {cap : Nat}
variable {xs : List Int}
variable {v v' r d x : Int}

/- The latest `cap` samples. -/
def recent
    (cap : Nat)
    (xs : List Int) : List Int :=
  xs.drop (xs.length - cap)

/- How many samples the mean is taken of. -/
def weight
    (cap : Nat)
    (xs : List Int) : Int :=
  min cap xs.length

/- The divisions that led to `v` have dropped `r`. -/
def Mean
    (cap : Nat)
    (xs : List Int)
    (v r : Int) : Prop :=
  weight cap xs * v = (recent cap xs).sum - r

/- `v` is within `bound` of the mean of the samples. -/
def Within
    (cap : Nat)
    (bound : Int)
    (xs : List Int)
    (v : Int) : Prop :=
  -(bound * weight cap xs) ≤
      weight cap xs * v - (recent cap xs).sum ∧
    weight cap xs * v - (recent cap xs).sum ≤
      bound * weight cap xs

theorem Mean.nil
    (cap : Nat)
    (v : Int) :
    Mean cap [] v 0 := by
  have hWeight : weight cap [] = 0 := by
    rw [weight, List.length_nil]
    omega
  rw [Mean, hWeight]
  simp [recent]

/- The error of a mean is what has been dropped. -/
theorem Mean.within_iff
    (h : Mean cap xs v r)
    (bound : Int) :
    Within cap bound xs v ↔
      -(bound * weight cap xs) ≤ r ∧
        r ≤ bound * weight cap xs := by
  have hMean : weight cap xs * v = (recent cap xs).sum - r := h
  unfold Within
  rw [hMean]
  constructor
  · rintro ⟨hLow, hHigh⟩
    constructor
    · omega
    · omega
  · rintro ⟨hLow, hHigh⟩
    constructor
    · omega
    · omega

/- While there is room, a sample enters the mean. -/
theorem Mean.grow
    (h : Mean cap xs v r)
    (hRoom : xs.length < cap)
    (hNext :
      ((xs.length : Int) + 1) * v' =
        v * xs.length + x - d) :
    Mean cap (xs ++ [x]) v' (r + d) := by
  have hOld : (xs.length : Int) * v = xs.sum - r := by
    have hMean : weight cap xs * v = (recent cap xs).sum - r := h
    have hWeight : weight cap xs = xs.length := by
      unfold weight
      omega
    have hAll : xs.length - cap = 0 := by
      omega
    rw [hWeight, recent, hAll, List.drop_zero] at hMean
    exact hMean
  have hWeight :
      weight cap (xs ++ [x]) = (xs.length : Int) + 1 := by
    rw [weight, List.length_append, List.length_singleton]
    omega
  have hAll : (xs ++ [x]).length - cap = 0 := by
    rw [List.length_append, List.length_singleton]
    omega
  rw [Mean, hWeight, hNext, recent, hAll, List.drop_zero,
    List.sum_append, List.sum_singleton,
    Int.mul_comm v]
  omega

/- Afterwards it replaces the oldest one. -/
theorem Mean.slide
    (h : Mean cap xs v r)
    (hPos : 0 < cap)
    (hFull : cap ≤ xs.length)
    (hNext :
      (cap : Int) * v' =
        cap * v +
            (x - xs.get ⟨xs.length - cap, by omega⟩) - d) :
    Mean cap (xs ++ [x]) v' (r + d) := by
  have hWeight : weight cap xs = cap := by
    unfold weight
    omega
  have hWeight' : weight cap (xs ++ [x]) = cap := by
    rw [weight, List.length_append, List.length_singleton]
    omega
  have hMean : weight cap xs * v = (recent cap xs).sum - r := h
  have hOldest :
      recent cap xs =
        xs.get ⟨xs.length - cap, by omega⟩ ::
          xs.drop (xs.length - cap + 1) :=
    List.drop_eq_getElem_cons _
  have hNewest :
      recent cap (xs ++ [x]) =
        xs.drop (xs.length - cap + 1) ++ [x] := by
    have hShift :
        (xs ++ [x]).length - cap = xs.length - cap + 1 := by
      rw [List.length_append, List.length_singleton]
      omega
    rw [recent, hShift, List.drop_append_of_le_length]
    omega
  rw [hWeight, hOldest, List.sum_cons] at hMean
  rw [Mean, hWeight', hNext, hNewest, List.sum_append,
    List.sum_singleton]
  omega

/-
  What the divisions by 1 to `n` can drop together: each of
  them less than its divisor.
-/
def slack : Nat → Int
  | 0 => 0
  | n + 1 => slack n + n

theorem two_mul_slack
    (n : Nat) :
    2 * slack n = (n : Int) * n - n := by
  induction n with
  | zero => rfl
  | succ n ih =>
      rw [slack, Int.mul_add, ih]
      push_cast
      ring

theorem slack_mono
    {m n : Nat}
    (hLe : m ≤ n) :
    slack m ≤ slack n := by
  induction hLe with
  | refl => exact Int.le_refl _
  | step _ ih =>
      rw [slack]
      omega

end Lib

end Cs2520
