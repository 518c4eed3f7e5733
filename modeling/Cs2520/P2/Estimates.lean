import Cs2520.Lib.RunningMean
import Cs2520.P2.Window
import Mathlib.Tactic.Ring

/-
  The estimates of the real-time receiver: `Base_Delta` and
  `Half_RTT`.

  An update divides seconds and microseconds by themselves,
  towards zero. `update32` is the same code with its 32-bit
  variables; where nothing overflows it is `update`, but for
  the records, of which only 32 bits are kept.

  Main declarations:
    * `Estimate.update32`
    * `Estimate.update_eq`
    * `Estimate.Fits`
    * `Estimate.Fits.update32`
    * `Estimate.run32_of_fits`
    * `Estimate.fitting_of_run32`
    * `RtRcv.run_estimates`
-/

------------------------------------------------------------
-- The Code with 32-Bit Variables
------------------------------------------------------------

namespace Cs2520

namespace P2

open Lib

namespace Estimate

/- No record yet. -/
def blank
    (value : Timeval) : Estimate where
  value := value
  sec := fun _ => 0
  usec := fun _ => 0
  count := 0

/- An estimate that takes in samples one by one. -/
def records : Machine Estimate Timeval Empty where
  step := fun e sample => (e.update sample, [])

/- The first sample: its record is of 32 bits. -/
def start32
    (e : Estimate)
    (sample : Timeval) : Estimate where
  value := sample
  sec := Function.update e.sec e.count (toInt32 sample.sec)
  usec :=
    Function.update e.usec e.count (toInt32 sample.usec)
  count := e.count + 1

/-
  `t1`, `t2`, `t3`, the counter and the records are of type
  `int32_t`, times are of 64 bits. The products of `t1` and
  `t2` and the next count are 32-bit operations.
-/
def update32
    (e : Estimate)
    (sample : Timeval) : Option Estimate :=
  let i := e.count
  if i < recordSize then do
    let t1 :=
      toInt32
        ((e.value.sec * i + sample.sec).tdiv (i + 1))
    let whole ← int32? (t1 * (i + 1))
    let t2 :=
      toInt32 (e.value.sec * i + sample.sec - whole)
    let rest ← int32? (t2 * 1000000)
    let t3 :=
      toInt32
        ((rest + e.value.usec * i + sample.usec).tdiv
          (i + 1))
    let next ← int32? (i + 1)
    some
      { value := { sec := t1, usec := t3 }
        sec := Function.update e.sec i (toInt32 sample.sec)
        usec :=
          Function.update e.usec i (toInt32 sample.usec)
        count := next }
  else do
    let k := i.tmod recordSize
    let t1 :=
      toInt32 ((sample.sec - e.sec k).tdiv recordSize)
    let whole ← int32? (t1 * recordSize)
    let t2 := toInt32 (sample.sec - e.sec k - whole)
    let rest ← int32? (t2 * 1000000)
    let t3 :=
      toInt32
        ((rest + sample.usec - e.usec k).tdiv recordSize)
    let next ← int32? (i + 1)
    some
      { value :=
          { sec := e.value.sec + t1
            usec := e.value.usec + t3 }
        sec := Function.update e.sec k (toInt32 sample.sec)
        usec :=
          Function.update e.usec k (toInt32 sample.usec)
        count := next }

/- The code for a whole sequence of samples. -/
def run32
    (value : Timeval) : List Timeval → Option Estimate
  | [] => some (blank value)
  | first :: rest =>
      rest.foldlM update32 ((blank value).start32 first)

end Estimate

end P2

end Cs2520

------------------------------------------------------------
-- One Division for Both Cases
------------------------------------------------------------

namespace Cs2520

namespace P2

open Lib

namespace Estimate

variable (e : Estimate)
variable (sample : Timeval)

/- By what an update divides. -/
def divisor : Int :=
  if e.count < recordSize then e.count + 1 else recordSize

/- To what the quotient is added. -/
def base : Timeval :=
  if e.count < recordSize then .zero else e.value

/- What is divided: the new sum, or what replaces what. -/
def pending : Timeval :=
  if e.count < recordSize then
    { sec := e.value.sec * e.count + sample.sec
      usec := e.value.usec * e.count + sample.usec }
  else
    { sec := sample.sec - e.sec (e.count.tmod recordSize)
      usec :=
        sample.usec - e.usec (e.count.tmod recordSize) }

/- The microseconds left when the seconds are divided. -/
def leftover : Int :=
  (e.pending sample).sec.tmod e.divisor * 1000000 +
    (e.pending sample).usec

/- What the second division drops. -/
def dropped : Int :=
  (e.leftover sample).tmod e.divisor

theorem divisor_pos
    {e : Estimate}
    (hCount : 0 ≤ e.count) :
    0 < e.divisor := by
  unfold divisor
  split
  · omega
  · decide

theorem divisor_le
    (e : Estimate) :
    e.divisor ≤ recordSize := by
  unfold divisor
  split
  · omega
  · exact Int.le_refl _

/- Where the record of a sample goes. -/
def place : Int :=
  if e.count < recordSize then
    e.count
  else
    e.count.tmod recordSize

/- Both cases divide the same way. -/
theorem update_eq :
    e.update sample =
      { value :=
          { sec :=
              e.base.sec +
                (e.pending sample).sec.tdiv e.divisor
            usec :=
              e.base.usec +
                (e.leftover sample).tdiv e.divisor }
        sec := Function.update e.sec e.place sample.sec
        usec := Function.update e.usec e.place sample.usec
        count := e.count + 1 } := by
  unfold update leftover pending base divisor place
  by_cases hGrowing : e.count < recordSize
  · simp only [if_pos hGrowing]
    rw [sub_tdiv_mul, Int.add_assoc]
    simp only [Timeval.zero, Int.zero_add]
  · simp only [if_neg hGrowing]
    rw [sub_tdiv_mul, Int.add_sub_assoc]

@[simp] theorem update_count :
    (e.update sample).count = e.count + 1 := by
  rw [update_eq]

/- The first sample replaces the value. -/
theorem blank_update
    (value : Timeval) :
    (blank value).update sample = (blank value).start sample
    := by
  have hFirst : (0 : Int) < recordSize := by decide
  simp [update, start, blank, hFirst]

end Estimate

end P2

end Cs2520

------------------------------------------------------------
-- Where Nothing Overflows
------------------------------------------------------------

namespace Cs2520

namespace P2

open Lib

namespace Estimate

/- An estimate of whose records 32 bits are kept. -/
def cut
    (e : Estimate) : Estimate where
  value := e.value
  sec := toInt32 ∘ e.sec
  usec := toInt32 ∘ e.usec
  count := e.count

@[simp] theorem cut_value
    (e : Estimate) :
    e.cut.value = e.value := rfl

@[simp] theorem cut_count
    (e : Estimate) :
    e.cut.count = e.count := rfl

/-
  The product of the seconds and the next count are 32-bit
  integers, and so were the seconds that are replaced.
-/
structure Fits
    (e : Estimate)
    (sample : Timeval) : Prop where
  product :
    InInt32
      ((e.pending sample).sec -
        (e.pending sample).sec.tmod e.divisor)
  count : InInt32 (e.count + 1)
  record :
    recordSize ≤ e.count →
      InInt32 (e.sec (e.count.tmod recordSize))

/- The records and the microseconds are bounded. -/
structure Regular
    (e : Estimate) : Prop where
  count : 1 ≤ e.count
  stored : ∀ k, 0 ≤ e.usec k ∧ e.usec k < 1000000
  growing :
    e.count < recordSize →
      -(1000000 * e.count) ≤ e.value.usec ∧
        e.value.usec ≤ 1000000 * e.count

/- So are the seconds, where those of the samples are. -/
structure Recorded
    (e : Estimate) : Prop where
  count : 1 ≤ e.count
  stored : ∀ k, InInt32 (e.sec k)
  growing : e.count < recordSize → InInt32 e.value.sec

variable {e : Estimate}
variable {sample : Timeval}

/- The microseconds to be divided are bounded. -/
theorem Regular.leftover_bounds
    (h : Regular e)
    (hSample : sample.Normal) :
    -(e.divisor * (1000000 * e.divisor)) ≤
        e.leftover sample ∧
      e.leftover sample ≤
        e.divisor * (1000000 * e.divisor) := by
  have hLow := hSample.nonneg
  have hHigh := hSample.lt
  have hCount := h.count
  have hRest :=
    tmod_bounds (e.pending sample).sec
      (divisor_pos (e := e) (by omega))
  rw [leftover]
  generalize
    (e.pending sample).sec.tmod e.divisor = rest at hRest ⊢
  by_cases hGrowing : e.count < recordSize
  · rcases h.growing hGrowing with ⟨hMin, hMax⟩
    have hMin' :=
      Int.mul_le_mul_of_nonneg_right hMin
        (by omega : 0 ≤ e.count)
    have hMax' :=
      Int.mul_le_mul_of_nonneg_right hMax
        (by omega : 0 ≤ e.count)
    have hMinEq :
        -(1000000 * e.count) * e.count =
          -(1000000 * (e.count * e.count)) := by
      ring
    have hMaxEq :
        1000000 * e.count * e.count =
          1000000 * (e.count * e.count) := by
      ring
    have hSquare :
        (e.count + 1) * (1000000 * (e.count + 1)) =
          1000000 * (e.count * e.count) +
            2000000 * e.count + 1000000 := by
      ring
    simp only [divisor, pending, if_pos hGrowing]
      at hRest ⊢
    rw [hSquare]
    constructor
    · omega
    · omega
  · rcases h.stored (e.count.tmod recordSize) with
      ⟨hOldLow, hOldHigh⟩
    simp only [divisor, pending, if_neg hGrowing,
      recordSize] at hOldLow hOldHigh hRest ⊢
    constructor
    · omega
    · omega

/- So is their quotient. -/
theorem Regular.quotient_bounds
    (h : Regular e)
    (hSample : sample.Normal) :
    -(1000000 * e.divisor) ≤
        (e.leftover sample).tdiv e.divisor ∧
      (e.leftover sample).tdiv e.divisor ≤
        1000000 * e.divisor := by
  have hCount := h.count
  have hPos := divisor_pos (e := e) (by omega)
  rcases h.leftover_bounds hSample with ⟨hLow, hHigh⟩
  have hNext :
      e.divisor * (1000000 * e.divisor + 1) =
        e.divisor * (1000000 * e.divisor) + e.divisor := by
    ring
  constructor
  · apply (le_tdiv_iff hPos (by omega)).mpr
    omega
  · have hLt :
        (e.leftover sample).tdiv e.divisor <
          1000000 * e.divisor + 1 := by
      apply (tdiv_lt_iff hPos (by omega)).mpr
      omega
    omega

/- The quotient of the microseconds is a 32-bit integer. -/
theorem Regular.quotient_fits
    (h : Regular e)
    (hSample : sample.Normal) :
    InInt32 ((e.leftover sample).tdiv e.divisor) := by
  have hBounds := h.quotient_bounds hSample
  have hLe : e.divisor ≤ 100 := divisor_le e
  constructor
  · omega
  · omega

theorem Regular.update
    (h : Regular e)
    (hSample : sample.Normal) :
    Regular (e.update sample) where
  count := by
    have hCount := h.count
    rw [update_count]
    omega
  stored := by
    intro k
    rw [update_eq]
    dsimp only
    by_cases hPlace : k = e.place
    · rw [hPlace, Function.update_self]
      exact ⟨hSample.nonneg, hSample.lt⟩
    · rw [Function.update_of_ne hPlace]
      exact h.stored k
  growing := by
    intro hNext
    rw [update_count] at hNext ⊢
    have hGrowing : e.count < recordSize := by
      omega
    have hBounds := h.quotient_bounds hSample
    have hDivisor : e.divisor = e.count + 1 :=
      if_pos hGrowing
    have hBase : e.base = .zero := if_pos hGrowing
    rw [update_eq, hBase]
    rw [hDivisor] at hBounds ⊢
    simp only [Timeval.zero, Int.zero_add]
    exact hBounds

/- The quotient of the seconds is a 32-bit integer. -/
theorem Recorded.quotient_fits
    (h : Recorded e)
    (hSec : InInt32 sample.sec) :
    InInt32 ((e.pending sample).sec.tdiv e.divisor) := by
  have hCount := h.count
  have hPos := divisor_pos (e := e) (by omega)
  rcases hSec with ⟨hLow, hHigh⟩
  have hBounds :
      -(e.divisor * 2147483648) ≤ (e.pending sample).sec ∧
        (e.pending sample).sec < e.divisor * 2147483648
      := by
    by_cases hGrowing : e.count < recordSize
    · rcases h.growing hGrowing with ⟨hMin, hMax⟩
      have hMin' :=
        Int.mul_le_mul_of_nonneg_right hMin
          (by omega : 0 ≤ e.count)
      have hMax' :=
        Int.mul_le_mul_of_nonneg_right
          (by omega : e.value.sec ≤ 2147483648)
          (by omega : 0 ≤ e.count)
      simp only [divisor, pending, if_pos hGrowing]
      constructor
      · omega
      · omega
    · rcases h.stored (e.count.tmod recordSize) with
        ⟨hMin, hMax⟩
      simp only [divisor, pending, if_neg hGrowing,
        recordSize] at hMin hMax ⊢
      constructor
      · omega
      · omega
  constructor
  · apply (le_tdiv_iff hPos (by decide)).mpr
    omega
  · apply (tdiv_lt_iff hPos (by decide)).mpr
    exact hBounds.2

theorem Recorded.update
    (h : Recorded e)
    (hSec : InInt32 sample.sec) :
    Recorded (e.update sample) where
  count := by
    have hCount := h.count
    rw [update_count]
    omega
  stored := by
    intro k
    rw [update_eq]
    dsimp only
    by_cases hPlace : k = e.place
    · rw [hPlace, Function.update_self]
      exact hSec
    · rw [Function.update_of_ne hPlace]
      exact h.stored k
  growing := by
    intro hNext
    rw [update_count] at hNext
    have hBase : e.base = .zero :=
      if_pos (by omega : e.count < recordSize)
    rw [update_eq, hBase]
    simp only [Timeval.zero, Int.zero_add]
    exact h.quotient_fits hSec

/- A remainder of seconds is small. -/
theorem rest_fits
    (sample : Timeval)
    (hPos : 0 < e.divisor) :
    InInt32 ((e.pending sample).sec.tmod e.divisor) ∧
      InInt32
        ((e.pending sample).sec.tmod e.divisor * 1000000)
    := by
  have hRest := tmod_bounds (e.pending sample).sec hPos
  have hLe : e.divisor ≤ 100 := divisor_le e
  constructor
  · constructor
    · omega
    · omega
  · constructor
    · omega
    · omega

/- Microseconds below a second need no more than 32 bits. -/
theorem toInt32_micros
    {x : Int}
    (hLow : 0 ≤ x)
    (hHigh : x < 1000000) :
    toInt32 x = x := by
  apply toInt32_of_in
  constructor
  · omega
  · omega

/- A new record is cut as well. -/
theorem cut_update
    (f : Int → Int)
    (i x : Int) :
    toInt32 ∘ Function.update f i x =
      Function.update (toInt32 ∘ f) i (toInt32 x) :=
  Function.comp_update _ _ _ _

/-
  The code with 32-bit variables does what `update` does, or
  overflows, where the quotient and the old record fit.
-/
theorem Regular.update32_eq_some_iff
    (h : Regular e)
    (hSample : sample.Normal)
    (hQuotient :
      InInt32 ((e.pending sample).sec.tdiv e.divisor))
    (hRecord :
      recordSize ≤ e.count →
        InInt32 (e.sec (e.count.tmod recordSize)))
    {e' : Estimate} :
    e.cut.update32 sample = some e' ↔
      Fits e sample ∧ e' = (e.update sample).cut := by
  have hCount := h.count
  have hPos := divisor_pos (e := e) (by omega)
  have hMicros := h.quotient_fits hSample
  rcases rest_fits sample hPos with ⟨hRest, hScaled⟩
  have hFits :
      Fits e sample ↔
        InInt32
            ((e.pending sample).sec.tdiv e.divisor *
              e.divisor) ∧
          InInt32 (e.count + 1) := by
    rw [Int.tdiv_mul_self]
    constructor
    · intro hFits
      exact ⟨hFits.product, hFits.count⟩
    · rintro ⟨hProduct, hNext⟩
      exact ⟨hProduct, hNext, hRecord⟩
  rw [hFits]
  unfold update32 Estimate.update
  by_cases hGrowing : e.count < recordSize
  · simp only [divisor, pending, leftover,
      if_pos hGrowing] at hQuotient hMicros
    simp only [divisor, pending, if_pos hGrowing]
      at hRest hScaled
    simp only [cut_count, cut_value, divisor, pending,
      if_pos hGrowing, toInt32_of_in hQuotient,
      Option.bind_eq_bind]
    by_cases hProduct :
        InInt32
          ((e.value.sec * e.count + sample.sec).tdiv
              (e.count + 1) * (e.count + 1))
    · simp only [int32?_of_in hProduct, Option.bind_some,
        sub_tdiv_mul, toInt32_of_in hRest,
        int32?_of_in hScaled, Int.add_assoc,
        toInt32_of_in hMicros, cut, cut_update,
        Option.bind_eq_some_iff, int32?_eq_some_iff]
      constructor
      · rintro ⟨_, ⟨hNext, rfl⟩, hEnd⟩
        exact
          ⟨⟨hProduct, hNext⟩, (Option.some.inj hEnd).symm⟩
      · rintro ⟨⟨_, hNext⟩, rfl⟩
        exact ⟨_, ⟨hNext, rfl⟩, rfl⟩
    · simp [int32?, hProduct]
  · rcases h.stored (e.count.tmod recordSize) with
      ⟨hOldLow, hOldHigh⟩
    have hSec :
        e.cut.sec (e.count.tmod recordSize) =
          e.sec (e.count.tmod recordSize) :=
      toInt32_of_in (hRecord (by omega))
    have hUsec :
        e.cut.usec (e.count.tmod recordSize) =
          e.usec (e.count.tmod recordSize) :=
      toInt32_micros hOldLow hOldHigh
    simp only [divisor, pending, leftover,
      if_neg hGrowing] at hQuotient hMicros
    simp only [divisor, pending, if_neg hGrowing]
      at hRest hScaled
    simp only [cut_count, cut_value, hSec, hUsec, divisor,
      pending, if_neg hGrowing, toInt32_of_in hQuotient,
      Option.bind_eq_bind]
    by_cases hProduct :
        InInt32
          ((sample.sec -
              e.sec (e.count.tmod recordSize)).tdiv
              recordSize * recordSize)
    · simp only [int32?_of_in hProduct, Option.bind_some,
        sub_tdiv_mul, toInt32_of_in hRest,
        int32?_of_in hScaled, Int.add_sub_assoc,
        toInt32_of_in hMicros, cut, cut_update,
        Option.bind_eq_some_iff, int32?_eq_some_iff]
      constructor
      · rintro ⟨_, ⟨hNext, rfl⟩, hEnd⟩
        exact
          ⟨⟨hProduct, hNext⟩, (Option.some.inj hEnd).symm⟩
      · rintro ⟨⟨_, hNext⟩, rfl⟩
        exact ⟨_, ⟨hNext, rfl⟩, rfl⟩
    · simp [int32?, hProduct]

/- A quotient is not above the product it came from. -/
theorem Fits.quotient
    (h : Fits e sample)
    (hCount : 0 ≤ e.count) :
    InInt32 ((e.pending sample).sec.tdiv e.divisor) := by
  have hPos := divisor_pos hCount
  rcases h.product with ⟨hLow, hHigh⟩
  rw [← Int.tdiv_mul_self] at hLow hHigh
  generalize
    (e.pending sample).sec.tdiv e.divisor = q
    at hLow hHigh ⊢
  rcases Int.le_total 0 q with hNonneg | hNonpos
  · have hLe : q * 1 ≤ q * e.divisor :=
      Int.mul_le_mul_of_nonneg_left hPos hNonneg
    constructor
    · omega
    · omega
  · have hLe : q * e.divisor ≤ q * 1 :=
      Int.mul_le_mul_of_nonpos_left hNonpos hPos
    constructor
    · omega
    · omega

/- Where the update fits, the code does it. -/
theorem Fits.update32
    (hFits : Fits e sample)
    (h : Regular e)
    (hSample : sample.Normal) :
    e.cut.update32 sample = some (e.update sample).cut := by
  have hCount := h.count
  exact
    (h.update32_eq_some_iff hSample
      (hFits.quotient (by omega)) hFits.record).mpr
      ⟨hFits, rfl⟩

end Estimate

end P2

end Cs2520

------------------------------------------------------------
-- Sequences of Samples
------------------------------------------------------------

namespace Cs2520

namespace P2

open Lib

namespace Estimate

variable {sample : Timeval}

/- A sample whose seconds an `int32_t` record can hold. -/
structure Recordable
    (sample : Timeval) : Prop where
  normal : sample.Normal
  sec : InInt32 sample.sec

/- After the first sample the estimate is regular. -/
theorem regular_first
    (value : Timeval)
    (hSample : sample.Normal) :
    Regular ((blank value).update sample) where
  count := by
    rw [update_count]
    exact Int.le_refl 1
  stored := by
    intro k
    rw [blank_update, start]
    dsimp only
    by_cases hFirst : k = (blank value).count
    · rw [hFirst, Function.update_self]
      exact ⟨hSample.nonneg, hSample.lt⟩
    · rw [Function.update_of_ne hFirst]
      exact (by decide : (0 : Int) ≤ 0 ∧ (0 : Int) < 1000000)
  growing := by
    intro _
    have hLow := hSample.nonneg
    have hHigh := hSample.lt
    rw [blank_update]
    change
      -(1000000 * (0 + 1)) ≤ sample.usec ∧
        sample.usec ≤ 1000000 * (0 + 1)
    omega

theorem recorded_first
    (value : Timeval)
    (hSec : InInt32 sample.sec) :
    Recorded ((blank value).update sample) where
  count := by
    rw [update_count]
    exact Int.le_refl 1
  stored := by
    intro k
    rw [blank_update, start]
    dsimp only
    by_cases hFirst : k = (blank value).count
    · rw [hFirst, Function.update_self]
      exact hSec
    · rw [Function.update_of_ne hFirst]
      exact (by decide : InInt32 0)
  growing := by
    intro _
    rw [blank_update]
    exact hSec

theorem regular_run
    (value : Timeval)
    {samples : List Timeval}
    (hSamples : ∀ s ∈ samples, s.Normal)
    (hSome : samples ≠ []) :
    Regular (records.run (blank value) samples) := by
  induction samples using List.reverseRecOn with
  | nil => exact absurd rfl hSome
  | append_singleton samples sample ih =>
      rcases List.forall_mem_append.mp hSamples with
        ⟨hOld, hNew⟩
      have hSample := hNew _ (List.mem_singleton_self _)
      by_cases hNil : samples = []
      · subst hNil
        exact regular_first value hSample
      · rw [Machine.run_append]
        exact (ih hOld hNil).update hSample

theorem recorded_run
    (value : Timeval)
    {samples : List Timeval}
    (hSamples : ∀ s ∈ samples, Recordable s)
    (hSome : samples ≠ []) :
    Recorded (records.run (blank value) samples) := by
  induction samples using List.reverseRecOn with
  | nil => exact absurd rfl hSome
  | append_singleton samples sample ih =>
      rcases List.forall_mem_append.mp hSamples with
        ⟨hOld, hNew⟩
      have hSec := (hNew _ (List.mem_singleton_self _)).sec
      by_cases hNil : samples = []
      · subst hNil
        exact recorded_first value hSec
      · rw [Machine.run_append]
        exact (ih hOld hNil).update hSec

/- The first sample is copied. -/
theorem run32_singleton
    (value : Timeval)
    (sample : Timeval) :
    run32 value [sample] =
      some (records.run (blank value) [sample]).cut := by
  have hUpdate :
      records.run (blank value) [sample] =
        (blank value).start sample :=
    blank_update sample value
  have hZero : toInt32 ∘ (fun _ => 0) = fun _ : Int => 0 :=
    rfl
  rw [hUpdate]
  simp [run32, start32, start, cut, cut_update, blank, hZero]

/- The code goes on with every further sample. -/
theorem run32_append
    (value : Timeval)
    {samples : List Timeval}
    (hSome : samples ≠ [])
    (sample : Timeval) :
    run32 value (samples ++ [sample]) =
      (run32 value samples).bind
        (fun e => e.update32 sample) := by
  cases samples with
  | nil => exact absurd rfl hSome
  | cons first rest =>
      rw [List.cons_append, run32, run32,
        List.foldlM_append]
      apply congrArg
      funext e
      rw [List.foldlM_cons, Option.bind_eq_bind]
      exact Option.bind_fun_some _

/- Every update of the sequence fits. -/
def Fitting
    (value : Timeval)
    (samples : List Timeval) : Prop :=
  Throughout
    (fun pre s => Fits (records.run (blank value) pre) s)
    samples

/- Where all updates fit, the code does all of them. -/
theorem run32_of_fits
    (value : Timeval)
    {samples : List Timeval}
    (hSamples : ∀ s ∈ samples, s.Normal)
    (hFits : Fitting value samples) :
    run32 value samples =
      some (records.run (blank value) samples).cut := by
  induction samples using List.reverseRecOn with
  | nil => rfl
  | append_singleton samples sample ih =>
      rcases List.forall_mem_append.mp hSamples with
        ⟨hOld, hNew⟩
      rcases throughout_append.mp hFits with
        ⟨hBefore, hHere⟩
      by_cases hNil : samples = []
      · subst hNil
        exact run32_singleton value sample
      · rw [run32_append value hNil, ih hOld hBefore,
          Machine.run_append]
        exact
          (hHere hNil).update32
            (regular_run value hOld hNil)
            (hNew _ (List.mem_singleton_self _))

/- With seconds of 32 bits it does them only there. -/
theorem fitting_of_run32
    (value : Timeval)
    {samples : List Timeval}
    (hSamples : ∀ s ∈ samples, Recordable s)
    {e' : Estimate}
    (hRun : run32 value samples = some e') :
    Fitting value samples := by
  induction samples using List.reverseRecOn
    generalizing e' with
  | nil => exact throughout_nil
  | append_singleton samples sample ih =>
      rcases List.forall_mem_append.mp hSamples with
        ⟨hOld, hNew⟩
      have hSample := hNew _ (List.mem_singleton_self _)
      have hNormal : ∀ s ∈ samples, s.Normal :=
        fun s hMem => (hOld s hMem).normal
      by_cases hNil : samples = []
      · subst hNil
        exact
          throughout_append.mpr
            ⟨throughout_nil, fun hSome => absurd rfl hSome⟩
      · rw [run32_append value hNil] at hRun
        rcases Option.bind_eq_some_iff.mp hRun with
          ⟨e, hBefore, hLast⟩
        have hFits := ih hOld hBefore
        rw [run32_of_fits value hNormal hFits] at hBefore
        cases hBefore
        have hRegular := regular_run value hNormal hNil
        have hRecorded := recorded_run value hOld hNil
        have hHere :=
          (hRegular.update32_eq_some_iff hSample.normal
            (hRecorded.quotient_fits hSample.sec)
            (fun _ => hRecorded.stored _)).mp hLast
        exact
          throughout_append.mpr
            ⟨hFits, fun _ => hHere.1⟩

end Estimate

end P2

end Cs2520

------------------------------------------------------------
-- The Estimates of the Program
------------------------------------------------------------

namespace Cs2520

namespace P2

open Lib

theorem normal_halfTime
    {t : Timeval}
    (ht : t.Normal) :
    (halfTime t).Normal := by
  have hLow := ht.nonneg
  have hHigh := ht.lt
  have hQuot : t.usec.tdiv 2 = t.usec / 2 :=
    Int.tdiv_eq_ediv_of_nonneg hLow
  unfold halfTime
  rw [hQuot]
  constructor
  · dsimp only
    split
    · omega
    · omega
  · dsimp only
    split
    · omega
    · omega

/- The times that samples are taken from are normal. -/
structure Timed
    (p : Package) : Prop where
  sendTS : p.sendTS.Normal
  receiveTS1 : p.receiveTS1.Normal
  ackackTS : p.ackackTS.Normal
  nSendTS :
    p.type = 6 ∨ p.nSendTS.sec ≠ -1 → p.nSendTS.Normal

namespace RtRcv

open Estimate

variable {A : Type}
variable {latency : Nat}

/- An estimate is kept, or takes in a normal sample. -/
def Fed
    (e e' : Estimate) : Prop :=
  e' = e ∨ ∃ sample, sample.Normal ∧ e' = e.update sample

/- Both estimates of the program. -/
structure FedBoth
    (r q : RtRcv A) : Prop where
  baseDelta : Fed r.baseDelta q.baseDelta
  halfRTT : Fed r.halfRTT q.halfRTT

theorem FedBoth.of_eq
    {r q : RtRcv A}
    (hDelta : q.baseDelta = r.baseDelta)
    (hRTT : q.halfRTT = r.halfRTT) :
    FedBoth r q :=
  ⟨Or.inl hDelta, Or.inl hRTT⟩

/- Deliveries keep both estimates and the connection. -/
theorem deliverPass_estimates
    (latency : Nat)
    (c : Clocks)
    (r : RtRcv A) :
    (r.deliverPass latency c).1.baseDelta = r.baseDelta ∧
      (r.deliverPass latency c).1.halfRTT = r.halfRTT ∧
      (r.deliverPass latency c).1.getpermission =
        r.getpermission :=
  deliverPass_keeps
    (P := fun q =>
      q.baseDelta = r.baseDelta ∧
        q.halfRTT = r.halfRTT ∧
        q.getpermission = r.getpermission)
    (fun _ _ hSame => hSame) ⟨rfl, rfl, rfl⟩

/- When the received packet was sent. -/
def sentTime
    (p : Package) : Timeval :=
  if p.type = 0 then p.sendTS else p.nSendTS

theorem measure_estimates
    (c : Clocks)
    (r : RtRcv A) :
    (r.measure c).baseDelta =
        r.baseDelta.update
          (Timeval.timersub c.accept.toTimeval
            (sentTime r.senderPkt)) ∧
      (r.measure c).halfRTT = r.halfRTT := by
  rcases measure_eq_sample c r with ⟨_, _, _, hSample⟩
  rw [hSample]
  exact ⟨rfl, rfl⟩

/- An accepted packet gives a sample of the delta. -/
theorem measure_fed
    (c : Clocks)
    {r : RtRcv A}
    (hType : r.senderPkt.type = 0 ∨ r.senderPkt.type = 6)
    (hTimed : Timed r.senderPkt) :
    FedBoth r (r.measure c) := by
  rcases measure_estimates c r with ⟨hDelta, hRTT⟩
  have hSent : (sentTime r.senderPkt).Normal := by
    unfold sentTime
    split
    · exact hTimed.sendTS
    · next hNot =>
        have hResent := Or.resolve_left hType hNot
        exact hTimed.nSendTS (Or.inl hResent)
  constructor
  · exact
      Or.inr ⟨_, c.accept.normal.timersub hSent, hDelta⟩
  · exact Or.inl hRTT

/- An ACKACK gives samples of both estimates. -/
theorem ackackPacket_fed
    (c : Clocks)
    {r : RtRcv A}
    (hTimed : Timed r.senderPkt) :
    FedBoth r (r.ackackPacket c) := by
  have hSent :
      (if r.senderPkt.nSendTS.sec = -1 then
          r.senderPkt.sendTS
        else
          r.senderPkt.nSendTS).Normal := by
    split
    · exact hTimed.sendTS
    · next hNot => exact hTimed.nSendTS (Or.inr hNot)
  have hTrips :=
    (c.ackack.normal.timersub hTimed.receiveTS1).timeradd
      (hTimed.ackackTS.timersub hSent)
  constructor
  · exact
      Or.inr
        ⟨_, c.ackack.normal.timersub hTimed.ackackTS, rfl⟩
  · exact
      Or.inr
        ⟨_, normal_halfTime (normal_halfTime hTrips),
          updateHalfRTT_eq_update _ _⟩

theorem Receiving.fed
    {c : Clocks}
    {r : RtRcv A}
    {packet : Option (A × Package)}
    {res : RtRcv A × List (Out A)}
    (hRes : Receiving latency c r packet res)
    (hTimed :
      ∀ a pkt, packet = some (a, pkt) → Timed pkt) :
    FedBoth r res.1 := by
  cases hRes with
  | idle _ => exact .of_eq rfl rfl
  | reported _ => exact .of_eq rfl rfl
  | @stored a pkt hType _ _ =>
      have hFed :=
        measure_fed c
          (r :=
            { r.recvfrom a pkt with
              now := c.examine.toTimeval })
          hType (hTimed a pkt rfl)
      exact ⟨hFed.baseDelta, hFed.halfRTT⟩
  | late _ => exact .of_eq rfl rfl
  | outside _ => exact .of_eq rfl rfl
  | @ackacked a pkt _ _ =>
      have hFed :=
        ackackPacket_fed c (r := r.recvfrom a pkt)
          (hTimed a pkt rfl)
      exact ⟨hFed.baseDelta, hFed.halfRTT⟩
  | ignored _ _ => exact .of_eq rfl rfl

/- The samples so far explain an estimate. -/
def Explained
    (value : Timeval)
    (connected : Bool)
    (e : Estimate) : Prop :=
  ∃ samples,
    (∀ s ∈ samples, s.Normal) ∧
      (connected = false → samples = []) ∧
      e = records.run (blank value) samples

theorem Explained.feed
    {value : Timeval}
    {connected : Bool}
    {e e' : Estimate}
    (h : Explained value connected e)
    (hFed : Fed e e') :
    Explained value true e' := by
  rcases h with ⟨samples, hNormal, _, rfl⟩
  rcases hFed with rfl | ⟨s, hSample, rfl⟩
  · refine ⟨samples, hNormal, ?_, rfl⟩
    intro hNot
    cases hNot
  · refine ⟨samples ++ [s], ?_, ?_, ?_⟩
    · intro s' hMem
      rcases List.mem_append.mp hMem with hOld | hNew
      · exact hNormal s' hOld
      · rw [List.mem_singleton.mp hNew]
        exact hSample
    · intro hNot
      cases hNot
    · rw [Machine.run_append]
      rfl

/- The permission gives the first samples. -/
theorem Explained.start
    {value : Timeval}
    {e : Estimate}
    (h : Explained value false e)
    {sample : Timeval}
    (hSample : sample.Normal) :
    Explained value true (e.start sample) := by
  have hFed : Fed e (e.start sample) := by
    rcases h with ⟨samples, _, hNone, rfl⟩
    rw [hNone rfl]
    exact Or.inr ⟨sample, hSample, (blank_update _ _).symm⟩
  exact h.feed hFed

/- Both estimates are explained by their samples. -/
structure BothExplained
    (r : RtRcv A) : Prop where
  baseDelta :
    Explained .zero r.getpermission r.baseDelta
  halfRTT :
    Explained { sec := 0, usec := 40000 } r.getpermission
      r.halfRTT

/- The event carries no packet, or one with normal times. -/
def Brings
    (e : Ev A) : Prop :=
  ∀ a pkt, e.packet = some (a, pkt) → Timed pkt

/- A pass of the connection loop. -/
theorem BothExplained.connecting
    {r : RtRcv A}
    (h : BothExplained r)
    (hNew : r.getpermission = false)
    {e : Ev A}
    (hTimed : Brings e)
    {res : RtRcv A × List (Out A)}
    (hRes : Connecting latency e.clocks r e.packet res) :
    BothExplained res.1 := by
  rcases e with ⟨packet, c⟩
  cases hRes with
  | asked => exact ⟨h.baseDelta, h.halfRTT⟩
  | declined _ => exact ⟨h.baseDelta, h.halfRTT⟩
  | permitted _ =>
      have hPkt := hTimed _ _ rfl
      have hDelta := h.baseDelta
      have hRTT := h.halfRTT
      rw [hNew] at hDelta hRTT
      have hSample :=
        c.permission.normal.timersub hPkt.receiveTS1
      have hTrip :=
        c.permission.normal.timersub hPkt.sendTS
      exact
        ⟨hDelta.start hSample,
          hRTT.start (normal_halfTime hTrip)⟩
  | ignored _ _ => exact ⟨h.baseDelta, h.halfRTT⟩

/- A pass of the main loop. -/
theorem BothExplained.receiving
    {r : RtRcv A}
    (h : BothExplained r)
    (hConnected : r.getpermission = true)
    {e : Ev A}
    (hTimed : Brings e)
    {res : RtRcv A × List (Out A)}
    (hRes :
      Receiving latency e.clocks
        (r.deliverPass latency e.clocks).1 e.packet res) :
    BothExplained res.1 := by
  rcases deliverPass_estimates latency e.clocks r with
    ⟨hDelta, hRTT, hSame⟩
  have hFed := hRes.fed hTimed
  have hStill := hRes.received.getpermission
  rw [hSame, hConnected] at hStill
  have hDelta' := hFed.baseDelta
  have hRTT' := hFed.halfRTT
  rw [hDelta] at hDelta'
  rw [hRTT] at hRTT'
  constructor
  · exact hStill ▸ h.baseDelta.feed hDelta'
  · exact hStill ▸ h.halfRTT.feed hRTT'

theorem BothExplained.step
    {r : RtRcv A}
    (h : BothExplained r)
    {e : Ev A}
    (hTimed : Brings e) :
    BothExplained (RtRcv.step latency r e).1 := by
  have hStep := step_stepping latency r e
  generalize RtRcv.step latency r e = res at hStep ⊢
  cases hStep with
  | exited _ => exact h
  | connecting _ hNew hRes =>
      exact h.connecting hNew hTimed hRes
  | receiving _ hConnected hRes =>
      dsimp only
      exact h.receiving hConnected hTimed hRes

/-
  In every run of the program on packets with normal times,
  both estimates are what their code makes of a sequence of
  normal samples.
-/
theorem run_estimates
    (latency : Nat)
    (server : A)
    (u : Uninitialized)
    {es : List (Ev A)}
    (hTimed : ∀ e ∈ es, Brings e) :
    BothExplained
      ((machine latency).run (initial server u) es) := by
  apply (machine latency).run_invariant
    (fun _ e => Brings e)
  · intro r e h hBrings
    exact h.step hBrings
  · rintro ⟨r, e⟩ hMem
    rcases ((machine latency).mem_trace_iff _ _ _ _).mp
        hMem with
      ⟨pre, post, hSplit, _⟩
    apply hTimed
    rw [hSplit]
    exact List.mem_append_right _ List.mem_cons_self
  · exact
      ⟨⟨[], by simp, fun _ => rfl, rfl⟩,
        ⟨[], by simp, fun _ => rfl, rfl⟩⟩

end RtRcv

end P2

end Cs2520
