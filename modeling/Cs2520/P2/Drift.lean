import Cs2520.P2.Estimates
import Mathlib.Tactic.LinearCombination

/-
  The error of the estimates of the real-time receiver.

  Every update drops a remainder of at most 99 microseconds.
  Later updates only add differences, so the remainders add
  up: their sum is the error of the mean. What is dropped
  when a sample replaces another is known from the two; what
  the first 100 updates drop is bounded.

  Main declarations:
    * `Estimate.update_micros`
    * `Estimate.Follows`
    * `Estimate.early_bounds`
    * `Estimate.Room`
    * `Estimate.tracks_of_calm`
    * `Estimate.averages_drift`
-/

------------------------------------------------------------
-- The Error of One Update
------------------------------------------------------------

namespace Cs2520

namespace P2

open Lib

namespace Estimate

variable {e : Estimate}
variable {sample : Timeval}

/- In microseconds an update divides once. -/
theorem update_micros
    (e : Estimate)
    (sample : Timeval) :
    e.divisor * (e.update sample).value.micros =
      e.divisor * e.base.micros +
          (e.pending sample).micros -
        e.dropped sample := by
  have hSeconds :=
    Int.mul_tdiv_add_tmod (e.pending sample).sec e.divisor
  have hMicros :=
    Int.mul_tdiv_add_tmod (e.leftover sample) e.divisor
  have hLeft :
      e.leftover sample =
        (e.pending sample).sec.tmod e.divisor * 1000000 +
          (e.pending sample).usec := rfl
  rw [update_eq]
  simp only [Timeval.micros, dropped]
  linear_combination 1000000 * hSeconds + hMicros + hLeft

/- What is dropped is less than the divisor. -/
theorem dropped_bounds
    (sample : Timeval)
    (hCount : 0 ≤ e.count) :
    -99 ≤ e.dropped sample ∧ e.dropped sample ≤ 99 := by
  have hBounds :=
    tmod_bounds (e.leftover sample) (divisor_pos hCount)
  have hLe : e.divisor ≤ 100 := divisor_le e
  rw [dropped]
  constructor
  · omega
  · omega

/- A record goes to its place in the ring. -/
theorem place_eq
    {n : Nat}
    (hCount : e.count = n) :
    e.place = (n : Int) % 100 := by
  unfold place
  rw [hCount]
  split
  · next hGrowing =>
      have hLt : (n : Int) < 100 := hGrowing
      omega
  · exact Int.tmod_eq_emod_of_nonneg (by omega)

end Estimate

end P2

end Cs2520

------------------------------------------------------------
-- The Error of a Sequence
------------------------------------------------------------

namespace Cs2520

namespace P2

open Lib

namespace Estimate

variable {e : Estimate}

/- The sample that the next one replaces. -/
def oldest
    (samples : List Timeval) : Timeval :=
  samples.getD (samples.length - 100) .zero

/-
  The estimate has taken in the samples: it holds the latest
  ones in its ring, and `r` has been dropped.
-/
structure Follows
    (samples : List Timeval)
    (e : Estimate)
    (r : Int) : Prop where
  count : e.count = samples.length
  ring :
    ∀ j,
      ∀ h : j < samples.length,
        samples.length ≤ j + 100 →
          e.sec ((j : Int) % 100) = samples[j].sec ∧
            e.usec ((j : Int) % 100) = samples[j].usec
  mean :
    Mean 100 (samples.map Timeval.micros) e.value.micros r

theorem follows_blank
    (value : Timeval) :
    Follows [] (blank value) 0 where
  count := rfl
  ring := by
    intro j hLt
    cases hLt
  mean := Mean.nil 100 _

/- A full ring gives the oldest record. -/
theorem Follows.replaced
    {samples : List Timeval}
    {r : Int}
    (h : Follows samples e r)
    (hFull : 100 ≤ samples.length) :
    e.sec (e.count.tmod recordSize) = (oldest samples).sec ∧
      e.usec (e.count.tmod recordSize) =
        (oldest samples).usec := by
  have hOldest : samples.length - 100 < samples.length := by
    omega
  have hPlace :
      e.count.tmod recordSize =
        ((samples.length - 100 : Nat) : Int) % 100 := by
    rw [h.count, Int.tmod_eq_emod_of_nonneg (by omega)]
    change (samples.length : Int) % 100 = _
    omega
  rw [hPlace, oldest, List.getD_eq_getElem _ _ hOldest]
  exact h.ring _ hOldest (by omega)

/- An update keeps the latest records in the ring. -/
theorem Follows.ring_update
    {samples : List Timeval}
    {r : Int}
    (h : Follows samples e r)
    (sample : Timeval)
    (j : Nat)
    (hLt : j < (samples ++ [sample]).length)
    (hRecent : (samples ++ [sample]).length ≤ j + 100) :
    (e.update sample).sec ((j : Int) % 100) =
        (samples ++ [sample])[j].sec ∧
      (e.update sample).usec ((j : Int) % 100) =
        (samples ++ [sample])[j].usec := by
  have hPlace := place_eq h.count
  rw [List.length_append, List.length_singleton]
    at hLt hRecent
  rw [update_eq]
  dsimp only
  by_cases hNew : j = samples.length
  · subst hNew
    rw [hPlace, Function.update_self, Function.update_self]
    simp
  · have hOld : j < samples.length := by
      omega
    have hNe : (j : Int) % 100 ≠ e.place := by
      rw [hPlace]
      omega
    rw [Function.update_of_ne hNe,
      Function.update_of_ne hNe,
      List.getElem_append_left hOld]
    exact h.ring j hOld (by omega)

/- An update adds what it drops to the error. -/
theorem Follows.mean_update
    {samples : List Timeval}
    {r : Int}
    (h : Follows samples e r)
    (sample : Timeval) :
    Mean 100 ((samples ++ [sample]).map Timeval.micros)
      (e.update sample).value.micros (r + e.dropped sample)
    := by
  have hMicros := update_micros e sample
  have hLength :
      (samples.map Timeval.micros).length = samples.length :=
    List.length_map _
  have hCount := h.count
  rw [List.map_append, List.map_singleton]
  by_cases hGrowing : e.count < recordSize
  · have hRoom : samples.length < 100 := by
      have hLt : e.count < 100 := hGrowing
      omega
    apply h.mean.grow
    · rw [hLength]
      exact hRoom
    · simp only [divisor, base, pending,
        if_pos hGrowing] at hMicros
      rw [hCount] at hMicros
      rw [hLength]
      simp only [Timeval.micros, Timeval.zero] at hMicros ⊢
      linear_combination hMicros
  · have hFull : 100 ≤ samples.length := by
      have hNot : ¬ e.count < 100 := hGrowing
      omega
    have hOldest : samples.length - 100 < samples.length := by
      omega
    rcases h.replaced hFull with ⟨hSec, hUsec⟩
    rw [oldest, List.getD_eq_getElem _ _ hOldest]
      at hSec hUsec
    apply h.mean.slide (by decide)
    · simp only [divisor, base, pending, if_neg hGrowing,
        hSec, hUsec, Timeval.micros, recordSize] at hMicros
      simp only [List.get_eq_getElem, List.getElem_map,
        hLength, Timeval.micros]
      push_cast
      linear_combination hMicros
    · rw [hLength]
      exact hFull

theorem Follows.update
    {samples : List Timeval}
    {r : Int}
    (h : Follows samples e r)
    (sample : Timeval) :
    Follows (samples ++ [sample]) (e.update sample)
      (r + e.dropped sample) where
  count := by
    rw [update_count, h.count, List.length_append,
      List.length_singleton, Nat.cast_succ]
  ring := h.ring_update sample
  mean := h.mean_update sample

/- What the updates of a sequence drop. -/
def drops
    (value : Timeval)
    (samples : List Timeval) : Int :=
  ((records.trace (blank value) samples).map
    (fun p => p.1.dropped p.2)).sum

theorem drops_append
    (value : Timeval)
    (samples : List Timeval)
    (sample : Timeval) :
    drops value (samples ++ [sample]) =
      drops value samples +
        (records.run (blank value) samples).dropped sample
    := by
  rw [drops, Machine.trace_append, List.map_append,
    List.sum_append]
  simp [drops]

/- The estimate after a sequence of samples. -/
theorem follows_run
    (value : Timeval)
    (samples : List Timeval) :
    Follows samples (records.run (blank value) samples)
      (drops value samples) := by
  induction samples using List.reverseRecOn with
  | nil => exact follows_blank value
  | append_singleton samples sample ih =>
      rw [Machine.run_append, drops_append]
      exact ih.update sample

/- Few samples drop little. -/
theorem drops_bounds
    (value : Timeval)
    (samples : List Timeval) :
    -(99 * (samples.length : Int)) ≤ drops value samples ∧
      drops value samples ≤ 99 * (samples.length : Int) := by
  induction samples using List.reverseRecOn with
  | nil => exact ⟨Int.le_refl 0, Int.le_refl 0⟩
  | append_singleton samples sample ih =>
      have hCount := (follows_run value samples).count
      have hDropped :=
        dropped_bounds sample
          (by omega :
            0 ≤ (records.run (blank value) samples).count)
      rw [drops_append, List.length_append,
        List.length_singleton]
      push_cast
      constructor
      · omega
      · omega

/-
  The estimate is within 100 microseconds of the mean exactly
  if the dropped remainders stay below; up to 100 samples
  they do.
-/
theorem within_iff
    (value : Timeval)
    (samples : List Timeval) :
    Within 100 100 (samples.map Timeval.micros)
        (records.run (blank value) samples).value.micros ↔
      (100 < samples.length →
        -10000 ≤ drops value samples ∧
          drops value samples ≤ 10000) := by
  have hFew := drops_bounds value samples
  have hWeight :
      weight 100 (samples.map Timeval.micros) =
        min (100 : Int) samples.length := by
    rw [weight, List.length_map]
    rfl
  rw [(follows_run value samples).mean.within_iff, hWeight]
  by_cases hMany : 100 < samples.length
  · have hFull : min (100 : Int) samples.length = 100 := by
      omega
    rw [hFull]
    simp [hMany]
  · have hPart :
        min (100 : Int) samples.length = samples.length := by
      omega
    rw [hPart]
    constructor
    · intro _ hNot
      exact absurd hNot hMany
    · intro _
      constructor
      · omega
      · omega

end Estimate

end P2

end Cs2520

------------------------------------------------------------
-- What Is Dropped
------------------------------------------------------------

namespace Cs2520

namespace P2

open Lib

namespace Estimate

variable {samples pre : List Timeval}
variable {s : Timeval}

/- What an update drops when `new` replaces `old`. -/
def shed
    (old new : Timeval) : Int :=
  ((new.sec - old.sec).tmod recordSize * 1000000 +
      (new.usec - old.usec)).tmod recordSize

/- What all replacements in a sequence drop. -/
def slides
    (samples : List Timeval) : Int :=
  (List.zipWith shed samples (samples.drop 100)).sum

theorem slides_few
    (hFew : samples.length ≤ 100) :
    slides samples = 0 := by
  rw [slides, List.drop_of_length_le hFew,
    List.zipWith_nil_right, List.sum_nil]

theorem slides_append
    (hFull : 100 ≤ samples.length)
    (s : Timeval) :
    slides (samples ++ [s]) =
      slides samples + shed (oldest samples) s := by
  have hOldest : samples.length - 100 < samples.length := by
    omega
  have hSplit :
      samples =
        samples.take (samples.length - 100) ++
          oldest samples ::
            samples.drop (samples.length - 100 + 1) := by
    rw [oldest, List.getD_eq_getElem _ _ hOldest,
      ← List.drop_eq_getElem_cons hOldest,
      List.take_append_drop]
  have hLength :
      (samples.take (samples.length - 100)).length =
        (samples.drop 100).length := by
    rw [List.length_take, List.length_drop]
    omega
  have hOld :
      List.zipWith shed samples (samples.drop 100) =
        List.zipWith shed
          (samples.take (samples.length - 100))
          (samples.drop 100) := by
    conv_lhs =>
      rw [← List.append_nil (samples.drop 100)]
      arg 2
      rw [hSplit]
    rw [List.zipWith_append hLength,
      List.zipWith_nil_right, List.append_nil]
  have hNew :
      List.zipWith shed (samples ++ [s])
          (samples.drop 100 ++ [s]) =
        List.zipWith shed
            (samples.take (samples.length - 100))
            (samples.drop 100) ++
          [shed (oldest samples) s] := by
    conv_lhs =>
      arg 2
      rw [hSplit, List.append_assoc]
    rw [List.zipWith_append hLength, List.cons_append,
      List.zipWith_cons_cons, List.zipWith_nil_right]
  rw [slides, slides, List.drop_append_of_le_length hFull,
    hNew, hOld, List.sum_append, List.sum_singleton]

/- A replacement drops what it sheds. -/
theorem dropped_replacing
    (value : Timeval)
    (hFull : 100 ≤ samples.length)
    (s : Timeval) :
    (records.run (blank value) samples).dropped s =
      shed (oldest samples) s := by
  have hFollows := follows_run value samples
  have hCount := hFollows.count
  rcases hFollows.replaced hFull with ⟨hSec, hUsec⟩
  have hNot :
      ¬ (records.run (blank value) samples).count <
          recordSize := by
    rw [hCount, recordSize]
    omega
  rw [dropped, leftover, divisor, pending, if_neg hNot,
    if_neg hNot, hSec, hUsec, shed]

/- What the first 100 updates drop. -/
def early
    (value : Timeval)
    (samples : List Timeval) : Int :=
  drops value samples - slides samples

/- One of these updates divides by the new count. -/
theorem divisor_growing
    (value : Timeval)
    (hGrowing : samples.length < 100) :
    (records.run (blank value) samples).count < recordSize ∧
      (records.run (blank value) samples).divisor =
        samples.length + 1 := by
  have hCount := (follows_run value samples).count
  have hLt :
      (records.run (blank value) samples).count <
        recordSize := by
    rw [hCount, recordSize]
    omega
  rw [divisor, if_pos hLt, hCount]
  exact ⟨by omega, rfl⟩

theorem early_growing
    (value : Timeval)
    (hGrowing : samples.length < 100)
    (s : Timeval) :
    early value (samples ++ [s]) =
      early value samples +
        (records.run (blank value) samples).dropped s := by
  have hFew : (samples ++ [s]).length ≤ 100 := by
    rw [List.length_append, List.length_singleton]
    omega
  rw [early, early, drops_append, slides_few hFew,
    slides_few (Nat.le_of_lt hGrowing)]
  omega

theorem early_sliding
    (value : Timeval)
    (hFull : 100 ≤ samples.length)
    (s : Timeval) :
    early value (samples ++ [s]) = early value samples := by
  rw [early, early, drops_append, slides_append hFull,
    dropped_replacing value hFull]
  omega

theorem early_bounds
    (value : Timeval)
    (samples : List Timeval) :
    -slack (min samples.length 100) ≤ early value samples ∧
      early value samples ≤ slack (min samples.length 100)
    := by
  induction samples using List.reverseRecOn with
  | nil => exact ⟨Int.le_refl 0, Int.le_refl 0⟩
  | append_singleton samples sample ih =>
      rw [List.length_append, List.length_singleton]
      by_cases hGrowing : samples.length < 100
      · rcases divisor_growing value hGrowing with
          ⟨_, hDivisor⟩
        have hDropped :=
          tmod_bounds
            ((records.run (blank value) samples).leftover
              sample)
            (by omega :
              (0 : Int) < samples.length + 1)
        rw [← hDivisor, ← dropped, hDivisor] at hDropped
        have hNext :
            min (samples.length + 1) 100 =
              samples.length + 1 := by
          omega
        rw [Nat.min_eq_left (Nat.le_of_lt hGrowing)] at ih
        rw [early_growing value hGrowing, hNext, slack]
        constructor
        · omega
        · omega
      · have hFull : 100 ≤ samples.length := by
          omega
        rw [Nat.min_eq_right hFull] at ih
        rw [Nat.min_eq_right (by omega),
          early_sliding value hFull]
        exact ih

/- The seconds follow the mean of the seconds. -/
theorem seconds_near
    (value : Timeval)
    (samples : List Timeval)
    (hFew : samples.length ≤ 100) :
    -slack samples.length ≤
        samples.length *
            (records.run (blank value) samples).value.sec -
          (samples.map Timeval.sec).sum ∧
      samples.length *
            (records.run (blank value) samples).value.sec -
          (samples.map Timeval.sec).sum ≤
        slack samples.length := by
  induction samples using List.reverseRecOn with
  | nil => simp [slack]
  | append_singleton samples s ih =>
      rw [List.length_append, List.length_singleton] at hFew
      have hBefore := ih (by omega)
      have hCount := (follows_run value samples).count
      rw [Machine.run_append, List.map_append,
        List.sum_append, List.length_append,
        List.length_singleton, slack]
      change
        _ ≤ _ * ((records.run (blank value)
            samples).update s).value.sec - _ ∧
          _ * ((records.run (blank value)
            samples).update s).value.sec - _ ≤ _
      generalize
        records.run (blank value) samples = e
        at hBefore hCount ⊢
      have hGrowing : e.count < recordSize := by
        rw [hCount, recordSize]
        omega
      have hRest :=
        tmod_bounds (e.value.sec * e.count + s.sec)
          (by omega : 0 < e.count + 1)
      have hQuotient :=
        Int.mul_tdiv_add_tmod (e.value.sec * e.count + s.sec)
          (e.count + 1)
      simp only [update_eq, base, pending, divisor,
        if_pos hGrowing, Timeval.zero, Int.zero_add]
      rw [hCount] at hRest hQuotient ⊢
      push_cast
      rw [Int.mul_comm e.value.sec] at hRest hQuotient ⊢
      simp only [List.map_cons, List.map_nil,
        List.sum_singleton]
      constructor
      · omega
      · omega

end Estimate

end P2

end Cs2520

------------------------------------------------------------
-- Estimates That Track the Mean
------------------------------------------------------------

namespace Cs2520

namespace P2

open Lib

namespace Estimate

variable {samples pre : List Timeval}
variable {s : Timeval}

/-
  A sample leaves room in 32 bits: while samples are added
  up, by the sum of the seconds, which the code's product
  misses by at most the slack; afterwards by the record that
  is replaced and the difference to it. The sum may exceed
  its bounds by `spread` times the slack.
-/
structure Room
    (spread : Int)
    (pre : List Timeval)
    (s : Timeval) : Prop where
  count : InInt32 (pre.length + 1)
  sum :
    pre.length < 100 →
      -(2147483648 + spread * slack (pre.length + 1)) ≤
          ((pre ++ [s]).map Timeval.sec).sum ∧
        ((pre ++ [s]).map Timeval.sec).sum ≤
          2147483647 + spread * slack (pre.length + 1)
  record : 100 ≤ pre.length → InInt32 (oldest pre).sec
  step :
    100 ≤ pre.length →
      InInt32
        (s.sec - (oldest pre).sec -
          (s.sec - (oldest pre).sec).tmod recordSize)

theorem room_iff
    {spread : Int} :
    Room spread pre s ↔
      InInt32 (pre.length + 1) ∧
        (pre.length < 100 →
          -(2147483648 + spread * slack (pre.length + 1)) ≤
              ((pre ++ [s]).map Timeval.sec).sum ∧
            ((pre ++ [s]).map Timeval.sec).sum ≤
              2147483647 + spread * slack (pre.length + 1)) ∧
        (100 ≤ pre.length → InInt32 (oldest pre).sec) ∧
        (100 ≤ pre.length →
          InInt32
            (s.sec - (oldest pre).sec -
              (s.sec - (oldest pre).sec).tmod recordSize)) :=
  ⟨fun h => ⟨h.count, h.sum, h.record, h.step⟩,
    fun h => ⟨h.1, h.2.1, h.2.2.1, h.2.2.2⟩⟩

instance
    (spread : Int)
    (pre : List Timeval)
    (s : Timeval) :
    Decidable (Room spread pre s) :=
  decidable_of_iff' _ room_iff

/- The product of the seconds while samples are added up. -/
theorem product_growing
    (value : Timeval)
    (hGrowing : pre.length < 100)
    (s : Timeval) :
    ((records.run (blank value) pre).pending s).sec -
        ((records.run (blank value) pre).pending s).sec.tmod
          (records.run (blank value) pre).divisor =
      ((pre ++ [s]).length : Int) *
        (records.run (blank value) (pre ++ [s])).value.sec
    := by
  rcases divisor_growing value hGrowing with
    ⟨hLt, hDivisor⟩
  have hBase :
      (records.run (blank value) pre).base = .zero :=
    if_pos hLt
  have hLength :
      ((pre ++ [s]).length : Int) = pre.length + 1 := by
    rw [List.length_append, List.length_singleton]
    rfl
  have hUpdate :
      records.run (blank value) (pre ++ [s]) =
        (records.run (blank value) pre).update s :=
    Machine.run_append _ _ _ _
  rw [hUpdate, update_eq, hBase, hLength, ← hDivisor,
    ← Int.tdiv_mul_self, Int.mul_comm]
  simp only [Timeval.zero, Int.zero_add]

/- Afterwards it is that of the difference. -/
theorem pending_sliding
    (value : Timeval)
    (hFull : 100 ≤ pre.length)
    (s : Timeval) :
    ((records.run (blank value) pre).pending s).sec =
        s.sec - (oldest pre).sec ∧
      (records.run (blank value) pre).divisor = recordSize
    := by
  have hFollows := follows_run value pre
  have hNot :
      ¬ (records.run (blank value) pre).count <
          recordSize := by
    rw [hFollows.count, recordSize]
    omega
  rcases hFollows.replaced hFull with ⟨hSec, _⟩
  rw [pending, divisor, if_neg hNot, if_neg hNot, hSec]
  exact ⟨rfl, rfl⟩

/- Where there is room, the update fits. -/
theorem fits_of_room
    (value : Timeval)
    (h : Room (-1) pre s) :
    Fits (records.run (blank value) pre) s := by
  have hFollows := follows_run value pre
  have hCount := hFollows.count
  constructor
  · by_cases hGrowing : pre.length < 100
    · have hNear :=
        seconds_near value (pre ++ [s])
          (by
            rw [List.length_append, List.length_singleton]
            omega)
      rcases h.sum hGrowing with ⟨hLow, hHigh⟩
      rw [product_growing value hGrowing]
      rw [List.length_append, List.length_singleton]
        at hNear ⊢
      constructor
      · omega
      · omega
    · have hMany : 100 ≤ pre.length := by
        omega
      rcases pending_sliding value hMany s with
        ⟨hSec, hDivisor⟩
      rw [hSec, hDivisor]
      exact h.step hMany
  · rw [hCount]
    exact h.count
  · intro hFull
    rw [hCount, recordSize] at hFull
    have hMany : 100 ≤ pre.length := by
      omega
    rw [(hFollows.replaced hMany).1]
    exact h.record hMany

/- Where it fits, there was nearly as much room. -/
theorem room_of_fits
    (value : Timeval)
    (h : Fits (records.run (blank value) pre) s) :
    Room 1 pre s := by
  have hFollows := follows_run value pre
  have hCount := hFollows.count
  constructor
  · rw [← hCount]
    exact h.count
  · intro hGrowing
    have hNear :=
      seconds_near value (pre ++ [s])
        (by
          rw [List.length_append, List.length_singleton]
          omega)
    rcases h.product with ⟨hLow, hHigh⟩
    rw [product_growing value hGrowing] at hLow hHigh
    rw [List.length_append, List.length_singleton]
      at hNear hLow hHigh
    constructor
    · omega
    · omega
  · intro hMany
    have hFull :
        recordSize ≤
          (records.run (blank value) pre).count := by
      rw [hCount, recordSize]
      omega
    rw [← (hFollows.replaced hMany).1]
    exact h.record hFull
  · intro hMany
    rcases pending_sliding value hMany s with
      ⟨hSec, hDivisor⟩
    rw [← hSec, ← hDivisor]
    exact h.product

/-
  Moreover, what the replacements have shed is at most 10000,
  or exceeds this by `spread` times the slack.
-/
structure Calm
    (spread : Int)
    (pre : List Timeval)
    (s : Timeval) : Prop extends Room spread pre s where
  slides :
    -(10000 + spread * 4950) ≤ slides (pre ++ [s]) ∧
      slides (pre ++ [s]) ≤ 10000 + spread * 4950

instance
    (spread : Int)
    (pre : List Timeval)
    (s : Timeval) :
    Decidable (Calm spread pre s) :=
  decidable_of_iff'
    (Room spread pre s ∧
      -(10000 + spread * 4950) ≤ slides (pre ++ [s]) ∧
        slides (pre ++ [s]) ≤ 10000 + spread * 4950)
    ⟨fun h => ⟨h.toRoom, h.slides⟩, fun h => ⟨h.1, h.2⟩⟩

/-
  After every sample the code has an estimate within 100
  microseconds of the mean of the latest 100 samples.
-/
def Tracks
    (value : Timeval)
    (samples : List Timeval) : Prop :=
  ∀ pre,
    pre <+: samples →
      ∃ e,
        run32 value pre = some e ∧
          Within 100 100 (pre.map Timeval.micros)
            e.value.micros

theorem slack_le
    (n : Nat) :
    slack (min n 100) ≤ 4950 := by
  have hMono := slack_mono (Nat.min_le_right n 100)
  have hFull := two_mul_slack 100
  omega

/- What is shed says whether the mean is followed. -/
theorem within_of_slides
    (value : Timeval)
    (hSlides :
      -(10000 + -1 * 4950) ≤ slides samples ∧
        slides samples ≤ 10000 + -1 * 4950) :
    Within 100 100 (samples.map Timeval.micros)
      (records.run (blank value) samples).value.micros := by
  have hEarly := early_bounds value samples
  have hSlack := slack_le samples.length
  rw [early] at hEarly
  apply (within_iff value samples).mpr
  intro _
  constructor
  · omega
  · omega

theorem slides_of_within
    (value : Timeval)
    (hWithin :
      Within 100 100 (samples.map Timeval.micros)
        (records.run (blank value) samples).value.micros) :
    -(10000 + 1 * 4950) ≤ slides samples ∧
      slides samples ≤ 10000 + 1 * 4950 := by
  have hEarly := early_bounds value samples
  have hSlack := slack_le samples.length
  rw [early] at hEarly
  by_cases hMany : 100 < samples.length
  · have hDrops := (within_iff value samples).mp hWithin hMany
    constructor
    · omega
    · omega
  · rw [slides_few (by omega)]
    constructor
    · omega
    · omega

/-
  Where every sample is calm, the estimate tracks the mean.
  With seconds of 32 bits it tracks the mean only where every
  sample is calm, but for the slack.
-/
theorem tracks_of_calm
    (value : Timeval)
    {samples : List Timeval}
    (hSamples : ∀ s ∈ samples, s.Normal) :
    (Throughout (Calm (-1)) samples →
      Tracks value samples) ∧
      ((∀ s ∈ samples, InInt32 s.sec) →
        Tracks value samples →
          Throughout (Calm 1) samples) := by
  constructor
  · intro hCalm pre hPrefix
    have hNormal : ∀ s ∈ pre, s.Normal :=
      fun s hMem => hSamples s (hPrefix.subset hMem)
    have hBegin := throughout_iff.mp (hCalm.begin hPrefix)
    have hFits : Fitting value pre := by
      rw [Fitting, throughout_iff]
      intro pre' s hSome hBefore
      exact
        fits_of_room value
          (hBegin pre' s hSome hBefore).toRoom
    refine ⟨_, run32_of_fits value hNormal hFits, ?_⟩
    rw [cut_value]
    by_cases hFew : pre.length ≤ 100
    · apply (within_iff value pre).mpr
      intro hMany
      omega
    · rcases List.eq_nil_or_concat' pre with
        rfl | ⟨pre', s, rfl⟩
      · exact absurd (Nat.zero_le 100) hFew
      · apply within_of_slides
        apply (hBegin pre' s _ List.prefix_rfl).slides
        rintro rfl
        apply hFew
        rw [List.nil_append, List.length_singleton]
        omega
  · intro hSec hTracks
    rw [throughout_iff]
    intro pre s hSome hPrefix
    have hRecordable : ∀ t ∈ pre ++ [s], Recordable t := by
      intro t hMem
      have hIn := hPrefix.subset hMem
      exact ⟨hSamples t hIn, hSec t hIn⟩
    rcases hTracks _ hPrefix with ⟨e, hRun, hWithin⟩
    have hFits := fitting_of_run32 value hRecordable hRun
    have hHere :=
      throughout_iff.mp hFits pre s hSome List.prefix_rfl
    rw [run32_of_fits value
      (fun t hMem => (hRecordable t hMem).normal) hFits]
      at hRun
    cases hRun
    exact
      ⟨room_of_fits value hHere,
        slides_of_within value hWithin⟩

/- Samples just above and further below a second. -/
def wavering : List Timeval :=
  (List.range 120).map
    (fun i =>
      if i % 3 = 0 then
        { sec := 0, usec := 999000 + i }
      else
        { sec := 1, usec := i })

theorem tracks_wavering :
    Tracks .zero wavering :=
  (tracks_of_calm .zero (by decide +kernel)).1
    (by decide +kernel)

/- A sample of some microseconds. -/
def tiny
    (usec : Int) : Timeval :=
  { sec := 0, usec := usec }

/-
  Every sample is 99 microseconds above the one it replaces:
  no update changes the value, and the mean moves away.
-/
def creeping : List Timeval :=
  List.replicate 100 (tiny 0) ++
    (List.replicate 100 (tiny 99) ++
      List.replicate 3 (tiny 198))

/-
  The mean of the latest samples reaches 101 microseconds
  while the estimate is still 0. Two samples of -1.6 billion
  seconds overflow a product.
-/
theorem averages_drift :
    (¬ ∀ (samples : List Timeval) (e : Estimate),
        (∀ s ∈ samples, s.Normal) →
          run32 .zero samples = some e →
            Within 100 100 (samples.map Timeval.micros)
              e.value.micros) ∧
      run32 .zero
          (List.replicate 2
            { sec := -1600000000, usec := 0 }) =
        none := by
  constructor
  · intro hAll
    have hValue :
        (run32 .zero creeping).map (fun e => e.value.micros) =
          some 0 := by
      decide +kernel
    rcases Option.map_eq_some_iff.mp hValue with
      ⟨e, hRun, hZero⟩
    have hWithin := hAll creeping e (by decide +kernel) hRun
    have hMuch :
        (recent 100 (creeping.map Timeval.micros)).sum =
          10197 := by
      decide +kernel
    have hWeight :
        weight 100 (creeping.map Timeval.micros) = 100 := by
      decide +kernel
    rw [Within, hZero, hMuch, hWeight] at hWithin
    omega
  · decide

end Estimate

end P2

end Cs2520
