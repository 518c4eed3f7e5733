import Cs2520.P2.Drift

/-
  Where the estimates of the real-time receiver stay normal.

  An update keeps the carry between microseconds and seconds
  only if the seconds it computes are those of the mean. That
  can be told from the samples: the whole seconds of the mean
  have to move as the code moves its seconds.

  Main declarations:
    * `Estimate.whole`
    * `Estimate.moved`
    * `Estimate.Steady`
    * `Estimate.Settled`
    * `Estimate.staysNormal_of_steady`
    * `Estimate.negative_microseconds`
-/

------------------------------------------------------------
-- The Seconds of the Mean
------------------------------------------------------------

namespace Cs2520

namespace P2

open Lib

namespace Estimate

variable {samples pre : List Timeval}
variable {s : Timeval}

/-
  Of what the estimate is a mean: of the latest samples, less
  what replacements have shed.
-/
def total
    (samples : List Timeval) : Int :=
  (recent 100 (samples.map Timeval.micros)).sum -
    slides samples

/- A second of each of the latest samples. -/
def span
    (samples : List Timeval) : Int :=
  min 100 (samples.length : Int) * 1000000

/- The whole seconds of the mean. -/
def whole
    (samples : List Timeval) : Int :=
  total samples / span samples

/- What the samples have above these seconds. -/
def excess
    (samples : List Timeval) : Int :=
  total samples % span samples

/- How an update with the next sample moves seconds. -/
def moved
    (sec : Int)
    (pre : List Timeval)
    (s : Timeval) : Int :=
  if pre.length < 100 then
    (sec * pre.length + s.sec).tdiv (pre.length + 1)
  else
    sec + (s.sec - (oldest pre).sec).tdiv recordSize

theorem span_pos
    (hSome : samples ≠ []) :
    0 < span samples := by
  have hPos := List.length_pos_of_ne_nil hSome
  rw [span]
  omega

theorem excess_bounds
    (hSome : samples ≠ []) :
    0 ≤ excess samples ∧ excess samples < span samples :=
  ⟨Int.emod_nonneg _ (Int.ne_of_gt (span_pos hSome)),
    Int.emod_lt_of_pos _ (span_pos hSome)⟩

theorem total_append
    (pre : List Timeval)
    (hGrowing : pre.length < 100)
    (s : Timeval) :
    total (pre ++ [s]) = total pre + s.micros := by
  have hAll : (pre ++ [s]).length - 100 = 0 := by
    rw [List.length_append, List.length_singleton]
    omega
  have hOld : pre.length - 100 = 0 := by
    omega
  rw [total, total, slides_few (Nat.le_of_lt hGrowing),
    slides_few (by omega), recent, recent, List.length_map,
    List.length_map, hAll, hOld, List.drop_zero,
    List.drop_zero, List.map_append, List.sum_append,
    List.map_singleton, List.sum_singleton]
  omega

/- The estimate is this mean, but for the early updates. -/
theorem micros_eq
    (value : Timeval)
    (samples : List Timeval) :
    min 100 (samples.length : Int) *
        (records.run (blank value) samples).value.micros =
      total samples - early value samples := by
  have hMean : Mean 100 _ _ _ :=
    (follows_run value samples).mean
  rw [Mean, weight, List.length_map] at hMean
  rw [total, early, ← Nat.cast_ofNat, hMean]
  omega

/- Its seconds move as `moved` says. -/
theorem sec_append
    (value : Timeval)
    (pre : List Timeval)
    (s : Timeval) :
    (records.run (blank value) (pre ++ [s])).value.sec =
      moved (records.run (blank value) pre).value.sec pre s
    := by
  have hUpdate :
      records.run (blank value) (pre ++ [s]) =
        (records.run (blank value) pre).update s :=
    Machine.run_append _ _ _ _
  have hCount := (follows_run value pre).count
  rw [hUpdate, update_eq, moved]
  dsimp only
  by_cases hGrowing : pre.length < 100
  · rcases divisor_growing value hGrowing with
      ⟨hLt, hDivisor⟩
    rw [hDivisor, base, pending, if_pos hLt, if_pos hLt,
      hCount, if_pos hGrowing]
    exact Int.zero_add _
  · have hFull : 100 ≤ pre.length := by
      omega
    rcases pending_sliding value hFull s with
      ⟨hSec, hDivisor⟩
    have hNot :
        ¬ (records.run (blank value) pre).count <
            recordSize := by
      rw [hCount, recordSize]
      omega
    rw [hSec, hDivisor, base, if_neg hNot,
      if_neg hGrowing]

end Estimate

end P2

end Cs2520

------------------------------------------------------------
-- Samples That Keep the Carry
------------------------------------------------------------

namespace Cs2520

namespace P2

open Lib

namespace Estimate

variable {value : Timeval}
variable {samples pre : List Timeval}
variable {s : Timeval}

/- The most that the early updates can have dropped. -/
def spare
    (pre : List Timeval) : Int :=
  min (slack (min pre.length 100)) (excess (pre.take 100))

/-
  A sample moves the whole seconds of the mean as the code
  moves its seconds, and leaves no microseconds to borrow: no
  seconds are left over below zero, or the mean stays clear
  of its whole seconds by what the early updates dropped.
-/
structure Steady
    (pre : List Timeval)
    (s : Timeval) : Prop extends Room (-1) pre s where
  whole : whole (pre ++ [s]) = moved (whole pre) pre s
  clear :
    (pre.length < 100 ∧
        0 ≤
          (Estimate.whole pre * pre.length + s.sec).tmod
            (pre.length + 1)) ∨
      spare pre ≤ excess (pre ++ [s])

theorem steady_iff :
    Steady pre s ↔
      Room (-1) pre s ∧
        whole (pre ++ [s]) = moved (whole pre) pre s ∧
        ((pre.length < 100 ∧
            0 ≤
              (whole pre * pre.length + s.sec).tmod
                (pre.length + 1)) ∨
          spare pre ≤ excess (pre ++ [s])) :=
  ⟨fun h => ⟨h.toRoom, h.whole, h.clear⟩,
    fun h => ⟨h.1, h.2.1, h.2.2⟩⟩

instance
    (pre : List Timeval)
    (s : Timeval) :
    Decidable (Steady pre s) :=
  decidable_of_iff' _ steady_iff

/- The estimate has the seconds of the mean. -/
structure Settled
    (value : Timeval)
    (samples : List Timeval) : Prop where
  sec :
    (records.run (blank value) samples).value.sec =
      whole samples
  usec :
    0 ≤ (records.run (blank value) samples).value.usec
  nonneg : 0 ≤ early value samples
  le : early value samples ≤ spare samples

/- The microseconds of such an estimate. -/
theorem usec_eq
    (hSec :
      (records.run (blank value) samples).value.sec =
        whole samples) :
    min 100 (samples.length : Int) *
        (records.run (blank value) samples).value.usec =
      excess samples - early value samples := by
  have hMicros := micros_eq value samples
  have hSplit :
      span samples * whole samples + excess samples =
        total samples :=
    Int.mul_ediv_add_emod _ _
  rw [Timeval.micros, hSec] at hMicros
  rw [span] at hSplit
  linear_combination hMicros - hSplit

theorem Settled.normal
    (h : Settled value samples)
    (hSome : samples ≠ []) :
    (records.run (blank value) samples).value.Normal := by
  have hPos := List.length_pos_of_ne_nil hSome
  have hWeight : 0 ≤ min 100 (samples.length : Int) := by
    omega
  have hUsec := usec_eq h.sec
  have hNonneg := h.nonneg
  rcases excess_bounds hSome with ⟨_, hExcess⟩
  rw [span] at hExcess
  refine ⟨h.usec, Int.lt_of_mul_lt_mul_left ?_ hWeight⟩
  omega

/- The first sample becomes the estimate. -/
theorem settled_singleton
    (value : Timeval)
    (hSample : s.Normal) :
    Settled value [s] := by
  have hValue :
      (records.run (blank value) [s]).value = s :=
    congrArg Estimate.value (blank_update s value)
  have hTotal : total [s] = s.micros := by
    have hAppend :=
      total_append [] (Nat.zero_lt_succ _) s
    rw [List.nil_append] at hAppend
    rw [hAppend]
    exact Int.zero_add _
  have hWhole : whole [s] = s.sec := by
    have hLow := hSample.nonneg
    have hHigh := hSample.lt
    have hSpan : span [s] = 1000000 := by
      rw [span, List.length_singleton]
      omega
    rw [whole, hTotal, hSpan, Timeval.micros]
    omega
  have hEarly : early value [s] = 0 := by
    have hBounds := early_bounds value [s]
    have hSlack : slack (min [s].length 100) = 0 := rfl
    rw [hSlack] at hBounds
    omega
  have hExcess :=
    excess_bounds (List.cons_ne_nil s [])
  constructor
  · rw [hValue, hWhole]
  · rw [hValue]
    exact hSample.nonneg
  · rw [hEarly]
  · rw [hEarly]
    exact Int.le_min.mpr ⟨Int.le_refl 0, hExcess.1⟩

/- The seconds stay those of the mean. -/
theorem Settled.sec_next
    (h : Settled value pre)
    (hSteady : Steady pre s) :
    (records.run (blank value) (pre ++ [s])).value.sec =
      whole (pre ++ [s]) := by
  rw [sec_append, h.sec, hSteady.whole]

/- While samples are added up, what is left over is divided. -/
theorem usec_growing
    (value : Timeval)
    (hGrowing : pre.length < 100)
    (s : Timeval) :
    (records.run (blank value) (pre ++ [s])).value.usec =
      ((records.run (blank value) pre).leftover s).tdiv
        (pre.length + 1) := by
  rcases divisor_growing value hGrowing with
    ⟨hLt, hDivisor⟩
  have hUpdate :
      records.run (blank value) (pre ++ [s]) =
        (records.run (blank value) pre).update s :=
    Machine.run_append _ _ _ _
  rw [hUpdate, update_eq, base, if_pos hLt, hDivisor]
  exact Int.zero_add _

/- It is what the mean has above the seconds. -/
theorem Settled.leftover_growing
    (h : Settled value pre)
    (hGrowing : pre.length < 100)
    (hSteady : Steady pre s) :
    (records.run (blank value) pre).leftover s =
      excess (pre ++ [s]) - early value pre := by
  rcases divisor_growing value hGrowing with ⟨_, hDivisor⟩
  have hUsec := usec_eq (h.sec_next hSteady)
  have hWeight :
      min 100 ((pre ++ [s]).length : Int) =
        pre.length + 1 := by
    rw [List.length_append, List.length_singleton]
    omega
  have hEarly := early_growing value hGrowing s
  have hDivided :=
    Int.mul_tdiv_add_tmod
      ((records.run (blank value) pre).leftover s)
      (pre.length + 1)
  rw [dropped, hDivisor] at hEarly
  rw [← usec_growing value hGrowing, ← hWeight, hUsec,
    hWeight] at hDivided
  omega

/- So nothing has to be borrowed. -/
theorem Settled.leftover_nonneg
    (h : Settled value pre)
    (hGrowing : pre.length < 100)
    (hSample : s.Normal)
    (hSteady : Steady pre s) :
    0 ≤ (records.run (blank value) pre).leftover s := by
  rcases hSteady.clear with ⟨_, hRest⟩ | hClear
  · rcases divisor_growing value hGrowing with
      ⟨hLt, hDivisor⟩
    have hProduct :=
      Int.mul_nonneg h.usec
        (Int.natCast_nonneg pre.length)
    have hLow := hSample.nonneg
    rw [leftover, pending, if_pos hLt, hDivisor,
      (follows_run value pre).count, h.sec]
    dsimp only
    omega
  · have hSpare := h.le
    rw [h.leftover_growing hGrowing hSteady]
    omega

theorem Settled.growing
    (h : Settled value pre)
    (hGrowing : pre.length < 100)
    (hSample : s.Normal)
    (hSteady : Steady pre s) :
    Settled value (pre ++ [s]) := by
  rcases divisor_growing value hGrowing with ⟨_, hDivisor⟩
  have hLeft := h.leftover_nonneg hGrowing hSample hSteady
  have hUsec := usec_eq (h.sec_next hSteady)
  have hEarly := early_growing value hGrowing s
  rw [dropped, hDivisor] at hEarly
  have hNewUsec :
      0 ≤
        (records.run (blank value) (pre ++ [s])).value.usec
      := by
    rw [usec_growing value hGrowing]
    exact Int.tdiv_nonneg hLeft (by omega)
  refine ⟨h.sec_next hSteady, hNewUsec, ?_, ?_⟩
  · have hNonneg := h.nonneg
    have hRest :=
      Int.tmod_nonneg ((pre.length : Int) + 1) hLeft
    rw [hEarly]
    omega
  · have hBounds := early_bounds value (pre ++ [s])
    have hProduct :=
      Int.mul_nonneg
        (by omega :
          0 ≤ min 100 ((pre ++ [s]).length : Int))
        hNewUsec
    have hAll : (pre ++ [s]).take 100 = pre ++ [s] := by
      apply List.take_of_length_le
      rw [List.length_append, List.length_singleton]
      omega
    rw [spare, hAll]
    exact Int.le_min.mpr ⟨hBounds.2, by omega⟩

/- Afterwards nothing is lost that was not shed. -/
theorem Settled.sliding
    (h : Settled value pre)
    (hFull : 100 ≤ pre.length)
    (hSteady : Steady pre s) :
    Settled value (pre ++ [s]) := by
  have hUsec := usec_eq (h.sec_next hSteady)
  have hWeight :
      min 100 ((pre ++ [s]).length : Int) = 100 := by
    rw [List.length_append, List.length_singleton]
    omega
  have hSpare : spare (pre ++ [s]) = spare pre := by
    rw [spare, spare, List.take_append_of_le_length hFull,
      Nat.min_eq_right hFull, List.length_append,
      Nat.min_eq_right (by omega)]
  have hEarly := early_sliding value hFull s
  have hNonneg := h.nonneg
  have hLe := h.le
  rw [hWeight, hEarly] at hUsec
  have hClear : spare pre ≤ excess (pre ++ [s]) := by
    rcases hSteady.clear with ⟨hGrowing, _⟩ | hClear
    · omega
    · exact hClear
  refine ⟨h.sec_next hSteady, ?_, ?_, ?_⟩
  · omega
  · rw [hEarly]
    exact hNonneg
  · rw [hEarly, hSpare]
    exact hLe

theorem settled_run
    (value : Timeval)
    (hSamples : ∀ s ∈ samples, s.Normal)
    (hSome : samples ≠ [])
    (hSteady : Throughout Steady samples) :
    Settled value samples := by
  induction samples using List.reverseRecOn with
  | nil => exact absurd rfl hSome
  | append_singleton samples s ih =>
      rcases List.forall_mem_append.mp hSamples with
        ⟨hOld, hNew⟩
      have hSample := hNew _ (List.mem_singleton_self _)
      rcases throughout_append.mp hSteady with
        ⟨hBefore, hHere⟩
      by_cases hNil : samples = []
      · subst hNil
        exact settled_singleton value hSample
      · have hSettled := ih hOld hNil hBefore
        by_cases hGrowing : samples.length < 100
        · exact
            hSettled.growing hGrowing hSample (hHere hNil)
        · exact
            hSettled.sliding (by omega) (hHere hNil)

end Estimate

end P2

end Cs2520

------------------------------------------------------------
-- Normal Estimates
------------------------------------------------------------

namespace Cs2520

namespace P2

open Lib

namespace Estimate

variable {value : Timeval}
variable {samples pre : List Timeval}
variable {s : Timeval}

/- After every sample the code has a normal estimate. -/
def StaysNormal
    (value : Timeval)
    (samples : List Timeval) : Prop :=
  ∀ pre,
    pre <+: samples →
      ∃ e, run32 value pre = some e ∧ e.value.Normal

/-
  The mean is clear of whole seconds by what the early
  updates can have dropped.
-/
def Clear
    (samples : List Timeval) : Prop :=
  slack (min samples.length 100) ≤ excess samples ∧
    excess samples + slack (min samples.length 100) <
      span samples

theorem clear_singleton
    (s : Timeval) :
    Clear [s] := by
  have hBounds :=
    excess_bounds (List.cons_ne_nil s [])
  have hSlack : slack (min [s].length 100) = 0 := rfl
  rw [Clear, hSlack]
  omega

/- There, a normal estimate has the seconds of the mean. -/
theorem sec_of_clear
    (hSome : samples ≠ [])
    (hClear : Clear samples)
    (hNormal :
      (records.run (blank value) samples).value.Normal) :
    (records.run (blank value) samples).value.sec =
      whole samples := by
  have hPos := List.length_pos_of_ne_nil hSome
  have hSpan := span_pos hSome
  have hMicros := micros_eq value samples
  have hEarly := early_bounds value samples
  have hSplit :
      span samples * whole samples + excess samples =
        total samples :=
    Int.mul_ediv_add_emod _ _
  rcases hClear with ⟨hLow, hHigh⟩
  have hWeight : 0 ≤ min 100 (samples.length : Int) := by
    omega
  have hUsecLow :=
    Int.mul_nonneg hWeight hNormal.nonneg
  have hUsecHigh :=
    Int.mul_le_mul_of_nonneg_left
      (Int.le_of_lt_add_one hNormal.lt :
        _ ≤ (999999 : Int))
      hWeight
  generalize
    records.run (blank value) samples = e
    at hMicros hUsecLow hUsecHigh ⊢
  have hApart :
      span samples * (e.value.sec - whole samples) =
        excess samples - early value samples -
          min 100 (samples.length : Int) * e.value.usec := by
    rw [Timeval.micros] at hMicros
    rw [span] at hSplit ⊢
    linear_combination hMicros - hSplit
  have hSpanEq :
      span samples =
        min 100 (samples.length : Int) * 1000000 := rfl
  have hBelow : e.value.sec - whole samples < 1 := by
    apply Int.lt_of_mul_lt_mul_left _ (Int.le_of_lt hSpan)
    rw [hApart]
    omega
  have hAbove : -1 < e.value.sec - whole samples := by
    apply Int.lt_of_mul_lt_mul_left _ (Int.le_of_lt hSpan)
    rw [hApart]
    omega
  omega

/-
  Where every sample is steady, the estimate stays normal.
  Where the means are clear of whole seconds and all seconds
  are of 32 bits, it stays normal only if they move as the
  code moves its own.
-/
theorem staysNormal_of_steady
    {value : Timeval}
    (hValue : value.Normal)
    {samples : List Timeval}
    (hSamples : ∀ s ∈ samples, s.Normal) :
    (Throughout Steady samples →
      StaysNormal value samples) ∧
      ((∀ s ∈ samples, InInt32 s.sec) →
        Throughout (fun pre s => Clear (pre ++ [s]))
            samples →
          StaysNormal value samples →
            Throughout
              (fun pre s =>
                Room 1 pre s ∧
                  whole (pre ++ [s]) =
                    moved (whole pre) pre s)
              samples) := by
  constructor
  · intro hSteady pre hPrefix
    have hNormal : ∀ s ∈ pre, s.Normal :=
      fun s hMem => hSamples s (hPrefix.subset hMem)
    have hBegin := hSteady.begin hPrefix
    have hFits : Fitting value pre := by
      rw [Fitting, throughout_iff]
      intro pre' s hSome hBefore
      exact
        fits_of_room value
          (throughout_iff.mp hBegin pre' s hSome
            hBefore).toRoom
    refine ⟨_, run32_of_fits value hNormal hFits, ?_⟩
    by_cases hNil : pre = []
    · subst hNil
      exact hValue
    · exact
        (settled_run value hNormal hNil hBegin).normal hNil
  · intro hSec hClear hStays
    rw [throughout_iff] at hClear ⊢
    have hRecordable :
        ∀ pre,
          pre <+: samples → ∀ t ∈ pre, Recordable t := by
      intro pre hPrefix t hMem
      have hIn := hPrefix.subset hMem
      exact ⟨hSamples t hIn, hSec t hIn⟩
    have hRun :
        ∀ pre,
          pre <+: samples →
            Fitting value pre ∧
              (records.run (blank value) pre).value.Normal
        := by
      intro pre hPrefix
      have hAll := hRecordable pre hPrefix
      rcases hStays pre hPrefix with ⟨e, hDone, hNormal⟩
      have hFits := fitting_of_run32 value hAll hDone
      rw [run32_of_fits value
        (fun t hMem => (hAll t hMem).normal) hFits]
        at hDone
      cases hDone
      exact ⟨hFits, hNormal⟩
    have hWhole :
        ∀ pre,
          pre <+: samples →
            pre ≠ [] →
              (records.run (blank value) pre).value.sec =
                whole pre := by
      intro pre hPrefix hSome
      have hHere : Clear pre := by
        rcases List.eq_nil_or_concat' pre with
          rfl | ⟨pre', t, rfl⟩
        · exact absurd rfl hSome
        · by_cases hNil : pre' = []
          · subst hNil
            exact clear_singleton t
          · exact hClear pre' t hNil hPrefix
      exact sec_of_clear hSome hHere (hRun pre hPrefix).2
    intro pre s hSome hPrefix
    rcases hRun _ hPrefix with ⟨hFits, _⟩
    have hBefore :=
      hWhole pre
        ((List.prefix_append pre [s]).trans hPrefix) hSome
    have hAfter :=
      hWhole (pre ++ [s]) hPrefix (by simp)
    rw [sec_append, hBefore] at hAfter
    exact
      ⟨room_of_fits value
          (throughout_iff.mp hFits pre s hSome
            List.prefix_rfl),
        hAfter.symm⟩

theorem staysNormal_wavering :
    StaysNormal .zero wavering :=
  (staysNormal_of_steady Timeval.normal_zero
    (by decide +kernel)).1 (by decide +kernel)

/-
  The samples 0 and -0.5 seconds: the seconds 0 and -1 leave
  a second to be divided, and the microseconds turn negative.
-/
theorem negative_microseconds :
    ¬ ∀ (samples : List Timeval) (e : Estimate),
      (∀ s ∈ samples, s.Normal) →
        run32 .zero samples = some e →
          e.value.Normal := by
  intro hAll
  have hValue :
      (run32 .zero
          [.zero, { sec := -1, usec := 500000 }]).map
        (fun e => e.value.usec) = some (-250000) := by
    decide
  rcases Option.map_eq_some_iff.mp hValue with
    ⟨e, hRun, hNegative⟩
  have hNonneg := (hAll _ e (by decide) hRun).nonneg
  omega

end Estimate

end P2

end Cs2520
