import Cs2520.Lib.Gaps
import Cs2520.Lib.Refinement

/-
  A paced loop: it sends packets `1, 2, …, count`, reads the
  clock, and waits after a packet as long as a plan says.

  The inputs are the readings of the clock, in microseconds;
  `none` is a reading that the loop has no use for. An output
  is the number of a packet and the reading it was sent at.

  Main declarations:
    * `Pacer`
    * `Pacer.machine`
    * `Pacer.numbered`
    * `Pacer.Keeps`
    * `Pacer.kept`
    * `Pacer.length_sent_le`
-/

------------------------------------------------------------
-- The Loop
------------------------------------------------------------

namespace Cs2520

namespace Lib

namespace Pacer

/-
  How many packets there are, and how long to wait after a
  packet when so much time has passed since the start.
-/
structure Plan where
  count : Int
  delay : Int → Int → Int

/-
  What the next reading of the clock is for. A wait of `usec`
  starts with one reading and ends with a later one.
-/
inductive Phase where
| start : Phase
| stamp : Int → Phase
| nap : Int → Int → Phase
| wait : Int → Int → Int → Phase
| done : Phase
deriving DecidableEq

namespace Plan

variable (plan : Plan)

/- On to packet `i`, if there is one. -/
def goOn
    (i : Int) : Phase :=
  if i ≤ plan.count then .stamp i else .done

/- Packet `i` has been sent, and this much time has passed. -/
def rest
    (i elapsed : Int) : Phase :=
  if 0 < plan.delay i elapsed then
    .nap i (plan.delay i elapsed)
  else
    plan.goOn (i + 1)

end Plan

end Pacer

/- The reading at the start, and where the loop is. -/
structure Pacer where
  origin : Int
  phase : Pacer.Phase
deriving DecidableEq

namespace Pacer

variable (plan : Plan)

/- Before the first reading. -/
def initial
    (origin : Int) : Pacer where
  origin := origin
  phase := .start

/- What a reading of the clock does. -/
def read
    (P : Pacer)
    (now : Int) : Pacer × List (Int × Int) :=
  match P.phase with
  | .start =>
      ({ origin := now
         phase := plan.goOn 1 }, [])
  | .stamp i =>
      ({ P with phase := plan.rest i (now - P.origin) },
        [(i, now)])
  | .nap i usec => ({ P with phase := .wait i usec now }, [])
  | .wait i usec since =>
      if now - since < usec then
        (P, [])
      else
        ({ P with phase := plan.goOn (i + 1) }, [])
  | .done => (P, [])

def step
    (P : Pacer) :
    Option Int → Pacer × List (Int × Int)
  | none => (P, [])
  | some now => P.read plan now

def machine : Machine Pacer (Option Int) (Int × Int) where
  step := step plan

end Pacer

end Lib

end Cs2520

------------------------------------------------------------
-- Numbers
------------------------------------------------------------

namespace Cs2520

namespace Lib

namespace Pacer

/- The number of the last packet that was sent. -/
def Phase.sent
    (count : Int) :
    Phase → Int → Prop
  | .start, n => n = 0
  | .stamp i, n => n = i - 1
  | .nap i _, n => n = i
  | .wait i _ _, n => n = i
  | .done, n => count ≤ n

/- Packets `1` to `n` have been sent, and `n` fits the phase. -/
structure Numbered
    (plan : Plan)
    (P : Pacer)
    (out : List (Int × Int)) : Prop where
  all : out.map Prod.fst = Int.range 1 (1 + out.length)
  phase : P.phase.sent plan.count out.length

theorem Plan.goOn_sent
    (plan : Plan)
    {i n : Int}
    (hSent : n = i - 1) :
    (plan.goOn i).sent plan.count n := by
  unfold goOn
  split
  · exact hSent
  · change plan.count ≤ n
    omega

theorem Plan.rest_sent
    (plan : Plan)
    {i n elapsed : Int}
    (hSent : n = i) :
    (plan.rest i elapsed).sent plan.count n := by
  unfold rest
  split
  · exact hSent
  · exact plan.goOn_sent (by omega)

variable {plan : Plan}

theorem Numbered.step
    {P : Pacer}
    {out : List (Int × Int)}
    (h : Numbered plan P out)
    (reading : Option Int) :
    Numbered plan (P.step plan reading).1
      (out ++ (P.step plan reading).2) := by
  rcases reading with _ | now
  · rw [Pacer.step, List.append_nil]
    exact h
  · rcases P with ⟨origin, phase⟩
    rcases h with ⟨hAll, hPhase⟩
    cases phase with
    | start =>
        have hNone : (out.length : Int) = 0 := hPhase
        simp only [Pacer.step, read, List.append_nil]
        exact ⟨hAll, plan.goOn_sent (by omega)⟩
    | stamp i =>
        have hSent : (out.length : Int) = i - 1 := hPhase
        have hLength :
            ((out ++ [(i, now)]).length : Int) = i := by
          rw [List.length_append, List.length_singleton]
          omega
        have hLast : 1 + (out.length : Int) = i := by omega
        simp only [Pacer.step, read]
        constructor
        · rw [List.map_append, hAll, hLength, hLast,
            List.map_singleton, Int.add_comm 1 i]
          exact (range_succ (by omega)).symm
        · exact plan.rest_sent hLength
    | nap i usec =>
        simp only [Pacer.step, read, List.append_nil]
        exact ⟨hAll, hPhase⟩
    | wait i usec since =>
        have hSent : (out.length : Int) = i := hPhase
        simp only [Pacer.step, read]
        split
        · rw [List.append_nil]
          exact ⟨hAll, hPhase⟩
        · rw [List.append_nil]
          exact ⟨hAll, plan.goOn_sent (by omega)⟩
    | done =>
        simp only [Pacer.step, read, List.append_nil]
        exact ⟨hAll, hPhase⟩

/- The packets sent are numbered `1, 2, 3, …`. -/
theorem numbered
    (plan : Plan)
    (origin : Int)
    (readings : List (Option Int)) :
    Numbered plan
      ((machine plan).run (initial origin) readings)
      ((machine plan).outputs (initial origin) readings) := by
  apply
    (machine plan).outputs_invariant (Numbered plan)
      (fun _ _ reading h => h.step reading)
  exact ⟨(range_nil (Int.le_refl 1)).symm, rfl⟩

end Pacer

end Lib

end Cs2520

------------------------------------------------------------
-- Times
------------------------------------------------------------

namespace Cs2520

namespace Lib

namespace Pacer

variable {plan : Plan}
variable {i due : Int}

/- Packet `i + 1` has to wait until `due` after the start. -/
def Waits
    (plan : Plan)
    (i due : Int) : Prop :=
  ∀ elapsed, 0 ≤ elapsed →
    due ≤ elapsed + max (plan.delay i elapsed) 0

/- What is known in a phase, after a reading of `last`. -/
def Phase.Keeps
    (origin i due last : Int) :
    Phase → Prop
  | .start => True
  | .stamp j => j = i + 1 → origin + due ≤ last
  | .nap j usec => j = i → origin + due ≤ last + usec
  | .wait j usec since =>
      j = i → origin + due ≤ since + usec
  | .done => True

/- The clock has not gone back since the start. -/
structure Keeps
    (i due last : Int)
    (P : Pacer) : Prop where
  clock : P.phase = .start ∨ P.origin ≤ last
  phase : P.phase.Keeps P.origin i due last

theorem Plan.goOn_keeps
    {origin last j : Int}
    (hKeeps : j = i + 1 → origin + due ≤ last) :
    (plan.goOn j).Keeps origin i due last := by
  unfold goOn
  split
  · exact hKeeps
  · trivial

theorem Plan.rest_keeps
    (hWaits : Waits plan i due)
    {origin last j : Int}
    (hClock : origin ≤ last) :
    (plan.rest j (last - origin)).Keeps origin i due last := by
  have hElapsed := hWaits (last - origin) (by omega)
  unfold rest
  split
  · next hSome =>
      rintro rfl
      rw [max_eq_left (by omega)] at hElapsed
      omega
  · next hNone =>
      apply goOn_keeps
      intro hNext
      have hSame : j = i := by omega
      subst hSame
      rw [max_eq_right (by omega)] at hElapsed
      omega

theorem Plan.goOn_ne_start
    (plan : Plan)
    (j : Int) :
    plan.goOn j ≠ .start := by
  unfold goOn
  split
  · exact Phase.noConfusion
  · exact Phase.noConfusion

theorem Plan.rest_ne_start
    (plan : Plan)
    (j elapsed : Int) :
    plan.rest j elapsed ≠ .start := by
  unfold rest
  split
  · exact Phase.noConfusion
  · exact plan.goOn_ne_start _

/- The time of the start is read once. -/
theorem read_origin
    (plan : Plan)
    (P : Pacer)
    (now : Int) :
    (P.read plan now).1.phase ≠ .start ∧
      (P.phase ≠ .start →
        (P.read plan now).1.origin = P.origin) := by
  rcases P with ⟨origin, phase⟩
  cases phase with
  | start =>
      exact
        ⟨plan.goOn_ne_start 1, fun hNot => absurd rfl hNot⟩
  | stamp j => exact ⟨plan.rest_ne_start _ _, fun _ => rfl⟩
  | nap j usec => exact ⟨Phase.noConfusion, fun _ => rfl⟩
  | wait j usec since =>
      simp only [Pacer.read]
      split
      · exact ⟨Phase.noConfusion, fun _ => rfl⟩
      · exact ⟨plan.goOn_ne_start _, fun _ => rfl⟩
  | done => exact ⟨Phase.noConfusion, fun _ => rfl⟩

theorem run_origin
    {P : Pacer}
    (hStarted : P.phase ≠ .start)
    (readings : List (Option Int)) :
    ((machine plan).run P readings).origin = P.origin := by
  induction readings generalizing P with
  | nil => rfl
  | cons reading rest ih =>
      rcases reading with _ | now
      · exact ih hStarted
      · rcases read_origin plan P now with ⟨hNext, hSame⟩
        exact (ih hNext).trans (hSame hStarted)

/- One reading, no earlier than the last one. -/
theorem Keeps.read
    {P : Pacer}
    {last now : Int}
    (h : P.Keeps i due last)
    (hWaits : Waits plan i due)
    (hFirst : i = 0 → due ≤ 0)
    (hLast : last ≤ now) :
    (P.read plan now).1.Keeps i due now ∧
      ∀ t, (i + 1, t) ∈ (P.read plan now).2 →
        P.phase ≠ .start ∧ P.origin + due ≤ t := by
  rcases P with ⟨origin, phase⟩
  have hPhase := h.phase
  have hNone :
      ∀ t, (i + 1, t) ∈ ([] : List (Int × Int)) →
        phase ≠ .start ∧ origin + due ≤ t := by
    intro t hMem
    cases hMem
  cases phase with
  | start =>
      refine ⟨⟨Or.inr (Int.le_refl now), ?_⟩, hNone⟩
      apply Plan.goOn_keeps
      intro hNext
      have hDue := hFirst (by omega)
      change now + due ≤ now
      omega
  | stamp j =>
      have hOrigin : origin ≤ now :=
        (h.clock.resolve_left Phase.noConfusion).trans hLast
      refine
        ⟨⟨Or.inr hOrigin, Plan.rest_keeps hWaits hOrigin⟩, ?_⟩
      intro t hMem
      simp only [Pacer.read, List.mem_singleton,
        Prod.mk.injEq] at hMem
      rcases hMem with ⟨hNext, rfl⟩
      exact
        ⟨Phase.noConfusion, (hPhase hNext.symm).trans hLast⟩
  | nap j usec =>
      have hOrigin : origin ≤ now :=
        (h.clock.resolve_left Phase.noConfusion).trans hLast
      refine ⟨⟨Or.inr hOrigin, ?_⟩, hNone⟩
      intro hSame
      have hBefore : origin + due ≤ last + usec :=
        hPhase hSame
      change origin + due ≤ now + usec
      omega
  | wait j usec since =>
      have hOrigin : origin ≤ now :=
        (h.clock.resolve_left Phase.noConfusion).trans hLast
      simp only [Pacer.read]
      split
      · exact ⟨⟨Or.inr hOrigin, hPhase⟩, hNone⟩
      · refine ⟨⟨Or.inr hOrigin, ?_⟩, hNone⟩
        apply Plan.goOn_keeps
        intro hNext
        have hBefore : origin + due ≤ since + usec :=
          hPhase (by omega)
        change origin + due ≤ now
        omega
  | done =>
      have hOrigin : origin ≤ now :=
        (h.clock.resolve_left Phase.noConfusion).trans hLast
      exact ⟨⟨Or.inr hOrigin, trivial⟩, hNone⟩

/-
  If the clock never goes back, packet `i + 1` is not sent
  before it is due.
-/
theorem kept_from
    {P : Pacer}
    {last : Int}
    (h : P.Keeps i due last)
    (hWaits : Waits plan i due)
    (hFirst : i = 0 → due ≤ 0)
    {readings : List (Option Int)}
    (hClock :
      (last :: readings.reduceOption).Pairwise
        (fun t t' => t ≤ t')) :
    ∀ t, (i + 1, t) ∈ (machine plan).outputs P readings →
      ((machine plan).run P readings).origin + due ≤ t := by
  induction readings generalizing P last with
  | nil =>
      intro t hMem
      cases hMem
  | cons reading rest ih =>
      intro t hMem
      rcases reading with _ | now
      · exact ih h hClock t hMem
      · rcases List.pairwise_cons.mp hClock with
          ⟨hAfter, hRest⟩
        have hLast : last ≤ now :=
          hAfter now List.mem_cons_self
        rcases h.read hWaits hFirst hLast with
          ⟨hKeeps, hOut⟩
        rcases List.mem_append.mp hMem with hNow | hLater
        · rcases hOut t hNow with ⟨hStarted, hDue⟩
          rw [run_origin hStarted]
          exact hDue
        · exact ih hKeeps hRest t hLater

theorem kept
    (hWaits : Waits plan i due)
    (hFirst : i = 0 → due ≤ 0)
    (origin : Int)
    {readings : List (Option Int)}
    (hClock :
      readings.reduceOption.Pairwise
        (fun t t' => t ≤ t')) :
    ∀ t,
      (i + 1, t) ∈
          (machine plan).outputs (initial origin) readings →
        ((machine plan).run (initial origin)
            readings).origin + due ≤ t := by
  have hStart : ∀ last, (initial origin).Keeps i due last :=
    fun last => ⟨Or.inl rfl, trivial⟩
  cases hReadings : readings.reduceOption with
  | nil =>
      apply kept_from (hStart 0) hWaits hFirst
      rw [hReadings]
      exact List.pairwise_singleton _ _
  | cons first rest =>
      apply kept_from (hStart first) hWaits hFirst
      rw [hReadings] at hClock ⊢
      refine List.pairwise_cons.mpr ⟨?_, hClock⟩
      intro t hMem
      rcases List.mem_cons.mp hMem with rfl | hLater
      · exact Int.le_refl t
      · exact (List.pairwise_cons.mp hClock).1 t hLater

/-
  If packet `i + 1` is due `c * i` after the start, at most
  `span / c + 1` packets are sent in a time of `span`.
-/
theorem length_sent_le
    {origin c span : Int}
    {out : List (Int × Int)}
    (hc : 0 < c)
    (hSpan : 0 ≤ span)
    (hNumbers : out.map Prod.fst = Int.range 1 (1 + out.length))
    (hDue : ∀ j t, (j + 1, t) ∈ out → origin + c * j ≤ t) :
    ((out.filter
      (fun o => o.2 ≤ origin + span)).length : Int) ≤
        span / c + 1 := by
  have hQuot : 0 ≤ span / c := Int.ediv_nonneg hSpan hc.le
  have hNodup :
      ((out.filter
        (fun o => o.2 ≤ origin + span)).map
          Prod.fst).Nodup := by
    have hAll : (out.map Prod.fst).Nodup := by
      rw [hNumbers]
      exact (range_increasing _ _).imp Int.ne_of_lt
    exact hAll.sublist (List.filter_sublist.map _)
  have hSub :
      (out.filter
        (fun o => o.2 ≤ origin + span)).map Prod.fst ⊆
          Int.range 1 (span / c + 2) := by
    intro n hMem
    rcases List.mem_map.mp hMem with
      ⟨⟨m, t⟩, hEarly, rfl⟩
    rcases List.mem_filter.mp hEarly with ⟨hOut, hTime⟩
    have hNumber := List.mem_map_of_mem (f := Prod.fst) hOut
    rw [hNumbers] at hNumber
    have hRange := Int.mem_range_iff.mp hNumber
    have hLate : origin + c * (m - 1) ≤ t := by
      apply hDue
      rw [Int.sub_add_cancel]
      exact hOut
    simp only [decide_eq_true_eq] at hTime hRange
    apply Int.mem_range_iff.mpr
    refine ⟨hRange.1, ?_⟩
    have hQuotient : m - 1 ≤ span / c :=
      (Int.le_ediv_iff_mul_le hc).mpr
        (by rw [Int.mul_comm]; omega)
    omega
  have hLength :=
    (List.subperm_of_subset hNodup hSub).length_le
  rw [List.length_map, length_range] at hLength
  omega

end Pacer

end Lib

end Cs2520
