import Cs2520.Lib.Extremes
import Cs2520.P2.EchoNacks
import Cs2520.P2.Estimates

/-
  The extremes of the one-way delay that are reported.

  The counter is tested before it is raised, so it is the
  second accepted packet that starts the extremes afresh: the
  first one is forgotten.

  Main declarations:
    * `oneways`
    * `enter`
    * `step_tally`
    * `run_tally`
    * `KeepsFirst`
    * `extremes_iff`
    * `first_forgotten`
-/

------------------------------------------------------------
-- Delays
------------------------------------------------------------

namespace Cs2520

namespace P2

namespace RtRcv

open Lib

variable {A : Type}
variable {latency : Nat}

/- The `oneway` of an accepted packet, in milliseconds. -/
def oneway
    (c : Clocks)
    (pkt : Package) : ℚ :=
  onewayDelay c.accept.toTimeval (sentTime pkt)

/- The delay of the packet that a pass accepts, if any. -/
def oneways
    (latency : Nat)
    (e : RtRcv A × Ev A) : List ℚ :=
  match e.2.packet with
  | none => []
  | some (_, pkt) =>
      let q := examining latency e.2.clocks e.1
      if e.1.exited = false ∧
          e.1.getpermission = true ∧
          (pkt.type = 0 ∨ pkt.type = 6) ∧
          q.inWindow latency pkt.seq = true ∧
          q.inTime latency pkt
            e.2.clocks.examine.toTimeval = true then
        [oneway e.2.clocks pkt]
      else
        []

/- The reported extremes and the number of packets. -/
def tally
    (r : RtRcv A) : Extremes Double × Int :=
  ({ max := r.maxOneway, min := r.minOneway }, r.rcvdCount)

/- What one accepted packet does to them. -/
def enter
    (t : Extremes Double × Int)
    (x : ℚ) : Extremes Double × Int :=
  (if t.2 = 1 then { max := .num x, min := .num x }
    else t.1.note (.num x),
    t.2 + 1)

theorem sample_tally
    (r : RtRcv A) :
    r.sample.tally =
      enter r.tally
        (onewayDelay r.now (sentTime r.senderPkt)) := by
  simp only [tally, enter, Extremes.note, sample, sentTime]
  by_cases hReset : r.rcvdCount = 1
  · simp [hReset]
  · simp only [hReset, or_false, if_false]
    rfl

theorem measure_tally
    (c : Clocks)
    (r : RtRcv A) :
    (r.measure c).tally =
      enter r.tally (oneway c r.senderPkt) := by
  rcases measure_eq_sample c r with ⟨_, _, _, hSample⟩
  rw [hSample, sample_tally]
  rfl

theorem deliverPass_tally
    (c : Clocks)
    (r : RtRcv A) :
    (r.deliverPass latency c).1.tally = r.tally :=
  deliverPass_keeps (P := fun q => q.tally = r.tally)
    (fun _ _ hSame => hSame) rfl

/- An accepted packet is entered, and nothing else is. -/
theorem Receiving.tally
    {c : Clocks}
    {r : RtRcv A}
    {a : A}
    {pkt : Package}
    {res : RtRcv A × List (Out A)}
    (hRes : Receiving latency c r (some (a, pkt)) res) :
    res.1.tally =
      if (pkt.type = 0 ∨ pkt.type = 6) ∧
          r.inWindow latency pkt.seq = true ∧
          r.inTime latency pkt c.examine.toTimeval = true
      then
        enter r.tally (oneway c pkt)
      else
        r.tally := by
  cases hRes with
  | stored hType hRange hTime =>
      rw [if_pos ⟨hType, hRange, hTime⟩]
      exact
        measure_tally c
          { r.recvfrom a pkt with
            now := c.examine.toTimeval }
  | late hLate =>
      rw [if_neg (fun hAll => hLate hAll.2.2)]
      rfl
  | outside hOutside =>
      rw [if_neg (fun hAll => hOutside hAll.2.1)]
      rfl
  | ackacked hOther _ =>
      rw [if_neg (fun hAll => hOther hAll.1)]
      rfl
  | ignored hOther _ =>
      rw [if_neg (fun hAll => hOther hAll.1)]
      rfl

/- Without a packet nothing is entered. -/
theorem Receiving.tally_none
    {c : Clocks}
    {r : RtRcv A}
    {res : RtRcv A × List (Out A)}
    (hRes : Receiving latency c r none res) :
    res.1.tally = r.tally := by
  cases hRes with
  | idle _ => rfl
  | reported _ => rfl

theorem Connecting.tally
    {c : Clocks}
    {r : RtRcv A}
    {packet : Option (A × Package)}
    {res : RtRcv A × List (Out A)}
    (hRes : Connecting latency c r packet res) :
    res.1.tally = r.tally := by
  cases hRes with
  | asked => rfl
  | declined _ => rfl
  | permitted _ => rfl
  | ignored _ _ => rfl

/- A pass enters the delay of the packet it accepts. -/
theorem step_tally
    (r : RtRcv A)
    (e : Ev A) :
    (step latency r e).1.tally =
      (oneways latency (r, e)).foldl enter r.tally := by
  rcases e with ⟨packet, c⟩
  have hStep := step_stepping latency r ⟨packet, c⟩
  generalize step latency r ⟨packet, c⟩ = res at hStep ⊢
  cases hStep with
  | exited hExited =>
      cases packet with
      | none => rfl
      | some packet => simp [oneways, hExited]
  | connecting _ hNew hRes =>
      rw [hRes.tally]
      cases packet with
      | none => rfl
      | some packet => simp [oneways, hNew]
  | receiving hRunning hConnected hRes =>
      dsimp only at hRes ⊢
      cases packet with
      | none =>
          exact hRes.tally_none.trans (deliverPass_tally c r)
      | some packet =>
          rcases packet with ⟨a, pkt⟩
          rw [hRes.tally, deliverPass_tally]
          simp only [oneways, hRunning, hConnected, true_and]
          split
          · next hAll =>
              exact (if_pos hAll).symm ▸ rfl
          · next hNot =>
              exact (if_neg hNot).symm ▸ rfl

/- A run enters all delays in their order. -/
theorem run_tally
    (r : RtRcv A)
    (es : List (Ev A)) :
    ((machine latency).run r es).tally =
      (((machine latency).trace r es).flatMap
        (oneways latency)).foldl enter r.tally := by
  induction es generalizing r with
  | nil => rfl
  | cons e es ih =>
      rw [Machine.run_cons, ih, Machine.trace_cons,
        List.flatMap_cons, List.foldl_append, ← step_tally]
      rfl

end RtRcv

end P2

end Cs2520

------------------------------------------------------------
-- Extremes
------------------------------------------------------------

namespace Cs2520

namespace P2

namespace RtRcv

open Lib

variable {A : Type}
variable {latency : Nat}

/-
  The first delay does not matter: alone, it is beyond what
  the variables hold at the start, which are no NaNs; with
  others, it lies between two of them.
-/
def KeepsFirst
    (start : Extremes Double) : List ℚ → Prop
  | [] => False
  | [x] =>
      (start.max < .num x ∨ start.max = .num x) ∧
        (.num x < start.min ∨ start.min = .num x)
  | x :: y :: rest =>
      (∃ z ∈ y :: rest, x ≤ z) ∧ ∃ z ∈ y :: rest, z ≤ x

/- The counter counts. -/
theorem foldl_enter_count
    (t : Extremes Double × Int)
    (xs : List ℚ) :
    (xs.foldl enter t).2 = t.2 + xs.length := by
  induction xs generalizing t with
  | nil => simp
  | cons x xs ih =>
      rw [List.foldl_cons, ih, List.length_cons, enter]
      push_cast
      omega

/- After two packets the counter no longer matters. -/
theorem foldl_enter_many
    (e : Extremes ℚ)
    {n : Int}
    (hMany : 2 ≤ n)
    (xs : List ℚ) :
    (xs.foldl enter (e.map .num, n)).1 =
      (xs.foldl Extremes.note e).map .num := by
  induction xs generalizing e n with
  | nil => rfl
  | cons x xs ih =>
      have hNot : n ≠ 1 := by omega
      rw [List.foldl_cons, enter]
      dsimp only
      rw [if_neg hNot,
        Extremes.note_map Double.num_lt_num]
      exact ih _ (by omega)

/- The variables hold the extremes of some delays. -/
def Shows
    (e : Extremes Double)
    (xs : List ℚ) : Prop :=
  (∃ m, e.max = .num m ∧ IsGreatest {x | x ∈ xs} m) ∧
    ∃ m, e.min = .num m ∧ IsLeast {x | x ∈ xs} m

theorem shows_map_iff
    (e : Extremes ℚ)
    (xs : List ℚ) :
    Shows (e.map .num) xs ↔ e.Covers xs := by
  constructor
  · rintro ⟨⟨_, ⟨⟩, hMax⟩, _, ⟨⟩, hMin⟩
    exact ⟨hMax, hMin⟩
  · rintro ⟨hMax, hMin⟩
    exact ⟨⟨_, rfl, hMax⟩, _, rfl, hMin⟩

/- One delay is shown if both variables hold it. -/
theorem shows_singleton_iff
    {e : Extremes Double}
    {x : ℚ} :
    Shows e [x] ↔ e.max = .num x ∧ e.min = .num x := by
  constructor
  · rintro ⟨⟨m, hMax, hGreatest⟩, m', hMin, hLeast⟩
    rw [hMax, hMin, List.mem_singleton.mp hGreatest.1,
      List.mem_singleton.mp hLeast.1]
    exact ⟨rfl, rfl⟩
  · rintro ⟨hMax, hMin⟩
    have hOne := Extremes.covers_singleton x
    exact ⟨⟨x, hMax, hOne.max⟩, x, hMin, hOne.min⟩

theorem shows_iff_keepsFirst
    (start : Extremes Double)
    (xs : List ℚ) :
    Shows (xs.foldl enter (start, 0)).1 xs ↔
      KeepsFirst start xs := by
  match xs with
  | [] =>
      constructor
      · rintro ⟨⟨_, _, hNone, _⟩, _⟩
        cases hNone
      · exact False.elim
  | [x] =>
      rw [shows_singleton_iff, KeepsFirst]
      change
        (if start.max < .num x then .num x
            else start.max) = Double.num x ∧
          (if .num x < start.min then .num x
            else start.min) = Double.num x ↔ _
      rw [ite_eq_left_iff, ite_eq_left_iff,
        ← or_iff_not_imp_left, ← or_iff_not_imp_left]
  | x :: y :: rest =>
      -- the second packet starts the extremes afresh
      have hAfresh :
          ((x :: y :: rest).foldl enter (start, 0)).1 =
            (rest.foldl Extremes.note
              { max := y, min := y }).map .num :=
        foldl_enter_many { max := y, min := y }
          (Int.le_refl 2) rest
      rw [hAfresh, shows_map_iff, KeepsFirst]
      exact (Extremes.covers_foldl y rest).cons_iff x

/-
  In every run, after any packets at least one of which was
  accepted, the reported extremes are those of all one-way
  delays if and only if the first of them does not matter.
-/
theorem extremes_iff
    (server : A)
    (u : Uninitialized)
    (es : List (Ev A)) :
    let r := (machine latency).run (initial server u) es
    let delays :=
      ((machine latency).trace (initial server u)
        es).flatMap (oneways latency)
    r.rcvdCount = delays.length ∧
      ((∃ m,
          r.maxOneway = .num m ∧
            IsGreatest {x | x ∈ delays} m) ∧
          (∃ m,
            r.minOneway = .num m ∧
              IsLeast {x | x ∈ delays} m) ↔
        KeepsFirst
          { max := u.maxOneway, min := u.minOneway }
          delays) := by
  intro r delays
  have hTally :
      r.tally =
        delays.foldl enter
          ({ max := u.maxOneway, min := u.minOneway }, 0) :=
    run_tally (initial server u) es
  have hCount : r.rcvdCount = _ := congrArg Prod.snd hTally
  have hExtremes := congrArg Prod.fst hTally
  constructor
  · rw [hCount, foldl_enter_count]
    exact Int.zero_add _
  · rw [← shows_iff_keepsFirst, ← hExtremes]
    exact Iff.rfl

/- Packet 1 takes a second, and packet 2 takes none. -/
def slowFirst : List (Ev Unit) :=
  [permission,
    { packet := some ((), dataPackage 1)
      clocks := .ofSeconds 2 },
    { packet :=
        some
          ((),
            { dataPackage 2 with
              sendTS := (Clock.ofSeconds 2).toTimeval })
      clocks := .ofSeconds 2 }]

/- The delay of a second is not reported. -/
theorem first_forgotten :
    ¬ ∀ (latency : Nat) (u : Uninitialized)
        (es : List (Ev Unit)),
      let r := (machine latency).run (initial () u) es
      let delays :=
        ((machine latency).trace (initial () u)
          es).flatMap (oneways latency)
      delays ≠ [] →
        (∃ m,
          r.maxOneway = .num m ∧
            IsGreatest {x | x ∈ delays} m) ∧
          ∃ m,
            r.minOneway = .num m ∧
              IsLeast {x | x ∈ delays} m := by
  intro hAll
  have hSlow :
      ((machine 1000).trace (initial () zeroedMemory)
          slowFirst).flatMap (oneways 1000) =
        [1000, 0] := by
    decide +kernel
  have hMax :
      ((machine 1000).run (initial () zeroedMemory)
        slowFirst).maxOneway = .num 0 := by
    decide +kernel
  have hBoth := hAll 1000 zeroedMemory slowFirst
  dsimp only at hBoth
  rw [hSlow, hMax] at hBoth
  rcases (hBoth (by decide)).1 with ⟨m, hZero, _, hUpper⟩
  cases hZero
  have hLe : (1000 : ℚ) ≤ 0 := hUpper List.mem_cons_self
  revert hLe
  decide

end RtRcv

end P2

end Cs2520
