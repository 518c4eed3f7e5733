import Cs2520.P2.DeliveryPass
import Cs2520.P2.Losses

/-
  Whether the real-time receiver wakes up in time.

  The timeout of `select` runs to the next report. A pass
  leaves the packets that are not due, and all packets behind
  the first one of them, and their delivery times play no
  part in the timeout.

  Main declarations:
    * `timeout?`
    * `Wakes`
    * `HeldUp`
    * `buffered_deliverPass`
    * `wakes_iff`
    * `overslept`
-/

------------------------------------------------------------
-- What a Pass Leaves
------------------------------------------------------------

namespace Cs2520

namespace P2

namespace RtRcv

open Lib

variable {A : Type}
variable {latency : Nat}
variable {good : Package → Prop}
variable {r : RtRcv A}

/-
  The test of the delivery loop fails for the packet or for
  one before it, with `now` as the reading of the clock.
-/
def HeldUp
    (latency : Nat)
    (r : RtRcv A)
    (now : Timeval)
    (p : Package) : Prop :=
  ∃ p' ∈ r.buffered latency,
    p'.seq ≤ p.seq ∧
      ¬ -1 < cmpTime now (r.deliverTime latency p')

/- Nothing is held up in an empty window. -/
theorem heldUp_of_zero
    {i hi : Int}
    (h :
      RingBuffer.Holds (windowSize latency) i hi
        Package.seq good r.toRingBuffer)
    (hZero : r.buffersize = 0)
    (p : Package) :
    p ∈ r.buffered latency ↔
      p ∈ r.buffered latency ∧ HeldUp latency r r.now p := by
  have hNone := h.items_of_zero hZero p
  constructor
  · intro hIn
    exact (hNone hIn).elim
  · exact And.left

/- A packet that is delivered holds up no other one. -/
theorem heldUp_deliverSlot
    {i hi : Int}
    (h :
      RingBuffer.Holds (windowSize latency) i hi
        Package.seq good r.toRingBuffer)
    (hSpan : hi < i + windowSize latency)
    (hSet : r.buffer (i % windowSize latency) = true)
    (hDue :
      -1 <
        cmpTime r.now
          (r.deliverTime latency
            (r.window (i % windowSize latency))))
    (p : Package) :
    p ∈ (r.deliverSlot latency i).buffered latency ∧
        HeldUp latency (r.deliverSlot latency i) r.now p ↔
      p ∈ r.buffered latency ∧ HeldUp latency r r.now p := by
  have hLeft := buffered_deliverSlot h hSpan
  rcases slot_buffered h hSpan hSet with ⟨hMem, hSeq⟩
  constructor
  · rintro ⟨hIn, p', hIn', hLe, hNot⟩
    exact
      ⟨((hLeft p).mp hIn).1, p', ((hLeft p').mp hIn').1,
        hLe, hNot⟩
  · rintro ⟨hIn, p', hIn', hLe, hNot⟩
    have hOther : p'.seq ≠ i := by
      intro hFirst
      have hSame :
          p' = r.window (i % windowSize latency) := by
        rw [← h.window_key hIn', hFirst]
      rw [hSame] at hNot
      exact hNot hDue
    have hBehind : p.seq ≠ i := by
      have hLow := (h.key_range hIn').1
      omega
    exact
      ⟨(hLeft p).mpr ⟨hIn, hBehind⟩, p',
        (hLeft p').mpr ⟨hIn', hOther⟩, hLe, hNot⟩

/- The loop leaves exactly the packets that are held up. -/
theorem buffered_deliver
    {i hi : Int}
    (h :
      RingBuffer.Holds (windowSize latency) i hi
        Package.seq good r.toRingBuffer)
    (hSpan : hi < i + windowSize latency)
    (hReach : hi ≤ r.cAck + windowSize latency)
    {n : Nat}
    (hFuel : hi < i + n)
    (p : Package) :
    p ∈ (deliver latency n i r).1.buffered latency ↔
      p ∈ r.buffered latency ∧ HeldUp latency r r.now p := by
  induction n generalizing i r with
  | zero => exact heldUp_of_zero h (h.zero_of_lt (by omega)) p
  | succ n ih =>
      have hw := windowSize_pos latency
      rw [deliver]
      dsimp only
      split
      · split
        · next hFree =>
            exact
              ih (h.raise hFree) (by omega) hReach
                (by omega)
        · next hUsed =>
            have hSet := Bool.eq_true_of_not_eq_false hUsed
            rcases slot_buffered h hSpan hSet with
              ⟨hMem, hSeq⟩
            split
            · next hDue =>
                rw [← heldUp_deliverSlot h hSpan hSet hDue p]
                exact
                  ih (r := r.deliverSlot latency i)
                    (h.release_raise hw hSet) (by omega)
                    (Int.le_of_lt hSpan) (by omega)
            · next hNotDue =>
                constructor
                · intro hIn
                  refine ⟨hIn, _, hMem, ?_, hNotDue⟩
                  rw [hSeq]
                  exact (h.key_range hIn).1
                · exact And.left
      · next hEnd =>
          exact
            heldUp_of_zero h (zero_of_stopped h hReach hEnd) p

/- A whole pass leaves what is held up at its reading. -/
theorem Inv.buffered_deliverPass
    (h : Inv latency good r.progress)
    (c : Clocks)
    (p : Package) :
    p ∈ (r.deliverPass latency c).1.buffered latency ↔
      p ∈ r.buffered latency ∧
        HeldUp latency r c.pass.toTimeval p := by
  have hw := windowSize_pos latency
  have hRing :
      RingBuffer.Holds (windowSize latency) (r.cAck + 1)
        (r.cAck + windowSize latency) Package.seq good
        r.toRingBuffer := h.ring
  exact
    buffered_deliver (r := { r with now := c.pass.toTimeval })
      hRing (by omega) (Int.le_refl _) (by omega) p

/- What the delivery loop does not change. -/
theorem deliverPass_frame
    (latency : Nat)
    (r : RtRcv A)
    (c : Clocks) :
    (r.deliverPass latency c).1.now = c.pass.toTimeval ∧
      (r.deliverPass latency c).1.nextReportTime =
        r.nextReportTime ∧
      (r.deliverPass latency c).1.baseDelta =
        r.baseDelta :=
  deliverPass_keeps
    (P := fun q =>
      q.now = c.pass.toTimeval ∧
        q.nextReportTime = r.nextReportTime ∧
        q.baseDelta = r.baseDelta)
    (fun _ _ hSame => hSame) ⟨rfl, rfl, rfl⟩

end RtRcv

end P2

end Cs2520

------------------------------------------------------------
-- The Timeout
------------------------------------------------------------

namespace Cs2520

namespace P2

namespace RtRcv

open Lib

variable {A : Type}
variable {latency : Nat}
variable {r : RtRcv A}

/- The timeout of `select`, if there is one. -/
def timeout?
    (r : RtRcv A) : Option Timeval :=
  if r.rcvdCount = 0 then
    none
  else
    some (Timeval.timersub r.nextReportTime r.now)

/-
  There is a timeout, and it ends no later than the delivery
  time of any packet in the window.
-/
def Wakes
    (latency : Nat)
    (r : RtRcv A) : Prop :=
  ∃ t ∈ r.timeout?,
    ∀ p ∈ r.buffered latency,
      r.now.micros + t.micros ≤
        (r.deliverTime latency p).micros

/- A packet in the window is counted, so there is a timeout. -/
theorem wakes_iff_report
    (hCounted : r.Counted)
    (hSome : 0 < r.buffersize) :
    r.Wakes latency ↔
      ∀ p ∈ r.buffered latency,
        r.nextReportTime.micros ≤
          (r.deliverTime latency p).micros := by
  have hTimeout :
      r.timeout? =
        some (Timeval.timersub r.nextReportTime r.now) := by
    apply if_neg
    rw [hCounted]
    omega
  have hEnd :
      r.now.micros +
          (Timeval.timersub r.nextReportTime r.now).micros =
        r.nextReportTime.micros := by
    rw [Timeval.micros_timersub]
    omega
  rw [Wakes, hTimeout]
  constructor
  · rintro ⟨t, hMem, hAll⟩
    cases hMem
    rw [hEnd] at hAll
    exact hAll
  · intro hAll
    refine ⟨_, rfl, ?_⟩
    rw [hEnd]
    exact hAll

/-
  In every reachable state, `select` wakes up in time if and
  only if every packet that the pass before it cannot deliver
  is not to be delivered before the next report.
-/
theorem wakes_iff
    (server : A)
    (u : Uninitialized)
    (es : List (Ev A))
    (c : Clocks) :
    let r := (machine latency).run (initial server u) es
    let q := examining latency c r
    (0 < q.buffersize → q.Wakes latency) ↔
      ∀ p ∈ r.buffered latency,
        HeldUp latency r c.pass.toTimeval p →
          r.nextReportTime.micros ≤
            (r.deliverTime latency p).micros := by
  intro r q
  have hInv : Inv latency (fun _ => True) r.progress :=
    (inv_initial latency (fun _ => True) server u).run es
  have hNext : Inv latency (fun _ => True) q.progress :=
    hInv.deliverPass c
  have hCounted : q.Counted :=
    (run_counted server u es).deliverPass c
  rcases deliverPass_frame latency r c with
    ⟨_, hReport, hDelta⟩
  have hTime :
      ∀ p, q.deliverTime latency p = r.deliverTime latency p
      := by
    intro p
    simp only [deliverTime, q, examining, hDelta]
  have hLeft :
      (∀ p ∈ q.buffered latency,
          q.nextReportTime.micros ≤
            (q.deliverTime latency p).micros) ↔
        ∀ p ∈ r.buffered latency,
          HeldUp latency r c.pass.toTimeval p →
            r.nextReportTime.micros ≤
              (r.deliverTime latency p).micros := by
    have hSame : q.nextReportTime = r.nextReportTime :=
      hReport
    have hMem :
        ∀ p,
          p ∈ q.buffered latency ↔
            p ∈ r.buffered latency ∧
              HeldUp latency r c.pass.toTimeval p :=
      hInv.buffered_deliverPass c
    simp only [hTime, hSame, hMem, and_imp]
  rw [← hLeft]
  by_cases hSome : 0 < q.buffersize
  · rw [wakes_iff_report hCounted hSome]
    exact ⟨fun hAll => hAll hSome, fun hAll _ => hAll⟩
  · have hNonneg := hNext.ring.count_nonneg
    have hZero : q.buffersize = 0 :=
      Int.le_antisymm (Int.not_lt.mp hSome) hNonneg
    constructor
    · intro _ p hMem
      exact (hNext.ring.items_of_zero hZero p hMem).elim
    · intro _ hPos
      exact absurd hPos hSome

/- Packet 1 arrives in the second in which it was sent. -/
def firstArrived : List (Ev Unit) :=
  [permission,
    { packet := some ((), dataPackage 1)
      clocks := .ofSeconds 1 }]

/-
  Packet 1 is to be delivered 10 ms later, and `select`
  sleeps for 5 seconds.
-/
theorem overslept :
    ¬ ∀ (latency : Nat) (es : List (Ev Unit)) (c : Clocks),
      let q :=
        examining latency c
          ((machine latency).run (initial () zeroedMemory)
            es)
      0 < q.buffersize → q.Wakes latency := by
  intro hAll
  rcases
    hAll 10 firstArrived (.ofSeconds 1)
      (by decide +kernel) with
    ⟨t, hTimeout, hEnds⟩
  have hLast :=
    hEnds
      { dataPackage 1 with
        receiveTS1 := (Clock.ofSeconds 1).toTimeval }
      (by decide +kernel)
  rw [← Option.mem_unique
    (by decide +kernel :
      ({ sec := 5, usec := 0 } : Timeval) ∈
        (examining 10 (.ofSeconds 1)
          ((machine 10).run (initial () zeroedMemory)
            firstArrived)).timeout?) hTimeout] at hLast
  revert hLast
  decide +kernel

end RtRcv

end P2

end Cs2520
