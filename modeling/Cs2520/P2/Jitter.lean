import Cs2520.Lib.Missing
import Cs2520.Lib.Playout
import Cs2520.P2.Deadlines
import Cs2520.P2.Ring

/-
  The real-time receiver refines a play-out queue.

  The ring, its flags and its counter are a queue of packets
  in the order of their numbers. The delivery loop plays it,
  and a packet that is not late is offered to it. So the
  records delivered, followed by the packets in the window,
  are at any time the accepted packets sorted by number.

  Main declarations:
    * `queued`
    * `label`
    * `Played`
    * `deliver_played`
    * `Presents`
    * `refines`
    * `playout_run`
    * `delivered_append_queued`
-/

------------------------------------------------------------
-- The Queue in the Ring
------------------------------------------------------------

namespace Cs2520

namespace P2

open Lib

/- What the application gets to know of a packet. -/
def Package.content
    (p : Package) : Int × Block UInt8 maxDataLen :=
  (p.seq, p.data)

namespace RtRcv

variable {A : Type}
variable (latency : Nat)

/- The packet that waits in the slot of a number, if any. -/
def slot?
    (r : RtRcv A)
    (i : Int) : Option Package :=
  if r.buffer (i % windowSize latency) = true then
    some (r.window (i % windowSize latency))
  else
    none

/- The packets in the window, from `C_ack + 1` on. -/
def queued
    (r : RtRcv A) : List Package :=
  (Int.range (r.cAck + 1)
    (r.cAck + 1 + windowSize latency)).filterMap
      (r.slot? latency)

/- The test of the delivery loop. -/
def passes
    (r : RtRcv A)
    (p : Package) : Bool :=
  decide (-1 < cmpTime r.now (r.deliverTime latency p))

/- The packet that is not too late, if there is one. -/
def offered
    (c : Clocks)
    (r : RtRcv A) :
    Option (A × Package) → Option Package
  | none => none
  | some (_, pkt) =>
      if (pkt.type = 0 ∨ pkt.type = 6) ∧
          r.inTime latency pkt c.examine.toTimeval = true
      then
        some (stamped c pkt)
      else
        none

/- A pass of the program as a pass of the queue. -/
def label
    (e : RtRcv A × Ev A) : Playout.Input Package :=
  if e.1.exited = false ∧ e.1.getpermission = true then
    .pass
      (passes latency
        { e.1 with now := e.2.clocks.pass.toTimeval })
      (e.1.offered latency e.2.clocks e.2.packet)
  else
    .idle

/- The content of a delivered record. -/
def Out.content?
    (o : Out A) : Option (Int × Block UInt8 maxDataLen) :=
  o.record?.map (fun d => (d.seq, d.data))

theorem Out.no_content
    {out : List (Out A)}
    (hNone : out.filterMap Out.record? = []) :
    out.filterMap Out.content? = [] := by
  have hMap :
      out.filterMap Out.content? =
        (out.filterMap Out.record?).map
          (fun d => (d.seq, d.data)) :=
    List.map_filterMap.symm
  rw [hMap, hNone, List.map_nil]

variable {latency}
variable {good : Package → Prop}
variable {r : RtRcv A}

theorem mem_queued_iff
    (h : Inv latency good r.progress)
    {p : Package} :
    p ∈ r.queued latency ↔ p ∈ r.buffered latency := by
  have hw := windowSize_pos latency
  have hRing :
      RingBuffer.Holds (windowSize latency) (r.cAck + 1)
        (r.cAck + windowSize latency) Package.seq good
        r.toRingBuffer := h.ring
  simp only [queued, List.mem_filterMap, Int.mem_range_iff,
    slot?, Option.ite_none_right_eq_some, Option.some.injEq]
  constructor
  · rintro ⟨i, _, hSet, rfl⟩
    exact
      RingBuffer.mem_items_iff.mpr
        ⟨_, RingBuffer.Holds.slot_range hw i, hSet, rfl⟩
  · intro hMem
    have hRange := hRing.key_range hMem
    refine ⟨p.seq, by omega, ?_, hRing.window_key hMem⟩
    exact
      (hRing.set_iff hw (by omega) (by omega)).mpr
        ⟨p, hMem, rfl⟩

/- A slot of the window holds a packet of its number. -/
theorem seq_of_slot?
    (h : Inv latency good r.progress)
    {i : Int}
    {p : Package}
    (hRange :
      i ∈
        Int.range (r.cAck + 1)
          (r.cAck + 1 + windowSize latency))
    (hSlot : r.slot? latency i = some p) :
    p.seq = i := by
  have hw := windowSize_pos latency
  have hAround := Int.mem_range_iff.mp hRange
  simp only [slot?, Option.ite_none_right_eq_some,
    Option.some.injEq] at hSlot
  rcases hSlot with ⟨hSet, rfl⟩
  have hRing :
      RingBuffer.Holds (windowSize latency) (r.cAck + 1)
        (r.cAck + windowSize latency) Package.seq good
        r.toRingBuffer := h.ring
  exact hRing.key_eq hw (by omega) (by omega) hSet

/- The packets in the queue are in order. -/
theorem queued_rising
    (h : Inv latency good r.progress) :
    Rising Package.seq (r.queued latency) := by
  apply List.pairwise_filterMap.mpr
  apply (range_increasing _ _).imp_of_mem
  intro i j hi hj hLt p hp p' hp'
  rw [seq_of_slot? h hi hp, seq_of_slot? h hj hp']
  exact hLt

end RtRcv

end P2

end Cs2520

------------------------------------------------------------
-- The Loop Plays the Queue
------------------------------------------------------------

namespace Cs2520

namespace P2

namespace RtRcv

open Lib

variable {A : Type}
variable {latency : Nat}
variable {good : Package → Prop}
variable {i hi : Int}
variable {r : RtRcv A}

/-
  The loop delivers the front of the queue while it is due,
  and leaves the rest.
-/
structure Played
    (latency : Nat)
    (r : RtRcv A)
    (queue : List Package)
    (res : RtRcv A × List (Out A)) : Prop where
  out :
    res.2 =
      (queue.takeWhile (r.passes latency)).map
        (fun p => .deliver (r.recordOf p))
  kept :
    ∀ p,
      p ∈ res.1.buffered latency ↔
        p ∈ queue.dropWhile (r.passes latency)
  cAck :
    res.1.cAck =
      ((queue.takeWhile (r.passes latency)).map
        Package.seq).getLastD r.cAck

/- The first packet is not due. -/
theorem Played.stop
    {p : Package}
    {rest : List Package}
    (hMem :
      ∀ p', p' ∈ r.buffered latency ↔ p' ∈ p :: rest)
    (hNot : r.passes latency p = false) :
    Played latency r (p :: rest) (r, []) := by
  constructor
  · rw [List.takeWhile_cons_of_neg (by simp [hNot])]
    rfl
  · intro p'
    rw [List.dropWhile_cons_of_neg (by simp [hNot])]
    exact hMem p'
  · rw [List.takeWhile_cons_of_neg (by simp [hNot])]
    rfl

/- The first packet is due. -/
theorem Played.cons
    {p : Package}
    {rest : List Package}
    (hDue : r.passes latency p = true)
    (hSeq : p.seq = i)
    {res : RtRcv A × List (Out A)}
    (hRest :
      Played latency (r.deliverSlot latency i) rest res) :
    Played latency r (p :: rest)
      (res.1, .deliver (r.recordOf p) :: res.2) := by
  have hPasses :
      (r.deliverSlot latency i).passes latency =
        r.passes latency := rfl
  have hFront := List.takeWhile_cons_of_pos (l := rest) hDue
  have hBack := List.dropWhile_cons_of_pos (l := rest) hDue
  constructor
  · rw [hFront, List.map_cons, hRest.out, hPasses]
    rfl
  · intro p'
    rw [hRest.kept p', hBack, hPasses]
  · rw [hFront, List.map_cons, List.getLastD_cons, hSeq,
      hRest.cAck, hPasses]
    rfl

/- An empty window is an empty queue. -/
theorem Played.of_zero
    (h :
      RingBuffer.Holds (windowSize latency) i hi
        Package.seq good r.toRingBuffer)
    (hZero : r.buffersize = 0)
    {queue : List Package}
    (hMem : ∀ p, p ∈ r.buffered latency ↔ p ∈ queue) :
    Played latency r queue (r, []) := by
  have hNone : queue = [] := by
    apply List.eq_nil_iff_forall_not_mem.mpr
    intro p hIn
    exact h.items_of_zero hZero p ((hMem p).mpr hIn)
  subst hNone
  exact ⟨rfl, hMem, rfl⟩

/-
  The loop from `i` on, with enough passes for every number
  in the window, plays the queue.
-/
theorem deliver_played
    (h :
      RingBuffer.Holds (windowSize latency) i hi
        Package.seq good r.toRingBuffer)
    (hSpan : hi < i + windowSize latency)
    (hReach : hi ≤ r.cAck + windowSize latency)
    {n : Nat}
    (hFuel : hi < i + n)
    {queue : List Package}
    (hRising : Rising Package.seq queue)
    (hMem : ∀ p, p ∈ r.buffered latency ↔ p ∈ queue) :
    Played latency r queue (deliver latency n i r) := by
  induction n generalizing i r queue with
  | zero => exact .of_zero h (h.zero_of_lt (by omega)) hMem
  | succ n ih =>
      have hw := windowSize_pos latency
      rw [deliver]
      dsimp only
      split
      · split
        · next hFree =>
            exact
              ih (h.raise hFree) (by omega) hReach
                (by omega) hRising hMem
        · next hUsed =>
            have hSet := Bool.eq_true_of_not_eq_false hUsed
            rcases slot_buffered h hSpan hSet with
              ⟨hIn, hSeq⟩
            rcases
              hRising.eq_cons ((hMem _).mp hIn)
                (fun p hp => by
                  rw [hSeq]
                  exact (h.key_range ((hMem p).mpr hp)).1)
              with ⟨rest, rfl⟩
            split
            · next hPassed =>
                refine
                  Played.cons (decide_eq_true hPassed) hSeq
                    (ih (h.release_raise hw hSet) (by omega)
                      (Int.le_of_lt hSpan) (by omega)
                      hRising.of_cons ?_)
                intro p
                rw [buffered_deliverSlot h hSpan, hMem,
                  hRising.mem_rest_iff, hSeq]
            · next hFailed =>
                exact
                  .stop hMem (decide_eq_false hFailed)
      · next hEnd =>
          exact
            .of_zero h (zero_of_stopped h hReach hEnd) hMem

end RtRcv

end P2

end Cs2520

------------------------------------------------------------
-- Passes
------------------------------------------------------------

namespace Cs2520

namespace P2

namespace RtRcv

open Lib

variable {A : Type}
variable {latency : Nat}
variable {r : RtRcv A}

/- The queue that the state of the program stands for. -/
structure Presents
    (latency : Nat)
    (r : RtRcv A)
    (P : Playout Package Package.seq) : Prop where
  inv : Inv latency (fun _ => True) r.progress
  last : P.last = r.cAck
  mem : ∀ p, p ∈ r.buffered latency ↔ p ∈ P.queue

/- There is one such queue. -/
theorem Presents.queue_eq
    {P : Playout Package Package.seq}
    (h : Presents latency r P) :
    P.queue = r.queued latency := by
  apply P.rising.ext (queued_rising h.inv)
  intro p
  rw [mem_queued_iff h.inv, h.mem p]

theorem presents_initial
    (latency : Nat)
    (server : A)
    (u : Uninitialized) :
    Presents latency (initial server u) (.empty 0) where
  inv := inv_initial latency _ server u
  last := rfl
  mem := by
    intro p
    have hNone :=
      (inv_initial latency (fun _ => True) server
        u).ring.items_of_zero rfl p
    constructor
    · intro hMem
      exact absurd hMem hNone
    · intro hMem
      cases hMem

/- What concerns the window is all that counts. -/
theorem Presents.of_progress
    {P : Playout Package Package.seq}
    (h : Presents latency r P)
    {q : RtRcv A}
    (hInv : Inv latency (fun _ => True) q.progress)
    (hRing : q.toRingBuffer = r.toRingBuffer)
    (hAck : q.cAck = r.cAck) :
    Presents latency q P where
  inv := hInv
  last := by rw [hAck, h.last]
  mem := by
    intro p
    rw [buffered, hRing]
    exact h.mem p

/- The delivery loop of a pass plays the queue. -/
theorem Presents.deliverPass
    {P : Playout Package Package.seq}
    (h : Presents latency r P)
    (c : Clocks) :
    let q : RtRcv A := { r with now := c.pass.toTimeval }
    Presents latency (r.deliverPass latency c).1
        (P.play (q.passes latency)) ∧
      (r.deliverPass latency c).2.filterMap Out.content? =
        (P.due (q.passes latency)).map Package.content := by
  intro q
  have hw := windowSize_pos latency
  have hInv : Inv latency (fun _ => True) q.progress := h.inv
  have hPlayed :
      Played latency q P.queue (r.deliverPass latency c) :=
    deliver_played (r := q)
      (n := (windowSize latency).toNat) hInv.ring (by omega)
      (Int.le_refl _) (by omega) P.rising h.mem
  refine ⟨⟨h.inv.deliverPass c, ?_, hPlayed.kept⟩, ?_⟩
  · rw [hPlayed.cAck]
    change
      ((P.due (q.passes latency)).map Package.seq).getLastD
        P.last = _
    rw [h.last]
    rfl
  · rw [hPlayed.out, List.filterMap_map]
    exact
      congrFun (List.filterMap_eq_map (f := Package.content))
        _

/- The slot test asks whether the queue takes the packet. -/
theorem Presents.inWindow_iff
    {P : Playout Package Package.seq}
    (h : Presents latency r P)
    (p : Package) :
    r.inWindow latency p.seq = true ↔
      P.Admits (windowSize latency) p := by
  have hw := windowSize_pos latency
  have hRing :
      RingBuffer.Holds (windowSize latency) (r.cAck + 1)
        (r.cAck + windowSize latency) Package.seq
        (fun _ => True) r.toRingBuffer := h.inv.ring
  simp only [inWindow, Bool.and_eq_true, decide_eq_true_eq,
    beq_iff_eq, Playout.Admits, h.last]
  constructor
  · rintro ⟨⟨hLo, hHi⟩, hFree⟩
    refine ⟨by omega, ?_⟩
    intro p' hMem hSame
    have hSet :=
      (hRing.set_iff hw (by omega) (by omega)).mpr
        ⟨p', (h.mem p').mpr hMem, hSame⟩
    rw [hFree] at hSet
    cases hSet
  · rintro ⟨hRange, hNew⟩
    refine ⟨by omega, ?_⟩
    by_contra hUsed
    rcases
      (hRing.set_iff hw (by omega) (by omega)).mp
        (Bool.eq_true_of_not_eq_false hUsed) with
      ⟨p', hMem, hSame⟩
    exact hNew p' ((h.mem p').mp hMem) hSame

/- Storing a packet is taking it into the queue. -/
theorem Presents.store
    {P : Playout Package Package.seq}
    (h : Presents latency r P)
    {p : Package}
    (hAdmits : P.Admits (windowSize latency) p)
    {q : RtRcv A}
    (hInv : Inv latency (fun _ => True) q.progress)
    (hRing :
      q.toRingBuffer =
        r.toRingBuffer.store
          (p.seq % windowSize latency) p)
    (hAck : q.cAck = r.cAck) :
    Presents latency q
      (P.offer (windowSize latency) p) := by
  have hw := windowSize_pos latency
  rw [Playout.offer, dif_pos hAdmits]
  refine ⟨hInv, ?_, ?_⟩
  · rw [hAck]
    exact h.last
  · intro p'
    have hFree : r.buffer (p.seq % windowSize latency) = false
      := by
      have hTest := (h.inWindow_iff p).mpr hAdmits
      simp only [inWindow, Bool.and_eq_true,
        beq_iff_eq] at hTest
      exact hTest.2
    rw [List.mem_orderedInsert, ← h.mem p', buffered, hRing]
    exact
      RingBuffer.mem_items_store
        (RingBuffer.Holds.slot_range hw p.seq) hFree

/- The delivery loop makes no difference to lateness. -/
theorem offered_deliverPass
    (r : RtRcv A)
    (c : Clocks) :
    (r.deliverPass latency c).1.offered latency c =
      r.offered latency c := by
  funext packet
  have hSame := (deliverPass_frame latency r c).2.2
  have hTime :
      (r.deliverPass latency c).1.inTime latency =
        r.inTime latency := by
    unfold inTime
    rw [hSame]
  cases packet with
  | none => rfl
  | some packet => rw [offered, hTime, offered]

/- The queue takes the packet that passes all tests. -/
theorem Presents.admitted?_eq
    {P : Playout Package Package.seq}
    (h : Presents latency r P)
    (c : Clocks)
    (a : A)
    (pkt : Package) :
    P.admitted? (windowSize latency)
        (r.offered latency c (some (a, pkt))) =
      if (pkt.type = 0 ∨ pkt.type = 6) ∧
          r.inWindow latency pkt.seq = true ∧
          r.inTime latency pkt c.examine.toTimeval = true
      then
        some (stamped c pkt)
      else
        none := by
  have hAdmits := h.inWindow_iff (stamped c pkt)
  change r.inWindow latency pkt.seq = true ↔ _ at hAdmits
  rw [offered]
  by_cases hOffered :
      (pkt.type = 0 ∨ pkt.type = 6) ∧
        r.inTime latency pkt c.examine.toTimeval = true
  · rw [if_pos hOffered, Playout.admitted?]
    simp only [hOffered, true_and, and_true, hAdmits]
  · rw [if_neg hOffered, if_neg]
    · rfl
    · rintro ⟨hType, _, hTime⟩
      exact hOffered ⟨hType, hTime⟩

/- What follows the delivery loop offers the packet. -/
theorem Presents.received
    {P : Playout Package Package.seq}
    (h : Presents latency r P)
    {c : Clocks}
    {packet : Option (A × Package)}
    {res : RtRcv A × List (Out A)}
    (hRes : Received latency c r packet res) :
    Presents latency res.1
      (P.offer? (windowSize latency)
        (r.offered latency c packet)) := by
  have hInv : Inv latency (fun _ => True) res.1.progress :=
    h.inv.received hRes (fun _ _ _ _ _ => trivial)
  cases hRes with
  | @unchanged _ q hNot hSame =>
      have hNone :
          P.admitted? (windowSize latency)
            (r.offered latency c packet) = none := by
        rcases packet with _ | ⟨a, pkt⟩
        · rfl
        · rw [h.admitted?_eq, if_neg]
          rintro ⟨hType, hRange, hTime⟩
          exact
            hNot ⟨a, pkt, rfl, hType, hRange, hTime⟩
      rw [Playout.offer?_of_none _ hNone]
      exact
        h.of_progress hInv
          (congrArg Progress.toRingBuffer hSame)
          (congrArg Progress.cAck hSame)
  | @stored a pkt q echo hType hRange hTime hStored =>
      rw [offered, if_pos ⟨hType, hTime⟩]
      exact
        h.store ((h.inWindow_iff (stamped c pkt)).mp hRange)
          hInv (congrArg Progress.toRingBuffer hStored)
          (congrArg Progress.cAck hStored)

/- Connecting leaves the queue alone. -/
theorem Presents.connecting
    {P : Playout Package Package.seq}
    (h : Presents latency r P)
    {c : Clocks}
    {packet : Option (A × Package)}
    {res : RtRcv A × List (Out A)}
    (hRunning : r.exited = false)
    (hNew : r.getpermission = false)
    (hRes : Connecting latency c r packet res) :
    Presents latency res.1 P := by
  have hInv := h.inv.connecting hRunning hNew hRes
  cases hRes with
  | asked => exact h.of_progress hInv rfl rfl
  | declined _ => exact h.of_progress hInv rfl rfl
  | permitted _ => exact h.of_progress hInv rfl rfl
  | ignored _ _ => exact h.of_progress hInv rfl rfl

theorem label_connected
    (hRunning : r.exited = false)
    (hConnected : r.getpermission = true)
    (e : Ev A) :
    label latency (r, e) =
      .pass
        (passes latency
          { r with now := e.clocks.pass.toTimeval })
        (r.offered latency e.clocks e.packet) :=
  if_pos ⟨hRunning, hConnected⟩

theorem label_idle
    (hIdle : ¬ (r.exited = false ∧ r.getpermission = true))
    (e : Ev A) :
    label latency (r, e) = .idle :=
  if_neg hIdle

/- A pass of the program is a pass of the queue. -/
theorem Presents.step
    {P : Playout Package Package.seq}
    (h : Presents latency r P)
    (e : Ev A) :
    let next :=
      P.step (windowSize latency) (label latency (r, e))
    Presents latency (RtRcv.step latency r e).1 next.1 ∧
      (RtRcv.step latency r e).2.filterMap Out.content? =
        next.2.map Package.content := by
  have hStep := step_stepping latency r e
  generalize RtRcv.step latency r e = res at hStep ⊢
  cases hStep with
  | exited hExited =>
      rw [label_idle (by simp [hExited])]
      exact ⟨h, rfl⟩
  | connecting hRunning hNew hRes =>
      rw [label_idle (by simp [hNew])]
      exact
        ⟨h.connecting hRunning hNew hRes,
          Out.no_content hRes.delivered.2⟩
  | receiving hRunning hConnected hRes =>
      rcases h.deliverPass e.clocks with ⟨hPlay, hOut⟩
      have hNext := hPlay.received hRes.received
      rw [offered_deliverPass] at hNext
      rw [label_connected hRunning hConnected]
      refine ⟨hNext, ?_⟩
      rw [List.filterMap_append, hOut,
        Out.no_content hRes.received.delivered.2,
        List.append_nil]
      rfl

/- What the program accepts, the queue takes. -/
theorem Presents.accepted
    {P : Playout Package Package.seq}
    (h : Presents latency r P)
    (e : Ev A) :
    (accepted? latency (r, e)).map (stamped e.clocks) =
      Playout.taken? (windowSize latency)
        (P, label latency (r, e)) := by
  by_cases hRuns : r.exited = false ∧ r.getpermission = true
  · rw [label_connected hRuns.1 hRuns.2]
    change
      _ =
        (P.play
          (passes latency
            { r with
              now := e.clocks.pass.toTimeval })).admitted?
          (windowSize latency)
          (r.offered latency e.clocks e.packet)
    rcases e with ⟨_ | ⟨a, pkt⟩, c⟩
    · rfl
    · have hAll :=
        (h.deliverPass c).1.admitted?_eq c a pkt
      rw [offered_deliverPass] at hAll
      rw [hAll, accepted?]
      simp only [hRuns, true_and, examining]
      split
      · rfl
      · rfl
  · rw [label_idle hRuns]
    have hNone : accepted? latency (r, e) = none := by
      by_contra hSome
      rcases Option.ne_none_iff_exists'.mp hSome with
        ⟨pkt, hAccepted⟩
      rcases accepted?_eq_some_iff.mp hAccepted with
        ⟨hRunning, hConnected, _⟩
      exact hRuns ⟨hRunning, hConnected⟩
    rw [hNone]
    rfl

/- The receiver does what a play-out queue does. -/
theorem refines
    (A : Type)
    (latency : Nat) :
    (machine (A := A) latency).Refines
      (Playout.machine (windowSize latency))
      (Presents latency) (label latency) Out.content?
      (some ∘ Package.content) where
  step r P e h := (h.step e).1
  out r P e h := by
    have hOut := (h.step e).2
    rw [← List.filterMap_eq_map] at hOut
    exact hOut

end RtRcv

end P2

end Cs2520

------------------------------------------------------------
-- Whole Runs
------------------------------------------------------------

namespace Cs2520

namespace P2

namespace RtRcv

open Lib

variable {A : Type}

/-
  In every run the receiver does what a play-out queue does:
  its window is the queue, `C_ack` is the last number that
  has left, and the records delivered are what has left.
-/
theorem playout_run
    (latency : Nat)
    (server : A)
    (u : Uninitialized)
    (es : List (Ev A)) :
    let M := machine latency
    let Q := Playout.machine (windowSize latency)
    let is :=
      (M.trace (initial server u) es).map (label latency)
    let r := M.run (initial server u) es
    let P : Playout Package Package.seq :=
      Q.run (.empty 0) is
    r.cAck = P.last ∧
      r.queued latency = P.queue ∧
      (M.outputs (initial server u) es).filterMap
          Out.content? =
        (Q.outputs (.empty 0) is).map Package.content := by
  have hStart := presents_initial latency server u
  have hRun := (refines A latency).run hStart es
  have hOut := (refines A latency).outputs hStart es
  rw [List.filterMap_eq_map] at hOut
  exact ⟨hRun.last.symm, hRun.queue_eq.symm, hOut⟩

/-
  At any time the records delivered, followed by the packets
  in the window, are the accepted packets sorted by number.
-/
theorem delivered_append_queued
    (latency : Nat)
    (server : A)
    (u : Uninitialized)
    (es : List (Ev A)) :
    let M := machine latency
    let r := M.run (initial server u) es
    r.delivered.map (fun d => (d.seq, d.data)) ++
        (r.queued latency).map Package.content =
      (((M.trace (initial server u) es).filterMap
        (accepted? latency)).map
          Package.content).insertionSort
            (keyLe Prod.fst) := by
  intro M r
  have hStart := presents_initial latency server u
  have hRefines := refines A latency
  have hSorted :=
    @Playout.outputs_append_queue _ Package.seq
      (windowSize latency) 0
      ((M.trace (initial server u) es).map (label latency))
  have hTaken :=
    hRefines.trace
      (f := fun e =>
        (accepted? latency e).map (stamped e.2.clocks))
      (g := Playout.taken? (windowSize latency))
      (fun r P e h => h.accepted e) hStart es
  have hRun := hRefines.run hStart es
  have hQueue := hRun.queue_eq.symm
  have hOut := hRefines.outputs hStart es
  rw [List.filterMap_eq_map] at hOut
  have hDelivered :
      r.delivered.map (fun d => (d.seq, d.data)) =
        (M.outputs (initial server u) es).filterMap
          Out.content? := by
    rw [delivered_eq_outputs]
    exact List.map_filterMap
  have hContent :
      ((M.trace (initial server u) es).filterMap
          (accepted? latency)).map Package.content =
        ((M.trace (initial server u) es).filterMap
          (fun e =>
            (accepted? latency e).map
              (stamped e.2.clocks))).map
                Package.content := by
    rw [List.map_filterMap, List.map_filterMap]
    apply List.filterMap_congr
    intro e _
    rw [Option.map_map]
    rfl
  rw [hDelivered, hContent, hTaken, hOut, hQueue,
    ← List.map_append, hSorted]
  exact
    List.map_insertionSort (keyLe Package.seq)
      (keyLe Prod.fst) Package.content _
      (fun p _ p' _ => Iff.rfl)

end RtRcv

end P2

end Cs2520
