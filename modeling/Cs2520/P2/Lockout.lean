import Cs2520.P2.Window

/-
  Which new packets the real-time receiver stores.

  `C_ack` only follows deliveries. When a burst of losses is
  longer than the window, the stream runs out of the range
  that is accepted, and nothing is ever stored again.

  Main declarations:
    * `Stored`
    * `stored_iff_in_window`
    * `not_stored_after_burst`
    * `nothing_stored_after_burst`
-/

------------------------------------------------------------
-- New Packets in Time
------------------------------------------------------------

namespace Cs2520

namespace P2

namespace RtRcv

open Lib

variable {A : Type}
variable {latency : Nat}
variable {r : RtRcv A}

/- The state of a pass when its packet is examined. -/
def examining
    (latency : Nat)
    (c : Clocks)
    (r : RtRcv A) : RtRcv A :=
  (r.deliverPass latency c).1

/- The packet is in its slot, with the time of arrival. -/
def Stored
    (latency : Nat)
    (pkt : Package)
    (r : RtRcv A) : Prop :=
  r.buffer (pkt.seq % windowSize latency) = true ∧
    ∃ arrival,
      r.window (pkt.seq % windowSize latency) =
        { pkt with receiveTS1 := arrival }

/- What was accepted explains the window. -/
theorem inv_acceptedSeqs
    (latency : Nat)
    (server : A)
    (u : Uninitialized)
    (es : List (Ev A)) :
    Inv latency
      (fun p =>
        p.seq ∈
          acceptedSeqs
            ((machine latency).outputs (initial server u)
              es))
      ((machine latency).run (initial server u) es).progress
    := by
  apply
    Machine.outputs_invariant (machine latency)
      (fun r out =>
        Inv latency (fun p => p.seq ∈ acceptedSeqs out)
          r.progress)
  · intro r out e hInv
    apply (hInv.mono ?_).step
    · intro a pkt _ _ hSeq
      change pkt.seq ∈ acceptedSeqs (out ++ _)
      rw [acceptedSeqs_append]
      exact List.mem_append_right _ hSeq
    · intro p hp
      rw [acceptedSeqs_append]
      exact List.mem_append_left _ hp
  · exact inv_initial latency _ server u

/- The slot of a number newer than all others is free. -/
theorem Inv.free_of_new
    {good : Package → Prop}
    {t : Progress}
    (h : Inv latency good t)
    {seq : Int}
    (hNew : ∀ p, good p → p.seq < seq)
    (hLo : t.cAck + 1 ≤ seq)
    (hHi : seq ≤ t.cAck + windowSize latency) :
    t.buffer (seq % windowSize latency) = false := by
  by_contra hUsed
  have hw := windowSize_pos latency
  have hSet := Bool.eq_true_of_not_eq_false hUsed
  have hSlot := RingBuffer.Holds.slot_range hw seq
  rcases h.ring.slot _ hSlot.1 hSlot.2 hSet with
    ⟨_, _, _, hGood⟩
  have hKey :=
    h.ring.key_eq hw (by omega) (by omega) hSet
  have hLt := hNew _ hGood
  omega

/- No number newer than all others has been delivered. -/
theorem Inv.lt_of_new
    {good : Package → Prop}
    {t : Progress}
    (h : Inv latency good t)
    {seq : Int}
    (hNew : ∀ p, good p → p.seq < seq)
    (hPos : 1 ≤ seq) :
    t.cAck + 1 ≤ seq := by
  rcases h.last with hZero | ⟨p, hp, hLast⟩
  · omega
  · have hLt := hNew p hp
    omega

/- A new number is accepted exactly up to the window end. -/
theorem Inv.inWindow_iff
    {good : Package → Prop}
    (h : Inv latency good r.progress)
    {seq : Int}
    (hNew : ∀ p, good p → p.seq < seq) :
    r.inWindow latency seq = true ↔
      1 ≤ seq ∧ seq ≤ r.cAck + windowSize latency := by
  have hNonneg : 0 ≤ r.cAck := h.nonneg
  simp only [inWindow, Bool.and_eq_true, decide_eq_true_eq,
    beq_iff_eq]
  constructor
  · rintro ⟨⟨hLo, hHi⟩, _⟩
    omega
  · rintro ⟨hPos, hHi⟩
    have hLo : r.cAck + 1 ≤ seq := h.lt_of_new hNew hPos
    exact
      ⟨⟨hLo, by omega⟩, h.free_of_new hNew hLo hHi⟩

/- A number newer than all others is in no slot. -/
theorem Inv.not_stored_of_new
    {good : Package → Prop}
    {pkt : Package}
    (h : Inv latency good r.progress)
    (hNew : ∀ p, good p → p.seq < pkt.seq) :
    ¬ Stored latency pkt r := by
  rintro ⟨hSet, arrival, hSlot⟩
  have hRange :=
    RingBuffer.Holds.slot_range
      (windowSize_pos latency) pkt.seq
  rcases h.ring.slot _ hRange.1 hRange.2 hSet with
    ⟨_, _, _, hGood⟩
  change good (r.window (pkt.seq % windowSize latency))
    at hGood
  rw [hSlot] at hGood
  exact absurd (hNew _ hGood) (Int.lt_irrefl _)

/- A packet just put into its slot is there. -/
theorem stored_of_store
    {pkt : Package}
    {c : Clocks}
    {b : RingBuffer Package}
    (hRing :
      r.toRingBuffer =
        b.store (pkt.seq % windowSize latency)
          (stamped c pkt)) :
    Stored latency pkt r := by
  rw [Stored, hRing]
  constructor
  · exact Function.update_self _ _ _
  · exact ⟨_, Function.update_self _ _ _⟩

/- One pass: a new packet in time, in range or not. -/
theorem Inv.stored_iff
    {good : Package → Prop}
    (h : Inv latency good r.progress)
    (hConnected : r.getpermission = true)
    {c : Clocks}
    {a : A}
    {pkt : Package}
    (hData : pkt.type = 0)
    (hNew : ∀ p, good p → p.seq < pkt.seq)
    (hInTime :
      (examining latency c r).inTime latency pkt
        c.examine.toTimeval = true) :
    Stored latency pkt
        (RtRcv.step latency r
          { packet := some (a, pkt), clocks := c }).1 ↔
      (examining latency c r).inWindow latency pkt.seq =
        true := by
  have hMid :
      Inv latency good (examining latency c r).progress :=
    h.deliverPass c
  have hRes :=
    receivePass_received latency c (examining latency c r)
      (some (a, pkt))
  rw [step_main_fst (h.running hConnected) hConnected,
    ← examining]
  generalize
    (examining latency c r).receivePass latency c
      (some (a, pkt)) = res at hRes ⊢
  cases hRes with
  | unchanged hNot hSame =>
      constructor
      · intro hStored
        rw [← hSame] at hMid
        exact (hMid.not_stored_of_new hNew hStored).elim
      · intro hRange
        exfalso
        apply hNot
        exact
          ⟨a, pkt, rfl, Or.inl hData, hRange, hInTime⟩
  | stored hType hRange hTime hStored hEcho hSeq =>
      constructor
      · intro _
        exact hRange
      · intro _
        exact
          stored_of_store
            (congrArg Progress.toRingBuffer hStored)

/-
  In every run, a packet of type 0 that is newer than all
  accepted ones and in time is stored exactly when its number
  is at most `WINDOW_SIZE` above `C_ack`.
-/
theorem stored_iff_in_window
    (server : A)
    (u : Uninitialized)
    (es : List (Ev A))
    (c : Clocks)
    (a : A)
    (pkt : Package)
    (hConnected :
      ((machine latency).run (initial server u)
        es).getpermission = true)
    (hData : pkt.type = 0)
    (hNewest :
      ∀ n ∈
        acceptedSeqs
          ((machine latency).outputs (initial server u) es),
        n < pkt.seq)
    (hInTime :
      (examining latency c
        ((machine latency).run (initial server u)
          es)).inTime latency pkt c.examine.toTimeval =
          true) :
    Stored latency pkt
        ((machine latency).run (initial server u)
          (es ++ [{ packet := some (a, pkt), clocks := c }])) ↔
      1 ≤ pkt.seq ∧
        pkt.seq ≤
          (examining latency c
            ((machine latency).run (initial server u)
              es)).cAck + windowSize latency := by
  have hInv := inv_acceptedSeqs latency server u es
  have hMid := hInv.deliverPass c
  rw [Machine.run_append, Machine.run_cons, Machine.run_nil]
  calc
    Stored latency pkt
          (step latency
            ((machine latency).run (initial server u) es)
            { packet := some (a, pkt), clocks := c }).1 ↔
        (examining latency c
          ((machine latency).run (initial server u)
            es)).inWindow latency pkt.seq = true :=
      hInv.stored_iff hConnected hData
        (fun p hp => hNewest _ hp) hInTime
    _ ↔ _ := hMid.inWindow_iff (fun p hp => hNewest _ hp)

/- The permission of a server whose clock agrees. -/
def permission : Ev Unit where
  packet :=
    some
      ((),
        { Package.zeroed with
          type := 4
          sendTS := (Clock.ofSeconds 0).toTimeval
          receiveTS1 := (Clock.ofSeconds 0).toTimeval })
  clocks := .ofSeconds 0

/- Packet `seq`, sent one second later. -/
def dataPackage
    (seq : Int) : Package :=
  { Package.zeroed with
    seq := seq
    sendTS := (Clock.ofSeconds 1).toTimeval }

theorem stored_first :
    Stored 10 (dataPackage 1)
      ((machine 10).run (initial () zeroedMemory)
        ([permission] ++
          [{ packet := some ((), dataPackage 1)
             clocks := .ofSeconds 1 }])) :=
  (stored_iff_in_window () zeroedMemory [permission]
    (.ofSeconds 1) () (dataPackage 1)
    (by decide +kernel) (by decide +kernel)
    (by decide +kernel) (by decide +kernel)).mpr
    (by decide +kernel)

/-
  With a latency window of 10 ms the window has 117 slots.
  If the first 117 packets are lost, packet 118 is dropped.
-/
theorem not_stored_after_burst :
    ¬ ∀ (latency : Nat) (u : Uninitialized)
        (es : List (Ev Unit)) (c : Clocks) (pkt : Package),
      ((machine latency).run (initial () u)
          es).getpermission = true →
        pkt.type = 0 →
          (∀ n ∈
              acceptedSeqs
                ((machine latency).outputs (initial () u)
                  es),
            n < pkt.seq) →
            (examining latency c
                ((machine latency).run (initial () u)
                  es)).inTime latency pkt
                c.examine.toTimeval = true →
              Stored latency pkt
                ((machine latency).run (initial () u)
                  (es ++
                    [{ packet := some ((), pkt)
                       clocks := c }])) := by
  intro hAll
  have hStored :=
    hAll 10 zeroedMemory [permission] (.ofSeconds 1)
      (dataPackage 118) (by decide +kernel)
      (by decide +kernel) (by decide +kernel)
      (by decide +kernel)
  have hFree :
      ((machine 10).run (initial () zeroedMemory)
        ([permission] ++
          [{ packet := some ((), dataPackage 118)
             clocks := .ofSeconds 1 }])).buffer
        ((dataPackage 118).seq % windowSize 10) = false := by
    decide +kernel
  rw [hStored.1] at hFree
  cases hFree

end RtRcv

end P2

end Cs2520

------------------------------------------------------------
-- After a Burst of Losses
------------------------------------------------------------

namespace Cs2520

namespace P2

namespace RtRcv

open Lib

variable {A : Type}
variable {latency : Nat}
variable {r : RtRcv A}

/- A data packet is numbered beyond the window. -/
def BeyondWindow
    (latency : Nat)
    (ack : Int)
    (e : Ev A) : Prop :=
  ∀ a pkt,
    e.packet = some (a, pkt) →
      pkt.type = 0 ∨ pkt.type = 6 →
        ack + windowSize latency < pkt.seq

/- With an empty window the loop stops at once. -/
theorem examining_empty
    (hEmpty : r.buffersize = 0)
    (c : Clocks) :
    examining latency c r =
      { r with now := c.pass.toTimeval } := by
  rw [examining, deliverPass]
  cases (windowSize latency).toNat with
  | zero => rfl
  | succ n =>
      rw [deliver]
      dsimp only
      rw [if_neg]
      rintro ⟨_, hPos⟩
      omega

/- Connected, with an empty window after `ack`. -/
structure Idle
    (ack : Int)
    (t : Progress) : Prop where
  running : t.exited = false
  connected : t.getpermission = true
  cAck : t.cAck = ack
  empty : t.buffersize = 0

/- An idle receiver takes nothing from beyond the window. -/
theorem Idle.step
    {ack : Int}
    (h : Idle ack r.progress)
    {e : Ev A}
    (hBeyond : BeyondWindow latency ack e) :
    Idle ack (RtRcv.step latency r e).1.progress ∧
      acceptedSeqs (RtRcv.step latency r e).2 = [] := by
  rw [acceptedSeqs_step_main h.running h.connected,
    step_main_fst h.running h.connected, ← examining,
    examining_empty h.empty]
  have hRes :=
    receivePass_received latency e.clocks
      { r with now := e.clocks.pass.toTimeval } e.packet
  generalize hPacket : e.packet = packet at hRes ⊢
  generalize
    receivePass latency e.clocks
      { r with now := e.clocks.pass.toTimeval } packet = res
      at hRes ⊢
  cases hRes with
  | unchanged _ hSame =>
      rw [hSame]
      exact ⟨h, rfl⟩
  | stored hType hRange hTime hStored hEcho hSeq =>
      have hFar := hBeyond _ _ hPacket hType
      have hAck : r.cAck = ack := h.cAck
      simp only [inWindow, Bool.and_eq_true,
        decide_eq_true_eq] at hRange
      omega

/-
  The stream only counts upwards, so once it is beyond an
  empty window nothing is stored any more.
-/
theorem nothing_stored_after_burst
    {ack : Int}
    (h : Idle ack r.progress)
    {es : List (Ev A)}
    (hBeyond : ∀ e ∈ es, BeyondWindow latency ack e) :
    Idle ack ((machine latency).run r es).progress ∧
      acceptedSeqs ((machine latency).outputs r es) = []
    := by
  induction es generalizing r with
  | nil => exact ⟨h, rfl⟩
  | cons e es ih =>
      rcases h.step (hBeyond e List.mem_cons_self) with
        ⟨hIdle, hNone⟩
      rcases
        ih hIdle
          (fun e hMem =>
            hBeyond e (List.mem_cons_of_mem _ hMem)) with
        ⟨hEnd, hRest⟩
      refine ⟨hEnd, ?_⟩
      calc
        acceptedSeqs ((machine latency).outputs r (e :: es)) =
            acceptedSeqs (RtRcv.step latency r e).2 ++
              acceptedSeqs
                ((machine latency).outputs
                  (RtRcv.step latency r e).1 es) :=
          acceptedSeqs_append _ _
        _ = [] := by
          rw [hNone, List.nil_append]
          exact hRest

end RtRcv

end P2

end Cs2520
