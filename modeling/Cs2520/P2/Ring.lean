import Cs2520.P2.EchoNacks

/-
  The ring of the real-time receiver.

  After every pass, and wherever the delivery loop is, the
  counter is exact and each slot in use holds a packet of its
  own number from the window after `C_ack`. An accepted
  packet stays in its slot until it is delivered.

  Main declarations:
    * `RingExact`
    * `accepted?`
    * `Waiting`
    * `Waiting.step`
    * `ring_invariant`
-/

------------------------------------------------------------
-- Slots and Counter
------------------------------------------------------------

namespace Cs2520

namespace P2

namespace RtRcv

open Lib

variable {A : Type}
variable {latency : Nat}
variable {good : Package → Prop}
variable {r : RtRcv A}

/-
  `buffersize` counts the slots in use, and each of them
  holds a packet of its own number from the window.
-/
structure RingExact
    (latency : Nat)
    (r : RtRcv A) : Prop where
  count :
    r.buffersize =
      (RingBuffer.occupied (windowSize latency)
        r.buffer).card
  slots :
    ∀ k, 0 ≤ k → k < windowSize latency →
      r.buffer k = true →
        (r.window k).seq % windowSize latency = k ∧
          r.cAck < (r.window k).seq ∧
          (r.window k).seq ≤ r.cAck + windowSize latency

theorem Inv.ringExact
    (h : Inv latency good r.progress) :
    RingExact latency r where
  count := h.ring.count
  slots := by
    intro k hLo hHi hSet
    rcases h.ring.slot k hLo hHi hSet with
      ⟨hSlot, hAfter, hUpTo, _⟩
    exact ⟨hSlot, Int.lt_of_add_one_le hAfter, hUpTo⟩

end RtRcv

end P2

end Cs2520

------------------------------------------------------------
-- Accepted Packets
------------------------------------------------------------

namespace Cs2520

namespace P2

namespace RtRcv

open Lib

variable {A : Type}
variable {latency : Nat}
variable {r : RtRcv A}

/- The packet that a pass accepts into the window, if any. -/
def accepted?
    (latency : Nat)
    (e : RtRcv A × Ev A) : Option Package :=
  match e.2.packet with
  | none => none
  | some (_, pkt) =>
      let q := examining latency e.2.clocks e.1
      if e.1.exited = false ∧
          e.1.getpermission = true ∧
          (pkt.type = 0 ∨ pkt.type = 6) ∧
          q.inWindow latency pkt.seq = true ∧
          q.inTime latency pkt
            e.2.clocks.examine.toTimeval = true then
        some pkt
      else
        none

theorem accepted?_eq_some_iff
    {e : Ev A}
    {pkt : Package} :
    accepted? latency (r, e) = some pkt ↔
      r.exited = false ∧
        r.getpermission = true ∧
        ∃ a,
          e.packet = some (a, pkt) ∧
            Accepts latency e.clocks
              (examining latency e.clocks r)
              (some (a, pkt)) := by
  rcases e with ⟨_ | ⟨a, p⟩, c⟩
  · simp [accepted?]
  · simp only [accepted?, Option.ite_none_right_eq_some,
      Option.some.injEq, Prod.mk.injEq]
    constructor
    · rintro ⟨⟨hRunning, hConnected, hAll⟩, rfl⟩
      exact
        ⟨hRunning, hConnected, a, ⟨rfl, rfl⟩, a, p, rfl, hAll⟩
    · rintro ⟨hRunning, hConnected, _, ⟨rfl, rfl⟩, hAccepts⟩
      exact ⟨⟨hRunning, hConnected, hAccepts.of_some⟩, rfl⟩

end RtRcv

end P2

end Cs2520

------------------------------------------------------------
-- Waiting for Delivery
------------------------------------------------------------

namespace Cs2520

namespace P2

namespace RtRcv

open Lib

variable {A : Type}
variable {latency : Nat}
variable {r : RtRcv A}
variable {x : Package}

/- The packet is in the slot of its number, unchanged. -/
def Waiting
    (latency : Nat)
    (x : Package)
    (r : RtRcv A) : Prop :=
  r.buffer (x.seq % windowSize latency) = true ∧
    r.window (x.seq % windowSize latency) = x

/- The number and the data of the packet were delivered. -/
def DeliveredIn
    (x : Package)
    (out : List (Out A)) : Prop :=
  ∃ d, Out.deliver d ∈ out ∧ d.seq = x.seq ∧ d.data = x.data

theorem DeliveredIn.mono
    {out out' : List (Out A)}
    (h : DeliveredIn x out)
    (hSub : out ⊆ out') :
    DeliveredIn x out' := by
  rcases h with ⟨d, hMem, hSame⟩
  exact ⟨d, hSub hMem, hSame⟩

/- Whether a packet waits is a matter of the ring alone. -/
theorem Waiting.of_ring
    {q : RtRcv A}
    (h : Waiting latency x r)
    (hRing : q.toRingBuffer = r.toRingBuffer) :
    Waiting latency x q := by
  rw [Waiting, hRing]
  exact h

/- A packet just put into its slot waits there. -/
theorem waiting_of_store
    {b : RingBuffer Package}
    (hRing :
      r.toRingBuffer =
        b.store (x.seq % windowSize latency) x) :
    Waiting latency x r := by
  rw [Waiting, hRing]
  exact ⟨Function.update_self _ _ _, Function.update_self _ _ _⟩

/- A delivery takes the packet of its slot, and no other. -/
theorem Waiting.deliverSlot
    (h : Waiting latency x r)
    (i : Int) :
    Waiting latency x (r.deliverSlot latency i) ∨
      ((r.deliverSlot latency i).sendPkt.seq = x.seq ∧
        (r.deliverSlot latency i).sendPkt.data = x.data) := by
  by_cases hSlot :
      x.seq % windowSize latency = i % windowSize latency
  · right
    have hSame := h.2
    rw [hSlot] at hSame
    rw [← hSame]
    exact ⟨rfl, rfl⟩
  · left
    constructor
    · exact (Function.update_of_ne hSlot _ _).trans h.1
    · exact h.2

/- The loop leaves a packet where it is, or delivers it. -/
theorem Waiting.deliver
    (h : Waiting latency x r)
    (n : Nat)
    (i : Int) :
    Waiting latency x (RtRcv.deliver latency n i r).1 ∨
      DeliveredIn x (RtRcv.deliver latency n i r).2 := by
  induction n generalizing i r with
  | zero => exact Or.inl h
  | succ n ih =>
      rw [RtRcv.deliver]
      dsimp only
      split
      · split
        · exact ih h (i + 1)
        · split
          · rcases h.deliverSlot i with hStill | hTaken
            · rcases ih hStill (i + 1) with hEnd | hLater
              · exact Or.inl hEnd
              · right
                exact hLater.mono (List.subset_cons_self _ _)
            · exact
                Or.inr ⟨_, List.mem_cons_self, hTaken⟩
          · exact Or.inl h
      · exact Or.inl h

theorem Waiting.deliverPass
    (h : Waiting latency x r)
    (c : Clocks) :
    Waiting latency x (r.deliverPass latency c).1 ∨
      DeliveredIn x (r.deliverPass latency c).2 := by
  have hNow :
      Waiting latency x { r with now := c.pass.toTimeval } :=
    h
  exact hNow.deliver _ _

/- A packet is only stored in a free slot. -/
theorem Waiting.received
    {c : Clocks}
    {packet : Option (A × Package)}
    {res : RtRcv A × List (Out A)}
    (h : Waiting latency x r)
    (hRes : Received latency c r packet res) :
    Waiting latency x res.1 := by
  cases hRes with
  | unchanged _ hSame =>
      exact h.of_ring (congrArg Progress.toRingBuffer hSame)
  | @stored a pkt q echo _ hRange _ hStored _ _ =>
      simp only [inWindow, Bool.and_eq_true,
        beq_iff_eq] at hRange
      have hNe :
          x.seq % windowSize latency ≠
            pkt.seq % windowSize latency := by
        intro hSlot
        have hFree := hRange.2
        rw [← hSlot, h.1] at hFree
        cases hFree
      have hRing :
          q.toRingBuffer =
            r.toRingBuffer.store
              (pkt.seq % windowSize latency)
              (stamped c pkt) :=
        congrArg Progress.toRingBuffer hStored
      rw [Waiting, hRing]
      exact
        ⟨(Function.update_of_ne hNe _ _).trans h.1,
          (Function.update_of_ne hNe _ _).trans h.2⟩

theorem Waiting.connecting
    {c : Clocks}
    {packet : Option (A × Package)}
    {res : RtRcv A × List (Out A)}
    (h : Waiting latency x r)
    (hRes : Connecting latency c r packet res) :
    Waiting latency x res.1 := by
  cases hRes with
  | asked => exact h
  | declined _ => exact h
  | permitted _ => exact h
  | ignored _ _ => exact h

/- A pass leaves a packet where it is, or delivers it. -/
theorem Waiting.step
    (h : Waiting latency x r)
    (e : Ev A) :
    Waiting latency x (RtRcv.step latency r e).1 ∨
      DeliveredIn x (RtRcv.step latency r e).2 := by
  have hStep := step_stepping latency r e
  generalize RtRcv.step latency r e = res at hStep ⊢
  cases hStep with
  | exited _ => exact Or.inl h
  | connecting _ _ hRes => exact Or.inl (h.connecting hRes)
  | receiving _ _ hRes =>
      rcases h.deliverPass e.clocks with hStill | hTaken
      · left
        dsimp only
        exact hStill.received hRes.received
      · right
        exact hTaken.mono (List.subset_append_left _ _)

/- So does every run. -/
theorem Waiting.run
    (h : Waiting latency x r)
    (es : List (Ev A)) :
    Waiting latency x ((machine latency).run r es) ∨
      DeliveredIn x ((machine latency).outputs r es) := by
  apply
    Machine.outputs_invariant (machine latency)
      (fun q out => Waiting latency x q ∨ DeliveredIn x out)
  · rintro q out e (hWaits | hTaken)
    · rcases hWaits.step e with hStill | hNow
      · exact Or.inl hStill
      · right
        exact hNow.mono (List.subset_append_right _ _)
    · right
      exact hTaken.mono (List.subset_append_left _ _)
  · exact Or.inl h

/- An accepted packet begins to wait. -/
theorem waiting_of_accepted
    {e : Ev A}
    {pkt : Package}
    (hAccepted : accepted? latency (r, e) = some pkt) :
    Waiting latency (stamped e.clocks pkt)
      (step latency r e).1 := by
  rcases accepted?_eq_some_iff.mp hAccepted with
    ⟨hRunning, hConnected, a, hPacket, hAccepts⟩
  have hRes :=
    receivePass_received latency e.clocks
      (examining latency e.clocks r) e.packet
  rw [step_main_fst hRunning hConnected, ← examining]
  rw [hPacket] at hRes ⊢
  generalize
    (examining latency e.clocks r).receivePass latency
      e.clocks (some (a, pkt)) = res at hRes ⊢
  cases hRes with
  | unchanged hNot _ => exact absurd hAccepts hNot
  | stored _ _ _ hStored _ _ =>
      exact
        waiting_of_store
          (congrArg Progress.toRingBuffer hStored)

/-
  In every run, and at every turn of the delivery loop that
  follows it, the counter and the slots are right. A packet
  that was accepted is still in its slot, or it has been
  delivered since.
-/
theorem ring_invariant
    (latency : Nat)
    (server : A)
    (u : Uninitialized)
    (es : List (Ev A)) :
    let M := machine latency
    let r := M.run (initial server u) es
    RingExact latency r ∧
      (∀ now n,
        RingExact latency
          (deliver latency n (r.cAck + 1)
            { r with now := now }).1) ∧
      ∀ pre e post pkt,
        es = pre ++ e :: post →
          accepted? latency
              (M.run (initial server u) pre, e) =
            some pkt →
            Waiting latency (stamped e.clocks pkt) r ∨
              DeliveredIn pkt
                (M.outputs
                  (M.run (initial server u) (pre ++ [e]))
                  post) := by
  have hInv :=
    (inv_initial latency (fun _ => True) server u).run es
  refine ⟨hInv.ringExact, ?_, ?_⟩
  · intro now n
    exact (hInv.deliverLoop now n).ringExact
  · intro pre e post pkt hSplit hAccepted
    have hRun :
        (machine latency).run (initial server u) es =
          (machine latency).run
            ((machine latency).run (initial server u)
              (pre ++ [e])) post := by
      rw [hSplit, ← Machine.run_append, List.append_assoc]
      rfl
    rw [hRun]
    apply Waiting.run (x := stamped e.clocks pkt)
    rw [Machine.run_append]
    exact waiting_of_accepted hAccepted

end RtRcv

end P2

end Cs2520
