import Cs2520.P2.RtRcv

/-
  What every run of the real-time receiver keeps.

  The window holds packets numbered `C_ack + 1` up to
  `C_ack + WINDOW_SIZE`, each in its own slot. `C_ack` is the
  last number delivered, and numbers are delivered in order.

  Main declarations:
    * `deliver_invariant`
    * `deliverPass_keeps`
    * `deliver_enough`
    * `Received`
    * `Receiving`
    * `receivePass_receiving`
    * `receivePass_received`
    * `Connecting`
    * `connectPass_connecting`
    * `Stepping`
    * `step_stepping`
    * `Inv`
    * `Inv.deliverPass`
    * `Inv.step`
    * `delivered_eq_outputs`
-/

------------------------------------------------------------
-- The Delivery Loop
------------------------------------------------------------

namespace Cs2520

namespace P2

namespace RtRcv

open Lib

variable {A : Type}
variable {latency : Nat}

theorem windowSize_pos
    (latency : Nat) :
    0 < windowSize latency := by
  unfold windowSize
  omega

/-
  What skipping a free slot and delivering a used one keep
  holds at the end of the loop.
-/
theorem deliver_invariant
    (Inv : Int → RtRcv A → Prop)
    (hSkip :
      ∀ i r, Inv i r →
        r.buffer (i % windowSize latency) = false →
          Inv (i + 1) r)
    (hSlot :
      ∀ i r, Inv i r →
        r.buffer (i % windowSize latency) = true →
          Inv (i + 1) (r.deliverSlot latency i))
    {n : Nat}
    {i : Int}
    {r : RtRcv A}
    (hInit : Inv i r) :
    ∃ j, Inv j (deliver latency n i r).1 := by
  induction n generalizing i r with
  | zero => exact ⟨i, hInit⟩
  | succ n ih =>
      rw [deliver]
      dsimp only
      split
      · split
        · next hFree => exact ih (hSkip i r hInit hFree)
        · next hSet =>
            split
            · exact
                ih (hSlot i r hInit
                  (Bool.eq_true_of_not_eq_false hSet))
            · exact ⟨i, hInit⟩
      · exact ⟨i, hInit⟩

/- The loop only sends what it enters into `delivered`. -/
theorem deliver_out
    (latency : Nat)
    (n : Nat)
    (i : Int)
    (r : RtRcv A) :
    ∃ sent,
      (deliver latency n i r).2 = sent.map Out.deliver ∧
        (deliver latency n i r).1.delivered =
          r.delivered ++ sent := by
  induction n generalizing i r with
  | zero => exact ⟨[], rfl, (List.append_nil _).symm⟩
  | succ n ih =>
      have hNone :
          ∃ sent : List StreamPkt,
            ([] : List (Out A)) = sent.map Out.deliver ∧
              r.delivered = r.delivered ++ sent :=
        ⟨[], rfl, (List.append_nil _).symm⟩
      rw [deliver]
      dsimp only
      split
      · split
        · exact ih (i + 1) r
        · split
          · rcases ih (i + 1) (r.deliverSlot latency i) with
              ⟨sent, hOut, hDelivered⟩
            refine
              ⟨(r.deliverSlot latency i).sendPkt :: sent,
                ?_, ?_⟩
            · rw [hOut, List.map_cons]
            · rw [hDelivered]
              simp [deliverSlot, fillSendPkt]
          · exact hNone
      · exact hNone

theorem deliverPass_out
    (latency : Nat)
    (c : Clocks)
    (r : RtRcv A) :
    ∃ sent,
      (r.deliverPass latency c).2 = sent.map Out.deliver ∧
        (r.deliverPass latency c).1.delivered =
          r.delivered ++ sent :=
  deliver_out latency _ _ _

/- What holds at its start and after a delivery stays true. -/
theorem deliverPass_keeps
    {P : RtRcv A → Prop}
    (hSlot : ∀ i q, P q → P (q.deliverSlot latency i))
    {c : Clocks}
    {r : RtRcv A}
    (hStart : P { r with now := c.pass.toTimeval }) :
    P (r.deliverPass latency c).1 := by
  rcases
    deliver_invariant (fun _ q => P q)
      (fun _ _ hAt _ => hAt)
      (fun i q hAt _ => hSlot i q hAt)
      (n := (windowSize latency).toNat)
      (i := r.cAck + 1) hStart with
    ⟨_, hEnd⟩
  exact hEnd

/-
  One pass more changes nothing once the loop may pass every
  number up to `hi`: then the window is empty.
-/
theorem deliver_enough
    {good : Package → Prop}
    {i hi : Int}
    {r : RtRcv A}
    {n : Nat}
    (h :
      RingBuffer.Holds (windowSize latency) i hi
        Package.seq good r.toRingBuffer)
    (hSpan : hi < i + windowSize latency)
    (hFuel : hi < i + n) :
    deliver latency (n + 1) i r = deliver latency n i r := by
  induction n generalizing i r with
  | zero =>
      have hZero := h.zero_of_lt (by omega)
      rw [deliver.eq_2]
      dsimp only
      rw [if_neg]
      · rfl
      · rintro ⟨_, hPos⟩
        omega
  | succ n ih =>
      have hw := windowSize_pos latency
      rw [deliver.eq_2 latency i r (n + 1),
        deliver.eq_2 latency i r n]
      dsimp only
      split
      · split
        · next hFree =>
            exact
              ih (h.raise hFree) (by omega) (by omega)
        · next hSet =>
            have hNext :=
              h.release_raise hw
                (Bool.eq_true_of_not_eq_false hSet)
            split
            · rw [ih hNext (by omega) (by omega)]
            · rfl
      · rfl

end RtRcv

end P2

end Cs2520

------------------------------------------------------------
-- What a Packet Does
------------------------------------------------------------

namespace Cs2520

namespace P2

namespace RtRcv

open Lib

variable {A : Type}
variable (latency : Nat)
variable (c : Clocks)

/- The numbers that outputs acknowledge. -/
def acceptedSeqs
    (out : List (Out A)) : List Int :=
  out.filterMap
    (fun o =>
      match o with
      | .sendto _ pkt =>
          if pkt.type = 2 then some pkt.seq else none
      | .deliver _ => none)

/- The packet as it is stored. -/
def stamped
    (pkt : Package) : Package :=
  { pkt with receiveTS1 := c.receive.toTimeval }

/- The connection, the window, and what was delivered. -/
structure Progress extends RingBuffer Package where
  exited : Bool
  getpermission : Bool
  cAck : Int
  delivered : List StreamPkt

def progress
    (r : RtRcv A) : Progress where
  toRingBuffer := r.toRingBuffer
  exited := r.exited
  getpermission := r.getpermission
  cAck := r.cAck
  delivered := r.delivered

/- The tests that a packet passes before it is stored. -/
def Accepts
    (r : RtRcv A)
    (packet : Option (A × Package)) : Prop :=
  ∃ a pkt,
    packet = some (a, pkt) ∧
      (pkt.type = 0 ∨ pkt.type = 6) ∧
      r.inWindow latency pkt.seq = true ∧
      r.inTime latency pkt c.examine.toTimeval = true

/- The effect of `receivePass` on the window. -/
inductive Received
    (r : RtRcv A) :
    Option (A × Package) → RtRcv A × List (Out A) → Prop
| unchanged {packet q} :
    ¬ Accepts latency c r packet →
    q.progress = r.progress →
    Received r packet (q, [])
| stored {a pkt q echo} :
    pkt.type = 0 ∨ pkt.type = 6 →
    r.inWindow latency pkt.seq = true →
    r.inTime latency pkt c.examine.toTimeval = true →
    q.progress =
      { r.progress with
        toRingBuffer :=
          r.toRingBuffer.store
            (pkt.seq % windowSize latency)
            (stamped c pkt) } →
    echo.type = 2 →
    echo.seq = pkt.seq →
    Received r (some (a, pkt)) (q, [.sendto a echo])

/- Before the sample only the reported values change. -/
theorem measure_eq_sample
    (r : RtRcv A) :
    ∃ startTS nextReportTime highestseq,
      r.measure c =
        ({ r.stampPacket c with
            startTS := startTS
            nextReportTime := nextReportTime
            highestseq := highestseq } : RtRcv A).sample
    := by
  unfold measure startReport raiseHighest
  split
  · split
    · exact ⟨_, _, _, rfl⟩
    · exact ⟨_, _, _, rfl⟩
  · split
    · exact ⟨_, _, _, rfl⟩
    · exact ⟨_, _, _, rfl⟩

/- Measuring touches neither the window nor the packet. -/
theorem measure_progress
    (r : RtRcv A) :
    (r.measure c).progress = r.progress ∧
      (r.measure c).senderPkt = stamped c r.senderPkt ∧
      (r.measure c).senderAddr = r.senderAddr := by
  rcases measure_eq_sample c r with ⟨_, _, _, hSample⟩
  rw [hSample]
  exact ⟨rfl, rfl, rfl⟩

/- Storing the packet and acknowledging it. -/
theorem stored_received
    {r q : RtRcv A}
    {a : A}
    {pkt : Package}
    (hSame : q.progress = r.progress)
    (hPkt : q.senderPkt = stamped c pkt)
    (hAddr : q.senderAddr = a)
    (hType : pkt.type = 0 ∨ pkt.type = 6)
    (hRange : r.inWindow latency pkt.seq = true)
    (hTime :
      r.inTime latency pkt c.examine.toTimeval = true) :
    Received latency c r (some (a, pkt))
      ((q.storePacket latency).sendEcho latency c) := by
  subst hAddr
  refine .stored hType hRange hTime ?_ rfl ?_
  · change
      { q.progress with
        toRingBuffer :=
          q.toRingBuffer.store
            (q.senderPkt.seq % windowSize latency)
            q.senderPkt } = _
    have hRing : q.toRingBuffer = r.toRingBuffer :=
      congrArg Progress.toRingBuffer hSame
    rw [hSame, hRing, hPkt]
    rfl
  · change q.senderPkt.seq = pkt.seq
    rw [hPkt]
    rfl

/- What follows the delivery loop in a pass. -/
inductive Receiving
    (r : RtRcv A) :
    Option (A × Package) → RtRcv A × List (Out A) → Prop
| idle :
    r.rcvdCount = 0 →
    Receiving r none (r, [])
| reported :
    r.rcvdCount ≠ 0 →
    Receiving r none (r.report c, [])
| stored {a pkt} :
    pkt.type = 0 ∨ pkt.type = 6 →
    r.inWindow latency pkt.seq = true →
    r.inTime latency pkt c.examine.toTimeval = true →
    Receiving r (some (a, pkt))
      (((RtRcv.measure c
          { r.recvfrom a pkt with
            now := c.examine.toTimeval }).storePacket
              latency).sendEcho latency c)
| late {a pkt} :
    ¬ r.inTime latency pkt c.examine.toTimeval = true →
    Receiving r (some (a, pkt))
      ({ r.recvfrom a pkt with
          now := c.examine.toTimeval }, [])
| outside {a pkt} :
    ¬ r.inWindow latency pkt.seq = true →
    Receiving r (some (a, pkt)) (r.recvfrom a pkt, [])
| ackacked {a pkt} :
    ¬ (pkt.type = 0 ∨ pkt.type = 6) →
    pkt.type = 1 →
    Receiving r (some (a, pkt))
      ((r.recvfrom a pkt).ackackPacket c, [])
| ignored {a pkt} :
    ¬ (pkt.type = 0 ∨ pkt.type = 6) →
    pkt.type ≠ 1 →
    Receiving r (some (a, pkt)) (r.recvfrom a pkt, [])

theorem receivePass_receiving
    (r : RtRcv A)
    (packet : Option (A × Package)) :
    Receiving latency c r packet
      (r.receivePass latency c packet) := by
  cases packet with
  | none =>
      rw [receivePass]
      split
      · next hNone => exact .idle hNone
      · next hSome => exact .reported hSome
  | some packet =>
      rcases packet with ⟨a, pkt⟩
      rw [receivePass]
      split
      · next hType =>
          rw [dataPacket]
          split
          · next hRange =>
              dsimp only
              split
              · next hTime => exact .stored hType hRange hTime
              · next hLate => exact .late hLate
          · next hOutside => exact .outside hOutside
      · next hOther =>
          split
          · next hType => exact .ackacked hOther hType
          · next hNot => exact .ignored hOther hNot

theorem not_accepts_none
    (r : RtRcv A) :
    ¬ Accepts latency c r none := by
  rintro ⟨_, _, hEv, _⟩
  cases hEv

variable {latency} {c}

theorem Accepts.of_some
    {r : RtRcv A}
    {a : A}
    {pkt : Package}
    (h : Accepts latency c r (some (a, pkt))) :
    (pkt.type = 0 ∨ pkt.type = 6) ∧
      r.inWindow latency pkt.seq = true ∧
      r.inTime latency pkt c.examine.toTimeval = true := by
  rcases h with ⟨_, _, hEv, hAll⟩
  cases hEv
  exact hAll

/- Whatever arrives, a packet is stored or nothing is. -/
theorem Receiving.received
    {r : RtRcv A}
    {packet : Option (A × Package)}
    {res : RtRcv A × List (Out A)}
    (hRes : Receiving latency c r packet res) :
    Received latency c r packet res := by
  cases hRes with
  | idle _ =>
      exact .unchanged (not_accepts_none latency c r) rfl
  | reported _ =>
      exact .unchanged (not_accepts_none latency c r) rfl
  | @stored a pkt hType hRange hTime =>
      rcases
        measure_progress c
          { r.recvfrom a pkt with
            now := c.examine.toTimeval } with
        ⟨hSame, hPkt, hAddr⟩
      exact
        stored_received latency c hSame hPkt hAddr hType
          hRange hTime
  | late hLate =>
      exact .unchanged (fun h => hLate h.of_some.2.2) rfl
  | outside hOutside =>
      exact .unchanged (fun h => hOutside h.of_some.2.1) rfl
  | ackacked hOther _ =>
      exact .unchanged (fun h => hOther h.of_some.1) rfl
  | ignored hOther _ =>
      exact .unchanged (fun h => hOther h.of_some.1) rfl

variable (latency) (c)

theorem receivePass_received
    (r : RtRcv A)
    (packet : Option (A × Package)) :
    Received latency c r packet
      (r.receivePass latency c packet) :=
  (receivePass_receiving latency c r packet).received

/- What a pass of the connection loop does. -/
inductive Connecting
    (r : RtRcv A) :
    Option (A × Package) → RtRcv A × List (Out A) → Prop
| asked :
    Connecting r none (r.sendRequest latency c)
| declined {a pkt} :
    pkt.type = 5 →
    Connecting r (some (a, pkt))
      ({ r.recvfrom a pkt with exited := true }, [])
| permitted {a pkt} :
    pkt.type = 4 →
    Connecting r (some (a, pkt))
      ((r.recvfrom a pkt).permit c, [])
| ignored {a pkt} :
    pkt.type ≠ 5 →
    pkt.type ≠ 4 →
    Connecting r (some (a, pkt)) (r.recvfrom a pkt, [])

theorem connectPass_connecting
    (r : RtRcv A)
    (packet : Option (A × Package)) :
    Connecting latency c r packet
      (r.connectPass latency c packet) := by
  cases packet with
  | none => exact .asked
  | some packet =>
      rcases packet with ⟨a, pkt⟩
      rw [connectPass]
      split
      · next hType => exact .declined hType
      · next hNo =>
          split
          · next hType => exact .permitted hType
          · next hOther => exact .ignored hNo hOther

end RtRcv

end P2

end Cs2520

------------------------------------------------------------
-- The Invariant
------------------------------------------------------------

namespace Cs2520

namespace P2

namespace RtRcv

open Lib

variable {A : Type}
variable {latency : Nat}
variable {good : Package → Prop}
variable {r : RtRcv A}

/-
  The records delivered so far. `good` says where their
  packets come from.
-/
structure Log
    (good : Package → Prop)
    (t : Progress) : Prop where
  running : t.getpermission = true → t.exited = false
  nonneg : 0 ≤ t.cAck
  last : t.cAck = 0 ∨ ∃ p, good p ∧ p.seq = t.cAck
  upTo : ∀ d ∈ t.delivered, d.seq ≤ t.cAck
  ordered :
    t.delivered.Pairwise (fun d d' => d.seq < d'.seq)
  genuine :
    ∀ d ∈ t.delivered,
      ∃ p, good p ∧ p.seq = d.seq ∧ p.data = d.data

/- The window after `C_ack`, and the records before. -/
structure Inv
    (latency : Nat)
    (good : Package → Prop)
    (t : Progress) : Prop extends Log good t where
  ring :
    RingBuffer.Holds (windowSize latency) (t.cAck + 1)
      (t.cAck + windowSize latency) Package.seq good
      t.toRingBuffer

/- The delivery loop is at `i`, and started below `hi`. -/
structure Delivering
    (latency : Nat)
    (good : Package → Prop)
    (hi i : Int)
    (t : Progress) : Prop extends Log good t where
  ring :
    RingBuffer.Holds (windowSize latency) i hi Package.seq
      good t.toRingBuffer
  span : hi < i + windowSize latency
  before : t.cAck < i
  reach : hi ≤ t.cAck + windowSize latency

theorem Log.mono
    {good' : Package → Prop}
    {t : Progress}
    (h : Log good t)
    (hGood : ∀ p, good p → good' p) :
    Log good' t where
  running := h.running
  nonneg := h.nonneg
  last := by
    rcases h.last with hZero | ⟨p, hp, hSeq⟩
    · exact Or.inl hZero
    · exact Or.inr ⟨p, hGood p hp, hSeq⟩
  upTo := h.upTo
  ordered := h.ordered
  genuine := by
    intro d hMem
    rcases h.genuine d hMem with ⟨p, hp, hSame⟩
    exact ⟨p, hGood p hp, hSame⟩

theorem Inv.mono
    {good' : Package → Prop}
    {t : Progress}
    (h : Inv latency good t)
    (hGood : ∀ p, good p → good' p) :
    Inv latency good' t where
  toLog := h.toLog.mono hGood
  ring := h.ring.mono (le_refl _) (le_refl _) hGood

/- Connecting changes the flags and nothing else. -/
theorem Inv.connect
    {t : Progress}
    (h : Inv latency good t)
    {exited getpermission : Bool}
    (hRunning : getpermission = true → exited = false) :
    Inv latency good
      { t with
        exited := exited
        getpermission := getpermission } where
  running := hRunning
  nonneg := h.nonneg
  last := h.last
  upTo := h.upTo
  ordered := h.ordered
  genuine := h.genuine
  ring := h.ring

theorem inv_initial
    (latency : Nat)
    (good : Package → Prop)
    (server : A)
    (u : Uninitialized) :
    Inv latency good (initial server u).progress where
  running := fun hPermit => by cases hPermit
  nonneg := le_refl _
  last := Or.inl rfl
  upTo := fun d hMem => by cases hMem
  ordered := List.Pairwise.nil
  genuine := fun d hMem => by cases hMem
  ring := RingBuffer.Holds.empty u.window

/- The record in a used slot belongs at the end of the log. -/
theorem Log.deliverSlot
    (h : Log good r.progress)
    {i : Int}
    (hBefore : r.cAck < i)
    (hSeq :
      (r.window (i % windowSize latency)).seq = i)
    (hGood : good (r.window (i % windowSize latency))) :
    Log good (r.deliverSlot latency i).progress where
  running := h.running
  nonneg := h.nonneg.trans hBefore.le
  last := Or.inr ⟨_, hGood, hSeq⟩
  upTo := by
    intro d hMem
    rcases List.mem_append.mp hMem with hOld | hNew
    · exact (h.upTo d hOld).trans hBefore.le
    · rw [List.mem_singleton.mp hNew]
      exact hSeq.le
  ordered := by
    apply List.pairwise_append.mpr
    refine ⟨h.ordered, List.pairwise_singleton _ _, ?_⟩
    intro d hOld d' hNew
    rw [List.mem_singleton.mp hNew]
    calc
      d.seq ≤ r.cAck := h.upTo d hOld
      _ < i := hBefore
      _ = (r.window (i % windowSize latency)).seq :=
        hSeq.symm
  genuine := by
    intro d hMem
    rcases List.mem_append.mp hMem with hOld | hNew
    · exact h.genuine d hOld
    · rw [List.mem_singleton.mp hNew]
      exact ⟨_, hGood, rfl, rfl⟩

theorem Delivering.skip
    {hi i : Int}
    {t : Progress}
    (h : Delivering latency good hi i t)
    (hFree : t.buffer (i % windowSize latency) = false) :
    Delivering latency good hi (i + 1) t where
  toLog := h.toLog
  ring := h.ring.raise hFree
  span := by
    have hSpan := h.span
    omega
  before := h.before.trans (Int.lt_succ i)
  reach := h.reach

theorem Delivering.slot
    {hi i : Int}
    (h : Delivering latency good hi i r.progress)
    (hSet : r.buffer (i % windowSize latency) = true) :
    Delivering latency good hi (i + 1)
      (r.deliverSlot latency i).progress where
  toLog := by
    have hw := windowSize_pos latency
    have hSlot := RingBuffer.Holds.slot_range hw i
    rcases h.ring.slot _ hSlot.1 hSlot.2 hSet with
      ⟨_, _, _, hGood⟩
    apply h.toLog.deliverSlot h.before ?_ hGood
    exact h.ring.key_eq hw h.span (by omega) hSet
  ring := h.ring.release_raise (windowSize_pos latency) hSet
  span := by
    have hSpan := h.span
    omega
  before := Int.lt_succ i
  reach := h.span.le

/- The loop starts behind `C_ack`, with the whole window ahead. -/
theorem Inv.delivering
    (h : Inv latency good r.progress) :
    Delivering latency good
      (r.cAck + windowSize latency) (r.cAck + 1)
      r.progress where
  toLog := h.toLog
  ring := h.ring
  span := by omega
  before := Int.lt_succ r.cAck
  reach := le_refl _

/- Wherever the loop is, the window after `C_ack` is right. -/
theorem Delivering.inv
    {hi i : Int}
    {t : Progress}
    (h : Delivering latency good hi i t) :
    Inv latency good t where
  toLog := h.toLog
  ring :=
    h.ring.mono (Int.add_one_le_of_lt h.before) h.reach
      (fun _ hp => hp)

/- Any number of passes of the loop keeps the invariant. -/
theorem Inv.deliverLoop
    (h : Inv latency good r.progress)
    (now : Timeval)
    (n : Nat) :
    Inv latency good
      (deliver latency n (r.cAck + 1)
        { r with now := now }).1.progress := by
  rcases
    deliver_invariant
      (fun i q =>
        Delivering latency good
          (r.cAck + windowSize latency) i q.progress)
      (fun _ _ hAt hFree => hAt.skip hFree)
      (fun _ _ hAt hSet => hAt.slot hSet)
      (n := n)
      (r := { r with now := now })
      h.delivering with
    ⟨j, hEnd⟩
  exact hEnd.inv

/- The delivery loop keeps the invariant. -/
theorem Inv.deliverPass
    (h : Inv latency good r.progress)
    (c : Clocks) :
    Inv latency good (r.deliverPass latency c).1.progress :=
  h.deliverLoop c.pass.toTimeval _

/- More passes than `deliverPass` allows change nothing. -/
theorem Inv.deliver_more
    (h : Inv latency good r.progress)
    (n : Nat) :
    deliver latency ((windowSize latency).toNat + n)
        (r.cAck + 1) r =
      deliver latency (windowSize latency).toNat
        (r.cAck + 1) r := by
  have hRing :
      RingBuffer.Holds (windowSize latency) (r.cAck + 1)
        (r.cAck + windowSize latency) Package.seq good
        r.toRingBuffer := h.ring
  induction n with
  | zero => rfl
  | succ n ih =>
      rw [← ih, ← Nat.add_assoc]
      exact deliver_enough hRing (by omega) (by omega)

/- A stored packet needs to be good, nothing else. -/
theorem Inv.received
    (h : Inv latency good r.progress)
    {c : Clocks}
    {packet : Option (A × Package)}
    {res : RtRcv A × List (Out A)}
    (hRes : Received latency c r packet res)
    (hGood :
      ∀ a pkt, packet = some (a, pkt) →
        pkt.type = 0 ∨ pkt.type = 6 →
          pkt.seq ∈ acceptedSeqs res.2 →
            good (stamped c pkt)) :
    Inv latency good res.1.progress := by
  cases hRes with
  | unchanged _ hSame =>
      rw [hSame]
      exact h
  | @stored a pkt q echo hType hRange hTime hStored
      hEcho hSeq =>
      rw [hStored]
      refine { toLog := ?_, ring := ?_ }
      · exact
          { running := h.running
            nonneg := h.nonneg
            last := h.last
            upTo := h.upTo
            ordered := h.ordered
            genuine := h.genuine }
      · simp only [inWindow, Bool.and_eq_true,
          decide_eq_true_eq, beq_iff_eq] at hRange
        rcases hRange with ⟨⟨hLo, hHi⟩, hFree⟩
        have hNew : good (stamped c pkt) := by
          apply hGood a pkt rfl hType
          simp [acceptedSeqs, hEcho, hSeq]
        apply
          h.ring.store (windowSize_pos latency)
            (x := stamped c pkt) hFree hLo ?_ hNew
        change pkt.seq ≤ r.cAck + windowSize latency
        omega

end RtRcv

end P2

end Cs2520

------------------------------------------------------------
-- Whole Passes
------------------------------------------------------------

namespace Cs2520

namespace P2

namespace RtRcv

open Lib

variable {A : Type}
variable {latency : Nat}
variable {good : Package → Prop}
variable {r : RtRcv A}

/- The record in an output to the local application. -/
def Out.record? :
    Out A → Option StreamPkt
  | .sendto _ _ => none
  | .deliver d => some d

theorem acceptedSeqs_append
    (out out' : List (Out A)) :
    acceptedSeqs (out ++ out') =
      acceptedSeqs out ++ acceptedSeqs out' :=
  List.filterMap_append

theorem step_exited
    (hExited : r.exited = true)
    (e : Ev A) :
    step latency r e = (r, []) :=
  if_pos hExited

theorem step_connect
    (hRunning : r.exited = false)
    (hNew : r.getpermission = false)
    (e : Ev A) :
    step latency r e =
      r.connectPass latency e.clocks e.packet := by
  rw [step, hRunning, hNew]
  rfl

theorem step_main
    (hRunning : r.exited = false)
    (hConnected : r.getpermission = true)
    (e : Ev A) :
    step latency r e = r.mainPass latency e.clocks e.packet
    := by
  rw [step, hRunning, hConnected]
  rfl

/- A pass of the main loop receives after it delivered. -/
theorem step_main_fst
    (hRunning : r.exited = false)
    (hConnected : r.getpermission = true)
    (e : Ev A) :
    (step latency r e).1 =
      ((r.deliverPass latency e.clocks).1.receivePass latency
        e.clocks e.packet).1 := by
  rw [step_main hRunning hConnected]
  rfl

/- One pass of either loop. -/
inductive Stepping
    (latency : Nat)
    (r : RtRcv A)
    (e : Ev A) : RtRcv A × List (Out A) → Prop
| exited :
    r.exited = true →
    Stepping latency r e (r, [])
| connecting {res} :
    r.exited = false →
    r.getpermission = false →
    Connecting latency e.clocks r e.packet res →
    Stepping latency r e res
| receiving {res} :
    r.exited = false →
    r.getpermission = true →
    Receiving latency e.clocks
      (r.deliverPass latency e.clocks).1 e.packet res →
    Stepping latency r e
      (res.1, (r.deliverPass latency e.clocks).2 ++ res.2)

theorem step_stepping
    (latency : Nat)
    (r : RtRcv A)
    (e : Ev A) :
    Stepping latency r e (step latency r e) := by
  cases hExited : r.exited with
  | true =>
      rw [step_exited hExited]
      exact .exited hExited
  | false =>
      cases hConnected : r.getpermission with
      | false =>
          rw [step_connect hExited hConnected]
          exact
            .connecting hExited hConnected
              (connectPass_connecting latency _ _ _)
      | true =>
          rw [step_main hExited hConnected]
          exact
            .receiving hExited hConnected
              (receivePass_receiving latency _ _ _)

/- The delivery loop acknowledges nothing. -/
theorem acceptedSeqs_deliverPass
    (latency : Nat)
    (c : Clocks)
    (r : RtRcv A) :
    acceptedSeqs (r.deliverPass latency c).2 = [] := by
  rcases deliverPass_out latency c r with ⟨sent, hOut, _⟩
  rw [hOut, acceptedSeqs, List.filterMap_map]
  exact List.filterMap_eq_nil_iff.mpr (fun _ _ => rfl)

theorem acceptedSeqs_step_main
    (hRunning : r.exited = false)
    (hConnected : r.getpermission = true)
    (e : Ev A) :
    acceptedSeqs (step latency r e).2 =
      acceptedSeqs
        ((r.deliverPass latency e.clocks).1.receivePass
          latency e.clocks e.packet).2 := by
  calc
    acceptedSeqs (step latency r e).2 =
        acceptedSeqs
          ((r.deliverPass latency e.clocks).2 ++
            ((r.deliverPass latency e.clocks).1.receivePass
              latency e.clocks e.packet).2) := by
      rw [step_main hRunning hConnected]
      rfl
    _ = _ := by
      rw [acceptedSeqs_append, acceptedSeqs_deliverPass,
        List.nil_append]

/- Connecting leaves the window and the log alone. -/
theorem Inv.connecting
    (h : Inv latency good r.progress)
    (hRunning : r.exited = false)
    (hNew : r.getpermission = false)
    {c : Clocks}
    {packet : Option (A × Package)}
    {res : RtRcv A × List (Out A)}
    (hRes : Connecting latency c r packet res) :
    Inv latency good res.1.progress := by
  cases hRes with
  | asked => exact h
  | declined _ =>
      -- the program ends without a permission
      apply h.connect
      intro hPermit
      cases hNew.symm.trans hPermit
  | permitted _ => exact h.connect (fun _ => hRunning)
  | ignored _ _ => exact h

/- A pass keeps the invariant if what it stores is good. -/
theorem Inv.step
    (h : Inv latency good r.progress)
    {e : Ev A}
    (hGood :
      ∀ a pkt, e.packet = some (a, pkt) →
        pkt.type = 0 ∨ pkt.type = 6 →
          pkt.seq ∈ acceptedSeqs (step latency r e).2 →
            good (stamped e.clocks pkt)) :
    Inv latency good (step latency r e).1.progress := by
  have hStep := step_stepping latency r e
  generalize RtRcv.step latency r e = res at hStep hGood ⊢
  cases hStep with
  | exited _ => exact h
  | connecting hRunning hNew hRes =>
      exact h.connecting hRunning hNew hRes
  | receiving _ _ hRes =>
      dsimp only at hGood ⊢
      rw [acceptedSeqs_append, acceptedSeqs_deliverPass,
        List.nil_append] at hGood
      exact
        (h.deliverPass e.clocks).received hRes.received hGood

/- A packet that arrives is not delivered at once. -/
theorem Received.delivered
    {c : Clocks}
    {packet : Option (A × Package)}
    {res : RtRcv A × List (Out A)}
    (hRes : Received latency c r packet res) :
    res.1.delivered = r.delivered ∧
      res.2.filterMap Out.record? = [] := by
  cases hRes with
  | unchanged _ hSame =>
      exact ⟨congrArg Progress.delivered hSame, rfl⟩
  | stored _ _ _ hStored _ _ =>
      exact ⟨congrArg Progress.delivered hStored, rfl⟩

/- No packet ends the connection. -/
theorem Received.getpermission
    {c : Clocks}
    {packet : Option (A × Package)}
    {res : RtRcv A × List (Out A)}
    (hRes : Received latency c r packet res) :
    res.1.getpermission = r.getpermission := by
  cases hRes with
  | unchanged _ hSame =>
      exact congrArg Progress.getpermission hSame
  | stored _ _ _ hStored _ _ =>
      exact congrArg Progress.getpermission hStored

/- Nothing is delivered before the connection. -/
theorem Connecting.delivered
    {c : Clocks}
    {packet : Option (A × Package)}
    {res : RtRcv A × List (Out A)}
    (hRes : Connecting latency c r packet res) :
    res.1.delivered = r.delivered ∧
      res.2.filterMap Out.record? = [] := by
  cases hRes with
  | asked => exact ⟨rfl, rfl⟩
  | declined _ => exact ⟨rfl, rfl⟩
  | permitted _ => exact ⟨rfl, rfl⟩
  | ignored _ _ => exact ⟨rfl, rfl⟩

/- `delivered` lists what a pass sends to the application. -/
theorem step_delivered
    (r : RtRcv A)
    (e : Ev A) :
    (step latency r e).1.delivered =
      r.delivered ++
        (step latency r e).2.filterMap Out.record? := by
  have hStep := step_stepping latency r e
  generalize step latency r e = res at hStep ⊢
  cases hStep with
  | exited _ => exact (List.append_nil _).symm
  | connecting _ _ hRes =>
      rcases hRes.delivered with ⟨hSame, hNone⟩
      rw [hSame, hNone, List.append_nil]
  | receiving _ _ hRes =>
      dsimp only
      rcases hRes.received.delivered with ⟨hSame, hNone⟩
      rcases deliverPass_out latency e.clocks r with
        ⟨sent, hOut, hDelivered⟩
      rw [hSame, List.filterMap_append, hNone,
        List.append_nil, hOut, hDelivered,
        List.filterMap_map]
      exact congrArg _ List.filterMap_some.symm

/- `delivered` lists what the program has delivered. -/
theorem delivered_eq_outputs
    (server : A)
    (u : Uninitialized)
    (es : List (Ev A)) :
    ((machine latency).run (initial server u) es).delivered =
      ((machine latency).outputs (initial server u)
        es).filterMap Out.record? := by
  apply
    Machine.outputs_invariant (machine latency)
      (fun r out => r.delivered = out.filterMap Out.record?)
  · intro r out e hSame
    rw [List.filterMap_append, ← hSame]
    exact step_delivered r e
  · rfl

end RtRcv

end P2

end Cs2520
