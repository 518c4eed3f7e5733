import Cs2520.Lib.CanReach
import Cs2520.P4.RealtimeUdp

/-
  Runs of a real-time link: the two halves, and the network
  between them, which may lose, repeat and reorder.

  Main declarations:
    * `RtLink.Reachable`
    * `RtLink.Right.act`
    * `RtLink.delivered_right`
    * `RtLink.requests_right`
    * `RtLink.canRecover_iff`
-/

------------------------------------------------------------
-- The Link
------------------------------------------------------------

namespace Cs2520

namespace P4

open Lib

variable {α : Type}

def RtSender.endpoint :
    Endpoint (RtSender α) (RtSender.Ev α) (RtPkt α)
      (List Nat) (RtPkt α) where
  step := RtSender.step
  consumes
    | .nack seqNos => some seqNos
    | _ => none
  emits := id

def RtReceiver.endpoint :
    Endpoint (RtReceiver α) (RtReceiver.Ev α) (List Nat)
      (RtPkt α) (List Nat) where
  step := RtReceiver.step
  consumes
    | .data _ pkt => some pkt
    | .nack => none
  emits := id

/- Both ends and all packets ever sent between them. -/
abbrev RtLink (α : Type) :=
  Link (RtSender α) (RtReceiver α) (List Nat) (RtPkt α)

def RtLink.initial : RtLink α where
  left := .initial
  right := .initial
  toLeft := []
  toRight := []

/- The states that runs reach. -/
abbrev RtLink.Reachable
    (guard :
      RtLink α → RtSender.Ev α ⊕ RtReceiver.Ev α → Prop) :
    RtLink α → Prop :=
  Link.Reachable RtSender.endpoint RtReceiver.endpoint
    (fun s => s = initial) guard

end P4

end Cs2520

------------------------------------------------------------
-- What Is Requested
------------------------------------------------------------

namespace Cs2520

namespace P4

open Lib

variable {α : Type}

namespace RtReceiver

variable {r r' : RtReceiver α}
variable {asked : List Nat}
variable {pkt : RtPkt α}

/-
  The numbers that were requested and those that wait: each
  of them once, and all below the head.
-/
structure Requests
    (asked : List Nat)
    (r : RtReceiver α) : Prop where
  sorted : (asked ++ r.nackBuff).Pairwise (· < ·)
  below : ∀ i ∈ asked ++ r.nackBuff, i < r.recvHead
  scheduled : r.Scheduled

/- No packet is missing without a request. -/
def Noticed
    (asked : List Nat)
    (r : RtReceiver α) : Prop :=
  ∀ i, i < r.recvHead →
    r.Delivered i ∨ i ∈ asked ++ r.nackBuff

theorem Requests.hands
    (h : Requests asked r)
    (hHands : Hands r r' pkt) :
    Requests asked r' := by
  rcases hHands.asks with ⟨m, hNacks, hM, _⟩
  have hHead := hHands.head
  refine
    { sorted := ?_
      below := ?_
      scheduled := hHands.scheduled h.scheduled }
  · rw [hNacks, ← List.append_assoc]
    refine
      List.pairwise_append.mpr
        ⟨h.sorted, List.pairwise_lt_range', ?_⟩
    intro i hOld j hNew
    have hLow := h.below i hOld
    have hHigh := (List.mem_range'_1.mp hNew).1
    omega
  · rw [hNacks, ← List.append_assoc]
    intro i hMem
    rcases List.mem_append.mp hMem with hOld | hNew
    · have hLow := h.below i hOld
      omega
    · have hHigh := (List.mem_range'_1.mp hNew).2
      omega

theorem Noticed.hands
    (h : Noticed asked r)
    (hHands : Hands r r' pkt)
    (hFits : r.Fits pkt.seqNo) :
    Noticed asked r' := by
  rcases hHands.asks with ⟨m, hNacks, _, hAll⟩
  have hM := hAll hFits
  intro i hTop
  rw [hHands.head] at hTop
  rw [Delivered, hHands.delivered, hNacks, List.map_append,
    ← List.append_assoc]
  by_cases hOld : i < r.recvHead
  · rcases h i hOld with hGot | hAsked
    · exact Or.inl (List.mem_append_left _ hGot)
    · exact Or.inr (List.mem_append_left _ hAsked)
  · by_cases hThis : i = pkt.seqNo
    · refine Or.inl (List.mem_append_right _ ?_)
      exact List.mem_singleton.mpr hThis
    · refine Or.inr (List.mem_append_right _ ?_)
      refine List.mem_range'_1.mpr ⟨by omega, ?_⟩
      omega

/- The requests leave, and nothing waits. -/
theorem Requests.nack
    (h : Requests asked r) :
    Requests (asked ++ r.nackBuff)
      { r with nackBuff := [], nackQueued := false } where
  sorted := by
    rw [List.append_nil]
    exact h.sorted
  below := by
    rw [List.append_nil]
    exact h.below
  scheduled := fun hSome => absurd rfl hSome

theorem Noticed.nack
    (h : Noticed asked r) :
    Noticed (asked ++ r.nackBuff)
      { r with nackBuff := [], nackQueued := false } := by
  rw [Noticed, List.append_nil]
  exact h

theorem requests_initial :
    Requests [] (initial : RtReceiver α) where
  sorted := List.Pairwise.nil
  below := fun i hMem => by cases hMem
  scheduled := fun hSome => absurd rfl hSome

end RtReceiver

end P4

end Cs2520

------------------------------------------------------------
-- Whole Runs
------------------------------------------------------------

namespace Cs2520

namespace P4

open Lib

variable {α : Type}

/- A packet that was forwarded stays so. -/
theorem RtSender.Forwarded.grow
    {s s' : RtSender α}
    {pkt : RtPkt α}
    (h : s.Forwarded pkt)
    (hGrows : s.forwarded <+: s'.forwarded) :
    s'.Forwarded pkt := by
  rcases hGrows with ⟨more, hMore⟩
  have hLt := (List.getElem?_eq_some_iff.mp h).1
  rw [Forwarded, ← hMore, List.getElem?_append_left hLt]
  exact h

namespace RtLink

variable {guard :
  RtLink α → RtSender.Ev α ⊕ RtReceiver.Ev α → Prop}

/- What every run keeps, whatever the network does. -/
structure Right
    (s : RtLink α) : Prop where
  left : s.left.Right
  right : s.right.Right
  sent : ∀ pkt ∈ s.toRight, s.left.Forwarded pkt
  got : ∀ pkt ∈ s.right.delivered, s.left.Forwarded pkt
  below : s.right.recvHead ≤ s.left.head
  share :
    2 * s.toRight.length + s.left.bucket ≤
      3 * s.left.forwarded.length
  requests : s.right.Requests s.toLeft.flatten

theorem right_initial :
    (initial : RtLink α).Right where
  left := RtSender.right_initial
  right := RtReceiver.right_initial
  sent := fun pkt hMem => by cases hMem
  got := fun pkt hMem => by cases hMem
  below := Nat.le_refl 0
  share := Nat.le_refl 0
  requests := RtReceiver.requests_initial

variable {s : RtLink α}

theorem Right.sends
    (h : s.Right)
    (e : RtSender.Ev α) :
    Right
      (s.act RtSender.endpoint RtReceiver.endpoint
        (.inl e)) := by
  have hSends := h.left.step e
  have hShare := hSends.share
  have hLast := h.share
  have hHead := hSends.right.head
  have hBefore := h.left.head
  have hBelow := h.below
  have hGrows := hSends.grows.length_le
  refine
    { left := hSends.right
      right := h.right
      sent := ?_
      got := ?_
      below := ?_
      share := ?_
      requests := h.requests }
  · intro pkt hMem
    rcases List.mem_append.mp hMem with hOld | hNew
    · exact (h.sent pkt hOld).grow hSends.grows
    · exact hSends.genuine pkt hNew
  · intro pkt hMem
    exact (h.got pkt hMem).grow hSends.grows
  · change s.right.recvHead ≤ (s.left.step e).1.head
    omega
  · change
      2 * (s.toRight ++ (s.left.step e).2).length +
          (s.left.step e).1.bucket ≤
        3 * (s.left.step e).1.forwarded.length
    rw [List.length_append]
    omega

/- A data packet at the receiving half. -/
theorem Right.data
    (h : s.Right)
    (now : Timeval)
    (pkt : RtPkt α)
    (hSent : pkt ∈ s.toRight) :
    Right
      { s with right := s.right.processData now pkt } := by
  rcases h.right.processData now pkt with hSame | hHands
  · rw [hSame]
    exact h
  have hGenuine := h.sent pkt hSent
  have hLt := (List.getElem?_eq_some_iff.mp hGenuine).1
  have hBelow := h.below
  have hLeft := h.left.head
  have hHead := hHands.head
  refine
    { left := h.left
      right := hHands.right
      sent := h.sent
      got := ?_
      below := ?_
      share := h.share
      requests := h.requests.hands hHands }
  · intro other hMem
    dsimp only at hMem
    rw [hHands.delivered] at hMem
    rcases List.mem_append.mp hMem with hOld | hNew
    · exact h.got other hOld
    · rw [List.mem_singleton.mp hNew]
      exact hGenuine
  · dsimp only
    omega

/- The state after the waiting requests were sent. -/
def asking
    (s : RtLink α) : RtLink α :=
  { s with
    right :=
      { s.right with nackBuff := [], nackQueued := false }
    toLeft := s.toLeft ++ [s.right.nackBuff] }

theorem act_nack
    (s : RtLink α) :
    s.act RtSender.endpoint RtReceiver.endpoint
        (.inr .nack) =
      if s.right.nackQueued then s.asking else s := by
  rw [Link.act, RtReceiver.endpoint]
  dsimp only
  rw [RtReceiver.step]
  split
  · rfl
  · rw [id, List.append_nil]

theorem Right.asking
    (h : s.Right) :
    s.asking.Right where
  left := h.left
  right :=
    ⟨h.right.tail, h.right.room, h.right.tells,
      h.right.below, h.right.nodup⟩
  sent := h.sent
  got := h.got
  below := h.below
  share := h.share
  requests := by
    rw [RtLink.asking, List.flatten_append,
      List.flatten_singleton]
    exact h.requests.nack

/- One event on the link. -/
theorem Right.act
    (h : s.Right)
    (a : RtSender.Ev α ⊕ RtReceiver.Ev α)
    (hEnabled :
      Link.Enabled RtSender.endpoint RtReceiver.endpoint
        s a) :
    Right
      (s.act RtSender.endpoint RtReceiver.endpoint a) := by
  cases a with
  | inl e => exact h.sends e
  | inr e =>
      cases e with
      | data now pkt =>
          have hData := h.data now pkt (hEnabled pkt rfl)
          rw [← List.append_nil s.toLeft] at hData
          exact hData
      | nack =>
          rw [act_nack]
          split
          · exact h.asking
          · exact h

theorem Reachable.right
    (hReach : s.Reachable guard) :
    s.Right := by
  refine
    Link.Reachable.invariant Right hReach ?_
      (fun _ a hRight hEnabled _ => hRight.act a hEnabled)
  intro t hStart
  rw [hStart]
  exact right_initial

/- The requests of the event have room. -/
def fits
    (s : RtLink α) :
    RtSender.Ev α ⊕ RtReceiver.Ev α → Prop
  | .inr (.data _ pkt) => s.right.Fits pkt.seqNo
  | _ => True

instance
    (s : RtLink α)
    (a : RtSender.Ev α ⊕ RtReceiver.Ev α) :
    Decidable (fits s a) := by
  unfold fits RtReceiver.Fits
  split <;> infer_instance

/- Of three packets the second is lost and requested. -/
def lostPacket :
    RtLink Nat :=
  Link.runActs RtSender.endpoint RtReceiver.endpoint initial
    [.inl (.forward .zero 10 true),
      .inl (.forward .zero 20 true),
      .inl (.forward .zero 30 true),
      .inr (.data .zero ⟨0, 10⟩),
      .inr (.data .zero ⟨2, 30⟩),
      .inr .nack]

theorem reachable_lostPacket :
    Reachable fits lostPacket := by
  have hStart : Reachable (α := Nat) fits initial :=
    .start rfl
  exact Link.reachable_runActs hStart (by decide)

/-
  Whatever the network loses, repeats or reorders, a packet
  is handed on at most once, with the data forwarded under
  its number. All packets on the link are at most one and a
  half times those that were forwarded.
-/
theorem delivered_right
    (s : RtLink α)
    (hReach : s.Reachable guard) :
    (s.right.delivered.map RtPkt.seqNo).Nodup ∧
      (∀ pkt ∈ s.right.delivered, s.left.Forwarded pkt) ∧
      2 * s.toRight.length ≤ 3 * s.left.forwarded.length := by
  have hRight := hReach.right
  have hShare := hRight.share
  exact ⟨hRight.right.nodup, hRight.got, by omega⟩

theorem delivered_right_lostPacket :
    (lostPacket.right.delivered.map RtPkt.seqNo).Nodup ∧
      (∀ pkt ∈ lostPacket.right.delivered,
        lostPacket.left.Forwarded pkt) ∧
      2 * lostPacket.toRight.length ≤
        3 * lostPacket.left.forwarded.length :=
  delivered_right lostPacket reachable_lostPacket

theorem noticed_act
    (h : s.Right)
    (hNoticed : s.right.Noticed s.toLeft.flatten)
    (a : RtSender.Ev α ⊕ RtReceiver.Ev α)
    (hFits : fits s a) :
    let s' := s.act RtSender.endpoint RtReceiver.endpoint a
    s'.right.Noticed s'.toLeft.flatten := by
  intro s'
  cases a with
  | inl e => exact hNoticed
  | inr e =>
      cases e with
      | data now pkt =>
          have hSame :
              s'.toLeft.flatten = s.toLeft.flatten := by
            change (s.toLeft ++ []).flatten = _
            rw [List.append_nil]
          rw [hSame]
          change (s.right.processData now pkt).Noticed _
          rcases h.right.processData now pkt with
            hOld | hHands
          · rw [hOld]
            exact hNoticed
          · exact hNoticed.hands hHands hFits
      | nack =>
          have hNext := act_nack s
          rw [show s' = _ from hNext]
          split
          · rw [asking, List.flatten_append,
              List.flatten_singleton]
            exact hNoticed.nack
          · exact hNoticed

/-
  The receiver requests each number at most once, in order,
  and only numbers that were forwarded. As long as the
  requests have room, each number below its head is handed
  on, was requested, or is about to be.
-/
theorem requests_right
    (s : RtLink α)
    (hReach : s.Reachable guard) :
    s.toLeft.flatten.Pairwise (· < ·) ∧
      (∀ i ∈ s.toLeft.flatten,
        i < s.left.forwarded.length) ∧
      ((∀ t a, guard t a → fits t a) →
        ∀ i, i < s.right.recvHead →
          s.right.Delivered i ∨
            i ∈ s.toLeft.flatten ∨
            (i ∈ s.right.nackBuff ∧
              s.right.nackQueued = true)) := by
  have hRight := hReach.right
  have hRequests := hRight.requests
  refine ⟨?_, ?_, ?_⟩
  · exact (List.pairwise_append.mp hRequests.sorted).1
  · intro i hMem
    have hLow :=
      hRequests.below i (List.mem_append_left _ hMem)
    have hBelow := hRight.below
    have hHead := hRight.left.head
    omega
  · intro hGuard i hTop
    have hNoticed :
        s.Right ∧ s.right.Noticed s.toLeft.flatten := by
      refine
        Link.Reachable.invariant
          (fun t : RtLink α =>
            t.Right ∧ t.right.Noticed t.toLeft.flatten)
          hReach ?_ ?_
      · intro t hStart
        rw [hStart]
        exact
          ⟨right_initial,
            fun i hLt => absurd hLt (Nat.not_lt_zero i)⟩
      · rintro t a ⟨hBefore, hAll⟩ hEnabled hMeets
        exact
          ⟨hBefore.act a hEnabled,
            noticed_act hBefore hAll a (hGuard t a hMeets)⟩
    rcases hNoticed.2 i hTop with hGot | hAsked
    · exact Or.inl hGot
    · rcases List.mem_append.mp hAsked with hSent | hWaits
      · exact Or.inr (Or.inl hSent)
      · have hQueued :=
          hRequests.scheduled (List.ne_nil_of_mem hWaits)
        exact Or.inr (Or.inr ⟨hWaits, hQueued⟩)

theorem requests_right_lostPacket :
    lostPacket.right.Delivered 1 ∨
      1 ∈ lostPacket.toLeft.flatten ∨
      (1 ∈ lostPacket.right.nackBuff ∧
        lostPacket.right.nackQueued = true) :=
  (requests_right lostPacket reachable_lostPacket).2.2
    (fun _ _ hFits => hFits) 1 (by decide)

/- The link can still hand on a packet with the number. -/
abbrev CanRecover
    (s : RtLink α)
    (i : Nat) : Prop :=
  Link.CanReach RtSender.endpoint RtReceiver.endpoint
    (fun _ _ => True) (fun t => t.right.Delivered i) s

/- A request on the link brings the packet back. -/
theorem Right.canRecover
    {i : Nat}
    {now : Timeval}
    {before after : List Nat}
    (h : s.Right)
    (hAsked : before ++ i :: after ∈ s.toLeft)
    (hKept : (s.left.cleanRtHistory now).tail ≤ i)
    (hPaid : 2 * (before.length + 1) ≤ s.left.bucket)
    (hOpen : s.right.recvTail ≤ i) :
    s.CanRecover i := by
  have hLow : i < s.right.recvHead := by
    refine
      h.requests.below i (List.mem_append_left _ ?_)
    refine List.mem_flatten.mpr ⟨_, hAsked, ?_⟩
    exact List.mem_append_right _ List.mem_cons_self
  have hLt : i < s.left.forwarded.length := by
    have hBelow := h.below
    have hHead := h.left.head
    omega
  have hData := List.getElem?_eq_getElem hLt
  generalize s.left.forwarded[i] = data at hData
  -- the request arrives, the packet leaves and arrives
  let requested :=
    s.act RtSender.endpoint RtReceiver.endpoint
      (.inl (.nack (before ++ i :: after)))
  let sent :=
    requested.act RtSender.endpoint RtReceiver.endpoint
      (.inl (.retransm now (before.length + 1)))
  have hRequested : Right requested := h.sends _
  have hRight : Right sent := hRequested.sends _
  have hHeld :
      (requested.left.cleanRtHistory now).tail ≤ i := by
    change ((s.left.processNack _).cleanRtHistory now).tail ≤ i
    rw [RtSender.clean_processNack]
    exact hKept
  have hPacket :
      (⟨i, data⟩ : RtPkt α) ∈ sent.toRight :=
    List.mem_append_right _
      (hRequested.left.mem_sendRetransm rfl hHeld hData
        hPaid)
  refine
    .step (a := .inl (.nack (before ++ i :: after))) ?_
      trivial ?_
  · rintro nacks ⟨⟩
    exact hAsked
  refine
    .step (a := .inl (.retransm now (before.length + 1)))
      (fun nacks hMem => by cases hMem) trivial ?_
  refine
    .step (a := .inr (.data now ⟨i, data⟩)) ?_ trivial
      (.now ?_)
  · rintro pkt ⟨⟩
    exact hPacket
  · exact hRight.right.delivered_processData now hOpen

/- A number below the tail stays lost. -/
theorem Right.not_canRecover
    {i : Nat}
    (h : s.Right)
    (hPast : i < s.right.recvTail)
    (hNot : ¬ s.right.Delivered i) :
    ¬ s.CanRecover i := by
  refine
    Link.not_canReach_of_invariant
      (fun t : RtLink α =>
        t.Right ∧ i < t.right.recvTail ∧
          ¬ t.right.Delivered i)
      ?_ (fun t hInv => hInv.2.2) ⟨h, hPast, hNot⟩
  rintro t a ⟨hRight, hBefore, hLost⟩ hEnabled _
  refine ⟨hRight.act a hEnabled, ?_⟩
  cases a with
  | inl e => exact ⟨hBefore, hLost⟩
  | inr e =>
      cases e with
      | data now pkt =>
          exact hRight.right.given_up hBefore hLost now pkt
      | nack =>
          rw [act_nack]
          split
          · exact ⟨hBefore, hLost⟩
          · exact ⟨hBefore, hLost⟩

/-
  A requested packet that the sender still holds, and has
  the tokens to send, can be handed on in time if and only
  if the receiver's tail has not moved past it.
-/
theorem canRecover_iff
    (s : RtLink α)
    (hReach : s.Reachable guard)
    (i : Nat)
    (now : Timeval)
    (before after : List Nat)
    (hAsked :
      before ++ i :: after ∈ s.right.nackBuff :: s.toLeft)
    (hKept : (s.left.cleanRtHistory now).tail ≤ i)
    (hPaid : 2 * (before.length + 1) ≤ s.left.bucket) :
    s.CanRecover i ↔
      s.right.Delivered i ∨ s.right.recvTail ≤ i := by
  have hRight := hReach.right
  constructor
  · intro hCan
    by_contra hLost
    rw [not_or, Nat.not_le] at hLost
    exact hRight.not_canRecover hLost.2 hLost.1 hCan
  · rintro (hGot | hOpen)
    · exact .now hGot
    rcases List.mem_cons.mp hAsked with hWaits | hSent
    · have hQueued : s.right.nackQueued = true := by
        refine hRight.requests.scheduled ?_
        rw [← hWaits]
        exact List.append_ne_nil_of_right_ne_nil _
          (List.cons_ne_nil _ _)
      refine
        .step (a := .inr .nack)
          (fun pkt hMem => by cases hMem) trivial ?_
      rw [act_nack, if_pos hQueued]
      have hSent :
          before ++ i :: after ∈ s.asking.toLeft :=
        List.mem_append_right _
          (List.mem_singleton.mpr hWaits)
      exact hRight.asking.canRecover hSent hKept hPaid hOpen
    · exact hRight.canRecover hSent hKept hPaid hOpen

theorem canRecover_iff_lostPacket :
    lostPacket.CanRecover 1 :=
  (canRecover_iff lostPacket reachable_lostPacket 1 .zero
    [] [] (by decide) (by decide) (by decide)).mpr
    (Or.inr (by decide))

end RtLink

end P4

end Cs2520
