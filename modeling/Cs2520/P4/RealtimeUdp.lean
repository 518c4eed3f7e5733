import Cs2520.Lib.Time
import Mathlib.Data.List.Nodup
import Mathlib.Logic.Function.Basic

/-
  The real-time protocol of a link between two overlay
  daemons (`daemon/realtime_udp.c`): the sending half of one
  end and the receiving half of the other.

  A `HistoryCell` holds the packet that its buffer holds; the
  headers, the byte order and the reference counts are left
  out.

  Main declarations:
    * `RtSender.forward`
    * `RtSender.sendRetransm`
    * `RtReceiver.processData`
    * `RtSender.Right.step`
    * `RtSender.Right.mem_sendRetransm`
    * `RtReceiver.Right.processData`
    * `RtReceiver.Right.given_up`
-/

------------------------------------------------------------
-- The Sending Half
------------------------------------------------------------

namespace Cs2520

namespace P4

open Lib

variable {α : Type}

/- `MAX_HISTORY` -/
abbrev maxHistory : Nat := 1000

/- `HISTORY_TIME`, in microseconds -/
abbrev historyTime : Int := 100000

/- The age of a packet in microseconds, as an `int`. -/
def ageMicros
    (now since : Timeval) : Int :=
  (now.micros - since.micros).bmod 4294967296

/- A data packet on the link. -/
structure RtPkt (α : Type) where
  seqNo : Nat
  data : α
deriving DecidableEq

structure HistoryCell (α : Type) where
  buff : Option α
  timestamp : Timeval

/-
  The fields of `Realtime_Data` for sending. `forwarded` is
  all packets that were ever put into the window.
-/
structure RtSender (α : Type) where
  head : Nat
  tail : Nat
  window : Nat → HistoryCell α
  retransmBuff : Option (List Nat)
  bucket : Nat
  forwarded : List α

namespace RtSender

def initial : RtSender α where
  head := 0
  tail := 0
  window := fun _ => ⟨none, .zero⟩
  retransmBuff := none
  bucket := 0
  forwarded := []

/- Drop the oldest packet of the window. -/
def dropOldest
    (s : RtSender α) : RtSender α :=
  let k := s.tail % maxHistory
  { s with
    window :=
      Function.update s.window k
        { s.window k with buff := none }
    tail := s.tail + 1 }

/-
  Drop the packets that are too old. The first argument is
  the number of passes that are left.
-/
def cleanLoop
    (now : Timeval) : Nat → RtSender α → RtSender α
  | 0, s => s
  | n + 1, s =>
      let sent := (s.window (s.tail % maxHistory)).timestamp
      if s.tail < s.head ∧
          historyTime < ageMicros now sent then
        cleanLoop now n s.dropOldest
      else
        s

/- `Clean_RT_history` -/
def cleanRtHistory
    (now : Timeval)
    (s : RtSender α) : RtSender α :=
  cleanLoop now (s.head - s.tail) s

/-
  `Forward_RT_UDP_Data`; `sends` is whether `Link_Send`
  takes the packet.
-/
def forward
    (now : Timeval)
    (data : α)
    (sends : Bool)
    (s : RtSender α) : RtSender α × List (RtPkt α) :=
  let s := s.cleanRtHistory now
  let s := if maxHistory ≤ s.head - s.tail then s.dropOldest
    else s
  ({ s with
      window :=
        Function.update s.window (s.head % maxHistory)
          { buff := some data, timestamp := now }
      head := s.head + 1
      bucket :=
        if s.bucket < 500 then s.bucket + 1 else s.bucket
      forwarded := s.forwarded ++ [data] },
    if sends then [⟨s.head, data⟩] else [])

/-
  The loop of `Send_RT_Retransm`. `sends` is how many packets
  `Link_Send` takes before it fails.
-/
def resendLoop :
    List Nat → Nat → RtSender α →
      RtSender α × List (RtPkt α)
  | [], _, s => (s, [])
  | seqNo :: rest, sends, s =>
      if s.head ≤ seqNo ∨ seqNo < s.tail then
        resendLoop rest sends s
      else if s.bucket < 2 then
        (s, [])
      else
        let s := { s with bucket := s.bucket - 2 }
        match sends with
        | 0 => (s, [])
        | sends + 1 =>
            let data := (s.window (seqNo % maxHistory)).buff
            let (s, out) := resendLoop rest sends s
            (s, (data.map (⟨seqNo, ·⟩)).toList ++ out)

/- `Send_RT_Retransm` -/
def sendRetransm
    (now : Timeval)
    (sends : Nat)
    (s : RtSender α) : RtSender α × List (RtPkt α) :=
  match s.retransmBuff with
  | none => (s, [])
  | some seqNos =>
      let s := s.cleanRtHistory now
      let (s, out) := resendLoop seqNos sends s
      ({ s with retransmBuff := none }, out)

/- `Process_RT_nack_packet` -/
def processNack
    (seqNos : List Nat)
    (s : RtSender α) : RtSender α :=
  { s with retransmBuff := some seqNos }

inductive Ev (α : Type) where
  | forward (now : Timeval) (data : α) (sends : Bool)
  | clean (now : Timeval)
  | nack (seqNos : List Nat)
  | retransm (now : Timeval) (sends : Nat)
deriving DecidableEq

def step
    (s : RtSender α) : Ev α → RtSender α × List (RtPkt α)
  | .forward now data sends => s.forward now data sends
  | .clean now => (s.cleanRtHistory now, [])
  | .nack seqNos => (s.processNack seqNos, [])
  | .retransm now sends => s.sendRetransm now sends

end RtSender

end P4

end Cs2520

------------------------------------------------------------
-- The Receiving Half
------------------------------------------------------------

namespace Cs2520

namespace P4

open Lib

variable {α : Type}

/- A cell is empty, or of a packet received at a time. -/
structure HistoryRecvCell where
  received : Bool
  timestamp : Timeval

/-
  The fields of `Realtime_Data` for receiving. `nackQueued`
  says that `Send_RT_Nack` is scheduled, and `delivered` is
  all packets that were handed on.
-/
structure RtReceiver (α : Type) where
  recvHead : Nat
  recvTail : Nat
  recvWindow : Nat → HistoryRecvCell
  nackBuff : List Nat
  nackQueued : Bool
  delivered : List (RtPkt α)

namespace RtReceiver

def initial : RtReceiver α where
  recvHead := 0
  recvTail := 0
  recvWindow := fun _ => ⟨false, .zero⟩
  nackBuff := []
  nackQueued := false
  delivered := []

def isReceived
    (r : RtReceiver α)
    (i : Nat) : Bool :=
  (r.recvWindow (i % maxHistory)).received

/- `flags = EMPTY_CELL` -/
def clear
    (r : RtReceiver α)
    (i : Nat) : RtReceiver α :=
  let k := i % maxHistory
  { r with
    recvWindow :=
      Function.update r.recvWindow k
        { r.recvWindow k with received := false } }

/- From `i` on to the next packet received, or the head. -/
def skipEmpty
    (r : RtReceiver α) : Nat → Nat → Nat
  | 0, i => i
  | n + 1, i =>
      if r.isReceived i = false ∧ i < r.recvHead then
        skipEmpty r n (i + 1)
      else
        i

/- Move the tail up over the packets that are too old. -/
def advanceTail
    (now : Timeval) : Nat → RtReceiver α → RtReceiver α
  | 0, r => r
  | n + 1, r =>
      if r.recvTail < r.recvHead then
        let i :=
          r.skipEmpty (r.recvHead - r.recvTail) r.recvTail
        let got := (r.recvWindow (i % maxHistory)).timestamp
        if i = r.recvHead ∨
            ageMicros now got ≤ historyTime then
          r
        else
          advanceTail now n
            { r.clear i with recvTail := i + 1 }
      else
        r

/- Move the tail up until there is room for a packet. -/
def makeRoom
    (seqNo : Nat) : Nat → RtReceiver α → RtReceiver α
  | 0, r => r
  | n + 1, r =>
      if maxHistory ≤ seqNo - r.recvTail then
        makeRoom seqNo n
          { r.clear r.recvTail with
            recvTail := r.recvTail + 1 }
      else
        r

/- A request has room in a packet of 1424 bytes. -/
def passOver
    (r : RtReceiver α)
    (i : Nat) : RtReceiver α :=
  { r.clear i with
    nackBuff :=
      if r.nackBuff.length * 8 + 2 * 8 < 1424 then
        r.nackBuff ++ [i]
      else
        r.nackBuff }

/- A packet at or past the head. -/
def raiseHead
    (seqNo : Nat)
    (r : RtReceiver α) : RtReceiver α :=
  let r := makeRoom seqNo (seqNo - r.recvTail) r
  let r :=
    (List.range' r.recvHead (seqNo - r.recvHead)).foldl
      passOver r
  { r with
    nackQueued :=
      if r.nackBuff = [] then r.nackQueued else true
    recvHead := seqNo + 1 }

/- The packet is marked in its cell and handed on. -/
def deliver
    (now : Timeval)
    (pkt : RtPkt α)
    (r : RtReceiver α) : RtReceiver α :=
  { r with
    recvWindow :=
      Function.update r.recvWindow (pkt.seqNo % maxHistory)
        { received := true, timestamp := now }
    delivered := r.delivered ++ [pkt] }

/- `Process_RT_UDP_data_packet` -/
def processData
    (now : Timeval)
    (pkt : RtPkt α)
    (r : RtReceiver α) : RtReceiver α :=
  if pkt.seqNo < r.recvTail then
    r
  else if pkt.seqNo < r.recvHead ∧ r.isReceived pkt.seqNo then
    r
  else
    let r := advanceTail now (r.recvHead - r.recvTail) r
    let r :=
      if r.recvHead ≤ pkt.seqNo then r.raiseHead pkt.seqNo
      else r
    r.deliver now pkt

inductive Ev (α : Type) where
  | data (now : Timeval) (pkt : RtPkt α)
  | nack
deriving DecidableEq

/- An output is a packet with requests. -/
def step
    (r : RtReceiver α) :
    Ev α → RtReceiver α × List (List Nat)
  | .data now pkt => (r.processData now pkt, [])
  | .nack =>
      if r.nackQueued then
        -- `Send_RT_Nack`
        ({ r with nackBuff := [], nackQueued := false },
          [r.nackBuff])
      else
        (r, [])

end RtReceiver

end P4

end Cs2520

------------------------------------------------------------
-- What Is Sent
------------------------------------------------------------

namespace Cs2520

namespace P4

open Lib

variable {α : Type}

/- The packet was forwarded under its number. -/
def RtSender.Forwarded
    (s : RtSender α)
    (pkt : RtPkt α) : Prop :=
  s.forwarded[pkt.seqNo]? = some pkt.data

namespace RtSender

/- The window holds the last packets that were forwarded. -/
structure Right
    (s : RtSender α) : Prop where
  head : s.head = s.forwarded.length
  tail : s.tail ≤ s.head
  room : s.head ≤ s.tail + maxHistory
  window :
    ∀ i, s.tail ≤ i → i < s.head →
      (s.window (i % maxHistory)).buff = s.forwarded[i]?

variable {s : RtSender α}

theorem right_initial :
    (initial : RtSender α).Right where
  head := rfl
  tail := Nat.le_refl 0
  room := Nat.zero_le _
  window := fun i _ hLt => absurd hLt (Nat.not_lt_zero i)

theorem Right.dropOldest
    (h : s.Right)
    (hSome : s.tail < s.head) :
    s.dropOldest.Right where
  head := h.head
  tail := hSome
  room := Nat.le_trans h.room (by simp [RtSender.dropOldest])
  window := by
    intro i hLow hHigh
    have hTail : s.tail + 1 ≤ i := hLow
    have hHead : i < s.head := hHigh
    have hRoom := h.room
    have hOther :
        i % maxHistory ≠ s.tail % maxHistory := by
      intro hSame
      rw [maxHistory] at hRoom hSame
      omega
    rw [RtSender.dropOldest]
    dsimp only
    rw [Function.update_of_ne hOther]
    exact h.window i (by omega) hHead

/- Cleaning only drops packets. -/
structure Cleaned
    (s s' : RtSender α) : Prop where
  right : s'.Right
  head : s'.head = s.head
  bucket : s'.bucket = s.bucket
  forwarded : s'.forwarded = s.forwarded

theorem Right.clean
    (h : s.Right)
    (now : Timeval) :
    Cleaned s (s.cleanRtHistory now) := by
  rw [cleanRtHistory]
  generalize s.head - s.tail = n
  induction n generalizing s with
  | zero => exact ⟨h, rfl, rfl, rfl⟩
  | succ n ih =>
      rw [cleanLoop]
      split
      · next hOld =>
          have hRest := ih (h.dropOldest hOld.1)
          exact
            ⟨hRest.right, hRest.head, hRest.bucket,
              hRest.forwarded⟩
      · exact ⟨h, rfl, rfl, rfl⟩

/- What a step adds to the packets and to the bucket. -/
structure Sends
    (s s' : RtSender α)
    (out : List (RtPkt α)) : Prop where
  right : s'.Right
  grows : s.forwarded <+: s'.forwarded
  genuine : ∀ pkt ∈ out, s'.Forwarded pkt
  share :
    2 * out.length + s'.bucket + 3 * s.forwarded.length ≤
      s.bucket + 3 * s'.forwarded.length

theorem sends_nothing
    {s' : RtSender α}
    (h : s'.Right)
    (hData : s'.forwarded = s.forwarded)
    (hBucket : s'.bucket ≤ s.bucket) :
    Sends s s' [] where
  right := h
  grows := ⟨[], by rw [List.append_nil, hData]⟩
  genuine := fun pkt hMem => by cases hMem
  share := by
    rw [hData, List.length_nil]
    omega

theorem Right.forward
    (h : s.Right)
    (now : Timeval)
    (data : α)
    (sends : Bool) :
    Sends s (s.forward now data sends).1
      (s.forward now data sends).2 := by
  have hClean := h.clean now
  rw [RtSender.forward]
  dsimp only
  generalize s.cleanRtHistory now = c at hClean
  obtain ⟨d, hD, hRight, hRoom, hHead, hBucket, hData⟩ :
      ∃ d,
        (if maxHistory ≤ c.head - c.tail then c.dropOldest
          else c) = d ∧
          d.Right ∧
          d.head < d.tail + maxHistory ∧
          d.head = c.head ∧
          d.bucket = c.bucket ∧
          d.forwarded = c.forwarded := by
    split
    · next hFull =>
        have hTail := hClean.right.tail
        have hRoom := hClean.right.room
        rw [maxHistory] at hFull hRoom
        refine
          ⟨_, rfl, hClean.right.dropOldest (by omega), ?_,
            rfl, rfl, rfl⟩
        rw [RtSender.dropOldest, maxHistory]
        dsimp only
        omega
    · next hFree =>
        rw [maxHistory] at hFree
        refine
          ⟨_, rfl, hClean.right, ?_, rfl, rfl, rfl⟩
        rw [maxHistory]
        omega
  rw [hD]
  have hLength := hRight.head
  have hTail := hRight.tail
  rw [maxHistory] at hRoom
  have hOld : d.forwarded = s.forwarded :=
    hData.trans hClean.forwarded
  refine
    { right := ?_
      grows := ?_
      genuine := ?_
      share := ?_ }
  · refine
      { head := ?_
        tail := Nat.le_succ_of_le hTail
        room := hRoom
        window := ?_ }
    · dsimp only
      rw [List.length_append, List.length_singleton, hLength]
    · intro i hLow hHigh
      dsimp only at hLow hHigh ⊢
      by_cases hThis : i = d.head
      · rw [hThis, Function.update_self, hLength,
          List.getElem?_concat_length]
      · have hBefore : i < d.head := by omega
        have hOther :
            i % maxHistory ≠ d.head % maxHistory := by
          rw [maxHistory]
          omega
        rw [Function.update_of_ne hOther,
          hRight.window i hLow hBefore,
          List.getElem?_append_left (by omega)]
  · dsimp only
    rw [hOld]
    exact List.prefix_append _ _
  · intro pkt hMem
    split at hMem
    · rw [List.mem_singleton.mp hMem, Forwarded]
      dsimp only
      rw [hLength, List.getElem?_concat_length]
    · cases hMem
  · dsimp only
    have hFull := hClean.bucket
    rw [List.length_append, List.length_singleton, hOld]
    split
    · split
      · rw [List.length_singleton]
        omega
      · rw [List.length_singleton]
        omega
    · split
      · rw [List.length_nil]
        omega
      · rw [List.length_nil]
        omega

/- Tokens that are taken do not matter to the window. -/
theorem Right.pay
    (h : s.Right)
    (tokens : Nat) :
    ({ s with bucket := s.bucket - tokens } :
      RtSender α).Right :=
  ⟨h.head, h.tail, h.room, h.window⟩

/- Resending changes the bucket only. -/
theorem Right.resendLoop
    (h : s.Right)
    (seqNos : List Nat)
    (sends : Nat) :
    Sends s (resendLoop seqNos sends s).1
        (resendLoop seqNos sends s).2 ∧
      (RtSender.resendLoop seqNos sends s).1.forwarded =
        s.forwarded := by
  induction seqNos generalizing s sends with
  | nil =>
      exact ⟨sends_nothing h rfl (Nat.le_refl _), rfl⟩
  | cons seqNo rest ih =>
      rw [RtSender.resendLoop]
      split
      · exact ih h sends
      · next hIn =>
          split
          · exact ⟨sends_nothing h rfl (Nat.le_refl _), rfl⟩
          · next hTokens =>
              have hPaid := h.pay 2
              cases sends with
              | zero =>
                  exact
                    ⟨sends_nothing hPaid rfl
                      (Nat.sub_le s.bucket 2), rfl⟩
              | succ sends =>
                  rcases ih hPaid sends with ⟨hRest, hSame⟩
                  have hData :
                      (s.window (seqNo % maxHistory)).buff =
                        s.forwarded[seqNo]? :=
                    h.window seqNo (by omega) (by omega)
                  have hShare := hRest.share
                  dsimp only at hSame hShare
                  refine
                    ⟨⟨hRest.right, hRest.grows, ?_, ?_⟩,
                      hSame⟩
                  · intro pkt hMem
                    rcases List.mem_append.mp hMem with
                      hThis | hLater
                    · rw [Option.mem_toList,
                        Option.map_eq_some_iff] at hThis
                      rcases hThis with ⟨data, hBuff, rfl⟩
                      rw [Forwarded]
                      dsimp only at hBuff ⊢
                      rw [hSame, ← hData, hBuff]
                    · exact hRest.genuine pkt hLater
                  · dsimp only at hShare ⊢
                    rw [List.length_append]
                    have hOne :
                        ((s.window (seqNo % maxHistory)).buff.map
                          (fun data =>
                            (⟨seqNo, data⟩ : RtPkt α))
                              ).toList.length ≤ 1 := by
                      cases (s.window
                        (seqNo % maxHistory)).buff with
                      | none => exact Nat.zero_le 1
                      | some data => exact Nat.le_refl 1
                    omega

theorem Right.sendRetransm
    (h : s.Right)
    (now : Timeval)
    (sends : Nat) :
    Sends s (s.sendRetransm now sends).1
      (s.sendRetransm now sends).2 := by
  rw [RtSender.sendRetransm]
  cases s.retransmBuff with
  | none => exact sends_nothing h rfl (Nat.le_refl _)
  | some seqNos =>
      have hClean := h.clean now
      rcases hClean.right.resendLoop seqNos sends with
        ⟨hSends, hSame⟩
      have hRight := hSends.right
      have hShare := hSends.share
      dsimp only
      refine
        { right :=
            ⟨hRight.head, hRight.tail, hRight.room,
              hRight.window⟩
          grows := ?_
          genuine := hSends.genuine
          share := ?_ }
      · rw [← hClean.forwarded]
        exact hSends.grows
      · rw [hClean.bucket, hClean.forwarded] at hShare
        exact hShare

/- A request does not matter for cleaning. -/
theorem clean_processNack
    (now : Timeval)
    (seqNos : List Nat)
    (s : RtSender α) :
    (s.processNack seqNos).cleanRtHistory now =
      (s.cleanRtHistory now).processNack seqNos := by
  rw [cleanRtHistory, cleanRtHistory]
  change cleanLoop now (s.head - s.tail) _ = _
  generalize s.head - s.tail = n
  induction n generalizing s with
  | zero => rfl
  | succ n ih =>
      rw [cleanLoop]
      split
      · next hOld =>
          have hSame :
              cleanLoop now (n + 1) s =
                cleanLoop now n s.dropOldest := if_pos hOld
          rw [hSame]
          exact ih s.dropOldest
      · next hNew =>
          have hSame : cleanLoop now (n + 1) s = s :=
            if_neg hNew
          rw [hSame]

/- A request is served if the tokens and the link suffice. -/
theorem Right.mem_resendLoop
    (h : s.Right)
    {i : Nat}
    {data : α}
    (hTail : s.tail ≤ i)
    (hData : s.Forwarded ⟨i, data⟩)
    (before after : List Nat)
    {sends : Nat}
    (hPaid : 2 * (before.length + 1) ≤ s.bucket)
    (hSends : before.length < sends) :
    ⟨i, data⟩ ∈
      (RtSender.resendLoop (before ++ i :: after) sends
        s).2 := by
  have hLt := (List.getElem?_eq_some_iff.mp hData).1
  have hHead := h.head
  dsimp only at hLt
  induction before generalizing s sends with
  | nil =>
      rw [List.nil_append, RtSender.resendLoop,
        if_neg (by omega)]
      rw [List.length_nil] at hPaid hSends
      rw [if_neg (by omega)]
      cases sends with
      | zero => exact absurd hSends (Nat.lt_irrefl 0)
      | succ sends =>
          refine List.mem_append_left _ ?_
          dsimp only
          rw [h.window i hTail (by omega), hData]
          exact List.mem_singleton.mpr rfl
  | cons seqNo before ih =>
      rw [List.length_cons] at hPaid hSends
      rw [List.cons_append, RtSender.resendLoop]
      split
      · exact ih h hTail hData (by omega) (by omega) hLt hHead
      · rw [if_neg (by omega)]
        cases sends with
        | zero => exact absurd hSends (Nat.not_lt_zero _)
        | succ sends =>
            exact
              List.mem_append_right _
                (ih (h.pay 2) hTail hData (by dsimp only; omega)
                  (by omega) hLt hHead)

theorem Right.mem_sendRetransm
    (h : s.Right)
    {i : Nat}
    {data : α}
    {now : Timeval}
    {before after : List Nat}
    (hBuff : s.retransmBuff = some (before ++ i :: after))
    (hKept : (s.cleanRtHistory now).tail ≤ i)
    (hData : s.Forwarded ⟨i, data⟩)
    (hPaid : 2 * (before.length + 1) ≤ s.bucket) :
    ⟨i, data⟩ ∈
      (s.sendRetransm now (before.length + 1)).2 := by
  have hClean := h.clean now
  rw [RtSender.sendRetransm, hBuff]
  refine
    hClean.right.mem_resendLoop hKept ?_ before after ?_
      (Nat.lt_succ_self _)
  · rw [Forwarded, hClean.forwarded]
    exact hData
  · rw [hClean.bucket]
    exact hPaid

/- One event at the sending half. -/
theorem Right.step
    (h : s.Right)
    (e : Ev α) :
    Sends s (s.step e).1 (s.step e).2 := by
  cases e with
  | forward now data sends => exact h.forward now data sends
  | clean now =>
      have hClean := h.clean now
      exact
        sends_nothing hClean.right hClean.forwarded
          (Nat.le_of_eq hClean.bucket)
  | nack seqNos =>
      exact
        sends_nothing
          ⟨h.head, h.tail, h.room, h.window⟩ rfl
          (Nat.le_refl _)
  | retransm now sends => exact h.sendRetransm now sends

end RtSender

end P4

end Cs2520

------------------------------------------------------------
-- What Is Received
------------------------------------------------------------

namespace Cs2520

namespace P4

open Lib

variable {α : Type}

namespace RtReceiver

variable {r : RtReceiver α}

/- A number has been delivered. -/
def Delivered
    (r : RtReceiver α)
    (i : Nat) : Prop :=
  i ∈ r.delivered.map RtPkt.seqNo

/-
  The cells from the tail on, up to a number, tell which
  packets were delivered.
-/
def Tells
    (r : RtReceiver α)
    (top : Nat) : Prop :=
  ∀ i, r.recvTail ≤ i → i < top →
    (r.isReceived i = true ↔ r.Delivered i)

/- No packet was delivered twice, and the cells tell which. -/
structure Right
    (r : RtReceiver α) : Prop where
  tail : r.recvTail ≤ r.recvHead
  room : r.recvHead ≤ r.recvTail + maxHistory
  tells : r.Tells r.recvHead
  below : ∀ i, r.Delivered i → i < r.recvHead
  nodup : (r.delivered.map RtPkt.seqNo).Nodup

theorem right_initial :
    (initial : RtReceiver α).Right where
  tail := Nat.le_refl 0
  room := Nat.zero_le _
  tells := fun i _ hLt => absurd hLt (Nat.not_lt_zero i)
  below := fun i hMem => by cases hMem
  nodup := List.nodup_nil

theorem isReceived_clear
    {i j : Nat}
    (hOther : i % maxHistory ≠ j % maxHistory) :
    (r.clear j).isReceived i = r.isReceived i := by
  rw [isReceived, clear]
  dsimp only
  rw [Function.update_of_ne hOther]
  rfl

theorem isReceived_clear_self
    (i : Nat) :
    (r.clear i).isReceived i = false := by
  rw [isReceived, clear]
  dsimp only
  rw [Function.update_self]

theorem skipEmpty_bounds
    (n : Nat)
    {i : Nat}
    (hHead : i ≤ r.recvHead) :
    i ≤ r.skipEmpty n i ∧ r.skipEmpty n i ≤ r.recvHead := by
  induction n generalizing i with
  | zero => exact ⟨Nat.le_refl i, hHead⟩
  | succ n ih =>
      rw [skipEmpty]
      split
      · next hEmpty =>
          have hRest := ih (i := i + 1) hEmpty.2
          exact
            ⟨Nat.le_of_succ_le hRest.1, hRest.2⟩
      · exact ⟨Nat.le_refl i, hHead⟩

/-
  The cells still tell when the packets up to one are
  forgotten: no number that is left has its cell.
-/
theorem Tells.forget
    {i top : Nat}
    (h : r.Tells top)
    (hLow : r.recvTail ≤ i)
    (hTop : top ≤ r.recvTail + maxHistory) :
    ({ r.clear i with recvTail := i + 1 } :
      RtReceiver α).Tells top := by
  intro j hTail hBelow
  rw [maxHistory] at hTop
  have hLater : i + 1 ≤ j := hTail
  have hOther : j % maxHistory ≠ i % maxHistory := by
    rw [maxHistory]
    omega
  change (r.clear i).isReceived j = true ↔ _
  rw [isReceived_clear hOther]
  exact h j (by omega) hBelow

/- Moving the tail only forgets packets. -/
structure Moved
    (r r' : RtReceiver α) : Prop where
  right : r'.Right
  head : r'.recvHead = r.recvHead
  tail : r.recvTail ≤ r'.recvTail
  nacks : r'.nackBuff = r.nackBuff
  queued : r'.nackQueued = r.nackQueued
  delivered : r'.delivered = r.delivered

theorem Moved.refl
    (h : r.Right) :
    Moved r r where
  right := h
  head := rfl
  tail := Nat.le_refl _
  nacks := rfl
  queued := rfl
  delivered := rfl

theorem Moved.trans
    {r' r'' : RtReceiver α}
    (h : Moved r r')
    (h' : Moved r' r'') :
    Moved r r'' where
  right := h'.right
  head := h'.head.trans h.head
  tail := Nat.le_trans h.tail h'.tail
  nacks := h'.nacks.trans h.nacks
  queued := h'.queued.trans h.queued
  delivered := h'.delivered.trans h.delivered

/- Forget all packets up to one in the window. -/
theorem Right.forget
    (h : r.Right)
    {i : Nat}
    (hLow : r.recvTail ≤ i)
    (hHigh : i < r.recvHead) :
    Moved r { r.clear i with recvTail := i + 1 } := by
  have hRoom := h.room
  rw [maxHistory] at hRoom
  refine
    { right :=
        { tail := hHigh
          room := ?_
          tells := h.tells.forget hLow h.room
          below := h.below
          nodup := h.nodup }
      head := rfl
      tail := by dsimp only; omega
      nacks := rfl
      queued := rfl
      delivered := rfl }
  change r.recvHead ≤ i + 1 + maxHistory
  rw [maxHistory]
  omega

theorem Right.advanceTail
    (h : r.Right)
    (now : Timeval)
    (n : Nat) :
    Moved r (advanceTail now n r) := by
  induction n generalizing r with
  | zero => exact .refl h
  | succ n ih =>
      rw [RtReceiver.advanceTail]
      split
      · next hSome =>
          dsimp only
          have hBounds :=
            skipEmpty_bounds (r := r)
              (r.recvHead - r.recvTail)
              (Nat.le_of_lt hSome)
          generalize
            r.skipEmpty (r.recvHead - r.recvTail)
              r.recvTail = i at hBounds
          split
          · exact .refl h
          · next hOld =>
              have hHigh : i < r.recvHead := by
                rcases Nat.lt_or_eq_of_le hBounds.2 with
                  hLt | hEq
                · exact hLt
                · exact absurd (Or.inl hEq) hOld
              have hStep := h.forget hBounds.1 hHigh
              exact hStep.trans (ih hStep.right)
      · exact .refl h

/-
  There is room for a packet, and the cells tell up to a
  number.
-/
structure Roomy
    (seqNo top : Nat)
    (r : RtReceiver α) : Prop where
  tail : r.recvTail ≤ seqNo
  room : seqNo < r.recvTail + maxHistory
  tells : r.Tells top

/- What is kept while the cells change. -/
structure Keeps
    (r r' : RtReceiver α) : Prop where
  tail : r.recvTail ≤ r'.recvTail
  head : r'.recvHead = r.recvHead
  queued : r'.nackQueued = r.nackQueued
  delivered : r'.delivered = r.delivered

theorem Keeps.refl
    (r : RtReceiver α) :
    Keeps r r :=
  ⟨Nat.le_refl _, rfl, rfl, rfl⟩

/- The window moves up to the packet. -/
theorem roomy_makeRoom
    {seqNo top : Nat}
    (n : Nat)
    (hTail : r.recvTail ≤ seqNo)
    (hTop : top ≤ r.recvTail + maxHistory)
    (hTells : r.Tells top)
    (hPasses : seqNo - r.recvTail ≤ n) :
    Roomy seqNo top (makeRoom seqNo n r) ∧
      Keeps r (makeRoom seqNo n r) ∧
      (makeRoom seqNo n r).nackBuff = r.nackBuff := by
  induction n generalizing r with
  | zero =>
      have hRoom : seqNo < r.recvTail + maxHistory := by
        rw [maxHistory]
        omega
      exact ⟨⟨hTail, hRoom, hTells⟩, .refl r, rfl⟩
  | succ n ih =>
      rw [makeRoom]
      split
      · next hFull =>
          have hNext := hTells.forget (Nat.le_refl _) hTop
          rw [maxHistory] at hFull hTop
          rcases
            ih (r := { r.clear r.recvTail with
                recvTail := r.recvTail + 1 })
              (by dsimp only; omega)
              (by dsimp only; rw [maxHistory]; omega) hNext
              (by dsimp only; omega) with
            ⟨hRoomy, hKeeps, hNacks⟩
          exact
            ⟨hRoomy,
              ⟨Nat.le_of_succ_le hKeeps.tail, hKeeps.head,
                hKeeps.queued, hKeeps.delivered⟩,
              hNacks⟩
      · next hRoom =>
          rw [maxHistory] at hRoom
          have hFits : seqNo < r.recvTail + maxHistory := by
            rw [maxHistory]
            omega
          exact ⟨⟨hTail, hFits, hTells⟩, .refl r, rfl⟩

/- The numbers below a packet that were not seen. -/
theorem roomy_passOver
    {seqNo : Nat}
    (count : Nat)
    {top : Nat}
    (hBelow : ∀ i, r.Delivered i → i < top)
    (hEnd : top + count = seqNo)
    (hRoomy : Roomy seqNo top r) :
    let r' := (List.range' top count).foldl passOver r
    Roomy seqNo seqNo r' ∧
      Keeps r r' ∧
      ∃ m,
        m ≤ count ∧
          r'.nackBuff = r.nackBuff ++ List.range' top m ∧
          (r.nackBuff.length + count ≤ 176 → m = count) ∧
          (176 ≤ r.nackBuff.length → m = 0) := by
  induction count generalizing r top with
  | zero =>
      have hSame : top = seqNo := hEnd
      subst hSame
      exact
        ⟨hRoomy, .refl r, 0, Nat.le_refl 0,
          (List.append_nil _).symm, fun _ => rfl,
          fun _ => rfl⟩
  | succ count ih =>
      have hRoom := hRoomy.room
      rw [maxHistory] at hRoom
      have hNext : Roomy seqNo (top + 1) (r.passOver top) := by
        refine ⟨hRoomy.tail, hRoomy.room, ?_⟩
        intro i hLow hHigh
        change (r.clear top).isReceived i = true ↔ r.Delivered i
        have hTail : r.recvTail ≤ i := hLow
        by_cases hThis : i = top
        · subst hThis
          rw [isReceived_clear_self]
          refine iff_of_false Bool.false_ne_true ?_
          intro hBefore
          exact Nat.lt_irrefl _ (hBelow _ hBefore)
        · have hOther :
              i % maxHistory ≠ top % maxHistory := by
            rw [maxHistory]
            omega
          rw [isReceived_clear hOther]
          exact hRoomy.tells i hTail (by omega)
      rcases
        ih (r := r.passOver top)
          (fun i hBefore =>
            Nat.lt_succ_of_lt (hBelow i hBefore))
          (by omega) hNext with
        ⟨hLast, hKeeps, m, hM, hNacks, hAll, hNone⟩
      intro r'
      have hFold :
          r' =
            (List.range' (top + 1) count).foldl passOver
              (r.passOver top) := rfl
      rw [hFold]
      refine
        ⟨hLast,
          ⟨hKeeps.tail, hKeeps.head, hKeeps.queued,
            hKeeps.delivered⟩, ?_⟩
      rw [hNacks]
      by_cases hFree :
          r.nackBuff.length * 8 + 2 * 8 < 1424
      · have hAdd :
            (r.passOver top).nackBuff = r.nackBuff ++ [top] :=
          if_pos hFree
        rw [hAdd, List.length_append, List.length_singleton]
          at hAll
        refine
          ⟨m + 1, by omega, ?_, fun hFits => ?_,
            fun hFull => by omega⟩
        · rw [hAdd, List.append_assoc]
          rfl
        · rw [hAll (by omega)]
      · have hSame :
            (r.passOver top).nackBuff = r.nackBuff :=
          if_neg hFree
        rw [hSame] at hNone
        have hZero := hNone (by omega)
        subst hZero
        refine
          ⟨0, Nat.zero_le _, ?_, fun hFits => by omega,
            fun _ => rfl⟩
        rw [hSame]
        rfl

/- The requests for all missing numbers have room. -/
def Fits
    (r : RtReceiver α)
    (seqNo : Nat) : Prop :=
  r.nackBuff.length + (seqNo - r.recvHead) ≤ 176

/- The requests that a packet adds, all if they fit. -/
def Asks
    (r r' : RtReceiver α)
    (seqNo : Nat) : Prop :=
  ∃ m,
    r'.nackBuff = r.nackBuff ++ List.range' r.recvHead m ∧
      m ≤ seqNo - r.recvHead ∧
      (r.Fits seqNo → m = seqNo - r.recvHead)

/- Requests that wait will be sent. -/
def Scheduled
    (r : RtReceiver α) : Prop :=
  r.nackBuff ≠ [] → r.nackQueued = true

/- The state after a packet was handed on. -/
structure Hands
    (r r' : RtReceiver α)
    (pkt : RtPkt α) : Prop where
  right : r'.Right
  delivered : r'.delivered = r.delivered ++ [pkt]
  tail : r.recvTail ≤ r'.recvTail
  head : r'.recvHead = max r.recvHead (pkt.seqNo + 1)
  asks : Asks r r' pkt.seqNo
  scheduled : r.Scheduled → r'.Scheduled

/-
  Marking a packet in its cell: its number shares the cell
  with no other number of the window.
-/
theorem right_deliver
    {pkt : RtPkt α}
    (now : Timeval)
    (hTail : r.recvTail ≤ r.recvHead)
    (hRoom : r.recvHead ≤ r.recvTail + maxHistory)
    (hLast : pkt.seqNo < r.recvHead)
    (hNear : r.recvHead ≤ pkt.seqNo + maxHistory)
    (hTells :
      ∀ i, r.recvTail ≤ i → i < r.recvHead →
        i ≠ pkt.seqNo →
          (r.isReceived i = true ↔ r.Delivered i))
    (hBelow : ∀ i, r.Delivered i → i < r.recvHead)
    (hNodup : (r.delivered.map RtPkt.seqNo).Nodup)
    (hNew : ¬ r.Delivered pkt.seqNo) :
    (r.deliver now pkt).Right := by
  have hMore :
      ∀ i,
        (r.deliver now pkt).Delivered i ↔
          r.Delivered i ∨ i = pkt.seqNo := by
    intro i
    rw [Delivered, deliver, List.map_append, List.mem_append]
    exact or_congr_right List.mem_singleton
  refine
    { tail := hTail
      room := hRoom
      tells := ?_
      below := ?_
      nodup := ?_ }
  · intro i hLow hHigh
    rw [hMore]
    have hAbove : r.recvTail ≤ i := hLow
    have hUnder : i < r.recvHead := hHigh
    by_cases hThis : i = pkt.seqNo
    · rw [hThis, isReceived, deliver]
      dsimp only
      rw [Function.update_self]
      exact iff_of_true rfl (Or.inr rfl)
    · have hOther :
          i % maxHistory ≠ pkt.seqNo % maxHistory := by
        rw [maxHistory] at hRoom hNear ⊢
        omega
      rw [isReceived, deliver]
      dsimp only
      rw [Function.update_of_ne hOther]
      rw [← isReceived, hTells i hAbove hUnder hThis]
      exact (or_iff_left hThis).symm
  · intro i hSome
    rcases (hMore i).mp hSome with hOld | rfl
    · exact hBelow i hOld
    · exact hLast
  · have hAll := hNodup.concat hNew
    rw [deliver, List.map_append]
    rw [List.concat_eq_append] at hAll
    exact hAll

/- A packet at or past the head takes the head with it. -/
structure Raised
    (r r' : RtReceiver α)
    (seqNo : Nat) : Prop where
  roomy : Roomy seqNo seqNo r'
  tail : r.recvTail ≤ r'.recvTail
  head : r'.recvHead = seqNo + 1
  delivered : r'.delivered = r.delivered
  asks : Asks r r' seqNo
  scheduled : r'.Scheduled

theorem Right.raiseHead
    {seqNo : Nat}
    (h : r.Right)
    (hHigh : r.recvHead ≤ seqNo) :
    Raised r (r.raiseHead seqNo) seqNo := by
  have hTail := Nat.le_trans h.tail hHigh
  rcases
    roomy_makeRoom (seqNo - r.recvTail) hTail h.room h.tells
      (Nat.le_refl _) with
    ⟨hRoomy, hKeeps, hNacks⟩
  rw [RtReceiver.raiseHead]
  generalize makeRoom seqNo (seqNo - r.recvTail) r = p
    at hRoomy hKeeps hNacks
  have hBelow : ∀ i, p.Delivered i → i < r.recvHead := by
    intro i hSome
    rw [Delivered, hKeeps.delivered] at hSome
    exact h.below i hSome
  rcases
    roomy_passOver (seqNo - r.recvHead) hBelow (by omega)
      hRoomy with
    ⟨hLast, hSame, m, hM, hMore, hAll, _⟩
  rw [hKeeps.head]
  rw [hNacks] at hMore hAll
  exact
    { roomy := ⟨hLast.tail, hLast.room, hLast.tells⟩
      tail := Nat.le_trans hKeeps.tail hSame.tail
      head := rfl
      delivered := hSame.delivered.trans hKeeps.delivered
      asks := ⟨m, hMore, hM, hAll⟩
      scheduled := fun hSome => if_neg hSome }

/- A data packet does nothing, or is new and handed on. -/
theorem Right.processData
    (h : r.Right)
    (now : Timeval)
    (pkt : RtPkt α) :
    r.processData now pkt = r ∨
      Hands r (r.processData now pkt) pkt := by
  rw [RtReceiver.processData]
  split
  · exact Or.inl rfl
  next hOld =>
  split
  · exact Or.inl rfl
  next hSeen =>
  refine Or.inr ?_
  have hNew : ¬ r.Delivered pkt.seqNo := by
    intro hBefore
    have hLt := h.below _ hBefore
    have hGot := (h.tells _ (by omega) hLt).mpr hBefore
    exact hSeen ⟨hLt, hGot⟩
  have hMoved :=
    h.advanceTail now (r.recvHead - r.recvTail)
  have hSpan := h.room
  generalize
    RtReceiver.advanceTail now (r.recvHead - r.recvTail) r = q
    at hMoved
  have hRight := hMoved.right
  have hHead := hMoved.head
  have hFresh : ¬ q.Delivered pkt.seqNo := by
    rw [Delivered, hMoved.delivered]
    exact hNew
  dsimp only
  split
  · next hHigh =>
      have hRaised := hRight.raiseHead hHigh
      generalize q.raiseHead pkt.seqNo = p at hRaised
      have hTail := hRaised.roomy.tail
      have hRoom := hRaised.roomy.room
      have hLast := hRaised.head
      have hSame := hRaised.delivered
      refine
        { right := ?_
          delivered := ?_
          tail := Nat.le_trans hMoved.tail hRaised.tail
          head := ?_
          asks := ?_
          scheduled := fun _ => hRaised.scheduled }
      · refine
          right_deliver now (by omega) (by omega) (by omega)
            (by omega) ?_ ?_ ?_ ?_
        · intro i hLow hTop hOther
          exact hRaised.roomy.tells i hLow (by omega)
        · intro i hSome
          rw [Delivered, hSame] at hSome
          have hLt := hRight.below i hSome
          omega
        · rw [hSame]
          exact hRight.nodup
        · rw [Delivered, hSame]
          exact hFresh
      · rw [deliver, hSame, hMoved.delivered]
      · rw [deliver]
        dsimp only
        omega
      · have hAsks := hRaised.asks
        rw [Asks, Fits, hMoved.nacks, hHead] at hAsks
        exact hAsks
  · next hLow =>
      refine
        { right := ?_
          delivered := ?_
          tail := hMoved.tail
          head := ?_
          asks := ?_
          scheduled := ?_ }
      · exact
          right_deliver now hRight.tail hRight.room
            (by omega) (by omega)
            (fun i hFrom hTop _ => hRight.tells i hFrom hTop)
            hRight.below hRight.nodup hFresh
      · rw [deliver, hMoved.delivered]
      · rw [deliver]
        dsimp only
        omega
      · refine ⟨0, ?_, Nat.zero_le _, fun _ => by omega⟩
        rw [deliver, hMoved.nacks]
        exact (List.append_nil _).symm
      · rw [Scheduled, Scheduled, deliver, hMoved.nacks,
          hMoved.queued]
        exact id

/- A packet at or past the tail is handed on by then. -/
theorem Right.delivered_processData
    (h : r.Right)
    (now : Timeval)
    {pkt : RtPkt α}
    (hOpen : r.recvTail ≤ pkt.seqNo) :
    (r.processData now pkt).Delivered pkt.seqNo := by
  rw [RtReceiver.processData, if_neg (by omega)]
  split
  · next hSeen =>
      exact (h.tells _ hOpen hSeen.1).mp hSeen.2
  · rw [Delivered, deliver, List.map_append]
    exact
      List.mem_append_right _ (List.mem_singleton.mpr rfl)

/- A number below the tail is never handed on again. -/
theorem Right.given_up
    {i : Nat}
    (h : r.Right)
    (hPast : i < r.recvTail)
    (hNot : ¬ r.Delivered i)
    (now : Timeval)
    (pkt : RtPkt α) :
    i < (r.processData now pkt).recvTail ∧
      ¬ (r.processData now pkt).Delivered i := by
  by_cases hThis : pkt.seqNo = i
  · have hOld : pkt.seqNo < r.recvTail := by omega
    rw [RtReceiver.processData, if_pos hOld]
    exact ⟨hPast, hNot⟩
  rcases h.processData now pkt with hSame | hHands
  · rw [hSame]
    exact ⟨hPast, hNot⟩
  · refine ⟨Nat.lt_of_lt_of_le hPast hHands.tail, ?_⟩
    rw [Delivered, hHands.delivered, List.map_append,
      List.mem_append]
    rintro (hBefore | hNow)
    · exact hNot hBefore
    · exact hThis (List.mem_singleton.mp hNow).symm

end RtReceiver

end P4

end Cs2520
