import Cs2520.P1.Echoes
import Cs2520.P1.SendWindow

/-
  One sender and the receiver that accepted it, joined by a
  network that may lose, duplicate, delay and reorder.

  `Session.Inv` ties both windows and everything in flight
  together: the receiver assembles the sender's chunks, the
  sender's window starts no later than `C_ack + 1`, and no
  echo acknowledges more than `C_ack`.

  Main declarations:
    * `sender`
    * `receiver`
    * `Accepted`
    * `Inv`
    * `Inv.left`
    * `Inv.right`
    * `inv_of_reachable`
    * `written_eq_chunks`
-/

------------------------------------------------------------
-- The Joined System
------------------------------------------------------------

namespace Cs2520

namespace P1

namespace Session

open Lib

variable {A α : Type} [DecidableEq A]
variable (file : Nat → α × Int)
variable (canOpen : α → Bool)
variable (a : A)

/- The payload of packet `i`, read by the i-th `read`. -/
def payload
    (i : Int) : α :=
  (file (i - 1).toNat).1

/- The sender's invariants at these payloads. -/
abbrev Chunk (last : Int) : Packet α → Prop :=
  Ncp.Chunk (Wire.opaquePayload α) file last

abbrev Built (last : Int) : Packet α → Prop :=
  Ncp.Built (Wire.opaquePayload α) file last

abbrev Loaded : Ncp α → Prop :=
  Ncp.Loaded (Wire.opaquePayload α) file

/- Both processes, all echoes and all packets sent. -/
abbrev Net (A α : Type) :=
  Link (Ncp α) (Rcv A α) Uhdr (Packet α)

/- An input to either process. -/
abbrev Act (A α : Type) := Ncp.Ev ⊕ Rcv.Ev A α

/- The sender takes echoes and sends packets. -/
def sender :
    Endpoint (Ncp α) Ncp.Ev (Packet α) Uhdr (Packet α) :=
  { Ncp.machine (Wire.opaquePayload α) file with
    consumes := Ncp.Ev.echo?
    emits := id }

/- The packet of `a` that a pass of the receiver takes. -/
def packet? :
    Rcv.Ev A α → Option (Packet α)
  | .timer => none
  | .recv fromAddr pkt =>
      if fromAddr = a then some pkt else none

/- The echo to `a` in an output. -/
def echoTo? :
    Rcv.Out A α → Option Uhdr
  | .sendto dest hdr =>
      if dest = a then some hdr else none
  | _ => none

/-
  The receiver as the sender at address `a` sees it.
  Datagrams from other addresses may come at any time.
-/
def receiver :
    Endpoint (Rcv A α) (Rcv.Ev A α) (Rcv.Out A α)
      (Packet α) Uhdr :=
  { Rcv.opaqueMachine canOpen with
    consumes := packet? a
    emits := List.filterMap (echoTo? a) }

/-
  The receiver has just accepted the sender's filename. The
  packets sent so far are filenames, the echoes sent so far
  acknowledge nothing.
-/
structure Accepted
    (s : Net A α) : Prop where
  fresh : Ncp.Fresh s.left
  accepts :
    ∃ r name,
      Rcv.Accepts (Wire.opaquePayload α) canOpen r name ∧
        s.right =
          ((Rcv.opaqueMachine canOpen).step r
            (.recv a name)).1
  names : ∀ p ∈ s.toRight, p.hdr.seq = 0
  echoes : ∀ e ∈ s.toLeft, e.cack ≤ 0

/- Both processes started afresh, and one filename passed. -/
def begun
    (name : Packet α) : Net A α :=
  { left := Ncp.initial name (fun _ => name)
    right :=
      ((Rcv.opaqueMachine canOpen).step
        (Rcv.initial a name name.hdr (fun _ => name))
        (.recv a name)).1
    toLeft := [{ name.hdr with cack := 0 }]
    toRight := [name] }

theorem accepted_begun
    {name : Packet α}
    (hName : name.hdr.seq = 0)
    (hOpens : canOpen name.data = true) :
    Accepted canOpen a (begun canOpen a name) where
  fresh := Ncp.fresh_initial name _
  accepts := ⟨_, name, ⟨rfl, rfl, hName, hOpens⟩, rfl⟩
  names := by simp [begun, hName]
  echoes := by simp [begun]

/- The receiver has not handled the number -1 yet. -/
def Open
    (s : Net A α)
    (_ : Act A α) : Prop :=
  s.right.hassender = true

instance (s : Net A α) (act : Act A α) :
    Decidable (Open s act) :=
  inferInstanceAs (Decidable (_ = true))

end Session

end P1

end Cs2520

------------------------------------------------------------
-- The Invariant
------------------------------------------------------------

namespace Cs2520

namespace P1

namespace Session

open Lib

variable {A α : Type}
variable {file : Nat → α × Int}
variable {a : A}

/-
  `head - 1 ≤ C_ack` is the sender's knowledge of the
  receiver, and keeps the receiver from ever being full.
-/
structure Inv
    (file : Nat → α × Int)
    (a : A)
    (s : Net A α) : Prop where
  assembled :
    Rcv.Assembled (Chunk file s.left.last) s.right
  running : s.right.exited = false
  current : s.right.current = a
  phase :
    Ncp.Fresh s.left ∨
      (Loaded file s.left ∧
        s.left.head - 1 ≤ s.right.cAck)
  sent : ∀ p ∈ s.toRight, Built file s.left.last p
  echoed : ∀ e ∈ s.toLeft, e.cack ≤ s.right.cAck

theorem last_nonneg
    {n : Ncp α}
    (hPhase : Ncp.Fresh n ∨ Loaded file n) :
    0 ≤ n.last := by
  rcases hPhase with hFresh | hLoaded
  · exact hFresh.last_eq.ge
  · have hPos := hLoaded.head_pos
    have hLe := hLoaded.head_le
    rw [hLoaded.last_eq]
    omega

/- The file is numbered by chunks, so `C_ack` is one. -/
theorem cAck_le_last
    {last : Int}
    {r : Rcv A α}
    (h : Rcv.Assembled (Chunk file last) r)
    (hLast : 0 ≤ last) :
    r.cAck ≤ last := by
  have hCount := h.count
  rcases Nat.eq_zero_or_pos r.fw.length with hZero | hPos
  · omega
  · rcases h.file (r.fw.length - 1) (by omega) with
      ⟨p, hChunk, hSeq, _⟩
    have hRange := hChunk.range
    omega

theorem Inv.last_nonneg
    {s : Net A α}
    (h : Inv file a s) :
    0 ≤ s.left.last :=
  Session.last_nonneg (h.phase.imp_right And.left)

theorem Inv.cAck_le
    {s : Net A α}
    (h : Inv file a s) :
    s.right.cAck ≤ s.left.last :=
  cAck_le_last h.assembled h.last_nonneg

/-
  The sender's window ends before `C_ack + WINDOW_SIZE + 1`,
  so the slot of that number is free.
-/
theorem Inv.not_full
    {s : Net A α}
    (h : Inv file a s)
    (e : Rcv.Ev A α) :
    ¬ Rcv.FullAtExpected s.right e := by
  intro hFull
  have hNonneg := h.assembled.cAck_nonneg
  have hLast :
      s.left.last < s.right.cAck + 1 + windowSize := by
    rcases h.phase with hFresh | ⟨hLoaded, hHead⟩
    · rw [hFresh.last_eq]
      simp only [windowSize]
      omega
    · have hSpan := hLoaded.span
      rw [hLoaded.last_eq]
      omega
  cases e with
  | timer => exact hFull
  | recv addr pkt =>
      have hRange :=
        RingBuffer.Holds.slot_range Rcv.windowSize_pos
          (s.right.cAck + 1 + windowSize)
      have hSet :=
        h.assembled.ring.set_of_full hFull.2 hRange
      have hKey :=
        h.assembled.ring.key_eq Rcv.windowSize_pos
          (by simp only [windowSize]; omega)
          (by omega) hSet
      have hSlot :=
        h.assembled.ring.slot _ hRange.1 hRange.2 hSet
      have hChunk := hSlot.2.2.2.range
      omega

end Session

end P1

end Cs2520

------------------------------------------------------------
-- One Step of Either Side
------------------------------------------------------------

namespace Cs2520

namespace P1

namespace Session

open Lib

variable {A α : Type} [DecidableEq A]
variable {file : Nat → α × Int}
variable {canOpen : α → Bool}
variable {a : A}

/-
  One pass of the sender on an echo of at most `ack`: its
  window stays loaded and starts no later than `ack + 1`.
-/
theorem step_phase
    {n : Ncp α}
    {ack : Int}
    (hPhase :
      Ncp.Fresh n ∨
        (Loaded file n ∧ n.head - 1 ≤ ack))
    (hNonneg : 0 ≤ ack)
    (hLe : ack ≤ n.last)
    {e : Ncp.Ev}
    (hEcho :
      ∀ hdr, e.echo? = some hdr → hdr.cack ≤ ack) :
    let res := Ncp.step (Wire.opaquePayload α) file n e
    (Ncp.Fresh res.1 ∨
        (Loaded file res.1 ∧
          res.1.head - 1 ≤ ack)) ∧
      n.last ≤ res.1.last ∧
      ∀ p ∈ res.2, Built file res.1.last p := by
  rcases hPhase with hFresh | ⟨hLoaded, hHead⟩
  · rcases Ncp.step_fresh (Wire.opaquePayload α) file
        hFresh e with
      ⟨hNext, hSent⟩
    refine ⟨?_, ?_, hSent⟩
    · rcases hNext with hFresh' | ⟨hLoaded', hOne, _⟩
      · exact Or.inl hFresh'
      · exact Or.inr ⟨hLoaded', by omega⟩
    · rw [hFresh.last_eq]
      exact last_nonneg (hNext.imp_right And.left)
  · rw [hLoaded.last_eq] at hLe
    have hAdvances :=
      Ncp.step_loaded hLoaded e
        (fun hdr hSome => (hEcho hdr hSome).trans hLe)
    refine ⟨Or.inr ⟨hAdvances.loaded, ?_⟩, ?_, ?_⟩
    · rcases hAdvances.head with hKept | ⟨hdr, hSome, hTo⟩
      · omega
      · have hCack := hEcho hdr hSome
        omega
    · rw [hLoaded.last_eq, hAdvances.loaded.last_eq]
      exact hAdvances.tail
    · rw [hAdvances.loaded.last_eq]
      exact hAdvances.sent

theorem Inv.left
    {s : Net A α}
    (h : Inv file a s)
    {e : Ncp.Ev}
    (hEnabled :
      Link.Enabled (sender file) (receiver canOpen a) s
        (.inl e)) :
    Inv file a
      (s.act (sender file) (receiver canOpen a)
        (.inl e)) := by
  rcases step_phase h.phase h.assembled.cAck_nonneg
      h.cAck_le
      (fun hdr hSome => h.echoed hdr (hEnabled hdr hSome))
    with ⟨hPhase, hLast, hSent⟩
  refine
    ⟨?_, h.running, h.current, hPhase, ?_, h.echoed⟩
  · exact h.assembled.mono (fun p hp => hp.mono _ file hLast)
  · intro p hp
    rcases List.mem_append.mp hp with hOld | hNew
    · exact (h.sent p hOld).mono _ file hLast
    · exact hSent p hNew

/- An echo to `a` acknowledges no more than `C_ack`. -/
theorem echoed_le
    {r : Rcv A α}
    (hServes : Rcv.Serves r a)
    {e : Rcv.Ev A α}
    {hdr : Uhdr}
    (hSend :
      Rcv.Out.sendto a hdr ∈
        ((Rcv.opaqueMachine canOpen).step r e).2) :
    hdr.cack ≤
      ((Rcv.opaqueMachine canOpen).step r e).1.cAck := by
  have hLe :=
    hServes.cAck_le (Wire.opaquePayload α) canOpen e
  cases Rcv.echoOf_of_sendto _ _ hSend with
  | timer _ hCack => exact hCack.le.trans hLe
  | accepted hAccepts _ =>
      have hIdle := hAccepts.idle
      rw [hServes.hassender] at hIdle
      cases hIdle
  | busy _ hOther _ => exact (hOther hServes.current).elim
  | data _ _ hCack => exact hCack.le

theorem Inv.right
    {s : Net A α}
    (h : Inv file a s)
    {e : Rcv.Ev A α}
    (hEnabled :
      Link.Enabled (sender file) (receiver canOpen a) s
        (.inr e))
    (hOpen : s.right.hassender = true) :
    Inv file a
      (s.act (sender file) (receiver canOpen a)
        (.inr e)) := by
  have hServes : Rcv.Serves s.right a :=
    ⟨h.running, hOpen, h.current⟩
  have hFrame :=
    hServes.step_frame (Wire.opaquePayload α) canOpen e
  have hGrow :=
    hServes.cAck_le (Wire.opaquePayload α) canOpen e
  refine
    ⟨?_, hFrame.1, hFrame.2, ?_, h.sent, ?_⟩
  · apply h.assembled.step _ _ hServes _ (h.not_full e)
    rintro pkt rfl hAhead
    have hNonneg := h.assembled.cAck_nonneg
    have hTaken : pkt ∈ s.toRight :=
      hEnabled pkt (by simp [receiver, packet?])
    rcases h.sent pkt hTaken with hZero | hEnd | hChunk
    · omega
    · omega
    · exact hChunk
  · exact h.phase.imp_right
      (fun hLoaded => ⟨hLoaded.1, hLoaded.2.trans hGrow⟩)
  · intro hdr hMem
    rcases List.mem_append.mp hMem with hOld | hNew
    · exact (h.echoed hdr hOld).trans hGrow
    · rcases List.mem_filterMap.mp hNew with
        ⟨out, hOut, hTo⟩
      cases out with
      | sendto dest hdr' =>
          rw [echoTo?] at hTo
          split at hTo
          · next hDest =>
              cases hTo
              subst hDest
              exact echoed_le hServes hOut
          · cases hTo
      | fopen name => cases hTo
      | printData data => cases hTo
      | printSlot k data => cases hTo

theorem Accepted.inv
    {s : Net A α}
    (h : Accepted canOpen a s) :
    Inv file a s := by
  rcases h with ⟨hFresh, ⟨r, name, hAccepts, hRight⟩,
    hNames, hEchoes⟩
  rcases Rcv.step_accept (Wire.opaquePayload α)
      (Chunk file s.left.last) canOpen a hAccepts with
    ⟨hServes, hAssembled, _, hZero⟩
  have hRight' :
      s.right =
        (Rcv.step (Wire.opaquePayload α) canOpen r
          (.recv a name)).1 := hRight
  rw [← hRight'] at hServes hAssembled hZero
  refine
    ⟨hAssembled, hServes.running, hServes.current,
      Or.inl hFresh, ?_, ?_⟩
  · intro p hp
    exact Or.inl (hNames p hp)
  · intro e he
    rw [hZero]
    exact hEchoes e he

/- Every state of a session satisfies the invariant. -/
theorem inv_of_reachable
    {guard : Net A α → Act A α → Prop}
    (hGuard : ∀ s act, guard s act → Open s act)
    {s : Net A α}
    (hReach :
      Link.Reachable (sender file) (receiver canOpen a)
        (Accepted canOpen a) guard s) :
    Inv file a s := by
  refine
    hReach.invariant (Inv file a)
      (fun s hStart => hStart.inv) ?_
  intro s act hInv hEnabled hOk
  cases act with
  | inl e => exact hInv.left hEnabled
  | inr e =>
      exact hInv.right hEnabled (hGuard s _ hOk)

end Session

end P1

end Cs2520

------------------------------------------------------------
-- Safety
------------------------------------------------------------

namespace Cs2520

namespace P1

namespace Session

open Lib

variable {A α : Type} [DecidableEq A]
variable {file : Nat → α × Int}
variable {canOpen : α → Bool}
variable {a : A}

/- Every copy of a chunk carries what was read. -/
omit [DecidableEq A] in
theorem data_of_chunk
    {last : Int}
    {p : Packet α}
    (h : Chunk file last p) :
    p.data = payload file p.hdr.seq := by
  have hData := h.data
  generalize p.data = d at hData
  cases hData with
  | first old => rfl
  | again old => rfl

/- A file numbered by chunks is the list of these chunks. -/
theorem fw_eq_of_numbered
    {last : Int}
    {fw : List α}
    (h : Rcv.Numbered (Chunk file last) fw) :
    fw = (List.range fw.length).map
      (fun i : Nat => payload file (i + 1)) := by
  apply List.ext_getElem
  · simp
  · intro i hi _
    rcases h i hi with ⟨p, hChunk, hSeq, hData⟩
    rw [← hData, data_of_chunk hChunk, hSeq]
    simp

/-
  The file is the chunks 1 .. `C_ack` in their order, where
  every numbered packet carries the chunk of its number.
-/
theorem written_eq_chunks
    {s : Net A α}
    (hReach :
      Link.Reachable (sender file) (receiver canOpen a)
        (Accepted canOpen a) Open s) :
    s.right.fw =
        (List.range s.right.cAck.toNat).map
          (fun i : Nat => payload file (i + 1)) ∧
      0 ≤ s.right.cAck ∧
      s.right.cAck ≤ s.left.reads ∧
      ∀ p ∈ s.toRight, 1 ≤ p.hdr.seq →
        p.data = payload file p.hdr.seq := by
  have hInv := inv_of_reachable (fun _ _ h => h) hReach
  have hNonneg := hInv.assembled.cAck_nonneg
  have hCount := hInv.assembled.count
  refine ⟨?_, hNonneg, ?_, ?_⟩
  · have hFile := fw_eq_of_numbered hInv.assembled.file
    have hLength : s.right.cAck.toNat = s.right.fw.length := by
      omega
    rw [hLength]
    exact hFile
  · have hLe := hInv.cAck_le
    rcases hInv.phase with hFresh | ⟨hLoaded, _⟩
    · rw [hFresh.last_eq] at hLe
      omega
    · have hReads := hLoaded.filled.reads
      rw [hLoaded.last_eq] at hLe
      omega
  · intro p hp hPos
    rcases hInv.sent p hp with hZero | hEnd | hChunk
    · omega
    · omega
    · exact data_of_chunk hChunk

/- Packets 2 and 1 arrive after the first window is sent. -/
def twoSwapped : List (Act Unit Nat) :=
  [.inl (.echo (chunkPacket 0).hdr true),
    .inr (.recv () (chunkPacket 2)),
    .inr (.recv () (chunkPacket 1))]

theorem written_eq_chunks_swapped :
    let s :=
      Link.runActs (sender (chunksOf 5))
        (receiver (fun _ => true) ())
        (begun (fun _ => true) () (chunkPacket 0))
        twoSwapped
    s.right.cAck = 2 ∧
      s.right.fw =
        (List.range s.right.cAck.toNat).map
          (fun i : Nat =>
            payload (chunksOf 5) (i + 1)) :=
  ⟨by decide +kernel,
    (written_eq_chunks
      (Link.reachable_runActs
        (.start (accepted_begun _ () rfl rfl))
        (by decide +kernel))).1⟩

end Session

end P1

end Cs2520
