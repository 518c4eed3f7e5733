import Cs2520.Lib.Bytes
import Cs2520.P1.Echoes
import Cs2520.P1.SendWindow

/-
  The bytes that the receiver prints for a chunk.

  Sender and receiver mark the end of a payload by a zero
  byte. A first transmission leaves that byte out, and the
  receiver's buffer is not cleared in between.

  Main declarations:
    * `PrintedFrom`
    * `printedFrom_eq`
    * `Wire.byteBuffers`
    * `chunk_printed_iff`
    * `stale_tail_printed`
-/

------------------------------------------------------------
-- From Arrival to the File
------------------------------------------------------------

namespace Cs2520

namespace P1

namespace Rcv

open Lib

variable {A ρ δ β : Type}
variable (w : Wire ρ δ β)

/- A slot that is left in use keeps its packet. -/
theorem takeSlot_slot
    (r : Rcv A β)
    (i : Int)
    {k : Int}
    (hSet : (r.takeSlot w i).buffer k = true) :
    r.buffer k = true ∧
      (r.takeSlot w i).window k = r.window k := by
  rw [takeSlot_buffer] at hSet
  have hNe : k ≠ i := by
    rintro rfl
    rw [Function.update_self] at hSet
    cases hSet
  rw [Function.update_of_ne hNe] at hSet
  exact ⟨hSet, Function.update_of_ne hNe _ _⟩

/- Draining frees slots and changes no slot it leaves. -/
theorem drain_slot
    (n : Nat)
    (j : Int)
    (r : Rcv A β)
    {k : Int}
    (hSet : (drain w n j r).1.buffer k = true) :
    r.buffer k = true ∧
      (drain w n j r).1.window k = r.window k := by
  induction n generalizing j r with
  | zero => exact ⟨hSet, rfl⟩
  | succ n ih =>
      by_cases hGo :
          0 < r.buffersize ∧
            r.buffer (j % windowSize) = true
      · rw [drain_take w hGo] at hSet ⊢
        rcases ih (j + 1) (r.takeSlot w (j % windowSize))
            hSet with ⟨hLeft, hKept⟩
        rcases takeSlot_slot w r _ hLeft with
          ⟨hBefore, hSlot⟩
        exact ⟨hBefore, hKept.trans hSlot⟩
      · rw [drain_halt w hGo] at hSet ⊢
        exact ⟨hSet, rfl⟩

/- What is printed from a slot is what the slot held. -/
theorem printSlot_of_drain
    (n : Nat)
    (j : Int)
    (r : Rcv A β)
    {k : Int}
    {buf : β}
    (hMem : Out.printSlot k buf ∈ (drain w n j r).2) :
    r.buffer k = true ∧ buf = (r.window k).data := by
  induction n generalizing j r with
  | zero => cases hMem
  | succ n ih =>
      by_cases hGo :
          0 < r.buffersize ∧
            r.buffer (j % windowSize) = true
      · rw [drain_take w hGo] at hMem
        rcases List.mem_cons.mp hMem with hHead | hRest
        · cases hHead
          exact ⟨hGo.2, rfl⟩
        · rcases ih (j + 1)
              (r.takeSlot w (j % windowSize)) hRest with
            ⟨hLeft, hData⟩
          rcases takeSlot_slot w r _ hLeft with
            ⟨hBefore, hSlot⟩
          rw [hSlot] at hData
          exact ⟨hBefore, hData⟩
      · rw [drain_halt w hGo] at hMem
        cases hMem

theorem not_printData_of_drain
    (n : Nat)
    (j : Int)
    (r : Rcv A β)
    (buf : β) :
    Out.printData buf ∉ (drain w n j r).2 := by
  intro hMem
  rcases mem_drain w hMem with ⟨_, _, hPrint⟩
  cases hPrint

/- Case 1 prints the message and slots in use. -/
theorem printed_of_expected
    (r : Rcv A β)
    (buf : β) :
    (Out.printData buf ∈ (r.expected w).2 ↔
        buf = r.messBuf.data) ∧
      ∀ k, Out.printSlot k buf ∈ (r.expected w).2 →
        r.buffer k = true ∧ buf = (r.window k).data := by
  unfold expected
  by_cases hEmpty : r.buffersize = 0
  · rw [if_pos hEmpty]
    simp [echo]
  · rw [if_neg hEmpty]
    refine ⟨?_, ?_⟩
    · simp [echo, not_printData_of_drain]
    · intro k hMem
      simp only [echo, List.mem_cons, List.mem_append,
        reduceCtorEq, false_or, List.not_mem_nil, or_false]
        at hMem
      exact printSlot_of_drain w _ _ (r.printData w) hMem

theorem expected_slot
    (r : Rcv A β)
    {k : Int}
    (hSet : (r.expected w).1.buffer k = true) :
    r.buffer k = true ∧
      (r.expected w).1.window k = r.window k := by
  have hRing := (expected_agrees w r).1
  rw [hRing] at hSet ⊢
  exact drain_slot w _ _ (r.printData w) hSet

/- Case 2 fills a free slot with the message or none. -/
theorem outOfOrder_slot
    (r : Rcv A β)
    {k : Int}
    (hSet : r.outOfOrder.1.buffer k = true) :
    (r.buffer k = true ∧
        r.outOfOrder.1.window k = r.window k) ∨
      (r.buffer k = false ∧
        r.outOfOrder.1.window k = r.messBuf) := by
  obtain ⟨ring, hRing⟩ :
      ∃ ring, ring = r.outOfOrder.1.toRingBuffer :=
    ⟨_, rfl⟩
  have hCases :
      ring = r.toRingBuffer ∨
        (r.buffer (r.messBuf.hdr.seq % windowSize) = false ∧
          ring =
            r.toRingBuffer.store
              (r.messBuf.hdr.seq % windowSize)
              r.messBuf) := by
    rw [hRing]
    unfold outOfOrder
    dsimp only
    split
    · split
      · next hFree =>
          right
          refine ⟨hFree, ?_⟩
          split
          · split <;> rfl
          · rfl
      · exact Or.inl rfl
    · exact Or.inl rfl
  rw [← hRing] at hSet ⊢
  rcases hCases with rfl | ⟨hFree, rfl⟩
  · exact Or.inl ⟨hSet, rfl⟩
  · simp only [RingBuffer.store] at hSet ⊢
    by_cases hSame : k = r.messBuf.hdr.seq % windowSize
    · subst hSame
      exact Or.inr ⟨hFree, Function.update_self _ _ _⟩
    · rw [Function.update_of_ne hSame] at hSet ⊢
      exact Or.inl ⟨hSet, rfl⟩

theorem not_print_of_outOfOrder
    (r : Rcv A β)
    (buf : β) :
    Out.printData buf ∉ r.outOfOrder.2 ∧
      ∀ k, Out.printSlot k buf ∉ r.outOfOrder.2 := by
  unfold outOfOrder
  dsimp only [echo]
  split_ifs <;> simp

variable [DecidableEq A]
variable (canOpen : β → Bool)

/-
  A slot in use after a pass was in use before with the same
  content, or it has just received the datagram.
-/
theorem step_slot
    {r : Rcv A β}
    {e : Ev A δ}
    {k : Int}
    (hSet : (step w canOpen r e).1.buffer k = true) :
    (r.buffer k = true ∧
        (step w canOpen r e).1.window k = r.window k) ∨
      (r.buffer k = false ∧
        ∃ a pkt, e = .recv a pkt ∧
          (step w canOpen r e).1.window k =
            (r.recvfrom w a pkt).messBuf) := by
  have hPass := step_pass w canOpen r e
  generalize step w canOpen r e = res at hPass hSet ⊢
  cases hPass with
  | exited _ => exact Or.inl ⟨hSet, rfl⟩
  | timer _ =>
      left
      rw [timer] at hSet ⊢
      split at hSet
      · next hOpen =>
          rw [if_pos hOpen]
          exact ⟨hSet, rfl⟩
      · next hIdle =>
          rw [if_neg hIdle]
          exact ⟨hSet, rfl⟩
  | ignored _ _ _ => exact Or.inl ⟨hSet, rfl⟩
  | accept _ _ _ =>
      left
      unfold accept at hSet ⊢
      dsimp only [echo] at hSet ⊢
      split at hSet
      · cases hSet
      · next hCan =>
          rw [if_neg hCan]
          exact ⟨hSet, rfl⟩
  | busy _ _ => exact Or.inl ⟨hSet, rfl⟩
  | finish _ _ => exact Or.inl ⟨hSet, rfl⟩
  | @expected a pkt _ _ _ =>
      exact Or.inl (expected_slot w (r.recvfrom w a pkt) hSet)
  | @outOfOrder a pkt _ _ _ =>
      rcases outOfOrder_slot (r.recvfrom w a pkt) hSet with
        hKept | ⟨hFree, hStored⟩
      · exact Or.inl hKept
      · exact Or.inr ⟨hFree, a, pkt, rfl, hStored⟩

/- What a pass prints: the datagram, or a slot in use. -/
theorem printed_of_step
    {r : Rcv A β}
    {e : Ev A δ}
    {buf : β} :
    (Out.printData buf ∈ (step w canOpen r e).2 →
        ∃ a pkt, e = .recv a pkt ∧
          buf = (r.recvfrom w a pkt).messBuf.data) ∧
      ∀ k, Out.printSlot k buf ∈ (step w canOpen r e).2 →
        r.buffer k = true ∧ buf = (r.window k).data := by
  have hPass := step_pass w canOpen r e
  generalize step w canOpen r e = res at hPass ⊢
  cases hPass with
  | exited _ => simp
  | timer _ =>
      rw [timer]
      split <;> simp [echo]
  | ignored _ _ _ => simp
  | accept _ _ _ =>
      unfold accept
      dsimp only [echo]
      split <;> simp
  | busy _ _ => simp [Rcv.busy, echo]
  | finish _ _ => simp
  | @expected a pkt _ _ _ =>
      have hPrinted :=
        printed_of_expected w (r.recvfrom w a pkt) buf
      exact
        ⟨fun hMem =>
          ⟨a, pkt, rfl, hPrinted.1.mp hMem⟩, hPrinted.2⟩
  | @outOfOrder a pkt _ _ _ =>
      have hNone :=
        not_print_of_outOfOrder (r.recvfrom w a pkt) buf
      exact
        ⟨fun hMem => (hNone.1 hMem).elim,
          fun k hMem => (hNone.2 k hMem).elim⟩

/-
  The ways from a datagram to the file: it is printed from
  the message buffer when it arrives, or it goes into its
  slot, stays there for a while, and is printed from there.
-/
inductive PrintedFrom
    (r : Rcv A β)
    (a : A)
    (pkt : Packet δ) : β → Prop where
| direct {buf} :
    Out.printData buf ∈
      (step w canOpen r (.recv a pkt)).2 →
    PrintedFrom r a pkt buf
| buffered {es e buf} :
    r.buffer (pkt.hdr.seq % windowSize) = false →
    (∀ pre, pre <+: es →
      ((machine w canOpen).run
        (step w canOpen r (.recv a pkt)).1 pre).buffer
          (pkt.hdr.seq % windowSize) = true) →
    Out.printSlot (pkt.hdr.seq % windowSize) buf ∈
      (step w canOpen
        ((machine w canOpen).run
          (step w canOpen r (.recv a pkt)).1 es) e).2 →
    PrintedFrom r a pkt buf

/- A slot that stays in use keeps its content. -/
theorem run_slot
    {r : Rcv A β}
    {k : Int}
    {es : List (Ev A δ)}
    (hStays :
      ∀ pre, pre <+: es →
        ((machine w canOpen).run r pre).buffer k = true) :
    ((machine w canOpen).run r es).window k =
      r.window k := by
  induction es generalizing r with
  | nil => rfl
  | cons e es ih =>
      have hNow : r.buffer k = true :=
        hStays [] List.nil_prefix
      have hNext :
          (step w canOpen r e).1.buffer k = true :=
        hStays [e] ⟨es, rfl⟩
      have hRest :=
        ih (r := (step w canOpen r e).1) (by
          intro pre hPre
          exact
            hStays (e :: pre)
              (List.cons_prefix_cons.mpr ⟨rfl, hPre⟩))
      rcases step_slot w canOpen hNext with
        ⟨_, hKept⟩ | ⟨hFree, _⟩
      · exact hRest.trans hKept
      · rw [hNow] at hFree
        cases hFree

/-
  Either way the datagram is printed as `recvfrom` left it in
  the message buffer.
-/
theorem printedFrom_eq
    {r : Rcv A β}
    {a : A}
    {pkt : Packet δ}
    {buf : β}
    (h : PrintedFrom w canOpen r a pkt buf) :
    buf = w.recvfrom r.messBuf.data pkt.data := by
  cases h with
  | direct hMem =>
      rcases (printed_of_step w canOpen).1 hMem with
        ⟨_, _, hEv, hData⟩
      cases hEv
      exact hData
  | buffered hFree hStays hMem =>
      have hData :=
        ((printed_of_step w canOpen).2 _ hMem).2
      rw [hData, run_slot w canOpen hStays]
      have hStored := hStays [] List.nil_prefix
      rcases step_slot w canOpen hStored with
        ⟨hBefore, _⟩ | ⟨_, _, _, hEv, hSlot⟩
      · rw [hFree] at hBefore
        cases hBefore
      · cases hEv
        rw [hSlot]
        rfl

/- The expected packet is printed when it arrives. -/
theorem printedFrom_expected
    {r : Rcv A β}
    {a : A}
    (hServes : Serves r a)
    {pkt : Packet δ}
    (hData : pkt.hdr.seq ≠ -1)
    (hSeq : pkt.hdr.seq = r.cAck + 1) :
    PrintedFrom w canOpen r a pkt
      (w.recvfrom r.messBuf.data pkt.data) := by
  apply PrintedFrom.direct
  rw [step_data w canOpen hServes hData, if_pos hSeq]
  exact
    (printed_of_expected w (r.recvfrom w a pkt) _).1.mpr rfl

end Rcv

end P1

end Cs2520

------------------------------------------------------------
-- Bytes
------------------------------------------------------------

namespace Cs2520

namespace P1

open Lib

/- The contents of a `data_buf`. -/
abbrev DataBuf := Block UInt8 dataSize

/- The bytes that one `read` returns. -/
structure FileChunk where
  bytes : List UInt8
  size : bytes.length ≤ chunkSize

/- What `fprintf(fw, "%s", data_buf)` writes. -/
def DataBuf.printed
    (b : DataBuf) : Option (List UInt8) :=
  cString 0 b.bytes

/-
  Payloads as bytes. A failed `read` returns -1 and leaves
  the buffer. `sizeof(data_buf)` is the size of a pointer.
-/
def Wire.byteBuffers :
    Wire (Option FileChunk) (List UInt8) DataBuf where
  read := fun b r =>
    match r with
    | none => b
    | some c => b.write (c.bytes ++ [0])
  bytes := fun r =>
    match r with
    | none => -1
    | some c => c.bytes.length
  text := fun b => Lib.text 0 b.bytes
  whole := fun b => b.bytes
  recvfrom := fun b d => b.write d
  bzero := fun b => b.write (List.replicate pointerSize 0)

/- A chunk and its zero byte fit into every buffer. -/
theorem read_bytes
    (old : DataBuf)
    (c : FileChunk) :
    (Wire.byteBuffers.read old (some c)).bytes =
      c.bytes ++ 0 :: old.bytes.drop (c.bytes.length + 1) := by
  have hSize := old.size
  have hChunk := c.size
  simp only [chunkSize, maxMessLen, uhdrSize, dataSize]
    at hSize hChunk
  have hFits :
      (c.bytes ++ [0]).length ≤ old.bytes.length := by
    simp only [List.length_append, List.length_singleton]
    omega
  change overlay old.bytes (c.bytes ++ [0]) = _
  rw [overlay_eq_append hFits]
  simp

end P1

end Cs2520

------------------------------------------------------------
-- Chunks in the File
------------------------------------------------------------

namespace Cs2520

namespace P1

namespace Rcv

open Lib

variable {A : Type} [DecidableEq A]
variable (canOpen : DataBuf → Bool)

/-
  What is printed for a chunk is the chunk exactly when it
  has no zero byte and, for a first transmission, a zero byte
  stands in the receiver's buffer right behind its end.
-/
theorem chunk_printed_iff
    (r : Rcv A DataBuf)
    (a : A)
    (hdr : Uhdr)
    (c : FileChunk)
    (old buf : DataBuf) :
    (PrintedFrom Wire.byteBuffers canOpen r a
          { hdr := hdr
            data :=
              Wire.byteBuffers.text
                (Wire.byteBuffers.read old (some c)) }
          buf →
        (buf.printed = some c.bytes ↔
          0 ∉ c.bytes ∧
            r.messBuf.data.bytes[c.bytes.length]? =
              some 0)) ∧
      (PrintedFrom Wire.byteBuffers canOpen r a
          { hdr := hdr
            data :=
              Wire.byteBuffers.whole
                (Wire.byteBuffers.read old (some c)) }
          buf →
        (buf.printed = some c.bytes ↔ 0 ∉ c.bytes)) := by
  have hSize := r.messBuf.data.size
  have hChunk := c.size
  simp only [chunkSize, maxMessLen, uhdrSize, dataSize]
    at hSize hChunk
  refine ⟨?_, ?_⟩
  · intro hPrinted
    have hBuf := printedFrom_eq _ canOpen hPrinted
    have hSent :
        Wire.byteBuffers.text
            (Wire.byteBuffers.read old (some c)) =
          text 0 c.bytes := by
      change text 0 _ = _
      rw [read_bytes, text_append_nul]
    have hFits :
        c.bytes.length < r.messBuf.data.bytes.length := by
      omega
    rw [hBuf, hSent]
    exact cString_overlay_iff 0 hFits
  · intro hPrinted
    have hBuf := printedFrom_eq _ canOpen hPrinted
    have hWhole :
        (Wire.byteBuffers.read old (some c)).bytes.length =
          r.messBuf.data.bytes.length := by
      rw [Block.size, Block.size]
    have hReplaced :
        overlay r.messBuf.data.bytes
            (Wire.byteBuffers.read old (some c)).bytes =
          c.bytes ++
            0 :: old.bytes.drop (c.bytes.length + 1) := by
      rw [overlay_of_length_eq hWhole, read_bytes]
    rw [hBuf]
    change
      cString 0
          (overlay r.messBuf.data.bytes
            (Wire.byteBuffers.read old (some c)).bytes) =
        _ ↔ _
    rw [hReplaced, cString_eq_some_iff]
    exact ⟨fun h => h.1, fun hText => ⟨hText, _, rfl⟩⟩

/- A cleared buffer with some bytes written to it. -/
def bufferOf
    (bytes : List UInt8) : DataBuf :=
  (Block.fill dataSize 0).write bytes

/- The file name "out", sent as a whole buffer. -/
def namePacket : Packet (List UInt8) :=
  { hdr := { cack := 0, nack := noNack, seq := 0 }
    data := (bufferOf [111, 117, 116]).bytes }

/- The receiver at its start. -/
def bytesWaiting : Rcv Unit DataBuf :=
  let name := { namePacket with data := bufferOf [] }
  initial () name name.hdr (fun _ => name)

/- A file of the single byte "h". -/
def oneByte : FileChunk where
  bytes := [104]
  size := by decide

/- The whole slot replaces what the buffer held. -/
theorem chunk_printed_iff_resent :
    let r :=
      ((machine Wire.byteBuffers (fun _ => true)).run
        bytesWaiting [.recv () namePacket])
    ((Wire.byteBuffers.recvfrom r.messBuf.data
        (Wire.byteBuffers.whole
          (Wire.byteBuffers.read (bufferOf [])
            (some oneByte)))).printed =
        some oneByte.bytes) :=
  ((chunk_printed_iff (fun _ => true) _ ()
      { cack := 0, nack := noNack, seq := 1 } oneByte
      (bufferOf []) _).2
    (printedFrom_expected _ _ ⟨rfl, rfl, rfl⟩
      (by decide) rfl)).mpr
    (by decide)

/-
  The first transmission of "h" lands on the file name "out"
  in the receiver's buffer, and "hut" is printed.
-/
theorem stale_tail_printed :
    ¬ ∀ (ds : List (Packet (List UInt8)))
        (hdr : Uhdr)
        (c : FileChunk)
        (old buf : DataBuf),
      PrintedFrom Wire.byteBuffers (fun _ => true)
          ((machine Wire.byteBuffers (fun _ => true)).run
            bytesWaiting (ds.map (Ev.recv ())))
          ()
          { hdr := hdr
            data :=
              Wire.byteBuffers.text
                (Wire.byteBuffers.read old (some c)) }
          buf →
        buf.printed = some c.bytes := by
  intro hAll
  have hPrinted :=
    hAll [namePacket]
      { cack := 0, nack := noNack, seq := 1 } oneByte
      (bufferOf [111, 117, 116]) _
      (printedFrom_expected _ _ ⟨rfl, rfl, rfl⟩
        (by decide) rfl)
  revert hPrinted
  decide +kernel

end Rcv

end P1

end Cs2520
