import Cs2520.P1.Payload
import Cs2520.P1.ReadLog

/-
  What the sender makes of the results of its `read` calls.

  A payload ends at its first zero byte. A failed call leaves
  the old text in the buffer, and it is sent once more. Only
  a short read ends the file, whatever made it short.

  Main declarations:
    * `payload`
    * `Call.Clean`
    * `SentAsRead`
    * `Log.payload_eq`
    * `sent_as_read_iff`
    * `chunk_sent_again`
-/

------------------------------------------------------------
-- Payloads and Results
------------------------------------------------------------

namespace Cs2520

namespace P1

namespace Ncp

open Lib

/- The payload of the first packet with number `i`. -/
def payload
    (sent : List (Packet (List UInt8)))
    (i : Int) : List UInt8 :=
  ((sent.find? (fun p => p.hdr.seq = i)).map
    (fun p => text 0 p.data)).getD []

/- The bytes that a call has returned. -/
def Call.returned
    (c : Call (Option FileChunk) DataBuf) : List UInt8 :=
  match c.result with
  | none => []
  | some x => x.bytes

/- The text in the buffer after a call. -/
def Call.text
    (c : Call (Option FileChunk) DataBuf) : List UInt8 :=
  Lib.text 0 (c.after Wire.byteBuffers).bytes

/-
  A chunk without zero bytes, or a failed call that finds no
  text in the buffer.
-/
def Call.Clean
    (c : Call (Option FileChunk) DataBuf) : Prop :=
  match c.result with
  | none => Lib.text 0 c.found.bytes = []
  | some x => 0 ∉ x.bytes

/- A call that returned fewer bytes than requested. -/
def Call.Short
    (c : Call (Option FileChunk) DataBuf) : Prop :=
  ∃ x, c.result = some x ∧ x.bytes.length < chunkSize

/-
  The packets carry what the calls returned, a failed call
  adds nothing, and the end of the file is found by a short
  read that met it. `ended k` says that call `k` did so.
-/
structure SentAsRead
    (ended : Nat → Prop)
    (calls : List (Call (Option FileChunk) DataBuf))
    (sent : List (Packet (List UInt8)))
    (n : Ncp DataBuf) : Prop where
  bytes :
    (List.range n.tail.toNat).flatMap
        (fun k : Nat => payload sent ((k : Int) + 1)) =
      calls.flatMap Call.returned
  failed :
    ∀ (k : Nat) c,
      calls[k]? = some c → c.result = none →
        payload sent ((k : Int) + 1) = []
  eof :
    n.eof = true →
      ∃ c, calls.getLast? = some c ∧ c.Short ∧
        ended (calls.length - 1)

theorem Call.text_eq
    (c : Call (Option FileChunk) DataBuf) :
    c.text =
      match c.result with
      | none => Lib.text 0 c.found.bytes
      | some x => Lib.text 0 x.bytes := by
  rcases c with ⟨found, result⟩
  cases result with
  | none => rfl
  | some x =>
      rw [Call.text, Call.after, read_bytes]
      exact text_append_nul 0 _ _

/- A clean call leaves exactly what it returned. -/
theorem Call.clean_iff
    (c : Call (Option FileChunk) DataBuf) :
    c.Clean ↔ c.text = c.returned := by
  rw [Call.text_eq, Call.Clean, Call.returned]
  cases c.result with
  | none => exact Iff.rfl
  | some x => exact (text_eq_self_iff 0 x.bytes).symm

theorem shortRead_iff
    (c : Call (Option FileChunk) DataBuf) :
    shortRead (Wire.byteBuffers.bytes c.result) = true ↔
      c.Short := by
  rw [shortRead, decide_eq_true_eq, Call.Short]
  cases c.result with
  | none =>
      -- as unsigned, -1 is not below the size of a chunk
      constructor
      · intro hLt
        exact absurd hLt (by decide)
      · rintro ⟨x, hX, _⟩
        cases hX
  | some x =>
      have hSize := x.size
      simp only [chunkSize, maxMessLen, uhdrSize] at hSize
      have hWrap :
          (x.bytes.length : Int) % 2 ^ 64 = x.bytes.length :=
        Int.emod_eq_of_lt (by omega) (by omega)
      change
        (x.bytes.length : Int) % 2 ^ 64 < (chunkSize : Int) ↔
          _
      rw [hWrap, Int.ofNat_lt]
      constructor
      · intro hLt
        exact ⟨x, rfl, hLt⟩
      · rintro ⟨x', hX, hLt⟩
        cases hX
        exact hLt

/-
  Calls together leave what they returned exactly when each
  of them is clean.
-/
theorem flatMap_text_iff
    (calls : List (Call (Option FileChunk) DataBuf)) :
    calls.flatMap Call.text = calls.flatMap Call.returned ↔
      ∀ c ∈ calls, c.Clean := by
  constructor
  · intro hSame
    have hNoZero : 0 ∉ calls.flatMap Call.returned := by
      rw [← hSame, List.mem_flatMap]
      rintro ⟨c, _, hZero⟩
      exact nul_notMem_text 0 _ hZero
    have hLe :
        ∀ c ∈ calls, c.returned.length ≤ c.text.length := by
      rintro ⟨found, result⟩ hMem
      cases result with
      | none => exact Nat.zero_le _
      | some x =>
          have hClean :
              ({ found := found, result := some x } :
                Call (Option FileChunk) DataBuf).Clean := by
            intro hZero
            exact
              hNoZero
                (List.mem_flatMap.mpr ⟨_, hMem, hZero⟩)
          exact
            (congrArg List.length
              ((Call.clean_iff _).mp hClean)).ge
    intro c hMem
    rw [Call.clean_iff]
    exact (flatMap_eq_iff hLe).mp hSame c hMem
  · intro hClean
    exact
      List.flatMap_congr
        (fun c hMem => (Call.clean_iff c).mp (hClean c hMem))

end Ncp

end P1

end Cs2520

------------------------------------------------------------
-- What Is Sent
------------------------------------------------------------

namespace Cs2520

namespace P1

namespace Ncp

open Lib

variable {calls : List (Call (Option FileChunk) DataBuf)}
variable {sent : List (Packet (List UInt8))}
variable {n : Ncp DataBuf}

/- A copy of a call carries the text that it left. -/
theorem Carries.text_eq
    {p : Packet (List UInt8)}
    (h : Carries Wire.byteBuffers calls p) :
    ∃ (k : Nat) (c : Call (Option FileChunk) DataBuf),
      calls[k]? = some c ∧
        p.hdr.seq = (k : Int) + 1 ∧
        Lib.text 0 p.data = c.text := by
  rcases h with ⟨k, c, hCall, hSeq, hText | hWhole⟩
  · refine ⟨k, c, hCall, hSeq, ?_⟩
    rw [hText]
    exact text_text 0 _
  · refine ⟨k, c, hCall, hSeq, ?_⟩
    rw [hWhole]
    rfl

/- All packets with one number carry the same payload. -/
theorem Log.payload_eq
    (h : Log Wire.byteBuffers calls sent n)
    {k : Nat}
    {c : Call (Option FileChunk) DataBuf}
    (hCall : calls[k]? = some c) :
    payload sent ((k : Int) + 1) = c.text := by
  have hLt := (List.getElem?_eq_some_iff.mp hCall).1
  rcases h.each k hLt with ⟨p, hMem, hSeq⟩
  obtain ⟨q, hFind⟩ :
      ∃ q, sent.find? (fun p => p.hdr.seq = (k : Int) + 1) =
        some q := by
    rw [← Option.isSome_iff_exists, List.find?_isSome]
    exact ⟨p, hMem, decide_eq_true hSeq⟩
  have hQ : q.hdr.seq = (k : Int) + 1 := by
    simpa using List.find?_some hFind
  rw [payload, hFind]
  rcases h.copies q (List.mem_of_find?_eq_some hFind) with
    hZero | hCopy
  · omega
  · rcases hCopy.text_eq with ⟨k', c', hCall', hSeq', hText⟩
    have hSame : k' = k := by omega
    subst hSame
    rw [hCall] at hCall'
    cases hCall'
    exact hText

/- Every copy of a packet carries the payload of the first. -/
theorem Log.copy_payload
    (h : Log Wire.byteBuffers calls sent n)
    {p : Packet (List UInt8)}
    (hMem : p ∈ sent)
    (hPos : 1 ≤ p.hdr.seq) :
    Lib.text 0 p.data = payload sent p.hdr.seq := by
  rcases h.copies p hMem with hZero | hCopy
  · omega
  · rcases hCopy.text_eq with ⟨k, c, hCall, hSeq, hText⟩
    rw [hText, hSeq]
    exact (h.payload_eq hCall).symm

/- The payloads together are the texts of the calls. -/
theorem Log.flatMap_payload
    (h : Log Wire.byteBuffers calls sent n) :
    (List.range n.tail.toNat).flatMap
        (fun k : Nat => payload sent ((k : Int) + 1)) =
      calls.flatMap Call.text := by
  rcases h.phase with ⟨_, hNone⟩ | hSending
  · subst hNone
    rw [List.flatMap_nil, List.flatMap_eq_nil_iff]
    intro k _
    have hFind :
        sent.find? (fun p => p.hdr.seq = (k : Int) + 1) =
          none := by
      rw [List.find?_eq_none]
      intro p hMem hSeq
      have hEq := of_decide_eq_true hSeq
      rcases h.copies p hMem with hZero | ⟨_, _, hCall, _⟩
      · omega
      · cases hCall
    rw [payload, hFind]
    rfl
  · have hCount : n.tail.toNat = calls.length := by
      rw [hSending.tail]
      rfl
    rw [hCount, List.flatMap_def, List.flatMap_def]
    congr 1
    apply List.ext_getElem
    · simp
    · intro k hLt _
      rw [List.length_map, List.length_range] at hLt
      rw [List.getElem_map, List.getElem_map,
        List.getElem_range]
      exact h.payload_eq (List.getElem?_eq_getElem hLt)

/- The end of the file is found by the last call. -/
theorem Log.eof_iff
    (h : Log Wire.byteBuffers calls sent n)
    (ended : Nat → Prop) :
    (n.eof = true →
        ∃ c, calls.getLast? = some c ∧ c.Short ∧
          ended (calls.length - 1)) ↔
      ∀ (k : Nat) (c : Call (Option FileChunk) DataBuf),
        windowSize ≤ (k : Int) → calls[k]? = some c →
          c.Short → ended k := by
  rcases h.phase with ⟨hFresh, hNone⟩ | hSending
  · subst hNone
    simp [hFresh.eof]
  · have hTail := hSending.tail
    constructor
    · intro hEnd k c hFrom hCall hShort
      rcases (hSending.short k c hCall hFrom).mp
          ((shortRead_iff c).mpr hShort) with
        ⟨hEof, hLast⟩
      rcases hEnd hEof with ⟨_, _, _, hEnded⟩
      have hK : calls.length - 1 = k := by omega
      rw [hK] at hEnded
      exact hEnded
    · intro hAll hEof
      have hMany := hSending.ended hEof
      simp only [windowSize] at hMany
      have hLt : calls.length - 1 < calls.length := by omega
      have hCall := List.getElem?_eq_getElem hLt
      have hFrom :
          windowSize ≤ ((calls.length - 1 : Nat) : Int) := by
        simp only [windowSize]
        omega
      have hShort :=
        (shortRead_iff _).mp
          ((hSending.short _ _ hCall hFrom).mpr
            ⟨hEof, by omega⟩)
      refine
        ⟨_, ?_, hShort, hAll _ _ hFrom hCall hShort⟩
      rw [List.getLast?_eq_getElem?]
      exact hCall

/-
  What the sender sends is what it read exactly when no chunk
  has a zero byte, a failed call finds no text in the buffer,
  and every short read of the shift loop is at the end of the
  file.
-/
theorem sent_as_read_iff
    (file : Nat → Option FileChunk)
    (ended : Nat → Prop)
    (messBuf : Packet DataBuf)
    (window : Int → Packet DataBuf)
    (es : List (Ev × List UInt8)) :
    let M := logged Wire.byteBuffers file
    let s := initial messBuf window
    let calls := (M.outputs s es).flatMap Pass.calls
    let sent := (M.outputs s es).flatMap Pass.sent
    (∀ p ∈ sent,
        1 ≤ p.hdr.seq →
          Lib.text 0 p.data = payload sent p.hdr.seq) ∧
      (SentAsRead ended calls sent (M.run s es) ↔
        (∀ c ∈ calls, c.Clean) ∧
          ∀ (k : Nat) (c : Call (Option FileChunk) DataBuf),
            windowSize ≤ (k : Int) →
              calls[k]? = some c →
                c.Short → ended k) := by
  intro M s calls sent
  have hLog :
      Log Wire.byteBuffers calls sent (M.run s es) :=
    log_run Wire.byteBuffers file messBuf window es
  refine ⟨fun p hMem => hLog.copy_payload hMem, ?_⟩
  constructor
  · rintro ⟨hBytes, _, hEof⟩
    refine ⟨?_, (hLog.eof_iff ended).mp hEof⟩
    apply (flatMap_text_iff calls).mp
    rw [← hLog.flatMap_payload]
    exact hBytes
  · rintro ⟨hClean, hEnded⟩
    refine ⟨?_, ?_, (hLog.eof_iff ended).mpr hEnded⟩
    · rw [hLog.flatMap_payload]
      exact (flatMap_text_iff calls).mpr hClean
    · intro k c hCall hFailed
      have hMem := List.mem_of_getElem? hCall
      rw [hLog.payload_eq hCall,
        (Call.clean_iff c).mp (hClean c hMem),
        Call.returned, hFailed]

/- The file "h", behind which every call fails. -/
def failsBehind : Nat → Option FileChunk
  | 0 => some Rcv.oneByte
  | _ + 1 => none

/-
  The second call fails, and packet 2 carries the byte "h"
  that the first call has left in the buffer.
-/
theorem chunk_sent_again :
    ¬ ∀ (file : Nat → Option FileChunk)
        (messBuf : Packet DataBuf)
        (window : Int → Packet DataBuf)
        (es : List (Ev × List UInt8)),
      let M := logged Wire.byteBuffers file
      let s := initial messBuf window
      SentAsRead (fun _ => True)
        ((M.outputs s es).flatMap Pass.calls)
        ((M.outputs s es).flatMap Pass.sent)
        (M.run s es) := by
  intro hAll
  let name : Packet DataBuf :=
    { Rcv.namePacket with
      data := Rcv.bufferOf [111, 117, 116] }
  have hBytes :=
    (hAll failsBehind name (fun _ => name)
      [(.echo Rcv.namePacket.hdr false, [])]).bytes
  have hLength := congrArg List.length hBytes
  revert hLength
  decide +kernel

end Ncp

end P1

end Cs2520
