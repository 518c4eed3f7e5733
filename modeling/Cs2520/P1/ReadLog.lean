import Cs2520.Lib.Machine
import Cs2520.Lib.RecentLog
import Cs2520.P1.SendWindow

/-
  The log of a sender: its `read` calls and the packets that
  it sends.

  The sender reads into the buffer that it receives echoes
  in, so a call may find anything there. The log of a run
  keeps every call with what it found.

  Main declarations:
    * `Call`
    * `recvData`
    * `logged`
    * `Kept`
    * `Sending`
    * `Adds`
    * `Phase.step`
    * `log_run`
-/

------------------------------------------------------------
-- Read Calls
------------------------------------------------------------

namespace Cs2520

namespace P1

namespace Ncp

open Lib

variable {ρ δ β : Type}

/- What a `read` call finds in `data_buf`, and its result. -/
structure Call (ρ β : Type) where
  found : β
  result : ρ

/- `data_buf` after the call and its zero byte. -/
def Call.after
    (w : Wire ρ δ β)
    (c : Call ρ β) : β :=
  w.read c.found c.result

variable (w : Wire ρ δ β)
variable (file : Nat → ρ)

/- The next calls from call `i` on, with `b` in the buffer. -/
def callsFrom : Nat → β → Nat → List (Call ρ β)
  | 0, _, _ => []
  | m + 1, b, i =>
      { found := b, result := file i } ::
        callsFrom m (w.read b (file i)) (i + 1)

theorem length_callsFrom
    (m : Nat)
    (b : β)
    (i : Nat) :
    (callsFrom w file m b i).length = m := by
  induction m generalizing b i with
  | zero => rfl
  | succ m ih => rw [callsFrom, List.length_cons, ih]

/-
  The payload of an echo goes over `data_buf`. This is the
  first thing that a pass with an echo does.
-/
def recvData
    (n : Ncp β)
    (e : Ev)
    (d : δ) : Ncp β :=
  if n.exited = false ∧ e.echo?.isSome = true then
    { n with
      messBuf :=
        { n.messBuf with
          data := w.recvfrom n.messBuf.data d } }
  else
    n

/- The calls of a pass and the packets that it sends. -/
structure Pass (ρ δ β : Type) where
  calls : List (Call ρ β)
  sent : List (Packet δ)

/- The sender on echoes with payloads, with its log. -/
def logged : Machine (Ncp β) (Ev × δ) (Pass ρ δ β) where
  step n e :=
    let n := n.recvData w e.1 e.2
    let (n', sent) := step w file n e.1
    (n',
      [{ calls :=
          callsFrom w file (n'.reads - n.reads)
            n.messBuf.data n.reads
         sent := sent }])

/- A copy of the chunk of one of the calls. -/
def Carries
    (calls : List (Call ρ β))
    (p : Packet δ) : Prop :=
  ∃ (k : Nat) (c : Call ρ β),
    calls[k]? = some c ∧
      p.hdr.seq = (k : Int) + 1 ∧
      (p.data = w.text (c.after w) ∨
        p.data = w.whole (c.after w))

/-
  The calls are numbered one by one, and the slots of their
  packets from `lo` on keep what the calls leave behind.
-/
structure Kept
    (calls : List (Call ρ β))
    (lo : Int)
    (n : Ncp β) : Prop where
  seq : n.seq = calls.length + 1
  reads : n.reads = calls.length
  slots :
    ∀ (k : Nat) (c : Call ρ β),
      calls[k]? = some c → lo ≤ (k : Int) + 1 →
      (n.window (((k : Int) + 1) % windowSize)).hdr.seq =
          (k : Int) + 1 ∧
        (n.window (((k : Int) + 1) % windowSize)).data =
          c.after w

variable {w file}

theorem Carries.append
    {calls : List (Call ρ β)}
    {p : Packet δ}
    (h : Carries w calls p)
    (more : List (Call ρ β)) :
    Carries w (calls ++ more) p := by
  rcases h with ⟨k, c, hCall, hSeq, hData⟩
  have hLt := (List.getElem?_eq_some_iff.mp hCall).1
  refine ⟨k, c, ?_, hSeq, hData⟩
  rw [List.getElem?_append_left hLt]
  exact hCall

/- One more call takes a slot that is no longer needed. -/
theorem Kept.push
    (file : Nat → ρ)
    {calls : List (Call ρ β)}
    {lo lo' : Int}
    {n : Ncp β}
    (h : Kept w calls lo n)
    (hLo : lo ≤ lo')
    (hSpan : (calls.length : Int) + 1 < lo' + windowSize) :
    Kept w
      (calls ++
        [{ found := n.messBuf.data
           result := file n.reads }])
      lo' (n.push w file (calls.length + 1)) where
  seq := by
    have hSeq := h.seq
    simp only [Ncp.push, keep, nextChunk, List.length_append,
      List.length_singleton]
    omega
  reads := by
    have hReads := h.reads
    simp only [Ncp.push, keep, nextChunk, List.length_append,
      List.length_singleton]
    omega
  slots := by
    intro k c hCall hFrom
    have hSeq := h.seq
    simp only [Ncp.push, keep, nextChunk]
    rcases concat_entry hCall with
      ⟨rfl, rfl⟩ | ⟨hOld, hBefore⟩
    · rw [Function.update_self]
      exact ⟨hSeq, rfl⟩
    · have hNe :
          ((k : Int) + 1) % windowSize ≠
            ((calls.length : Int) + 1) % windowSize :=
        emod_ne_of_lt (by omega) (by omega) (by omega)
      rw [Function.update_of_ne hNe]
      exact h.slots k c hBefore (by omega)

/- The packet that is sent for a call is a copy of it. -/
theorem Kept.carries_next
    (file : Nat → ρ)
    {calls : List (Call ρ β)}
    {lo : Int}
    {n : Ncp β}
    (h : Kept w calls lo n)
    (i : Int) :
    (sendText w (n.push w file i)).hdr.seq =
        (calls.length : Int) + 1 ∧
      Carries w
        (calls ++
          [{ found := n.messBuf.data
             result := file n.reads }])
        (sendText w (n.push w file i)) := by
  exact
    ⟨h.seq, calls.length,
      { found := n.messBuf.data, result := file n.reads },
      List.getElem?_concat_length, h.seq, Or.inl rfl⟩

/- A slot in range is sent as a copy of its call. -/
theorem Kept.carries_slot
    {calls : List (Call ρ β)}
    {lo : Int}
    {n : Ncp β}
    (h : Kept w calls lo n)
    (hPos : 1 ≤ lo)
    {i : Int}
    (hLo : lo ≤ i)
    (hHi : i ≤ calls.length) :
    Carries w calls (sendSlot w n i) := by
  obtain ⟨k, hK⟩ : ∃ k : Nat, i = (k : Int) + 1 :=
    ⟨(i - 1).toNat, by omega⟩
  have hLt : k < calls.length := by omega
  have hCall := List.getElem?_eq_getElem hLt
  rcases h.slots k _ hCall (by omega) with ⟨hSeq, hData⟩
  refine ⟨k, _, hCall, ?_, Or.inr ?_⟩
  · rw [sendSlot, hK]
    exact hSeq
  · rw [sendSlot, hK, hData]

end Ncp

end P1

end Cs2520

------------------------------------------------------------
-- The Loops That Read
------------------------------------------------------------

namespace Cs2520

namespace P1

namespace Ncp

open Lib

variable {ρ δ β : Type}
variable (w : Wire ρ δ β)
variable (file : Nat → ρ)

/-
  After its connection loop the sender has made one call for
  each packet of its window so far. A short read of the
  shift loop is the last one.
-/
structure Sending
    (calls : List (Call ρ β))
    (n : Ncp β) : Prop where
  connected : n.filenameSend = true
  kept : Kept w calls n.head n
  tail : n.tail = calls.length
  pos : 1 ≤ n.head
  span : n.tail < n.head + windowSize
  full : windowSize ≤ n.tail
  short :
    ∀ (k : Nat) (c : Call ρ β),
      calls[k]? = some c → windowSize ≤ (k : Int) →
        (shortRead (w.bytes c.result) = true ↔
          n.eof = true ∧ (k : Int) + 1 = n.tail)
  ended : n.eof = true → windowSize < n.tail

/-
  A result of a pass that makes `m` calls: every packet of
  it is a copy of a call, and there is one for each new call.
-/
structure Adds
    (m : Nat)
    (calls : List (Call ρ β))
    (n : Ncp β)
    (res : Ncp β × List (Packet δ)) : Prop where
  reads : res.1.reads = n.reads + m
  copies :
    ∀ p ∈ res.2,
      p.hdr.seq ≤ 0 ∨
        Carries w
          (calls ++
            callsFrom w file m n.messBuf.data n.reads) p
  each :
    ∀ j, j < m →
      ∃ p ∈ res.2,
        p.hdr.seq = (calls.length : Int) + j + 1

variable {w file}

/- A loop that reads a chunk, sends it and goes on. -/
theorem Kept.adds_cons
    {calls : List (Call ρ β)}
    {lo : Int}
    {n : Ncp β}
    (h : Kept w calls lo n)
    {i : Int}
    {m : Nat}
    (n' : Ncp β)
    (hReads : n'.reads = (n.push w file i).reads)
    (hData : n'.messBuf = (n.push w file i).messBuf)
    {res : Ncp β × List (Packet δ)}
    (hRest :
      Adds w file m
        (calls ++
          [{ found := n.messBuf.data
             result := file n.reads }])
        n' res) :
    Adds w file (m + 1) calls n
      (res.1, sendText w (n.push w file i) :: res.2) := by
  have hNew :
      calls ++
          [{ found := n.messBuf.data
             result := file n.reads }] ++
          callsFrom w file m n'.messBuf.data n'.reads =
        calls ++
          callsFrom w file (m + 1) n.messBuf.data n.reads
      := by
    rw [hReads, hData, List.append_assoc]
    rfl
  rcases h.carries_next file i with ⟨hSeq, hCopy⟩
  refine ⟨?_, ?_, ?_⟩
  · have hNext := hRest.reads
    rw [hReads] at hNext
    simp only [Ncp.push, keep, nextChunk] at hNext
    dsimp only
    omega
  · rw [← hNew]
    intro p hMem
    rcases List.mem_cons.mp hMem with rfl | hLater
    · exact Or.inr (hCopy.append _)
    · exact hRest.copies p hLater
  · intro j hLt
    cases j with
    | zero => exact ⟨_, List.mem_cons_self, by simp [hSeq]⟩
    | succ j =>
        rcases hRest.each j (by omega) with ⟨p, hMem, hP⟩
        refine ⟨p, List.mem_cons_of_mem _ hMem, ?_⟩
        rw [hP]
        simp only [List.length_append, List.length_singleton]
        push_cast
        omega

/- Nothing is read and nothing is sent. -/
theorem adds_nothing
    (calls : List (Call ρ β))
    {n n' : Ncp β}
    (hReads : n'.reads = n.reads) :
    Adds w file 0 calls n (n', []) where
  reads := hReads
  copies := fun p hMem => by cases hMem
  each := fun j hLt => by omega

theorem fillWindow_adds
    (file : Nat → ρ)
    (k : Nat)
    {calls : List (Call ρ β)}
    {lo : Int}
    {n : Ncp β}
    (h : Kept w calls lo n)
    (hSpan : (calls.length : Int) + k < lo + windowSize) :
    let res := fillWindow w file k (calls.length + 1) n
    Kept w
        (calls ++
          callsFrom w file k n.messBuf.data n.reads)
        lo res.1 ∧
      Adds w file k calls n res := by
  induction k generalizing calls n with
  | zero =>
      refine ⟨?_, adds_nothing calls rfl⟩
      rw [callsFrom, List.append_nil]
      exact h
  | succ k ih =>
      push_cast at hSpan
      have hPush :=
        h.push file (le_refl lo) (by omega)
      have hRest :=
        ih hPush (by
          simp only [List.length_append,
            List.length_singleton]
          push_cast
          omega)
      simp only [List.length_append, List.length_singleton,
        Int.natCast_add, Int.cast_ofNat_Int] at hRest
      refine
        ⟨?_,
          h.adds_cons (n.push w file (calls.length + 1)) rfl
            rfl hRest.2⟩
      have hKept := hRest.1
      rw [List.append_assoc] at hKept
      exact hKept

/- One pass of the shift loop makes one call. -/
theorem Sending.shiftOnce
    (file : Nat → ρ)
    {calls : List (Call ρ β)}
    {n : Ncp β}
    (h : Sending w calls n)
    (hMore : n.eof = false) :
    Sending w
      (calls ++
        [{ found := n.messBuf.data
           result := file n.reads }])
      (n.shiftOnce w file) := by
  have hTail := h.tail
  have hPos := h.pos
  have hSpan := h.span
  have hFull := h.full
  have hKept :=
    h.kept.push file
      (Int.le_add_of_nonneg_right Int.one_nonneg)
      (by omega : (calls.length : Int) + 1 <
        n.head + 1 + windowSize)
  rw [← hTail] at hKept
  refine ⟨h.connected, ?_, ?_, ?_, ?_, ?_, ?_, ?_⟩
  · exact ⟨hKept.seq, hKept.reads, hKept.slots⟩
  · simp only [Ncp.shiftOnce, List.length_append,
      List.length_singleton]
    push_cast
    omega
  · simp only [Ncp.shiftOnce]
    omega
  · simp only [Ncp.shiftOnce]
    omega
  · simp only [Ncp.shiftOnce]
    omega
  · intro k c hCall hFrom
    simp only [Ncp.shiftOnce, hMore, Bool.false_or]
    rcases concat_entry hCall with
      ⟨rfl, rfl⟩ | ⟨hOld, hBefore⟩
    · rw [hTail]
      simp
    · rw [h.short k c hBefore hFrom, hMore]
      simp only [Bool.false_eq_true, false_and, false_iff,
        not_and]
      intro _
      omega
  · intro _
    simp only [Ncp.shiftOnce]
    omega

/- Raising the head needs fewer slots. -/
theorem Sending.withHead
    {calls : List (Call ρ β)}
    {n : Ncp β}
    (h : Sending w calls n)
    {head : Int}
    (hLe : n.head ≤ head) :
    Sending w calls { n with head := head } := by
  have hPos := h.pos
  have hSpan := h.span
  refine
    ⟨h.connected, ⟨h.kept.seq, h.kept.reads, ?_⟩, h.tail,
      Int.le_trans hPos hLe, ?_, h.full, h.short, h.ended⟩
  · intro k c hCall hFrom
    exact h.kept.slots k c hCall (Int.le_trans hLe hFrom)
  · dsimp only
    omega

/- The message buffer and the exit do not matter. -/
theorem Sending.withMessage
    {calls : List (Call ρ β)}
    {n : Ncp β}
    (h : Sending w calls n)
    (exited : Bool)
    (messBuf : Packet β) :
    Sending w calls
      { n with exited := exited, messBuf := messBuf } :=
  ⟨h.connected, ⟨h.kept.seq, h.kept.reads, h.kept.slots⟩,
    h.tail, h.pos, h.span, h.full, h.short, h.ended⟩

/- A sender and its calls after a pass with `m` calls. -/
def Continues
    (w : Wire ρ δ β)
    (file : Nat → ρ)
    (calls : List (Call ρ β))
    (n : Ncp β)
    (res : Ncp β × List (Packet δ)) : Prop :=
  ∃ m,
    Sending w
        (calls ++
          callsFrom w file m n.messBuf.data n.reads)
        res.1 ∧
      Adds w file m calls n res

theorem shiftWindow_continues
    (file : Nat → ρ)
    (receivedAck : Int)
    (k : Nat)
    {calls : List (Call ρ β)}
    {n : Ncp β}
    (h : Sending w calls n)
    (hMore : n.eof = false)
    (hHead : n.head + k = receivedAck + 1) :
    Continues w file calls n
      (shiftWindow w file receivedAck k n) := by
  induction k generalizing calls n with
  | zero =>
      refine ⟨0, ?_, adds_nothing calls rfl⟩
      rw [callsFrom, List.append_nil]
      exact h
  | succ k ih =>
      push_cast at hHead
      have hOnce := h.shiftOnce file hMore
      have hHead' :
          (n.shiftOnce w file).head = n.head + 1 := rfl
      rw [shiftWindow_succ]
      cases hEof : (n.shiftOnce w file).eof with
      | true =>
          rw [if_pos rfl]
          have hNone :
              Adds w file 0
                (calls ++
                  [{ found := n.messBuf.data
                     result := file n.reads }])
                (n.shiftOnce w file)
                ({ n.shiftOnce w file with
                  head := receivedAck + 1 }, []) :=
            adds_nothing _ rfl
          have hAdds :=
            h.kept.adds_cons (i := n.tail + 1)
              (n.shiftOnce w file) rfl rfl hNone
          exact ⟨1, hOnce.withHead (by omega), hAdds⟩
      | false =>
          rw [if_neg Bool.false_ne_true]
          rcases ih hOnce hEof (by omega) with
            ⟨m, hSending, hAdds⟩
          refine
            ⟨m + 1, ?_,
              h.kept.adds_cons (n.shiftOnce w file) rfl rfl
                hAdds⟩
          rw [List.append_assoc] at hSending
          exact hSending

/- Packets that are sent again are copies of calls. -/
theorem Sending.carries_resendNacks
    {calls : List (Call ρ β)}
    {n : Ncp β}
    (h : Sending w calls n)
    (nack : List Int) :
    ∀ p ∈ n.resendNacks w nack, Carries w calls p := by
  have hTail := h.tail
  induction nack with
  | nil =>
      intro p hMem
      cases hMem
  | cons s rest ih =>
      rw [resendNacks]
      split
      · intro p hMem
        cases hMem
      · split
        · next hRange =>
            intro p hMem
            rcases List.mem_cons.mp hMem with rfl | hLater
            · exact
                h.kept.carries_slot h.pos hRange.1
                  (by omega)
            · exact ih p hLater
        · exact ih

theorem Sending.carries_resendFrom
    {calls : List (Call ρ β)}
    {n : Ncp β}
    (h : Sending w calls n)
    (k : Nat)
    {i : Int}
    (hLo : n.head ≤ i)
    (hHi : i + k ≤ n.tail + 1) :
    ∀ p ∈ n.resendFrom w k i, Carries w calls p := by
  have hTail := h.tail
  induction k generalizing i with
  | zero =>
      intro p hMem
      cases hMem
  | succ k ih =>
      push_cast at hHi
      intro p hMem
      rcases List.mem_cons.mp hMem with rfl | hLater
      · exact h.kept.carries_slot h.pos hLo (by omega)
      · exact ih (by omega) (by omega) p hLater

/- A pass that reads nothing and sends copies. -/
theorem continues_of_copies
    {calls : List (Call ρ β)}
    {n n' : Ncp β}
    {out : List (Packet δ)}
    (h : Sending w calls n')
    (hReads : n'.reads = n.reads)
    (hCopies :
      ∀ p ∈ out, p.hdr.seq ≤ 0 ∨ Carries w calls p) :
    Continues w file calls n (n', out) := by
  refine ⟨0, ?_, hReads, ?_, fun j hLt => by omega⟩
  · rw [callsFrom, List.append_nil]
    exact h
  · rw [callsFrom, List.append_nil]
    exact hCopies

end Ncp

end P1

end Cs2520

------------------------------------------------------------
-- The Log of a Run
------------------------------------------------------------

namespace Cs2520

namespace P1

namespace Ncp

open Lib

variable {ρ δ β : Type}
variable {w : Wire ρ δ β}
variable {file : Nat → ρ}

/- What was sent before the calls of a pass adds nothing. -/
theorem Continues.after
    {calls : List (Call ρ β)}
    {n n' : Ncp β}
    {res : Ncp β × List (Packet δ)}
    (h : Continues w file calls n' res)
    (out : List (Packet δ))
    (hData : n'.messBuf.data = n.messBuf.data)
    (hReads : n'.reads = n.reads)
    (hOut : ∀ p ∈ out, p.hdr.seq ≤ 0) :
    Continues w file calls n (res.1, out ++ res.2) := by
  rcases h with ⟨m, hSending, hCount, hCopies, hEach⟩
  rw [hData, hReads] at hSending hCopies
  refine ⟨m, hSending, hCount.trans (by rw [hReads]), ?_, ?_⟩
  · intro p hMem
    rcases List.mem_append.mp hMem with hFirst | hLater
    · exact Or.inl (hOut p hFirst)
    · exact hCopies p hLater
  · intro j hLt
    rcases hEach j hLt with ⟨p, hMem, hSeq⟩
    exact ⟨p, List.mem_append_right _ hMem, hSeq⟩

theorem greet_data
    (n : Ncp β)
    (echo : Option Uhdr)
    (elapsed : Bool) :
    (n.greet w echo elapsed).1.messBuf.data =
      n.messBuf.data := by
  cases echo <;> cases elapsed <;> rfl

/- Filling the first window makes the first calls. -/
theorem firstWindow_continues
    (w : Wire ρ δ β)
    (file : Nat → ρ)
    {n : Ncp β}
    (hPhase : n.filenameSend = true)
    (hSeq : n.seq = 0)
    (hReads : n.reads = 0)
    (hHead : n.head = 1)
    (hTail : n.tail = windowSize)
    (hEof : n.eof = false) :
    Continues w file [] n (n.firstWindow w file) := by
  obtain ⟨m, hM⟩ :
      ∃ m, m = { n with seq := n.seq + 1 } := ⟨_, rfl⟩
  have hEmpty : Kept w ([] : List (Call ρ β)) 1 m := by
    refine ⟨?_, ?_, fun k c hCall => by cases hCall⟩
    · simp [hM, hSeq]
    · simp [hM, hReads]
  have hCount : (n.tail + 1 - n.head).toNat = 100 := by
    rw [hHead, hTail]
    rfl
  rw [firstWindow, ← hM, hCount, hHead]
  have hRoom : (0 : Int) + 100 < 1 + windowSize := by decide
  rcases fillWindow_adds file 100 hEmpty hRoom with
    ⟨hKept, hAdds⟩
  rcases fillWindow_frame w file 100 1 m with
    ⟨_, hSend', hHead', hTail', hEof'⟩
  have hData : m.messBuf = n.messBuf := by rw [hM]
  have hStart : m.reads = n.reads := by rw [hM]
  have hNotEof :
      (fillWindow w file 100 1 m).1.eof = false := by
    rw [hEof', hM]
    exact hEof
  have hLow : (fillWindow w file 100 1 m).1.head = 1 := by
    rw [hHead', hM]
    exact hHead
  have hHigh :
      (fillWindow w file 100 1 m).1.tail = windowSize := by
    rw [hTail', hM]
    exact hTail
  have hLength :
      ([] ++ callsFrom w file 100 m.messBuf.data
        m.reads).length = 100 := by
    rw [List.nil_append, length_callsFrom]
  have hSending :
      Sending w
        ([] ++ callsFrom w file 100 m.messBuf.data m.reads)
        (fillWindow w file 100 1 m).1 := by
    refine ⟨?_, ?_, ?_, hLow.ge, ?_, hHigh.ge, ?_, ?_⟩
    · rw [hSend', hM]
      exact hPhase
    · rw [hLow]
      exact hKept
    · rw [hHigh, hLength]
      rfl
    · rw [hLow, hHigh]
      decide
    · intro k c hCall hFrom
      have hLt := (List.getElem?_eq_some_iff.mp hCall).1
      rw [hLength] at hLt
      simp only [windowSize] at hFrom
      omega
    · intro hEnd
      rw [hNotEof] at hEnd
      cases hEnd
  have hContinues :
      Continues w file [] m (fillWindow w file 100 1 m) :=
    ⟨100, hSending, hAdds⟩
  exact
    hContinues.after [] (congrArg Packet.data hData) hStart
      (by simp)

/- A pass of the connection loop, with the first window. -/
theorem Fresh.connect_calls
    {n : Ncp β}
    (h : Fresh n)
    (echo : Option Uhdr)
    (elapsed : Bool) :
    let res := n.connect w file echo elapsed
    (Fresh res.1 ∧ Adds w file 0 [] n res) ∨
      Continues w file [] n res := by
  rcases greet_spec h echo elapsed with ⟨⟨buf, hBuf⟩, hOut⟩
  have hData := greet_data (w := w) n echo elapsed
  dsimp only [Ncp.connect]
  by_cases hHeard :
      (n.greet w echo elapsed).1.filenameSend = true
  · rw [if_pos hHeard]
    right
    have hFirst :=
      firstWindow_continues w file hHeard
        (by rw [hBuf]; exact h.seq)
        (by rw [hBuf]; exact h.reads)
        (by rw [hBuf]; exact h.head)
        (by rw [hBuf]; exact h.tail)
        (by rw [hBuf]; exact h.eof)
    exact
      hFirst.after _ hData (by rw [hBuf])
        (fun p hMem => (hOut p hMem).le)
  · rw [if_neg hHeard]
    have hWaiting := Bool.eq_false_of_not_eq_true hHeard
    refine
      Or.inl
        ⟨?_, ?_, fun p hMem => Or.inl (hOut p hMem).le,
          fun j hLt => by omega⟩
    · dsimp only
      rw [hBuf] at hWaiting ⊢
      exact
        ⟨h.running, hWaiting, h.seq, h.head, h.tail, h.eof,
          h.reads⟩
    · dsimp only
      rw [hBuf]
      rfl

theorem finish_continues
    {calls : List (Call ρ β)}
    {n n' : Ncp β}
    (h : Sending w calls n')
    (hReads : n'.reads = n.reads) :
    Continues w file calls n (n'.finish w) := by
  unfold Ncp.finish
  refine continues_of_copies (h.withMessage true _) hReads ?_
  intro p hMem
  rw [List.mem_singleton] at hMem
  subst hMem
  simp [sendText]

theorem Sending.onTimeout
    {calls : List (Call ρ β)}
    {n : Ncp β}
    (h : Sending w calls n) :
    Continues w file calls n (n.onTimeout w) := by
  have hPos := h.pos
  unfold Ncp.onTimeout
  split
  · exact finish_continues h rfl
  · refine continues_of_copies h rfl ?_
    intro p hMem
    by_cases hEmpty : n.tail + 1 ≤ n.head
    · have hNone : (n.tail + 1 - n.head).toNat = 0 := by
        omega
      rw [hNone] at hMem
      cases hMem
    · exact
        Or.inr
          (h.carries_resendFrom _ (le_refl _) (by omega) p
            hMem)

theorem Sending.onEcho
    {calls : List (Call ρ β)}
    {n : Ncp β}
    (h : Sending w calls n)
    (hdr : Uhdr) :
    Continues w file calls n (n.onEcho w file hdr) := by
  have hRecv : Sending w calls (n.recvEcho hdr) :=
    h.withMessage n.exited _
  have hHead : (n.recvEcho hdr).head = n.head := rfl
  have hHeard := onEcho_hearing w file n hdr
  generalize n.onEcho w file hdr = res at hHeard ⊢
  cases hHeard with
  | finished _ => exact finish_continues hRecv rfl
  | old _ => exact continues_of_copies hRecv rfl (by simp)
  | repeated _ =>
      refine continues_of_copies hRecv rfl ?_
      intro p hMem
      exact Or.inr (hRecv.carries_resendNacks _ p hMem)
  | jumped _ _ =>
      exact
        continues_of_copies (hRecv.withHead (by omega)) rfl
          (by simp)
  | shifted hMore _ =>
      have hShift :=
        shiftWindow_continues file hdr.cack
          (hdr.cack + 1 - n.head).toNat hRecv hMore
          (by omega)
      exact hShift.after [] rfl rfl (by simp)

/- In the connection loop, or sending with these calls. -/
def Phase
    (w : Wire ρ δ β)
    (calls : List (Call ρ β))
    (n : Ncp β) : Prop :=
  (Fresh n ∧ calls = []) ∨ Sending w calls n

/- One pass of either loop makes some calls. -/
theorem Phase.step
    {calls : List (Call ρ β)}
    {n : Ncp β}
    (h : Phase w calls n)
    (file : Nat → ρ)
    (e : Ev) :
    ∃ m,
      Phase w
          (calls ++
            callsFrom w file m n.messBuf.data n.reads)
          (step w file n e).1 ∧
        Adds w file m calls n (step w file n e) := by
  have hConnected :
      ∀ res, Continues w file calls n res →
        ∃ m,
          Phase w
              (calls ++
                callsFrom w file m n.messBuf.data n.reads)
              res.1 ∧
            Adds w file m calls n res := by
    rintro res ⟨m, hSending, hAdds⟩
    exact ⟨m, Or.inr hSending, hAdds⟩
  unfold Ncp.step
  rcases h with ⟨hFresh, hNone⟩ | hSending
  · rw [if_neg (by simp [hFresh.running]),
      if_neg (by simp [hFresh.connecting])]
    subst hNone
    have hPass :
        ∀ echo elapsed,
          ∃ m,
            Phase w
                ([] ++
                  callsFrom w file m n.messBuf.data n.reads)
                (n.connect w file echo elapsed).1 ∧
              Adds w file m [] n
                (n.connect w file echo elapsed) := by
      intro echo elapsed
      rcases hFresh.connect_calls echo elapsed with
        ⟨hStill, hAdds⟩ | hContinues
      · exact ⟨0, Or.inl ⟨hStill, rfl⟩, hAdds⟩
      · exact hConnected _ hContinues
    cases e with
    | quiet elapsed => exact hPass none elapsed
    | echo hdr elapsed => exact hPass (some hdr) elapsed
  · apply hConnected
    split
    · exact continues_of_copies hSending rfl (by simp)
    · rw [if_pos hSending.connected]
      cases e with
      | quiet elapsed => exact hSending.onTimeout
      | echo hdr elapsed => exact hSending.onEcho hdr

/- The payload of an echo goes into the message buffer. -/
theorem Phase.recvData
    {calls : List (Call ρ β)}
    {n : Ncp β}
    (h : Phase w calls n)
    (e : Ev)
    (d : δ) :
    Phase w calls (n.recvData w e d) := by
  unfold Ncp.recvData
  split
  · rcases h with ⟨hFresh, hNone⟩ | hSending
    · exact
        Or.inl
          ⟨⟨hFresh.running, hFresh.connecting, hFresh.seq,
              hFresh.head, hFresh.tail, hFresh.eof,
              hFresh.reads⟩, hNone⟩
    · exact Or.inr (hSending.withMessage n.exited _)
  · exact h

/-
  The calls and the packets of a run: each packet with a
  number from 1 on is a copy of its call, and there is one
  for every call.
-/
structure Log
    (w : Wire ρ δ β)
    (calls : List (Call ρ β))
    (sent : List (Packet δ))
    (n : Ncp β) : Prop where
  phase : Phase w calls n
  copies :
    ∀ p ∈ sent, p.hdr.seq ≤ 0 ∨ Carries w calls p
  each :
    ∀ k, k < calls.length →
      ∃ p ∈ sent, p.hdr.seq = (k : Int) + 1

theorem Log.step
    {calls : List (Call ρ β)}
    {sent : List (Packet δ)}
    {n : Ncp β}
    (h : Log w calls sent n)
    (file : Nat → ρ)
    (e : Ev × δ) :
    let q := n.recvData w e.1 e.2
    let res := Ncp.step w file q e.1
    Log w
      (calls ++
        callsFrom w file (res.1.reads - q.reads)
          q.messBuf.data q.reads)
      (sent ++ res.2) res.1 := by
  intro q res
  rcases (h.phase.recvData e.1 e.2).step file e.1 with
    ⟨m, hPhase, hReads, hCopies, hEach⟩
  have hCount : res.1.reads - q.reads = m := by
    change res.1.reads = q.reads + m at hReads
    omega
  rw [hCount]
  refine ⟨hPhase, ?_, ?_⟩
  · intro p hMem
    rcases List.mem_append.mp hMem with hOld | hNew
    · rcases h.copies p hOld with hZero | hCopy
      · exact Or.inl hZero
      · exact Or.inr (hCopy.append _)
    · exact hCopies p hNew
  · intro k hLt
    rw [List.length_append, length_callsFrom] at hLt
    by_cases hOld : k < calls.length
    · rcases h.each k hOld with ⟨p, hMem, hSeq⟩
      exact ⟨p, List.mem_append_left _ hMem, hSeq⟩
    · rcases hEach (k - calls.length) (by omega) with
        ⟨p, hMem, hSeq⟩
      exact ⟨p, List.mem_append_right _ hMem, by omega⟩

/- Every run has such a log. -/
theorem log_run
    (w : Wire ρ δ β)
    (file : Nat → ρ)
    (messBuf : Packet β)
    (window : Int → Packet β)
    (es : List (Ev × δ)) :
    let M := logged w file
    let s := initial messBuf window
    Log w ((M.outputs s es).flatMap Pass.calls)
      ((M.outputs s es).flatMap Pass.sent)
      (M.run s es) := by
  intro M s
  apply
    M.outputs_invariant
      (fun n passes =>
        Log w (passes.flatMap Pass.calls)
          (passes.flatMap Pass.sent) n)
  · intro n passes e hLog
    simp only [M, logged, List.flatMap_append,
      List.flatMap_singleton]
    exact hLog.step file e
  · refine
      ⟨Or.inl ⟨fresh_initial messBuf window, rfl⟩, ?_, ?_⟩
    · intro p hMem
      cases hMem
    · intro k hLt
      cases hLt

end Ncp

end P1

end Cs2520
