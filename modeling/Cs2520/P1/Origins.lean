import Cs2520.P1.ReadLog
import Cs2520.P1.Senders

/-
  Whose chunks the receiver writes.

  With any number of senders, and whatever the network does
  to their packets and to the acks, the open file and the
  reorder window hold only chunks of the sender whose
  filename opened it. Payloads are units here: a buffer may
  end with bytes that an earlier packet has left in it.

  Main declarations:
    * `Rcv.Own`
    * `Rcv.Own.step`
    * `Hub.Sent`
    * `Hub.Sent.senders`
    * `Hub.written_by_current`
-/

------------------------------------------------------------
-- Payloads in the File and the Window
------------------------------------------------------------

namespace Cs2520

namespace P1

namespace Rcv

open Lib

variable {A ρ δ β : Type}
variable (w : Wire ρ δ β)
variable {good : β → Prop}

/- All payloads written or waiting are good ones. -/
structure Own
    (good : β → Prop)
    (r : Rcv A β) : Prop where
  cAck : 0 ≤ r.cAck
  fw : ∀ d ∈ r.fw, good d
  slots : ∀ k, r.buffer k = true → good (r.window k).data

theorem Own.congr
    {r r' : Rcv A β}
    (h : Own good r)
    (hRing : r'.toRingBuffer = r.toRingBuffer)
    (hAck : r'.cAck = r.cAck)
    (hFile : r'.fw = r.fw) :
    Own good r' where
  cAck := by rw [hAck]; exact h.cAck
  fw := by rw [hFile]; exact h.fw
  slots := by rw [hRing]; exact h.slots

theorem Own.takeSlot
    {r : Rcv A β}
    (h : Own good r)
    {k : Int}
    (hSet : r.buffer k = true) :
    Own good (r.takeSlot w k) := by
  refine ⟨?_, ?_, ?_⟩
  · have hNonneg := h.cAck
    rw [takeSlot_cAck]
    omega
  · intro d hMem
    rcases List.mem_append.mp hMem with hOld | hNew
    · exact h.fw d hOld
    · rw [List.mem_singleton.mp hNew]
      exact h.slots k hSet
  · intro j hStill
    rw [takeSlot_buffer] at hStill
    by_cases hSame : j = k
    · subst hSame
      rw [Function.update_self] at hStill
      cases hStill
    · rw [Function.update_of_ne hSame] at hStill
      have hKept :
          (r.takeSlot w k).window j = r.window j :=
        Function.update_of_ne hSame _ _
      rw [hKept]
      exact h.slots j hStill

theorem Own.drain
    (n : Nat)
    (j : Int)
    {r : Rcv A β}
    (h : Own good r) :
    Own good (Rcv.drain w n j r).1 := by
  induction n generalizing j r with
  | zero => exact h
  | succ n ih =>
      by_cases hGo :
          0 < r.buffersize ∧
            r.buffer (j % windowSize) = true
      · rw [drain_take w hGo]
        exact ih (j + 1) (h.takeSlot w hGo.2)
      · rw [drain_halt w hGo]
        exact h

theorem Own.expected
    {r : Rcv A β}
    (h : Own good r)
    (hGood : good r.messBuf.data) :
    Own good (r.expected w).1 := by
  rcases expected_agrees w r with ⟨hRing, hAck, hFile⟩
  have hPrinted : Own good (r.printData w) := by
    refine ⟨?_, ?_, h.slots⟩
    · have hNonneg := h.cAck
      change 0 ≤ r.cAck + 1
      omega
    · intro d hMem
      rcases List.mem_append.mp hMem with hOld | hNew
      · exact h.fw d hOld
      · rw [List.mem_singleton.mp hNew]
        exact hGood
  exact
    (hPrinted.drain w _ _).congr hRing hAck hFile

theorem Own.outOfOrder
    {r : Rcv A β}
    (h : Own good r)
    (hGood :
      r.cAck + 2 ≤ r.messBuf.hdr.seq →
        good r.messBuf.data) :
    Own good r.outOfOrder.1 := by
  unfold Rcv.outOfOrder
  dsimp only
  split
  · next hRange =>
      split
      · have hStored :
            Own good
              { r with
                toRingBuffer :=
                  r.toRingBuffer.store
                    (r.messBuf.hdr.seq % windowSize)
                    r.messBuf } := by
          refine ⟨h.cAck, h.fw, ?_⟩
          intro k hSet
          simp only [RingBuffer.store] at hSet ⊢
          by_cases hSame :
              k = r.messBuf.hdr.seq % windowSize
          · subst hSame
            rw [Function.update_self]
            exact hGood hRange.1
          · rw [Function.update_of_ne hSame] at hSet ⊢
            exact h.slots k hSet
        split
        · split
          · exact hStored.congr rfl rfl rfl
          · exact hStored.congr rfl rfl rfl
        · exact hStored
      · exact h
  · exact h

variable [DecidableEq A]
variable (canOpen : β → Bool)

/-
  While the receiver runs on, a pass keeps the payloads good
  and the sender current, or it opens a file anew.
-/
theorem Own.step
    {r : Rcv A β}
    (h : Own good r)
    {e : Ev A δ}
    (hNew :
      ∀ pkt, e = .recv r.current pkt → 1 ≤ pkt.hdr.seq →
        good (w.recvfrom r.messBuf.data pkt.data))
    (hRuns : (step w canOpen r e).1.exited = false) :
    (Own good (step w canOpen r e).1 ∧
        (step w canOpen r e).1.current = r.current) ∨
      ∀ good' : β → Prop,
        Own good' (step w canOpen r e).1 := by
  have hPass := step_pass w canOpen r e
  have hNonneg := h.cAck
  generalize Rcv.step w canOpen r e = res at hPass hRuns ⊢
  cases hPass with
  | exited _ => exact .inl ⟨h, rfl⟩
  | timer _ =>
      left
      rw [timer]
      split
      · exact ⟨h.congr rfl rfl rfl, rfl⟩
      · exact ⟨h, rfl⟩
  | ignored _ _ _ => exact .inl ⟨h.congr rfl rfl rfl, rfl⟩
  | @accept a pkt _ _ _ =>
      right
      intro good'
      unfold accept at hRuns ⊢
      dsimp only [echo] at hRuns ⊢
      split at hRuns
      · next hCan =>
          rw [if_pos hCan]
          refine ⟨le_refl _, ?_, ?_⟩
          · intro d hMem
            cases hMem
          · intro k hSet
            cases hSet
      · cases hRuns
  | busy _ _ => exact .inl ⟨h.congr rfl rfl rfl, rfl⟩
  | finish _ _ => exact .inl ⟨h.congr rfl rfl rfl, rfl⟩
  | @expected a pkt hServes _ hSeq =>
      have hStart : Own good (r.recvfrom w a pkt) :=
        h.congr rfl rfl rfl
      have hEv : (Ev.recv a pkt : Ev A δ) =
          .recv r.current pkt := by
        rw [hServes.current]
      refine .inl ⟨hStart.expected w ?_, ?_⟩
      · exact hNew pkt hEv (by omega)
      · exact (expected_frame w _).2.2.1
  | @outOfOrder a pkt hServes _ _ =>
      have hStart : Own good (r.recvfrom w a pkt) :=
        h.congr rfl rfl rfl
      have hEv : (Ev.recv a pkt : Ev A δ) =
          .recv r.current pkt := by
        rw [hServes.current]
      refine .inl ⟨hStart.outOfOrder ?_, ?_⟩
      · intro hAhead
        have hAck : (r.recvfrom w a pkt).cAck = r.cAck := rfl
        have hSame :
            (r.recvfrom w a pkt).messBuf.hdr.seq =
              pkt.hdr.seq := rfl
        exact hNew pkt hEv (by omega)
      · exact (outOfOrder_frame _).2.2.1

end Rcv

end P1

end Cs2520

------------------------------------------------------------
-- The Calls behind the Packets
------------------------------------------------------------

namespace Cs2520

namespace P1

namespace Ncp

open Lib

variable {ρ δ β : Type}
variable (w : Wire ρ δ β)
variable (file : Nat → ρ)

theorem result_callsFrom
    (m : Nat)
    (b : β)
    (i : Nat)
    {k : Nat}
    {c : Call ρ β}
    (hCall : (callsFrom w file m b i)[k]? = some c) :
    c.result = file (i + k) := by
  induction m generalizing b i k with
  | zero => cases hCall
  | succ m ih =>
      cases k with
      | zero =>
          cases hCall
          rfl
      | succ k =>
          have hRest := ih (w.read b (file i)) (i + 1) hCall
          rw [hRest]
          congr 1
          omega

/- The calls so far read the file from its start. -/
structure ReadsFile
    (calls : List (Call ρ β))
    (n : Ncp β) : Prop where
  phase : Phase w calls n
  results :
    ∀ (k : Nat) (c : Call ρ β),
      calls[k]? = some c → c.result = file k

variable {w file}

theorem Phase.reads_eq
    {calls : List (Call ρ β)}
    {n : Ncp β}
    (h : Phase w calls n) :
    n.reads = calls.length := by
  rcases h with ⟨hFresh, rfl⟩ | hSending
  · exact hFresh.reads
  · exact hSending.kept.reads

/- A pass reads on, and sends copies of what was read. -/
theorem ReadsFile.step
    {calls : List (Call ρ β)}
    {n : Ncp β}
    (h : ReadsFile w file calls n)
    (e : Ev) :
    ∃ more,
      ReadsFile w file (calls ++ more) (step w file n e).1 ∧
        ∀ p ∈ (step w file n e).2,
          p.hdr.seq ≤ 0 ∨ Carries w (calls ++ more) p := by
  rcases h.phase.step file e with ⟨m, hPhase, hAdds⟩
  refine ⟨_, ⟨hPhase, ?_⟩, hAdds.copies⟩
  intro k c hCall
  rcases lt_or_ge k calls.length with hOld | hNew
  · rw [List.getElem?_append_left hOld] at hCall
    exact h.results k c hCall
  · rw [List.getElem?_append_right hNew] at hCall
    rw [result_callsFrom w file _ _ _ hCall,
      h.phase.reads_eq]
    congr 1
    omega

/- A copy of a call carries the chunk of its number. -/
theorem ReadsFile.copy
    {calls : List (Call ρ β)}
    {n : Ncp β}
    (h : ReadsFile w file calls n)
    {p : Packet δ}
    (hCarries : Carries w calls p) :
    Copy w (file (p.hdr.seq - 1).toNat) p.data := by
  rcases hCarries with ⟨k, c, hCall, hSeq, hData⟩
  have hIndex : (p.hdr.seq - 1).toNat = k := by omega
  rw [hIndex, ← h.results k c hCall]
  rcases hData with hText | hWhole
  · rw [hText]
    exact .first c.found
  · rw [hWhole]
    exact .again c.found

end Ncp

end P1

end Cs2520

------------------------------------------------------------
-- Any Number of Senders
------------------------------------------------------------

namespace Cs2520

namespace P1

namespace Hub

open Lib

variable {A ρ δ β : Type} [DecidableEq A]
variable (w : Wire ρ δ β)
variable (file : A → Nat → ρ)
variable (canOpen : β → Bool)

/- Each sender has sent copies of what it read. -/
def Sent
    (s : Net A δ β) : Prop :=
  ∀ a, ∃ calls,
    Ncp.ReadsFile w (file a) calls (s.left a) ∧
      ∀ p, (a, p) ∈ s.toRight →
        p.hdr.seq ≤ 0 ∨ Ncp.Carries w calls p

variable {w file canOpen}

theorem Sent.senders
    {s : Net A δ β}
    (h : Sent w file s)
    (t : Turn A) :
    Sent w file
      (s.act (senders w file) (receiver w canOpen)
        (.inl t)) := by
  intro a
  rcases h a with ⟨calls, hReads, hSent⟩
  by_cases hSame : a = t.who
  · subst hSame
    rcases hReads.step t.ev with ⟨more, hNext, hOut⟩
    refine ⟨calls ++ more, ?_, ?_⟩
    · change
        Ncp.ReadsFile w _ _
          (Function.update s.left t.who _ t.who)
      rw [Function.update_self]
      exact hNext
    · intro p hMem
      rcases List.mem_append.mp hMem with hOld | hNew
      · exact
          (hSent p hOld).imp_right
            (fun hCopy => hCopy.append more)
      · rcases List.mem_map.mp hNew with ⟨q, hQ, hPair⟩
        cases hPair
        exact hOut _ hQ
  · refine ⟨calls, ?_, ?_⟩
    · change
        Ncp.ReadsFile w _ _
          (Function.update s.left t.who _ a)
      rw [Function.update_of_ne hSame]
      exact hReads
    · intro p hMem
      rcases List.mem_append.mp hMem with hOld | hNew
      · exact hSent p hOld
      · rcases List.mem_map.mp hNew with ⟨q, _, hPair⟩
        cases hPair
        exact (hSame rfl).elim

end Hub

end P1

end Cs2520

------------------------------------------------------------
-- Payloads as Units
------------------------------------------------------------

namespace Cs2520

namespace P1

namespace Hub

open Lib

variable {A α : Type} [DecidableEq A]
variable {file : A → Nat → α × Int}
variable {canOpen : α → Bool}

/- A chunk of the file. -/
def ChunkOf
    (f : Nat → α × Int)
    (d : α) : Prop :=
  ∃ i, d = (f i).1

theorem eq_of_copy
    {r : α × Int}
    {d : α}
    (hCopy : Ncp.Copy (Wire.opaquePayload α) r d) :
    d = r.1 := by
  cases hCopy with
  | first _ => rfl
  | again _ => rfl

/- A packet that some sender numbered is from its file. -/
omit [DecidableEq A] in
theorem Sent.chunkOf
    {s : Net A α α}
    (h : Sent (Wire.opaquePayload α) file s)
    {a : A}
    {p : Packet α}
    (hMem : (a, p) ∈ s.toRight)
    (hPos : 1 ≤ p.hdr.seq) :
    ChunkOf (file a) p.data := by
  rcases h a with ⟨calls, hReads, hSent⟩
  rcases hSent p hMem with hZero | hCarries
  · omega
  · exact ⟨_, eq_of_copy (hReads.copy hCarries)⟩

/-
  In every run, the payloads written since the file was
  opened and those in the reorder window are chunks of the
  sender whose filename opened it.
-/
theorem written_by_current
    {guard : Net A α α → Act A α → Prop}
    {s : Net A α α}
    (hReach :
      Link.Reachable (senders (Wire.opaquePayload α) file)
        (receiver (Wire.opaquePayload α) canOpen)
        Start guard s)
    (hRuns : s.right.exited = false) :
    (∀ d ∈ s.right.fw, ChunkOf (file s.right.current) d) ∧
      ∀ k, s.right.buffer k = true →
        ChunkOf (file s.right.current)
          (s.right.window k).data := by
  have hBoth :
      Sent (Wire.opaquePayload α) file s ∧
        (s.right.exited = false →
          Rcv.Own (ChunkOf (file s.right.current))
            s.right) := by
    refine
      hReach.invariant
        (fun s =>
          Sent (Wire.opaquePayload α) file s ∧
            (s.right.exited = false →
              Rcv.Own (ChunkOf (file s.right.current))
                s.right))
        ?_ ?_
    · intro s hStart
      refine ⟨?_, fun _ => ?_⟩
      · intro a
        rcases hStart.senders a with ⟨name, window, hLeft⟩
        refine ⟨[], ⟨?_, ?_⟩, ?_⟩
        · rw [hLeft]
          exact .inl ⟨Ncp.fresh_initial name window, rfl⟩
        · intro k c hCall
          cases hCall
        · intro p hMem
          rw [hStart.packets] at hMem
          cases hMem
      · rcases hStart.receiver with ⟨_, _, _, _, hRight⟩
        rw [hRight]
        refine ⟨le_refl _, ?_, ?_⟩
        · intro d hMem
          cases hMem
        · intro k hSet
          cases hSet
    · rintro s (t | e) ⟨hSent, hOwn⟩ hEnabled _
      · exact ⟨hSent.senders t, hOwn⟩
      · refine ⟨hSent, fun hRuns' => ?_⟩
        have hRan : s.right.exited = false := by
          by_contra hExited
          have hTrue := Bool.eq_true_of_not_eq_false hExited
          change
            (Rcv.step (Wire.opaquePayload α) canOpen s.right
              e).1.exited = false
            at hRuns'
          rw [Rcv.step_exited (Wire.opaquePayload α) canOpen
            hTrue] at hRuns'
          exact hExited hRuns'
        have hStep :=
          (hOwn hRan).step (Wire.opaquePayload α) canOpen
            ?_ hRuns'
        · change
            Rcv.Own
              (ChunkOf
                (file
                  (Rcv.step (Wire.opaquePayload α) canOpen
                    s.right e).1.current))
              (Rcv.step (Wire.opaquePayload α) canOpen
                s.right e).1
          rcases hStep with ⟨hKept, hSame⟩ | hAny
          · rw [hSame]
            exact hKept
          · exact hAny _
        · rintro pkt rfl hPos
          exact
            hSent.chunkOf
              (hEnabled _ (by simp [receiver])) hPos
  have hOwn := hBoth.2 hRuns
  exact ⟨hOwn.fw, hOwn.slots⟩

/- One sender reads even numbers, the other odd ones. -/
def ownChunks
    (who : Bool)
    (i : Nat) : Nat × Int :=
  (2 * i + who.toNat, if i < 5 then chunkSize else 0)

/-
  The second sender takes the timer's echo for its own and
  sends its chunks as well. One of each sender arrives.
-/
def bothSending : List (Act Bool Nat) :=
  firstAccepted ++
    [.inr (.recv true (chunkPacket 0)), .inr .timer,
      .inl
        { who := false
          served := false
          ev := .echo (chunkPacket 0).hdr false },
      .inl
        { who := true
          served := false
          ev := .echo timerEcho false },
      .inr (.recv false (chunkPacket 1)),
      .inr
        (.recv true
          { hdr := { timerEcho with seq := 1 }
            data := 1 })]

/- The first sender's chunk is in the file. -/
def bothSent : Net Bool Nat Nat :=
  Link.runActs
    (senders (Wire.opaquePayload Nat) ownChunks)
    (receiver (Wire.opaquePayload Nat) (fun _ => true))
    twoSenders bothSending

theorem reachable_bothSent :
    Link.Reachable
      (senders (Wire.opaquePayload Nat) ownChunks)
      (receiver (Wire.opaquePayload Nat) (fun _ => true))
      Start (fun _ _ => True) bothSent :=
  Link.reachable_runActs (.start start_twoSenders)
    (by decide +kernel)

theorem written_by_current_first :
    bothSent.right.fw = [0] ∧
      ¬ ChunkOf (ownChunks false) 1 ∧
      (∀ d ∈ bothSent.right.fw,
          ChunkOf (ownChunks false) d) ∧
        ∀ k, bothSent.right.buffer k = true →
          ChunkOf (ownChunks false)
            (bothSent.right.window k).data := by
  have hOwn :=
    written_by_current reachable_bothSent
      (by decide +kernel)
  have hCurrent : bothSent.right.current = false := by
    decide +kernel
  rw [hCurrent] at hOwn
  refine ⟨by decide +kernel, ?_, hOwn⟩
  rintro ⟨i, hOdd⟩
  have hEven : (ownChunks false i).1 = 2 * i := rfl
  omega

end Hub

end P1

end Cs2520
