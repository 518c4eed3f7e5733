import Cs2520.P1.Ncp

/-
  The sender's loops for payloads of any kind: what they
  leave alone, and on which echoes a pass makes progress.

  Main declarations:
    * `push`
    * `shiftOnce`
    * `fillWindow_frame`
    * `shiftWindow_frame`
    * `Hearing`
    * `onEcho_hearing`
    * `EndsOnAck`
    * `step_moves`
    * `exits_of_not_endsOnAck`
-/

------------------------------------------------------------
-- Filling and Shifting
------------------------------------------------------------

namespace Cs2520

namespace P1

namespace Ncp

open Lib

variable {ρ δ β : Type}
variable (w : Wire ρ δ β)
variable (file : Nat → ρ)

/- Keep the next chunk in the slot of its number. -/
def push
    (n : Ncp β)
    (i : Int) : Ncp β :=
  (n.nextChunk w file).keep i

/- One pass of the shift loop before the end-of-file test. -/
def shiftOnce
    (n : Ncp β) : Ncp β :=
  { n.push w file (n.tail + 1) with
    eof := n.eof || shortRead (w.bytes (file n.reads))
    head := n.head + 1
    tail := n.tail + 1 }

theorem shiftWindow_succ
    (receivedAck : Int)
    (k : Nat)
    (n : Ncp β) :
    shiftWindow w file receivedAck (k + 1) n =
      if (n.shiftOnce w file).eof then
        ({ n.shiftOnce w file with head := receivedAck + 1 },
          [sendText w (n.push w file (n.tail + 1))])
      else
        ((shiftWindow w file receivedAck k
            (n.shiftOnce w file)).1,
          sendText w (n.push w file (n.tail + 1)) ::
            (shiftWindow w file receivedAck k
              (n.shiftOnce w file)).2) := rfl

/- Filling changes neither ends nor phase. -/
theorem fillWindow_frame
    (k : Nat)
    (i : Int)
    (n : Ncp β) :
    let n' := (fillWindow w file k i n).1
    n'.exited = n.exited ∧
      n'.filenameSend = n.filenameSend ∧
      n'.head = n.head ∧
      n'.tail = n.tail ∧
      n'.eof = n.eof := by
  induction k generalizing i n with
  | zero => exact ⟨rfl, rfl, rfl, rfl, rfl⟩
  | succ k ih => exact ih (i + 1) (n.push w file i)

theorem firstWindow_frame
    (n : Ncp β) :
    let n' := (n.firstWindow w file).1
    n'.exited = n.exited ∧
      n'.filenameSend = n.filenameSend ∧
      n'.head = n.head ∧
      n'.tail = n.tail ∧
      n'.eof = n.eof :=
  fillWindow_frame w file _ _ { n with seq := n.seq + 1 }

/- Shifting only raises the ends of the window. -/
theorem shiftWindow_frame
    (receivedAck : Int)
    (k : Nat)
    {n : Ncp β}
    (hHead : n.head + k ≤ receivedAck + 1) :
    let n' := (shiftWindow w file receivedAck k n).1
    n'.exited = n.exited ∧
      n'.filenameSend = n.filenameSend ∧
      n.head ≤ n'.head ∧
      n.tail ≤ n'.tail := by
  induction k generalizing n with
  | zero => exact ⟨rfl, rfl, le_refl _, le_refl _⟩
  | succ k ih =>
      push_cast at hHead
      have hHead' :
          (n.shiftOnce w file).head = n.head + 1 := rfl
      have hTail' :
          (n.shiftOnce w file).tail = n.tail + 1 := rfl
      dsimp only
      rw [shiftWindow_succ]
      split
      · refine ⟨rfl, rfl, ?_, ?_⟩
        · dsimp only
          omega
        · dsimp only
          omega
      · have hRest :=
          ih (n := n.shiftOnce w file) (by omega)
        refine ⟨hRest.1, hRest.2.1, ?_, ?_⟩
        · have hGrow := hRest.2.2.1
          dsimp only
          omega
        · have hGrow := hRest.2.2.2
          dsimp only
          omega

end Ncp

end P1

end Cs2520

------------------------------------------------------------
-- What Moves a Sender
------------------------------------------------------------

namespace Cs2520

namespace P1

namespace Ncp

open Lib

variable {ρ δ β : Type}
variable (w : Wire ρ δ β)
variable (file : Nat → ρ)

/- Lower bounds of the window that every pass keeps. -/
structure Bounded
    (n : Ncp β) : Prop where
  head : 1 ≤ n.head
  tail : 0 ≤ n.tail

/-
  The main loop does not end on a busy reply, when the window
  is used up, nor in silence, when one packet is left.
-/
def EndsOnAck
    (n : Ncp β)
    (e : Ev) : Prop :=
  n.exited = false → n.filenameSend = true →
    match e with
    | .echo hdr _ =>
        n.eof = true → n.tail ≤ n.head → 0 ≤ hdr.cack
    | .quiet _ => n.head ≠ n.tail

instance (n : Ncp β) (e : Ev) :
    Decidable (EndsOnAck n e) := by
  unfold EndsOnAck
  cases e <;> infer_instance

/-
  A pass leaves the connection loop or moves the window only
  on an ack, and it finishes on one unless it ends without.
-/
structure Moves
    (n : Ncp β)
    (e : Ev)
    (n' : Ncp β) : Prop where
  bounded : Bounded n'
  onAck :
    n'.filenameSend ≠ n.filenameSend ∨
        n'.head ≠ n.head ∨ n'.tail ≠ n.tail →
      ∃ hdr, e.echo? = some hdr ∧ 0 ≤ hdr.cack
  onFinish :
    n'.exited ≠ n.exited → EndsOnAck n e →
      ∃ hdr, e.echo? = some hdr ∧ 0 ≤ hdr.cack

/- A pass that moves nothing and goes on. -/
theorem Bounded.stays
    {n n' : Ncp β}
    (h : Bounded n)
    (e : Ev)
    (hExited : n'.exited = n.exited)
    (hSend : n'.filenameSend = n.filenameSend)
    (hHead : n'.head = n.head)
    (hTail : n'.tail = n.tail) :
    Moves n e n' := by
  refine ⟨⟨?_, ?_⟩, ?_, ?_⟩
  · rw [hHead]
    exact h.head
  · rw [hTail]
    exact h.tail
  · rintro (hMoved | hMoved | hMoved)
    · exact (hMoved hSend).elim
    · exact (hMoved hHead).elim
    · exact (hMoved hTail).elim
  · intro hFinished
    exact (hFinished hExited).elim

/- A pass on an ack that goes on and lowers nothing. -/
theorem Bounded.onAck
    {n n' : Ncp β}
    (h : Bounded n)
    {e : Ev}
    {hdr : Uhdr}
    (hEcho : e.echo? = some hdr)
    (hAck : 0 ≤ hdr.cack)
    (hHead : n.head ≤ n'.head)
    (hTail : n.tail ≤ n'.tail) :
    Moves n e n' := by
  have hPos := h.head
  have hNonneg := h.tail
  refine ⟨⟨by omega, by omega⟩, ?_, ?_⟩
  · intro _
    exact ⟨hdr, hEcho, hAck⟩
  · intro _ _
    exact ⟨hdr, hEcho, hAck⟩

theorem greet_frame
    (n : Ncp β)
    (echo : Option Uhdr)
    (elapsed : Bool) :
    let n' := (n.greet w echo elapsed).1
    n'.exited = n.exited ∧
      n'.head = n.head ∧
      n'.tail = n.tail ∧
      n'.filenameSend =
        (n.filenameSend ||
          echo.any (fun hdr => hdr.cack == 0)) := by
  cases echo <;> cases elapsed <;>
    simp [greet, sendFilename, recvEcho]

theorem connect_moves
    {n : Ncp β}
    (h : Bounded n)
    (hWaiting : n.filenameSend = false)
    {e : Ev}
    (elapsed : Bool) :
    Moves n e (n.connect w file e.echo? elapsed).1 := by
  rcases greet_frame w n e.echo? elapsed with
    ⟨hExited, hHead, hTail, hSend⟩
  unfold connect
  dsimp only
  split
  · next hHeard =>
      rw [hSend, hWaiting, Bool.false_or] at hHeard
      rcases Option.any_eq_true_iff_get _ _ |>.mp hHeard
        with ⟨hSome, hZero⟩
      rcases firstWindow_frame w file
          (n.greet w e.echo? elapsed).1 with
        ⟨_, _, hHead', hTail', _⟩
      refine
        h.onAck (Option.some_get hSome).symm ?_ ?_ ?_
      · rw [beq_iff_eq] at hZero
        exact hZero.ge
      · exact (hHead'.trans hHead).ge
      · exact (hTail'.trans hTail).ge
  · next hNot =>
      refine h.stays e hExited ?_ hHead hTail
      rw [hWaiting]
      exact Bool.eq_false_of_not_eq_true hNot

/- What the main loop does on an echo. -/
inductive Hearing
    (n : Ncp β)
    (hdr : Uhdr) :
    Ncp β × List (Packet δ) → Prop
| finished :
    (n.recvEcho hdr).finishedOn hdr.cack = true →
    Hearing n hdr ((n.recvEcho hdr).finish w)
| old :
    hdr.cack < n.head - 1 →
    Hearing n hdr (n.recvEcho hdr, [])
| repeated :
    hdr.cack = n.head - 1 →
    Hearing n hdr
      (n.recvEcho hdr,
        (n.recvEcho hdr).resendNacks w (List.ofFn hdr.nack))
| jumped :
    n.eof = true →
    n.head ≤ hdr.cack →
    Hearing n hdr
      ({ n.recvEcho hdr with head := hdr.cack + 1 }, [])
| shifted :
    n.eof = false →
    n.head ≤ hdr.cack →
    Hearing n hdr
      ((n.recvEcho hdr).shiftWindow w file hdr.cack
        (hdr.cack + 1 - n.head).toNat)

theorem onEcho_hearing
    (n : Ncp β)
    (hdr : Uhdr) :
    Hearing w file n hdr (n.onEcho w file hdr) := by
  have hHead : (n.recvEcho hdr).head = n.head := rfl
  unfold onEcho
  dsimp only
  split
  · next hEnd => exact .finished hEnd
  · split
    · next hOld => exact .old hOld
    · split
      · next hSame => exact .repeated hSame
      · have hAhead : n.head ≤ hdr.cack := by omega
        split
        · next hEof => exact .jumped hEof hAhead
        · next hMore =>
            exact
              .shifted (Bool.eq_false_of_not_eq_true hMore)
                hAhead

theorem onEcho_moves
    {n : Ncp β}
    (h : Bounded n)
    (hRunning : n.exited = false)
    (hSending : n.filenameSend = true)
    (hdr : Uhdr)
    (elapsed : Bool) :
    Moves n (.echo hdr elapsed) (n.onEcho w file hdr).1 := by
  have hPos := h.head
  have hNonneg := h.tail
  have hHeard := onEcho_hearing w file n hdr
  generalize n.onEcho w file hdr = res at hHeard ⊢
  cases hHeard with
  | finished hEnd =>
      refine ⟨⟨hPos, hNonneg⟩, ?_, ?_⟩
      · rintro (hMoved | hMoved | hMoved) <;>
          exact (hMoved rfl).elim
      · intro _ hOnAck
        refine ⟨hdr, rfl, ?_⟩
        simp only [finishedOn, Bool.and_eq_true,
          Bool.or_eq_true, decide_eq_true_eq] at hEnd
        rcases hEnd with ⟨hEof, hAcked | hPassed⟩
        · have hTail : (n.recvEcho hdr).tail = n.tail := rfl
          omega
        · exact hOnAck hRunning hSending hEof hPassed
  | old _ => exact h.stays _ rfl rfl rfl rfl
  | repeated _ => exact h.stays _ rfl rfl rfl rfl
  | jumped _ hAhead =>
      exact
        h.onAck rfl (by omega) (by dsimp only; omega)
          (le_refl _)
  | shifted _ hAhead =>
      have hHead : (n.recvEcho hdr).head = n.head := rfl
      rcases shiftWindow_frame w file hdr.cack
          (hdr.cack + 1 - n.head).toNat
          (n := n.recvEcho hdr) (by omega) with
        ⟨_, _, hHead', hTail'⟩
      exact h.onAck rfl (by omega) hHead' hTail'

theorem onTimeout_moves
    {n : Ncp β}
    (h : Bounded n)
    (hRunning : n.exited = false)
    (hSending : n.filenameSend = true)
    (elapsed : Bool) :
    Moves n (.quiet elapsed) (n.onTimeout w).1 := by
  unfold onTimeout
  split
  · next hLast =>
      refine ⟨⟨h.head, h.tail⟩, ?_, ?_⟩
      · rintro (hMoved | hMoved | hMoved) <;>
          exact (hMoved rfl).elim
      · intro _ hOnAck
        exact absurd hLast (hOnAck hRunning hSending)
  · exact h.stays _ rfl rfl rfl rfl

theorem step_moves
    {n : Ncp β}
    (h : Bounded n)
    (e : Ev) :
    Moves n e (step w file n e).1 := by
  unfold step
  split
  · exact h.stays e rfl rfl rfl rfl
  · next hRuns =>
    have hRunning := Bool.eq_false_of_not_eq_true hRuns
    split
    · next hSending =>
        cases e with
        | quiet elapsed =>
            exact
              onTimeout_moves w h hRunning hSending elapsed
        | echo hdr elapsed =>
            exact
              onEcho_moves w file h hRunning hSending hdr
                elapsed
    · next hWaiting =>
        have hFalse :=
          Bool.eq_false_of_not_eq_true hWaiting
        cases e with
        | quiet elapsed =>
            exact connect_moves w file h hFalse elapsed
        | echo hdr elapsed =>
            exact connect_moves w file h hFalse elapsed

/- A pass that does not end on an ack ends without one. -/
theorem exits_of_not_endsOnAck
    {n : Ncp β}
    {e : Ev}
    (hEnds : ¬ EndsOnAck n e) :
    (step w file n e).1.exited ≠ n.exited ∧
      ¬ ∃ hdr, e.echo? = some hdr ∧ 0 ≤ hdr.cack := by
  simp only [EndsOnAck, Classical.not_imp] at hEnds
  rcases hEnds with ⟨hRunning, hSending, hLast⟩
  cases e with
  | quiet elapsed =>
      have hSame : n.head = n.tail := not_not.mp hLast
      have hStep :
          step w file n (.quiet elapsed) = n.finish w := by
        simp [step, onTimeout, hRunning, hSending, hSame]
      rw [hStep, hRunning]
      refine ⟨Bool.noConfusion, ?_⟩
      rintro ⟨hdr, hNone, _⟩
      cases hNone
  | echo hdr elapsed =>
      simp only [Classical.not_imp] at hLast
      rcases hLast with ⟨hEof, hPassed, hBusy⟩
      have hEnd :
          (n.recvEcho hdr).finishedOn hdr.cack = true := by
        simp [finishedOn, recvEcho, hEof, hPassed]
      have hStep :
          step w file n (.echo hdr elapsed) =
            (n.recvEcho hdr).finish w := by
        simp [step, onEcho, hRunning, hSending, hEnd]
      rw [hStep, hRunning]
      refine ⟨Bool.noConfusion, ?_⟩
      rintro ⟨hdr', hSome, hAck⟩
      cases hSome
      exact hBusy hAck

end Ncp

end P1

end Cs2520
