import Cs2520.P1.Completion

/-
  What old datagrams of a finished transfer can do.

  The receiver has no memory of finished transfers. A copy
  of the filename packet that it handles while no session is
  open starts the transfer again; no other datagram does.

  Main declarations:
    * `Out.touchesFile`
    * `Apart`
    * `Apart.step`
    * `untouched_iff_no_idle_filename`
    * `reopened`
-/

------------------------------------------------------------
-- Outside a Session
------------------------------------------------------------

namespace Cs2520

namespace P1

namespace Rcv

open Lib

variable {A ρ δ β : Type} [DecidableEq A]
variable (w : Wire ρ δ β)
variable (canOpen : β → Bool)

/- Opening with mode "w" and printing change the file. -/
def Out.touchesFile :
    Out A β → Bool
  | .sendto _ _ => false
  | .fopen _ => true
  | .printData _ => true
  | .printSlot _ _ => true

/- The receiver has no open session with `a`. -/
def Apart
    (a : A)
    (r : Rcv A β) : Prop :=
  r.exited = true ∨ r.hassender = false ∨ r.current ≠ a

/- A filename of `a` is handled while a session is open. -/
def FilenameInSession
    (a : A)
    (r : Rcv A β)
    (e : Ev A δ) : Prop :=
  ∀ pkt, e = .recv a pkt → pkt.hdr.seq = 0 →
    r.exited = true ∨ r.hassender = true

/- The output that a datagram of `a` causes. -/
def TouchesFor
    (a : A)
    (e : Ev A δ)
    (out : List (Out A β)) : Prop :=
  ∃ pkt, e = .recv a pkt ∧ ∃ o ∈ out, o.touchesFile = true

/- Accepting makes the datagram's sender the current one. -/
omit [DecidableEq A] in
theorem accept_frame
    (r : Rcv A β) :
    (r.accept canOpen).1.current = r.fromAddr ∧
      Out.fopen r.messBuf.data ∈ (r.accept canOpen).2 := by
  unfold accept
  dsimp only [echo]
  split
  · exact ⟨rfl, List.mem_cons_self⟩
  · exact ⟨rfl, List.mem_cons_self⟩

/- A filename without an open session opens the file. -/
theorem touchesFor_of_idle_filename
    {r : Rcv A β}
    {a : A}
    {pkt : Packet δ}
    (hRunning : r.exited = false)
    (hIdle : r.hassender = false)
    (hName : pkt.hdr.seq = 0) :
    TouchesFor a (.recv a pkt)
      (step w canOpen r (.recv a pkt)).2 := by
  rw [step_idle w canOpen hRunning hIdle, if_pos hName]
  exact
    ⟨pkt, rfl, _, (accept_frame canOpen _).2, rfl⟩

/- Whoever is served has an open session. -/
omit [DecidableEq A] in
theorem Apart.ne_of_serves
    {a b : A}
    {r : Rcv A β}
    (h : Apart a r)
    (hServes : Serves r b) :
    b ≠ a := by
  rcases h with hExited | hIdle | hOther
  · rw [hServes.running] at hExited
    cases hExited
  · rw [hServes.hassender] at hIdle
    cases hIdle
  · rw [← hServes.current]
    exact hOther

/- Datagrams of others cause no output for `a`. -/
omit [DecidableEq A] in
theorem not_touchesFor_of_ne
    {a b : A}
    {pkt : Packet δ}
    {out : List (Out A β)}
    (hOther : b ≠ a) :
    ¬ TouchesFor a (.recv b pkt) out := by
  rintro ⟨pkt', hEv, _⟩
  cases hEv
  exact hOther rfl

omit [DecidableEq A] in
theorem not_touchesFor_nil
    (a : A)
    (e : Ev A δ) :
    ¬ TouchesFor a e ([] : List (Out A β)) := by
  rintro ⟨_, _, o, hMem, _⟩
  cases hMem

/-
  Without a session with `a`, a pass starts none and touches
  no file for `a`, unless it handles a filename of `a`.
-/
theorem Apart.step
    {a : A}
    {r : Rcv A β}
    (h : Apart a r)
    {e : Ev A δ}
    (hName : FilenameInSession a r e) :
    Apart a (step w canOpen r e).1 ∧
      ¬ TouchesFor a e (step w canOpen r e).2 := by
  have hPass := step_pass w canOpen r e
  generalize Rcv.step w canOpen r e = res at hPass ⊢
  cases hPass with
  | exited _ => exact ⟨h, not_touchesFor_nil a e⟩
  | timer _ =>
      refine ⟨?_, ?_⟩
      · rw [timer]
        split
        · exact h
        · exact h
      · rintro ⟨_, hEv, _⟩
        cases hEv
  | ignored _ hIdle _ =>
      exact ⟨Or.inr (Or.inl hIdle), not_touchesFor_nil a _⟩
  | @accept b pkt hRunning hIdle hSeq =>
      have hOther : b ≠ a := by
        rintro rfl
        have hSession := hName pkt rfl hSeq
        simp [hRunning, hIdle] at hSession
      refine
        ⟨Or.inr (Or.inr ?_), not_touchesFor_of_ne hOther⟩
      rw [(accept_frame canOpen _).1]
      exact hOther
  | busy hServes _ =>
      refine
        ⟨Or.inr (Or.inr (h.ne_of_serves hServes)), ?_⟩
      rintro ⟨_, _, o, hMem, hTouch⟩
      simp only [Rcv.busy, echo, List.mem_singleton] at hMem
      subst hMem
      cases hTouch
  | finish _ _ =>
      exact ⟨Or.inr (Or.inl rfl), not_touchesFor_nil a _⟩
  | @expected b pkt hServes _ _ =>
      have hOther := h.ne_of_serves hServes
      refine
        ⟨Or.inr (Or.inr ?_), not_touchesFor_of_ne hOther⟩
      rw [(expected_frame w _).2.2.1]
      exact h.ne_of_serves ⟨hServes.1, hServes.2, rfl⟩
  | @outOfOrder b pkt hServes _ _ =>
      have hOther := h.ne_of_serves hServes
      refine
        ⟨Or.inr (Or.inr ?_), not_touchesFor_of_ne hOther⟩
      rw [(outOfOrder_frame _).2.2.1]
      exact h.ne_of_serves ⟨hServes.1, hServes.2, rfl⟩

end Rcv

end P1

end Cs2520

------------------------------------------------------------
-- After the Finish
------------------------------------------------------------

namespace Cs2520

namespace P1

namespace Rcv

open Lib

variable {A ρ δ β : Type} [DecidableEq A]
variable (w : Wire ρ δ β)
variable (canOpen : β → Bool)

/-
  After the number -1 of `a`, its datagrams touch no file
  exactly when no filename of `a` is handled while no session
  is open.
-/
theorem untouched_iff_no_idle_filename
    {r : Rcv A β}
    {a : A}
    {fin : Packet δ}
    (hServes : Serves r a)
    (hEnd : fin.hdr.seq = -1)
    (es : List (Ev A δ)) :
    (∀ e ∈ (machine w canOpen).trace
          (step w canOpen r (.recv a fin)).1 es,
        ¬ TouchesFor a e.2 (step w canOpen e.1 e.2).2) ↔
      ∀ e ∈ (machine w canOpen).trace
          (step w canOpen r (.recv a fin)).1 es,
        FilenameInSession a e.1 e.2 := by
  have hApart :
      Apart a (step w canOpen r (.recv a fin)).1 := by
    rw [step_finish w canOpen hServes hEnd]
    exact Or.inr (Or.inl rfl)
  constructor
  · rintro hNever ⟨t, e⟩ hMem pkt rfl hName
    by_contra hIdle
    rw [not_or] at hIdle
    apply hNever _ hMem
    exact
      touchesFor_of_idle_filename w canOpen
        (Bool.eq_false_of_not_eq_true hIdle.1)
        (Bool.eq_false_of_not_eq_true hIdle.2) hName
  · rintro hAll ⟨t, e⟩ hMem
    rcases (Machine.mem_trace_iff _ _ _ _ _).mp hMem with
      ⟨pre, post, rfl, rfl⟩
    have hBefore :
        Apart a
          ((machine w canOpen).run
            (step w canOpen r (.recv a fin)).1 pre) := by
      apply Machine.run_invariant _
        (fun t e => FilenameInSession a t e)
      · intro t e hApart hOk
        exact (hApart.step w canOpen hOk).1
      · intro e hPre
        apply hAll
        rw [Machine.trace_append]
        exact List.mem_append_left _ hPre
      · exact hApart
    exact (hBefore.step w canOpen (hAll _ hMem)).2

/- The number -1 after all chunks of a file. -/
def finishPacket : Packet Nat :=
  { hdr := { cack := 101, nack := noNack, seq := -1 }
    data := 100 }

/- The receiver after a filename and a finish packet. -/
def finished : Rcv Unit Nat :=
  (opaqueMachine (fun _ => true)).run waiting
    [.recv () (chunkPacket 0), .recv () finishPacket]

/- A late chunk finds the file closed. -/
theorem untouched_late_chunk :
    ¬ TouchesFor () (.recv () (chunkPacket 3))
      (step (Wire.opaquePayload Nat) (fun _ => true)
        finished (.recv () (chunkPacket 3))).2 :=
  (untouched_iff_no_idle_filename
    (Wire.opaquePayload Nat) (fun _ => true)
    ⟨rfl, rfl, rfl⟩ rfl [.recv () (chunkPacket 3)]).mpr
    (by
      intro e hMem pkt hEv hName
      rw [Machine.trace_cons, Machine.trace_nil,
        List.mem_singleton] at hMem
      subst hMem
      cases hEv
      simp [chunkPacket] at hName)
    (finished, .recv () (chunkPacket 3))
    List.mem_cons_self

end Rcv

namespace Session

open Lib

/-
  A whole transfer, then a copy of its filename: the file is
  opened with mode "w" again.
-/
theorem reopened :
    ¬ ∀ s : Net Unit Nat,
      Link.Reachable (sender (chunksOf 100))
          (receiver (fun _ => true) ())
          (Accepted (fun _ => true) ()) Open s →
        s.right.hassender = false →
          ∀ pkt ∈ s.toRight,
            ¬ Rcv.TouchesFor () (.recv () pkt)
              (Rcv.step (Wire.opaquePayload Nat)
                (fun _ => true) s.right
                (.recv () pkt)).2 := by
  intro hAll
  refine
    hAll
      (Link.runActs (sender (chunksOf 100))
        (receiver (fun _ => true) ())
        (begun (fun _ => true) () (chunkPacket 0))
        (lastAcked ++ [.inr (.recv () Rcv.finishPacket)]))
      (Link.reachable_runActs
        (.start (accepted_begun _ () rfl rfl))
        (by decide +kernel))
      (by decide +kernel) (chunkPacket 0)
      (by decide +kernel) ?_
  exact
    Rcv.touchesFor_of_idle_filename _ _
      (by decide +kernel) (by decide +kernel) rfl

end Session

end P1

end Cs2520
