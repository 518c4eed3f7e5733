import Cs2520.P1.Reassembly

/-
  What one pass of the receiver's loop can do, and where its
  echoes come from.

  `Pass` lists the branches of the loop body once; results
  about every pass are case analyses on it.

  Main declarations:
    * `Pass`
    * `step_pass`
    * `Serves.step_cases`
    * `Assembled.step`
    * `sendto_of_expected`
    * `sendto_of_outOfOrder`
    * `EchoOf`
    * `echoOf_of_sendto`
-/

------------------------------------------------------------
-- The Branches of One Pass
------------------------------------------------------------

namespace Cs2520

namespace P1

namespace Rcv

open Lib

variable {A ρ δ β : Type} [DecidableEq A]
variable (w : Wire ρ δ β)
variable (canOpen : β → Bool)

theorem step_exited
    {r : Rcv A β}
    (hExited : r.exited = true)
    (e : Ev A δ) :
    step w canOpen r e = (r, []) := by
  cases e <;> simp [step, hExited]

theorem step_timer
    {r : Rcv A β}
    (hRunning : r.exited = false) :
    step w canOpen r .timer = r.timer := by
  simp [step, hRunning]

/- Without a session only a filename has an effect. -/
theorem step_idle
    {r : Rcv A β}
    (hRunning : r.exited = false)
    (hIdle : r.hassender = false)
    (fromAddr : A)
    (pkt : Packet δ) :
    step w canOpen r (.recv fromAddr pkt) =
      if pkt.hdr.seq = 0 then
        (r.recvfrom w fromAddr pkt).accept canOpen
      else
        (r.recvfrom w fromAddr pkt, []) := by
  simp [step, recv, recvfrom, hRunning, hIdle]

/- Any other sender gets the busy reply. -/
theorem step_busy
    {r : Rcv A β}
    (hRunning : r.exited = false)
    (hOpen : r.hassender = true)
    {fromAddr : A}
    (hOther : r.current ≠ fromAddr)
    (pkt : Packet δ) :
    step w canOpen r (.recv fromAddr pkt) =
      (r.recvfrom w fromAddr pkt).busy := by
  simp [step, recv, recvfrom, hRunning, hOpen, hOther]

/- The number -1 of the current sender ends the session. -/
theorem step_finish
    {r : Rcv A β}
    {a : A}
    (hServes : Serves r a)
    {pkt : Packet δ}
    (hEnd : pkt.hdr.seq = -1) :
    step w canOpen r (.recv a pkt) =
      ({ r.recvfrom w a pkt with hassender := false },
        []) := by
  rcases hServes with ⟨hRunning, hOpen, hCurrent⟩
  simp [step, recv, recvfrom, hRunning, hOpen, hCurrent,
    hEnd]

/- The branches of one pass, with what each one returns. -/
inductive Pass
    (r : Rcv A β) :
    Ev A δ → Rcv A β × List (Out A β) → Prop where
| exited {e} :
    r.exited = true →
    Pass r e (r, [])
| timer :
    r.exited = false →
    Pass r .timer r.timer
| ignored {a pkt} :
    r.exited = false →
    r.hassender = false →
    pkt.hdr.seq ≠ 0 →
    Pass r (.recv a pkt) (r.recvfrom w a pkt, [])
| accept {a pkt} :
    r.exited = false →
    r.hassender = false →
    pkt.hdr.seq = 0 →
    Pass r (.recv a pkt)
      ((r.recvfrom w a pkt).accept canOpen)
| busy {a pkt} :
    Serves r r.current →
    r.current ≠ a →
    Pass r (.recv a pkt) (r.recvfrom w a pkt).busy
| finish {a pkt} :
    Serves r a →
    pkt.hdr.seq = -1 →
    Pass r (.recv a pkt)
      ({ r.recvfrom w a pkt with hassender := false }, [])
| expected {a pkt} :
    Serves r a →
    pkt.hdr.seq ≠ -1 →
    pkt.hdr.seq = r.cAck + 1 →
    Pass r (.recv a pkt) ((r.recvfrom w a pkt).expected w)
| outOfOrder {a pkt} :
    Serves r a →
    pkt.hdr.seq ≠ -1 →
    pkt.hdr.seq ≠ r.cAck + 1 →
    Pass r (.recv a pkt) (r.recvfrom w a pkt).outOfOrder

/- Every pass takes one of the branches. -/
theorem step_pass
    (r : Rcv A β)
    (e : Ev A δ) :
    Pass w canOpen r e (step w canOpen r e) := by
  cases hExited : r.exited with
  | true =>
      rw [step_exited w canOpen hExited]
      exact .exited hExited
  | false =>
      cases e with
      | timer =>
          rw [step_timer w canOpen hExited]
          exact .timer hExited
      | recv a pkt =>
          cases hOpen : r.hassender with
          | false =>
              rw [step_idle w canOpen hExited hOpen]
              split
              · next hName =>
                  exact .accept hExited hOpen hName
              · next hOther =>
                  exact .ignored hExited hOpen hOther
          | true =>
              by_cases hCurrent : r.current = a
              · have hServes : Serves r a :=
                  ⟨hExited, hOpen, hCurrent⟩
                by_cases hEnd : pkt.hdr.seq = -1
                · rw [step_finish w canOpen hServes hEnd]
                  exact .finish hServes hEnd
                · rw [step_data w canOpen hServes hEnd]
                  split
                  · next hSeq =>
                      exact .expected hServes hEnd hSeq
                  · next hSeq =>
                      exact .outOfOrder hServes hEnd hSeq
              · rw [step_busy w canOpen hExited hOpen
                  hCurrent]
                exact
                  .busy ⟨hExited, hOpen, rfl⟩ hCurrent

/- Case 1 raises `C_ack`. -/
omit [DecidableEq A] in
theorem expected_cAck_lt
    (r : Rcv A β) :
    r.cAck < (r.expected w).1.cAck := by
  have hCount :=
    drain_count w 99 ((r.printData w).cAck + 1)
      (r.printData w)
  have hPrinted : (r.printData w).cAck = r.cAck + 1 := rfl
  rw [(expected_agrees w r).2.1, drained_eq]
  omega

/- `C_ack` starts at 0, is reset to 0, and never falls. -/
theorem step_cAck_nonneg
    {r : Rcv A β}
    (h : 0 ≤ r.cAck)
    (e : Ev A δ) :
    0 ≤ (step w canOpen r e).1.cAck := by
  have hPass := step_pass w canOpen r e
  generalize step w canOpen r e = res at hPass ⊢
  cases hPass with
  | exited _ => exact h
  | timer _ =>
      rw [timer]
      split
      · exact h
      · exact h
  | ignored _ _ _ => exact h
  | accept _ _ _ =>
      unfold accept
      dsimp only [echo]
      split
      · exact le_refl _
      · exact h
  | busy _ _ => exact h
  | finish _ _ => exact h
  | @expected a pkt _ _ _ =>
      exact h.trans (expected_cAck_lt w _).le
  | @outOfOrder a pkt _ _ _ =>
      rw [(outOfOrder_frame _).2.2.2.2.1]
      exact h

/- A pass that leaves the session's progress as it was. -/
structure Idles
    (r r' : Rcv A β) : Prop where
  ring : r'.toRingBuffer = r.toRingBuffer
  cAck : r'.cAck = r.cAck
  fw : r'.fw = r.fw
  exited : r'.exited = r.exited
  current : r'.current = r.current

/-
  While `a` is served, only the data packets of `a` make
  progress.
-/
theorem Serves.step_cases
    {r : Rcv A β}
    {a : A}
    (hServes : Serves r a)
    (e : Ev A δ) :
    Idles r (step w canOpen r e).1 ∨
      ∃ pkt, e = .recv a pkt ∧ pkt.hdr.seq ≠ -1 := by
  have hPass := step_pass w canOpen r e
  have hOpen := hServes.hassender
  have hRunning := hServes.running
  have hCurrent := hServes.current
  generalize step w canOpen r e = res at hPass ⊢
  cases hPass with
  | exited hExited =>
      rw [hRunning] at hExited
      cases hExited
  | timer _ =>
      left
      rw [timer, if_pos hOpen]
      exact ⟨rfl, rfl, rfl, rfl, rfl⟩
  | ignored _ hIdle _ =>
      rw [hOpen] at hIdle
      cases hIdle
  | accept _ hIdle _ =>
      rw [hOpen] at hIdle
      cases hIdle
  | busy _ _ => exact Or.inl ⟨rfl, rfl, rfl, rfl, rfl⟩
  | finish _ _ => exact Or.inl ⟨rfl, rfl, rfl, rfl, rfl⟩
  | expected hServes' hData _ =>
      rw [← hServes'.current, hCurrent]
      exact Or.inr ⟨_, rfl, hData⟩
  | outOfOrder hServes' hData _ =>
      rw [← hServes'.current, hCurrent]
      exact Or.inr ⟨_, rfl, hData⟩

/- A serving receiver runs on and keeps its sender. -/
theorem Serves.step_frame
    {r : Rcv A β}
    {a : A}
    (hServes : Serves r a)
    (e : Ev A δ) :
    (step w canOpen r e).1.exited = false ∧
      (step w canOpen r e).1.current = a := by
  rcases hServes.step_cases w canOpen e with
    hIdles | ⟨pkt, rfl, hData⟩
  · exact
      ⟨hIdles.exited.trans hServes.running,
        hIdles.current.trans hServes.current⟩
  · have hNext := hServes.step_data w canOpen hData
    exact ⟨hNext.running, hNext.current⟩

/- While `a` is served, `C_ack` never falls. -/
theorem Serves.cAck_le
    {r : Rcv A β}
    {a : A}
    (hServes : Serves r a)
    (e : Ev A δ) :
    r.cAck ≤ (step w canOpen r e).1.cAck := by
  rcases hServes.step_cases w canOpen e with
    hIdles | ⟨pkt, rfl, hData⟩
  · exact hIdles.cAck.ge
  · rw [Rcv.step_data w canOpen hServes hData]
    split
    · exact (expected_cAck_lt w (r.recvfrom w a pkt)).le
    · exact (outOfOrder_frame _).2.2.2.2.1.ge

/- One pass while `a` is served keeps the assembly. -/
theorem Assembled.step
    {good : Packet β → Prop}
    {r : Rcv A β}
    {a : A}
    (h : Assembled good r)
    (hServes : Serves r a)
    {e : Ev A δ}
    (hGood :
      ∀ pkt, e = .recv a pkt →
        r.cAck + 1 ≤ pkt.hdr.seq →
          good (r.recvfrom w a pkt).messBuf)
    (hRoom : ¬ FullAtExpected r e) :
    Assembled good (step w canOpen r e).1 := by
  rcases hServes.step_cases w canOpen e with
    hIdles | ⟨pkt, rfl, hData⟩
  · unfold Assembled
    rw [hIdles.cAck]
    exact
      InOrder.congr h hIdles.ring hIdles.cAck hIdles.fw
  · exact
      h.step_data w canOpen hServes hData
        (hGood pkt rfl) hRoom

end Rcv

end P1

end Cs2520

------------------------------------------------------------
-- Echoes
------------------------------------------------------------

namespace Cs2520

namespace P1

namespace Rcv

open Lib

variable {A ρ δ β : Type}
variable (w : Wire ρ δ β)

/- The search itself sends nothing. -/
theorem not_sendto_of_drain
    (n : Nat)
    (j : Int)
    (r : Rcv A β)
    (dest : A)
    (hdr : Uhdr) :
    Out.sendto dest hdr ∉ (drain w n j r).2 := by
  intro hMem
  rcases mem_drain w hMem with ⟨_, _, hPrint⟩
  cases hPrint

/- Case 1 acknowledges the new `C_ack`. -/
theorem sendto_of_expected
    {r : Rcv A β}
    {dest : A}
    {hdr : Uhdr}
    (hSend : Out.sendto dest hdr ∈ (r.expected w).2) :
    dest = r.fromAddr ∧
      hdr.cack = (r.expected w).1.cAck := by
  have hFrame := expected_frame w r
  unfold expected at hSend hFrame ⊢
  by_cases hEmpty : r.buffersize = 0
  · rw [if_pos hEmpty] at hSend ⊢
    simp only [echo, List.mem_cons, List.not_mem_nil,
      or_false, reduceCtorEq, false_or, Out.sendto.injEq]
      at hSend
    rcases hSend with ⟨rfl, rfl⟩
    exact ⟨rfl, rfl⟩
  · rw [if_neg hEmpty] at hSend hFrame ⊢
    simp only [echo, List.mem_cons, List.mem_append,
      List.not_mem_nil, or_false, reduceCtorEq, false_or,
      not_sendto_of_drain, Out.sendto.injEq] at hSend
    rcases hSend with ⟨rfl, rfl⟩
    exact ⟨hFrame.2.2.2, rfl⟩

/- Case 2 repeats the present `C_ack`. -/
theorem sendto_of_outOfOrder
    {r : Rcv A β}
    {dest : A}
    {hdr : Uhdr}
    (hSend : Out.sendto dest hdr ∈ r.outOfOrder.2) :
    dest = r.fromAddr ∧ hdr.cack = r.cAck := by
  unfold outOfOrder at hSend
  dsimp only at hSend
  split at hSend
  · split at hSend
    · split at hSend
      · split at hSend <;>
          simp only [echo, List.mem_singleton,
            Out.sendto.injEq] at hSend <;>
          exact ⟨hSend.1, by rw [hSend.2]⟩
      · cases hSend
    · cases hSend
  · cases hSend

variable [DecidableEq A]
variable (canOpen : β → Bool)

/-
  Where an echo of one pass comes from: the timer, an
  accepted filename, the busy reply, or a data packet of the
  current sender.
-/
inductive EchoOf
    (r : Rcv A β) : Ev A δ → A → Uhdr → Prop where
| timer {hdr} :
    r.hassender = true →
    hdr.cack = r.cAck →
    EchoOf r .timer r.fromAddr hdr
| accepted {a pkt hdr} :
    Accepts w canOpen r pkt →
    hdr.cack = 0 →
    EchoOf r (.recv a pkt) a hdr
| busy {a pkt hdr} :
    r.hassender = true →
    r.current ≠ a →
    hdr.cack = -1 →
    EchoOf r (.recv a pkt) a hdr
| data {a pkt hdr} :
    Serves r a →
    pkt.hdr.seq ≠ -1 →
    hdr.cack = (step w canOpen r (.recv a pkt)).1.cAck →
    EchoOf r (.recv a pkt) a hdr

/- Every echo of a pass has one of these origins. -/
theorem echoOf_of_sendto
    {r : Rcv A β}
    {e : Ev A δ}
    {dest : A}
    {hdr : Uhdr}
    (hSend :
      Out.sendto dest hdr ∈ (step w canOpen r e).2) :
    EchoOf w canOpen r e dest hdr := by
  have hPass := step_pass w canOpen r e
  -- the origin `data` speaks about the state after the pass
  obtain ⟨res, hRes⟩ :
      ∃ res, res = step w canOpen r e := ⟨_, rfl⟩
  rw [← hRes] at hPass hSend
  cases hPass with
  | exited _ => cases hSend
  | timer _ =>
      rw [timer] at hSend
      split at hSend
      · next hOpen =>
          simp only [echo, List.mem_singleton,
            Out.sendto.injEq] at hSend
          rcases hSend with ⟨rfl, rfl⟩
          exact .timer hOpen rfl
      · cases hSend
  | ignored _ _ _ => cases hSend
  | accept hRunning hIdle hName =>
      unfold accept at hSend
      dsimp only [echo] at hSend
      split at hSend
      · next hCan =>
          simp only [List.mem_cons, reduceCtorEq, false_or,
            List.not_mem_nil, or_false, Out.sendto.injEq]
            at hSend
          rcases hSend with ⟨rfl, rfl⟩
          exact
            .accepted ⟨hRunning, hIdle, hName, hCan⟩ rfl
      · simp at hSend
  | busy hServes hOther =>
      simp only [Rcv.busy, echo, List.mem_singleton,
        Out.sendto.injEq] at hSend
      rcases hSend with ⟨rfl, rfl⟩
      exact .busy hServes.hassender hOther rfl
  | finish _ _ => cases hSend
  | expected hServes hData _ =>
      rcases sendto_of_expected w hSend with ⟨rfl, hCack⟩
      exact .data hServes hData (by rw [← hRes]; exact hCack)
  | outOfOrder hServes hData _ =>
      rcases sendto_of_outOfOrder hSend with ⟨rfl, hCack⟩
      refine .data hServes hData ?_
      rw [← hRes, hCack]
      exact (outOfOrder_frame _).2.2.2.2.1.symm

end Rcv

end P1

end Cs2520
