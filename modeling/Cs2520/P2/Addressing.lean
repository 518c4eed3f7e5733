import Cs2520.P2.Serving

/-
  Where the real-time sender sends its stream.

  The stream goes to whoever was heard last, and an ACK is
  answered wherever it came from. Both are the accepted
  client only as long as no other client interferes.

  Main declarations:
    * `StaysWith`
    * `Undisturbed`
    * `stays_iff_undisturbed`
    * `stream_follows_request`
-/

------------------------------------------------------------
-- One Pass
------------------------------------------------------------

namespace Cs2520

namespace P2

namespace RtSrv

open Lib

variable {A : Type} [DecidableEq A]

/- Data, ACKACKs and resent data all go to `a`. -/
def StaysWith
    (a : A)
    (out : List (A × Package)) : Prop :=
  ∀ m ∈ out,
    m.2.type = 0 ∨ m.2.type = 1 ∨ m.2.type = 6 → m.1 = a

/-
  A record is only handled while the last datagram on the
  client port was from `a`, and ACKs only come from `a`.
-/
structure Undisturbed
    (a : A)
    (s : RtSrv A)
    (e : Ev A) : Prop where
  record :
    s.exited = false → s.hung = false →
      ∀ r, e.app = some (some r) → s.rcvAddr = a
  ack :
    s.exited = false → s.hung = false →
      e.app ≠ some none →
        ∀ b pkt,
          e.rcv = some (b, pkt) → pkt.type = 2 → b = a

omit [DecidableEq A] in
theorem staysWith_append
    {a : A}
    {out out' : List (A × Package)} :
    StaysWith a (out ++ out') ↔
      StaysWith a out ∧ StaysWith a out' := by
  unfold StaysWith
  rw [List.forall_mem_append]

/- A record is sent to where the last datagram came from. -/
omit [DecidableEq A] in
theorem staysWith_onApp_iff
    (c : Clocks)
    (s : RtSrv A)
    (r : StreamPkt)
    (a : A) :
    StaysWith a (s.onApp c r).2 ↔ s.rcvAddr = a := by
  have hType : (s.onApp c r).1.rcvPkt.type = 0 := by
    unfold onApp
    dsimp only
  rw [onApp_out]
  constructor
  · intro hStays
    exact hStays _ List.mem_cons_self (Or.inl hType)
  · intro hLast m hMem _
    rw [List.mem_singleton.mp hMem]
    exact hLast

/- ACKs are answered wherever they came from. -/
theorem staysWith_onRcv_iff
    (c : Clocks)
    (s : RtSrv A)
    (b : A)
    (pkt : Package)
    (a : A) :
    StaysWith a (s.onRcv c b pkt).2 ↔
      (pkt.type = 2 → b = a) := by
  constructor
  · intro hStays hAck
    rcases onRcv_ackack c s b hAck with ⟨p, hType, hMem⟩
    exact hStays _ hMem (Or.inr (Or.inl hType))
  · intro hOwn m hMem hType
    rcases onRcv_out c s b pkt m hMem with
      ⟨hDest, hDecline | ⟨hAck, _⟩⟩
    · omega
    · exact hDest.trans (hOwn hAck)

omit [DecidableEq A] in
theorem staysWith_nil
    (a : A) :
    StaysWith a [] := by
  intro m hMem
  cases hMem

theorem staysWith_rcvPart_iff
    (c : Clocks)
    (s : RtSrv A)
    (rcv : Option (A × Package))
    (a : A) :
    StaysWith a (s.rcvPart c rcv).2 ↔
      ∀ b pkt,
        rcv = some (b, pkt) → pkt.type = 2 → b = a := by
  cases rcv with
  | none =>
      refine ⟨?_, fun _ => staysWith_nil a⟩
      intro _ b pkt hNone
      cases hNone
  | some packet =>
      rcases packet with ⟨b, pkt⟩
      rw [rcvPart, staysWith_onRcv_iff]
      constructor
      · intro hOwn b' pkt' hSome
        cases hSome
        exact hOwn
      · intro hOwn
        exact hOwn b pkt rfl

/- The main loop stays with `a` exactly when undisturbed. -/
theorem staysWith_mainPass_iff
    {s : RtSrv A}
    (hRunning : s.exited = false)
    (hLive : s.hung = false)
    (e : Ev A)
    (a : A) :
    StaysWith a (s.mainPass e).2 ↔ Undisturbed a s e := by
  rcases e with ⟨_ | _ | r, rcv, c⟩
  · rw [mainPass_out_quiet, staysWith_rcvPart_iff]
    constructor
    · intro hOwn
      refine ⟨?_, fun _ _ _ => hOwn⟩
      intro _ _ r hRecord
      cases hRecord
    · intro hOk
      apply hOk.ack hRunning hLive
      intro hExit
      cases hExit
  · constructor
    · intro _
      refine ⟨?_, fun _ _ hApp => (hApp rfl).elim⟩
      intro _ _ r hRecord
      cases hRecord
    · intro _
      exact staysWith_nil a
  · rw [mainPass_out_record, staysWith_append,
      staysWith_onApp_iff, staysWith_rcvPart_iff]
    constructor
    · rintro ⟨hLast, hOwn⟩
      exact ⟨fun _ _ _ _ => hLast, fun _ _ _ => hOwn⟩
    · intro hOk
      constructor
      · exact hOk.record hRunning hLive r rfl
      · apply hOk.ack hRunning hLive
        intro hExit
        cases hExit

theorem staysWith_step_iff
    {s : RtSrv A}
    (hRequest : s.request = true)
    (e : Ev A)
    (a : A) :
    StaysWith a (step s e).2 ↔ Undisturbed a s e := by
  unfold step
  split
  · next hStopped =>
      refine ⟨fun _ => ?_, fun _ => staysWith_nil a⟩
      have hNot :
          s.exited = false → s.hung = false → False := by
        intro hRunning hLive
        simp [hRunning, hLive] at hStopped
      exact
        ⟨fun hRunning hLive => (hNot hRunning hLive).elim,
          fun hRunning hLive => (hNot hRunning hLive).elim⟩
  · next hGoing =>
      rw [not_or] at hGoing
      exact
        staysWith_mainPass_iff
          (Bool.eq_false_of_not_eq_true hGoing.1)
          (Bool.eq_false_of_not_eq_true hGoing.2) e a

end RtSrv

end P2

end Cs2520

------------------------------------------------------------
-- Whole Runs
------------------------------------------------------------

namespace Cs2520

namespace P2

namespace RtSrv

open Lib

variable {A : Type} [DecidableEq A]

/- The server is in the request loop. -/
structure Waiting
    (s : RtSrv A) : Prop where
  running : s.exited = false
  live : s.hung = false
  request : s.request = false

/- The pass in which `a` asks for the stream. -/
def asks
    (a : A)
    (req : Package)
    (c : Clocks) : Ev A where
  app := none
  rcv := some (a, req)
  clocks := c

/- Being the accepted client, in the main loop. -/
def Accepted
    (a : A)
    (s : RtSrv A) : Prop :=
  s.request = true ∧ s.currentAddr = a

theorem accepted_asks
    {s : RtSrv A}
    (hWaiting : Waiting s)
    (a : A)
    {req : Package}
    (hReq : req.type = 3)
    (c : Clocks) :
    Accepted a (step s (asks a req c)).1 := by
  unfold step
  rw [hWaiting.running, hWaiting.live, hWaiting.request]
  change Accepted a (s.waitPass (asks a req c)).1
  unfold waitPass asks
  dsimp only
  split
  · exact ⟨rfl, rfl⟩
  · next hNot => exact (hNot hReq).elim

theorem Accepted.step
    {a : A}
    {s : RtSrv A}
    (h : Accepted a s)
    (e : Ev A) :
    Accepted a (step s e).1 := by
  unfold RtSrv.step
  split
  · exact h
  · rw [if_pos h.1]
    have hClient := mainPass_client s e
    constructor
    · exact (congrArg Client.request hClient).trans h.1
    · exact (congrArg Client.currentAddr hClient).trans h.2

/-
  After `a` is accepted it remains the current client, and
  all data, ACKACKs and resent data go to it exactly when no
  other client interferes.
-/
theorem stays_iff_undisturbed
    {s : RtSrv A}
    (hWaiting : Waiting s)
    (a : A)
    {req : Package}
    (hReq : req.type = 3)
    (c : Clocks)
    (es : List (Ev A)) :
    (machine.run s (asks a req c :: es)).currentAddr = a ∧
      (StaysWith a
          (machine.outputs (step s (asks a req c)).1 es) ↔
        ∀ e ∈ machine.trace (step s (asks a req c)).1 es,
          Undisturbed a e.1 e.2) := by
  have hStart := accepted_asks hWaiting a hReq c
  generalize hNext : (step s (asks a req c)).1 = q
    at hStart ⊢
  have hTrace :
      ∀ e ∈ machine.trace q es, Accepted a e.1 :=
    machine.trace_invariant
      (fun s e hAccepted => hAccepted.step e) hStart
  refine ⟨?_, ?_, ?_⟩
  · have hRun :
        Accepted a (machine.run q es) :=
      machine.run_always _
        (fun s e hAccepted => hAccepted.step e) hStart _
    rw [Machine.run_cons]
    change
      (machine.run (step s (asks a req c)).1
        es).currentAddr = a
    rw [hNext]
    exact hRun.2
  · intro hStays e hMem
    apply (staysWith_step_iff (hTrace e hMem).1 e.2 a).mp
    intro m hSent
    apply hStays
    exact
      (machine.mem_outputs_iff q m es).mpr
        ⟨e, hMem, hSent⟩
  · intro hAll m hSent
    rcases (machine.mem_outputs_iff q m es).mp hSent with
      ⟨e, hMem, hStep⟩
    exact
      (staysWith_step_iff (hTrace e hMem).1 e.2 a).mpr
        (hAll e hMem) m hStep

/- A request for a window of 117 packets and 10 ms. -/
def requestPkt : Package :=
  { Package.zeroed with
    type := 3
    windowSize := 117
    latencyWindow := { sec := 0, usec := 10000 } }

/- The application sends a record, nothing else arrives. -/
def sends
    (r : StreamPkt)
    (sec : Nat) : Ev Bool where
  app := some (some r)
  rcv := none
  clocks := .ofSeconds sec

/- The server with the first client accepted. -/
def accepted : RtSrv Bool :=
  (step (initial false .zeroed)
    (asks false requestPkt (.ofSeconds 0))).1

theorem stays_first_record :
    (machine.run (initial false .zeroed)
        [asks false requestPkt (.ofSeconds 0),
          sends .zeroed 1]).currentAddr = false ∧
      (StaysWith false
          (machine.outputs accepted [sends .zeroed 1]) ↔
        ∀ e ∈ machine.trace accepted [sends .zeroed 1],
          Undisturbed false e.1 e.2) :=
  stays_iff_undisturbed ⟨rfl, rfl, rfl⟩ false rfl
    (.ofSeconds 0) [sends .zeroed 1]

/- One record, then a second client asks. -/
def disturbance : List (Ev Bool) :=
  [sends .zeroed 1, asks true requestPkt (.ofSeconds 1)]

/-
  A second client asks and is declined. The next record of
  the stream goes to it.
-/
theorem stream_follows_request :
    ¬ ∀ (s : RtSrv Bool) (req : Package) (c : Clocks)
        (es : List (Ev Bool)),
      Waiting s →
        req.type = 3 →
          StaysWith false
            (machine.outputs
              (step s (asks false req c)).1 es) := by
  intro hAll
  have hStays :
      StaysWith false
        (machine.outputs accepted
          (disturbance ++ [sends .zeroed 1])) :=
    hAll (initial false .zeroed) requestPkt (.ofSeconds 0)
      _ ⟨rfl, rfl, rfl⟩ rfl
  have hLast :
      (true, (machine.run accepted
          (disturbance ++ [sends .zeroed 1])).rcvPkt) ∈
        machine.outputs accepted
          (disturbance ++ [sends .zeroed 1]) := by
    decide +kernel
  have hOther :=
    hStays _ hLast (Or.inl (by decide +kernel))
  cases hOther

end RtSrv

end P2

end Cs2520
