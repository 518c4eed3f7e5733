import Cs2520.P1.Echoes
import Cs2520.P1.SenderLoops

/-
  Any number of senders and one receiver.

  Every echo is recorded with its destination and with the
  sender that was being served when it was sent. The timer
  echo is the only one that may go to another sender.

  Main declarations:
    * `Rcv.Addressed`
    * `Rcv.addressed_iff`
    * `senders`
    * `receiver`
    * `OwnAcks`
    * `Undisturbed`
    * `own_acks_of_timer_to_served`
    * `second_misled`
-/

------------------------------------------------------------
-- Where Acks Go
------------------------------------------------------------

namespace Cs2520

namespace P1

namespace Rcv

open Lib

variable {A ρ δ β : Type} [DecidableEq A]
variable (w : Wire ρ δ β)
variable (canOpen : β → Bool)

/- Each ack of a pass goes to the sender being served. -/
def Addressed
    (r : Rcv A β)
    (e : Ev A δ) : Prop :=
  ∀ dest hdr,
    Out.sendto dest hdr ∈ (step w canOpen r e).2 →
      0 ≤ hdr.cack →
        Serves (step w canOpen r e).1 dest

/- If the timer fires, the last datagram was served. -/
def TimerToServed
    (r : Rcv A β) : Ev A δ → Prop
  | .timer =>
      r.exited = false → r.hassender = true →
        r.fromAddr = r.current
  | .recv _ _ => True

instance (r : Rcv A β) (e : Ev A δ) :
    Decidable (TimerToServed r e) := by
  cases e <;> unfold TimerToServed <;> infer_instance

/- Acks are misdirected by the timer and by nothing else. -/
theorem addressed_iff
    {r : Rcv A β}
    (hNonneg : 0 ≤ r.cAck)
    (e : Ev A δ) :
    Addressed w canOpen r e ↔ TimerToServed r e := by
  constructor
  · intro hAll
    cases e with
    | recv a pkt => trivial
    | timer =>
        intro hRunning hOpen
        have hTimer :
            step w canOpen r (.timer : Ev A δ) =
              r.timer := step_timer w canOpen hRunning
        rw [Addressed, hTimer, timer, if_pos hOpen] at hAll
        have hServes :=
          hAll r.fromAddr _ List.mem_cons_self hNonneg
        exact hServes.current.symm
  · intro hTimer dest hdr hSend hAck
    cases hExited : r.exited with
    | true => simp [step_exited w canOpen hExited] at hSend
    | false =>
        cases echoOf_of_sendto w canOpen hSend with
        | timer hOpen _ =>
            rw [step_timer w canOpen hExited, timer,
              if_pos hOpen]
            exact
              ⟨hExited, hOpen, (hTimer hExited hOpen).symm⟩
        | accepted hAccepts _ =>
            exact
              (step_accept w (fun _ => False) canOpen dest
                hAccepts).1
        | busy _ _ hBusy => omega
        | data hServes hData _ =>
            exact hServes.step_data w canOpen hData

end Rcv

end P1

end Cs2520

------------------------------------------------------------
-- Many Senders
------------------------------------------------------------

namespace Cs2520

namespace P1

namespace Hub

open Lib

variable {A ρ δ β : Type} [DecidableEq A]
variable (w : Wire ρ δ β)
variable (file : A → Nat → ρ)
variable (canOpen : β → Bool)

/- An echo in flight and the sender it was about. -/
structure Echo (A : Type) where
  dest : A
  served : A
  hdr : Uhdr
deriving DecidableEq

/- A pass of sender `who` on an echo about `served`. -/
structure Turn (A : Type) where
  who : A
  served : A
  ev : Ncp.Ev

/- All senders by address, and the receiver. -/
abbrev Net (A δ β : Type) :=
  Link (A → Ncp β) (Rcv A β) (Echo A) (A × Packet δ)

/- An input to one of the senders or to the receiver. -/
abbrev Act (A δ : Type) := Turn A ⊕ Rcv.Ev A δ

def senders :
    Endpoint (A → Ncp β) (Turn A) (A × Packet δ)
      (Echo A) (A × Packet δ) where
  step := fun n t =>
    let (n', out) :=
      Ncp.step w (file t.who) (n t.who) t.ev
    (Function.update n t.who n',
      out.map (fun pkt => (t.who, pkt)))
  consumes := fun t =>
    t.ev.echo?.map
      (fun hdr =>
        { dest := t.who, served := t.served, hdr := hdr })
  emits := id

/- Outputs carry the sender that is current afterwards. -/
def receiver :
    Endpoint (Rcv A β) (Rcv.Ev A δ) (A × Rcv.Out A β)
      (A × Packet δ) (Echo A) where
  step := fun r e =>
    let (r', out) := Rcv.step w canOpen r e
    (r', out.map (fun o => (r'.current, o)))
  consumes := fun e =>
    match e with
    | .timer => none
    | .recv a pkt => some (a, pkt)
  emits :=
    List.filterMap
      (fun o =>
        match o.2 with
        | .sendto dest hdr =>
            some { dest := dest, served := o.1, hdr := hdr }
        | _ => none)

/- All processes are at their start, nothing was sent. -/
structure Start
    (s : Net A δ β) : Prop where
  senders :
    ∀ a, ∃ name window, s.left a = Ncp.initial name window
  receiver :
    ∃ addr buf hdr window,
      s.right = Rcv.initial addr buf hdr window
  echoes : s.toLeft = []
  packets : s.toRight = []

/-
  What acks are for: those of a pass of the receiver go to
  the sender being served, and a pass of a sender that leaves
  the connection loop, moves the window or finishes is one on
  an ack about this very sender.
-/
def OwnAcks
    (s : Net A δ β) : Act A δ → Prop
  | .inl t =>
      let n := s.left t.who
      let n' := (Ncp.step w (file t.who) n t.ev).1
      (n'.filenameSend ≠ n.filenameSend ∨
          n'.head ≠ n.head ∨ n'.tail ≠ n.tail ∨
          n'.exited ≠ n.exited) →
        (∃ hdr, t.ev.echo? = some hdr ∧ 0 ≤ hdr.cack) ∧
          t.served = t.who
  | .inr e => Rcv.Addressed w canOpen s.right e

/-
  The timer finds the current sender in `from_addr`, and no
  sender ends on a busy reply or in silence.
-/
def Undisturbed
    (s : Net A δ β) : Act A δ → Prop
  | .inl t => Ncp.EndsOnAck (s.left t.who) t.ev
  | .inr e => Rcv.TimerToServed s.right e

instance (s : Net A δ β) (act : Act A δ) :
    Decidable (Undisturbed s act) := by
  cases act <;> unfold Undisturbed <;> infer_instance

variable {w file canOpen}

/- Bounds that hold in every run. -/
structure Inv
    (s : Net A δ β) : Prop where
  cAck : 0 ≤ s.right.cAck
  bounded : ∀ a, Ncp.Bounded (s.left a)

omit [DecidableEq A] in
theorem Start.inv
    {s : Net A δ β}
    (h : Start s) :
    Inv s := by
  refine ⟨?_, ?_⟩
  · rcases h.receiver with ⟨_, _, _, _, hRight⟩
    rw [hRight]
    exact le_refl _
  · intro a
    rcases h.senders a with ⟨_, _, hLeft⟩
    rw [hLeft]
    have hTail : (0 : Int) ≤ windowSize := by decide
    exact ⟨le_refl _, hTail⟩

theorem Inv.act
    {s : Net A δ β}
    (h : Inv s)
    (act : Act A δ) :
    Inv (s.act (senders w file) (receiver w canOpen) act)
    := by
  cases act with
  | inl t =>
      refine ⟨h.cAck, ?_⟩
      intro a
      change
        Ncp.Bounded
          (Function.update s.left t.who
            (Ncp.step w (file t.who) (s.left t.who)
              t.ev).1 a)
      by_cases hSame : a = t.who
      · subst hSame
        rw [Function.update_self]
        exact (Ncp.step_moves w _ (h.bounded _) _).bounded
      · rw [Function.update_of_ne hSame]
        exact h.bounded a
  | inr e =>
      exact
        ⟨Rcv.step_cAck_nonneg w canOpen h.cAck e, h.bounded⟩

/- A recorded echo is one that the pass sends. -/
theorem mem_emits
    {r : Rcv A β}
    {e : Rcv.Ev A δ}
    {m : Echo A}
    (hMem :
      m ∈ (receiver w canOpen).emits
        ((receiver w canOpen).step r e).2) :
    m.served = (Rcv.step w canOpen r e).1.current ∧
      Rcv.Out.sendto m.dest m.hdr ∈
        (Rcv.step w canOpen r e).2 := by
  rcases List.mem_filterMap.mp hMem with
    ⟨⟨served, out⟩, hOut, hTo⟩
  rcases List.mem_map.mp hOut with ⟨o, hO, hPair⟩
  cases hPair
  cases out with
  | sendto dest hdr =>
      cases hTo
      exact ⟨rfl, hO⟩
  | fopen name => cases hTo
  | printData data => cases hTo
  | printSlot k data => cases hTo

/- Acks in flight are for the sender they are about. -/
def Delivered
    (s : Net A δ β) : Prop :=
  ∀ m ∈ s.toLeft, 0 ≤ m.hdr.cack → m.served = m.dest

theorem Delivered.act
    {s : Net A δ β}
    (h : Delivered s)
    (hInv : Inv s)
    {act : Act A δ}
    (hOk : Undisturbed s act) :
    Delivered
      (s.act (senders w file) (receiver w canOpen) act)
    := by
  cases act with
  | inl t => exact h
  | inr e =>
      intro m hMem hAck
      rcases List.mem_append.mp hMem with hOld | hNew
      · exact h m hOld hAck
      · rcases mem_emits hNew with ⟨hServed, hSend⟩
        have hServes :=
          (Rcv.addressed_iff w canOpen hInv.cAck e).mpr
            hOk m.dest m.hdr hSend hAck
        rw [hServed]
        exact hServes.current

/- One undisturbed step uses acks as they are meant. -/
theorem ownAcks_of_undisturbed
    {s : Net A δ β}
    (hInv : Inv s)
    (hDelivered : Delivered s)
    {act : Act A δ}
    (hEnabled :
      Link.Enabled (senders w file) (receiver w canOpen) s
        act)
    (hOk : Undisturbed s act) :
    OwnAcks w file canOpen s act := by
  cases act with
  | inr e =>
      exact
        (Rcv.addressed_iff w canOpen hInv.cAck e).mpr hOk
  | inl t =>
      intro hProgress
      have hMoves :=
        Ncp.step_moves w (file t.who)
          (hInv.bounded t.who) t.ev
      have hAck :
          ∃ hdr, t.ev.echo? = some hdr ∧ 0 ≤ hdr.cack := by
        rcases hProgress with hSend | hHead | hTail | hExit
        · exact hMoves.onAck (Or.inl hSend)
        · exact hMoves.onAck (Or.inr (Or.inl hHead))
        · exact hMoves.onAck (Or.inr (Or.inr hTail))
        · exact hMoves.onFinish hExit hOk
      refine ⟨hAck, ?_⟩
      rcases hAck with ⟨hdr, hEcho, hNonneg⟩
      have hSent :=
        hEnabled
          { dest := t.who, served := t.served, hdr := hdr }
          (by simp [senders, hEcho])
      exact hDelivered _ hSent hNonneg

/-
  In undisturbed runs no sender acts on acks about another.
  In any run, exactly the timer misdirects acks, and a sender
  that may end without an ack does.
-/
theorem own_acks_of_timer_to_served :
    (∀ s : Net A δ β,
      Link.Reachable (senders w file) (receiver w canOpen)
          Start Undisturbed s →
        ∀ act,
          Link.Enabled (senders w file)
              (receiver w canOpen) s act →
            Undisturbed s act →
              OwnAcks w file canOpen s act) ∧
      ∀ s : Net A δ β,
        Link.Reachable (senders w file)
            (receiver w canOpen) Start
            (fun _ _ => True) s →
          (∀ e,
            Rcv.Addressed w canOpen s.right e ↔
              Rcv.TimerToServed s.right e) ∧
            ∀ t,
              OwnAcks w file canOpen s (.inl t) →
                Ncp.EndsOnAck (s.left t.who) t.ev := by
  refine ⟨?_, ?_⟩
  · intro s hReach act hEnabled hOk
    have hBoth : Inv s ∧ Delivered s := by
      refine
        hReach.invariant
          (fun s => Inv s ∧ Delivered s) ?_ ?_
      · intro s hStart
        refine ⟨hStart.inv, ?_⟩
        intro m hMem
        rw [hStart.echoes] at hMem
        cases hMem
      · rintro s act ⟨hInv, hDelivered⟩ _ hOk
        exact ⟨hInv.act act, hDelivered.act hInv hOk⟩
    exact
      ownAcks_of_undisturbed hBoth.1 hBoth.2 hEnabled hOk
  · intro s hReach
    have hInv : Inv s :=
      hReach.invariant Inv (fun s hStart => hStart.inv)
        (fun s act hInv _ _ => hInv.act act)
    refine ⟨Rcv.addressed_iff w canOpen hInv.cAck, ?_⟩
    intro t hOwn
    by_contra hEnds
    rcases Ncp.exits_of_not_endsOnAck w (file t.who) hEnds
      with ⟨hExits, hNoAck⟩
    exact hNoAck (hOwn (Or.inr (Or.inr (Or.inr hExits)))).1

/- Two senders and a receiver at their start. -/
def twoSenders : Net Bool Nat Nat :=
  { left := fun _ =>
      Ncp.initial (chunkPacket 0) (fun _ => chunkPacket 0)
    right :=
      Rcv.initial false (chunkPacket 0) (chunkPacket 0).hdr
        (fun _ => chunkPacket 0)
    toLeft := []
    toRight := [] }

theorem start_twoSenders : Start twoSenders :=
  ⟨fun _ => ⟨_, _, rfl⟩, ⟨_, _, _, _, rfl⟩, rfl, rfl⟩

/- A filename packet of one sender goes out. -/
def greets
    (who : Bool) : Act Bool Nat :=
  .inl { who := who, served := who, ev := .quiet true }

/- The first sender is accepted and acknowledged. -/
def firstAccepted : List (Act Bool Nat) :=
  [greets false, greets true,
    .inr (.recv false (chunkPacket 0))]

theorem own_acks_of_first :
    OwnAcks (Wire.opaquePayload Nat) (fun _ => chunksOf 5)
      (fun _ => true)
      (Link.runActs
        (senders (Wire.opaquePayload Nat)
          (fun _ => chunksOf 5))
        (receiver (Wire.opaquePayload Nat) (fun _ => true))
        twoSenders firstAccepted)
      (.inl
        { who := false
          served := false
          ev := .echo (chunkPacket 0).hdr true }) :=
  own_acks_of_timer_to_served.1 _
    (Link.reachable_runActs (.start start_twoSenders)
      (by decide +kernel)) _
    (by decide +kernel) (by decide +kernel)

/- The echo of the timer at the start of a session. -/
def timerEcho : Uhdr :=
  { cack := 0
    nack := fun i => if i.1 = 0 then 1 else -1
    seq := 0 }

/-
  The second sender is told that the receiver is busy, and
  the timer fires: its echo goes to the second sender, which
  takes it for the acceptance of its own filename.
-/
theorem second_misled :
    ¬ ∀ s : Net Bool Nat Nat,
      Link.Reachable
          (senders (Wire.opaquePayload Nat)
            (fun _ => chunksOf 5))
          (receiver (Wire.opaquePayload Nat)
            (fun _ => true))
          Start (fun _ _ => True) s →
        ∀ act,
          Link.Enabled
              (senders (Wire.opaquePayload Nat)
                (fun _ => chunksOf 5))
              (receiver (Wire.opaquePayload Nat)
                (fun _ => true)) s act →
            OwnAcks (Wire.opaquePayload Nat)
              (fun _ => chunksOf 5) (fun _ => true) s act
    := by
  intro hAll
  have hOwn :=
    hAll
      (Link.runActs
        (senders (Wire.opaquePayload Nat)
          (fun _ => chunksOf 5))
        (receiver (Wire.opaquePayload Nat) (fun _ => true))
        twoSenders
        (firstAccepted ++
          [.inr (.recv true (chunkPacket 0)), .inr .timer]))
      (Link.reachable_runActs (.start start_twoSenders)
        (by decide +kernel))
      (.inl
        { who := true
          served := false
          ev := .echo timerEcho true })
      (by decide +kernel)
  have hServed := (hOwn (Or.inl (by decide +kernel))).2
  cases hServed

end Hub

end P1

end Cs2520
