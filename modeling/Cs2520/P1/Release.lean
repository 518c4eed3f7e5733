import Cs2520.P1.Senders
import Cs2520.P1.SendWindow

/-
  How the receiver gets free of a sender that has gone.

  A sender that finishes leaves exactly one datagram behind
  that ends its session: its number -1. It is sent once and
  never acknowledged. As long as it may still arrive, another
  sender can be accepted; nothing else ends the session.

  Main declarations:
    * `Ncp.step_farewell`
    * `Rcv.Serves.step_bound`
    * `Parted`
    * `bound_without_farewell`
    * `freed_by_farewell`
    * `released_exactly_by_farewell`
    * `never_released`
-/

------------------------------------------------------------
-- Leaving and Staying
------------------------------------------------------------

namespace Cs2520

namespace P1

namespace Ncp

open Lib

variable {ρ δ β : Type}
variable (w : Wire ρ δ β)
variable (file : Nat → ρ)

/- A pass goes on, or sends the number -1 and exits. -/
def Farewell
    (n : Ncp β)
    (res : Ncp β × List (Packet δ)) : Prop :=
  res.1.exited = n.exited ∨
    ∃ p ∈ res.2, p.hdr.seq = -1

theorem finish_farewell
    (n : Ncp β)
    (n' : Ncp β) :
    Farewell n' (n.finish w) :=
  Or.inr ⟨_, List.mem_singleton_self _, rfl⟩

theorem connect_farewell
    (n : Ncp β)
    (echo : Option Uhdr)
    (elapsed : Bool) :
    Farewell n (n.connect w file echo elapsed) := by
  have hGreet := (greet_frame w n echo elapsed).1
  left
  unfold connect
  dsimp only
  split
  · exact (firstWindow_frame w file _).1.trans hGreet
  · exact hGreet

theorem onEcho_farewell
    (n : Ncp β)
    (hdr : Uhdr) :
    Farewell n (n.onEcho w file hdr) := by
  have hHeard := onEcho_hearing w file n hdr
  generalize n.onEcho w file hdr = res at hHeard ⊢
  cases hHeard with
  | finished _ => exact finish_farewell w _ n
  | old _ => exact Or.inl rfl
  | repeated _ => exact Or.inl rfl
  | jumped _ _ => exact Or.inl rfl
  | shifted _ hAhead =>
      have hHead : (n.recvEcho hdr).head = n.head := rfl
      left
      apply (shiftWindow_frame w file hdr.cack _ _).1
      omega

theorem onTimeout_farewell
    (n : Ncp β) :
    Farewell n (n.onTimeout w : Ncp β × List (Packet δ)) := by
  unfold onTimeout
  split
  · exact finish_farewell w n n
  · exact Or.inl rfl

/- Whoever exits has sent the number -1. -/
theorem step_farewell
    (n : Ncp β)
    (e : Ev) :
    Farewell n (step w file n e) := by
  unfold step
  split
  · exact Or.inl rfl
  · split
    · cases e with
      | quiet elapsed => exact onTimeout_farewell w n
      | echo hdr elapsed => exact onEcho_farewell w file n hdr
    · cases e with
      | quiet elapsed =>
          exact connect_farewell w file n none elapsed
      | echo hdr elapsed =>
          exact connect_farewell w file n (some hdr) elapsed

/- A fresh sender sends its filename when time has passed. -/
theorem Fresh.step_quiet
    {n : Ncp β}
    (h : Fresh n) :
    (step w file n (.quiet true)).2 =
      [{ hdr := { n.messBuf.hdr with seq := 0 }
         data := w.whole n.messBuf.data }] := by
  have hRunning := h.running
  have hWaiting := h.connecting
  have hSeq := h.seq
  simp [step, connect, greet, sendFilename, hRunning,
    hWaiting, hSeq]

end Ncp

namespace Rcv

open Lib

variable {A ρ δ β : Type} [DecidableEq A]
variable (w : Wire ρ δ β)
variable (canOpen : β → Bool)

/- The event that ends a session with `a`. -/
def HearsFarewell
    (a : A)
    (e : Ev A δ) : Prop :=
  ∃ pkt, e = .recv a pkt ∧ pkt.hdr.seq = -1

/- Whatever else happens, the receiver goes on serving. -/
theorem Serves.step_bound
    {r : Rcv A β}
    {a : A}
    (hServes : Serves r a)
    {e : Ev A δ}
    (hOther : ¬ HearsFarewell a e) :
    Serves (step w canOpen r e).1 a := by
  have hRunning := hServes.running
  have hOpen := hServes.hassender
  have hCurrent := hServes.current
  cases e with
  | timer =>
      rw [step_timer w canOpen hRunning, timer, if_pos hOpen]
      exact ⟨hRunning, hOpen, hCurrent⟩
  | recv b pkt =>
      by_cases hSame : b = a
      · subst hSame
        apply hServes.step_data w canOpen
        intro hEnd
        exact hOther ⟨pkt, rfl, hEnd⟩
      · have hBusy : r.current ≠ b := by
          rw [hCurrent]
          exact Ne.symm hSame
        rw [step_busy w canOpen hRunning hOpen hBusy]
        exact ⟨hRunning, hOpen, hCurrent⟩

end Rcv

end P1

end Cs2520

------------------------------------------------------------
-- A Sender That Has Gone
------------------------------------------------------------

namespace Cs2520

namespace P1

namespace Hub

open Lib

variable {A ρ δ β : Type} [DecidableEq A]
variable (w : Wire ρ δ β)
variable (file : A → Nat → ρ)
variable (canOpen : β → Bool)

/- Neither a pass of `a` nor a datagram of `a`. -/
def Without
    (a : A) : Act A δ → Prop
  | .inl t => t.who ≠ a
  | .inr .timer => True
  | .inr (.recv b _) => b ≠ a

/- The receiver takes the number -1 of `a`. -/
def EndsSession
    (a : A) : Act A δ → Prop
  | .inl _ => False
  | .inr e => Rcv.HearsFarewell a e

/- Whatever `data_buf` held, the named file can be opened. -/
def Openable
    (n : Ncp β) : Prop :=
  ∀ old,
    canOpen
      (w.recvfrom old (w.whole n.messBuf.data)) = true

/- Every sender that has exited has sent the number -1. -/
def Parted
    (s : Net A δ β) : Prop :=
  ∀ a, (s.left a).exited = true →
    ∃ fin, fin.hdr.seq = -1 ∧ (a, fin) ∈ s.toRight

variable {w file canOpen}

omit [DecidableEq A] in
theorem Start.parted
    {s : Net A δ β}
    (h : Start s) :
    Parted s := by
  intro a hGone
  rcases h.senders a with ⟨_, _, hLeft⟩
  rw [hLeft] at hGone
  cases hGone

theorem Parted.act
    {s : Net A δ β}
    (h : Parted s)
    (act : Act A δ) :
    Parted
      (s.act (senders w file) (receiver w canOpen) act)
    := by
  cases act with
  | inr e => exact h
  | inl t =>
      intro a hGone
      have hOld :
          (s.left a).exited = true →
            ∃ fin, fin.hdr.seq = -1 ∧
              (a, fin) ∈
                (s.act (senders w file) (receiver w canOpen)
                  (.inl t)).toRight := by
        intro hBefore
        rcases h a hBefore with ⟨fin, hEnd, hMem⟩
        exact ⟨fin, hEnd, List.mem_append_left _ hMem⟩
      change
        (Function.update s.left t.who
          (Ncp.step w (file t.who) (s.left t.who) t.ev).1
          a).exited = true at hGone
      by_cases hSame : a = t.who
      · subst hSame
        rw [Function.update_self] at hGone
        rcases Ncp.step_farewell w (file t.who)
            (s.left t.who) t.ev with
          hKept | ⟨fin, hOut, hEnd⟩
        · exact hOld (hKept.symm.trans hGone)
        · refine ⟨fin, hEnd, List.mem_append_right _ ?_⟩
          exact List.mem_map.mpr ⟨fin, hOut, rfl⟩
      · rw [Function.update_of_ne hSame] at hGone
        exact hOld hGone

/-
  Without the number -1 of the sender being served, no list
  of actions ends its session.
-/
theorem bound_without_farewell
    {s : Net A δ β}
    {a : A}
    (hServes : Rcv.Serves s.right a)
    {acts : List (Act A δ)}
    (hNone : ∀ act ∈ acts, ¬ EndsSession a act) :
    Rcv.Serves
      (Link.runActs (senders w file) (receiver w canOpen) s
        acts).right a := by
  induction acts generalizing s with
  | nil => exact hServes
  | cons act acts ih =>
      apply ih
      · have hFirst := hNone act List.mem_cons_self
        cases act with
        | inl t => exact hServes
        | inr e => exact hServes.step_bound w canOpen hFirst
      · intro act' hMem
        exact hNone act' (List.mem_cons_of_mem _ hMem)

omit [DecidableEq A] in
theorem Without.not_endsSession
    {a : A}
    {act : Act A δ}
    (h : Without a act) :
    ¬ EndsSession a act := by
  cases act with
  | inl t => exact fun hEnds => hEnds
  | inr e =>
      rintro ⟨pkt, rfl, _⟩
      exact h rfl

/- The new sender greets, the old one's -1 arrives. -/
def takeover
    (a b : A)
    (fin name : Packet δ) : List (Act A δ) :=
  [.inl { who := b, served := b, ev := .quiet true },
    .inr (.recv a fin), .inr (.recv b name)]

/-
  Once the number -1 is delivered, the filename of any new
  sender whose file can be opened is accepted.
-/
theorem freed_by_farewell
    {s : Net A δ β}
    {a b : A}
    (hServes : Rcv.Serves s.right a)
    {fin : Packet δ}
    (hEnd : fin.hdr.seq = -1)
    (hSent : (a, fin) ∈ s.toRight)
    (hNew : Ncp.Fresh (s.left b))
    (hOpens : Openable w canOpen (s.left b)) :
    ∃ name,
      Link.Allowed (senders w file) (receiver w canOpen)
          (fun _ _ => True) s (takeover a b fin name) ∧
        Rcv.Serves
          (Link.runActs (senders w file)
            (receiver w canOpen) s
            (takeover a b fin name)).right b := by
  have hQuiet := hNew.step_quiet w (file b)
  generalize hName :
    ({ hdr := { (s.left b).messBuf.hdr with seq := 0 }
       data := w.whole (s.left b).messBuf.data } :
      Packet δ) = name at hQuiet
  have hIdle := Rcv.step_finish w canOpen hServes hEnd
  have hAccepts :
      Rcv.Accepts w canOpen
        (Rcv.step w canOpen s.right (.recv a fin)).1
        name := by
    rw [hIdle]
    refine ⟨hServes.running, rfl, ?_, ?_⟩
    · rw [← hName]
    · rw [← hName]
      exact hOpens _
  refine ⟨name, ?_, ?_⟩
  · refine
      ⟨⟨?_, trivial⟩, ⟨?_, trivial⟩, ⟨?_, trivial⟩, trivial⟩
    · intro m hMem
      cases hMem
    · rintro m hMem
      cases hMem
      exact List.mem_append_left _ hSent
    · rintro m hMem
      cases hMem
      apply List.mem_append_right
      change
        (b, name) ∈
          (Ncp.step w (file b) (s.left b) (.quiet true)).2.map
            (fun pkt => (b, pkt))
      rw [hQuiet]
      exact List.mem_singleton_self _
  · exact
      (Rcv.step_accept w (fun _ => False) canOpen b
        hAccepts).1

/-
  When the sender being served has exited, its number -1 is
  under way. Delivering it lets any new sender be accepted,
  and without it the session never ends.
-/
theorem released_exactly_by_farewell
    {s : Net A δ β}
    (hReach :
      Link.Reachable (senders w file) (receiver w canOpen)
        Start (fun _ _ => True) s)
    {a : A}
    (hServes : Rcv.Serves s.right a)
    (hGone : (s.left a).exited = true) :
    (∃ fin,
      fin.hdr.seq = -1 ∧
        (a, fin) ∈ s.toRight ∧
        ∀ b, b ≠ a →
          Ncp.Fresh (s.left b) →
            Openable w canOpen (s.left b) →
              ∃ acts,
                Link.Allowed (senders w file)
                    (receiver w canOpen)
                    (fun _ _ => True) s acts ∧
                  (∀ act ∈ acts,
                    Without a act ∨
                      act = .inr (.recv a fin)) ∧
                  Rcv.Serves
                    (Link.runActs (senders w file)
                      (receiver w canOpen) s acts).right
                    b) ∧
      ∀ acts : List (Act A δ),
        (∀ act ∈ acts, ¬ EndsSession a act) →
          Rcv.Serves
            (Link.runActs (senders w file)
              (receiver w canOpen) s acts).right a := by
  constructor
  · have hParted : Parted s :=
      hReach.invariant Parted
        (fun s hStart => hStart.parted)
        (fun s act hParted _ _ => hParted.act act)
    rcases hParted a hGone with ⟨fin, hEnd, hSent⟩
    refine ⟨fin, hEnd, hSent, ?_⟩
    intro b hOther hNew hOpens
    rcases freed_by_farewell hServes hEnd hSent hNew
        hOpens with
      ⟨name, hAllowed, hServed⟩
    refine ⟨_, hAllowed, ?_, hServed⟩
    intro act hMem
    simp only [takeover, List.mem_cons, List.not_mem_nil,
      or_false] at hMem
    rcases hMem with rfl | rfl | rfl
    · exact Or.inl hOther
    · exact Or.inr rfl
    · exact Or.inl hOther
  · intro acts hNone
    exact bound_without_farewell hServes hNone

end Hub

end P1

end Cs2520

------------------------------------------------------------
-- A Lost Number -1
------------------------------------------------------------

namespace Cs2520

namespace P1

namespace Hub

open Lib

/- The first sender transfers its file and exits. -/
def firstGone : List (Act Bool Nat) :=
  firstAccepted ++
    .inl
        { who := false
          served := false
          ev := .echo (chunkPacket 0).hdr true } ::
      (List.range 100).map
        (fun i : Nat =>
          .inr (.recv false (chunkPacket (i + 1)))) ++
    [.inl
        { who := false
          served := false
          ev :=
            .echo { (chunkPacket 0).hdr with cack := 100 }
              true },
      .inl
        { who := false
          served := false
          ev := .quiet true }]

/- The state in which its number -1 is lost. -/
def orphaned : Net Bool Nat Nat :=
  Link.runActs
    (senders (Wire.opaquePayload Nat) (fun _ => chunksOf 5))
    (receiver (Wire.opaquePayload Nat) (fun _ => true))
    twoSenders firstGone

theorem reachable_orphaned :
    Link.Reachable
      (senders (Wire.opaquePayload Nat)
        (fun _ => chunksOf 5))
      (receiver (Wire.opaquePayload Nat) (fun _ => true))
      Start (fun _ _ => True) orphaned :=
  Link.reachable_runActs (.start start_twoSenders)
    (by decide +kernel)

theorem serves_orphaned :
    Rcv.Serves orphaned.right false :=
  ⟨by decide +kernel, by decide +kernel, by decide +kernel⟩

/- The second sender is still in its connection loop. -/
theorem fresh_orphaned :
    Ncp.Fresh (orphaned.left true) :=
  ⟨by decide +kernel, by decide +kernel, by decide +kernel,
    by decide +kernel, by decide +kernel, by decide +kernel,
    by decide +kernel⟩

theorem released_orphaned :
    ∃ acts : List (Act Bool Nat),
      Rcv.Serves
        (Link.runActs
          (senders (Wire.opaquePayload Nat)
            (fun _ => chunksOf 5))
          (receiver (Wire.opaquePayload Nat)
            (fun _ => true)) orphaned acts).right true := by
  rcases (released_exactly_by_farewell reachable_orphaned
      serves_orphaned (by decide +kernel)).1 with
    ⟨_, _, _, hNext⟩
  rcases hNext true (by decide) fresh_orphaned
      (fun _ => rfl) with
    ⟨acts, _, _, hServed⟩
  exact ⟨acts, hServed⟩

/-
  The number -1 of the first sender is lost: whatever the
  second one does, the receiver never serves it.
-/
theorem never_released :
    ¬ ∀ s : Net Bool Nat Nat,
      Link.Reachable
          (senders (Wire.opaquePayload Nat)
            (fun _ => chunksOf 5))
          (receiver (Wire.opaquePayload Nat)
            (fun _ => true))
          Start (fun _ _ => True) s →
        ∀ a,
          Rcv.Serves s.right a →
            (s.left a).exited = true →
              ∃ acts : List (Act Bool Nat),
                (∀ act ∈ acts, Without a act) ∧
                  ∃ b, b ≠ a ∧
                    Rcv.Serves
                      (Link.runActs
                        (senders (Wire.opaquePayload Nat)
                          (fun _ => chunksOf 5))
                        (receiver (Wire.opaquePayload Nat)
                          (fun _ => true)) s acts).right b
    := by
  intro hAll
  rcases hAll orphaned reachable_orphaned false
      serves_orphaned (by decide +kernel) with
    ⟨acts, hWithout, b, hOther, hServed⟩
  apply hOther
  exact
    hServed.current.symm.trans
      (bound_without_farewell serves_orphaned
        (fun act hMem =>
          (hWithout act hMem).not_endsSession)).current

end Hub

end P1

end Cs2520
