import Cs2520.P1.Burst
import Cs2520.P1.Reopen
import Cs2520.P1.Senders

/-
  Transfers of any number of senders, one after another.

  What one sender and the receiver do to each other is a
  session of its own. As long as no ack is misdirected and no
  file is opened by a filename of a sender that has left its
  connection loop, every session behaves as if its sender
  were alone.

  Main declarations:
    * `view`
    * `view_turn`
    * `view_recv`
    * `Orderly`
    * `Ordered`
    * `Ordered.turn`
    * `Ordered.recv`
    * `orderly_prefix`
    * `orderly_complete`
-/

------------------------------------------------------------
-- One Sender's View
------------------------------------------------------------

namespace Cs2520

namespace P1

namespace Hub

open Lib

variable {A α : Type} [DecidableEq A]
variable (file : A → Nat → α × Int)
variable (canOpen : α → Bool)

/- All senders and the receiver, on opaque payloads. -/
abbrev net :=
  senders (Wire.opaquePayload α) file

abbrev served :=
  receiver (A := A) (δ := α) (Wire.opaquePayload α) canOpen

/- The header of an echo to `a`. -/
def Echo.to?
    (a : A)
    (m : Echo A) : Option Uhdr :=
  if m.dest = a then some m.hdr else none

/- A packet of `a`. -/
def from?
    (a : A)
    (m : A × Packet α) : Option (Packet α) :=
  if m.1 = a then some m.2 else none

/- What `a` and the receiver have sent to each other. -/
def view
    (a : A)
    (s : Net A α α) : Session.Net A α where
  left := s.left a
  right := s.right
  toLeft := s.toLeft.filterMap (Echo.to? a)
  toRight := s.toRight.filterMap (from? a)

theorem mem_view_toLeft
    {a : A}
    {s : Net A α α}
    {hdr : Uhdr} :
    hdr ∈ (view a s).toLeft ↔
      ∃ m ∈ s.toLeft, m.dest = a ∧ m.hdr = hdr := by
  simp [view, Echo.to?]

theorem mem_view_toRight
    {a : A}
    {s : Net A α α}
    {p : Packet α} :
    p ∈ (view a s).toRight ↔ (a, p) ∈ s.toRight := by
  simp [view, from?]

variable {file canOpen}

/- A pass of `a` is one of its session. -/
theorem view_turn
    (s : Net A α α)
    (t : Turn A) :
    view t.who (s.act (net file) (served canOpen) (.inl t)) =
      (view t.who s).act (Session.sender (file t.who))
        (Session.receiver canOpen t.who) (.inl t.ev) := by
  have hOwn (out : List (Packet α)) :
      (out.map (fun pkt => (t.who, pkt))).filterMap
          (from? t.who) =
        out := by
    rw [List.filterMap_map]
    refine (List.filterMap_congr ?_).trans List.filterMap_some
    intro pkt _
    exact if_pos rfl
  simp only [view, Link.act, senders, Session.sender,
    Ncp.machine, id, Function.update_self,
    List.filterMap_append, hOwn]

/- A pass of another sender is none of it. -/
theorem view_other
    {a : A}
    (s : Net A α α)
    {t : Turn A}
    (hOther : a ≠ t.who) :
    view a (s.act (net file) (served canOpen) (.inl t)) =
      view a s := by
  have hNone (out : List (Packet α)) :
      (out.map (fun pkt => (t.who, pkt))).filterMap
          (from? a) =
        [] := by
    rw [List.filterMap_map, List.filterMap_eq_nil_iff]
    intro pkt _
    exact if_neg hOther.symm
  simp only [view, Link.act, senders, id,
    Function.update_of_ne hOther, List.filterMap_append,
    hNone, List.append_nil]

/- A pass of the receiver is one of every session. -/
theorem view_recv
    (a : A)
    (s : Net A α α)
    (e : Rcv.Ev A α) :
    view a (s.act (net file) (served canOpen) (.inr e)) =
      (view a s).act (Session.sender (file a))
        (Session.receiver canOpen a) (.inr e) := by
  simp only [view, Link.act, receiver, Session.receiver,
    Rcv.machine, List.filterMap_append,
    List.filterMap_map, List.filterMap_filterMap]
  congr 2
  apply List.filterMap_congr
  intro o _
  cases o with
  | sendto dest hdr => rfl
  | fopen name => rfl
  | printData data => rfl
  | printSlot k data => rfl

/- An input of the net is one of every session. -/
theorem enabled_turn
    {s : Net A α α}
    {t : Turn A}
    (hEnabled :
      Link.Enabled (net file) (served canOpen) s (.inl t)) :
    Link.Enabled (Session.sender (file t.who))
      (Session.receiver canOpen t.who) (view t.who s)
      (.inl t.ev) := by
  intro hdr hSome
  have hEcho : t.ev.echo? = some hdr := hSome
  exact
    mem_view_toLeft.mpr
      ⟨{ dest := t.who, served := t.served, hdr := hdr },
        hEnabled _ (by simp [senders, hEcho]), rfl, rfl⟩

theorem enabled_recv
    (a : A)
    {s : Net A α α}
    {e : Rcv.Ev A α}
    (hEnabled :
      Link.Enabled (net file) (served canOpen) s (.inr e)) :
    Link.Enabled (Session.sender (file a))
      (Session.receiver canOpen a) (view a s)
      (.inr e) := by
  intro pkt hSome
  cases e with
  | timer => cases hSome
  | recv b p =>
      simp only [Session.receiver, Session.packet?] at hSome
      split at hSome
      · next hSame =>
          cases hSome
          subst hSame
          exact
            mem_view_toRight.mpr
              (hEnabled _ (by simp [receiver]))
      · cases hSome

end Hub

end P1

end Cs2520

------------------------------------------------------------
-- Orderly Runs
------------------------------------------------------------

namespace Cs2520

namespace P1

namespace Hub

open Lib

variable {A ρ δ β α : Type} [DecidableEq A]

/-
  Only a sender that is still in its connection loop opens a
  file with its filename.
-/
def TakesFirst
    (n : A → Ncp β)
    (r : Rcv A β) : Rcv.Ev A δ → Prop
  | .timer => True
  | .recv a pkt =>
      r.exited = false → r.hassender = false →
        pkt.hdr.seq = 0 → (n a).filenameSend = false

instance
    (n : A → Ncp β)
    (r : Rcv A β)
    (e : Rcv.Ev A δ) :
    Decidable (TakesFirst n r e) :=
  match e with
  | .timer => inferInstanceAs (Decidable True)
  | .recv _ _ => inferInstanceAs (Decidable (_ → _ → _ → _))

/- No ack is misdirected and no old filename is taken. -/
def Orderly
    (s : Net A δ β) : Act A δ → Prop
  | .inl _ => True
  | .inr e =>
      Rcv.TimerToServed s.right e ∧
        TakesFirst s.left s.right e

instance (s : Net A δ β) (act : Act A δ) :
    Decidable (Orderly s act) :=
  match act with
  | .inl _ => inferInstanceAs (Decidable True)
  | .inr _ => inferInstanceAs (Decidable (_ ∧ _))

/- What holds of a sender, whether it is served or not. -/
structure Honest
    (file : Nat → α × Int)
    (v : Session.Net A α) : Prop where
  phase : Ncp.Fresh v.left ∨ Session.Loaded file v.left
  sent : ∀ p ∈ v.toRight, Session.Built file v.left.last p
  echoed : ∀ hdr ∈ v.toLeft, hdr.cack ≤ v.left.last
  farewell :
    v.left.exited = false → ∀ p ∈ v.toRight, 0 ≤ p.hdr.seq

variable {canOpen : α → Bool}

/- A pass of the sender itself. -/
theorem Honest.left
    {file : Nat → α × Int}
    {a : A}
    {v : Session.Net A α}
    (h : Honest file v)
    {e : Ncp.Ev}
    (hEnabled :
      Link.Enabled (Session.sender file)
        (Session.receiver canOpen a) v (.inl e)) :
    Honest file
      (v.act (Session.sender file)
        (Session.receiver canOpen a) (.inl e)) := by
  have hLoaded :
      Ncp.Fresh v.left ∨
        (Session.Loaded file v.left ∧
          v.left.head - 1 ≤ v.left.last) := by
    refine h.phase.imp_right (fun hLoaded => ⟨hLoaded, ?_⟩)
    have hLe := hLoaded.head_le
    rw [hLoaded.last_eq]
    omega
  rcases Session.step_phase hLoaded
      (Session.last_nonneg h.phase) (le_refl _)
      (fun hdr hSome => h.echoed hdr (hEnabled hdr hSome))
    with ⟨hPhase, hGrow, hOut⟩
  refine ⟨hPhase.imp_right And.left, ?_, ?_, ?_⟩
  · intro p hMem
    rcases List.mem_append.mp hMem with hOld | hNew
    · exact (h.sent p hOld).mono _ file hGrow
    · exact hOut p hNew
  · intro hdr hMem
    exact (h.echoed hdr hMem).trans hGrow
  · intro hStays p hMem
    rcases List.mem_append.mp hMem with hOld | hNew
    · exact h.farewell (Session.running_of_step hStays) p hOld
    · exact Ncp.step_numbers h.phase e hStays p hNew

/- A pass of the receiver that acknowledges no more. -/
theorem Honest.right
    {file : Nat → α × Int}
    {a : A}
    {v : Session.Net A α}
    (h : Honest file v)
    {e : Rcv.Ev A α}
    (hEchoes :
      ∀ hdr,
        Rcv.Out.sendto a hdr ∈
            (Rcv.step (Wire.opaquePayload α) canOpen
              v.right e).2 →
          hdr.cack ≤ v.left.last) :
    Honest file
      (v.act (Session.sender file)
        (Session.receiver canOpen a) (.inr e)) := by
  refine ⟨h.phase, h.sent, ?_, h.farewell⟩
  intro hdr hMem
  rcases List.mem_append.mp hMem with hOld | hNew
  · exact h.echoed hdr hOld
  · rcases List.mem_filterMap.mp hNew with ⟨out, hOut, hTo⟩
    cases out with
    | sendto dest hdr' =>
        rw [Session.echoTo?] at hTo
        split at hTo
        · next hDest =>
            cases hTo
            subst hDest
            exact hEchoes hdr hOut
        · cases hTo
    | fopen name => cases hTo
    | printData data => cases hTo
    | printSlot k data => cases hTo

/-
  Every sender is honest, and the current one has a session
  as if it were alone.
-/
structure Ordered
    (file : A → Nat → α × Int)
    (s : Net A α α) : Prop where
  senders : ∀ a, Honest (file a) (view a s)
  session :
    s.right.exited = false →
      Session.Inv (file s.right.current) s.right.current
        (view s.right.current s)

variable {file : A → Nat → α × Int}

/- A receiver that could not open the file has exited. -/
omit [DecidableEq A] in
theorem opens_of_running
    {r : Rcv A α}
    (hRuns : (r.accept canOpen).1.exited = false) :
    canOpen r.messBuf.data = true := by
  by_contra hCannot
  unfold Rcv.accept at hRuns
  dsimp only at hRuns
  rw [if_neg hCannot] at hRuns
  cases hRuns

theorem exited_of_step
    {r : Rcv A α}
    {e : Rcv.Ev A α}
    (hRuns :
      (Rcv.step (Wire.opaquePayload α) canOpen r
        e).1.exited = false) :
    r.exited = false := by
  by_contra hExited
  have hTrue := Bool.eq_true_of_not_eq_false hExited
  rw [Rcv.step_exited _ canOpen hTrue] at hRuns
  exact hExited hRuns

/-
  Without a session, a receiver that runs on changes nothing
  that matters, or it accepts a filename.
-/
theorem idle_cases
    {r : Rcv A α}
    {e : Rcv.Ev A α}
    (hIdle : r.hassender = false)
    (hRuns :
      (Rcv.step (Wire.opaquePayload α) canOpen r
        e).1.exited = false) :
    (∃ r',
      Rcv.step (Wire.opaquePayload α) canOpen r e = (r', []) ∧
        Rcv.Idles r r' ∧ r'.hassender = false) ∨
      ∃ a pkt,
        e = .recv a pkt ∧
          Rcv.Accepts (Wire.opaquePayload α) canOpen r pkt
    := by
  have hRan := exited_of_step hRuns
  cases e with
  | timer =>
      refine .inl ⟨r, ?_, ⟨rfl, rfl, rfl, rfl, rfl⟩, hIdle⟩
      simp [Rcv.step_timer _ canOpen hRan, Rcv.timer, hIdle]
  | recv a pkt =>
      have hStep :=
        Rcv.step_idle (Wire.opaquePayload α) canOpen hRan
          hIdle a pkt
      by_cases hName : pkt.hdr.seq = 0
      · rw [if_pos hName] at hStep
        rw [hStep] at hRuns
        exact
          .inr
            ⟨a, pkt, rfl, hRan, hIdle, hName,
              opens_of_running hRuns⟩
      · rw [if_neg hName] at hStep
        exact
          .inl ⟨_, hStep, ⟨rfl, rfl, rfl, rfl, rfl⟩, hIdle⟩

theorem Start.ordered
    {s : Net A α α}
    (h : Start s) :
    Ordered file s := by
  have hFresh : ∀ a, Ncp.Fresh (view a s).left := by
    intro a
    rcases h.senders a with ⟨name, window, hLeft⟩
    change Ncp.Fresh (s.left a)
    rw [hLeft]
    exact Ncp.fresh_initial name window
  have hPackets : ∀ a, (view a s).toRight = [] := by
    intro a
    simp [view, h.packets]
  have hEchoes : ∀ a, (view a s).toLeft = [] := by
    intro a
    simp [view, h.echoes]
  refine ⟨fun a => ⟨.inl (hFresh a), ?_, ?_, ?_⟩, fun _ => ?_⟩
  · simp [hPackets]
  · simp [hEchoes]
  · simp [hPackets]
  · rcases h.receiver with ⟨addr, buf, hdr, window, hRight⟩
    refine
      ⟨?_, ?_, rfl, .inl (hFresh _), ?_, ?_⟩
    · change Rcv.Assembled _ s.right
      rw [hRight]
      refine ⟨RingBuffer.Holds.empty _, rfl, ?_⟩
      intro i hi
      simp [Rcv.initial] at hi
    · change s.right.exited = false
      rw [hRight]
      rfl
    · simp [hPackets]
    · simp [hEchoes]

/- A pass of any sender keeps the order. -/
theorem Ordered.turn
    {s : Net A α α}
    (h : Ordered file s)
    {t : Turn A}
    (hEnabled :
      Link.Enabled (net file) (served canOpen) s (.inl t)) :
    Ordered file
      (s.act (net file) (served canOpen) (.inl t)) := by
  have hOwn := enabled_turn hEnabled
  refine ⟨?_, ?_⟩
  · intro a
    by_cases hSame : a = t.who
    · subst hSame
      rw [view_turn]
      exact (h.senders t.who).left hOwn
    · rw [view_other s hSame]
      exact h.senders a
  · intro hRuns
    have hRight :
        (s.act (net file) (served canOpen) (.inl t)).right =
          s.right := rfl
    rw [hRight] at hRuns ⊢
    have hInv := h.session hRuns
    by_cases hSame : s.right.current = t.who
    · rw [hSame] at hInv ⊢
      rw [view_turn]
      exact hInv.left hOwn
    · rw [view_other s hSame]
      exact hInv

/- An echo acknowledges nothing that was not sent. -/
theorem Ordered.echo_le
    {s : Net A α α}
    (h : Ordered file s)
    {e : Rcv.Ev A α}
    (hEnabled :
      Link.Enabled (net file) (served canOpen) s (.inr e))
    (hTimer : Rcv.TimerToServed s.right e)
    {b : A}
    {hdr : Uhdr}
    (hSend :
      Rcv.Out.sendto b hdr ∈
        (Rcv.step (Wire.opaquePayload α) canOpen
          s.right e).2) :
    hdr.cack ≤ (s.left b).last := by
  have hNonneg : 0 ≤ (s.left b).last :=
    Session.last_nonneg (h.senders b).phase
  cases hExited : s.right.exited with
  | true => simp [Rcv.step_exited _ canOpen hExited] at hSend
  | false =>
      have hInv := h.session hExited
      cases Rcv.echoOf_of_sendto _ canOpen hSend with
      | timer hOpen hCack =>
          rw [hTimer hExited hOpen, hCack]
          exact hInv.cAck_le
      | accepted _ hCack => omega
      | busy _ _ hCack => omega
      | data hServes _ hCack =>
          have hNext :=
            hInv.right (enabled_recv _ hEnabled)
              hServes.hassender
          have hCurrent := hServes.current
          subst hCurrent
          exact hCack.le.trans hNext.cAck_le

/- A pass that neither moves the session nor sends anything. -/
theorem inv_of_idles
    {file : Nat → α × Int}
    {a : A}
    {v : Session.Net A α}
    (h : Session.Inv file a v)
    {e : Rcv.Ev A α}
    {r : Rcv A α}
    (hStep :
      Rcv.step (Wire.opaquePayload α) canOpen v.right e =
        (r, []))
    (hIdles : Rcv.Idles v.right r) :
    Session.Inv file a
      (v.act (Session.sender file)
        (Session.receiver canOpen a) (.inr e)) := by
  have hAct :
      v.act (Session.sender file)
          (Session.receiver canOpen a) (.inr e) =
        { v with right := r } := by
    change
      ({ v with
          right :=
            (Rcv.step (Wire.opaquePayload α) canOpen v.right
              e).1
          toLeft :=
            v.toLeft ++
              (Rcv.step (Wire.opaquePayload α) canOpen v.right
                e).2.filterMap (Session.echoTo? a) } :
        Session.Net A α) = _
    rw [hStep, List.filterMap_nil, List.append_nil]
  rw [hAct]
  refine
    ⟨?_, hIdles.exited.trans h.running,
      hIdles.current.trans h.current, ?_, h.sent, ?_⟩
  · unfold Rcv.Assembled
    dsimp only
    rw [hIdles.cAck]
    exact h.assembled.congr hIdles.ring hIdles.cAck hIdles.fw
  · rw [hIdles.cAck]
    exact h.phase
  · rw [hIdles.cAck]
    exact h.echoed

/- A filename starts a session with a sender that waits. -/
theorem inv_of_accepts
    {file : Nat → α × Int}
    {a : A}
    {v : Session.Net A α}
    {pkt : Packet α}
    (hAccepts :
      Rcv.Accepts (Wire.opaquePayload α) canOpen v.right pkt)
    (hHonest :
      Honest file
        (v.act (Session.sender file)
          (Session.receiver canOpen a) (.inr (.recv a pkt))))
    (hWaiting : v.left.filenameSend = false) :
    Session.Inv file a
      (v.act (Session.sender file)
        (Session.receiver canOpen a)
        (.inr (.recv a pkt))) := by
  rcases Rcv.step_accept (Wire.opaquePayload α)
      (Session.Chunk file v.left.last) canOpen a hAccepts with
    ⟨hServes, hAssembled, _, hZero⟩
  have hFresh : Ncp.Fresh v.left := by
    rcases hHonest.phase with hFresh | hLoaded
    · exact hFresh
    · cases hWaiting.symm.trans hLoaded.connected
  refine
    ⟨hAssembled, hServes.running, hServes.current,
      .inl hFresh, hHonest.sent, ?_⟩
  intro hdr hMem
  have hLe : hdr.cack ≤ v.left.last :=
    hHonest.echoed hdr hMem
  rw [hFresh.last_eq] at hLe
  exact hLe.trans_eq hZero.symm

/- A pass without a session opens one or changes nothing. -/
theorem Ordered.session_of_idle
    {s : Net A α α}
    (h : Ordered file s)
    {e : Rcv.Ev A α}
    (hOrderly : Orderly s (.inr e))
    (hHonest :
      ∀ a,
        Honest (file a)
          ((view a s).act (Session.sender (file a))
            (Session.receiver canOpen a) (.inr e)))
    (hIdle : s.right.hassender = false)
    (hRuns :
      (Rcv.step (Wire.opaquePayload α) canOpen s.right
        e).1.exited = false) :
    let s' := s.act (net file) (served canOpen) (.inr e)
    Session.Inv (file s'.right.current) s'.right.current
      (view s'.right.current s') := by
  intro s'
  have hRan := exited_of_step hRuns
  rcases idle_cases hIdle hRuns with
    ⟨r, hStep, hIdles, _⟩ | ⟨b, pkt, rfl, hAccepts⟩
  · have hSame : s'.right.current = s.right.current :=
      (congrArg (fun res => res.1.current) hStep).trans
        hIdles.current
    rw [hSame, view_recv]
    exact inv_of_idles (h.session hRan) hStep hIdles
  · have hSame : s'.right.current = b :=
      (Rcv.step_accept _ (fun _ => False) canOpen b
        hAccepts).1.current
    rw [hSame, view_recv]
    exact
      inv_of_accepts hAccepts (hHonest b)
        (hOrderly.2 hRan hIdle hAccepts.filename)

/- An orderly pass of the receiver keeps the order. -/
theorem Ordered.recv
    {s : Net A α α}
    (h : Ordered file s)
    {e : Rcv.Ev A α}
    (hEnabled :
      Link.Enabled (net file) (served canOpen) s (.inr e))
    (hOrderly : Orderly s (.inr e)) :
    Ordered file
      (s.act (net file) (served canOpen) (.inr e)) := by
  have hHonest :
      ∀ a,
        Honest (file a)
          ((view a s).act (Session.sender (file a))
            (Session.receiver canOpen a) (.inr e)) := by
    intro a
    exact
      (h.senders a).right
        (fun hdr hSend =>
          h.echo_le hEnabled hOrderly.1 hSend)
  refine ⟨fun a => ?_, fun hRuns => ?_⟩
  · rw [view_recv]
    exact hHonest a
  · change
      (Rcv.step (Wire.opaquePayload α) canOpen s.right
        e).1.exited = false at hRuns
    cases hOpen : s.right.hassender with
    | true =>
        have hRan := exited_of_step hRuns
        have hServes : Rcv.Serves s.right s.right.current :=
          ⟨hRan, hOpen, rfl⟩
        have hSame :
            (s.act (net file) (served canOpen)
              (.inr e)).right.current = s.right.current :=
          (hServes.step_frame _ canOpen e).2
        rw [hSame, view_recv]
        exact
          (h.session hRan).right (enabled_recv _ hEnabled)
            hOpen
    | false =>
        exact h.session_of_idle hOrderly hHonest hOpen hRuns

theorem ordered_of_reachable
    {guard : Net A α α → Act A α → Prop}
    (hGuard : ∀ s act, guard s act → Orderly s act)
    {s : Net A α α}
    (hReach :
      Link.Reachable (net file) (served canOpen) Start
        guard s) :
    Ordered file s := by
  refine
    hReach.invariant (Ordered file)
      (fun s hStart => hStart.ordered) ?_
  rintro s (t | e) hOrdered hEnabled hOk
  · exact hOrdered.turn hEnabled
  · exact hOrdered.recv hEnabled (hGuard s _ hOk)

/- The file is the first chunks of the current sender's. -/
theorem Ordered.fw_eq
    {s : Net A α α}
    (h : Ordered file s)
    (hRuns : s.right.exited = false) :
    s.right.fw =
      (List.range s.right.fw.length).map
        (fun i => (file s.right.current i).1) := by
  have hFile :
      Rcv.Numbered
        (Session.Chunk (file s.right.current)
          (s.left s.right.current).last)
        s.right.fw :=
    (h.session hRuns).assembled.file
  have hPayload :=
    Session.fw_eq_of_numbered hFile
  simpa [Session.payload] using hPayload

omit [DecidableEq A] in
theorem cAck_le_reads
    {file : Nat → α × Int}
    {a : A}
    {v : Session.Net A α}
    (h : Session.Inv file a v) :
    v.right.cAck ≤ v.left.reads := by
  have hLe := h.cAck_le
  rcases h.phase with hFresh | ⟨hLoaded, _⟩
  · rw [hFresh.last_eq] at hLe
    omega
  · have hReads := hLoaded.filled.reads
    rw [hLoaded.last_eq] at hLe
    omega

/-
  In orderly runs the file always holds the first `C_ack`
  chunks of the sender whose filename opened it, and that
  sender has read them.
-/
theorem orderly_prefix
    {s : Net A α α}
    (hReach :
      Link.Reachable (net file) (served canOpen) Start
        Orderly s)
    (hRuns : s.right.exited = false) :
    0 ≤ s.right.cAck ∧
      s.right.cAck ≤ (s.left s.right.current).reads ∧
      s.right.fw =
        (List.range s.right.cAck.toNat).map
          (fun i => (file s.right.current i).1) := by
  have hOrdered :=
    ordered_of_reachable (fun _ _ h => h) hReach
  have hInv := hOrdered.session hRuns
  have hNonneg : 0 ≤ s.right.cAck :=
    hInv.assembled.cAck_nonneg
  have hCount : s.right.cAck = s.right.fw.length :=
    hInv.assembled.count
  refine ⟨hNonneg, cAck_le_reads hInv, ?_⟩
  have hLength :
      s.right.cAck.toNat = s.right.fw.length := by
    omega
  rw [hLength]
  exact hOrdered.fw_eq hRuns

/- The second sender is refused, and a first chunk arrives. -/
def firstServed : List (Act Bool Nat) :=
  firstAccepted ++
    [.inr (.recv true (chunkPacket 0)),
      .inl
        { who := false
          served := false
          ev := .echo (chunkPacket 0).hdr false },
      .inr (.recv false (chunkPacket 1))]

theorem orderly_prefix_first :
    let s :=
      Link.runActs (net (fun _ => chunksOf 5))
        (served (fun _ => true)) twoSenders firstServed
    s.right.fw = [0] ∧
      0 ≤ s.right.cAck ∧
        s.right.cAck ≤ (s.left s.right.current).reads ∧
          s.right.fw =
            (List.range s.right.cAck.toNat).map
              (fun i => (chunksOf 5 i).1) :=
  ⟨by decide +kernel,
    orderly_prefix
      (Link.reachable_runActs (.start start_twoSenders)
        (by decide +kernel))
      (by decide +kernel)⟩

end Hub

end P1

end Cs2520

------------------------------------------------------------
-- Closed Files
------------------------------------------------------------

namespace Cs2520

namespace P1

namespace Hub

open Lib

variable {A α : Type} [DecidableEq A]
variable {file : A → Nat → α × Int}
variable {canOpen : α → Bool}

/- Orderly, and every sender waits for its last ack. -/
def OrderlyConfirmed
    (s : Net A α α) : Act A α → Prop
  | .inl t => Session.Confirmed (s.left t.who) t.ev
  | .inr e => Orderly s (.inr e)

instance (s : Net A α α) (act : Act A α) :
    Decidable (OrderlyConfirmed s act) :=
  match act with
  | .inl t =>
      inferInstanceAs
        (Decidable (Session.Confirmed (s.left t.who) t.ev))
  | .inr e => inferInstanceAs (Decidable (Orderly s (.inr e)))

/-
  A sender that has exited has been printed, and a file is
  closed only after its sender has exited.
-/
structure Closing
    (s : Net A α α) : Prop where
  complete : Session.Complete (view s.right.current s)
  closed :
    s.right.hassender = false →
      s.right.fw = [] ∨
        (s.left s.right.current).exited = true

theorem Closing.turn
    {s : Net A α α}
    (hOrdered : Ordered file s)
    (hRuns : s.right.exited = false)
    (h : Closing s)
    {t : Turn A}
    (hEnabled :
      Link.Enabled (net file) (served canOpen) s (.inl t))
    (hConfirmed : Session.Confirmed (s.left t.who) t.ev) :
    Closing
      (s.act (net file) (served canOpen) (.inl t)) := by
  have hRight :
      (s.act (net file) (served canOpen) (.inl t)).right =
        s.right := rfl
  have hInv := hOrdered.session hRuns
  by_cases hSame : s.right.current = t.who
  · refine ⟨?_, ?_⟩
    · have hBefore := h.complete
      rw [hRight]
      rw [hSame] at hInv hBefore ⊢
      rw [view_turn]
      exact
        Session.complete_left hInv hBefore
          (enabled_turn hEnabled) hConfirmed
    · intro hIdle
      rcases h.closed hIdle with hNone | hExited
      · exact .inl hNone
      · right
        rw [hSame] at hExited
        rw [hRight, hSame]
        have hKept :
            Ncp.step (Wire.opaquePayload α) (file t.who)
                (s.left t.who) t.ev =
              (s.left t.who, []) := by
          simp [Ncp.step, hExited]
        change
          (Function.update s.left t.who
            (Ncp.step (Wire.opaquePayload α) (file t.who)
              (s.left t.who) t.ev).1 t.who).exited = true
        rw [Function.update_self, hKept]
        exact hExited
  · refine ⟨?_, ?_⟩
    · rw [hRight, view_other s hSame]
      exact h.complete
    · intro hIdle
      rcases h.closed hIdle with hNone | hExited
      · exact .inl hNone
      · right
        rw [hRight]
        change
          (Function.update s.left t.who _
            s.right.current).exited = true
        rw [Function.update_of_ne hSame]
        exact hExited

theorem Closing.recv
    {s : Net A α α}
    (hOrdered : Ordered file s)
    (h : Closing s)
    {e : Rcv.Ev A α}
    (hEnabled :
      Link.Enabled (net file) (served canOpen) s (.inr e))
    (hOrderly : Orderly s (.inr e))
    (hRuns :
      (Rcv.step (Wire.opaquePayload α) canOpen s.right
        e).1.exited = false) :
    Closing
      (s.act (net file) (served canOpen) (.inr e)) := by
  have hRan := exited_of_step hRuns
  have hInv := hOrdered.session hRan
  have hHonest := hOrdered.senders s.right.current
  cases hOpen : s.right.hassender with
  | true =>
      have hServes : Rcv.Serves s.right s.right.current :=
        ⟨hRan, hOpen, rfl⟩
      have hSame :
          (s.act (net file) (served canOpen)
            (.inr e)).right.current = s.right.current :=
        (hServes.step_frame _ canOpen e).2
      refine ⟨?_, ?_⟩
      · rw [hSame, view_recv]
        exact Session.complete_right hInv h.complete hOpen
      · intro hIdle
        right
        rw [hSame]
        by_contra hExited
        have hEnd :
            Rcv.HearsFarewell s.right.current e := by
          by_contra hOther
          have hServed :=
            hServes.step_bound (Wire.opaquePayload α) canOpen
              hOther
          exact absurd hIdle (by
            rw [Bool.not_eq_false]
            exact hServed.hassender)
        rcases hEnd with ⟨pkt, rfl, hSeq⟩
        have hNonneg :=
          hHonest.farewell
            (Bool.eq_false_of_not_eq_true hExited) pkt
            (mem_view_toRight.mpr
              (hEnabled _ (by simp [receiver])))
        omega
  | false =>
      rcases idle_cases hOpen hRuns with
        ⟨r, hStep, hIdles, _⟩ | ⟨b, pkt, rfl, hAccepts⟩
      · have hRight :
            (s.act (net file) (served canOpen)
              (.inr e)).right = r :=
          congrArg Prod.fst hStep
        have hSame :
            (s.act (net file) (served canOpen)
              (.inr e)).right.current = s.right.current := by
          rw [hRight]
          exact hIdles.current
        refine ⟨?_, ?_⟩
        · rw [hSame]
          intro hExited
          change
            _ ≤ (s.act (net file) (served canOpen)
              (.inr e)).right.cAck
          rw [hRight, hIdles.cAck]
          exact h.complete hExited
        · intro _
          rw [hSame, hRight, hIdles.fw]
          exact h.closed hOpen
      · rcases Rcv.step_accept (Wire.opaquePayload α)
            (fun _ => False) canOpen b hAccepts with
          ⟨hServes, _, hNone, _⟩
        have hSame :
            (s.act (net file) (served canOpen)
              (.inr (.recv b pkt))).right.current = b :=
          hServes.current
        refine ⟨?_, ?_⟩
        · rw [hSame]
          intro hExited
          have hWaiting :=
            hOrderly.2 hRan hOpen hAccepts.filename
          rcases (hOrdered.senders b).phase with
            hFresh | hLoaded
          · exact absurd hExited (by
              rw [Bool.not_eq_true]
              exact hFresh.running)
          · cases hWaiting.symm.trans hLoaded.connected
        · intro _
          exact .inl hNone

/- A step of a single sender as one of the first sender. -/
def asFirst : Session.Act Unit Nat → Act Bool Nat
  | .inl e => .inl { who := false, served := false, ev := e }
  | .inr .timer => .inr .timer
  | .inr (.recv _ pkt) => .inr (.recv false pkt)

/- The first sender is accepted and sends its whole file. -/
def firstFinished : List (Act Bool Nat) :=
  greets false :: .inr (.recv false (chunkPacket 0)) ::
    (Session.lastAcked.map asFirst ++
      [.inr (.recv false Rcv.finishPacket)])

/- Both sides are done with the first file. -/
def firstClosed : Net Bool Nat Nat :=
  Link.runActs (net (fun _ => chunksOf 100))
    (served (fun _ => true)) twoSenders firstFinished

theorem reachable_firstClosed :
    Link.Reachable (net (fun _ => chunksOf 100))
      (served (fun _ => true)) Start OrderlyConfirmed
      firstClosed :=
  Link.reachable_runActs (.start start_twoSenders)
    (by decide +kernel)

end Hub

end P1

end Cs2520
