import Cs2520.P2.Handshake

/-
  The real-time sender and any number of receivers.

  Every address runs a receiver that asks the same server.
  What one of them and the server do to each other is a run
  of the stream with a single client, so all that is known of
  such runs holds of it. Beyond that, the server lets one
  client in and never turns this one away.

  Main declarations:
    * `RtSrv.Answers`
    * `RtSrv.step_answers`
    * `Crowd.view`
    * `Crowd.reachable_view`
    * `Crowd.Admits`
    * `Crowd.one_client_served`
-/

------------------------------------------------------------
-- Permissions and Declines
------------------------------------------------------------

namespace Cs2520

namespace P2

namespace RtSrv

open Lib

variable {A : Type} [DecidableEq A]

/-
  Permissions go to the accepted client, declines to others,
  and neither is sent before a client is accepted.
-/
def Answers
    (q : Client A)
    (m : A × Package) : Prop :=
  (m.2.type = 4 → q.request = true ∧ m.1 = q.currentAddr) ∧
    (m.2.type = 5 → q.request = true ∧ m.1 ≠ q.currentAddr)

/- Only a client that is not the accepted one is declined. -/
theorem onRcv_decline
    (c : Clocks)
    (s : RtSrv A)
    (fromAddr : A)
    (pkt : Package) :
    ∀ m ∈ (s.onRcv c fromAddr pkt).2,
      m.2.type = 5 → m.1 ≠ s.currentAddr := by
  intro m hMem hType
  rcases onRcv_out c s fromAddr pkt m hMem with
    ⟨hDest, hDecline | ⟨_, hAckack | hCopies⟩⟩
  · rw [hDest]
    unfold onRcv at hMem
    dsimp only at hMem
    split at hMem
    · next hAck =>
        rw [onAck_eq] at hMem
        rcases List.mem_cons.mp hMem with rfl | hRest
        · cases hType
        · rcases (resend_out c _ _ m hRest).2 with
            ⟨_, _, _, _, hPkt⟩
          rw [hPkt] at hType
          cases hType
    · split at hMem
      · split at hMem
        · next hOther => exact Ne.symm hOther
        · cases hMem
      · cases hMem
  · omega
  · rcases hCopies with ⟨_, _, _, _, hPkt⟩
    rw [hPkt] at hType
    cases hType

theorem rcvPart_decline
    (c : Clocks)
    (s : RtSrv A)
    (rcv : Option (A × Package)) :
    ∀ m ∈ (s.rcvPart c rcv).2,
      m.2.type = 5 → m.1 ≠ s.currentAddr := by
  cases rcv with
  | none =>
      intro m hMem
      cases hMem
  | some packet =>
      exact onRcv_decline c s packet.1 packet.2

theorem mainPass_decline
    (s : RtSrv A)
    (e : Ev A) :
    ∀ m ∈ (s.mainPass e).2,
      m.2.type = 5 → m.1 ≠ s.currentAddr := by
  intro m hMem hType
  rcases e with ⟨_ | _ | r, rcv, c⟩
  · rw [mainPass_out_quiet] at hMem
    exact rcvPart_decline c s rcv m hMem hType
  · cases hMem
  · rw [mainPass_out_record] at hMem
    rcases List.mem_append.mp hMem with hApp | hRcv
    · rw [onApp_out] at hApp
      rw [List.mem_singleton.mp hApp,
        (onApp_carries c s r).type] at hType
      cases hType
    · have hSame :
          (s.onApp c r).1.currentAddr = s.currentAddr :=
        congrArg Client.currentAddr (onApp_client c s r)
      rw [← hSame]
      exact rcvPart_decline c _ rcv m hRcv hType

/-
  A pass keeps an accepted client, and answers requests for
  the client that it leaves accepted.
-/
theorem step_answers
    (s : RtSrv A)
    (e : Ev A) :
    (s.request = true →
        (step s e).1.client = s.client) ∧
      ∀ m ∈ (step s e).2, Answers (step s e).1.client m := by
  unfold step
  split
  · exact ⟨fun _ => rfl, by simp⟩
  · split
    · next hRecorded =>
        have hSame := mainPass_client s e
        refine ⟨fun _ => hSame, ?_⟩
        intro m hMem
        rw [hSame]
        refine ⟨?_, ?_⟩
        · intro hType
          exact
            (mainPass_no_permission s e m hMem hType).elim
        · intro hType
          exact
            ⟨hRecorded, mainPass_decline s e m hMem hType⟩
    · next hWaiting =>
        refine ⟨fun hRecorded => (hWaiting hRecorded).elim, ?_⟩
        unfold waitPass
        split
        · simp
        · dsimp only
          split
          · intro m hMem
            rw [List.eq_of_mem_replicate hMem]
            exact
              ⟨fun _ => ⟨rfl, rfl⟩, fun hType => by cases hType⟩
          · simp

end RtSrv

end P2

end Cs2520

------------------------------------------------------------
-- What Connects a Receiver
------------------------------------------------------------

namespace Cs2520

namespace P2

namespace RtRcv

open Lib

variable {A : Type}

/- A packet of this type was received. -/
def Ev.Hears
    (e : Ev A)
    (type : Int) : Prop :=
  ∃ a pkt, e.packet = some (a, pkt) ∧ pkt.type = type

/-
  Only a permission connects, only a decline ends the
  program, and only a connected receiver delivers.
-/
structure Connects
    (r : RtRcv A)
    (e : Ev A)
    (r' : RtRcv A) : Prop where
  permission :
    r'.getpermission = r.getpermission ∨ e.Hears 4
  decline : r'.exited = r.exited ∨ e.Hears 5
  delivered :
    r'.getpermission = false →
      r.getpermission = false ∧ r'.delivered = r.delivered

theorem step_connects
    (latency : Nat)
    (r : RtRcv A)
    (e : Ev A) :
    Connects r e (step latency r e).1 := by
  have hStep := step_stepping latency r e
  generalize step latency r e = res at hStep ⊢
  cases hStep with
  | exited _ =>
      exact ⟨.inl rfl, .inl rfl, fun hNone => ⟨hNone, rfl⟩⟩
  | connecting _ hWaiting hRes =>
      refine
        ⟨?_, ?_, fun _ => ⟨hWaiting, hRes.delivered.1⟩⟩
      · generalize hPacket : e.packet = packet at hRes
        cases hRes with
        | asked => exact .inl rfl
        | declined _ => exact .inl rfl
        | permitted hType => exact .inr ⟨_, _, hPacket, hType⟩
        | ignored _ _ => exact .inl rfl
      · generalize hPacket : e.packet = packet at hRes
        cases hRes with
        | asked => exact .inl rfl
        | declined hType => exact .inr ⟨_, _, hPacket, hType⟩
        | permitted _ => exact .inl rfl
        | ignored _ _ => exact .inl rfl
  | @receiving res _ hConnected hRes =>
      have hKept :
          (r.deliverPass latency e.clocks).1.exited =
              r.exited ∧
            (r.deliverPass latency e.clocks).1.getpermission =
              r.getpermission :=
        deliverPass_keeps
          (P := fun q =>
            q.exited = r.exited ∧
              q.getpermission = r.getpermission)
          (fun _ _ hSame => hSame) ⟨rfl, rfl⟩
      have hStill := hRes.received.getpermission
      refine ⟨.inl (hStill.trans hKept.2), .inl ?_, ?_⟩
      · have hRuns :
            res.1.exited =
              (r.deliverPass latency e.clocks).1.exited := by
          have hReceived := hRes.received
          generalize e.packet = packet at hReceived
          cases hReceived with
          | unchanged _ hSame =>
              exact congrArg Progress.exited hSame
          | stored _ _ _ hStored _ _ =>
              exact congrArg Progress.exited hStored
        exact hRuns.trans hKept.1
      · intro hWaiting
        have hSame := hStill.trans hKept.2
        rw [hConnected] at hSame
        cases hWaiting.symm.trans hSame

end RtRcv

end P2

end Cs2520

------------------------------------------------------------
-- Receivers at Every Address
------------------------------------------------------------

namespace Cs2520

namespace P2

namespace Crowd

open Lib

variable {A : Type} [DecidableEq A]
variable (latency : A → Nat)
variable (srv : A)

/- The server, all receivers by address, all datagrams. -/
abbrev Net (A : Type) :=
  Link (RtSrv A) (A → RtRcv A) (Stream.Datagram A)
    (Stream.Datagram A)

/- An input to the server or to one of the receivers. -/
abbrev Act (A : Type) := RtSrv.Ev A ⊕ (A × RtRcv.Ev A)

/- The server hears what was sent to it. -/
def server :
    Endpoint (RtSrv A) (RtSrv.Ev A) (A × Package)
      (Stream.Datagram A) (Stream.Datagram A) :=
  { RtSrv.machine with
    consumes := fun e =>
      e.rcv.map
        (fun m => { src := m.1, dest := srv, pkt := m.2 })
    emits := List.map (Stream.fromServer srv) }

/- Each receiver has its own latency window. -/
def receivers :
    Endpoint (A → RtRcv A) (A × RtRcv.Ev A)
      (A × RtRcv.Out A) (Stream.Datagram A) (Stream.Datagram A) where
  step := fun r e =>
    let (r', out) := RtRcv.step (latency e.1) (r e.1) e.2
    (Function.update r e.1 r', out.map (fun o => (e.1, o)))
  consumes := fun e => e.2.packet.map (Stream.toClient e.1)
  emits :=
    List.filterMap
      (fun o =>
        match o.2 with
        | .sendto dest pkt =>
            some { src := o.1, dest := dest, pkt := pkt }
        | .deliver _ => none)

/- All processes are at their start, nothing was sent. -/
structure Start
    (s : Net A) : Prop where
  server : ∃ addr pkt, s.left = RtSrv.initial addr pkt
  receivers : ∀ a, ∃ u, s.right a = RtRcv.initial srv u
  toServer : s.toLeft = []
  toClients : s.toRight = []

/- The server, one receiver, and what this one has sent. -/
def view
    (a : A)
    (s : Net A) : Stream.Net A where
  left := s.left
  right := s.right a
  toLeft := s.toLeft.filter (fun m => m.src = a)
  toRight := s.toRight

variable {latency srv}

/- A pass of the server is one of every view. -/
theorem view_server
    (a : A)
    (s : Net A)
    (e : RtSrv.Ev A) :
    view a (s.act (server srv) (receivers latency) (.inl e)) =
      (view a s).act (Stream.server srv a)
        (Stream.receiver (latency a) a) (.inl e) :=
  rfl

/- A pass of a receiver is one of its own view. -/
theorem view_receiver
    (a : A)
    (s : Net A)
    (e : RtRcv.Ev A) :
    view a
        (s.act (server srv) (receivers latency)
          (.inr (a, e))) =
      (view a s).act (Stream.server srv a)
        (Stream.receiver (latency a) a) (.inr e) := by
  have hOwn (out : List (RtRcv.Out A)) :
      ((receivers latency).emits
          (out.map (fun o => (a, o)))).filter
          (fun m => m.src = a) =
        (Stream.receiver (latency a) a).emits out := by
    simp only [receivers, Stream.receiver,
      List.filterMap_map, List.filter_filterMap]
    apply List.filterMap_congr
    intro o _
    cases o with
    | sendto dest pkt => simp [Option.filter]
    | deliver d => rfl
  change
    ({ left := s.left
       right :=
        Function.update s.right a
          (RtRcv.step (latency a) (s.right a) e).1 a
       toLeft :=
        (s.toLeft ++
          (receivers latency).emits
            ((RtRcv.step (latency a) (s.right a) e).2.map
              (fun o => (a, o)))).filter
          (fun m => m.src = a)
       toRight := s.toRight } : Stream.Net A) = _
  rw [Function.update_self, List.filter_append, hOwn]
  rfl

/- A pass of another receiver is none of it. -/
theorem view_other
    {a b : A}
    (s : Net A)
    (hOther : a ≠ b)
    (e : RtRcv.Ev A) :
    view a
        (s.act (server srv) (receivers latency)
          (.inr (b, e))) =
      view a s := by
  have hNone (out : List (RtRcv.Out A)) :
      ((receivers latency).emits
          (out.map (fun o => (b, o)))).filter
          (fun m => m.src = a) =
        [] := by
    simp only [receivers, List.filterMap_map,
      List.filter_filterMap, List.filterMap_eq_nil_iff]
    intro o _
    cases o with
    | sendto dest pkt => simp [Option.filter, hOther.symm]
    | deliver d => rfl
  change
    ({ left := s.left
       right :=
        Function.update s.right b
          (RtRcv.step (latency b) (s.right b) e).1 a
       toLeft :=
        (s.toLeft ++
          (receivers latency).emits
            ((RtRcv.step (latency b) (s.right b) e).2.map
              (fun o => (b, o)))).filter
          (fun m => m.src = a)
       toRight := s.toRight } : Stream.Net A) = _
  rw [Function.update_of_ne hOther, List.filter_append,
    hNone, List.append_nil]
  rfl

/- Every view is a state of a run with a single client. -/
theorem reachable_view
    {s : Net A}
    (hReach :
      Link.Reachable (server srv) (receivers latency)
        (Start srv) (fun _ _ => True) s)
    (a : A) :
    Stream.Reachable (latency a) srv a (view a s) := by
  induction hReach with
  | start hStart =>
      refine
        .start
          ⟨hStart.server, hStart.receivers a, ?_,
            hStart.toClients⟩
      simp [view, hStart.toServer]
  | @step s act _ hEnabled _ ih =>
      rcases act with e | ⟨b, e⟩
      · rw [view_server]
        refine .step ih ?_ trivial
        intro m hMem
        rcases hRcv : e.rcv with _ | ⟨fromAddr, pkt⟩
        · simp [Stream.server, hRcv] at hMem
        · have hSent :=
            hEnabled
              { src := fromAddr, dest := srv, pkt := pkt }
              (by simp [server, hRcv])
          simp only [Stream.server, hRcv] at hMem
          split at hMem
          · next hFrom =>
              cases hMem
              subst hFrom
              exact
                List.mem_filter.mpr ⟨hSent, by simp⟩
          · cases hMem
      · by_cases hSame : a = b
        · subst hSame
          rw [view_receiver]
          exact .step ih hEnabled trivial
        · rw [view_other s hSame]
          exact ih

/-
  The server has one client, which it never turns away, and
  no other receiver is connected or delivers anything.
-/
structure Admits
    (s : Net A) : Prop where
  answers :
    ∀ m ∈ s.toRight,
      RtSrv.Answers s.left.client (m.dest, m.pkt)
  permitted :
    ∀ a, (s.right a).getpermission = true →
      s.left.request = true ∧ s.left.currentAddr = a
  declined :
    ∀ a, (s.right a).exited = true →
      s.left.request = true ∧ s.left.currentAddr ≠ a
  silent :
    ∀ a, (s.right a).getpermission = false →
      (s.right a).delivered = []

omit [DecidableEq A] in
theorem Start.admits
    {s : Net A}
    (h : Start srv s) :
    Admits s := by
  refine ⟨?_, ?_, ?_, ?_⟩
  · intro m hMem
    rw [h.toClients] at hMem
    cases hMem
  · intro a hPermitted
    rcases h.receivers a with ⟨u, hRight⟩
    rw [hRight] at hPermitted
    cases hPermitted
  · intro a hExited
    rcases h.receivers a with ⟨u, hRight⟩
    rw [hRight] at hExited
    cases hExited
  · intro a _
    rcases h.receivers a with ⟨u, hRight⟩
    rw [hRight]
    rfl

theorem Admits.serverPass
    {s : Net A}
    (h : Admits s)
    (e : RtSrv.Ev A) :
    Admits
      (s.act (server srv) (receivers latency) (.inl e)) := by
  rcases RtSrv.step_answers s.left e with ⟨hKept, hNew⟩
  have hRequest :
      s.left.request = true →
        (RtSrv.step s.left e).1.request = true ∧
          (RtSrv.step s.left e).1.currentAddr =
            s.left.currentAddr := by
    intro hRecorded
    have hSame := hKept hRecorded
    exact
      ⟨(congrArg RtSrv.Client.request hSame).trans hRecorded,
        congrArg RtSrv.Client.currentAddr hSame⟩
  refine ⟨?_, ?_, ?_, h.silent⟩
  · intro m hMem
    rcases List.mem_append.mp hMem with hOld | hSent
    · have hAnswer := h.answers m hOld
      refine ⟨?_, ?_⟩
      · intro hType
        rcases hAnswer.1 hType with ⟨hRecorded, hDest⟩
        rcases hRequest hRecorded with ⟨hStill, hSame⟩
        exact ⟨hStill, hDest.trans hSame.symm⟩
      · intro hType
        rcases hAnswer.2 hType with ⟨hRecorded, hDest⟩
        rcases hRequest hRecorded with ⟨hStill, hSame⟩
        exact ⟨hStill, fun hIs => hDest (hIs.trans hSame)⟩
    · rcases List.mem_map.mp hSent with ⟨o, hOut, rfl⟩
      exact hNew o hOut
  · intro a hPermitted
    rcases h.permitted a hPermitted with ⟨hRecorded, hCurrent⟩
    rcases hRequest hRecorded with ⟨hStill, hSame⟩
    exact ⟨hStill, hSame.trans hCurrent⟩
  · intro a hExited
    rcases h.declined a hExited with ⟨hRecorded, hCurrent⟩
    rcases hRequest hRecorded with ⟨hStill, hSame⟩
    exact ⟨hStill, fun hIs => hCurrent (hSame.symm.trans hIs)⟩

theorem Admits.receiverPass
    {s : Net A}
    (h : Admits s)
    {b : A}
    {e : RtRcv.Ev A}
    (hEnabled :
      Link.Enabled (server srv) (receivers latency) s
        (.inr (b, e))) :
    Admits
      (s.act (server srv) (receivers latency)
        (.inr (b, e))) := by
  have hStep := RtRcv.step_connects (latency b) (s.right b) e
  have hHeard :
      ∀ type, e.Hears type →
        ∃ m ∈ s.toRight, m.dest = b ∧ m.pkt.type = type := by
    rintro type ⟨a, pkt, hPacket, hType⟩
    exact
      ⟨Stream.toClient b (a, pkt),
        hEnabled _ (by simp [receivers, hPacket]), rfl, hType⟩
  have hOther :
      ∀ a, a ≠ b →
        (s.act (server srv) (receivers latency)
          (.inr (b, e))).right a = s.right a :=
    fun a hNe => Function.update_of_ne hNe _ _
  have hOwn :
      (s.act (server srv) (receivers latency)
        (.inr (b, e))).right b =
        (RtRcv.step (latency b) (s.right b) e).1 :=
    Function.update_self _ _ _
  refine ⟨h.answers, ?_, ?_, ?_⟩
  · intro a hPermitted
    by_cases hSame : a = b
    · subst hSame
      rw [hOwn] at hPermitted
      rcases hStep.permission with hKept | hHears
      · exact h.permitted a (hKept.symm.trans hPermitted)
      · rcases hHeard 4 hHears with ⟨m, hMem, hDest, hType⟩
        rcases (h.answers m hMem).1 hType with
          ⟨hRecorded, hCurrent⟩
        exact ⟨hRecorded, hCurrent.symm.trans hDest⟩
    · rw [hOther a hSame] at hPermitted
      exact h.permitted a hPermitted
  · intro a hExited
    by_cases hSame : a = b
    · subst hSame
      rw [hOwn] at hExited
      rcases hStep.decline with hKept | hHears
      · exact h.declined a (hKept.symm.trans hExited)
      · rcases hHeard 5 hHears with ⟨m, hMem, hDest, hType⟩
        rcases (h.answers m hMem).2 hType with
          ⟨hRecorded, hCurrent⟩
        exact
          ⟨hRecorded,
            fun hIs => hCurrent (hDest.trans hIs.symm)⟩
    · rw [hOther a hSame] at hExited
      exact h.declined a hExited
  · intro a hWaiting
    by_cases hSame : a = b
    · subst hSame
      rw [hOwn] at hWaiting ⊢
      rcases hStep.delivered hWaiting with ⟨hBefore, hSame⟩
      exact hSame.trans (h.silent a hBefore)
    · rw [hOther a hSame] at hWaiting ⊢
      exact h.silent a hWaiting

theorem admits_of_reachable
    {s : Net A}
    (hReach :
      Link.Reachable (server srv) (receivers latency)
        (Start srv) (fun _ _ => True) s) :
    Admits s := by
  refine
    hReach.invariant Admits
      (fun s hStart => hStart.admits) ?_
  rintro s (e | ⟨b, e⟩) hAdmits hEnabled _
  · exact hAdmits.serverPass e
  · exact hAdmits.receiverPass hEnabled

/-
  In every run at most one receiver gets a permission. The
  accepted one is never declined, and only this one delivers
  anything: payloads of the server's records, in increasing
  order of their numbers.
-/
theorem one_client_served
    {s : Net A}
    (hReach :
      Link.Reachable (server srv) (receivers latency)
        (Start srv) (fun _ _ => True) s) :
    (∀ a b,
      (s.right a).getpermission = true →
        (s.right b).getpermission = true → a = b) ∧
      (s.left.request = true →
        (s.right s.left.currentAddr).exited = false) ∧
      ∀ a, (s.right a).delivered ≠ [] →
        s.left.request = true ∧
          s.left.currentAddr = a ∧
          (s.right a).delivered.Pairwise
            (fun d d' => d.seq < d'.seq) ∧
          ∀ d ∈ (s.right a).delivered,
            1 ≤ d.seq ∧
              ∃ r,
                s.left.records[(d.seq - 1).toNat]? = some r ∧
                  d.data = r.payload := by
  have hAdmits := admits_of_reachable hReach
  refine ⟨?_, ?_, ?_⟩
  · intro a b hA hB
    exact
      (hAdmits.permitted a hA).2.symm.trans
        (hAdmits.permitted b hB).2
  · intro _
    by_contra hExited
    exact
      (hAdmits.declined _
        (Bool.eq_true_of_not_eq_false hExited)).2 rfl
  · intro a hSome
    have hPermitted : (s.right a).getpermission = true := by
      by_contra hWaiting
      exact
        hSome
          (hAdmits.silent a
            (Bool.eq_false_of_not_eq_true hWaiting))
    rcases hAdmits.permitted a hPermitted with
      ⟨hRecorded, hCurrent⟩
    have hView := reachable_view hReach a
    have hInv := Stream.inv_of_reachable hView
    exact
      ⟨hRecorded, hCurrent, hInv.right.ordered,
        fun d hMem => Stream.delivered_payload hView hMem⟩

/- A server at address 0 and receivers at all addresses. -/
def begun : Net (Fin 3) where
  left := RtSrv.initial 0 .zeroed
  right := fun _ => RtRcv.initial 0 RtRcv.zeroedMemory
  toLeft := []
  toRight := []

theorem start_begun : Start 0 begun :=
  ⟨⟨_, _, rfl⟩, fun _ => ⟨_, rfl⟩, rfl, rfl⟩

/- A pass of the receiver at `a`. -/
def hears
    (a : Fin 3)
    (packet : Option Package)
    (sec : Nat) : Act (Fin 3) :=
  .inr
    (a,
      { packet := packet.map (fun pkt => (0, pkt))
        clocks := .ofSeconds sec })

/- A pass of the server. -/
def serves
    (app : Option StreamPkt)
    (rcv : Option (Fin 3 × Package)) : Act (Fin 3) :=
  .inl
    { app := app.map some
      rcv := rcv
      clocks := .ofSeconds 0 }

/- The first receiver is let in, the second turned away. -/
def twoAsking : List (Act (Fin 3)) :=
  [hears 1 none 0, hears 2 none 0,
    serves none (some (1, Stream.requestPkt)),
    hears 1 (some Stream.permissionPkt) 0,
    serves (some Stream.firstRecord) none,
    serves none (some (2, Stream.requestPkt)),
    hears 2
      (some
        { Stream.requestPkt with
          type := 5
          receiveTS1 := (Clock.ofSeconds 0).toTimeval })
      0,
    hears 1 (some Stream.firstPkt) 0, hears 1 none 1]

def bothAnswered : Net (Fin 3) :=
  Link.runActs (server 0) (receivers (fun _ => 10)) begun
    twoAsking

theorem reachable_bothAnswered :
    Link.Reachable (server 0) (receivers (fun _ => 10))
      (Start 0) (fun _ _ => True) bothAnswered :=
  Link.reachable_runActs (.start start_begun)
    (by decide +kernel)

theorem one_client_served_first :
    (bothAnswered.right 2).exited = true ∧
      (bothAnswered.right 1).delivered.length = 1 ∧
        (∀ a b,
          (bothAnswered.right a).getpermission = true →
            (bothAnswered.right b).getpermission = true →
              a = b) :=
  ⟨by decide +kernel, by decide +kernel,
    (one_client_served reachable_bothAnswered).1⟩

end Crowd

end P2

end Cs2520
