import Cs2520.P2.Ring
import Cs2520.P2.Sliding

/-
  The report clock of the real-time receiver.

  `start_ts` and `next_report_time` are only set by a packet
  of type 0 that is the first one accepted. Packets of type 6
  answer acknowledgements, and the receiver acknowledges what
  it accepts, so the first accepted packet has type 0.

  Main declarations:
    * `Schedule`
    * `Receiving.schedule`
    * `Stepping.schedule`
    * `run_schedule`
    * `Unasked`
    * `report_clock_set`
-/

------------------------------------------------------------
-- The Schedule of Reports
------------------------------------------------------------

namespace Cs2520

namespace P2

namespace RtRcv

open Lib

variable {A : Type}
variable {latency : Nat}
variable {r : RtRcv A}

/- The counter of packets, and the times of the reports. -/
structure Schedule where
  rcvdCount : Int
  startTS : Timeval
  nextReportTime : Timeval

def schedule
    (r : RtRcv A) : Schedule where
  rcvdCount := r.rcvdCount
  startTS := r.startTS
  nextReportTime := r.nextReportTime

/- The reports start now. -/
def Schedule.start
    (c : Clocks)
    (t : Schedule) : Schedule :=
  { t with
    startTS := c.start.toTimeval
    nextReportTime :=
      Timeval.timeradd c.start.toTimeval reportInterval }

def Schedule.count
    (t : Schedule) : Schedule :=
  { t with rcvdCount := t.rcvdCount + 1 }

/- What an accepted packet does to it. -/
def Schedule.accept
    (c : Clocks)
    (pkt : Package)
    (t : Schedule) : Schedule :=
  if pkt.type = 0 ∧ t.rcvdCount = 0 then
    (t.start c).count
  else
    t.count

/- What a report does to it. -/
def Schedule.report
    (t : Schedule) : Schedule :=
  { t with
    nextReportTime :=
      Timeval.timeradd t.nextReportTime reportInterval }

theorem Schedule.accept_rcvdCount
    (c : Clocks)
    (pkt : Package)
    (t : Schedule) :
    (t.accept c pkt).rcvdCount = t.rcvdCount + 1 := by
  unfold Schedule.accept
  split
  · rfl
  · rfl

/- Reports leave the counter alone. -/
theorem rcvdCount_of_schedule
    {q : RtRcv A}
    (hSame :
      q.schedule = r.schedule ∨
        q.schedule = r.schedule.report) :
    q.rcvdCount = r.rcvdCount := by
  rcases hSame with hSame | hReport
  · exact congrArg Schedule.rcvdCount hSame
  · exact congrArg Schedule.rcvdCount hReport

theorem startReport_schedule
    (c : Clocks)
    (r : RtRcv A) :
    (r.startReport c).schedule =
      if r.senderPkt.type = 0 ∧ r.rcvdCount = 0 then
        r.schedule.start c
      else
        r.schedule := by
  unfold startReport
  split
  · rfl
  · rfl

theorem raiseHighest_schedule
    (r : RtRcv A) :
    r.raiseHighest.schedule = r.schedule := by
  unfold raiseHighest
  split
  · rfl
  · rfl

theorem measure_schedule
    (c : Clocks)
    (r : RtRcv A) :
    (r.measure c).schedule =
      r.schedule.accept c r.senderPkt := by
  have hSample :
      ∀ q : RtRcv A, q.sample.schedule = q.schedule.count :=
    fun _ => rfl
  rw [measure, hSample, raiseHighest_schedule,
    startReport_schedule, apply_ite Schedule.count]
  rfl

theorem deliverPass_schedule
    (c : Clocks)
    (r : RtRcv A) :
    (r.deliverPass latency c).1.schedule = r.schedule :=
  deliverPass_keeps (P := fun q => q.schedule = r.schedule)
    (fun _ _ hSame => hSame) rfl

/-
  What follows the delivery loop accepts a packet, or sends
  nothing and at most reports.
-/
theorem Receiving.schedule
    {c : Clocks}
    {packet : Option (A × Package)}
    {res : RtRcv A × List (Out A)}
    (hRes : Receiving latency c r packet res) :
    (∃ a pkt,
        packet = some (a, pkt) ∧
          Accepts latency c r packet ∧
          res.1.schedule = r.schedule.accept c pkt) ∨
      (¬ Accepts latency c r packet ∧
        res.2 = [] ∧
        (res.1.schedule = r.schedule ∨
          res.1.schedule = r.schedule.report)) := by
  cases hRes with
  | idle _ =>
      exact
        Or.inr
          ⟨not_accepts_none latency c r, rfl, Or.inl rfl⟩
  | reported _ =>
      exact
        Or.inr
          ⟨not_accepts_none latency c r, rfl, Or.inr rfl⟩
  | @stored a pkt hType hRange hTime =>
      exact
        Or.inl
          ⟨a, pkt, rfl,
            ⟨a, pkt, rfl, hType, hRange, hTime⟩,
            measure_schedule c _⟩
  | late hLate =>
      exact
        Or.inr
          ⟨fun h => hLate h.of_some.2.2, rfl, Or.inl rfl⟩
  | outside hOutside =>
      exact
        Or.inr
          ⟨fun h => hOutside h.of_some.2.1, rfl, Or.inl rfl⟩
  | ackacked hOther _ =>
      exact
        Or.inr
          ⟨fun h => hOther h.of_some.1, rfl, Or.inl rfl⟩
  | ignored hOther _ =>
      exact
        Or.inr
          ⟨fun h => hOther h.of_some.1, rfl, Or.inl rfl⟩

/- Connecting neither accepts nor acknowledges. -/
theorem Connecting.schedule
    {c : Clocks}
    {packet : Option (A × Package)}
    {res : RtRcv A × List (Out A)}
    (hRes : Connecting latency c r packet res) :
    res.1.schedule = r.schedule ∧
      ∀ dest p, Out.sendto dest p ∈ res.2 → p.type ≠ 2 := by
  cases hRes with
  | asked =>
      refine ⟨rfl, ?_⟩
      intro dest p hMem
      cases List.mem_singleton.mp hMem
      exact (by decide : (3 : Int) ≠ 2)
  | declined _ =>
      exact ⟨rfl, fun dest p hMem => by cases hMem⟩
  | permitted _ =>
      exact ⟨rfl, fun dest p hMem => by cases hMem⟩
  | ignored _ _ =>
      exact ⟨rfl, fun dest p hMem => by cases hMem⟩

/-
  A pass accepts a packet, or acknowledges nothing and at
  most reports.
-/
theorem Stepping.schedule
    {e : Ev A}
    {res : RtRcv A × List (Out A)}
    (hStep : Stepping latency r e res) :
    (∃ pkt,
        accepted? latency (r, e) = some pkt ∧
          res.1.schedule = r.schedule.accept e.clocks pkt) ∨
      (accepted? latency (r, e) = none ∧
        (∀ dest p,
          Out.sendto dest p ∈ res.2 → p.type ≠ 2) ∧
        (res.1.schedule = r.schedule ∨
          res.1.schedule = r.schedule.report)) := by
  cases hStep with
  | exited hExited =>
      refine Or.inr ⟨?_, fun dest p hMem => ?_, Or.inl rfl⟩
      · apply Option.eq_none_iff_forall_ne_some.mpr
        intro pkt hSome
        have hRunning := (accepted?_eq_some_iff.mp hSome).1
        cases hExited.symm.trans hRunning
      · cases hMem
  | connecting _ hNew hRes =>
      rcases hRes.schedule with ⟨hSame, hOut⟩
      refine Or.inr ⟨?_, hOut, Or.inl hSame⟩
      apply Option.eq_none_iff_forall_ne_some.mpr
      intro pkt hSome
      have hConnected := (accepted?_eq_some_iff.mp hSome).2.1
      cases hNew.symm.trans hConnected
  | receiving hRunning hConnected hRes =>
      have hSchedule := hRes.schedule
      rw [deliverPass_schedule] at hSchedule
      rcases hSchedule with
        ⟨a, pkt, hPacket, hAccepts, hCount⟩ |
          ⟨hNot, hNone, hSame⟩
      · rw [hPacket] at hAccepts
        refine Or.inl ⟨pkt, ?_, hCount⟩
        exact
          accepted?_eq_some_iff.mpr
            ⟨hRunning, hConnected, a, hPacket, hAccepts⟩
      · refine Or.inr ⟨?_, ?_, hSame⟩
        · apply Option.eq_none_iff_forall_ne_some.mpr
          intro pkt hSome
          rcases accepted?_eq_some_iff.mp hSome with
            ⟨_, _, a, hPacket, hAccepts⟩
          rw [← hPacket] at hAccepts
          exact hNot hAccepts
        · intro dest p hMem
          rcases deliverPass_out latency e.clocks r with
            ⟨sent, hOut, _⟩
          rw [hNone, List.append_nil, hOut] at hMem
          rcases List.mem_map.mp hMem with ⟨_, _, hEq⟩
          cases hEq

end RtRcv

end P2

end Cs2520

------------------------------------------------------------
-- Runs of the Receiver
------------------------------------------------------------

namespace Cs2520

namespace P2

namespace RtRcv

open Lib

variable {A : Type}
variable {latency : Nat}
variable {r : RtRcv A}

/- The packets that a run accepts, in their order. -/
def acceptedPkts
    (latency : Nat)
    (r : RtRcv A)
    (es : List (Ev A)) : List Package :=
  ((machine latency).trace r es).filterMap
    (accepted? latency)

/-
  The reports started at `start`, and follow each other at
  the report interval.
-/
def Started
    (start : Timeval)
    (t : Schedule) : Prop :=
  t.startTS = start ∧
    ∃ n : Nat,
      t.nextReportTime =
        (fun next => Timeval.timeradd next reportInterval)^[n + 1]
          start

theorem Started.report
    {start : Timeval}
    {t : Schedule}
    (h : Started start t) :
    Started start t.report := by
  rcases h with ⟨hStart, n, hNext⟩
  refine ⟨hStart, n + 1, ?_⟩
  rw [Function.iterate_succ_apply', ← hNext]
  rfl

/- What a run has counted, and where its schedule is from. -/
structure Scheduled
    (latency : Nat)
    (r : RtRcv A)
    (es : List (Ev A)) : Prop where
  count :
    ((machine latency).run r es).rcvdCount =
      (acceptedPkts latency r es).length
  first :
    ∀ pkt ∈ (acceptedPkts latency r es).head?, pkt.type = 0
  started :
    ((machine latency).run r es).rcvdCount ≠ 0 →
      ∃ x ∈ (machine latency).trace r es,
        (∃ pkt, accepted? latency x = some pkt) ∧
          x.1.rcvdCount = 0 ∧
          Started x.2.clocks.start.toTimeval
            ((machine latency).run r es).schedule

theorem acceptedPkts_concat
    (r : RtRcv A)
    (es : List (Ev A))
    (e : Ev A) :
    acceptedPkts latency r (es ++ [e]) =
      acceptedPkts latency r es ++
        (accepted? latency
          ((machine latency).run r es, e)).toList := by
  rw [acceptedPkts, Machine.trace_append,
    List.filterMap_append]
  rfl

theorem run_concat
    (r : RtRcv A)
    (es : List (Ev A))
    (e : Ev A) :
    (machine latency).run r (es ++ [e]) =
      (step latency ((machine latency).run r es) e).1 :=
  Machine.run_append _ _ _ _

theorem mem_trace_concat
    {es : List (Ev A)}
    {e : Ev A}
    {x : RtRcv A × Ev A} :
    x ∈ (machine latency).trace r (es ++ [e]) ↔
      x ∈ (machine latency).trace r es ∨
        x = ((machine latency).run r es, e) := by
  rw [Machine.trace_append, List.mem_append,
    Machine.trace_cons, Machine.trace_nil,
    List.mem_singleton]

/- A pass that accepts nothing leaves the times explained. -/
theorem Scheduled.other
    {es : List (Ev A)}
    (h : Scheduled latency r es)
    {e : Ev A}
    (hNone :
      accepted? latency ((machine latency).run r es, e) =
        none)
    (hSame :
      let q := (machine latency).run r es
      (step latency q e).1.schedule = q.schedule ∨
        (step latency q e).1.schedule = q.schedule.report) :
    Scheduled latency r (es ++ [e]) := by
  have hList :
      acceptedPkts latency r (es ++ [e]) =
        acceptedPkts latency r es := by
    rw [acceptedPkts_concat, hNone]
    exact List.append_nil _
  have hCount :
      ((machine latency).run r (es ++ [e])).rcvdCount =
        ((machine latency).run r es).rcvdCount := by
    rw [run_concat]
    exact rcvdCount_of_schedule hSame
  refine ⟨?_, ?_, ?_⟩
  · rw [hCount, hList]
    exact h.count
  · rw [hList]
    exact h.first
  · intro hNonzero
    rw [hCount] at hNonzero
    rcases h.started hNonzero with
      ⟨x, hMem, hAccepted, hZero, hStarted⟩
    refine
      ⟨x, mem_trace_concat.mpr (Or.inl hMem), hAccepted,
        hZero, ?_⟩
    rw [run_concat]
    rcases hSame with hSame | hReport
    · rw [hSame]
      exact hStarted
    · rw [hReport]
      exact hStarted.report

/- A packet is the first one and sets the times, or neither. -/
theorem Scheduled.accepted
    {es : List (Ev A)}
    (h : Scheduled latency r es)
    {e : Ev A}
    {pkt : Package}
    (hSome :
      accepted? latency ((machine latency).run r es, e) =
        some pkt)
    (hFirst :
      ((machine latency).run r es).rcvdCount = 0 →
        pkt.type = 0)
    (hNext :
      (step latency ((machine latency).run r es)
          e).1.schedule =
        ((machine latency).run r es).schedule.accept e.clocks
          pkt) :
    Scheduled latency r (es ++ [e]) := by
  have hList :
      acceptedPkts latency r (es ++ [e]) =
        acceptedPkts latency r es ++ [pkt] := by
    rw [acceptedPkts_concat, hSome]
    rfl
  refine ⟨?_, ?_, ?_⟩
  · rw [run_concat, hList, List.length_append, Int.natCast_add,
      ← h.count]
    have hOne := congrArg Schedule.rcvdCount hNext
    rw [Schedule.accept_rcvdCount] at hOne
    exact hOne
  · intro p hHead
    rw [hList, List.head?_append] at hHead
    cases hBefore : (acceptedPkts latency r es).head? with
    | none =>
        rw [hBefore] at hHead
        cases hHead
        apply hFirst
        rw [h.count, List.head?_eq_none_iff.mp hBefore]
        rfl
    | some p' =>
        rw [hBefore] at hHead
        cases hHead
        exact h.first p hBefore
  · intro _
    rw [run_concat, hNext]
    by_cases hZero :
        ((machine latency).run r es).rcvdCount = 0
    · refine
        ⟨_, mem_trace_concat.mpr (Or.inr rfl), ⟨pkt, hSome⟩,
          hZero, ?_⟩
      rw [Schedule.accept, if_pos ⟨hFirst hZero, hZero⟩]
      exact ⟨rfl, 0, rfl⟩
    · rcases h.started hZero with
        ⟨x, hMem, hAccepted, hBegin, hStarted⟩
      refine
        ⟨x, mem_trace_concat.mpr (Or.inl hMem), hAccepted,
          hBegin, ?_⟩
      rw [Schedule.accept,
        if_neg (fun hBoth => hZero hBoth.2)]
      exact hStarted

/-
  If no packet but one of type 0 is accepted as the first,
  the schedule is set when anything has been counted.
-/
theorem run_schedule
    (hZero : r.rcvdCount = 0)
    {es : List (Ev A)}
    (hFirst :
      ∀ x ∈ (machine latency).trace r es,
        x.1.rcvdCount = 0 →
          ∀ pkt, accepted? latency x = some pkt →
            pkt.type = 0) :
    Scheduled latency r es := by
  induction es using List.reverseRecOn with
  | nil =>
      refine ⟨hZero, ?_, ?_⟩
      · intro pkt hMem
        cases hMem
      · intro hNonzero
        exact absurd hZero hNonzero
  | append_singleton es e ih =>
      have hBefore :=
        ih (fun x hMem =>
          hFirst x (mem_trace_concat.mpr (Or.inl hMem)))
      rcases
        (step_stepping latency ((machine latency).run r es)
          e).schedule with
        ⟨pkt, hSome, hNext⟩ | ⟨hNone, _, hSame⟩
      · apply hBefore.accepted hSome ?_ hNext
        intro hNothing
        exact
          hFirst _ (mem_trace_concat.mpr (Or.inr rfl))
            hNothing pkt hSome
      · exact hBefore.other hNone hSame

end RtRcv

end P2

end Cs2520

------------------------------------------------------------
-- Who Asks for Resends
------------------------------------------------------------

namespace Cs2520

namespace P2

namespace RtSrv

open Lib

variable {A : Type} [DecidableEq A]

/- Only an acknowledgement is answered by resent packets. -/
theorem rcvPart_resent
    (c : Clocks)
    (s : RtSrv A)
    (rcv : Option (A × Package)) :
    ∀ m ∈ (s.rcvPart c rcv).2,
      m.2.type = 6 →
        ∃ pkt, rcv = some (m.1, pkt) ∧ pkt.type = 2 := by
  intro m hMem hType
  cases rcv with
  | none => cases hMem
  | some packet =>
      rcases packet with ⟨fromAddr, pkt⟩
      rcases onRcv_out c s fromAddr pkt m hMem with
        ⟨hDest, hDecline | ⟨hAck, _⟩⟩
      · omega
      · rw [hDest]
        exact ⟨pkt, rfl, hAck⟩

theorem step_resent
    (s : RtSrv A)
    (e : Ev A) :
    ∀ m ∈ (step s e).2,
      m.2.type = 6 →
        ∃ pkt, e.rcv = some (m.1, pkt) ∧ pkt.type = 2 := by
  intro m hMem hType
  unfold step at hMem
  split at hMem
  · cases hMem
  · split at hMem
    · rcases mem_mainPass_out hMem with hRecord | ⟨q, hRcv⟩
      · omega
      · exact rcvPart_resent e.clocks q e.rcv m hRcv hType
    · have hGrant := (waitPass_books s e).2 m hMem
      omega

end RtSrv

namespace Stream

open Lib

variable {A : Type} [DecidableEq A]
variable {latency : Nat}
variable {srv client : A}

/- Both processes start, with any content of their memory. -/
structure Launched
    (srv : A)
    (s : Net A) : Prop where
  server :
    ∃ addr pkt window slide,
      s.left = RtSrv.allocated addr pkt window slide
  receiver : ∃ u, s.right = RtRcv.initial srv u
  toServer : s.toLeft = []
  toClient : s.toRight = []

/-
  Until the receiver has accepted a packet it acknowledges
  nothing, and nothing is sent to it again.
-/
structure Unasked
    (client : A)
    (s : Net A) : Prop where
  nonneg : 0 ≤ s.right.rcvdCount
  acks :
    s.right.rcvdCount = 0 →
      ∀ m ∈ s.toLeft, m.pkt.type ≠ 2
  resent :
    s.right.rcvdCount = 0 →
      ∀ m ∈ s.toRight, m.dest = client → m.pkt.type ≠ 6

omit [DecidableEq A] in
theorem Launched.unasked
    {s : Net A}
    (h : Launched srv s) :
    Unasked client s := by
  rcases h.receiver with ⟨u, hRight⟩
  refine ⟨?_, ?_, ?_⟩
  · rw [hRight]
    exact Int.le_refl 0
  · intro _ m hMem
    rw [h.toServer] at hMem
    cases hMem
  · intro _ m hMem
    rw [h.toClient] at hMem
    cases hMem

/- The server resends nothing to a client it has not heard. -/
theorem Unasked.left
    {s : Net A}
    (h : Unasked client s)
    {e : RtSrv.Ev A}
    (hEnabled :
      Link.Enabled (server srv client)
        (receiver latency client) s (.inl e)) :
    Unasked client
      (s.act (server srv client) (receiver latency client)
        (.inl e)) where
  nonneg := h.nonneg
  acks := h.acks
  resent := by
    intro hZero m hMem hDest hType
    rcases List.mem_append.mp hMem with hOld | hNew
    · exact h.resent hZero m hOld hDest hType
    · rcases List.mem_map.mp hNew with ⟨out, hOut, rfl⟩
      rcases RtSrv.step_resent s.left e out hOut hType with
        ⟨pkt, hRcv, hAck⟩
      have hClient : out.1 = client := hDest
      rw [hClient] at hRcv
      exact
        h.acks hZero _ (sent_of_rcv hEnabled hRcv) hAck

/- The receiver acknowledges only what it accepts. -/
theorem Unasked.right
    {s : Net A}
    (h : Unasked client s)
    (e : RtRcv.Ev A) :
    Unasked client
      (s.act (server srv client) (receiver latency client)
        (.inr e)) := by
  rcases
    (RtRcv.step_stepping latency s.right e).schedule with
    ⟨pkt, _, hNext⟩ | ⟨_, hOut, hSame⟩
  · have hCount :
        (RtRcv.step latency s.right e).1.rcvdCount =
          s.right.rcvdCount + 1 :=
      (congrArg RtRcv.Schedule.rcvdCount hNext).trans
        (RtRcv.Schedule.accept_rcvdCount _ _ _)
    have hPos :
        0 < (RtRcv.step latency s.right e).1.rcvdCount := by
      have hNonneg := h.nonneg
      omega
    exact
      ⟨hPos.le, fun hZero => absurd hZero hPos.ne',
        fun hZero => absurd hZero hPos.ne'⟩
  · have hCount :
        (RtRcv.step latency s.right e).1.rcvdCount =
          s.right.rcvdCount :=
      RtRcv.rcvdCount_of_schedule hSame
    refine ⟨h.nonneg.trans hCount.ge, ?_, ?_⟩
    · intro hZero m hMem
      rcases List.mem_append.mp hMem with hOld | hNew
      · exact h.acks (hCount.symm.trans hZero) m hOld
      · rcases List.mem_filterMap.mp hNew with
          ⟨out, hSent, hPkt⟩
        cases out with
        | sendto dest pkt =>
            cases hPkt
            exact hOut dest pkt hSent
        | deliver _ => cases hPkt
    · intro hZero
      exact h.resent (hCount.symm.trans hZero)

/- The first packet that is accepted is no resent one. -/
theorem Unasked.first
    {s : Net A}
    (h : Unasked client s)
    {e : RtRcv.Ev A}
    (hEnabled :
      Link.Enabled (server srv client)
        (receiver latency client) s (.inr e))
    (hZero : s.right.rcvdCount = 0)
    {pkt : Package}
    (hAccepted :
      RtRcv.accepted? latency (s.right, e) = some pkt) :
    pkt.type = 0 := by
  rcases RtRcv.accepted?_eq_some_iff.mp hAccepted with
    ⟨_, _, a, hPacket, hAccepts⟩
  have hSent := sent_of_packet hEnabled hPacket
  exact
    hAccepts.of_some.1.resolve_right
      (h.resent hZero _ hSent rfl)

/-
  In every run from the start of both processes, the first
  packet that the receiver accepts has type 0. Whenever
  something has been counted, the start and the schedule of
  the reports are from the pass that accepted it.
-/
theorem report_clock_set
    {s : Net A}
    (hStart : Launched srv s)
    {as : List (Act A)}
    (hAllowed :
      Link.Allowed (server srv client)
        (receiver latency client) (fun _ _ => True) s as) :
    let s' :=
      Link.runActs (server srv client)
        (receiver latency client) s as
    let M := RtRcv.machine latency
    let es := as.filterMap Sum.getRight?
    s'.right = M.run s.right es ∧
      s'.right.rcvdCount =
        (RtRcv.acceptedPkts latency s.right es).length ∧
      (∀ pkt ∈
          (RtRcv.acceptedPkts latency s.right es).head?,
        pkt.type = 0) ∧
      (s'.right.rcvdCount ≠ 0 →
        ∃ x ∈ M.trace s.right es,
          (∃ pkt, RtRcv.accepted? latency x = some pkt) ∧
            x.1.rcvdCount = 0 ∧
            RtRcv.Started x.2.clocks.start.toTimeval
              s'.right.schedule) := by
  intro s' M es
  have hRun : s'.right = M.run s.right es :=
    Link.runActs_right s as
  have hTrace :=
    Link.right_trace_invariant
      (fun t a (hInv : Unasked client t) hEnabled _ => by
        cases a with
        | inl e => exact hInv.left hEnabled
        | inr e => exact hInv.right e)
      hStart.unasked hAllowed
  have hFirst :
      ∀ x ∈ M.trace s.right es,
        x.1.rcvdCount = 0 →
          ∀ pkt, RtRcv.accepted? latency x = some pkt →
            pkt.type = 0 := by
    rintro ⟨r, e⟩ hMem hZero pkt hAccepted
    rcases hTrace _ hMem with ⟨t, hInv, hEnabled, hState⟩
    cases hState
    exact hInv.first hEnabled hZero hAccepted
  have hZero : s.right.rcvdCount = 0 := by
    rcases hStart.receiver with ⟨u, hRight⟩
    rw [hRight]
    rfl
  have hScheduled := RtRcv.run_schedule hZero hFirst
  rw [hRun]
  exact
    ⟨rfl, hScheduled.count, hScheduled.first,
      hScheduled.started⟩

theorem launched_begun : Launched false begun :=
  ⟨⟨_, _, fun _ => .zeroed, fun _ => .zero, rfl⟩, ⟨_, rfl⟩,
    rfl, rfl⟩

theorem twoRecords_allowed :
    Link.Allowed (server false true) (receiver 10 true)
      (fun _ _ => True) begun twoRecords := by
  decide +kernel

/- The first record sets the schedule. -/
theorem report_clock_set_first :
    ∃ x ∈
        (RtRcv.machine 10).trace begun.right
          (twoRecords.filterMap Sum.getRight?),
      (∃ pkt, RtRcv.accepted? 10 x = some pkt) ∧
        x.1.rcvdCount = 0 ∧
        RtRcv.Started x.2.clocks.start.toTimeval
          delivered.right.schedule :=
  (report_clock_set launched_begun
    twoRecords_allowed).2.2.2 (by decide +kernel)

end Stream

end P2

end Cs2520
