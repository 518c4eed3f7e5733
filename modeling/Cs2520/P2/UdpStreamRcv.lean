import Cs2520.Lib.Gaps
import Cs2520.Lib.Machine
import Cs2520.P2.Stream
import Mathlib.Order.Bounds.Basic

/-
  The application behind the real-time receiver
  (`p2/source/udp_stream_rcv.c`), and the way of a record
  from one application to the other.

  The rate, which is only printed, is left out.

  Main declarations:
    * `UdpStreamRcv`
    * `UdpStreamRcv.machine`
    * `UdpStreamRcv.Counts`
    * `UdpStreamRcv.counts_right`
    * `UdpStreamRcv.in_order_complete`
-/

------------------------------------------------------------
-- The Program
------------------------------------------------------------

namespace Cs2520

namespace P2

open Lib Timeval

/- The variables of the program. -/
structure UdpStreamRcv where
  exited : Bool
  rcvPkt : StreamPkt
  startTS : Timeval
  nextReportTime : Timeval
  rcvdCount : Int
  lastRcvd : Int
  outOfOrderCount : Int
  maxOneway : ℚ

namespace UdpStreamRcv

/- What is not initialized at the start of the program. -/
structure Uninitialized where
  rcvPkt : StreamPkt
  startTS : Timeval
  nextReportTime : Timeval

def initial
    (u : Uninitialized) : UdpStreamRcv where
  exited := false
  rcvPkt := u.rcvPkt
  startTS := u.startTS
  nextReportTime := u.nextReportTime
  rcvdCount := 0
  lastRcvd := 0
  outOfOrderCount := 0
  maxOneway := 0

/- What the `gettimeofday` calls of a pass return. -/
structure Clocks where
  start : Clock
  receive : Clock
  report : Clock

/-
  What a pass reacts to: a record, a failed receive, which
  is `some none`, or a timeout.
-/
structure Ev where
  packet : Option (Option StreamPkt)
  clocks : Clocks

/- The lines that are printed every five seconds. -/
structure Report where
  duration : Int
  rcvdCount : Int
  outOfOrderCount : Int
  lastRcvd : Int
  maxOneway : ℚ
deriving DecidableEq

/- The delay of a record since it was stamped. -/
def oneway
    (c : Clocks)
    (pkt : StreamPkt) : ℚ :=
  onewayDelay c.receive.toTimeval
    { sec := pkt.tsSec, usec := pkt.tsUsec }

/- The first record starts the report timer. -/
def startReport
    (c : Clocks)
    (r : UdpStreamRcv) : UdpStreamRcv :=
  if r.rcvdCount = 0 then
    { r with
      startTS := c.start.toTimeval
      nextReportTime :=
        timeradd c.start.toTimeval reportInterval }
  else
    r

/- Update the counts. -/
def count
    (r : UdpStreamRcv) : UdpStreamRcv :=
  { r with
    rcvdCount := r.rcvdCount + 1
    outOfOrderCount :=
      if r.rcvPkt.seq ≠ r.lastRcvd + 1 then
        r.outOfOrderCount + 1
      else
        r.outOfOrderCount
    lastRcvd := r.rcvPkt.seq }

/- Calculate the one-way delay. -/
def measure
    (c : Clocks)
    (r : UdpStreamRcv) : UdpStreamRcv :=
  { r with
    maxOneway :=
      if r.maxOneway < oneway c r.rcvPkt ∨
          r.rcvdCount = 1 then
        oneway c r.rcvPkt
      else
        r.maxOneway }

/- Receive a record. -/
def recv
    (c : Clocks)
    (r : UdpStreamRcv)
    (pkt : StreamPkt) : UdpStreamRcv :=
  ((({ r with rcvPkt := pkt }).startReport c).count).measure
    c

def report
    (c : Clocks)
    (r : UdpStreamRcv) : Report where
  duration := c.report.toTimeval.micros - r.startTS.micros
  rcvdCount := r.rcvdCount
  outOfOrderCount := r.outOfOrderCount
  lastRcvd := r.lastRcvd
  maxOneway := r.maxOneway

/- One pass of the event loop; nothing follows `exit`. -/
def step
    (r : UdpStreamRcv)
    (e : Ev) : UdpStreamRcv × List Report :=
  if r.exited then
    (r, [])
  else
    match e.packet with
    | some none => ({ r with exited := true }, [])
    | some (some pkt) => (r.recv e.clocks pkt, [])
    | none =>
        -- until a record has come there is no timeout
        if r.rcvdCount = 0 then
          (r, [])
        else
          ({ r with
              nextReportTime :=
                timeradd r.nextReportTime reportInterval },
            [r.report e.clocks])

def machine : Machine UdpStreamRcv Ev Report where
  step := step

end UdpStreamRcv

end P2

end Cs2520

------------------------------------------------------------
-- The Counts
------------------------------------------------------------

namespace Cs2520

namespace P2

namespace UdpStreamRcv

open Lib

/- The record that a pass receives, and its delay. -/
def received?
    (e : UdpStreamRcv × Ev) : Option (StreamPkt × ℚ) :=
  if e.1.exited = false then
    e.2.packet.join.map
      (fun pkt => (pkt, oneway e.2.clocks pkt))
  else
    none

/- The numbers of the records. -/
def seqs
    (got : List (StreamPkt × ℚ)) : List Int :=
  got.map (fun g => g.1.seq)

/- Numbered from 1 up, in order, perhaps with gaps. -/
structure InOrder
    (got : List (StreamPkt × ℚ)) : Prop where
  increasing : (seqs got).Pairwise (fun i j => i < j)
  positive : ∀ i ∈ seqs got, 1 ≤ i

/- What the counts say about the records received. -/
structure Counts
    (r : UdpStreamRcv)
    (got : List (StreamPkt × ℚ)) : Prop where
  count : r.rcvdCount = got.length
  last : r.lastRcvd = (seqs got).getLastD 0
  gaps :
    InOrder got →
      r.outOfOrderCount = (gapEnds 1 (seqs got)).length
  greatest :
    got ≠ [] →
      IsGreatest {x | x ∈ got.map Prod.snd} r.maxOneway

theorem seqs_concat
    (got : List (StreamPkt × ℚ))
    (g : StreamPkt × ℚ) :
    seqs (got ++ [g]) = seqs got ++ [g.1.seq] := by
  rw [seqs, List.map_append]
  rfl

theorem InOrder.of_concat
    {got : List (StreamPkt × ℚ)}
    {g : StreamPkt × ℚ}
    (h : InOrder (got ++ [g])) :
    InOrder got := by
  rcases h with ⟨hIncreasing, hPositive⟩
  rw [seqs_concat] at hIncreasing hPositive
  exact
    ⟨(List.pairwise_append.mp hIncreasing).1,
      fun i hMem =>
        hPositive i (List.mem_append_left _ hMem)⟩

theorem startReport_frame
    (c : Clocks)
    (r : UdpStreamRcv) :
    (r.startReport c).rcvPkt = r.rcvPkt ∧
      (r.startReport c).rcvdCount = r.rcvdCount ∧
      (r.startReport c).lastRcvd = r.lastRcvd ∧
      (r.startReport c).outOfOrderCount =
        r.outOfOrderCount ∧
      (r.startReport c).maxOneway = r.maxOneway := by
  unfold startReport
  split
  · exact ⟨rfl, rfl, rfl, rfl, rfl⟩
  · exact ⟨rfl, rfl, rfl, rfl, rfl⟩

/- What one record does to the counts. -/
theorem recv_counts
    (c : Clocks)
    (r : UdpStreamRcv)
    (pkt : StreamPkt) :
    (r.recv c pkt).rcvdCount = r.rcvdCount + 1 ∧
      (r.recv c pkt).lastRcvd = pkt.seq ∧
      (r.recv c pkt).outOfOrderCount =
        (if pkt.seq ≠ r.lastRcvd + 1 then
          r.outOfOrderCount + 1
        else
          r.outOfOrderCount) ∧
      (r.recv c pkt).maxOneway =
        if r.maxOneway < oneway c pkt ∨
            r.rcvdCount + 1 = 1 then
          oneway c pkt
        else
          r.maxOneway := by
  rcases startReport_frame c { r with rcvPkt := pkt } with
    ⟨hPkt, hCount, hLast, hGaps, hMax⟩
  simp only [recv, measure, count, hPkt, hCount, hLast,
    hGaps, hMax, and_self]

/- Received records are counted as they should be. -/
theorem Counts.recv
    {r : UdpStreamRcv}
    {got : List (StreamPkt × ℚ)}
    (h : Counts r got)
    (c : Clocks)
    (pkt : StreamPkt) :
    Counts (r.recv c pkt) (got ++ [(pkt, oneway c pkt)])
    := by
  rcases recv_counts c r pkt with
    ⟨hCount, hLast, hGaps, hMax⟩
  constructor
  · rw [hCount, h.count, List.length_append]
    rfl
  · rw [hLast, seqs_concat, List.getLastD_concat]
  · intro hInOrder
    have hBefore := h.gaps hInOrder.of_concat
    rcases hInOrder with ⟨hIncreasing, hPositive⟩
    rw [seqs_concat] at hIncreasing hPositive
    have hConcat :
        gapEnds 1 (seqs got ++ [pkt.seq]) =
          gapEnds 1 (seqs got) ++
            if pkt.seq = (seqs got).getLastD 0 + 1 then []
            else [pkt.seq] :=
      gapEnds_concat hIncreasing hPositive
    rw [seqs_concat, hConcat, hGaps, h.last, hBefore]
    by_cases hNext : pkt.seq = (seqs got).getLastD 0 + 1
    · rw [if_neg (not_not_intro hNext), if_pos hNext,
        List.append_nil]
    · rw [if_pos hNext, if_neg hNext, List.length_append]
      rfl
  · intro _
    have hSet :
        {x |
            x ∈
              (got ++ [(pkt, oneway c pkt)]).map
                Prod.snd} =
          insert (oneway c pkt)
            {x | x ∈ got.map Prod.snd} := by
      ext x
      simp [or_comm, eq_comm]
    rw [hMax, hSet]
    by_cases hNone : got = []
    · rw [if_pos (Or.inr (by rw [h.count, hNone]; rfl)),
        hNone]
      simp
    · have hPos := List.length_pos_of_ne_nil hNone
      have hNot : ¬ r.rcvdCount + 1 = 1 := by
        rw [h.count]
        omega
      simp only [hNot, or_false]
      rw [← max_def_lt, max_comm]
      exact (h.greatest hNone).insert _

/- A pass keeps the counts right. -/
theorem Counts.step
    {r : UdpStreamRcv}
    {got : List (StreamPkt × ℚ)}
    (h : Counts r got)
    (e : Ev) :
    Counts (r.step e).1
      (got ++ (received? (r, e)).toList) := by
  cases hExited : r.exited with
  | true =>
      simp only [UdpStreamRcv.step, received?, hExited,
        if_true, Bool.true_eq_false, if_false,
        Option.toList_none, List.append_nil]
      exact h
  | false =>
      rcases e with ⟨_ | _ | pkt, c⟩
      · simp only [UdpStreamRcv.step, received?, hExited,
          Bool.false_eq_true, if_false, if_true,
          Option.join_none, Option.map_none,
          Option.toList_none, List.append_nil]
        split
        · exact h
        · exact ⟨h.count, h.last, h.gaps, h.greatest⟩
      · simp only [UdpStreamRcv.step, received?, hExited,
          Bool.false_eq_true, if_false, if_true,
          Option.join_some, Option.map_none,
          Option.toList_none, List.append_nil]
        exact ⟨h.count, h.last, h.gaps, h.greatest⟩
      · simp only [UdpStreamRcv.step, received?, hExited,
          Bool.false_eq_true, if_false, if_true,
          Option.join_some, Option.map_some,
          Option.toList_some]
        exact h.recv c pkt

/- What has been received in a run. -/
def received
    (u : Uninitialized)
    (es : List Ev) : List (StreamPkt × ℚ) :=
  (machine.trace (initial u) es).filterMap received?

theorem counts_run
    (u : Uninitialized)
    (es : List Ev) :
    Counts (machine.run (initial u) es) (received u es) := by
  have hStart : Counts (initial u) [] :=
    ⟨rfl, rfl, fun _ => rfl, fun hSome => absurd rfl hSome⟩
  exact
    machine.log_invariant received?
      (fun r _ got => Counts r got)
      (fun _ _ _ e h => h.step e) hStart es

/-
  If the records come in order, perhaps with gaps, the counts
  are the number of records, the last number and the number
  of gaps, of which each hides a record. There is no gap if
  and only if the numbers are 1, 2, 3 and so on.
-/
theorem counts_right
    (u : Uninitialized)
    (es : List Ev)
    (hInOrder : InOrder (received u es)) :
    let r := machine.run (initial u) es
    let ns := seqs (received u es)
    r.rcvdCount = ns.length ∧
      r.lastRcvd = ns.getLastD 0 ∧
      r.outOfOrderCount = (gapEnds 1 ns).length ∧
      r.outOfOrderCount ≤ r.lastRcvd - r.rcvdCount ∧
      (r.outOfOrderCount = 0 ↔
        ns = Int.range 1 (1 + r.rcvdCount)) ∧
      (ns ≠ [] →
        IsGreatest {x | x ∈ (received u es).map Prod.snd}
          r.maxOneway) := by
  intro r ns
  have h := counts_run u es
  have hGaps : r.outOfOrderCount = (gapEnds 1 ns).length :=
    h.gaps hInOrder
  have hIncreasing : ns.Pairwise (fun i j => i < j) :=
    hInOrder.increasing
  have hPositive : ∀ i ∈ ns, 1 ≤ i := hInOrder.positive
  have hLength : ns.length = (received u es).length :=
    List.length_map _
  have hCount : r.rcvdCount = ns.length := by
    rw [hLength]
    exact h.count
  have hUpTo :
      ∀ i ∈ ns, 1 ≤ i ∧ i < ns.getLastD 0 + 1 := by
    intro i hMem
    have hLe := le_getLastD hIncreasing 0 hMem
    exact ⟨hPositive i hMem, by omega⟩
  have hLow : 1 ≤ ns.getLastD 0 + 1 := by
    rcases getLastD_mem ns 0 with hNone | hLast
    · rw [hNone]
      decide
    · exact (hUpTo _ hLast).1.trans (by omega)
  have hMissing := length_missing hLow hIncreasing hUpTo
  have hFewer :
      (gapEnds 1 ns).length ≤
        (missing (fun i => i ∈ ns) 1
          (ns.getLastD 0 + 1)).length :=
    length_gapEnds_le hIncreasing hPositive
  have hLast : r.lastRcvd = ns.getLastD 0 := h.last
  refine ⟨hCount, hLast, hGaps, ?_, ?_, ?_⟩
  · rw [hLast, hCount, hGaps]
    omega
  · rw [hGaps, hCount,
      ← gapEnds_eq_nil_iff hIncreasing hPositive,
      ← List.length_eq_zero_iff]
    exact Int.natCast_eq_zero
  · intro hSome
    apply h.greatest
    rintro hNone
    apply hSome
    exact congrArg seqs hNone

/- The program starts in memory that happens to be zero. -/
def zeroedMemory : Uninitialized where
  rcvPkt := .zeroed
  startTS := .zero
  nextReportTime := .zero

/- Record `seq` arrives in the full second `sec`. -/
def hears
    (seq : Int)
    (sec : Nat) : Ev where
  packet := some (some { StreamPkt.zeroed with seq := seq })
  clocks :=
    { start := .ofSeconds sec
      receive := .ofSeconds sec
      report := .ofSeconds sec }

/- Records 1, 2 and 4 arrive. -/
def thirdMissing : List Ev :=
  [hears 1 1, hears 2 2, hears 4 3]

theorem counts_right_thirdMissing :
    let r := machine.run (initial zeroedMemory) thirdMissing
    let ns := seqs (received zeroedMemory thirdMissing)
    r.rcvdCount = ns.length ∧
      r.lastRcvd = ns.getLastD 0 ∧
      r.outOfOrderCount = (gapEnds 1 ns).length ∧
      r.outOfOrderCount ≤ r.lastRcvd - r.rcvdCount ∧
      (r.outOfOrderCount = 0 ↔
        ns = Int.range 1 (1 + r.rcvdCount)) ∧
      (ns ≠ [] →
        IsGreatest
          {x |
            x ∈
              (received zeroedMemory thirdMissing).map
                Prod.snd}
          r.maxOneway) :=
  counts_right zeroedMemory thirdMissing
    ⟨by decide +kernel, by decide +kernel⟩

end UdpStreamRcv

end P2

end Cs2520

------------------------------------------------------------
-- From One Application to the Other
------------------------------------------------------------

namespace Cs2520

namespace P2

namespace UdpStreamRcv

open Lib

variable {A : Type} [DecidableEq A]
variable {latency : Nat}
variable {srv client : A}
variable {got : List (StreamPkt × ℚ)}

/- What the real-time receiver delivers is in order. -/
theorem inOrder_of_sublist
    {s : Stream.Net A}
    (hReach : Stream.Reachable latency srv client s)
    (hFrom :
      (got.map Prod.fst).Sublist s.right.delivered) :
    InOrder got := by
  constructor
  · have hAll := (Stream.inv_of_reachable hReach).right.ordered
    have hSome := hAll.sublist hFrom
    rw [List.pairwise_map] at hSome
    exact List.pairwise_map.mpr hSome
  · intro i hMem
    rcases List.mem_map.mp hMem with ⟨g, hGot, rfl⟩
    have hDelivered :=
      hFrom.subset (List.mem_map_of_mem hGot)
    exact (Stream.delivered_payload hReach hDelivered).1

theorem seq_of_range
    {n : Int}
    (hRange : seqs got = Int.range 1 (1 + n))
    {k : Nat}
    (hk : k < got.length) :
    got[k].1.seq = 1 + k := by
  have hLength : k < (seqs got).length := by
    rw [seqs, List.length_map]
    exact hk
  have hSeq : (seqs got)[k] = got[k].1.seq :=
    List.getElem_map _
  rw [← hSeq, List.getElem_of_eq hRange hLength]
  simp only [Int.range, List.getElem_map, List.getElem_range]

/-
  The application's counts are those of the records that it
  got from the real-time receiver. If it has counted no gap,
  it got the first records of the other application, each as
  the server copied it, and no other.
-/
theorem in_order_complete
    {s : Stream.Net A}
    (hReach : Stream.Reachable latency srv client s)
    (u : Uninitialized)
    (es : List Ev)
    (hFrom :
      ((received u es).map Prod.fst).Sublist
        s.right.delivered) :
    let r := machine.run (initial u) es
    r.outOfOrderCount =
        (gapEnds 1 (seqs (received u es))).length ∧
      (r.outOfOrderCount = 0 →
        (received u es).map (fun g => g.1.data) =
          (s.left.records.take r.rcvdCount.toNat).map
            StreamPkt.payload) := by
  intro r
  have h := counts_run u es
  have hInOrder := inOrder_of_sublist hReach hFrom
  have hGaps :
      r.outOfOrderCount =
        (gapEnds 1 (seqs (received u es))).length :=
    h.gaps hInOrder
  refine ⟨hGaps, ?_⟩
  intro hNone
  have hAll :
      seqs (received u es) =
        Int.range 1 (1 + (seqs (received u es)).length) := by
    apply
      (gapEnds_eq_nil_iff hInOrder.increasing
        hInOrder.positive).mp
    apply List.length_eq_zero_iff.mp
    omega
  have hCount : r.rcvdCount.toNat = (received u es).length :=
    by
    have hSame : r.rcvdCount = (received u es).length :=
      h.count
    omega
  apply List.ext_getElem?
  intro k
  rw [List.getElem?_map, List.getElem?_map,
    List.getElem?_take, hCount]
  by_cases hk : k < (received u es).length
  · have hMem : ((received u es)[k]).1 ∈ s.right.delivered :=
      hFrom.subset
        (List.mem_map_of_mem (List.getElem_mem hk))
    rcases Stream.delivered_payload hReach hMem with
      ⟨_, rec, hRecord, hData⟩
    have hIndex : (1 + (k : Int) - 1).toNat = k := by omega
    rw [seq_of_range hAll hk, hIndex] at hRecord
    rw [if_pos hk, hRecord, List.getElem?_eq_getElem hk,
      Option.map_some, Option.map_some, hData]
  · rw [if_neg hk, List.getElem?_eq_none (by omega)]
    rfl

/- The record that the server's client has delivered. -/
def hearsFirst : List Ev :=
  [{ packet := some (some Stream.firstDelivered)
     clocks :=
      { start := .ofSeconds 2
        receive := .ofSeconds 2
        report := .ofSeconds 2 } }]

theorem in_order_complete_first :
    let r := machine.run (initial zeroedMemory) hearsFirst
    r.outOfOrderCount =
        (gapEnds 1
          (seqs (received zeroedMemory hearsFirst))).length ∧
      (r.outOfOrderCount = 0 →
        (received zeroedMemory hearsFirst).map
            (fun g => g.1.data) =
          (Stream.delivered.left.records.take
            r.rcvdCount.toNat).map StreamPkt.payload) :=
  in_order_complete Stream.reachable_delivered zeroedMemory
    hearsFirst (by decide +kernel)

end UdpStreamRcv

end P2

end Cs2520
