import Cs2520.Lib.Bytes
import Cs2520.Lib.Machine
import Cs2520.Lib.Missing
import Cs2520.Lib.Trie
import Cs2520.P4.Availability

/-
  The latency measurement of the overlay experiments
  (`testprogs/latency_traffic.c`): its counts, the lines of
  `test.txt`, and the statistics of the paths that packets
  took. The two availability programs count in the same way.

  The throughput and the verbose lines, which are only
  printed, are left out.

  Main declarations:
    * `trieAdd`
    * `triePrint`
    * `LatencyReceiver`
    * `LatencyReceiver.machine`
    * `LatencyReceiver.Tracks`
    * `LatencyReceiver.report_right`
-/

------------------------------------------------------------
-- Path Statistics
------------------------------------------------------------

namespace Cs2520

namespace P4

open Lib

/- `trie_node` -/
abbrev TrieNode := Trie UInt8

/- The bytes, in their order. -/
def bytes : List UInt8 :=
  (List.range 256).map UInt8.ofNat

/- `trie_add`, which exits when there is no root. -/
def trieAdd
    (root : TrieNode)
    (path : List UInt8) : Option TrieNode :=
  match root with
  | .null => none
  | .node n child => some (Trie.add (.node n child) path)

/- `trie_print`: a line for each path that was counted. -/
def triePrint
    (root : TrieNode) : List (List UInt8 × Nat) :=
  root.list bytes []

theorem mem_bytes
    (b : UInt8) :
    b ∈ bytes := by
  apply List.mem_map.mpr
  exact
    ⟨b.toNat, List.mem_range.mpr b.toNat_lt,
      UInt8.ofNat_toNat⟩

theorem bytes_increasing :
    bytes.Pairwise (fun a b => a < b) := by
  apply List.pairwise_map.mpr
  apply List.pairwise_lt_range.imp_of_mem
  intro i j hi hj hLt
  rw [List.mem_range] at hi hj
  rw [UInt8.lt_iff_toNat_lt, UInt8.toNat_ofNat_of_lt' hi,
    UInt8.toNat_ofNat_of_lt' hj]
  exact hLt

end P4

end Cs2520

------------------------------------------------------------
-- The Receiver Loop
------------------------------------------------------------

namespace Cs2520

namespace P4

open Lib

/- A received packet with the path it took. -/
structure PathEv extends Ev where
  path : Block UInt8 8
deriving DecidableEq

/-
  The variables of the loop. `crashed` stands for an exit
  with an error, a failed assertion or a division by zero.
-/
structure LatencyReceiver where
  done : Bool
  crashed : Bool
  firstPktFlag : Bool
  pktSeqArray : Int → Int
  duplicates : Int
  recvCount : Int
  lastSeq : Int
  seqCheckpoint : Int
  root : TrieNode

namespace LatencyReceiver

/- The state before the loop. -/
def initial
    (numPkts : Int)
    (memory : Int → Int) : LatencyReceiver where
  done := false
  crashed := false
  firstPktFlag := true
  pktSeqArray := memory
  duplicates := 0
  recvCount := 0
  lastSeq := 0
  seqCheckpoint := numPkts / 100
  root := Trie.fresh

/- The first packet allocates and clears the array. -/
def firstPkt
    (r : LatencyReceiver)
    (numPkts : Int) : LatencyReceiver :=
  { r with
    firstPktFlag := false
    pktSeqArray :=
      fun i =>
        if 1 ≤ i ∧ i ≤ numPkts then 0 else r.pktSeqArray i
    lastSeq := -1 }

/- After a verbose line: on to the next checkpoint. -/
def checkpoint
    (numPkts : Int)
    (r : LatencyReceiver) : LatencyReceiver :=
  let every := numPkts / 100
  let r := { r with seqCheckpoint := r.seqCheckpoint + every }
  if r.seqCheckpoint < r.lastSeq then
    if every = 0 then
      { r with crashed := true }
    else
      { r with
        seqCheckpoint :=
          r.lastSeq - r.lastSeq % every + every }
  else
    r

/- A packet in time is counted, with its path. -/
def count
    (numPkts : Int)
    (verbose : Bool)
    (r : LatencyReceiver)
    (e : PathEv) : LatencyReceiver :=
  let r :=
    { r with
      recvCount := r.recvCount + 1
      pktSeqArray :=
        Function.update r.pktSeqArray e.pkt.seqNum 1 }
  match trieAdd r.root e.path.bytes with
  | none => { r with crashed := true }
  | some root =>
      let r := { r with root := root }
      if verbose ∧ r.seqCheckpoint ≤ r.lastSeq then
        r.checkpoint numPkts
      else
        r

/-
  One pass of the loop; the number -1 ends it. An output is a
  line of `test.txt`: the time of arrival and the delay.
-/
def step
    (numPkts : Int)
    (verbose : Bool)
    (r : LatencyReceiver)
    (e : PathEv) :
    LatencyReceiver × List (Timeval × Int) :=
  let seq := e.pkt.seqNum
  if r.done ∨ r.crashed then
    (r, [])
  else if seq = -1 then
    ({ r with done := true }, [])
  else if r.firstPktFlag ∧ ¬ 0 < numPkts then
    -- `assert(Num_pkts > 0)`
    ({ r with crashed := true }, [])
  else
    let r := if r.firstPktFlag then r.firstPkt numPkts else r
    if r.pktSeqArray seq ≠ 0 then
      ({ r with duplicates := r.duplicates + 1 }, [])
    else
      let r := { r with lastSeq := seq }
      let r :=
        if e.inTime then r.count numPkts verbose e else r
      (r, if r.crashed then [] else [(e.t2, e.onewayTime)])

def machine
    (numPkts : Int)
    (verbose : Bool) :
    Machine LatencyReceiver PathEv (Timeval × Int) where
  step := step numPkts verbose

end LatencyReceiver

end P4

end Cs2520

------------------------------------------------------------
-- The Counts
------------------------------------------------------------

namespace Cs2520

namespace P4

open Lib

/- The numbers of some packets in the order of arrival. -/
def numbers
    (es : List PathEv) : List Ev :=
  es.map PathEv.toEv

/- The first copies that came in time. -/
def firstInTime
    (es : List PathEv) : List PathEv :=
  es.foldl
    (fun as e =>
      if e.inTime ∧ e.pkt.seqNum ∉ as.map (·.pkt.seqNum) then
        as ++ [e]
      else
        as)
    []

theorem firstInTime_append
    (es : List PathEv)
    (e : PathEv) :
    firstInTime (es ++ [e]) =
      if e.inTime ∧
          e.pkt.seqNum ∉
            (firstInTime es).map (·.pkt.seqNum) then
        firstInTime es ++ [e]
      else
        firstInTime es :=
  List.foldl_concat _ _ _ _

/- Their numbers are the arrivals. -/
theorem numbers_firstInTime
    (es : List PathEv) :
    (firstInTime es).map (·.pkt.seqNum) =
      arrivals (numbers es) := by
  induction es using List.reverseRecOn with
  | nil => rfl
  | append_singleton es e ih =>
      rw [firstInTime_append, numbers, List.map_append,
        List.map_singleton, arrivals_append, ← numbers, ih]
      split
      · rw [List.map_append, ih]
        rfl
      · exact ih

theorem nodup_arrivals
    (es : List Ev) :
    (arrivals es).Nodup := by
  induction es using List.reverseRecOn with
  | nil => exact List.nodup_nil
  | append_singleton es e ih =>
      rw [arrivals_append]
      split
      · next hNew =>
          rw [← List.concat_eq_append]
          exact ih.concat hNew.2
      · exact ih

namespace LatencyReceiver

variable {numPkts : Int}
variable {verbose : Bool}

/- What the loop knows after these packets. -/
structure Tracks
    (numPkts : Int)
    (es : List PathEv)
    (lines : List (Timeval × Int))
    (r : LatencyReceiver) : Prop where
  running : r.done = false
  sound : r.crashed = false
  array :
    r.firstPktFlag = false →
      ∀ i, 1 ≤ i → i ≤ numPkts →
        (r.pktSeqArray i ≠ 0 ↔ i ∈ arrivals (numbers es))
  start : r.firstPktFlag = true → es = []
  count : r.recvCount = (firstInTime es).length
  root :
    r.root =
      Trie.ofWords ((firstInTime es).map (·.path.bytes))
  lines : r.duplicates + lines.length = es.length
  checkpoint :
    firstInTime es = [] → r.seqCheckpoint = numPkts / 100

theorem tracks_initial
    (numPkts : Int)
    (memory : Int → Int) :
    Tracks numPkts [] [] (initial numPkts memory) where
  running := rfl
  sound := rfl
  array := fun hFlag => by cases hFlag
  start := fun _ => rfl
  count := rfl
  root := rfl
  lines := rfl
  checkpoint := fun _ => rfl

/- The state in which the number of a packet is looked up. -/
def ready
    (numPkts : Int)
    (r : LatencyReceiver) : LatencyReceiver :=
  if r.firstPktFlag then r.firstPkt numPkts else r

theorem Tracks.ready
    {es : List PathEv}
    {lines : List (Timeval × Int)}
    {r : LatencyReceiver}
    (h : Tracks numPkts es lines r) :
    (r.ready numPkts).firstPktFlag = false ∧
      Tracks numPkts es lines (r.ready numPkts) := by
  unfold LatencyReceiver.ready
  split
  · next hFirst =>
      have hNone := h.start hFirst
      refine ⟨rfl, ?_⟩
      exact
        { running := h.running
          sound := h.sound
          array := by
            intro _ i hLow hHigh
            subst hNone
            simp [LatencyReceiver.firstPkt, hLow, hHigh,
              numbers, arrivals]
          start := fun hFlag => by cases hFlag
          count := h.count
          root := h.root
          lines := h.lines
          checkpoint := h.checkpoint }
  · next hNot => exact ⟨Bool.eq_false_of_not_eq_true hNot, h⟩

/- What counting a packet changes. -/
theorem count_frame
    (hEvery : verbose = true → 100 ≤ numPkts)
    {r : LatencyReceiver}
    {e : PathEv}
    {root : TrieNode}
    (hRoot : trieAdd r.root e.path.bytes = some root) :
    (r.count numPkts verbose e).done = r.done ∧
      (r.count numPkts verbose e).crashed = r.crashed ∧
      (r.count numPkts verbose e).firstPktFlag =
        r.firstPktFlag ∧
      (r.count numPkts verbose e).pktSeqArray =
        Function.update r.pktSeqArray e.pkt.seqNum 1 ∧
      (r.count numPkts verbose e).duplicates =
        r.duplicates ∧
      (r.count numPkts verbose e).recvCount =
        r.recvCount + 1 ∧
      (r.count numPkts verbose e).root = root := by
  simp only [LatencyReceiver.count, hRoot]
  split
  · next hVerbose =>
      have hPos : numPkts / 100 ≠ 0 := by
        have hSome := hEvery hVerbose.1
        omega
      simp only [checkpoint, hPos, if_false]
      split
      · exact ⟨rfl, rfl, rfl, rfl, rfl, rfl, rfl⟩
      · exact ⟨rfl, rfl, rfl, rfl, rfl, rfl, rfl⟩
  · exact ⟨rfl, rfl, rfl, rfl, rfl, rfl, rfl⟩

theorem trieAdd_ofWords
    (paths : List (List UInt8))
    (path : List UInt8) :
    trieAdd (Trie.ofWords paths) path =
      some (Trie.ofWords (paths ++ [path])) := by
  have hNode := Trie.ofWords_ne_null paths
  rw [Trie.ofWords_concat]
  generalize Trie.ofWords paths = root at hNode ⊢
  cases root with
  | null => exact absurd rfl hNode
  | node n child => rfl

theorem Tracks.step_eq
    {es : List PathEv}
    {lines : List (Timeval × Int)}
    {r : LatencyReceiver}
    (h : Tracks numPkts es lines r)
    {e : PathEv}
    (hLow : 1 ≤ e.pkt.seqNum)
    (hHigh : e.pkt.seqNum ≤ numPkts) :
    r.step numPkts verbose e =
      let q := r.ready numPkts
      if q.pktSeqArray e.pkt.seqNum ≠ 0 then
        ({ q with duplicates := q.duplicates + 1 }, [])
      else
        let q := { q with lastSeq := e.pkt.seqNum }
        let q :=
          if e.inTime then q.count numPkts verbose e else q
        (q, if q.crashed then [] else [(e.t2, e.onewayTime)])
    := by
  have hRuns : ¬ (r.done = true ∨ r.crashed = true) := by
    rw [h.running, h.sound]
    simp
  have hNumber : e.pkt.seqNum ≠ -1 := by omega
  have hSome :
      ¬ (r.firstPktFlag = true ∧ ¬ 0 < numPkts) := by
    omega
  rw [LatencyReceiver.step]
  simp only [hRuns, hNumber, hSome, if_false]
  rfl

/- What one more packet means for the first copies. -/
theorem firstInTime_concat
    (es : List PathEv)
    (e : PathEv) :
    if e.inTime ∧ e.pkt.seqNum ∉ arrivals (numbers es) then
      firstInTime (es ++ [e]) = firstInTime es ++ [e] ∧
        arrivals (numbers (es ++ [e])) =
          arrivals (numbers es) ++ [e.pkt.seqNum]
    else
      firstInTime (es ++ [e]) = firstInTime es ∧
        arrivals (numbers (es ++ [e])) =
          arrivals (numbers es) := by
  have hNumbers :
      numbers (es ++ [e]) = numbers es ++ [e.toEv] :=
    List.map_append
  rw [firstInTime_append, numbers_firstInTime, hNumbers,
    arrivals_append]
  split
  · exact ⟨rfl, rfl⟩
  · exact ⟨rfl, rfl⟩

/- A packet that is not counted leaves one trace. -/
theorem Tracks.passed
    {es : List PathEv}
    {lines : List (Timeval × Int)}
    {q : LatencyReceiver}
    (h : Tracks numPkts es lines q)
    (hFlag : q.firstPktFlag = false)
    {e : PathEv}
    (hFirst : firstInTime (es ++ [e]) = firstInTime es)
    (hArrivals :
      arrivals (numbers (es ++ [e])) = arrivals (numbers es))
    (duplicates lastSeq : Int)
    (more : List (Timeval × Int))
    (hMore :
      duplicates + more.length = q.duplicates + 1) :
    Tracks numPkts (es ++ [e]) (lines ++ more)
      { q with
        duplicates := duplicates
        lastSeq := lastSeq } where
  running := h.running
  sound := h.sound
  array := by
    rw [hArrivals]
    exact h.array
  start := fun hStart =>
    absurd (hFlag.symm.trans hStart) Bool.noConfusion
  count := by
    rw [hFirst]
    exact h.count
  root := by
    rw [hFirst]
    exact h.root
  lines := by
    have hLines := h.lines
    rw [List.length_append, List.length_append,
      List.length_singleton]
    change duplicates + _ = _
    omega
  checkpoint := by
    rw [hFirst]
    exact h.checkpoint

/- A packet that is counted is a new first copy. -/
theorem Tracks.counted
    (hEvery : verbose = true → 100 ≤ numPkts)
    {es : List PathEv}
    {lines : List (Timeval × Int)}
    {q : LatencyReceiver}
    (h : Tracks numPkts es lines q)
    (hFlag : q.firstPktFlag = false)
    {e : PathEv}
    (hFirst : firstInTime (es ++ [e]) = firstInTime es ++ [e])
    (hArrivals :
      arrivals (numbers (es ++ [e])) =
        arrivals (numbers es) ++ [e.pkt.seqNum])
    (line : Timeval × Int) :
    let q' :=
      LatencyReceiver.count numPkts verbose
        { q with lastSeq := e.pkt.seqNum } e
    Tracks numPkts (es ++ [e]) (lines ++ [line]) q' := by
  intro q'
  have hRoot :
      trieAdd q.root e.path.bytes =
        some
          (Trie.ofWords
            ((firstInTime (es ++ [e])).map (·.path.bytes)))
      := by
    rw [h.root, trieAdd_ofWords, hFirst, List.map_append]
    rfl
  rcases
    count_frame hEvery
      (r := { q with lastSeq := e.pkt.seqNum }) hRoot with
    ⟨hDone, hCrashed, hFlag', hArray, hDuplicates, hCount,
      hNewRoot⟩
  exact
    { running := hDone.trans h.running
      sound := hCrashed.trans h.sound
      array := by
        intro _ i hLow hHigh
        have hOld := h.array hFlag i hLow hHigh
        rw [hArray, hArrivals, List.mem_append,
          List.mem_singleton]
        by_cases hSame : i = e.pkt.seqNum
        · subst hSame
          rw [Function.update_self]
          simp
        · rw [Function.update_of_ne hSame, hOld]
          simp [hSame]
      start := fun hStart =>
        absurd ((hFlag'.trans hFlag).symm.trans hStart)
          Bool.noConfusion
      count := by
        rw [hCount, h.count, hFirst, List.length_append]
        rfl
      root := hNewRoot
      lines := by
        have hLines := h.lines
        rw [hDuplicates, List.length_append,
          List.length_append, List.length_singleton,
          List.length_singleton]
        change q.duplicates + _ = _
        omega
      checkpoint := by
        rw [hFirst]
        intro hNone
        exact absurd hNone (List.concat_ne_nil _ _) }

/- One pass takes one packet into the counts. -/
theorem Tracks.step
    {es : List PathEv}
    {lines : List (Timeval × Int)}
    {r : LatencyReceiver}
    (h : Tracks numPkts es lines r)
    {e : PathEv}
    (hLow : 1 ≤ e.pkt.seqNum)
    (hHigh : e.pkt.seqNum ≤ numPkts)
    (hEvery :
      e.inTime = true → verbose = true → 100 ≤ numPkts) :
    Tracks numPkts (es ++ [e])
      (lines ++ (r.step numPkts verbose e).2)
      (r.step numPkts verbose e).1 := by
  rw [h.step_eq hLow hHigh]
  rcases h.ready with ⟨hFlag, hReady⟩
  generalize r.ready numPkts = q at hFlag hReady ⊢
  have hSeen := hReady.array hFlag e.pkt.seqNum hLow hHigh
  have hNext := firstInTime_concat es e
  dsimp only
  split
  · next hOld =>
      rw [if_neg (fun hNew => hNew.2 (hSeen.mp hOld))] at hNext
      exact
        hReady.passed hFlag hNext.1 hNext.2
          (q.duplicates + 1) q.lastSeq [] (Int.add_zero _)
  · next hNew =>
      have hFree := fun hIn => hNew (hSeen.mpr hIn)
      by_cases hTime : e.inTime = true
      · rw [if_pos ⟨hTime, hFree⟩] at hNext
        have hCounted :=
          hReady.counted (hEvery hTime) hFlag hNext.1
            hNext.2 (e.t2, e.onewayTime)
        have hSound := hCounted.sound
        simp only [hTime, if_true, hSound,
          Bool.false_eq_true, if_false]
        exact hCounted
      · rw [if_neg (fun hBoth => hTime hBoth.1)] at hNext
        simp only [hTime, hReady.sound, Bool.false_eq_true,
          if_false]
        have hPassed :=
          hReady.passed hFlag hNext.1 hNext.2 q.duplicates
            e.pkt.seqNum [(e.t2, e.onewayTime)] rfl
        rw [hReady.sound] at hPassed
        exact hPassed

/- After packets none of which divides by zero. -/
theorem tracks_run
    (numPkts : Int)
    (verbose : Bool)
    (memory : Int → Int)
    {es : List PathEv}
    (hNumbers :
      ∀ e ∈ es, 1 ≤ e.pkt.seqNum ∧ e.pkt.seqNum ≤ numPkts)
    (hEvery :
      ∀ e ∈ es,
        e.inTime = true → verbose = true → 100 ≤ numPkts) :
    Tracks numPkts es
      ((machine numPkts verbose).outputs
        (initial numPkts memory) es)
      ((machine numPkts verbose).run
        (initial numPkts memory) es) := by
  have hLog :=
    (machine numPkts verbose).log_invariant
      (fun x => some x.2)
      (fun r lines log =>
        (∀ e ∈ log, e ∈ es) → Tracks numPkts log lines r)
      (by
        intro r lines log e hInv hIn
        have hOld := hInv
          (fun e' hMem => hIn e' (List.mem_append_left _ hMem))
        have hNew : e ∈ es :=
          hIn e
            (List.mem_append_right _ List.mem_cons_self)
        exact
          hOld.step (hNumbers e hNew).1 (hNumbers e hNew).2
            (hEvery e hNew))
      (fun _ => tracks_initial numPkts memory) es
  have hEvents :
      ((machine numPkts verbose).trace
        (initial numPkts memory) es).filterMap
          (fun x => some x.2) = es := by
    rw [List.filterMap_eq_map']
    exact
      ((machine numPkts verbose).trace_map_input id _ es).trans
        (List.map_id es)
  rw [hEvents] at hLog
  exact hLog (fun e hMem => hMem)

theorem firstInTime_eq_nil_iff
    (es : List PathEv) :
    firstInTime es = [] ↔ ∀ e ∈ es, e.inTime = false := by
  induction es using List.reverseRecOn with
  | nil => simp [firstInTime]
  | append_singleton es e ih =>
      rw [firstInTime_append, List.forall_mem_append, ← ih,
        List.forall_mem_singleton]
      cases e.inTime with
      | false => simp
      | true =>
          split
          · simp
          · next hOld =>
              refine
                iff_of_false (fun hNone => hOld ?_) (by simp)
              rw [hNone]
              exact ⟨rfl, List.not_mem_nil⟩

/-
  The first packet in time of a verbose receiver that expects
  fewer than 100 packets: `Num_pkts / 100` is 0.
-/
theorem Tracks.divides
    {es : List PathEv}
    {lines : List (Timeval × Int)}
    {r : LatencyReceiver}
    (h : Tracks numPkts es lines r)
    (hNone : firstInTime es = [])
    (hVerbose : verbose = true)
    (hFew : numPkts < 100)
    {e : PathEv}
    (hLow : 1 ≤ e.pkt.seqNum)
    (hHigh : e.pkt.seqNum ≤ numPkts)
    (hTime : e.inTime = true) :
    (r.step numPkts verbose e).1.crashed = true := by
  rw [h.step_eq hLow hHigh]
  rcases h.ready with ⟨hFlag, hReady⟩
  generalize r.ready numPkts = q at hFlag hReady ⊢
  have hSeen := hReady.array hFlag e.pkt.seqNum hLow hHigh
  rw [← numbers_firstInTime, hNone] at hSeen
  have hNew : ¬ q.pktSeqArray e.pkt.seqNum ≠ 0 :=
    fun hOld => List.not_mem_nil (hSeen.mp hOld)
  have hRoot := trieAdd_ofWords [] e.path.bytes
  have hEvery : numPkts / 100 = 0 := by omega
  have hStart := hReady.checkpoint hNone
  rw [hEvery] at hStart
  have hPast : q.seqCheckpoint ≤ e.pkt.seqNum := by omega
  have hBehind : q.seqCheckpoint + 0 < e.pkt.seqNum := by
    omega
  have hTrie := hReady.root
  rw [hNone, List.map_nil] at hTrie
  simp only [hNew, if_false, hTime, if_true,
    LatencyReceiver.count, hTrie, hRoot, hVerbose, hPast,
    and_self, LatencyReceiver.checkpoint, hEvery, hBehind]

theorem step_crashed
    {r : LatencyReceiver}
    (hCrashed : r.crashed = true)
    (e : PathEv) :
    (r.step numPkts verbose e).1.crashed = true := by
  rw [LatencyReceiver.step, if_pos (Or.inr hCrashed)]
  exact hCrashed

/-
  A verbose receiver divides by zero if and only if it
  expects fewer than 100 packets and one comes in time.
-/
theorem crashed_iff
    (numPkts : Int)
    (verbose : Bool)
    (memory : Int → Int)
    {es : List PathEv}
    (hNumbers :
      ∀ e ∈ es, 1 ≤ e.pkt.seqNum ∧ e.pkt.seqNum ≤ numPkts) :
    ((machine numPkts verbose).run
        (initial numPkts memory) es).crashed = true ↔
      verbose = true ∧ numPkts < 100 ∧
        ∃ e ∈ es, e.inTime = true := by
  constructor
  · intro hCrash
    by_contra hNot
    have hTracks :=
      tracks_run numPkts verbose memory hNumbers
        (by
          intro e hMem hTime hVerbose
          by_contra hFew
          exact
            hNot
              ⟨hVerbose, not_le.mp hFew, e, hMem, hTime⟩)
    rw [hTracks.sound] at hCrash
    exact Bool.noConfusion hCrash
  · rintro ⟨hVerbose, hFew, e, hMem, hTime⟩
    have hSome :
        (es.find? (fun e => e.inTime)).isSome = true :=
      List.find?_isSome.mpr ⟨e, hMem, hTime⟩
    obtain ⟨first, hFirst⟩ :=
      Option.isSome_iff_exists.mp hSome
    rcases List.find?_eq_some_iff_append.mp hFirst with
      ⟨hFirstTime, before, after, rfl, hBefore⟩
    have hLate : ∀ e' ∈ before, e'.inTime = false := by
      intro e' hIn
      simpa using hBefore e' hIn
    have hTracks :=
      tracks_run numPkts verbose memory
        (fun e' hIn =>
          hNumbers e' (List.mem_append_left _ hIn))
        (fun e' hIn hInTime => by
          rw [hLate e' hIn] at hInTime
          exact Bool.noConfusion hInTime)
    have hNumber := hNumbers first (by simp)
    have hCrash :=
      hTracks.divides ((firstInTime_eq_nil_iff _).mpr hLate)
        hVerbose hFew hNumber.1 hNumber.2 hFirstTime
    rw [Machine.run_append, Machine.run_cons]
    exact
      (machine numPkts verbose).run_always
        (fun r : LatencyReceiver => r.crashed = true)
        (fun r e' hDead => step_crashed hDead e') hCrash
        after

/- Packet 1 comes in time, packet 2 after two seconds. -/
def lateCopy : List PathEv :=
  [{ pkt := ⟨1, 0, 0⟩
     t2 := ⟨0, 5⟩
     path := ⟨[1, 3, 0, 0, 0, 0, 0, 0], rfl⟩ },
    { pkt := ⟨2, 0, 0⟩
      t2 := ⟨2, 0⟩
      path := ⟨[1, 2, 3, 0, 0, 0, 0, 0], rfl⟩ }]

/- The end of the transmission. -/
def lastPkt : PathEv where
  pkt := ⟨-1, 0, 0⟩
  t2 := ⟨3, 0⟩
  path := ⟨[1, 3, 0, 0, 0, 0, 0, 0], rfl⟩

/- A verbose receiver of two packets. -/
theorem crashed_iff_lateCopy :
    ((machine 2 true).run
      (initial 2 (fun _ => 0)) lateCopy).crashed = true :=
  (crashed_iff 2 true (fun _ => 0) (by decide)).mpr
    ⟨rfl, by decide, by decide⟩

end LatencyReceiver

end P4

end Cs2520

------------------------------------------------------------
-- The Report
------------------------------------------------------------

namespace Cs2520

namespace P4

open Lib

theorem countP_add_countP_not
    {α : Type}
    (p : α → Bool)
    (as : List α) :
    as.countP p + as.countP (fun a => !p a) = as.length := by
  rw [List.length_eq_countP_add_countP p]
  congr 1
  apply List.countP_congr
  intro a _
  rw [Bool.not_eq_true', decide_eq_true_eq,
    Bool.not_eq_true]

/- The arrivals are the numbers delivered. -/
theorem length_arrivals
    {numPkts : Int}
    {es : List Ev}
    (hNumbers :
      ∀ e ∈ es, 1 ≤ e.pkt.seqNum ∧ e.pkt.seqNum ≤ numPkts) :
    (arrivals es).length =
      (List.range numPkts.toNat).countP
        (fun j : Nat => delivered es ((j : Int) + 1)) := by
  have hRange :
      ∀ i ∈ arrivals es, 1 ≤ i ∧ i ≤ numPkts := by
    intro i hMem
    have hCopy := (delivered_iff es i).mpr hMem
    rw [delivered, List.any_eq_true] at hCopy
    rcases hCopy with ⟨e, hIn, hSame⟩
    rw [Bool.and_eq_true, decide_eq_true_eq] at hSame
    rw [← hSame.1]
    exact hNumbers e hIn
  have hPerm :
      (arrivals es).Perm
        (((List.range numPkts.toNat).filter
          (fun j : Nat => delivered es ((j : Int) + 1))).map
            (fun j : Nat => (j : Int) + 1)) := by
    apply
      (List.perm_ext_iff_of_nodup (nodup_arrivals es) ?_).mpr
    · intro i
      rw [List.mem_map, ← delivered_iff]
      constructor
      · intro hCopy
        have hIn := hRange i ((delivered_iff es i).mp hCopy)
        have hBack : ((i - 1).toNat : Int) + 1 = i := by omega
        refine ⟨(i - 1).toNat, ?_, hBack⟩
        rw [List.mem_filter, List.mem_range, hBack]
        exact ⟨by omega, hCopy⟩
      · rintro ⟨j, hIn, rfl⟩
        exact (List.mem_filter.mp hIn).2
    · apply (List.nodup_range.filter _).map
      intro j j' hSame
      dsimp only at hSame
      omega
  rw [hPerm.length_eq, List.length_map,
    List.countP_eq_length_filter]

/- What is printed at the end. -/
structure LatencyReport where
  received : Int
  loss : Int
  paths : List (List UInt8 × Nat)

namespace LatencyReceiver

/- Nothing is reported where no packet was counted. -/
def report
    (numPkts : Int)
    (r : LatencyReceiver) : Option LatencyReport :=
  if r.done = false ∨ r.recvCount = 0 then
    none
  else
    some
      { received := r.recvCount
        loss := numPkts - r.recvCount
        paths := triePrint r.root }

/- The end marker of the sender. -/
theorem Tracks.finish
    {es : List PathEv}
    {lines : List (Timeval × Int)}
    {r : LatencyReceiver}
    (h : Tracks numPkts es lines r)
    {fin : PathEv}
    (hEnd : fin.pkt.seqNum = -1) :
    r.step numPkts verbose fin =
      ({ r with done := true }, []) := by
  have hRuns : ¬ (r.done = true ∨ r.crashed = true) := by
    rw [h.running, h.sound]
    simp
  rw [LatencyReceiver.step, if_neg hRuns, if_pos hEnd]

/- The counts that a report shows. -/
theorem Tracks.shown
    {es : List PathEv}
    {lines : List (Timeval × Int)}
    {r : LatencyReceiver}
    (h : Tracks numPkts es lines r) :
    LatencyReceiver.report numPkts { r with done := true } =
      if firstInTime es = [] then
        none
      else
        some
          { received := (firstInTime es).length
            loss := numPkts - (firstInTime es).length
            paths :=
              triePrint
                (Trie.ofWords
                  ((firstInTime es).map (·.path.bytes))) }
      := by
  rw [LatencyReceiver.report]
  simp only [h.count, h.root, Bool.true_eq_false, false_or,
    Int.natCast_eq_zero, List.length_eq_zero_iff]

/-
  The report of a receiver that divides by no zero: the
  numbers that came in time and those that did not, and every
  path with the number of packets it brought, in order. Each
  packet is a line of `test.txt` or a duplicate.
-/
theorem report_right
    (numPkts : Int)
    (verbose : Bool)
    (memory : Int → Int)
    (es : List PathEv)
    (fin : PathEv)
    (hPos : 0 < numPkts)
    (hEvery : verbose = true → 100 ≤ numPkts)
    (hNumbers :
      ∀ e ∈ es, 1 ≤ e.pkt.seqNum ∧ e.pkt.seqNum ≤ numPkts)
    (hEnd : fin.pkt.seqNum = -1) :
    let M := machine numPkts verbose
    let r := M.run (initial numPkts memory) (es ++ [fin])
    let lines :=
      M.outputs (initial numPkts memory) (es ++ [fin])
    let paths := (firstInTime es).map (·.path.bytes)
    r.duplicates + lines.length = es.length ∧
      (r.report numPkts = none ↔
        ∀ e ∈ es, e.inTime = false) ∧
      ∀ shown, r.report numPkts = some shown →
        shown.received =
            (List.range numPkts.toNat).countP
              (fun j : Nat =>
                delivered (numbers es) ((j : Int) + 1)) ∧
          shown.loss =
            (List.range numPkts.toNat).countP
              (fun j : Nat =>
                !delivered (numbers es) ((j : Int) + 1)) ∧
          shown.paths.Pairwise
            (fun l l' => List.Lex (· < ·) l.1 l'.1) ∧
          (∀ l,
            l ∈ shown.paths ↔
              l.1 ∈ paths ∧ l.2 = paths.count l.1) ∧
          ((shown.paths.map Prod.snd).sum : Int) =
            shown.received := by
  intro M r lines paths
  have hTracks :=
    tracks_run numPkts verbose memory hNumbers
      (fun _ _ _ => hEvery)
  have hStop : M.step _ fin = _ := hTracks.finish hEnd
  have hEvents :
      ∀ e ∈ numbers es,
        1 ≤ e.pkt.seqNum ∧ e.pkt.seqNum ≤ numPkts := by
    intro e hMem
    rcases List.mem_map.mp hMem with ⟨e', hIn, rfl⟩
    exact hNumbers e' hIn
  have hArrived :
      (firstInTime es).length =
        (List.range numPkts.toNat).countP
          (fun j : Nat =>
            delivered (numbers es) ((j : Int) + 1)) := by
    rw [← length_arrivals hEvents, ← numbers_firstInTime,
      List.length_map]
  have hState :
      r =
        { M.run (initial numPkts memory) es with
          done := true } :=
    (M.run_append _ es [fin]).trans (congrArg Prod.fst hStop)
  have hLines :
      lines = M.outputs (initial numPkts memory) es := by
    have hSplit : lines = _ := M.outputs_append _ es [fin]
    rw [hSplit, Machine.outputs, Machine.outputs, hStop,
      List.append_nil, List.append_nil]
  have hShown := hTracks.shown
  rw [hState, hLines]
  refine ⟨hTracks.lines, ?_, ?_⟩
  · rw [hShown, ← firstInTime_eq_nil_iff]
    split
    · next hNone => simp [hNone]
    · next hSome => simp [hSome]
  · intro shown hReport
    rw [hShown] at hReport
    split at hReport
    · cases hReport
    · cases hReport
      dsimp only
      refine ⟨congrArg _ hArrived, ?_, ?_, ?_, ?_⟩
      · have hAll :=
          countP_add_countP_not
            (fun j : Nat =>
              delivered (numbers es) ((j : Int) + 1))
            (List.range numPkts.toNat)
        rw [List.length_range] at hAll
        omega
      · exact Trie.list_sorted bytes_increasing _ []
      · exact Trie.mem_list_ofWords mem_bytes paths
      · have hSum :=
          Trie.sum_list_ofWords mem_bytes bytes_increasing
            paths
        rw [triePrint, hSum, List.length_map]

/- One of two packets comes late. -/
theorem report_right_lateCopy :
    let r :=
      (machine 2 false).run (initial 2 (fun _ => 0))
        (lateCopy ++ [lastPkt])
    ∃ shown, r.report 2 = some shown ∧ shown.loss = 1 := by
  intro r
  rcases
    report_right 2 false (fun _ => 0) lateCopy lastPkt
      (by decide) (by decide) (by decide) rfl with
    ⟨_, hNone, hSome⟩
  cases hReport : r.report 2 with
  | none => exact absurd (hNone.mp hReport) (by decide)
  | some shown =>
      have hLoss := (hSome shown hReport).2.1
      exact ⟨shown, rfl, hLoss.trans (by decide)⟩

end LatencyReceiver

end P4

end Cs2520
