import Cs2520.Lib.Time
import Cs2520.Lib.Verdict
import Mathlib.Data.List.Nodup

/-
  The availability measurement of the overlay experiments
  (`testprogs/availability_traffic.c`, and the same loop in
  `availability_traffic_redundant.c`).

  `Receiver.step` is one pass of the receiver loop. The
  throughput and path statistics, which are only printed, are
  left out.

  A window of 100 numbers is judged by the first packet in
  time at or past its end; a packet exactly at the end of the
  next window judges only the first of the two. What arrives
  later does not count, and the last windows may stay open.

  Main declarations:
    * `Receiver`
    * `Receiver.step`
    * `unavailable`
    * `closed`
    * `Tracks.step`
    * `unavail_eq_iff`
    * `last_window_ignored`
-/

------------------------------------------------------------
-- The Receiver Loop
------------------------------------------------------------

namespace Cs2520

namespace P4

open Lib

/- The fields of `flood_pkt` that the measurement reads. -/
structure FloodPkt where
  seqNum : Int
  originSec : Int
  originUsec : Int
deriving DecidableEq

/- A received packet and the clock reading `t2` for it. -/
structure Ev where
  pkt : FloodPkt
  t2 : Timeval
deriving DecidableEq

/- `oneway_time`, in microseconds -/
def Ev.onewayTime
    (e : Ev) : Int :=
  (e.t2.sec - e.pkt.originSec) * 1000000 +
    (e.t2.usec - e.pkt.originUsec)

/- `oneway_time <= 65000` -/
def Ev.inTime
    (e : Ev) : Bool :=
  decide (e.onewayTime ≤ 65000)

/- The variables of the loop. -/
structure Receiver where
  done : Bool
  firstPktFlag : Bool
  pktSeqArray : Int → Int
  duplicates : Int
  recvCount : Int
  lastSeq : Int
  seqCheckpoint : Int
  unavail : Int

namespace Receiver

/-
  The state before the loop. The array is not allocated
  before the first packet.
-/
def initial
    (memory : Int → Int) : Receiver where
  done := false
  firstPktFlag := true
  pktSeqArray := memory
  duplicates := 0
  recvCount := 0
  lastSeq := 0
  seqCheckpoint := 100
  unavail := 0

/- The first packet allocates and clears the array. -/
def firstPkt
    (r : Receiver)
    (numPkts : Int) : Receiver :=
  { r with
    firstPktFlag := false
    pktSeqArray :=
      fun i =>
        if 1 ≤ i ∧ i ≤ numPkts then 0 else r.pktSeqArray i
    lastSeq := -1 }

/-
  The loop that counts the losses from `i` downwards. The
  first argument is the number of passes.
-/
def checkpointLoss
    (array : Int → Int) : Nat → Int → Int
  | 0, _ => 0
  | n + 1, i =>
      (if array i = 0 then 1 else 0) +
        checkpointLoss array n (i - 1)

/- Judge the window at the checkpoint, and skip windows. -/
def checkpoint
    (r : Receiver) : Receiver :=
  let loss :=
    checkpointLoss r.pktSeqArray 100 r.seqCheckpoint
  let r :=
    if 50 ≤ loss then
      { r with unavail := r.unavail + 1 }
    else
      r
  let r := { r with seqCheckpoint := r.seqCheckpoint + 100 }
  if r.seqCheckpoint < r.lastSeq then
    let past := r.lastSeq - r.lastSeq % 100 + 100
    { r with
      unavail :=
        r.unavail + (past - r.seqCheckpoint) / 100
      seqCheckpoint := past }
  else
    r

/- A packet in time is counted; it may reach a checkpoint. -/
def count
    (verbose : Bool)
    (r : Receiver)
    (seq : Int) : Receiver :=
  let r :=
    { r with
      recvCount := r.recvCount + 1
      pktSeqArray := Function.update r.pktSeqArray seq 1 }
  if verbose ∧ r.seqCheckpoint ≤ r.lastSeq then
    r.checkpoint
  else
    r

/- One pass of the loop; the number -1 ends it. -/
def step
    (numPkts : Int)
    (verbose : Bool)
    (r : Receiver)
    (e : Ev) : Receiver :=
  let seq := e.pkt.seqNum
  if r.done then
    r
  else if seq = -1 then
    { r with done := true }
  else
    let r := if r.firstPktFlag then r.firstPkt numPkts else r
    if r.pktSeqArray seq ≠ 0 then
      { r with duplicates := r.duplicates + 1 }
    else
      let r := { r with lastSeq := seq }
      if e.inTime then
        r.count verbose seq
      else
        r

/- The state after all received packets. -/
def run
    (numPkts : Int)
    (verbose : Bool)
    (r : Receiver)
    (es : List Ev) : Receiver :=
  es.foldl (step numPkts verbose) r

end Receiver

end P4

end Cs2520

------------------------------------------------------------
-- Windows
------------------------------------------------------------

namespace Cs2520

namespace P4

open Lib

/- A copy of packet `i` was received in time. -/
def delivered
    (es : List Ev)
    (i : Int) : Bool :=
  es.any (fun e => decide (e.pkt.seqNum = i) && e.inTime)

/-
  At least 50 numbers of `100 * k + 1 .. 100 * k + 100` have
  no copy that was received in time.
-/
def unavailable
    (es : List Ev)
    (k : Nat) : Bool :=
  decide
    (50 ≤
      (List.range 100).countP
        (fun j : Nat =>
          !delivered es (100 * (k : Int) + j + 1)))

/- The first copies in time, in the order of arrival. -/
def arrivals
    (es : List Ev) : List Int :=
  es.foldl
    (fun as e =>
      if e.inTime ∧ e.pkt.seqNum ∉ as then
        as ++ [e.pkt.seqNum]
      else
        as)
    []

/-
  A packet closes all windows that end at or before it, but
  one exactly at the end of the second open window closes
  only the first.
-/
def closes
    (c : Nat)
    (p : Int) : Nat :=
  if p = 100 * ((c : Int) + 2) then c + 1
  else max c (p / 100).toNat

/- How many windows some arrivals have closed. -/
def closed
    (as : List Int) : Nat :=
  as.foldl closes 0

/- The numbers of window `k` that have not arrived. -/
def lost
    (as : List Int)
    (k : Nat) : Nat :=
  (List.range 100).countP
    (fun j : Nat =>
      decide (100 * (k : Int) + j + 1 ∉ as))

/- Window `k` is unavailable by these arrivals. -/
def bad
    (as : List Int)
    (k : Nat) : Bool :=
  decide (50 ≤ lost as k)

theorem closed_append
    (as : List Int)
    (p : Int) :
    closed (as ++ [p]) = closes (closed as) p :=
  List.foldl_concat _ _ _ _

theorem le_closes
    (c : Nat)
    (p : Int) :
    c ≤ closes c p := by
  unfold closes
  split
  · exact Nat.le_succ c
  · exact Nat.le_max_left _ _

/- Arrivals only reduce what is lost. -/
theorem lost_append_le
    (as : List Int)
    (p : Int)
    (k : Nat) :
    lost (as ++ [p]) k ≤ lost as k := by
  apply List.countP_mono_left
  intro j _ hLost
  rw [decide_eq_true_eq] at hLost ⊢
  exact fun hMem => hLost (List.mem_append_left _ hMem)

theorem lawful : Verdict.Lawful closed bad where
  start := rfl
  closes := by
    intro as p
    rw [closed_append]
    exact le_closes _ _
  repairs := by
    intro as p k hBad
    rw [bad, decide_eq_true_eq] at hBad ⊢
    exact hBad.trans (lost_append_le as p k)

/-
  A window that only the last packet can belong to lacks all
  but one of its numbers.
-/
theorem bad_of_behind
    {as : List Int}
    {k : Nat}
    (hBehind : ∀ a ∈ as, a ≤ 100 * (k : Int))
    (p : Int) :
    bad (as ++ [p]) k = true := by
  obtain ⟨i, hI⟩ :
      ∃ i : Nat, i = (p - 100 * (k : Int) - 1).toNat :=
    ⟨_, rfl⟩
  have hOthers :
      (List.range 100).countP (fun j => decide (j ≠ i)) ≤
        lost (as ++ [p]) k := by
    apply List.countP_mono_left
    intro j _ hOther
    rw [decide_eq_true_eq] at hOther ⊢
    intro hMem
    rcases List.mem_append.mp hMem with hOld | hLast
    · have hLe := hBehind _ hOld
      omega
    · have hSame := List.mem_singleton.mp hLast
      omega
  have hOnce :
      (List.range 100).countP (fun j => decide (j = i)) ≤ 1
      := by
    have hCount :=
      List.nodup_iff_count_le_one.mp
        (List.nodup_range (n := 100)) i
    simpa [List.count, beq_eq_decide] using hCount
  have hAll :
      100 =
        (List.range 100).countP (fun j => decide (j = i)) +
          (List.range 100).countP (fun j => decide (j ≠ i))
      := by
    simpa using
      List.length_eq_countP_add_countP
        (fun j => decide (j = i)) (l := List.range 100)
  rw [bad, decide_eq_true_eq]
  omega

theorem arrivals_append
    (es : List Ev)
    (e : Ev) :
    arrivals (es ++ [e]) =
      if e.inTime ∧ e.pkt.seqNum ∉ arrivals es then
        arrivals es ++ [e.pkt.seqNum]
      else
        arrivals es :=
  List.foldl_concat _ _ _ _

/- Whatever is received in time is an arrival. -/
theorem delivered_iff
    (es : List Ev)
    (i : Int) :
    delivered es i = true ↔ i ∈ arrivals es := by
  induction es using List.reverseRecOn with
  | nil => simp [delivered, arrivals]
  | append_singleton es e ih =>
      have hDelivered :
          delivered (es ++ [e]) i = true ↔
            delivered es i = true ∨
              (e.pkt.seqNum = i ∧ e.inTime = true) := by
        simp [delivered]
      rw [hDelivered, ih, arrivals_append]
      split
      · next hNew =>
          rw [List.mem_append, List.mem_singleton]
          constructor
          · rintro (hOld | ⟨hSeq, _⟩)
            · exact Or.inl hOld
            · exact Or.inr hSeq.symm
          · rintro (hOld | hSeq)
            · exact Or.inl hOld
            · exact Or.inr ⟨hSeq.symm, hNew.1⟩
      · next hNot =>
          constructor
          · rintro (hOld | ⟨hSeq, hTime⟩)
            · exact hOld
            · by_contra hMissing
              rw [← hSeq] at hMissing
              exact hNot ⟨hTime, hMissing⟩
          · intro hOld
            exact Or.inl hOld

/- The unavailable windows are the bad ones in the end. -/
theorem unavailable_eq_bad
    (es : List Ev) :
    unavailable es = bad (arrivals es) := by
  funext k
  rw [unavailable, bad, lost]
  congr 2
  apply List.countP_congr
  intro j _
  have hIff :=
    delivered_iff es (100 * (k : Int) + j + 1)
  rw [decide_eq_true_eq, ← hIff]
  simp

end P4

end Cs2520

------------------------------------------------------------
-- What the Loop Keeps
------------------------------------------------------------

namespace Cs2520

namespace P4

namespace Receiver

open Lib

variable {numPkts : Nat}

/- The losses of window `k` as the loop counts them. -/
theorem checkpointLoss_eq
    {array : Int → Int}
    {as : List Int}
    (n : Nat)
    {i : Int}
    (hArray :
      ∀ j, i - n < j → j ≤ i → (array j ≠ 0 ↔ j ∈ as)) :
    checkpointLoss array n i =
      (List.range n).countP
        (fun j : Nat => decide (i - n + j + 1 ∉ as)) := by
  induction n generalizing i with
  | zero => rfl
  | succ n ih =>
      push_cast at hArray
      have hRest :=
        ih (i := i - 1)
          (fun j hLo hHi => hArray j (by omega) (by omega))
      have hShift :
          ∀ j : Nat,
            i - ((n + 1 : Nat) : Int) + j + 1 =
              i - 1 - (n : Int) + j + 1 := by
        intro j
        push_cast
        omega
      have hLast : i - 1 - (n : Int) + n + 1 = i := by omega
      have hHere := hArray i (by omega) (Int.le_refl i)
      simp only [hShift]
      rw [checkpointLoss, hRest, List.range_succ,
        List.countP_append, List.countP_singleton, hLast]
      by_cases hZero : array i = 0
      · have hLost : i ∉ as := fun hMem => hHere.mpr hMem hZero
        simp only [hZero, hLost, not_false_eq_true,
          decide_true, if_true]
        push_cast
        omega
      · have hIn : i ∈ as := hHere.mp hZero
        simp [hZero, hIn]

/- The loop after packets with these arrivals. -/
structure Tracks
    (numPkts : Nat)
    (as : List Int)
    (r : Receiver) : Prop where
  running : r.done = false
  array :
    r.firstPktFlag = false →
      ∀ i : Int, 1 ≤ i → i ≤ numPkts →
        (r.pktSeqArray i ≠ 0 ↔ i ∈ as)
  none : r.firstPktFlag = true → as = []
  checkpoint : r.seqCheckpoint = 100 * ((closed as : Int) + 1)
  unavail :
    r.unavail =
      Verdict.alarms closed bad (numPkts / 100) as
  range : ∀ a ∈ as, a ≤ 100 * ((closed as : Int) + 1)
  within : closed as ≤ numPkts / 100

theorem tracks_initial
    (numPkts : Nat)
    (memory : Int → Int) :
    Tracks numPkts [] (initial memory) where
  running := rfl
  array := fun hFlag => by cases hFlag
  none := fun _ => rfl
  checkpoint := rfl
  unavail := by
    have hNone :
        Verdict.alarms closed bad (numPkts / 100) [] =
          (List.range 0).countP
            (Verdict.alarmed closed bad []) :=
      Verdict.countP_range_of_false
        (fun k _ => lawful.alarmed_of_open (Nat.zero_le k))
        (Nat.zero_le _)
    rw [hNone]
    rfl
  range := fun a hMem => by cases hMem
  within := Nat.zero_le _

/- Clearing the array agrees with no arrivals. -/
theorem Tracks.firstPkt
    {as : List Int}
    {r : Receiver}
    (h : Tracks numPkts as r)
    (hFirst : r.firstPktFlag = true) :
    Tracks numPkts as (r.firstPkt numPkts) where
  running := h.running
  array := by
    intro _ i hLo hHi
    rw [h.none hFirst]
    simp [Receiver.firstPkt, hLo, hHi]
  none := fun _ => h.none hFirst
  checkpoint := h.checkpoint
  unavail := h.unavail
  range := h.range
  within := h.within

/- A packet before the checkpoint closes nothing. -/
theorem closed_append_of_lt
    {as : List Int}
    {p : Int}
    (hLt : p < 100 * ((closed as : Int) + 1)) :
    closed (as ++ [p]) = closed as := by
  rw [closed_append, closes, if_neg (by omega)]
  omega

/- A packet at or past the checkpoint closes windows. -/
theorem closed_append_of_le
    {as : List Int}
    {p : Int}
    (hLe : 100 * ((closed as : Int) + 1) ≤ p) :
    (closed (as ++ [p]) : Int) =
      if 100 * ((closed as : Int) + 2) < p then p / 100
      else closed as + 1 := by
  rw [closed_append, closes]
  split
  · split
    · omega
    · push_cast
      rfl
  · split
    · omega
    · omega

/- The loop has marked packet `p` but not judged by it. -/
structure Marked
    (numPkts : Nat)
    (as : List Int)
    (p : Int)
    (r : Receiver) : Prop where
  running : r.done = false
  ready : r.firstPktFlag = false
  array :
    ∀ i : Int, 1 ≤ i → i ≤ numPkts →
      (r.pktSeqArray i ≠ 0 ↔ i ∈ as ++ [p])
  last : r.lastSeq = p
  checkpoint : r.seqCheckpoint = 100 * ((closed as : Int) + 1)
  unavail :
    r.unavail =
      Verdict.alarms closed bad (numPkts / 100) as
  range : ∀ a ∈ as, a ≤ 100 * ((closed as : Int) + 1)
  within : closed as ≤ numPkts / 100

/- The array after one more packet. -/
theorem mark_iff
    {array : Int → Int}
    {as : List Int}
    {i p : Int}
    (hArray : array i ≠ 0 ↔ i ∈ as) :
    Function.update array p 1 i ≠ 0 ↔ i ∈ as ++ [p] := by
  by_cases hSame : i = p
  · subst hSame
    simp
  · rw [Function.update_of_ne hSame, hArray]
    simp [hSame]

theorem Tracks.mark
    {as : List Int}
    {r : Receiver}
    (h : Tracks numPkts as r)
    (hReady : r.firstPktFlag = false)
    (p : Int) :
    Marked numPkts as p
      { r with
        lastSeq := p
        recvCount := r.recvCount + 1
        pktSeqArray := Function.update r.pktSeqArray p 1 }
    where
  running := h.running
  ready := hReady
  array := fun i hLo hHi => mark_iff (h.array hReady i hLo hHi)
  last := rfl
  checkpoint := h.checkpoint
  unavail := h.unavail
  range := h.range
  within := h.within

/- Before the checkpoint the packet changes no verdict. -/
theorem Marked.stay
    {as : List Int}
    {p : Int}
    {r : Receiver}
    (h : Marked numPkts as p r)
    (hLt : p < 100 * ((closed as : Int) + 1)) :
    Tracks numPkts (as ++ [p]) r := by
  have hClosed := closed_append_of_lt hLt
  refine ⟨h.running, fun _ => h.array, ?_, ?_, ?_, ?_, ?_⟩
  · intro hFirst
    cases h.ready.symm.trans hFirst
  · rw [hClosed]
    exact h.checkpoint
  · rw [lawful.alarms_append_of_eq _ hClosed]
    exact h.unavail
  · rw [hClosed]
    intro a hMem
    rcases List.mem_append.mp hMem with hPrev | hNew
    · exact h.range a hPrev
    · rw [List.mem_singleton.mp hNew]
      exact Int.le_of_lt hLt
  · rw [hClosed]
    exact h.within

/- The losses that the loop counts are those of the window. -/
theorem Marked.loss
    {as : List Int}
    {p : Int}
    {r : Receiver}
    (h : Marked numPkts as p r)
    (hWindow : 100 * ((closed as : Int) + 1) ≤ numPkts) :
    checkpointLoss r.pktSeqArray 100 r.seqCheckpoint =
      lost (as ++ [p]) (closed as) := by
  have hFirst :
      ∀ j : Nat,
        100 * ((closed as : Int) + 1) - (100 : Nat) + j + 1 =
          100 * (closed as : Int) + j + 1 := by
    intro j
    push_cast
    omega
  have hArray :
      ∀ j,
        100 * ((closed as : Int) + 1) - (100 : Nat) < j →
          j ≤ 100 * ((closed as : Int) + 1) →
            (r.pktSeqArray j ≠ 0 ↔ j ∈ as ++ [p]) := by
    intro j hLo hHi
    push_cast at hLo
    exact h.array j (by omega) (by omega)
  rw [h.checkpoint, checkpointLoss_eq 100 hArray, lost]
  simp only [hFirst]

/- What a packet in time adds to the verdicts. -/
theorem Marked.alarms_append
    {as : List Int}
    {p : Int}
    {r : Receiver}
    (h : Marked numPkts as p r)
    (hLe : 100 * ((closed as : Int) + 1) ≤ p)
    (hHi : p ≤ numPkts) :
    closed (as ++ [p]) ≤ numPkts / 100 ∧
      Verdict.alarms closed bad (numPkts / 100)
          (as ++ [p]) =
        Verdict.alarms closed bad (numPkts / 100) as +
          (if bad (as ++ [p]) (closed as) then 1 else 0) +
          (closed (as ++ [p]) - (closed as + 1)) := by
  have hClosed := closed_append_of_le hLe
  have hMore : closed as < closed (as ++ [p]) := by
    split at hClosed
    · omega
    · omega
  have hWithin : closed (as ++ [p]) ≤ numPkts / 100 := by
    split at hClosed
    · omega
    · omega
  refine ⟨hWithin, ?_⟩
  apply lawful.alarms_append hMore ?_ hWithin
  intro k hLo _
  apply bad_of_behind
  intro a hMem
  have hRange := h.range a hMem
  omega

end Receiver

end P4

end Cs2520

------------------------------------------------------------
-- Checkpoints
------------------------------------------------------------

namespace Cs2520

namespace P4

namespace Receiver

open Lib

variable {numPkts : Nat}

/- The new checkpoint, and the windows judged unavailable. -/
theorem checkpoint_spec
    (r : Receiver) :
    r.checkpoint.done = r.done ∧
      r.checkpoint.firstPktFlag = r.firstPktFlag ∧
      r.checkpoint.pktSeqArray = r.pktSeqArray ∧
      r.checkpoint.seqCheckpoint =
        (if r.seqCheckpoint + 100 < r.lastSeq then
          r.lastSeq - r.lastSeq % 100 + 100
        else
          r.seqCheckpoint + 100) ∧
      r.checkpoint.unavail =
        r.unavail +
          (if 50 ≤
              checkpointLoss r.pktSeqArray 100
                r.seqCheckpoint then
            1
          else
            0) +
          (if r.seqCheckpoint + 100 < r.lastSeq then
            (r.lastSeq - r.lastSeq % 100 + 100 -
              (r.seqCheckpoint + 100)) / 100
          else
            0) := by
  unfold checkpoint
  dsimp only
  split
  · split
    · exact ⟨rfl, rfl, rfl, rfl, rfl⟩
    · exact ⟨rfl, rfl, rfl, rfl, (Int.add_zero _).symm⟩
  · split
    · refine ⟨rfl, rfl, rfl, rfl, ?_⟩
      dsimp only
      omega
    · refine ⟨rfl, rfl, rfl, rfl, ?_⟩
      dsimp only
      omega

/- One window is judged and the skipped ones are added. -/
theorem Marked.unavail_checkpoint
    {as : List Int}
    {p : Int}
    {r : Receiver}
    (h : Marked numPkts as p r)
    (hLe : 100 * ((closed as : Int) + 1) ≤ p)
    (hHi : p ≤ numPkts) :
    r.checkpoint.unavail =
      Verdict.alarms closed bad (numPkts / 100)
        (as ++ [p]) := by
  rcases checkpoint_spec r with ⟨_, _, _, _, hSum⟩
  have hClosed := closed_append_of_le hLe
  have hLoss := h.loss (by omega)
  have hJudged :
      (if 50 ≤
          checkpointLoss r.pktSeqArray 100
            r.seqCheckpoint then
        (1 : Int)
      else
        0) =
        ((if bad (as ++ [p]) (closed as) then 1 else 0 :
          Nat) : Int) := by
    rw [hLoss, bad]
    by_cases hMany : 50 ≤ lost (as ++ [p]) (closed as)
    · rw [if_pos (by exact_mod_cast hMany)]
      simp [hMany]
    · rw [if_neg (by exact_mod_cast hMany)]
      simp [hMany]
  rw [hSum, hJudged, h.unavail, h.last, h.checkpoint,
    (h.alarms_append hLe hHi).2]
  push_cast
  split at hClosed
  · next hSkip =>
      rw [if_pos (by omega : 100 * ((closed as : Int) + 1) +
        100 < p)]
      omega
  · next hStay =>
      rw [if_neg (by omega : ¬ 100 * ((closed as : Int) + 1) +
        100 < p)]
      omega

/- At a checkpoint the loop judges as specified. -/
theorem Marked.checkpointed
    {as : List Int}
    {p : Int}
    {r : Receiver}
    (h : Marked numPkts as p r)
    (hLe : 100 * ((closed as : Int) + 1) ≤ p)
    (hHi : p ≤ numPkts) :
    Tracks numPkts (as ++ [p]) r.checkpoint := by
  have hClosed := closed_append_of_le hLe
  have hFits := (h.alarms_append hLe hHi).1
  have hSum := h.unavail_checkpoint hLe hHi
  rcases checkpoint_spec r with
    ⟨hDone, hFlag, hMarks, hNext, _⟩
  rw [h.last, h.checkpoint] at hNext
  refine
    ⟨hDone.trans h.running, ?_, ?_, ?_, hSum, ?_, hFits⟩
  · intro _ i hLo hUp
    rw [hMarks]
    exact h.array i hLo hUp
  · intro hFirst
    rw [hFlag, h.ready] at hFirst
    cases hFirst
  · rw [hNext]
    split at hClosed
    · rw [if_pos (by omega)]
      omega
    · rw [if_neg (by omega)]
      omega
  · intro a hMem
    have hRange :
        a ≤ 100 * ((closed as : Int) + 1) ∨ a = p := by
      rcases List.mem_append.mp hMem with hPrev | hNew
      · exact Or.inl (h.range a hPrev)
      · exact Or.inr (List.mem_singleton.mp hNew)
    split at hClosed
    · omega
    · omega

end Receiver

end P4

end Cs2520

------------------------------------------------------------
-- Passes and Runs
------------------------------------------------------------

namespace Cs2520

namespace P4

namespace Receiver

open Lib

variable {numPkts : Nat}

/- A new packet in time, with the array already there. -/
theorem Tracks.count
    {as : List Int}
    {r : Receiver}
    (h : Tracks numPkts as r)
    (hReady : r.firstPktFlag = false)
    {p : Int}
    (hHi : p ≤ numPkts) :
    Tracks numPkts (as ++ [p])
      ({ r with lastSeq := p }.count true p) := by
  have hMarked := h.mark hReady p
  have hCheckpoint := h.checkpoint
  unfold Receiver.count
  dsimp only
  split
  · next hReached =>
      have hPast := hReached.2
      exact hMarked.checkpointed (by omega) hHi
  · next hNot =>
      apply hMarked.stay
      by_contra hPast
      exact hNot ⟨rfl, by omega⟩

/- The array is there before a packet is looked up. -/
def ready
    (numPkts : Int)
    (r : Receiver) : Receiver :=
  if r.firstPktFlag then r.firstPkt numPkts else r

/- The pass for a packet that is not the last. -/
theorem step_packet
    {r : Receiver}
    (hRunning : r.done = false)
    {e : Ev}
    (hSeq : e.pkt.seqNum ≠ -1)
    (verbose : Bool) :
    Receiver.step numPkts verbose r e =
      let q := r.ready numPkts
      if q.pktSeqArray e.pkt.seqNum ≠ 0 then
        { q with duplicates := q.duplicates + 1 }
      else if e.inTime then
        { q with lastSeq := e.pkt.seqNum }.count verbose
          e.pkt.seqNum
      else
        { q with lastSeq := e.pkt.seqNum } := by
  have hGoing : ¬ r.done = true := by
    rw [hRunning]
    exact Bool.false_ne_true
  rw [Receiver.step, if_neg hGoing, if_neg hSeq]
  rfl

/- The number -1 ends the loop and changes nothing else. -/
theorem step_end
    {r : Receiver}
    (hRunning : r.done = false)
    {e : Ev}
    (hEnd : e.pkt.seqNum = -1)
    (verbose : Bool) :
    Receiver.step numPkts verbose r e =
      { r with done := true } := by
  simp [Receiver.step, hRunning, hEnd]

/- Late packets and duplicates leave the verdicts alone. -/
theorem Tracks.congr
    {as : List Int}
    {r r' : Receiver}
    (h : Tracks numPkts as r)
    (hDone : r'.done = r.done)
    (hFlag : r'.firstPktFlag = r.firstPktFlag)
    (hArray : r'.pktSeqArray = r.pktSeqArray)
    (hCheckpoint : r'.seqCheckpoint = r.seqCheckpoint)
    (hUnavail : r'.unavail = r.unavail) :
    Tracks numPkts as r' where
  running := hDone.trans h.running
  array := by
    rw [hFlag, hArray]
    exact h.array
  none := by
    rw [hFlag]
    exact h.none
  checkpoint := hCheckpoint.trans h.checkpoint
  unavail := hUnavail.trans h.unavail
  range := h.range
  within := h.within

theorem Tracks.ready
    {as : List Int}
    {r : Receiver}
    (h : Tracks numPkts as r) :
    (r.ready numPkts).firstPktFlag = false ∧
      Tracks numPkts as (r.ready numPkts) := by
  unfold Receiver.ready
  split
  · next hFirst => exact ⟨rfl, h.firstPkt hFirst⟩
  · next hSet =>
      rw [Bool.not_eq_true] at hSet
      exact ⟨hSet, h⟩

/- One pass takes one packet into the arrivals. -/
theorem Tracks.step
    {es : List Ev}
    {r : Receiver}
    (h : Tracks numPkts (arrivals es) r)
    {e : Ev}
    (hLo : 1 ≤ e.pkt.seqNum)
    (hHi : e.pkt.seqNum ≤ numPkts) :
    Tracks numPkts (arrivals (es ++ [e]))
      (Receiver.step numPkts true r e) := by
  rcases h.ready with ⟨hReady, hTracks⟩
  have hSeen := hTracks.array hReady e.pkt.seqNum hLo hHi
  rw [step_packet h.running (by omega), arrivals_append]
  dsimp only
  by_cases hOld : e.pkt.seqNum ∈ arrivals es
  · rw [if_pos (hSeen.mpr hOld),
      if_neg (fun hNew => hNew.2 hOld)]
    exact hTracks.congr rfl rfl rfl rfl rfl
  · rw [if_neg (fun hMarked => hOld (hSeen.mp hMarked))]
    by_cases hTime : e.inTime = true
    · rw [if_pos hTime, if_pos ⟨hTime, hOld⟩]
      exact hTracks.count hReady hHi
    · rw [if_neg hTime, if_neg (fun hNew => hTime hNew.1)]
      exact hTracks.congr rfl rfl rfl rfl rfl

/- All packets of a run are taken into the arrivals. -/
theorem tracks_run
    (memory : Int → Int)
    {es : List Ev}
    (hSeqs :
      ∀ e ∈ es,
        1 ≤ e.pkt.seqNum ∧ e.pkt.seqNum ≤ numPkts) :
    Tracks numPkts (arrivals es)
      (run numPkts true (initial memory) es) := by
  induction es using List.reverseRecOn with
  | nil => exact tracks_initial numPkts memory
  | append_singleton es e ih =>
      have hLast :=
        hSeqs e
          (List.mem_append_right _ (List.mem_singleton_self e))
      have hRun :
          run numPkts true (initial memory) (es ++ [e]) =
            Receiver.step numPkts true
              (run numPkts true (initial memory) es) e :=
        List.foldl_concat _ _ _ _
      rw [hRun]
      apply Tracks.step ?_ hLast.1 hLast.2
      apply ih
      intro e' hMem
      exact hSeqs e' (List.mem_append_left _ hMem)

/- At the end of the loop the verdicts are in `unavail`. -/
theorem unavail_run_end
    (memory : Int → Int)
    {es : List Ev}
    (hSeqs :
      ∀ e ∈ es,
        1 ≤ e.pkt.seqNum ∧ e.pkt.seqNum ≤ numPkts)
    {fin : Ev}
    (hFin : fin.pkt.seqNum = -1) :
    (run numPkts true (initial memory)
        (es ++ [fin])).unavail =
      Verdict.alarms closed bad (numPkts / 100)
        (arrivals es) := by
  have hTracks := tracks_run memory hSeqs
  calc
    (run numPkts true (initial memory)
          (es ++ [fin])).unavail =
        (Receiver.step numPkts true
          (run numPkts true (initial memory) es)
          fin).unavail :=
      congrArg Receiver.unavail (List.foldl_concat _ _ _ _)
    _ = (run numPkts true (initial memory) es).unavail := by
      rw [step_end hTracks.running hFin]
    _ = _ := hTracks.unavail

/-
  `unavail` is the number of unavailable windows exactly when
  as many of them were never closed as windows were judged
  unavailable and completed by later packets.
-/
theorem unavail_eq_iff
    (memory : Int → Int)
    {es : List Ev}
    (hSeqs :
      ∀ e ∈ es,
        1 ≤ e.pkt.seqNum ∧ e.pkt.seqNum ≤ numPkts)
    {fin : Ev}
    (hFin : fin.pkt.seqNum = -1) :
    (run numPkts true (initial memory)
          (es ++ [fin])).unavail =
        ((List.range (numPkts / 100)).countP
          (unavailable es) : Nat) ↔
      Verdict.falseAlarms closed bad (numPkts / 100)
          (arrivals es) =
        Verdict.missed closed bad (numPkts / 100)
          (arrivals es) := by
  rw [unavail_run_end memory hSeqs hFin,
    unavailable_eq_bad, Int.ofNat_inj]
  exact lawful.alarms_eq_outages_iff _ _

/- Packet `seq`, received without any delay. -/
def prompt
    (seq : Int) : Ev where
  pkt := { seqNum := seq, originSec := 0, originUsec := 0 }
  t2 := .zero

/- All packets of one window, in their order. -/
def wholeWindow
    (k : Nat) : List Ev :=
  (List.range 100).map
    (fun j : Nat => prompt (100 * (k : Int) + j + 1))

/- The first window is lost and the second one arrives. -/
theorem unavail_secondWindow :
    (run 200 true (initial (fun _ => 0))
        (wholeWindow 1 ++ [prompt (-1)])).unavail =
      ((List.range (200 / 100)).countP
        (unavailable (wholeWindow 1)) : Nat) :=
  (@unavail_eq_iff 200 (fun _ => 0) _ (by decide +kernel)
    _ rfl).mpr (by decide +kernel)

/-
  The first of two windows arrives and the second one is
  lost: no packet closes it, and it is not counted.
-/
theorem last_window_ignored :
    ¬ ∀ (numPkts : Nat) (memory : Int → Int)
        (es : List Ev) (fin : Ev),
      0 < numPkts →
        100 ∣ numPkts →
          (∀ e ∈ es,
            1 ≤ e.pkt.seqNum ∧ e.pkt.seqNum ≤ numPkts) →
            fin.pkt.seqNum = -1 →
              (run numPkts true (initial memory)
                  (es ++ [fin])).unavail =
                ((List.range (numPkts / 100)).countP
                  (unavailable es) : Nat) := by
  intro hAll
  have hUnavail :=
    hAll 200 (fun _ => 0) (wholeWindow 0) (prompt (-1))
      (by decide) (by decide) (by decide +kernel) rfl
  revert hUnavail
  decide +kernel

end Receiver

end P4

end Cs2520
