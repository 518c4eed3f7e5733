import Cs2520.Lib.Machine
import Cs2520.Lib.Missing
import Cs2520.P4.Availability

/-
  Which windows the availability measurement closes.

  A pass that judges a window closes it by its scan, and as
  many windows behind it as the skip formula adds. The
  closed windows of a run are 1, 2, and so on up to the one
  before the checkpoint, each of them once.

  Main declarations:
    * `scanned`
    * `closings`
    * `judged?`
    * `step_judged`
    * `Within.step`
    * `Within.run`
    * `windows_closed_once`
-/

------------------------------------------------------------
-- What a Pass Reads and Closes
------------------------------------------------------------

namespace Cs2520

namespace P4

namespace Receiver

open Lib

/- The indices that the loss loop reads from `i` downwards. -/
def scanned : Nat → Int → List Int
  | 0, _ => []
  | n + 1, i => i :: scanned n (i - 1)

/- How many windows the skip formula adds. -/
def skipped
    (r : Receiver) : Int :=
  if r.seqCheckpoint + 100 < r.lastSeq then
    (r.lastSeq - r.lastSeq % 100 + 100 -
      (r.seqCheckpoint + 100)) / 100
  else
    0

/-
  The windows that are closed at the checkpoint: the one that
  ends there, and the skipped ones after it. Window `w` ends
  with number `100 * w`.
-/
def closings
    (r : Receiver) : List Int :=
  Int.range (r.seqCheckpoint / 100)
    (r.seqCheckpoint / 100 + 1 + r.skipped)

/- The state in which a pass comes to the loss loop. -/
def judged?
    (numPkts : Int)
    (verbose : Bool)
    (r : Receiver)
    (e : Ev) : Option Receiver :=
  let seq := e.pkt.seqNum
  let q := r.ready numPkts
  if r.done = false ∧
      seq ≠ -1 ∧
      q.pktSeqArray seq = 0 ∧
      e.inTime = true ∧
      verbose = true ∧
      q.seqCheckpoint ≤ seq then
    some
      { q with
        lastSeq := seq
        recvCount := q.recvCount + 1
        pktSeqArray := Function.update q.pktSeqArray seq 1 }
  else
    none

/- The loop with the windows that it closes. -/
def closing
    (numPkts : Int)
    (verbose : Bool) : Machine Receiver Ev Int where
  step r e :=
    (step numPkts verbose r e,
      ((judged? numPkts verbose r e).map closings).getD [])

variable {numPkts : Nat}
variable {verbose : Bool}

/- The loss is a count over the indices that are read. -/
theorem checkpointLoss_eq_countP
    (array : Int → Int)
    (n : Nat)
    (i : Int) :
    checkpointLoss array n i =
      (scanned n i).countP (fun j => array j = 0) := by
  induction n generalizing i with
  | zero => rfl
  | succ n ih =>
      rw [checkpointLoss, ih, scanned, List.countP_cons]
      by_cases hLost : array i = 0
      · simp [hLost, Int.add_comm]
      · simp [hLost]

theorem mem_scanned
    {n : Nat}
    {i j : Int} :
    j ∈ scanned n i ↔ i - n < j ∧ j ≤ i := by
  induction n generalizing i with
  | zero =>
      simp only [scanned, List.not_mem_nil, false_iff]
      omega
  | succ n ih =>
      rw [scanned, List.mem_cons, ih]
      push_cast
      omega

/- Clearing the array touches neither checkpoint nor count. -/
theorem ready_frame
    (numPkts : Nat)
    (r : Receiver) :
    (r.ready numPkts).seqCheckpoint = r.seqCheckpoint ∧
      (r.ready numPkts).unavail = r.unavail := by
  unfold ready
  split
  · exact ⟨rfl, rfl⟩
  · exact ⟨rfl, rfl⟩

/- A pass that comes to the loss loop goes on from there. -/
theorem step_judged
    {r q : Receiver}
    {e : Ev}
    (hJudged : judged? numPkts verbose r e = some q) :
    step numPkts verbose r e = q.checkpoint ∧
      q.seqCheckpoint = r.seqCheckpoint ∧
      q.unavail = r.unavail ∧
      q.lastSeq = e.pkt.seqNum ∧
      r.seqCheckpoint ≤ e.pkt.seqNum := by
  rcases ready_frame numPkts r with
    ⟨hCheckpoint, hUnavail⟩
  rw [judged?] at hJudged
  split at hJudged
  · next hAll =>
      rcases hAll with
        ⟨hRunning, hSeq, hNew, hTime, hVerbose, hPast⟩
      cases hJudged
      refine
        ⟨?_, hCheckpoint, hUnavail, rfl,
          hCheckpoint.symm.trans_le hPast⟩
      rw [step_packet hRunning hSeq]
      simp only [hNew, ne_eq, not_true_eq_false, if_false,
        hTime, if_true, count]
      rw [if_pos ⟨hVerbose, hPast⟩]
  · cases hJudged

/- Any other pass leaves checkpoint and count alone. -/
theorem step_not_judged
    {r : Receiver}
    {e : Ev}
    (hNot : judged? numPkts verbose r e = none) :
    (step numPkts verbose r e).seqCheckpoint =
        r.seqCheckpoint ∧
      (step numPkts verbose r e).unavail = r.unavail := by
  have hFrame := ready_frame numPkts r
  by_cases hRunning : r.done = false
  · by_cases hSeq : e.pkt.seqNum = -1
    · rw [step_end hRunning hSeq]
      exact ⟨rfl, rfl⟩
    · rw [step_packet hRunning hSeq]
      dsimp only
      split
      · exact hFrame
      · next hNew =>
          split
          · next hTime =>
              rw [count]
              dsimp only
              split
              · next hPast =>
                  rw [judged?, if_pos
                    ⟨hRunning, hSeq, not_not.mp hNew, hTime,
                      hPast⟩] at hNot
                  cases hNot
              · exact hFrame
          · exact hFrame
  · rw [Bool.not_eq_false] at hRunning
    rw [step, if_pos hRunning]
    exact ⟨rfl, rfl⟩

end Receiver

end P4

end Cs2520

------------------------------------------------------------
-- The Closed Windows of a Run
------------------------------------------------------------

namespace Cs2520

namespace P4

namespace Receiver

open Lib

variable {numPkts : Nat}
variable {verbose : Bool}

/- What the loop keeps about its checkpoint and its count. -/
structure Within
    (numPkts : Nat)
    (r : Receiver) : Prop where
  lo : 100 ≤ r.seqCheckpoint
  even : r.seqCheckpoint % 100 = 0
  hi : r.seqCheckpoint - 100 ≤ numPkts
  unavail : r.unavail ≤ (r.seqCheckpoint - 100) / 100

/-
  A judged window ends at the checkpoint, and the checkpoint
  moves by as many windows as the pass closes.
-/
theorem checkpoint_closings
    {r q : Receiver}
    {e : Ev}
    (h : Within numPkts r)
    (hHi : e.pkt.seqNum ≤ numPkts)
    (hJudged : judged? numPkts verbose r e = some q) :
    Within numPkts (step numPkts verbose r e) ∧
      0 ≤ q.skipped ∧
      (step numPkts verbose r e).seqCheckpoint =
        r.seqCheckpoint + 100 * (1 + q.skipped) := by
  have hLo := h.lo
  have hEven := h.even
  have hUnavail := h.unavail
  rcases step_judged hJudged with
    ⟨hStep, hSame, hCount, hLast, hPast⟩
  rcases checkpoint_spec q with
    ⟨_, _, _, hNext, hSum⟩
  rw [hStep]
  have hOne :
      (if 50 ≤
          checkpointLoss q.pktSeqArray 100
            q.seqCheckpoint then
        (1 : Int)
      else
        0) ≤ 1 := by
    split
    · exact Int.le_refl 1
    · exact Int.zero_le_ofNat 1
  rw [hCount] at hSum
  rw [skipped]
  rw [hSame, hLast] at hNext hSum ⊢
  split at hNext
  · next hFar =>
      rw [if_pos hFar] at hSum ⊢
      refine ⟨⟨?_, ?_, ?_, ?_⟩, ?_, ?_⟩
      · omega
      · omega
      · omega
      · omega
      · omega
      · omega
  · next hNear =>
      rw [if_neg hNear] at hSum ⊢
      refine ⟨⟨?_, ?_, ?_, ?_⟩, Int.le_refl 0, ?_⟩
      · omega
      · omega
      · omega
      · omega
      · omega

theorem within_initial
    (numPkts : Nat)
    (memory : Int → Int) :
    Within numPkts (initial memory) where
  lo := Int.le_refl 100
  even := rfl
  hi := Int.natCast_nonneg numPkts
  unavail := Int.le_refl 0

/-
  After a pass the loop is still within its bounds, and the
  windows that the pass has closed are the next ones.
-/
theorem Within.step
    {r : Receiver}
    (h : Within numPkts r)
    (verbose : Bool)
    {e : Ev}
    (hHi : e.pkt.seqNum ≤ numPkts) :
    Within numPkts (step numPkts verbose r e) ∧
      r.seqCheckpoint ≤
        (Receiver.step numPkts verbose r e).seqCheckpoint ∧
      ((closing numPkts verbose).step r e).2 =
        Int.range (r.seqCheckpoint / 100)
          ((Receiver.step numPkts verbose r e).seqCheckpoint /
            100) := by
  rw [closing]
  dsimp only
  cases hJudged : judged? numPkts verbose r e with
  | some q =>
      rcases checkpoint_closings h hHi hJudged with
        ⟨hWithin, hSkipped, hNext⟩
      have hSame := (step_judged hJudged).2.1
      refine ⟨hWithin, by omega, ?_⟩
      rw [Option.map_some, Option.getD_some, closings, hSame]
      congr 1
      omega
  | none =>
      rcases step_not_judged hJudged with
        ⟨hCheckpoint, hUnavail⟩
      refine
        ⟨⟨hCheckpoint ▸ h.lo, hCheckpoint ▸ h.even,
            hCheckpoint ▸ h.hi, ?_⟩,
          hCheckpoint.ge, ?_⟩
      · rw [hCheckpoint, hUnavail]
        exact h.unavail
      · rw [hCheckpoint, range_nil (Int.le_refl _)]
        rfl

/- The machine takes the passes of the loop. -/
theorem closing_run
    (r : Receiver)
    (es : List Ev) :
    (closing numPkts verbose).run r es =
      run numPkts verbose r es := by
  induction es generalizing r with
  | nil => rfl
  | cons e es ih => exact ih _

theorem run_append
    (r : Receiver)
    (es es' : List Ev) :
    run numPkts verbose r (es ++ es') =
      run numPkts verbose (run numPkts verbose r es) es' :=
  List.foldl_append

/-
  Each closed window but the first is counted as unavailable
  by the skip formula.
-/
theorem unavail_closings
    {q : Receiver}
    (hSkipped : 0 ≤ q.skipped) :
    q.checkpoint.unavail =
      q.unavail +
        (if 50 ≤
            checkpointLoss q.pktSeqArray 100
              q.seqCheckpoint then
          1
        else
          0) +
        (q.closings.length - 1) := by
  have hLength : (q.closings.length : Int) = 1 + q.skipped := by
    rw [closings, length_range]
    omega
  rw [hLength, (checkpoint_spec q).2.2.2.2, skipped]
  omega

/-
  A run from within the bounds stays there, and closes one
  window after the other up to its last checkpoint.
-/
theorem Within.run
    {r : Receiver}
    (h : Within numPkts r)
    (verbose : Bool)
    {es : List Ev}
    (hSeqs : ∀ e ∈ es, e.pkt.seqNum ≤ numPkts) :
    Within numPkts (run numPkts verbose r es) ∧
      r.seqCheckpoint ≤
        (Receiver.run numPkts verbose r es).seqCheckpoint ∧
      (closing numPkts verbose).outputs r es =
        Int.range (r.seqCheckpoint / 100)
          ((Receiver.run numPkts verbose r es).seqCheckpoint /
            100) := by
  induction es generalizing r with
  | nil =>
      refine ⟨h, Int.le_refl _, ?_⟩
      exact (range_nil (Int.le_refl _)).symm
  | cons e es ih =>
      rcases h.step verbose (hSeqs e List.mem_cons_self) with
        ⟨hWithin, hLe, hFirst⟩
      rcases ih hWithin
          (fun e' hMem =>
            hSeqs e' (List.mem_cons_of_mem e hMem)) with
        ⟨hEnd, hUp, hRest⟩
      refine ⟨hEnd, hLe.trans hUp, ?_⟩
      rw [Machine.outputs, hFirst]
      refine (congrArg _ hRest).trans ?_
      exact (range_append (by omega) (by omega)).symm

/- Each pass of a run starts within the bounds. -/
theorem Within.trace
    {r : Receiver}
    (h : Within numPkts r)
    {es : List Ev}
    (hSeqs : ∀ e ∈ es, e.pkt.seqNum ≤ numPkts)
    {x : Receiver × Ev}
    (hPass : x ∈ (closing numPkts verbose).trace r es) :
    Within numPkts x.1 ∧ x.2.pkt.seqNum ≤ numPkts := by
  rcases (Machine.mem_trace_iff _ _ _ _ _).mp hPass with
    ⟨pre, post, rfl, hState⟩
  rw [hState, closing_run]
  refine ⟨(h.run verbose ?_).1, hSeqs x.2 (by simp)⟩
  intro e hMem
  exact hSeqs e (List.mem_append_left _ hMem)

/-
  The checkpoint is a positive multiple of 100 that never
  goes down, the losses are counted over indices inside of
  the array, no window is closed twice, and neither the count
  nor the closed windows exceed the windows of the run.
-/
theorem windows_closed_once
    (numPkts : Nat)
    (verbose : Bool)
    (memory : Int → Int)
    {es : List Ev}
    (hSeqs :
      ∀ e ∈ es,
        1 ≤ e.pkt.seqNum ∧ e.pkt.seqNum ≤ numPkts) :
    let M := closing numPkts verbose
    let r := initial memory
    let checkpoint := fun es' =>
      (run numPkts verbose r es').seqCheckpoint
    (∀ pre, pre <+: es →
        0 < checkpoint pre ∧
          100 ∣ checkpoint pre ∧
          checkpoint pre ≤ checkpoint es) ∧
      (∀ x ∈ M.trace r es, ∀ q,
        judged? numPkts verbose x.1 x.2 = some q →
          step numPkts verbose x.1 x.2 = q.checkpoint ∧
            checkpointLoss q.pktSeqArray 100
                q.seqCheckpoint =
              (scanned 100 q.seqCheckpoint).countP
                (fun i => q.pktSeqArray i = 0) ∧
            (∀ i ∈ scanned 100 q.seqCheckpoint,
              1 ≤ i ∧ i ≤ numPkts) ∧
            (M.step x.1 x.2).2 = q.closings ∧
            q.checkpoint.unavail =
              q.unavail +
                (if 50 ≤
                    checkpointLoss q.pktSeqArray 100
                      q.seqCheckpoint then
                  1
                else
                  0) +
                (q.closings.length - 1)) ∧
      (M.outputs r es).Nodup ∧
      (run numPkts verbose r es).unavail ≤
        (checkpoint es - 100) / 100 ∧
      (checkpoint es - 100) / 100 ≤ numPkts / 100 := by
  have hStart := within_initial numPkts memory
  have hHi : ∀ e ∈ es, e.pkt.seqNum ≤ numPkts :=
    fun e hMem => (hSeqs e hMem).2
  rcases hStart.run verbose hHi with
    ⟨hEnd, _, hOutputs⟩
  refine ⟨?_, ?_, ?_, hEnd.unavail, ?_⟩
  · rintro pre ⟨post, rfl⟩
    have hBefore : ∀ e ∈ pre, e.pkt.seqNum ≤ numPkts :=
      fun e hMem => hHi e (List.mem_append_left _ hMem)
    have hAfter : ∀ e ∈ post, e.pkt.seqNum ≤ numPkts :=
      fun e hMem => hHi e (List.mem_append_right _ hMem)
    rcases hStart.run verbose hBefore with ⟨hPre, _, _⟩
    have hUp := (hPre.run verbose hAfter).2.1
    have hLo := hPre.lo
    have hEven := hPre.even
    dsimp only
    rw [run_append]
    exact ⟨by omega, by omega, hUp⟩
  · intro x hPass q hJudged
    rcases hStart.trace hHi hPass with ⟨hWithin, hSeq⟩
    rcases step_judged hJudged with
      ⟨hStep, hSame, _, _, hPast⟩
    have hSkipped :=
      (checkpoint_closings hWithin hSeq hJudged).2.1
    have hClosed :
        ((closing numPkts verbose).step x.1 x.2).2 =
          q.closings := by
      rw [closing]
      dsimp only
      rw [hJudged]
      rfl
    refine
      ⟨hStep, checkpointLoss_eq_countP _ _ _, ?_, hClosed,
        unavail_closings hSkipped⟩
    intro i hScan
    have hLo := hWithin.lo
    rcases mem_scanned.mp hScan with ⟨hFrom, hTo⟩
    rw [hSame] at hFrom hTo
    push_cast at hFrom
    exact ⟨by omega, by omega⟩
  · rw [hOutputs]
    exact (range_increasing _ _).imp Int.ne_of_lt
  · have hBound := hEnd.hi
    dsimp only
    omega

/- The first window is lost, and the second one closes it. -/
theorem windows_closed_once_second :
    ((closing 200 true).outputs (initial (fun _ => 0))
        (wholeWindow 1)).Nodup :=
  (windows_closed_once 200 true (fun _ => 0)
    (by decide +kernel)).2.2.1

end Receiver

end P4

end Cs2520
