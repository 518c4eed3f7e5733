import Cs2520.P2.Serving
import Cs2520.P2.Stream

/-
  The loop that slides the window of the real-time sender.

  The loop advances `head` over the slots that have expired.
  Its bound moves with `head`, so it ends only at a slot that
  has not expired. When the stream pauses there is none.

  Main declarations:
    * `Expired`
    * `slideLoop_full_turn`
    * `Slid`
    * `Stops`
    * `slideWindow_slid_iff`
    * `slides_well_iff`
    * `never_slid_after_pause`
-/

------------------------------------------------------------
-- The Loop
------------------------------------------------------------

namespace Cs2520

namespace P2

namespace RtSrv

open Lib Timeval

variable {A : Type}

/- The slot of number `i` has expired. -/
def Expired
    (now : Timeval)
    (s : RtSrv A)
    (i : Int) : Prop :=
  -1 <
    cmpTime now
      (timeradd (s.slide (i % s.windowSize)) s.halfrtt)

/- One turn further round the window is the same slot. -/
theorem Expired.congr_mod
    {now : Timeval}
    {s : RtSrv A}
    {i j : Int}
    (h : Expired now s i)
    (hMod : j % s.windowSize = i % s.windowSize) :
    Expired now s j := by
  rw [Expired, hMod]
  exact h

/-
  `n` passes are enough, and leave `head` at most at `bound`,
  exactly when one of the next `n` slots has not expired and
  its number is at most `bound`.
-/
theorem slideLoop_ends_iff
    {s : RtSrv A}
    (hRunning : s.hung = false)
    (n : Nat)
    (bound : Int) :
    (slideLoop n s).hung = false ∧
        (slideLoop n s).head ≤ bound ↔
      ∃ i,
        s.head ≤ i ∧
          i < s.head + n ∧
            i ≤ bound ∧ ¬ Expired s.now s i := by
  induction n generalizing s with
  | zero =>
      constructor
      · rintro ⟨hHung, _⟩
        cases hHung
      · rintro ⟨i, hLo, hHi, _⟩
        omega
  | succ n ih =>
      rw [slideLoop]
      split
      · next hExpired =>
          rw [ih (by exact hRunning)]
          constructor
          · rintro ⟨i, hLo, hHi, hBound, hLive⟩
            dsimp only at hLo hHi
            exact
              ⟨i, by omega, by omega, hBound, hLive⟩
          · rintro ⟨i, hLo, hHi, hBound, hLive⟩
            have hNe : i ≠ s.head := by
              rintro rfl
              exact hLive hExpired
            refine ⟨i, ?_, ?_, hBound, hLive⟩
            · dsimp only
              omega
            · dsimp only
              omega
      · next hLive =>
          constructor
          · rintro ⟨_, hBound⟩
            exact
              ⟨s.head, by omega, by omega, hBound, hLive⟩
          · rintro ⟨i, hLo, _, hBound, _⟩
            exact ⟨hRunning, by omega⟩

/- If a full turn does not end the loop, nothing does. -/
theorem slideLoop_full_turn
    {s : RtSrv A}
    (hRunning : s.hung = false)
    (hSize : 0 < s.windowSize)
    (hTurn :
      (slideLoop s.windowSize.toNat s).hung = true)
    (n : Nat) :
    (slideLoop n s).hung = true := by
  by_contra hEnds
  rcases
    (slideLoop_ends_iff hRunning n _).mp
      ⟨Bool.eq_false_of_not_eq_true hEnds,
        Int.le_refl _⟩ with
    ⟨i, hLo, _, _, hLive⟩
  -- the same slot comes up within the first turn
  let k := (i - s.head) % s.windowSize
  have hLow : 0 ≤ k := Int.emod_nonneg _ (by omega)
  have hHigh : k < s.windowSize :=
    Int.emod_lt_of_pos _ hSize
  have hSame :
      (s.head + k) % s.windowSize = i % s.windowSize := by
    rw [Int.add_emod_emod]
    congr 1
    omega
  have hOnce :=
    (slideLoop_ends_iff hRunning s.windowSize.toNat
      (s.head + k)).mpr
      ⟨s.head + k, by omega, by omega, by omega,
        fun h => hLive (h.congr_mod hSame.symm)⟩
  rw [hTurn] at hOnce
  cases hOnce.1

/- Still running, and every number behind `head` is sent. -/
structure Slid
    (s : RtSrv A) : Prop where
  running : s.hung = false
  head : s.head ≤ s.seq

/- The loop stops at the slot of a number up to `seq`. -/
def Stops
    (c : Clocks)
    (s : RtSrv A) : Prop :=
  0 < s.windowSize →
    ∃ i,
      s.head ≤ i ∧
        i < s.head + s.windowSize ∧
          i ≤ s.seq ∧ ¬ Expired c.slide.toTimeval s i

/- The loop ends well exactly when it stops in time. -/
theorem slideWindow_slid_iff
    {s : RtSrv A}
    (h : Slid s)
    (c : Clocks) :
    Slid (s.slideWindow c) ↔ s.Stops c := by
  have hSeq : (s.slideWindow c).seq = s.seq :=
    congrArg Books.seq (slideWindow_frame c s).books
  by_cases hSize : 0 < s.windowSize
  · have hLoop :
        s.slideWindow c =
          slideLoop s.windowSize.toNat
            { s with now := c.slide.toTimeval } :=
      if_pos hSize
    have hBound :
        s.head + (s.windowSize.toNat : Int) =
          s.head + s.windowSize := by
      omega
    have hEnds :=
      slideLoop_ends_iff
        (s := { s with now := c.slide.toTimeval })
        h.running s.windowSize.toNat s.seq
    rw [← hLoop, hBound] at hEnds
    constructor
    · intro hSlid _
      apply hEnds.mp
      exact ⟨hSlid.running, hSeq ▸ hSlid.head⟩
    · intro hStops
      rcases hEnds.mpr (hStops hSize) with ⟨hRun, hHead⟩
      exact ⟨hRun, hSeq.symm ▸ hHead⟩
  · have hSkip :
        s.slideWindow c =
          { s with now := c.slide.toTimeval } :=
      if_neg hSize
    constructor
    · intro _ hPos
      exact absurd hPos hSize
    · intro _
      rw [hSkip]
      exact ⟨h.running, h.head⟩

end RtSrv

end P2

end Cs2520

------------------------------------------------------------
-- What Comes Before the Loop
------------------------------------------------------------

namespace Cs2520

namespace P2

namespace RtSrv

open Lib

variable {A : Type}

/- What happens before the loop: only `seq` may grow. -/
structure Onward
    (s q : RtSrv A) : Prop where
  hung : q.hung = s.hung
  head : q.head = s.head
  seq : s.seq ≤ q.seq

theorem Onward.trans
    {s q t : RtSrv A}
    (h : Onward s q)
    (h' : Onward q t) :
    Onward s t where
  hung := h'.hung.trans h.hung
  head := h'.head.trans h.head
  seq := Int.le_trans h.seq h'.seq

theorem Onward.of_rfl
    (s : RtSrv A) :
    Onward s s :=
  ⟨rfl, rfl, Int.le_refl _⟩

theorem Onward.slid
    {s q : RtSrv A}
    (h : Onward s q)
    (hSlid : Slid s) :
    Slid q := by
  have hHead := hSlid.head
  have hSeq := h.seq
  constructor
  · rw [h.hung]
    exact hSlid.running
  · rw [h.head]
    omega

/- Answers to a receiver leave all three as they are. -/
theorem Onward.of_replied
    {s q : RtSrv A}
    (h : Replied s q) :
    Onward s q := by
  rcases h with ⟨_, _, _, _, _, rfl⟩
  exact ⟨rfl, rfl, Int.le_refl _⟩

theorem rcvPart_onward
    [DecidableEq A]
    (c : Clocks)
    (s : RtSrv A)
    (rcv : Option (A × Package)) :
    Onward s (s.rcvPart c rcv).1 :=
  .of_replied (rcvPart_replied c s rcv)

theorem onApp_onward
    (c : Clocks)
    (s : RtSrv A)
    (r : StreamPkt) :
    Onward s (s.onApp c r).1 := by
  have hSeq : s.seq ≤ s.seq + 1 := by omega
  unfold onApp
  dsimp only
  split
  · exact ⟨rfl, rfl, hSeq⟩
  · exact ⟨rfl, rfl, hSeq⟩

theorem waitPass_onward
    (s : RtSrv A)
    (e : Ev A) :
    Onward s (s.waitPass e).1 := by
  unfold waitPass
  split
  · exact .of_rfl s
  · dsimp only
    split
    · exact ⟨rfl, rfl, Int.le_refl _⟩
    · exact ⟨rfl, rfl, Int.le_refl _⟩

end RtSrv

end P2

end Cs2520

------------------------------------------------------------
-- Passes and Runs
------------------------------------------------------------

namespace Cs2520

namespace P2

namespace RtSrv

open Lib

variable {A : Type} [DecidableEq A]

/- The state in which a pass starts the loop, if it does. -/
def sliding
    (s : RtSrv A)
    (e : Ev A) : Option (RtSrv A) :=
  if s.exited ∨ s.hung ∨ ¬ s.request then
    none
  else
    match e.app, e.rcv with
    | some none, _ => none
    | some (some r), rcv =>
        some
          ((s.onApp e.clocks r).1.rcvPart e.clocks rcv).1
    | none, some rcv =>
        some (s.rcvPart e.clocks (some rcv)).1
    | none, none =>
        if s.sendCount = 0 then
          none
        else
          some (s.report e.clocks)

/-
  A pass either goes on without the loop, or starts the loop
  in the state `sliding` and ends with it.
-/
theorem step_sliding
    (s : RtSrv A)
    (e : Ev A) :
    match sliding s e with
    | none => Onward s (step s e).1
    | some q =>
        Onward s q ∧ (step s e).1 = q.slideWindow e.clocks
    := by
  unfold sliding step
  by_cases hStopped : s.exited ∨ s.hung
  · have hNot : s.exited ∨ s.hung ∨ ¬ s.request := by
      tauto
    rw [if_pos hNot, if_pos hStopped]
    exact .of_rfl s
  · rw [if_neg hStopped]
    by_cases hRequest : s.request = true
    · have hMain :
          ¬ (s.exited ∨ s.hung ∨ ¬ s.request) := by
        tauto
      rw [if_neg hMain, if_pos hRequest]
      rcases e with ⟨_ | _ | r, rcv, c⟩
      · cases rcv with
        | none =>
            dsimp only [mainPass]
            by_cases hCount : s.sendCount = 0
            · rw [if_pos hCount, if_pos hCount]
              exact .of_rfl s
            · rw [if_neg hCount, if_neg hCount]
              exact ⟨⟨rfl, rfl, Int.le_refl _⟩, rfl⟩
        | some packet =>
            exact ⟨rcvPart_onward c s _, rfl⟩
      · exact ⟨rfl, rfl, Int.le_refl _⟩
      · exact
          ⟨(onApp_onward c s r).trans
              (rcvPart_onward c _ rcv),
            rfl⟩
    · have hNot : s.exited ∨ s.hung ∨ ¬ s.request := by
        tauto
      rw [if_pos hNot, if_neg hRequest]
      exact waitPass_onward s e

/- One pass of the program. -/
theorem step_slid_iff
    {s : RtSrv A}
    (h : Slid s)
    (e : Ev A) :
    Slid (step s e).1 ↔
      ∀ q, sliding s e = some q → q.Stops e.clocks := by
  have hStep := step_sliding s e
  cases hSliding : sliding s e with
  | none =>
      rw [hSliding] at hStep
      constructor
      · intro _ q hQ
        cases hQ
      · intro _
        exact Onward.slid hStep h
  | some q =>
      rw [hSliding] at hStep
      rw [hStep.2, slideWindow_slid_iff (hStep.1.slid h)]
      simp

/-
  The state before the request loop, with any content of the
  memory that is allocated for the window.
-/
def allocated
    (addr : A)
    (rcvPkt : Package)
    (window : Int → Package)
    (slide : Int → Timeval) : RtSrv A :=
  { initial addr rcvPkt with
    window := window
    slide := slide }

/-
  In every state of a run the loop has ended with `head` at
  most `seq` if and only if each time it started, one of the
  numbers from `head` to `seq` in the window had a slot that
  had not expired.
-/
theorem slides_well_iff
    (addr : A)
    (rcvPkt : Package)
    (window : Int → Package)
    (slide : Int → Timeval)
    (es : List (Ev A)) :
    (∀ pre,
        pre <+: es →
          Slid
            (machine.run
              (allocated addr rcvPkt window slide) pre)) ↔
      ∀ p ∈
          machine.trace
            (allocated addr rcvPkt window slide) es,
        ∀ q,
          sliding p.1 p.2 = some q → q.Stops p.2.clocks
    := by
  apply
    machine.run_invariant_iff
      (fun s e =>
        ∀ q, sliding s e = some q → q.Stops e.clocks)
  · intro s e hSlid
    exact step_slid_iff hSlid e
  · exact ⟨rfl, Int.le_refl _⟩

/-
  A client with a window of 117 packets is accepted, one
  record is sent, and nothing happens until the report.
-/
def paused : List (Ev Bool) :=
  [{ app := none
     rcv := some (true, Stream.requestPkt)
     clocks := .ofSeconds 0 },
    { app := some (some .zeroed)
      rcv := none
      clocks := .ofSeconds 1 },
    { app := none
      rcv := none
      clocks := .ofSeconds 6 }]

/- In the pause every slot expires: the loop has no end. -/
theorem never_slid_after_pause :
    ¬ ∀ (window : Int → Package) (slide : Int → Timeval)
        (es : List (Ev Bool)),
      (machine.run
          (allocated false .zeroed window slide)
            es).request = true →
        Slid
          (machine.run
            (allocated false .zeroed window slide) es) := by
  intro hAll
  have hSlid :=
    hAll (fun _ => .zeroed) (fun _ => .zero) paused
      (by decide +kernel)
  have hHung :
      (machine.run
          (allocated false .zeroed (fun _ => .zeroed)
            (fun _ => .zero)) paused).hung = true := by
    decide +kernel
  rw [hSlid.running] at hHung
  cases hHung

end RtSrv

end P2

end Cs2520
