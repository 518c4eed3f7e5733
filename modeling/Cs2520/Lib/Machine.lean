import Mathlib.Data.List.Basic
import Mathlib.Tactic.Common

/-
  Deterministic input/output machines, their finite runs,
  and two machines joined by an unreliable network.

  A network keeps every message that was ever sent. A
  message may be delivered at any later moment, any number
  of times, or never, which covers loss, duplication, delay
  and reordering.

  Main declarations:
    * `Machine.run`
    * `Machine.trace`
    * `Machine.run_invariant`
    * `Machine.run_always`
    * `Machine.run_invariant_iff`
    * `Machine.trace_invariant`
    * `Machine.outputs_invariant`
    * `Machine.log_invariant`
    * `Link.act`
    * `Link.Reachable`
    * `Link.Reachable.invariant`
    * `Link.Reachable.simulates`
    * `Link.reachable_runActs`
    * `Link.runActs_right`
    * `Link.right_trace_invariant`
-/

------------------------------------------------------------
-- Machines and Runs
------------------------------------------------------------

namespace Cs2520

namespace Lib

/- A machine reacts to an input with a state and outputs. -/
structure Machine (σ ι ο : Type) where
  step : σ → ι → σ × List ο

namespace Machine

variable {σ ι ο : Type}

/- The state after a list of inputs. -/
def run
    (M : Machine σ ι ο) : σ → List ι → σ
  | s, [] => s
  | s, i :: is => M.run (M.step s i).1 is

/- Every input of a run with the state that received it. -/
def trace
    (M : Machine σ ι ο) : σ → List ι → List (σ × ι)
  | _, [] => []
  | s, i :: is => (s, i) :: M.trace (M.step s i).1 is

/- The outputs of a whole run. -/
def outputs
    (M : Machine σ ι ο) : σ → List ι → List ο
  | _, [] => []
  | s, i :: is =>
      (M.step s i).2 ++ M.outputs (M.step s i).1 is

variable (M : Machine σ ι ο)

@[simp] theorem run_nil (s : σ) : M.run s [] = s := rfl

@[simp] theorem run_cons
    (s : σ)
    (i : ι)
    (is : List ι) :
    M.run s (i :: is) = M.run (M.step s i).1 is := rfl

@[simp] theorem trace_nil (s : σ) : M.trace s [] = [] := rfl

@[simp] theorem trace_cons
    (s : σ)
    (i : ι)
    (is : List ι) :
    M.trace s (i :: is) =
      (s, i) :: M.trace (M.step s i).1 is := rfl

theorem run_append
    (s : σ)
    (is js : List ι) :
    M.run s (is ++ js) = M.run (M.run s is) js := by
  induction is generalizing s with
  | nil => rfl
  | cons i is ih => simp [ih]

theorem outputs_append
    (s : σ)
    (is js : List ι) :
    M.outputs s (is ++ js) =
      M.outputs s is ++ M.outputs (M.run s is) js := by
  induction is generalizing s with
  | nil => rfl
  | cons i is ih => simp [outputs, ih]

theorem trace_append
    (s : σ)
    (is js : List ι) :
    M.trace s (is ++ js) =
      M.trace s is ++ M.trace (M.run s is) js := by
  induction is generalizing s with
  | nil => rfl
  | cons i is ih => simp [ih]

/- The inputs of a trace are those of the run. -/
theorem trace_map_input
    {ρ : Type}
    (f : ι → ρ)
    (s : σ)
    (is : List ι) :
    (M.trace s is).map (fun e => f e.2) = is.map f := by
  induction is generalizing s with
  | nil => rfl
  | cons i is ih =>
      rw [trace_cons, List.map_cons, ih, List.map_cons]

/- Trace entries are exactly the points of the run. -/
theorem mem_trace_iff
    (s t : σ)
    (i : ι)
    (is : List ι) :
    (t, i) ∈ M.trace s is ↔
      ∃ pre post,
        is = pre ++ i :: post ∧ t = M.run s pre := by
  induction is generalizing s with
  | nil => simp
  | cons j is ih =>
      rw [trace_cons, List.mem_cons, ih]
      constructor
      · rintro (hHead | ⟨pre, post, rfl, rfl⟩)
        · cases hHead
          exact ⟨[], is, rfl, rfl⟩
        · exact ⟨j :: pre, post, rfl, rfl⟩
      · rintro ⟨pre, post, hSplit, rfl⟩
        cases pre with
        | nil =>
            simp only [List.nil_append, List.cons.injEq]
              at hSplit
            exact Or.inl (by simp [hSplit.1])
        | cons k pre =>
            simp only [List.cons_append, List.cons.injEq]
              at hSplit
            rcases hSplit with ⟨rfl, rfl⟩
            exact Or.inr ⟨pre, post, rfl, rfl⟩

/- Outputs are exactly those of the steps of the run. -/
theorem mem_outputs_iff
    (s : σ)
    (o : ο)
    (is : List ι) :
    o ∈ M.outputs s is ↔
      ∃ e ∈ M.trace s is, o ∈ (M.step e.1 e.2).2 := by
  induction is generalizing s with
  | nil => simp [outputs]
  | cons i is ih =>
      rw [outputs, List.mem_append, ih, trace_cons]
      simp only [List.mem_cons, exists_eq_or_imp]

/-
  A predicate that every guarded step keeps holds at the end
  of every run whose steps all meet the guard.
-/
theorem run_invariant
    {Inv : σ → Prop}
    (guard : σ → ι → Prop)
    (hStep :
      ∀ s i, Inv s → guard s i → Inv (M.step s i).1)
    {s : σ}
    {is : List ι}
    (hGuard : ∀ e ∈ M.trace s is, guard e.1 e.2)
    (hInit : Inv s) :
    Inv (M.run s is) := by
  induction is generalizing s with
  | nil => exact hInit
  | cons i is ih =>
      apply ih
      · intro e hMem
        exact hGuard e (List.mem_cons_of_mem _ hMem)
      · exact hStep s i hInit
          (hGuard (s, i) List.mem_cons_self)

/- A predicate that every step keeps holds after any run. -/
theorem run_always
    (Inv : σ → Prop)
    (hStep : ∀ s i, Inv s → Inv (M.step s i).1)
    {s : σ}
    (hInit : Inv s)
    (is : List ι) :
    Inv (M.run s is) :=
  M.run_invariant (fun _ _ => True)
    (fun s i hInv _ => hStep s i hInv)
    (fun _ _ => trivial) hInit

/-
  A predicate that exactly the guarded steps keep holds in
  every state of a run if and only if each step meets the
  guard.
-/
theorem run_invariant_iff
    {Inv : σ → Prop}
    (guard : σ → ι → Prop)
    (hStep :
      ∀ s i, Inv s → (Inv (M.step s i).1 ↔ guard s i))
    {s : σ}
    (hInit : Inv s)
    (is : List ι) :
    (∀ pre, pre <+: is → Inv (M.run s pre)) ↔
      ∀ e ∈ M.trace s is, guard e.1 e.2 := by
  constructor
  · rintro hRun ⟨t, i⟩ hMem
    rcases (M.mem_trace_iff s t i is).mp hMem with
      ⟨pre, post, rfl, rfl⟩
    have hNext : Inv (M.run s (pre ++ [i])) := by
      apply hRun
      exact ⟨post, by simp⟩
    rw [run_append] at hNext
    exact
      (hStep _ i (hRun pre (List.prefix_append _ _))).mp
        hNext
  · rintro hGuard pre ⟨post, rfl⟩
    apply M.run_invariant guard
      (fun s i hInv => (hStep s i hInv).mpr)
    · intro e hMem
      apply hGuard e
      rw [trace_append]
      exact List.mem_append_left _ hMem
    · exact hInit

/- A predicate that every step keeps holds along a trace. -/
theorem trace_invariant
    {Inv : σ → Prop}
    (hStep : ∀ s i, Inv s → Inv (M.step s i).1)
    {s : σ}
    {is : List ι}
    (hInit : Inv s) :
    ∀ e ∈ M.trace s is, Inv e.1 := by
  rintro ⟨t, i⟩ hMem
  rcases (M.mem_trace_iff s t i is).mp hMem with
    ⟨pre, post, _, rfl⟩
  exact M.run_always Inv hStep hInit pre

/-
  A relation between the state and all outputs so far that
  every step keeps holds at the end of every run.
-/
theorem outputs_invariant
    (Inv : σ → List ο → Prop)
    (hStep :
      ∀ s out i, Inv s out →
        Inv (M.step s i).1 (out ++ (M.step s i).2))
    {s : σ}
    (hInit : Inv s [])
    (is : List ι) :
    Inv (M.run s is) (M.outputs s is) := by
  have hFrom :
      ∀ out, Inv s out →
        Inv (M.run s is) (out ++ M.outputs s is) := by
    clear hInit
    induction is generalizing s with
    | nil =>
        intro out hOut
        rw [outputs, List.append_nil]
        exact hOut
    | cons i is ih =>
        intro out hOut
        rw [outputs, ← List.append_assoc]
        exact ih _ (hStep s out i hOut)
  exact hFrom [] hInit

/-
  So does a relation that also speaks of a log, to which a
  step adds at most one entry.
-/
theorem log_invariant
    {ρ : Type}
    (note? : σ × ι → Option ρ)
    (Inv : σ → List ο → List ρ → Prop)
    (hStep :
      ∀ s out log i, Inv s out log →
        Inv (M.step s i).1 (out ++ (M.step s i).2)
          (log ++ (note? (s, i)).toList))
    {s : σ}
    (hInit : Inv s [] [])
    (is : List ι) :
    Inv (M.run s is) (M.outputs s is)
      ((M.trace s is).filterMap note?) := by
  have hFrom :
      ∀ out log, Inv s out log →
        Inv (M.run s is) (out ++ M.outputs s is)
          (log ++ (M.trace s is).filterMap note?) := by
    clear hInit
    induction is generalizing s with
    | nil =>
        intro out log hInv
        rw [outputs, trace_nil, List.filterMap_nil,
          List.append_nil, List.append_nil]
        exact hInv
    | cons i is ih =>
        intro out log hInv
        have hRest := ih _ _ (hStep s out log i hInv)
        rw [outputs, trace_cons, ← List.append_assoc]
        cases hEntry : note? (s, i) with
        | none =>
            rw [hEntry, Option.toList_none,
              List.append_nil] at hRest
            rw [List.filterMap_cons_none hEntry]
            exact hRest
        | some x =>
            rw [hEntry, Option.toList_some,
              List.append_assoc log] at hRest
            rw [List.filterMap_cons_some hEntry]
            exact hRest
  exact hFrom [] [] hInit

end Machine

end Lib

end Cs2520

------------------------------------------------------------
-- Two Machines over an Unreliable Network
------------------------------------------------------------

namespace Cs2520

namespace Lib

/-
  One side of a connection: `consumes` names the message an
  input takes from the network, `emits` the messages among
  the outputs of a step.
-/
structure Endpoint (σ ι ο μ ν : Type)
    extends Machine σ ι ο where
  consumes : ι → Option μ
  emits : List ο → List ν

/- Both sides and every message sent so far. -/
structure Link (σ τ μ ν : Type) where
  left : σ
  right : τ
  toLeft : List μ
  toRight : List ν

namespace Link

variable {σ τ ι κ ο π μ ν : Type}
variable (L : Endpoint σ ι ο μ ν)
variable (R : Endpoint τ κ π ν μ)

/- One side takes one input. -/
def act
    (s : Link σ τ μ ν) : ι ⊕ κ → Link σ τ μ ν
  | .inl i =>
      let (left, out) := L.step s.left i
      { s with
        left := left
        toRight := s.toRight ++ L.emits out }
  | .inr k =>
      let (right, out) := R.step s.right k
      { s with
        right := right
        toLeft := s.toLeft ++ R.emits out }

/- An input may only take a message that was sent. -/
def Enabled
    (s : Link σ τ μ ν) : ι ⊕ κ → Prop
  | .inl i => ∀ m ∈ L.consumes i, m ∈ s.toLeft
  | .inr k => ∀ m ∈ R.consumes k, m ∈ s.toRight

instance
    [DecidableEq μ]
    [DecidableEq ν]
    (s : Link σ τ μ ν)
    (a : ι ⊕ κ) :
    Decidable (Enabled L R s a) := by
  cases a <;> unfold Enabled <;> infer_instance

/-
  The states that runs reach from a start state when every
  step meets the guard.
-/
inductive Reachable
    (start : Link σ τ μ ν → Prop)
    (guard : Link σ τ μ ν → ι ⊕ κ → Prop) :
    Link σ τ μ ν → Prop where
  | start {s} : start s → Reachable start guard s
  | step {s a} :
      Reachable start guard s →
      Enabled L R s a →
      guard s a →
      Reachable start guard (s.act L R a)

variable {L R}
variable {start : Link σ τ μ ν → Prop}
variable {guard : Link σ τ μ ν → ι ⊕ κ → Prop}

/- Induction over runs: the start and one step suffice. -/
theorem Reachable.invariant
    (Inv : Link σ τ μ ν → Prop)
    {s : Link σ τ μ ν}
    (hReach : Reachable L R start guard s)
    (hStart : ∀ s, start s → Inv s)
    (hStep :
      ∀ s a, Inv s → Enabled L R s a → guard s a →
        Inv (s.act L R a)) :
    Inv s := by
  induction hReach with
  | start hInit => exact hStart _ hInit
  | step _ hEnabled hGuard ih =>
      exact hStep _ _ ih hEnabled hGuard

/-
  Runs of one link are runs of another when a map of the
  states takes each step of the one to a step of the other.
-/
theorem Reachable.simulates
    {σ' τ' ι' κ' ο' π' : Type}
    {L' : Endpoint σ' ι' ο' μ ν}
    {R' : Endpoint τ' κ' π' ν μ}
    {start' : Link σ' τ' μ ν → Prop}
    {guard' : Link σ' τ' μ ν → ι' ⊕ κ' → Prop}
    {s : Link σ τ μ ν}
    (hReach : Reachable L R start guard s)
    (f : Link σ τ μ ν → Link σ' τ' μ ν)
    (hStart : ∀ s, start s → start' (f s))
    (hStep :
      ∀ s a, Enabled L R s a → guard s a →
        ∃ a',
          Enabled L' R' (f s) a' ∧
            guard' (f s) a' ∧
            f (s.act L R a) = (f s).act L' R' a') :
    Reachable L' R' start' guard' (f s) := by
  induction hReach with
  | start hInit => exact .start (hStart _ hInit)
  | step _ hEnabled hGuard ih =>
      rcases hStep _ _ hEnabled hGuard with
        ⟨a', hEnabled', hGuard', hAct⟩
      rw [hAct]
      exact .step ih hEnabled' hGuard'

variable (L R)

/- The state after a list of inputs to either side. -/
def runActs :
    Link σ τ μ ν → List (ι ⊕ κ) → Link σ τ μ ν
  | s, [] => s
  | s, a :: as => runActs (s.act L R a) as

/- Each input of the list is enabled and meets the guard. -/
def Allowed
    (guard : Link σ τ μ ν → ι ⊕ κ → Prop) :
    Link σ τ μ ν → List (ι ⊕ κ) → Prop
  | _, [] => True
  | s, a :: as =>
      (Enabled L R s a ∧ guard s a) ∧
        Allowed guard (s.act L R a) as

instance decidableAllowed
    [DecidableEq μ]
    [DecidableEq ν]
    (guard : Link σ τ μ ν → ι ⊕ κ → Prop)
    [∀ s a, Decidable (guard s a)]
    (s : Link σ τ μ ν)
    (as : List (ι ⊕ κ)) :
    Decidable (Allowed L R guard s as) :=
  match as with
  | [] => isTrue trivial
  | a :: as =>
      have := decidableAllowed guard (s.act L R a) as
      inferInstanceAs (Decidable (_ ∧ _))

variable {L R}

/- An allowed list of inputs leads to a reachable state. -/
theorem reachable_runActs
    {s : Link σ τ μ ν}
    (hReach : Reachable L R start guard s)
    {as : List (ι ⊕ κ)}
    (hAllowed : Allowed L R guard s as) :
    Reachable L R start guard (runActs L R s as) := by
  induction as generalizing s with
  | nil => exact hReach
  | cons a as ih =>
      exact ih
        (.step hReach hAllowed.1.1 hAllowed.1.2)
        hAllowed.2

/- The right side runs on the inputs that are its own. -/
theorem runActs_right
    (s : Link σ τ μ ν)
    (as : List (ι ⊕ κ)) :
    (runActs L R s as).right =
      R.run s.right (as.filterMap Sum.getRight?) := by
  induction as generalizing s with
  | nil => rfl
  | cons a as ih =>
      rw [runActs, ih]
      cases a with
      | inl i => rfl
      | inr k => rfl

/-
  The right side takes each input of an allowed list in a
  state that keeps the invariant and enables the input.
-/
theorem right_trace_invariant
    {Inv : Link σ τ μ ν → Prop}
    (hStep :
      ∀ s a, Inv s → Enabled L R s a → guard s a →
        Inv (s.act L R a))
    {s : Link σ τ μ ν}
    (hInit : Inv s)
    {as : List (ι ⊕ κ)}
    (hAllowed : Allowed L R guard s as) :
    ∀ x ∈ R.trace s.right (as.filterMap Sum.getRight?),
      ∃ t,
        Inv t ∧
          Enabled L R t (.inr x.2) ∧
          x.1 = t.right := by
  induction as generalizing s with
  | nil =>
      intro x hMem
      cases hMem
  | cons a as ih =>
      rcases hAllowed with ⟨⟨hEnabled, hGuard⟩, hRest⟩
      have hNext :=
        ih (hStep s a hInit hEnabled hGuard) hRest
      cases a with
      | inl i => exact hNext
      | inr k =>
          intro x hMem
          rcases List.mem_cons.mp hMem with rfl | hLater
          · exact ⟨s, hInit, hEnabled, rfl⟩
          · exact hNext x hLater

end Link

end Lib

end Cs2520
