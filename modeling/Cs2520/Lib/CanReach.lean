import Cs2520.Lib.Machine

/-
  What a link can still reach.

  A state can reach a goal when some list of allowed inputs
  leads to it. This is proved from steps towards the goal, or
  from progress of a measure; it is refuted by an invariant
  that excludes the goal.

  Main declarations:
    * `Link.CanReach`
    * `Link.CanReach.after`
    * `Link.CanReach.trans`
    * `Link.canReach_of_measure`
    * `Link.not_canReach_of_invariant`
-/

------------------------------------------------------------
-- Reaching a Goal
------------------------------------------------------------

namespace Cs2520

namespace Lib

namespace Link

variable {σ τ ι κ ο π μ ν : Type}
variable (L : Endpoint σ ι ο μ ν)
variable (R : Endpoint τ κ π ν μ)
variable (guard : Link σ τ μ ν → ι ⊕ κ → Prop)

/- Some allowed inputs lead from the state to the goal. -/
def CanReach
    (goal : Link σ τ μ ν → Prop)
    (s : Link σ τ μ ν) : Prop :=
  ∃ as, Allowed L R guard s as ∧ goal (runActs L R s as)

variable {L R guard}
variable {goal mid : Link σ τ μ ν → Prop}

theorem runActs_append
    (s : Link σ τ μ ν)
    (as bs : List (ι ⊕ κ)) :
    runActs L R s (as ++ bs) =
      runActs L R (runActs L R s as) bs := by
  induction as generalizing s with
  | nil => rfl
  | cons a as ih => exact ih (s.act L R a)

theorem Allowed.append
    {s : Link σ τ μ ν}
    {as bs : List (ι ⊕ κ)}
    (h : Allowed L R guard s as)
    (hNext : Allowed L R guard (runActs L R s as) bs) :
    Allowed L R guard s (as ++ bs) := by
  induction as generalizing s with
  | nil => exact hNext
  | cons a as ih => exact ⟨h.1, ih h.2 hNext⟩

theorem CanReach.now
    {s : Link σ τ μ ν}
    (h : goal s) :
    CanReach L R guard goal s :=
  ⟨[], trivial, h⟩

/- What can be reached after allowed inputs can be now. -/
theorem CanReach.after
    {s : Link σ τ μ ν}
    {as : List (ι ⊕ κ)}
    (hAllowed : Allowed L R guard s as)
    (h : CanReach L R guard goal (runActs L R s as)) :
    CanReach L R guard goal s := by
  rcases h with ⟨bs, hNext, hGoal⟩
  refine ⟨as ++ bs, hAllowed.append hNext, ?_⟩
  rw [runActs_append]
  exact hGoal

theorem CanReach.step
    {s : Link σ τ μ ν}
    {a : ι ⊕ κ}
    (hEnabled : Enabled L R s a)
    (hGuard : guard s a)
    (h : CanReach L R guard goal (s.act L R a)) :
    CanReach L R guard goal s := by
  have hAllowed : Allowed L R guard s [a] :=
    ⟨⟨hEnabled, hGuard⟩, trivial⟩
  exact .after hAllowed h

theorem CanReach.trans
    {s : Link σ τ μ ν}
    (h : CanReach L R guard mid s)
    (hNext : ∀ t, mid t → CanReach L R guard goal t) :
    CanReach L R guard goal s := by
  rcases h with ⟨as, hAllowed, hMid⟩
  exact .after hAllowed (hNext _ hMid)

theorem CanReach.mono
    {s : Link σ τ μ ν}
    (h : CanReach L R guard mid s)
    (hGoal : ∀ t, mid t → goal t) :
    CanReach L R guard goal s :=
  h.trans (fun t hMid => .now (hGoal t hMid))

/-
  If the goal or a state of smaller measure can always be
  reached, the goal can be.
-/
theorem canReach_of_measure
    (measure : Link σ τ μ ν → Nat)
    (hRound :
      ∀ s, mid s →
        CanReach L R guard
          (fun t => goal t ∨ (mid t ∧ measure t < measure s))
          s)
    {s : Link σ τ μ ν}
    (h : mid s) :
    CanReach L R guard goal s := by
  induction hSize : measure s using Nat.strongRecOn
    generalizing s with
  | ind n ih =>
      apply (hRound s h).trans
      rintro t (hGoal | ⟨hMid, hLess⟩)
      · exact .now hGoal
      · exact ih (measure t) (hSize ▸ hLess) hMid rfl

/- An invariant that excludes the goal keeps it away. -/
theorem not_canReach_of_invariant
    (Inv : Link σ τ μ ν → Prop)
    (hStep :
      ∀ s a, Inv s → Enabled L R s a → guard s a →
        Inv (s.act L R a))
    (hNot : ∀ s, Inv s → ¬ goal s)
    {s : Link σ τ μ ν}
    (h : Inv s) :
    ¬ CanReach L R guard goal s := by
  rintro ⟨as, hAllowed, hGoal⟩
  induction as generalizing s with
  | nil => exact hNot s h hGoal
  | cons a as ih =>
      exact
        ih (hStep s a h hAllowed.1.1 hAllowed.1.2)
          hAllowed.2 hGoal

end Link

end Lib

end Cs2520
