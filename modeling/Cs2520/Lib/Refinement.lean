import Cs2520.Lib.Machine

/-
  One machine does what another one does.

  Every step of the first machine is a step of the second,
  on an input that may depend on the state of the first. What
  is seen of the outputs is the same in both.

  Main declarations:
    * `Machine.Refines`
    * `Machine.Refines.run`
    * `Machine.Refines.outputs`
    * `Machine.Refines.trace`
-/

------------------------------------------------------------
-- Refinement
------------------------------------------------------------

namespace Cs2520

namespace Lib

namespace Machine

variable {σ ι ο τ κ π ω ρ : Type}

/-
  A step of `M` on `i` in state `s` is a step of `N` on
  `label (s, i)`, and both let the same be seen.
-/
structure Refines
    (M : Machine σ ι ο)
    (N : Machine τ κ π)
    (rel : σ → τ → Prop)
    (label : σ × ι → κ)
    (seen : ο → Option ω)
    (shown : π → Option ω) : Prop where
  step :
    ∀ s t i, rel s t →
      rel (M.step s i).1 (N.step t (label (s, i))).1
  out :
    ∀ s t i, rel s t →
      (M.step s i).2.filterMap seen =
        (N.step t (label (s, i))).2.filterMap shown

namespace Refines

variable {M : Machine σ ι ο}
variable {N : Machine τ κ π}
variable {rel : σ → τ → Prop}
variable {label : σ × ι → κ}
variable {seen : ο → Option ω}
variable {shown : π → Option ω}

/- The states stay related along a whole run. -/
theorem run
    (h : Refines M N rel label seen shown)
    {s : σ}
    {t : τ}
    (hRel : rel s t)
    (is : List ι) :
    rel (M.run s is)
      (N.run t ((M.trace s is).map label)) := by
  induction is generalizing s t with
  | nil => exact hRel
  | cons i is ih => exact ih (h.step s t i hRel)

/- The same is seen of both runs. -/
theorem outputs
    (h : Refines M N rel label seen shown)
    {s : σ}
    {t : τ}
    (hRel : rel s t)
    (is : List ι) :
    (M.outputs s is).filterMap seen =
      (N.outputs t
        ((M.trace s is).map label)).filterMap shown := by
  induction is generalizing s t with
  | nil => rfl
  | cons i is ih =>
      rw [trace_cons, List.map_cons, Machine.outputs,
        Machine.outputs, List.filterMap_append,
        List.filterMap_append, h.out s t i hRel,
        ih (h.step s t i hRel)]

/- What both make of a step, both make of the whole trace. -/
theorem trace
    (h : Refines M N rel label seen shown)
    {f : σ × ι → Option ρ}
    {g : τ × κ → Option ρ}
    (hSame :
      ∀ s t i, rel s t → f (s, i) = g (t, label (s, i)))
    {s : σ}
    {t : τ}
    (hRel : rel s t)
    (is : List ι) :
    (M.trace s is).filterMap f =
      (N.trace t ((M.trace s is).map label)).filterMap g
    := by
  induction is generalizing s t with
  | nil => rfl
  | cons i is ih =>
      rw [trace_cons, List.map_cons, trace_cons,
        List.filterMap_cons, List.filterMap_cons,
        hSame s t i hRel, ih (h.step s t i hRel)]

end Refines

end Machine

end Lib

end Cs2520
