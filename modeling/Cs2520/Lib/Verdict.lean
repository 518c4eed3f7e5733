import Mathlib.Data.List.Count
import Mathlib.Data.List.Infix

/-
  Periods that are judged once, when they are closed.

  Observations arrive one by one. `closed` counts the periods
  that are closed after some observations, and `bad` tells
  whether a period looks bad by then. Each period is judged
  by the observations up to the one that closes it, so the
  verdicts differ from the final facts in two ways: a period
  is repaired after it was judged, or it is never closed.

  Main declarations:
    * `judgedAt`
    * `alarms`
    * `outages`
    * `falseAlarms`
    * `missed`
    * `Lawful`
    * `Lawful.alarms_append`
    * `Lawful.alarms_eq_outages_iff`
-/

------------------------------------------------------------
-- Verdicts
------------------------------------------------------------

namespace Cs2520

namespace Lib

namespace Verdict

variable {α : Type}
variable (closed : List α → Nat)
variable (bad : List α → Nat → Bool)

/- The first observations that close period `k`. -/
def judgedAt
    (as : List α)
    (k : Nat) : Option (List α) :=
  as.inits.find? (fun pre => decide (k < closed pre))

/- Period `k` looked bad when it was closed. -/
def alarmed
    (as : List α)
    (k : Nat) : Bool :=
  (judgedAt closed as k).any (fun pre => bad pre k)

/- How many of the first `n` periods were judged bad. -/
def alarms
    (n : Nat)
    (as : List α) : Nat :=
  (List.range n).countP (alarmed closed bad as)

/- How many of the first `n` periods are bad in the end. -/
def outages
    (n : Nat)
    (as : List α) : Nat :=
  (List.range n).countP (bad as)

/- Periods that were judged bad and then repaired. -/
def falseAlarms
    (n : Nat)
    (as : List α) : Nat :=
  (List.range n).countP
    (fun k => alarmed closed bad as k && !bad as k)

/- Bad periods that were never closed. -/
def missed
    (n : Nat)
    (as : List α) : Nat :=
  (List.range n).countP
    (fun k => bad as k && !decide (k < closed as))

/- Observations only close and only repair periods. -/
structure Lawful : Prop where
  start : closed [] = 0
  closes : ∀ as a, closed as ≤ closed (as ++ [a])
  repairs :
    ∀ as a k, bad (as ++ [a]) k = true → bad as k = true

end Verdict

end Lib

end Cs2520

------------------------------------------------------------
-- One More Observation
------------------------------------------------------------

namespace Cs2520

namespace Lib

namespace Verdict

variable {α : Type}
variable {closed : List α → Nat}
variable {bad : List α → Nat → Bool}

/- Only periods still open are judged now. -/
theorem judgedAt_append
    (as : List α)
    (a : α)
    (k : Nat) :
    judgedAt closed (as ++ [a]) k =
      (judgedAt closed as k).or
        (if k < closed (as ++ [a]) then
          some (as ++ [a])
        else
          none) := by
  have hInits :
      (as ++ [a]).inits = as.inits ++ [as ++ [a]] := by
    rw [List.inits_append]
    rfl
  rw [judgedAt, hInits, List.find?_append]
  congr 1
  by_cases hClosed : k < closed (as ++ [a])
  · rw [if_pos hClosed]
    exact List.find?_cons_of_pos (by simpa using hClosed)
  · rw [if_neg hClosed]
    exact
      List.find?_eq_none.mpr (by simpa using hClosed)

/- The periods that are judged are those that are closed. -/
theorem Lawful.judgedAt_eq_none_iff
    (h : Lawful closed bad)
    (as : List α)
    (k : Nat) :
    judgedAt closed as k = none ↔ closed as ≤ k := by
  induction as using List.reverseRecOn with
  | nil =>
      have hStart := h.start
      simp [judgedAt, hStart]
  | append_singleton as a ih =>
      have hMono := h.closes as a
      rw [judgedAt_append, Option.or_eq_none_iff, ih]
      constructor
      · rintro ⟨_, hOpen⟩
        split at hOpen
        · cases hOpen
        · omega
      · intro hOpen
        refine ⟨by omega, ?_⟩
        rw [if_neg (by omega)]

/- A closed period keeps its verdict. -/
theorem Lawful.alarmed_append_of_lt
    (h : Lawful closed bad)
    {as : List α}
    (a : α)
    {k : Nat}
    (hClosed : k < closed as) :
    alarmed closed bad (as ++ [a]) k =
      alarmed closed bad as k := by
  have hJudged : judgedAt closed as k ≠ none := by
    rw [Ne, h.judgedAt_eq_none_iff]
    omega
  rcases Option.ne_none_iff_exists'.mp hJudged with
    ⟨pre, hPre⟩
  rw [alarmed, alarmed, judgedAt_append, hPre]
  rfl

/- A period that is closed now is judged by what is known. -/
theorem Lawful.alarmed_append_of_le
    (h : Lawful closed bad)
    {as : List α}
    (a : α)
    {k : Nat}
    (hOpen : closed as ≤ k)
    (hClosed : k < closed (as ++ [a])) :
    alarmed closed bad (as ++ [a]) k = bad (as ++ [a]) k
    := by
  rw [alarmed, judgedAt_append,
    (h.judgedAt_eq_none_iff as k).mpr hOpen, if_pos hClosed]
  rfl

theorem Lawful.alarmed_of_open
    (h : Lawful closed bad)
    {as : List α}
    {k : Nat}
    (hOpen : closed as ≤ k) :
    alarmed closed bad as k = false := by
  rw [alarmed, (h.judgedAt_eq_none_iff as k).mpr hOpen]
  rfl

/- A closed period that is bad in the end was judged bad. -/
theorem Lawful.alarmed_of_bad
    (h : Lawful closed bad)
    {as : List α}
    {k : Nat}
    (hBad : bad as k = true)
    (hClosed : k < closed as) :
    alarmed closed bad as k = true := by
  induction as using List.reverseRecOn with
  | nil =>
      rw [h.start] at hClosed
      cases hClosed
  | append_singleton as a ih =>
      rcases Nat.lt_or_ge k (closed as) with hOld | hNew
      · rw [h.alarmed_append_of_lt a hOld]
        exact ih (h.repairs as a k hBad) hOld
      · rw [h.alarmed_append_of_le a hNew hClosed]
        exact hBad

end Verdict

end Lib

end Cs2520

------------------------------------------------------------
-- Counting Verdicts
------------------------------------------------------------

namespace Cs2520

namespace Lib

namespace Verdict

variable {α : Type}
variable {closed : List α → Nat}
variable {bad : List α → Nat → Bool}

/- Numbers from `c` on that do not count. -/
theorem countP_range_of_false
    {p : Nat → Bool}
    {c n : Nat}
    (hNone : ∀ k, c ≤ k → p k = false)
    (hLe : c ≤ n) :
    (List.range n).countP p = (List.range c).countP p := by
  induction n, hLe using Nat.le_induction with
  | base => rfl
  | succ n hLe ih =>
      rw [List.range_succ, List.countP_append, ih,
        List.countP_singleton, hNone n hLe]
      rfl

/- Numbers from `c` on that all count. -/
theorem countP_range_of_true
    {p : Nat → Bool}
    {c n : Nat}
    (hAll : ∀ k, c ≤ k → k < n → p k = true)
    (hLe : c ≤ n) :
    (List.range n).countP p =
      (List.range c).countP p + (n - c) := by
  induction n, hLe using Nat.le_induction with
  | base => rw [Nat.sub_self, Nat.add_zero]
  | succ n hLe ih =>
      rw [List.range_succ, List.countP_append,
        ih (fun k hLo hHi => hAll k hLo (by omega)),
        List.countP_singleton, hAll n hLe (Nat.lt_succ_self n)]
      simp only [if_true]
      omega

/-
  An observation that closes periods adds those that look bad
  now: the first one by its own verdict, and the others all,
  when they are known to be bad.
-/
theorem Lawful.alarms_append
    (h : Lawful closed bad)
    {as : List α}
    {a : α}
    {n : Nat}
    (hCloses : closed as < closed (as ++ [a]))
    (hSkipped :
      ∀ k, closed as < k → k < closed (as ++ [a]) →
        bad (as ++ [a]) k = true)
    (hRange : closed (as ++ [a]) ≤ n) :
    alarms closed bad n (as ++ [a]) =
      alarms closed bad n as +
        (if bad (as ++ [a]) (closed as) then 1 else 0) +
        (closed (as ++ [a]) - (closed as + 1)) := by
  have hOld :
      alarms closed bad n as =
        (List.range (closed as)).countP
          (alarmed closed bad as) :=
    countP_range_of_false
      (fun k hOpen => h.alarmed_of_open hOpen) (by omega)
  have hSame :
      (List.range (closed as)).countP
          (alarmed closed bad (as ++ [a])) =
        (List.range (closed as)).countP
          (alarmed closed bad as) := by
    apply List.countP_congr
    intro k hMem
    rw [h.alarmed_append_of_lt a (List.mem_range.mp hMem)]
  have hFirst :=
    h.alarmed_append_of_le a (le_refl (closed as)) hCloses
  calc
    alarms closed bad n (as ++ [a]) =
        (List.range (closed (as ++ [a]))).countP
          (alarmed closed bad (as ++ [a])) :=
      countP_range_of_false
        (fun k hOpen => h.alarmed_of_open hOpen) hRange
    _ = (List.range (closed as + 1)).countP
          (alarmed closed bad (as ++ [a])) +
          (closed (as ++ [a]) - (closed as + 1)) := by
      apply countP_range_of_true
      · intro k hLo hHi
        rw [h.alarmed_append_of_le a (by omega) hHi]
        exact hSkipped k hLo hHi
      · exact hCloses
    _ = _ := by
      rw [List.range_succ, List.countP_append, hSame,
        List.countP_singleton, hFirst, hOld]

/- An observation that closes no period adds no verdict. -/
theorem Lawful.alarms_append_of_eq
    (h : Lawful closed bad)
    {as : List α}
    {a : α}
    (n : Nat)
    (hSame : closed (as ++ [a]) = closed as) :
    alarms closed bad n (as ++ [a]) = alarms closed bad n as
    := by
  apply List.countP_congr
  intro k _
  rcases Nat.lt_or_ge k (closed as) with hClosed | hOpen
  · rw [h.alarmed_append_of_lt a hClosed]
  · rw [h.alarmed_of_open hOpen,
      h.alarmed_of_open (by omega)]

/-
  The verdicts agree with the final facts in number exactly
  when as many bad periods stayed open as were repaired late.
-/
theorem Lawful.alarms_eq_outages_iff
    (h : Lawful closed bad)
    (n : Nat)
    (as : List α) :
    alarms closed bad n as = outages bad n as ↔
      falseAlarms closed bad n as = missed closed bad n as
    := by
  have hAlarms :
      alarms closed bad n as =
        (List.range n).countP
            (fun k => alarmed closed bad as k && bad as k) +
          falseAlarms closed bad n as := by
    rw [alarms,
      List.countP_eq_countP_filter_add _ _ (bad as),
      List.countP_filter, List.countP_filter]
    rfl
  have hOutages :
      outages bad n as =
        (List.range n).countP
            (fun k => bad as k && decide (k < closed as)) +
          missed closed bad n as := by
    rw [outages,
      List.countP_eq_countP_filter_add _ _
        (fun k => decide (k < closed as)),
      List.countP_filter, List.countP_filter]
    rfl
  have hBoth :
      (List.range n).countP
          (fun k => alarmed closed bad as k && bad as k) =
        (List.range n).countP
          (fun k => bad as k && decide (k < closed as)) := by
    apply List.countP_congr
    intro k _
    simp only [Bool.and_eq_true, decide_eq_true_eq]
    constructor
    · rintro ⟨hAlarmed, hBad⟩
      refine ⟨hBad, ?_⟩
      by_contra hOpen
      rw [h.alarmed_of_open (by omega)] at hAlarmed
      cases hAlarmed
    · rintro ⟨hBad, hClosed⟩
      exact ⟨h.alarmed_of_bad hBad hClosed, hBad⟩
  omega

end Verdict

end Lib

end Cs2520
