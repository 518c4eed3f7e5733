import Mathlib.Data.List.Basic
import Mathlib.Data.List.Induction
import Mathlib.Tactic.Common

/-
  Least walks in a graph whose edges have natural costs, by
  Floyd and Warshall.

  A table holds a way for each two vertices. One pivot takes
  the way through a vertex where it is strictly cheaper than
  the way held. After all vertices the ways are the cheapest,
  each visits no vertex twice, and each begins with the ways
  held for the vertices on it: the ways from one vertex form
  a tree, whatever ways cost the same.

  Main declarations:
    * `Walk`
    * `Walk.simple`
    * `Way`
    * `Table.pivot`
    * `Table.Best`
    * `Table.Best.pivot`
    * `Table.best_pivots`
    * `nextAfter`
    * `Table.Leads`
-/

------------------------------------------------------------
-- Walks
------------------------------------------------------------

namespace Cs2520

namespace Lib

variable {α : Type}

/-
  A walk with the vertices after its first one, its end and
  its cost. `w i j` is the cost of the edge, if there is one.
-/
inductive Walk
    (w : α → α → Option Nat) :
    α → List α → α → Nat → Prop where
  | nil (i : α) : Walk w i [] i 0
  | cons {i x j : α} {p : List α} {c d : Nat} :
      w i x = some c →
      Walk w x p j d →
      Walk w i (x :: p) j (c + d)

/- All vertices before the end are among these. -/
def Inside
    (done : List α)
    (p : List α) : Prop :=
  ∀ x ∈ p.dropLast, x ∈ done

namespace Walk

variable {w : α → α → Option Nat}
variable {i j k x : α}
variable {p q : List α}
variable {c d : Nat}

theorem append
    (h : Walk w i p k c)
    (h' : Walk w k q j d) :
    Walk w i (p ++ q) j (c + d) := by
  induction h with
  | nil i =>
      rw [Nat.zero_add]
      exact h'
  | cons hEdge _ ih =>
      rw [Nat.add_assoc]
      exact .cons hEdge (ih h')

/- A walk can be cut at a vertex on it. -/
theorem split
    (h : Walk w i (p ++ x :: q) j c) :
    ∃ d e,
      Walk w i (p ++ [x]) x d ∧
        Walk w x q j e ∧
        c = d + e := by
  induction p generalizing i c with
  | nil =>
      cases h with
      | cons hEdge hRest =>
          exact
            ⟨_, _, .cons hEdge (.nil x), hRest, by
              rw [Nat.add_zero]⟩
  | cons y p ih =>
      cases h with
      | cons hEdge hRest =>
          rcases ih hRest with ⟨d, e, hFront, hBack, rfl⟩
          exact
            ⟨_, e, .cons hEdge hFront, hBack,
              (Nat.add_assoc _ d e).symm⟩

/- The edges decide the cost. -/
theorem cost_eq
    (h : Walk w i p j c)
    (h' : Walk w i p k d) :
    c = d := by
  induction h generalizing d with
  | nil i =>
      cases h'
      rfl
  | cons hEdge _ ih =>
      cases h' with
      | cons hEdge' hRest' =>
          rw [hEdge] at hEdge'
          cases hEdge'
          rw [ih hRest']

/- A walk ends in its end. -/
theorem eq_concat
    (h : Walk w i p j c)
    (hSome : p ≠ []) :
    ∃ q, p = q ++ [j] := by
  induction h with
  | nil i => exact absurd rfl hSome
  | @cons i x j p c d hEdge hRest ih =>
      cases p with
      | nil =>
          cases hRest
          exact ⟨[], rfl⟩
      | cons y p =>
          rcases ih (List.cons_ne_nil y p) with ⟨q, hEq⟩
          exact ⟨x :: q, congrArg (x :: ·) hEq⟩

theorem ne_nil
    (h : Walk w i p j c)
    (hNe : i ≠ j) :
    p ≠ [] := by
  rintro rfl
  cases h
  exact hNe rfl

/- The vertices of a walk lie before its end, or are it. -/
theorem mem_dropLast
    (h : Walk w i p j c)
    (hMem : x ∈ p)
    (hEnd : x ≠ j) :
    x ∈ p.dropLast := by
  rcases h.eq_concat (List.ne_nil_of_mem hMem) with ⟨q, rfl⟩
  rw [List.dropLast_concat]
  rcases List.mem_append.mp hMem with hFront | hLast
  · exact hFront
  · exact absurd (List.mem_singleton.mp hLast) hEnd

/- A walk passes only vertices that an edge leaves. -/
theorem inside
    {done : List α}
    (hLeave : ∀ i j c, w i j = some c → i ∈ done)
    (h : Walk w i p j c) :
    Inside done p := by
  induction h with
  | nil i =>
      intro y hMem
      cases hMem
  | @cons i x j p c d hEdge hRest ih =>
      cases hRest with
      | nil =>
          intro y hMem
          cases hMem
      | cons hNext hLater =>
          intro y hMem
          rw [List.dropLast_cons_of_ne_nil
            (List.cons_ne_nil _ _)] at hMem
          rcases List.mem_cons.mp hMem with rfl | hBack
          · exact hLeave _ _ _ hNext
          · exact ih y hBack

/- An edge leaves its start, and one leads to its end. -/
theorem ends
    (h : Walk w i p j c)
    (hNe : i ≠ j) :
    (∃ x d, w i x = some d) ∧ ∃ x d, w x j = some d := by
  induction h with
  | nil i => exact absurd rfl hNe
  | @cons i x j p c d hEdge hRest ih =>
      refine ⟨⟨x, c, hEdge⟩, ?_⟩
      by_cases hLast : x = j
      · subst hLast
        exact ⟨i, c, hEdge⟩
      · exact (ih hLast).2

/- Without its cycles a walk costs no more. -/
theorem simple
    (h : Walk w i p j c) :
    ∃ q d,
      Walk w i q j d ∧
        d ≤ c ∧
        (i :: q).Nodup ∧
        ∀ x ∈ q, x ∈ p := by
  induction h with
  | nil i =>
      exact
        ⟨[], 0, .nil i, Nat.le_refl 0, List.nodup_cons.mpr
          ⟨List.not_mem_nil, List.nodup_nil⟩,
          fun x hMem => hMem⟩
  | @cons i x j p c d hEdge hRest ih =>
      rcases ih with ⟨q, e, hWalk, hCost, hNodup, hSub⟩
      by_cases hIn : i ∈ x :: q
      · -- The walk comes back to `i`: what follows suffices.
        rcases List.append_of_mem hIn with ⟨a, b, hSplit⟩
        have hBack : ∃ f, Walk w i b j f ∧ f ≤ e := by
          cases a with
          | nil =>
              rcases List.cons.inj hSplit with ⟨rfl, rfl⟩
              exact ⟨e, hWalk, Nat.le_refl e⟩
          | cons y a =>
              rcases List.cons.inj hSplit with ⟨_, rfl⟩
              rcases hWalk.split with ⟨d', f, _, hBack, rfl⟩
              exact ⟨f, hBack, Nat.le_add_left f d'⟩
        rcases hBack with ⟨f, hBack, hLess⟩
        rw [hSplit] at hNodup
        refine
          ⟨b, f, hBack, by omega,
            (List.nodup_append.mp hNodup).2.1, ?_⟩
        intro y hMem
        have hAll : y ∈ x :: q := by
          rw [hSplit]
          exact
            List.mem_append_right a
              (List.mem_cons_of_mem i hMem)
        rcases List.mem_cons.mp hAll with rfl | hLater
        · exact List.mem_cons_self
        · exact List.mem_cons_of_mem x (hSub y hLater)
      · refine
          ⟨x :: q, c + e, .cons hEdge hWalk, by omega,
            List.nodup_cons.mpr ⟨hIn, hNodup⟩, ?_⟩
        intro y hMem
        rcases List.mem_cons.mp hMem with rfl | hLater
        · exact List.mem_cons_self
        · exact List.mem_cons_of_mem x (hSub y hLater)

/- The walk without cycles stays where the walk was. -/
theorem simple_inside
    {done : List α}
    (h : Walk w i p j c)
    (hInside : Inside done p) :
    ∃ q d,
      Walk w i q j d ∧
        d ≤ c ∧
        (i :: q).Nodup ∧
        Inside done q := by
  rcases h.simple with ⟨q, d, hWalk, hCost, hNodup, hSub⟩
  refine ⟨q, d, hWalk, hCost, hNodup, ?_⟩
  intro x hMem
  have hSome : q ≠ [] := by
    rintro rfl
    cases hMem
  rcases hWalk.eq_concat hSome with ⟨a, rfl⟩
  rw [List.dropLast_concat] at hMem
  have hEnd : x ≠ j := by
    rintro rfl
    have hTail := (List.nodup_cons.mp hNodup).2
    exact
      (List.nodup_append.mp hTail).2.2 x hMem x
        List.mem_cons_self rfl
  exact
    hInside x
      (h.mem_dropLast (hSub x (List.mem_append_left _ hMem))
        hEnd)

end Walk

end Lib

end Cs2520

------------------------------------------------------------
-- Tables
------------------------------------------------------------

namespace Cs2520

namespace Lib

variable {α : Type}

/- The vertices of a walk after the first, and its cost. -/
structure Way (α : Type) where
  stops : List α
  cost : Nat
deriving DecidableEq

/- One way and then another. -/
def Way.join
    (r s : Way α) : Way α where
  stops := r.stops ++ s.stops
  cost := r.cost + s.cost

/- A way, or none, for each two vertices. -/
abbrev Table (α : Type) :=
  α → α → Option (Way α)

/- The edges alone. -/
def Table.edges
    (w : α → α → Option Nat) : Table α :=
  fun i j => (w i j).map (fun c => ⟨[j], c⟩)

/- The way held, unless the new one costs strictly less. -/
def Way.shorter
    (new : Way α) : Option (Way α) → Way α
  | none => new
  | some old => if new.cost < old.cost then new else old

namespace Table

variable [DecidableEq α]

/- The ways through one vertex. -/
def pivot
    (T : Table α)
    (k : α) : Table α :=
  fun i j =>
    if i = j ∨ i = k ∨ j = k then
      T i j
    else
      match T i k, T k j with
      | some r, some s => some ((r.join s).shorter (T i j))
      | _, _ => T i j

variable {T : Table α}
variable {i j k : α}
variable {r s t : Way α}

theorem pivot_through
    (hNe : i ≠ j)
    (hLeft : i ≠ k)
    (hRight : j ≠ k)
    (hFirst : T i k = some r)
    (hThen : T k j = some s) :
    T.pivot k i j = some ((r.join s).shorter (T i j)) := by
  have hRest : ¬ (i = j ∨ i = k ∨ j = k) := by
    rintro (hSame | hSame | hSame)
    · exact hNe hSame
    · exact hLeft hSame
    · exact hRight hSame
  rw [pivot, if_neg hRest, hFirst, hThen]

/- What a pivot may put into the table. -/
theorem pivot_eq_some
    (h : T.pivot k i j = some t) :
    (T i j = some t ∧
        (i ≠ j → i ≠ k → j ≠ k →
          ∀ r s, T i k = some r → T k j = some s →
            t.cost ≤ (r.join s).cost)) ∨
      (i ≠ j ∧ i ≠ k ∧ j ≠ k ∧
        ∃ r s,
          T i k = some r ∧
            T k j = some s ∧
            t = r.join s ∧
            ∀ old, T i j = some old → t.cost < old.cost) := by
  by_cases hApart : i ≠ j ∧ i ≠ k ∧ j ≠ k
  · rcases hApart with ⟨hNe, hLeft, hRight⟩
    cases hFirst : T i k with
    | none =>
        left
        refine ⟨?_, fun _ _ _ r s hSome => by cases hSome⟩
        simpa [pivot, hNe, hLeft, hRight, hFirst] using h
    | some r =>
        cases hThen : T k j with
        | none =>
            left
            refine
              ⟨?_, fun _ _ _ r s _ hSome => by cases hSome⟩
            simpa [pivot, hNe, hLeft, hRight, hFirst, hThen]
              using h
        | some s =>
            rw [pivot_through hNe hLeft hRight hFirst hThen]
              at h
            cases hOld : T i j with
            | none =>
                rw [hOld] at h
                cases h
                right
                exact
                  ⟨hNe, hLeft, hRight, r, s, rfl, rfl, rfl,
                    fun old hSome => by cases hSome⟩
            | some old =>
                rw [hOld, Way.shorter] at h
                split at h
                · next hLess =>
                    cases h
                    right
                    refine
                      ⟨hNe, hLeft, hRight, r, s, rfl, rfl,
                        rfl, ?_⟩
                    rintro old' hSome
                    cases hSome
                    exact hLess
                · next hNotLess =>
                    cases h
                    left
                    refine ⟨rfl, ?_⟩
                    rintro _ _ _ r' s' hSome hSome'
                    cases hSome
                    cases hSome'
                    exact Nat.le_of_not_lt hNotLess
  · left
    have hSame : i = j ∨ i = k ∨ j = k := by
      by_contra hNone
      exact hApart (by simpa [not_or] using hNone)
    rw [pivot, if_pos hSame] at h
    refine ⟨h, fun hNe hLeft hRight => ?_⟩
    exact absurd ⟨hNe, hLeft, hRight⟩ hApart

/- A way is only replaced by one that costs less. -/
theorem pivot_le
    (k : α)
    (h : T i j = some r) :
    ∃ t, T.pivot k i j = some t ∧ t.cost ≤ r.cost := by
  rw [pivot]
  split
  · exact ⟨r, h, Nat.le_refl _⟩
  · split
    · next r' s' _ _ =>
        refine ⟨_, rfl, ?_⟩
        rw [h, Way.shorter]
        split
        · next hLess => exact Nat.le_of_lt hLess
        · exact Nat.le_refl _
    · exact ⟨r, h, Nat.le_refl _⟩

/- Afterwards no way through the vertex is cheaper. -/
theorem pivot_le_join
    (hNe : i ≠ j)
    (hLeft : i ≠ k)
    (hRight : j ≠ k)
    (hFirst : T i k = some r)
    (hThen : T k j = some s) :
    ∃ t,
      T.pivot k i j = some t ∧ t.cost ≤ r.cost + s.cost := by
  refine
    ⟨_, pivot_through hNe hLeft hRight hFirst hThen, ?_⟩
  cases T i j with
  | none => exact Nat.le_refl _
  | some old =>
      rw [Way.shorter]
      split
      · exact Nat.le_refl _
      · next hNotLess => exact Nat.le_of_not_lt hNotLess

/- A way is kept where the way through costs no less. -/
theorem pivot_eq_old
    (hOld : T i j = some t)
    (hLeast :
      i ≠ k → j ≠ k →
        ∀ r s, T i k = some r → T k j = some s →
          t.cost ≤ r.cost + s.cost) :
    T.pivot k i j = some t := by
  rcases pivot_le k hOld with ⟨t', hNew, _⟩
  rcases pivot_eq_some hNew with
    ⟨hSame, _⟩ |
      ⟨_, hLeft, hRight, r, s, hFirst, hThen, rfl, hLess⟩
  · rw [hNew, ← hSame, hOld]
  · have hLe := hLeast hLeft hRight r s hFirst hThen
    have hLt := hLess t hOld
    exact absurd hLt (Nat.not_lt_of_le hLe)

/- It is replaced where the way through costs less. -/
theorem pivot_eq_join
    (hNe : i ≠ j)
    (hLeft : i ≠ k)
    (hRight : j ≠ k)
    (hFirst : T i k = some r)
    (hThen : T k j = some s)
    (hLess :
      ∀ old, T i j = some old →
        (r.join s).cost < old.cost) :
    T.pivot k i j = some (r.join s) := by
  rw [pivot_through hNe hLeft hRight hFirst hThen]
  cases hOld : T i j with
  | none => rfl
  | some old => rw [Way.shorter, if_pos (hLess old hOld)]

end Table

end Lib

end Cs2520

------------------------------------------------------------
-- The Invariant
------------------------------------------------------------

namespace Cs2520

namespace Lib

variable {α : Type}

namespace Table

/-
  The table is right for the walks inside some vertices: a
  way is such a walk without cycles, none is cheaper, and it
  begins with the ways to its vertices.
-/
structure Best
    (w : α → α → Option Nat)
    (done : List α)
    (T : Table α) : Prop where
  walk :
    ∀ {i j r}, i ≠ j → T i j = some r →
      Walk w i r.stops j r.cost
  inside :
    ∀ {i j r}, i ≠ j → T i j = some r →
      Inside done r.stops
  nodup :
    ∀ {i j r}, i ≠ j → T i j = some r →
      (i :: r.stops).Nodup
  least :
    ∀ {i j p c}, i ≠ j → Walk w i p j c → Inside done p →
      ∃ r, T i j = some r ∧ r.cost ≤ c
  front :
    ∀ {i j r a x b}, i ≠ j → T i j = some r →
      r.stops = a ++ x :: b →
        ∃ s, T i x = some s ∧ s.stops = a ++ [x]

/- At first only the edges count. -/
theorem best_edges
    (w : α → α → Option Nat) :
    Best w [] (edges w) := by
  have hEdge :
      ∀ {i j r}, edges w i j = some r →
        ∃ c, w i j = some c ∧ r = ⟨[j], c⟩ := by
    intro i j r hSome
    rcases Option.map_eq_some_iff.mp hSome with
      ⟨c, hCost, hWay⟩
    exact ⟨c, hCost, hWay.symm⟩
  constructor
  · intro i j r _ hSome
    rcases hEdge hSome with ⟨c, hCost, rfl⟩
    exact .cons hCost (.nil j)
  · intro i j r _ hSome x hMem
    rcases hEdge hSome with ⟨c, _, rfl⟩
    cases hMem
  · intro i j r hNe hSome
    rcases hEdge hSome with ⟨c, _, rfl⟩
    simpa using hNe
  · intro i j p c hNe hWalk hInside
    cases hWalk with
    | nil => exact absurd rfl hNe
    | @cons _ x _ p c d hCost hRest =>
        cases p with
        | nil =>
            cases hRest
            refine ⟨⟨[j], c⟩, ?_, Nat.le_refl _⟩
            rw [edges, hCost]
            rfl
        | cons y p =>
            exact
              absurd (hInside x List.mem_cons_self)
                List.not_mem_nil
  · intro i j r a x b _ hSome hSplit
    rcases hEdge hSome with ⟨c, hCost, rfl⟩
    cases a with
    | nil =>
        cases hSplit
        exact ⟨_, hSome, rfl⟩
    | cons y a =>
        have hLength := congrArg List.length hSplit
        simp at hLength

namespace Best

variable {w : α → α → Option Nat}
variable {done : List α}
variable {T : Table α}
variable {i j k x : α}
variable {r s t : Way α}
variable {a b : List α}

/- A way is the way to a vertex on it, and a walk on. -/
theorem cut
    (h : Best w done T)
    (hNe : i ≠ j)
    (hWay : T i j = some r)
    (hSplit : r.stops = a ++ x :: b) :
    ∃ s d,
      i ≠ x ∧
        T i x = some s ∧
        s.stops = a ++ [x] ∧
        Walk w x b j d ∧
        r.cost = s.cost + d := by
  have hWalk := h.walk hNe hWay
  have hApart : i ≠ x := by
    have hNodup := h.nodup hNe hWay
    rw [hSplit] at hNodup
    rintro rfl
    exact
      (List.nodup_cons.mp hNodup).1
        (List.mem_append_right a List.mem_cons_self)
  rcases h.front hNe hWay hSplit with ⟨s, hSome, hStops⟩
  rw [hSplit] at hWalk
  rcases hWalk.split with ⟨c, d, hTo, hOn, hCost⟩
  have hFront := h.walk hApart hSome
  rw [hStops] at hFront
  refine ⟨s, d, hApart, hSome, hStops, hOn, ?_⟩
  rw [hCost, hTo.cost_eq hFront]

/- The vertices before a vertex of a way. -/
theorem inside_front
    (h : Best w done T)
    (hNe : i ≠ j)
    (hWay : T i j = some r)
    (hSplit : r.stops = a ++ x :: b)
    (hSome : b ≠ []) :
    (∀ y ∈ a, y ∈ done) ∧ x ∈ done ∧ Inside done b := by
  have hInside := h.inside hNe hWay
  rw [hSplit, Inside, List.dropLast_append_of_ne_nil
    (List.cons_ne_nil x b),
    List.dropLast_cons_of_ne_nil hSome] at hInside
  refine ⟨?_, ?_, ?_⟩
  · intro y hMem
    exact hInside y (List.mem_append_left _ hMem)
  · exact
      hInside x
        (List.mem_append_right a List.mem_cons_self)
  · intro y hMem
    exact
      hInside y
        (List.mem_append_right a
          (List.mem_cons_of_mem x hMem))

/- A walk over a vertex inside costs at least the way. -/
theorem le_detour
    (h : Best w done T)
    (hNe : i ≠ j)
    {p : List α}
    {c d : Nat}
    (hTo : Walk w i p x c)
    (hOn : Walk w x b j d)
    (hInside : Inside done p)
    (hDone : b ≠ [] → x ∈ done)
    (hRest : Inside done b) :
    ∃ r, T i j = some r ∧ r.cost ≤ c + d := by
  apply h.least hNe (hTo.append hOn)
  intro y hMem
  by_cases hSome : b = []
  · subst hSome
    rw [List.append_nil] at hMem
    exact hInside y hMem
  · rw [List.dropLast_append_of_ne_nil hSome] at hMem
    rcases List.mem_append.mp hMem with hFirst | hLater
    · by_cases hSame : y = x
      · rw [hSame]
        exact hDone hSome
      · exact hInside y (hTo.mem_dropLast hFirst hSame)
    · exact hRest y hLater

end Best

end Table

end Lib

end Cs2520

------------------------------------------------------------
-- One Pivot
------------------------------------------------------------

namespace Cs2520

namespace Lib

variable {α : Type} [DecidableEq α]

namespace Table

namespace Best

variable {w : α → α → Option Nat}
variable {done : List α}
variable {T : Table α}
variable {i j k x : α}
variable {t : Way α}

theorem pivot_walk
    (h : Best w done T)
    (hNe : i ≠ j)
    (hWay : T.pivot k i j = some t) :
    Walk w i t.stops j t.cost := by
  rcases pivot_eq_some hWay with
    ⟨hOld, _⟩ |
      ⟨_, hLeft, hRight, r, s, hFirst, hThen, rfl, _⟩
  · exact h.walk hNe hOld
  · exact
      (h.walk hLeft hFirst).append
        (h.walk (Ne.symm hRight) hThen)

theorem pivot_inside
    (h : Best w done T)
    (hNe : i ≠ j)
    (hWay : T.pivot k i j = some t) :
    Inside (done ++ [k]) t.stops := by
  rcases pivot_eq_some hWay with
    ⟨hOld, _⟩ |
      ⟨_, hLeft, hRight, r, s, hFirst, hThen, rfl, _⟩
  · intro x hMem
    exact List.mem_append_left _ (h.inside hNe hOld x hMem)
  · intro x hMem
    have hWalk := h.walk (Ne.symm hRight) hThen
    rw [Way.join,
      List.dropLast_append_of_ne_nil
        (hWalk.ne_nil (Ne.symm hRight))] at hMem
    rcases List.mem_append.mp hMem with hFront | hBack
    · by_cases hSame : x = k
      · exact
          List.mem_append_right done
            (List.mem_singleton.mpr hSame)
      · exact
          List.mem_append_left _
            (h.inside hLeft hFirst x
              ((h.walk hLeft hFirst).mem_dropLast hFront
                hSame))
    · exact
        List.mem_append_left _
          (h.inside (Ne.symm hRight) hThen x hBack)

/-
  If the way through `k` met a vertex twice, the walk without
  that cycle, inside the vertices before `k`, would cost no
  more.
-/
theorem pivot_nodup
    (h : Best w done T)
    (hNe : i ≠ j)
    (hWay : T.pivot k i j = some t) :
    (i :: t.stops).Nodup := by
  rcases pivot_eq_some hWay with
    ⟨hOld, _⟩ |
      ⟨_, hLeft, hRight, r, s, hFirst, hThen, rfl, hLess⟩
  · exact h.nodup hNe hOld
  · have hNodup := h.nodup (Ne.symm hRight) hThen
    refine
      List.nodup_append.mpr
        ⟨h.nodup hLeft hFirst,
          (List.nodup_cons.mp hNodup).2, ?_⟩
    rintro x hIn y hTwice rfl
    have hEnd : x ≠ k := by
      rintro rfl
      exact (List.nodup_cons.mp hNodup).1 hTwice
    rcases List.append_of_mem hTwice with ⟨a, b, hSplit⟩
    rcases h.cut (Ne.symm hRight) hThen hSplit with
      ⟨s', d, _, _, _, hOn, hCost⟩
    have hRest : (b ≠ [] → x ∈ done) ∧ Inside done b := by
      by_cases hSome : b = []
      · subst hSome
        exact
          ⟨fun hNone => absurd rfl hNone,
            fun y hMem => by cases hMem⟩
      · have hAll :=
          h.inside_front (Ne.symm hRight) hThen hSplit hSome
        exact ⟨fun _ => hAll.2.1, hAll.2.2⟩
    have hTo :
        ∃ p c,
          Walk w i p x c ∧ Inside done p ∧ c ≤ r.cost := by
      rcases List.mem_cons.mp hIn with rfl | hLater
      · exact
          ⟨[], 0, .nil x, (fun y hMem => by cases hMem),
            Nat.zero_le _⟩
      · rcases List.append_of_mem hLater with
          ⟨a', b', hSplit'⟩
        rcases h.cut hLeft hFirst hSplit' with
          ⟨r', d', hApart, hSome, _, _, hCost'⟩
        exact
          ⟨_, _, h.walk hApart hSome, h.inside hApart hSome,
            hCost' ▸ Nat.le_add_right _ _⟩
    rcases hTo with ⟨p, c, hTo, hInside, hLe⟩
    rcases
      h.le_detour hNe hTo hOn hInside hRest.1 hRest.2 with
      ⟨old, hOld, hOldLe⟩
    have hLt := hLess old hOld
    rw [Way.join] at hLt
    dsimp only at hLt
    omega

/- The walks inside the old vertices and `k`. -/
theorem pivot_least
    (h : Best w done T)
    (hNe : i ≠ j)
    {p : List α}
    {c : Nat}
    (hWalk : Walk w i p j c)
    (hInside : Inside (done ++ [k]) p) :
    ∃ r, T.pivot k i j = some r ∧ r.cost ≤ c := by
  rcases hWalk.simple_inside hInside with
    ⟨q, d, hSimple, hLess, hNodup, hIn⟩
  have hNotK :
      ∀ y ∈ done ++ [k], y ≠ k → y ∈ done := by
    intro y hMem hOther
    rcases List.mem_append.mp hMem with hOld | hNew
    · exact hOld
    · exact absurd (List.mem_singleton.mp hNew) hOther
  by_cases hThrough : k ∈ q.dropLast
  · -- The walk leads to `k` once, and then on to the end.
    rcases hSimple.eq_concat (hSimple.ne_nil hNe) with
      ⟨q', rfl⟩
    rw [List.dropLast_concat] at hThrough
    rw [Inside, List.dropLast_concat] at hIn
    rcases List.append_of_mem hThrough with ⟨a, b, rfl⟩
    rw [List.append_assoc, List.cons_append] at hSimple hNodup
    have hParts := List.nodup_cons.mp hNodup
    have hLists := List.nodup_append.mp hParts.2
    have hBack := List.nodup_cons.mp hLists.2.1
    have hLeft : i ≠ k := by
      rintro rfl
      exact
        hParts.1
          (List.mem_append_right a List.mem_cons_self)
    have hRight : j ≠ k := by
      rintro rfl
      exact
        hBack.1
          (List.mem_append_right b List.mem_cons_self)
    rcases hSimple.split with ⟨d', e, hTo, hOn, rfl⟩
    have hTo' : Inside done (a ++ [k]) := by
      rw [Inside, List.dropLast_concat]
      intro y hMem
      apply
        hNotK y (hIn y (List.mem_append_left _ hMem))
      rintro rfl
      exact hLists.2.2 y hMem y List.mem_cons_self rfl
    have hOn' : Inside done (b ++ [j]) := by
      rw [Inside, List.dropLast_concat]
      intro y hMem
      apply
        hNotK y
          (hIn y
            (List.mem_append_right a
              (List.mem_cons_of_mem k hMem)))
      rintro rfl
      exact hBack.1 (List.mem_append_left _ hMem)
    rcases h.least hLeft hTo hTo' with ⟨r, hFirst, hR⟩
    rcases h.least (Ne.symm hRight) hOn hOn' with
      ⟨s, hThen, hS⟩
    rcases pivot_le_join hNe hLeft hRight hFirst hThen with
      ⟨t, hNew, hT⟩
    exact ⟨t, hNew, by omega⟩
  · have hOld : Inside done q := by
      intro y hMem
      apply hNotK y (hIn y hMem)
      rintro rfl
      exact hThrough hMem
    rcases h.least hNe hSimple hOld with ⟨r, hSome, hR⟩
    rcases pivot_le k hSome with ⟨t, hNew, hT⟩
    exact ⟨t, hNew, by omega⟩

/-
  A way that is kept has no cheaper start: through `k` there
  would be a cheaper way to its end.
-/
theorem pivot_front_old
    (h : Best w done T)
    (hNe : i ≠ j)
    (hOld : T i j = some t)
    (hLeast :
      i ≠ j → i ≠ k → j ≠ k →
        ∀ r s, T i k = some r → T k j = some s →
          t.cost ≤ (r.join s).cost)
    {a b : List α}
    (hSplit : t.stops = a ++ x :: b)
    (hSome : b ≠ []) :
    ∃ s, T.pivot k i x = some s ∧ s.stops = a ++ [x] := by
  rcases h.cut hNe hOld hSplit with
    ⟨s', d, hApart, hStart, hStops, hOn, hCost⟩
  have hFront := h.inside_front hNe hOld hSplit hSome
  refine ⟨s', pivot_eq_old hStart ?_, hStops⟩
  intro hLeft hRight r s hFirst hThen
  by_cases hEnd : j = k
  · subst hEnd
    rw [hOld] at hFirst
    cases hFirst
    omega
  · have hTo := h.walk (Ne.symm hRight) hThen
    have hIn := h.inside (Ne.symm hRight) hThen
    rcases
      h.le_detour (Ne.symm hEnd) hTo hOn hIn
        (fun _ => hFront.2.1) hFront.2.2 with
      ⟨s'', hShort, hLe⟩
    have hAll := hLeast hNe hLeft hEnd r s'' hFirst hShort
    rw [Way.join] at hAll
    dsimp only at hAll
    omega

/-
  The starts of a new way are new themselves from `k` on:
  an old way there of the same cost would go on to an old
  way to the end.
-/
theorem pivot_front_new
    (h : Best w done T)
    (hNe : i ≠ j)
    (hLeft : i ≠ k)
    (hRight : j ≠ k)
    {r s : Way α}
    (hFirst : T i k = some r)
    (hThen : T k j = some s)
    (hLess :
      ∀ old, T i j = some old →
        (r.join s).cost < old.cost)
    (hApart : i ≠ x)
    {a b : List α}
    (hSplit : (r.join s).stops = a ++ x :: b)
    (hSome : b ≠ []) :
    ∃ s, T.pivot k i x = some s ∧ s.stops = a ++ [x] := by
  rw [Way.join] at hSplit
  have hBefore :
      (∃ b', r.stops = a ++ x :: b') ∨
        ∃ a', a = r.stops ++ a' ∧ s.stops = a' ++ x :: b := by
    rcases List.append_eq_append_iff.mp hSplit with
      ⟨a', hA, hS⟩ | ⟨c, hR, hC⟩
    · exact Or.inr ⟨a', hA, hS⟩
    · cases c with
      | nil =>
          rw [List.append_nil] at hR
          exact
            Or.inr
              ⟨[], by rw [hR, List.append_nil], hC.symm⟩
      | cons y c =>
          rcases List.cons.inj hC with ⟨rfl, _⟩
          exact Or.inl ⟨c, hR⟩
  rcases hBefore with ⟨b', hR⟩ | ⟨a', rfl, hS⟩
  · rcases h.cut hLeft hFirst hR with
      ⟨r', d, _, hStart, hStops, _, hCost⟩
    refine ⟨r', pivot_eq_old hStart ?_, hStops⟩
    intro _ _ r'' s'' hFirst' _
    rw [hFirst] at hFirst'
    cases hFirst'
    omega
  · rcases h.cut (Ne.symm hRight) hThen hS with
      ⟨s', d, hOther, hStart, hStops, hOn, hCost⟩
    have hFront :=
      h.inside_front (Ne.symm hRight) hThen hS hSome
    refine
      ⟨r.join s',
        pivot_eq_join hApart hLeft (Ne.symm hOther) hFirst
          hStart ?_,
        ?_⟩
    · intro old hOld
      by_contra hNot
      rcases
        h.le_detour hNe (h.walk hApart hOld) hOn
          (h.inside hApart hOld) (fun _ => hFront.2.1)
          hFront.2.2 with
        ⟨short, hShort, hLe⟩
      have hLt := hLess short hShort
      rw [Way.join] at hLt hNot
      dsimp only at hLt hNot
      omega
    · rw [Way.join]
      dsimp only
      rw [hStops, List.append_assoc]

theorem pivot_front
    (h : Best w done T)
    (hNe : i ≠ j)
    (hWay : T.pivot k i j = some t)
    {a b : List α}
    (hSplit : t.stops = a ++ x :: b) :
    ∃ s, T.pivot k i x = some s ∧ s.stops = a ++ [x] := by
  by_cases hSome : b = []
  · subst hSome
    have hWalk := h.pivot_walk hNe hWay
    rcases hWalk.eq_concat (hWalk.ne_nil hNe) with
      ⟨q, hEnd⟩
    rw [hSplit] at hEnd
    have hSame : x = j :=
      List.singleton_inj.mp
        (List.append_inj_right' hEnd rfl)
    subst hSame
    exact ⟨t, hWay, hSplit⟩
  · have hApart : i ≠ x := by
      have hNodup := h.pivot_nodup hNe hWay
      rw [hSplit] at hNodup
      rintro rfl
      exact
        (List.nodup_cons.mp hNodup).1
          (List.mem_append_right a List.mem_cons_self)
    rcases pivot_eq_some hWay with
      ⟨hOld, hLeast⟩ |
        ⟨_, hLeft, hRight, r, s, hFirst, hThen, rfl, hLess⟩
    · exact
        h.pivot_front_old hNe hOld hLeast hSplit hSome
    · exact
        h.pivot_front_new hNe hLeft hRight hFirst hThen
          hLess hApart hSplit hSome

/- A pivot makes the table right for one more vertex. -/
theorem pivot
    (h : Best w done T)
    (k : α) :
    Best w (done ++ [k]) (T.pivot k) where
  walk := h.pivot_walk
  inside := h.pivot_inside
  nodup := h.pivot_nodup
  least := fun hNe hWalk hInside =>
    h.pivot_least hNe hWalk hInside
  front := fun hNe hWay hSplit =>
    h.pivot_front hNe hWay hSplit

end Best

/- All pivots, from the edges on. -/
theorem best_pivots
    (w : α → α → Option Nat)
    (ks : List α) :
    Best w ks (ks.foldl Table.pivot (edges w)) := by
  induction ks using List.reverseRecOn with
  | nil => exact best_edges w
  | append_singleton ks k ih =>
      rw [List.foldl_concat]
      exact ih.pivot k

end Table

end Lib

end Cs2520

------------------------------------------------------------
-- The Next Vertex
------------------------------------------------------------

namespace Cs2520

namespace Lib

variable {α : Type} [DecidableEq α]

/- What comes after the last visit to a vertex. -/
def nextAfter
    (v : α) : α → List α → Option α
  | _, [] => none
  | i, x :: p =>
      (nextAfter v x p).or (if i = v then some x else none)

variable {w : α → α → Option Nat}
variable {i k v x y : α}
variable {p q : List α}

/- Of two walks the second is asked first. -/
theorem nextAfter_append
    {c : Nat}
    (h : Walk w i p k c)
    (v : α)
    (q : List α) :
    nextAfter v i (p ++ q) =
      (nextAfter v k q).or (nextAfter v i p) := by
  induction h with
  | nil i =>
      rw [List.nil_append, nextAfter, Option.or_none]
  | cons _ _ ih =>
      rw [List.cons_append, nextAfter, ih, nextAfter,
        Option.or_assoc]

theorem nextAfter_eq_none
    (hNot : v ∉ i :: p) :
    nextAfter v i p = none := by
  induction p generalizing i with
  | nil => rfl
  | cons x p ih =>
      have hApart : i ≠ v := by
        rintro rfl
        exact hNot List.mem_cons_self
      rw [nextAfter,
        ih (fun hIn => hNot (List.mem_cons_of_mem i hIn)),
        if_neg hApart]
      rfl

/- Where no vertex is visited twice it is the next one. -/
theorem nextAfter_eq_some_iff
    (hNodup : (i :: p).Nodup) :
    nextAfter v i p = some y ↔
      ∃ a b, i :: p = a ++ v :: y :: b := by
  induction p generalizing i with
  | nil =>
      refine iff_of_false (by rintro ⟨⟩) ?_
      rintro ⟨a, b, hSplit⟩
      have hLength := congrArg List.length hSplit
      simp only [List.length_append, List.length_cons,
        List.length_nil] at hLength
      omega
  | cons x p ih =>
      have hTail := (List.nodup_cons.mp hNodup).2
      by_cases hHere : i = v
      · subst hHere
        rw [nextAfter,
          nextAfter_eq_none (List.nodup_cons.mp hNodup).1,
          Option.none_or, if_pos rfl]
        constructor
        · rintro ⟨⟩
          exact ⟨[], p, rfl⟩
        · rintro ⟨a, b, hSplit⟩
          cases a with
          | nil =>
              rw [List.nil_append] at hSplit
              cases hSplit
              rfl
          | cons z a =>
              rcases List.cons.inj hSplit with ⟨_, hRest⟩
              exact
                absurd
                  (by
                    rw [hRest]
                    exact
                      List.mem_append_right a
                        List.mem_cons_self)
                  (List.nodup_cons.mp hNodup).1
      · rw [nextAfter, if_neg hHere, Option.or_none, ih hTail]
        constructor
        · rintro ⟨a, b, hSplit⟩
          exact ⟨i :: a, b, congrArg (i :: ·) hSplit⟩
        · rintro ⟨a, b, hSplit⟩
          cases a with
          | nil => exact absurd (List.cons.inj hSplit).1 hHere
          | cons z a => exact ⟨a, b, (List.cons.inj hSplit).2⟩

end Lib

end Cs2520

------------------------------------------------------------
-- The Tree of One Vertex
------------------------------------------------------------

namespace Cs2520

namespace Lib

variable {α : Type}

namespace Table

/- The vertices from `s` to `x` by the way held. -/
def Leads
    (T : Table α)
    (s x : α)
    (p : List α) : Prop :=
  (x = s ∧ p = [s]) ∨
    (s ≠ x ∧ ∃ t, T s x = some t ∧ p = s :: t.stops)

namespace Best

variable {w : α → α → Option Nat}
variable {done : List α}
variable {T : Table α}
variable {s x y z : α}
variable {p q a b : List α}

theorem leads_unique
    (h : T.Leads s x p)
    (h' : T.Leads s x q) :
    p = q := by
  rcases h with ⟨rfl, rfl⟩ | ⟨hNe, t, hSome, rfl⟩
  · rcases h' with ⟨_, rfl⟩ | ⟨hNe', _⟩
    · rfl
    · exact absurd rfl hNe'
  · rcases h' with ⟨rfl, _⟩ | ⟨_, t', hSome', rfl⟩
    · exact absurd rfl hNe
    · rw [hSome] at hSome'
      cases hSome'
      rfl

theorem leads_nodup
    (h : Best w done T)
    (hLeads : T.Leads s x p) :
    p.Nodup := by
  rcases hLeads with ⟨_, rfl⟩ | ⟨hNe, t, hSome, rfl⟩
  · simp
  · exact h.nodup hNe hSome

/- It ends in `x`. -/
theorem leads_end
    (h : Best w done T)
    (hLeads : T.Leads s x p) :
    ∃ a, p = a ++ [x] := by
  rcases hLeads with ⟨rfl, rfl⟩ | ⟨hNe, t, hSome, rfl⟩
  · exact ⟨[], rfl⟩
  · have hWalk := h.walk hNe hSome
    rcases hWalk.eq_concat (hWalk.ne_nil hNe) with ⟨q, hEq⟩
    exact ⟨s :: q, congrArg (s :: ·) hEq⟩

/- What leads to a vertex leads to those before it. -/
theorem leads_front
    (h : Best w done T)
    (hLeads : T.Leads s x (a ++ y :: b)) :
    T.Leads s y (a ++ [y]) := by
  cases a with
  | nil =>
      have hFirst : y = s := by
        rcases hLeads with ⟨_, hEq⟩ | ⟨_, t, _, hEq⟩
        · exact (List.cons.inj hEq).1
        · exact (List.cons.inj hEq).1
      exact Or.inl ⟨hFirst, by rw [hFirst]; rfl⟩
  | cons z a =>
      rcases hLeads with ⟨_, hEq⟩ | ⟨hNe, t, hSome, hEq⟩
      · have hRest := (List.cons.inj hEq).2
        exact
          absurd hRest
            (List.append_ne_nil_of_right_ne_nil a
              (List.cons_ne_nil y b))
      · rcases List.cons.inj hEq with ⟨rfl, hStops⟩
        rcases h.cut hNe hSome hStops.symm with
          ⟨s', _, hApart, hSome', hStops', _⟩
        right
        refine ⟨hApart, s', hSome', ?_⟩
        rw [hStops']
        rfl

/- The vertex before `y` is the same on every way. -/
theorem leads_parent
    (h : T.Leads s y (a ++ [x, y]))
    (h' : T.Leads s y (b ++ [z, y])) :
    x = z := by
  have hSame := leads_unique h h'
  have hEnds :=
    List.append_inj_right' hSame rfl
  exact (List.cons.inj hEnds).1

end Best

end Table

end Lib

end Cs2520
