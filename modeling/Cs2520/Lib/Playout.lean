import Cs2520.Lib.Refinement
import Mathlib.Data.List.Sort

/-
  A play-out queue: numbered items that come in any order
  leave in the order of their numbers.

  The queue remembers the last number that has left. It takes
  an item whose number is new and at most `w` ahead, and lets
  items go from its front while they are due.

  Main declarations:
    * `Rising`
    * `Rising.eq_insertionSort`
    * `Playout`
    * `Playout.play`
    * `Playout.offer`
    * `Playout.machine`
    * `Playout.outputs_append_queue`
-/

------------------------------------------------------------
-- Lists in Order
------------------------------------------------------------

namespace Cs2520

namespace Lib

variable {β : Type}

/- The numbers of the items grow. -/
def Rising
    (key : β → Int)
    (xs : List β) : Prop :=
  xs.Pairwise (fun x y => key x < key y)

/- The order of the numbers, for sorting. -/
def keyLe
    (key : β → Int)
    (x y : β) : Prop :=
  key x ≤ key y

instance (key : β → Int) : DecidableRel (keyLe key) :=
  fun x y => inferInstanceAs (Decidable (key x ≤ key y))

instance (key : β → Int) : Std.Total (keyLe key) where
  total x y := Int.le_total (key x) (key y)

instance (key : β → Int) : IsTrans β (keyLe key) where
  trans _ _ _ := Int.le_trans

namespace Rising

variable {key : β → Int}
variable {xs ys : List β}

theorem eq_of_key
    (h : Rising key xs)
    {x y : β}
    (hx : x ∈ xs)
    (hy : y ∈ xs)
    (hKey : key x = key y) :
    x = y := by
  have hNodup : (xs.map key).Nodup := by
    apply List.pairwise_map.mpr
    exact h.imp (fun hLt => Int.ne_of_lt hLt)
  exact List.inj_on_of_nodup_map hNodup hx hy hKey

/- Two such lists with the same items are the same. -/
theorem ext
    (hx : Rising key xs)
    (hy : Rising key ys)
    (hSame : ∀ x, x ∈ xs ↔ x ∈ ys) :
    xs = ys := by
  have hNodup :
      ∀ zs : List β, Rising key zs → zs.Nodup := by
    intro zs hRising
    apply hRising.imp
    rintro x y hLt rfl
    exact Int.lt_irrefl _ hLt
  apply List.Perm.eq_of_pairwise ?_ hx hy
  · exact
      (List.perm_ext_iff_of_nodup (hNodup xs hx)
        (hNodup ys hy)).mpr hSame
  · intro x y _ _ hLt hGt
    exact (Int.lt_asymm hLt hGt).elim

/- The item with the least number comes first. -/
theorem eq_cons
    (h : Rising key xs)
    {x : β}
    (hMem : x ∈ xs)
    (hLeast : ∀ y ∈ xs, key x ≤ key y) :
    ∃ rest, xs = x :: rest := by
  cases xs with
  | nil => cases hMem
  | cons y rest =>
      rcases List.mem_cons.mp hMem with rfl | hRest
      · exact ⟨rest, rfl⟩
      · have hLt := (List.pairwise_cons.mp h).1 x hRest
        have hLe := hLeast y List.mem_cons_self
        omega

/- The other items are those with other numbers. -/
theorem mem_rest_iff
    {x : β}
    (h : Rising key (x :: xs))
    {y : β} :
    y ∈ xs ↔ y ∈ x :: xs ∧ key y ≠ key x := by
  constructor
  · intro hMem
    have hLt := (List.pairwise_cons.mp h).1 y hMem
    exact ⟨List.mem_cons_of_mem x hMem, Int.ne_of_gt hLt⟩
  · rintro ⟨hMem, hNe⟩
    rcases List.mem_cons.mp hMem with rfl | hRest
    · exact absurd rfl hNe
    · exact hRest

/- A list in order is what sorting its items gives. -/
theorem eq_insertionSort
    (h : Rising key xs)
    (hPerm : xs.Perm ys) :
    xs = ys.insertionSort (keyLe key) := by
  have hSorted :=
    List.perm_insertionSort (keyLe key) ys
  have hOrdered : xs.Pairwise (keyLe key) :=
    h.imp (fun hLt => Int.le_of_lt hLt)
  apply
    List.Perm.eq_of_pairwise ?_ hOrdered
      (List.pairwise_insertionSort (keyLe key) ys)
      (hPerm.trans hSorted.symm)
  intro x y hx hy hLe hGe
  have hIn : y ∈ xs :=
    hPerm.mem_iff.mpr (hSorted.mem_iff.mp hy)
  exact h.eq_of_key hx hIn (Int.le_antisymm hLe hGe)

/- A new number goes where it belongs. -/
theorem orderedInsert
    (h : Rising key xs)
    {x : β}
    (hNew : ∀ y ∈ xs, key y ≠ key x) :
    Rising key (xs.orderedInsert (keyLe key) x) := by
  induction xs with
  | nil => exact List.pairwise_singleton _ _
  | cons y rest ih =>
      rcases List.pairwise_cons.mp h with ⟨hHead, hRest⟩
      have hNe := hNew y List.mem_cons_self
      rw [List.orderedInsert_cons]
      split
      · next hLe =>
          have hLt : key x < key y :=
            lt_of_le_of_ne hLe hNe.symm
          refine List.pairwise_cons.mpr ⟨?_, h⟩
          intro z hMem
          rcases List.mem_cons.mp hMem with rfl | hIn
          · exact hLt
          · exact hLt.trans (hHead z hIn)
      · next hNot =>
          have hLt : key y < key x := Int.not_le.mp hNot
          refine
            List.pairwise_cons.mpr
              ⟨?_,
                ih hRest
                  (fun z hIn =>
                    hNew z (List.mem_cons_of_mem y hIn))⟩
          intro z hMem
          rcases (List.mem_orderedInsert _).mp hMem with
            rfl | hIn
          · exact hLt
          · exact hHead z hIn

end Rising

end Lib

end Cs2520

------------------------------------------------------------
-- The Queue
------------------------------------------------------------

namespace Cs2520

namespace Lib

/- The last number that has left, and what waits after it. -/
structure Playout
    (β : Type)
    (key : β → Int) where
  last : Int
  queue : List β
  rising : Rising key queue
  after : ∀ x ∈ queue, last < key x

namespace Playout

variable {β : Type}
variable {key : β → Int}

/- Nothing waits. -/
def empty
    (last : Int) : Playout β key where
  last := last
  queue := []
  rising := List.Pairwise.nil
  after := fun x hMem => by cases hMem

/- What goes when the queue is played. -/
def due
    (P : Playout β key)
    (isDue : β → Bool) : List β :=
  P.queue.takeWhile isDue

/- The last number when the queue has been played. -/
def lastAfter
    (P : Playout β key)
    (isDue : β → Bool) : Int :=
  ((P.due isDue).map key).getLastD P.last

theorem due_append
    (P : Playout β key)
    (isDue : β → Bool) :
    P.due isDue ++ P.queue.dropWhile isDue = P.queue :=
  List.takeWhile_append_dropWhile

/- Either nothing goes, or the last item to go counts. -/
theorem lastAfter_cases
    (P : Playout β key)
    (isDue : β → Bool) :
    (P.due isDue = [] ∧ P.lastAfter isDue = P.last) ∨
      ∃ first y,
        P.due isDue = first ++ [y] ∧
          P.lastAfter isDue = key y := by
  rcases List.eq_nil_or_concat (P.due isDue) with
    hNone | ⟨first, y, hLast⟩
  · left
    rw [lastAfter, hNone]
    exact ⟨rfl, rfl⟩
  · right
    rw [List.concat_eq_append] at hLast
    refine ⟨first, y, hLast, ?_⟩
    rw [lastAfter, hLast, List.map_append,
      List.map_singleton, List.getLastD_concat]

/- What goes is numbered up to the new last number. -/
theorem le_lastAfter
    (P : Playout β key)
    (isDue : β → Bool) :
    P.last ≤ P.lastAfter isDue ∧
      ∀ x ∈ P.due isDue, key x ≤ P.lastAfter isDue := by
  have hSplit := P.due_append isDue
  rcases P.lastAfter_cases isDue with
    ⟨hNone, hLast⟩ | ⟨first, y, hSome, hLast⟩
  · rw [hNone, hLast]
    exact ⟨Int.le_refl _, fun x hMem => by cases hMem⟩
  · have hRising := P.rising
    rw [← hSplit, hSome] at hRising
    have hFirst :=
      (List.pairwise_append.mp
        (List.pairwise_append.mp hRising).1).2.2
    rw [hSome, hLast]
    constructor
    · apply Int.le_of_lt
      apply P.after
      rw [← hSplit, hSome]
      simp
    · intro x hMem
      rcases List.mem_append.mp hMem with hIn | hEnd
      · exact Int.le_of_lt (hFirst x hIn y (by simp))
      · rw [List.mem_singleton.mp hEnd]

/- What stays is numbered beyond it. -/
theorem lastAfter_lt
    (P : Playout β key)
    (isDue : β → Bool) :
    ∀ x ∈ P.queue.dropWhile isDue,
      P.lastAfter isDue < key x := by
  intro x hMem
  have hSplit := P.due_append isDue
  rcases P.lastAfter_cases isDue with
    ⟨_, hLast⟩ | ⟨first, y, hSome, hLast⟩
  · rw [hLast]
    apply P.after
    rw [← hSplit]
    exact List.mem_append_right _ hMem
  · have hRising := P.rising
    rw [← hSplit, hSome] at hRising
    rw [hLast]
    exact
      (List.pairwise_append.mp hRising).2.2 y (by simp) x
        hMem

/- Let items go from the front while they are due. -/
def play
    (P : Playout β key)
    (isDue : β → Bool) : Playout β key where
  last := P.lastAfter isDue
  queue := P.queue.dropWhile isDue
  rising := P.rising.sublist (List.dropWhile_sublist isDue)
  after := P.lastAfter_lt isDue

/- The item is new, and not too far ahead. -/
def Admits
    (w : Int)
    (P : Playout β key)
    (x : β) : Prop :=
  (P.last < key x ∧ key x ≤ P.last + w) ∧
    ∀ y ∈ P.queue, key y ≠ key x

instance (w : Int) (P : Playout β key) (x : β) :
    Decidable (P.Admits w x) :=
  inferInstanceAs (Decidable (_ ∧ _))

/- Take an item into the queue, if it may be taken. -/
def offer
    (w : Int)
    (P : Playout β key)
    (x : β) : Playout β key :=
  if hAdmits : P.Admits w x then
    { last := P.last
      queue := P.queue.orderedInsert (keyLe key) x
      rising := P.rising.orderedInsert hAdmits.2
      after := by
        intro y hMem
        rcases (List.mem_orderedInsert _).mp hMem with
          rfl | hIn
        · exact hAdmits.1.1
        · exact P.after y hIn }
  else
    P

end Playout

end Lib

end Cs2520

------------------------------------------------------------
-- Runs
------------------------------------------------------------

namespace Cs2520

namespace Lib

namespace Playout

variable {β : Type}
variable {key : β → Int}
variable (w : Int)

/- A pass plays the queue and may take one item then. -/
inductive Input (β : Type) where
| idle : Input β
| pass : (β → Bool) → Option β → Input β

/- Take the item of a pass, if there is one. -/
def offer?
    (P : Playout β key) :
    Option β → Playout β key
  | none => P
  | some x => P.offer w x

/- One pass. -/
def step
    (P : Playout β key) :
    Input β → Playout β key × List β
  | .idle => (P, [])
  | .pass isDue x =>
      ((P.play isDue).offer? w x, P.due isDue)

def machine : Machine (Playout β key) (Input β) β where
  step := step w

/- The item, if the queue takes it. -/
def admitted?
    (P : Playout β key) :
    Option β → Option β
  | none => none
  | some x => if P.Admits w x then some x else none

theorem offer?_of_none
    {P : Playout β key}
    {x : Option β}
    (hNone : P.admitted? w x = none) :
    P.offer? w x = P := by
  cases x with
  | none => rfl
  | some x =>
      rw [admitted?] at hNone
      rw [offer?, offer]
      split
      · next hAdmits =>
          rw [if_pos hAdmits] at hNone
          cases hNone
      · rfl

/- The item that a pass takes into the queue. -/
def taken?
    (e : Playout β key × Input β) : Option β :=
  match e.2 with
  | .idle => none
  | .pass isDue x => (e.1.play isDue).admitted? w x

/-
  What has left so far and what waits: together, in order,
  all that was taken.
-/
structure Kept
    (P : Playout β key)
    (left taken : List β) : Prop where
  perm : (left ++ P.queue).Perm taken
  rising : Rising key left
  upTo : ∀ x ∈ left, key x ≤ P.last

variable {w}

/- Everything that has left comes before what waits. -/
theorem Kept.append_rising
    {P : Playout β key}
    {left taken : List β}
    (h : P.Kept left taken) :
    Rising key (left ++ P.queue) :=
  List.pairwise_append.mpr
    ⟨h.rising, P.rising,
      fun x hx y hy =>
        lt_of_le_of_lt (h.upTo x hx) (P.after y hy)⟩

theorem Kept.play
    {P : Playout β key}
    {left taken : List β}
    (h : P.Kept left taken)
    (isDue : β → Bool) :
    (P.play isDue).Kept (left ++ P.due isDue) taken := by
  have hSplit := P.due_append isDue
  have hAll := h.append_rising
  have hPerm := h.perm
  rw [← hSplit, ← List.append_assoc] at hAll hPerm
  rcases P.le_lastAfter isDue with ⟨hFrom, hDue⟩
  refine ⟨hPerm, (List.pairwise_append.mp hAll).1, ?_⟩
  intro x hMem
  rcases List.mem_append.mp hMem with hOld | hNew
  · exact (h.upTo x hOld).trans hFrom
  · exact hDue x hNew

variable (w)

theorem Kept.offer?
    {P : Playout β key}
    {left taken : List β}
    (h : P.Kept left taken)
    (x : Option β) :
    (P.offer? w x).Kept left
      (taken ++ (P.admitted? w x).toList) := by
  cases x with
  | none =>
      rw [admitted?, Option.toList_none, List.append_nil]
      exact h
  | some x =>
      rw [admitted?, Playout.offer?, Playout.offer]
      split
      · refine ⟨?_, h.rising, h.upTo⟩
        calc
          left ++ P.queue.orderedInsert (keyLe key) x
              |>.Perm (left ++ x :: P.queue) :=
            (List.perm_orderedInsert _ x _).append_left left
          _ |>.Perm (x :: (left ++ P.queue)) :=
            List.perm_middle
          _ |>.Perm (x :: taken) := h.perm.cons x
          _ |>.Perm (taken ++ [x]) :=
            (List.perm_append_singleton x taken).symm
      · rw [Option.toList_none, List.append_nil]
        exact h

/- A pass keeps track of what it lets go and takes. -/
theorem Kept.step
    {P : Playout β key}
    {left taken : List β}
    (h : P.Kept left taken)
    (i : Input β) :
    (P.step w i).1.Kept (left ++ (P.step w i).2)
      (taken ++ (taken? w (P, i)).toList) := by
  cases i with
  | idle =>
      rw [taken?, Playout.step, Option.toList_none,
        List.append_nil, List.append_nil]
      exact h
  | pass isDue x => exact (h.play isDue).offer? w x

/-
  In every run, what has left followed by what waits is all
  that was taken, sorted by number.
-/
theorem outputs_append_queue
    (w last : Int)
    (is : List (Input β)) :
    let P : Playout β key := empty last
    (machine w).outputs P is ++
        ((machine w).run P is).queue =
      (((machine w).trace P is).filterMap
        (taken? w)).insertionSort (keyLe key) := by
  have hStart : (empty last : Playout β key).Kept [] [] :=
    ⟨List.Perm.refl _, List.Pairwise.nil,
      fun x hMem => by cases hMem⟩
  let M : Machine (Playout β key) (Input β) β := machine w
  have hKept :=
    M.log_invariant (taken? w)
      (fun P left taken => P.Kept left taken)
      (fun _ _ _ i h => h.step w i) hStart is
  exact hKept.append_rising.eq_insertionSort hKept.perm

end Playout

end Lib

end Cs2520
