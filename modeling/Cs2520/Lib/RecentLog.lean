import Cs2520.Lib.RingBuffer

/-
  A log that is kept in `w` slots: entry `n`, counted from 1,
  is written to slot `n % w`. The slots hold the last `w`
  entries.

  How many entries lie between two of them is a matter of
  their times: entries in order of time that are all within
  an interval are counted there.

  Main declarations:
    * `concat_entry`
    * `Recent`
    * `Recent.push`
    * `le_countP_between`
-/

------------------------------------------------------------
-- Slots
------------------------------------------------------------

namespace Cs2520

namespace Lib

variable {α : Type}

/- An entry of a log that was added to is the new one or an old one. -/
theorem concat_entry
    {log : List α}
    {x y : α}
    {k : Nat}
    (hEntry : (log ++ [x])[k]? = some y) :
    (k = log.length ∧ y = x) ∨
      (k < log.length ∧ log[k]? = some y) := by
  have hLt := (List.getElem?_eq_some_iff.mp hEntry).1
  rw [List.length_append, List.length_singleton] at hLt
  by_cases hLast : k = log.length
  · subst hLast
    rw [List.getElem?_concat_length] at hEntry
    cases hEntry
    exact Or.inl ⟨rfl, rfl⟩
  · have hOld : k < log.length := by omega
    rw [List.getElem?_append_left hOld] at hEntry
    exact Or.inr ⟨hOld, hEntry⟩

/- The slots hold the entries after which fewer than `w` came. -/
def Recent
    (w : Int)
    (log : List α)
    (slots : Int → α) : Prop :=
  ∀ (k : Nat) (x : α),
    log[k]? = some x →
      (log.length : Int) < (k : Int) + 1 + w →
        slots (((k : Int) + 1) % w) = x

theorem recent_nil
    (w : Int)
    (slots : Int → α) :
    Recent w [] slots := by
  intro k x hNone
  cases hNone

/- A new entry takes the slot of the oldest one. -/
theorem Recent.push
    {w : Int}
    {log : List α}
    {slots : Int → α}
    (h : Recent w log slots)
    (x : α) :
    Recent w (log ++ [x])
      (Function.update slots (((log.length : Int) + 1) % w)
        x) := by
  intro k y hEntry hRecent
  rw [List.length_append, List.length_singleton] at hRecent
  push_cast at hRecent
  rcases concat_entry hEntry with
    ⟨rfl, rfl⟩ | ⟨hOld, hBefore⟩
  · exact Function.update_self _ _ _
  · have hNe :
        ((k : Int) + 1) % w ≠ ((log.length : Int) + 1) % w :=
      emod_ne_of_lt (by omega) (by omega) (by omega)
    rw [Function.update_of_ne hNe]
    exact h k y hBefore (by omega)

end Lib

end Cs2520

------------------------------------------------------------
-- Times
------------------------------------------------------------

namespace Cs2520

namespace Lib

/-
  Of times in order, those from one entry to a later one lie
  between the two.
-/
theorem le_countP_between
    {times : List Int}
    (hSorted : times.Pairwise (fun s t => s ≤ t))
    {i m : Nat}
    {a b : Int}
    (hFirst : times[i]? = some a)
    (hLast : times[i + m]? = some b) :
    m + 1 ≤ times.countP (fun t => a ≤ t ∧ t ≤ b) := by
  rcases List.getElem?_eq_some_iff.mp hFirst with ⟨hI, rfl⟩
  rcases List.getElem?_eq_some_iff.mp hLast with ⟨hJ, rfl⟩
  have hOrder :
      ∀ j k (hj : j < times.length) (hk : k < times.length),
        j ≤ k → times[j] ≤ times[k] := by
    intro j k hj hk hLe
    rcases hLe.eq_or_lt with rfl | hLt
    · exact Int.le_refl _
    · exact List.pairwise_iff_getElem.mp hSorted j k hj hk hLt
  obtain ⟨part, hPart⟩ :
      ∃ part, part = (times.drop i).take (m + 1) := ⟨_, rfl⟩
  have hLength : part.length = m + 1 := by
    rw [hPart, List.length_take, List.length_drop]
    omega
  have hSub : part.Sublist times := by
    rw [hPart]
    exact
      (List.take_sublist _ _).trans (List.drop_sublist _ _)
  have hAll :
      part.countP
          (fun t => times[i] ≤ t ∧ t ≤ times[i + m]) =
        part.length := by
    rw [List.countP_eq_length]
    intro t hMem
    rcases List.getElem_of_mem hMem with ⟨k, hK, rfl⟩
    rw [hLength] at hK
    simp only [hPart, List.getElem_take, List.getElem_drop,
      decide_eq_true_eq]
    exact
      ⟨hOrder i (i + k) hI (by omega) (by omega),
        hOrder (i + k) (i + m) (by omega) hJ (by omega)⟩
  calc
    m + 1 = part.length := hLength.symm
    _ =
        part.countP
          (fun t => times[i] ≤ t ∧ t ≤ times[i + m]) :=
      hAll.symm
    _ ≤ _ := hSub.countP_le

end Lib

end Cs2520
