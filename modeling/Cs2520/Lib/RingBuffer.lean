import Mathlib.Data.Finset.Card
import Mathlib.Tactic.Common

/-
  Ring buffers: `w` slots, a flag and an item for each slot,
  and a counter of the flags that are set. An item numbered
  `s` belongs in slot `s % w`.

  `RingBuffer.Holds` says that the counter is exact and that
  every flagged slot carries an item of its own number,
  within a range of numbers `lo .. hi`.

  Main declarations:
    * `emod_inj_of_lt`
    * `RingBuffer.occupied`
    * `RingBuffer.items`
    * `RingBuffer.store`
    * `RingBuffer.release`
    * `RingBuffer.Holds`
    * `RingBuffer.Holds.key_eq`
    * `RingBuffer.Holds.set_iff`
    * `RingBuffer.Holds.store`
    * `RingBuffer.Holds.release`
    * `RingBuffer.Holds.raise`
-/

------------------------------------------------------------
-- Slots and Operations
------------------------------------------------------------

namespace Cs2520

namespace Lib

/- Numbers less than `w` apart never share a slot. -/
theorem emod_inj_of_lt
    {w a b : Int}
    (hSlot : a % w = b % w)
    (hLower : b - w < a)
    (hUpper : a < b + w) :
    a = b := by
  have hDvd : w ∣ a - b :=
    Int.dvd_of_emod_eq_zero
      (Int.emod_eq_emod_iff_emod_sub_eq_zero.mp hSlot)
  rcases hDvd with ⟨c, hc⟩
  have hSmall : -w < w * c ∧ w * c < w := by omega
  have hw : 0 < w := by omega
  have hc0 : c = 0 := by
    rcases lt_trichotomy c 0 with hNeg | hZero | hPos
    · have hLe : w * c ≤ w * (-1) :=
        Int.mul_le_mul_of_nonneg_left (by omega) hw.le
      omega
    · exact hZero
    · have hLe : w * 1 ≤ w * c :=
        Int.mul_le_mul_of_nonneg_left (by omega) hw.le
      omega
  subst hc0
  omega

theorem emod_ne_of_lt
    {w a b : Int}
    (hLower : b - w < a)
    (hUpper : a < b + w)
    (hNe : a ≠ b) :
    a % w ≠ b % w :=
  fun hSlot => hNe (emod_inj_of_lt hSlot hLower hUpper)

/- Slot flags, slot contents and the number of set flags. -/
structure RingBuffer (β : Type) where
  buffer : Int → Bool
  window : Int → β
  buffersize : Int

namespace RingBuffer

variable {β : Type}

/- The slots in use. -/
def occupied
    (w : Int)
    (buffer : Int → Bool) : Finset Nat :=
  (Finset.range w.toNat).filter
    (fun k => buffer (k : Int) = true)

/- The contents of the slots in use. -/
def items
    (w : Int)
    (r : RingBuffer β) : List β :=
  ((List.range w.toNat).filter
      (fun k : Nat => r.buffer k)).map
    (fun k : Nat => r.window k)

/- Put an item into slot `k`. -/
def store
    (r : RingBuffer β)
    (k : Int)
    (x : β) : RingBuffer β :=
  { buffer := Function.update r.buffer k true
    window := Function.update r.window k x
    buffersize := r.buffersize + 1 }

/- Free slot `k`, leaving its content in place. -/
def release
    (r : RingBuffer β)
    (k : Int) : RingBuffer β :=
  { r with
    buffer := Function.update r.buffer k false
    buffersize := r.buffersize - 1 }

theorem mem_items_iff
    {w : Int}
    {r : RingBuffer β}
    {x : β} :
    x ∈ r.items w ↔
      ∃ k,
        (0 ≤ k ∧ k < w) ∧
          r.buffer k = true ∧ r.window k = x := by
  simp only [items, List.mem_map, List.mem_filter,
    List.mem_range]
  constructor
  · rintro ⟨k, ⟨hLt, hSet⟩, hItem⟩
    exact ⟨k, ⟨by omega, by omega⟩, hSet, hItem⟩
  · rintro ⟨k, ⟨hNonneg, hLt⟩, hSet, hItem⟩
    have hCast : ((k.toNat : Nat) : Int) = k := by
      omega
    refine ⟨k.toNat, ⟨by omega, ?_⟩, ?_⟩
    · rw [hCast]
      exact hSet
    · rw [hCast]
      exact hItem

/- Storing into a free slot adds one item. -/
theorem mem_items_store
    {w k : Int}
    {r : RingBuffer β}
    (hk : 0 ≤ k ∧ k < w)
    (hFree : r.buffer k = false)
    {x y : β} :
    y ∈ (r.store k x).items w ↔ y = x ∨ y ∈ r.items w := by
  simp only [mem_items_iff, store]
  constructor
  · rintro ⟨j, hj, hSet, rfl⟩
    by_cases hSame : j = k
    · subst hSame
      left
      exact Function.update_self _ _ _
    · right
      rw [Function.update_of_ne hSame] at hSet ⊢
      exact ⟨j, hj, hSet, rfl⟩
  · rintro (rfl | ⟨j, hj, hSet, rfl⟩)
    · exact
        ⟨k, hk, Function.update_self _ _ _,
          Function.update_self _ _ _⟩
    · have hNe : j ≠ k := by
        rintro rfl
        rw [hFree] at hSet
        cases hSet
      refine ⟨j, hj, ?_, ?_⟩
      · rw [Function.update_of_ne hNe]
        exact hSet
      · rw [Function.update_of_ne hNe]

theorem mem_occupied_iff
    {w : Int}
    {buffer : Int → Bool}
    {k : Nat} :
    k ∈ occupied w buffer ↔
      (k : Int) < w ∧ buffer k = true := by
  simp only [occupied, Finset.mem_filter, Finset.mem_range]
  constructor
  · rintro ⟨hLt, hSet⟩
    exact ⟨by omega, hSet⟩
  · rintro ⟨hLt, hSet⟩
    exact ⟨by omega, hSet⟩

/- Setting a free flag adds one slot in use. -/
theorem card_occupied_set
    {w k : Int}
    {buffer : Int → Bool}
    (hk : 0 ≤ k ∧ k < w)
    (hFree : buffer k = false) :
    (occupied w (Function.update buffer k true)).card =
      (occupied w buffer).card + 1 := by
  rcases hk with ⟨hNonneg, hLt⟩
  lift k to Nat using hNonneg
  have hInsert :
      occupied w (Function.update buffer k true) =
        insert k (occupied w buffer) := by
    ext j
    by_cases hj : j = k
    · subst hj
      simp [mem_occupied_iff, hLt]
    · have hNe : (j : Int) ≠ k := by omega
      simp [mem_occupied_iff, hj, hNe]
  rw [hInsert, Finset.card_insert_of_notMem]
  simp [mem_occupied_iff, hFree]

/- Clearing a set flag removes one slot in use. -/
theorem card_occupied_clear
    {w k : Int}
    {buffer : Int → Bool}
    (hk : 0 ≤ k ∧ k < w)
    (hSet : buffer k = true) :
    (occupied w buffer).card =
      (occupied w (Function.update buffer k false)).card
        + 1 := by
  rcases hk with ⟨hNonneg, hLt⟩
  lift k to Nat using hNonneg
  have hErase :
      occupied w (Function.update buffer k false) =
        (occupied w buffer).erase k := by
    ext j
    by_cases hj : j = k
    · subst hj
      simp [mem_occupied_iff]
    · have hNe : (j : Int) ≠ k := by omega
      simp [mem_occupied_iff, hj, hNe]
  have hMem : k ∈ occupied w buffer :=
    mem_occupied_iff.mpr ⟨hLt, hSet⟩
  rw [hErase, Finset.card_erase_add_one hMem]

theorem card_occupied_le
    {w : Int}
    (hw : 0 ≤ w)
    (buffer : Int → Bool) :
    ((occupied w buffer).card : Int) ≤ w := by
  have hCard :
      (occupied w buffer).card ≤
        (Finset.range w.toNat).card :=
    Finset.card_filter_le _ _
  rw [Finset.card_range] at hCard
  omega

/- A free slot keeps the count below the number of slots. -/
theorem card_occupied_lt
    {w k : Int}
    {buffer : Int → Bool}
    (hk : 0 ≤ k ∧ k < w)
    (hFree : buffer k = false) :
    ((occupied w buffer).card : Int) < w := by
  have hSet := card_occupied_set hk hFree
  have hLe :=
    card_occupied_le (w := w) (by omega)
      (Function.update buffer k true)
  omega

/- A slot in use makes the count positive. -/
theorem card_occupied_pos
    {w k : Int}
    {buffer : Int → Bool}
    (hk : 0 ≤ k ∧ k < w)
    (hSet : buffer k = true) :
    0 < ((occupied w buffer).card : Int) := by
  rcases hk with ⟨hNonneg, hLt⟩
  lift k to Nat using hNonneg
  have hPos : 0 < (occupied w buffer).card :=
    Finset.card_pos.mpr
      ⟨k, mem_occupied_iff.mpr ⟨hLt, hSet⟩⟩
  omega

end RingBuffer

end Lib

end Cs2520

------------------------------------------------------------
-- Exact Counter and Numbered Slots
------------------------------------------------------------

namespace Cs2520

namespace Lib

namespace RingBuffer

variable {β : Type}

/-
  The counter is exact, and every slot in use carries a good
  item of its own number from `lo .. hi`.
-/
structure Holds
    (w lo hi : Int)
    (key : β → Int)
    (good : β → Prop)
    (r : RingBuffer β) : Prop where
  count : r.buffersize = (occupied w r.buffer).card
  slot :
    ∀ k, 0 ≤ k → k < w → r.buffer k = true →
      key (r.window k) % w = k ∧
        lo ≤ key (r.window k) ∧
        key (r.window k) ≤ hi ∧
        good (r.window k)

namespace Holds

variable {w lo hi : Int}
variable {key : β → Int}
variable {good : β → Prop}
variable {r : RingBuffer β}

theorem slot_range
    (hw : 0 < w)
    (s : Int) :
    0 ≤ s % w ∧ s % w < w :=
  ⟨Int.emod_nonneg _ (by omega), Int.emod_lt_of_pos _ hw⟩

/-
  The slot of a number close enough to the range carries
  that very number when it is in use.
-/
theorem key_eq
    (h : Holds w lo hi key good r)
    (hw : 0 < w)
    {s : Int}
    (hLo : hi < s + w)
    (hHi : s < lo + w)
    (hSet : r.buffer (s % w) = true) :
    key (r.window (s % w)) = s := by
  have hRange := slot_range hw s
  rcases h.slot _ hRange.1 hRange.2 hSet with
    ⟨hKey, hKeyLo, hKeyHi, _⟩
  exact emod_inj_of_lt hKey (by omega) (by omega)

theorem mono
    (h : Holds w lo hi key good r)
    {lo' hi' : Int}
    {good' : β → Prop}
    (hLo : lo' ≤ lo)
    (hHi : hi ≤ hi')
    (hGood : ∀ x, good x → good' x) :
    Holds w lo' hi' key good' r where
  count := h.count
  slot := by
    intro k hk hkw hSet
    rcases h.slot k hk hkw hSet with
      ⟨hKey, hKeyLo, hKeyHi, hKeyGood⟩
    exact
      ⟨hKey, by omega, by omega, hGood _ hKeyGood⟩

/- A good item in range may be stored in its free slot. -/
theorem store
    (h : Holds w lo hi key good r)
    (hw : 0 < w)
    {x : β}
    (hFree : r.buffer (key x % w) = false)
    (hLo : lo ≤ key x)
    (hHi : key x ≤ hi)
    (hGood : good x) :
    Holds w lo hi key good (r.store (key x % w) x) where
  count := by
    have hCard :=
      card_occupied_set (slot_range hw (key x)) hFree
    have hCount := h.count
    simp only [RingBuffer.store]
    omega
  slot := by
    intro k hk hkw hSet
    by_cases hSame : k = key x % w
    · subst hSame
      simp [RingBuffer.store, hLo, hHi, hGood]
    · simp only [RingBuffer.store, Function.update_of_ne hSame]
        at hSet ⊢
      exact h.slot k hk hkw hSet

/- Releasing a slot in use keeps the rest in order. -/
theorem release
    (h : Holds w lo hi key good r)
    {k : Int}
    (hk : 0 ≤ k ∧ k < w)
    (hSet : r.buffer k = true) :
    Holds w lo hi key good (r.release k) where
  count := by
    have hCard := card_occupied_clear hk hSet
    have hCount := h.count
    simp only [RingBuffer.release]
    omega
  slot := by
    intro j hj hjw hSetJ
    by_cases hSame : j = k
    · subst hSame
      simp [RingBuffer.release] at hSetJ
    · simp only [RingBuffer.release, Function.update_of_ne hSame]
        at hSetJ
      exact h.slot j hj hjw hSetJ

/- The lower end moves up when its own slot is free. -/
theorem raise
    (h : Holds w lo hi key good r)
    (hFree : r.buffer (lo % w) = false) :
    Holds w (lo + 1) hi key good r where
  count := h.count
  slot := by
    intro k hk hkw hSet
    rcases h.slot k hk hkw hSet with
      ⟨hKey, hKeyLo, hKeyHi, hKeyGood⟩
    have hNe : key (r.window k) ≠ lo := by
      intro hEq
      rw [← hKey, hEq, hFree] at hSet
      cases hSet
    exact ⟨hKey, by omega, hKeyHi, hKeyGood⟩

/- No numbers are left for an empty range. -/
theorem zero_of_lt
    (h : Holds w lo hi key good r)
    (hEmpty : hi < lo) :
    r.buffersize = 0 := by
  have hNone : occupied w r.buffer = ∅ := by
    apply Finset.eq_empty_of_forall_notMem
    intro k hMem
    rcases mem_occupied_iff.mp hMem with ⟨hLt, hSet⟩
    rcases h.slot k (by omega) hLt hSet with
      ⟨_, hLo, hHi, _⟩
    omega
  rw [h.count, hNone, Finset.card_empty, Int.ofNat_zero]

/-
  Releasing the slot of the lower end moves the end up.
-/
theorem release_raise
    (h : Holds w lo hi key good r)
    (hw : 0 < w)
    (hSet : r.buffer (lo % w) = true) :
    Holds w (lo + 1) hi key good (r.release (lo % w)) := by
  apply (h.release (slot_range hw lo) hSet).raise
  exact Function.update_self _ _ _

/- A counter at zero means that every slot is free. -/
theorem free_of_zero
    (h : Holds w lo hi key good r)
    (hZero : r.buffersize = 0)
    {k : Int}
    (hk : 0 ≤ k ∧ k < w) :
    r.buffer k = false := by
  by_contra hSet
  have hPos :=
    card_occupied_pos hk (Bool.eq_true_of_not_eq_false hSet)
  have hCount := h.count
  omega

/- With every slot free, any range holds. -/
theorem of_zero
    (h : Holds w lo hi key good r)
    (hZero : r.buffersize = 0)
    (lo' hi' : Int)
    (good' : β → Prop) :
    Holds w lo' hi' key good' r where
  count := h.count
  slot := by
    intro k hk hkw hSet
    rw [h.free_of_zero hZero ⟨hk, hkw⟩] at hSet
    cases hSet

theorem items_of_zero
    (h : Holds w lo hi key good r)
    (hZero : r.buffersize = 0)
    (x : β) :
    x ∉ r.items w := by
  intro hMem
  rcases mem_items_iff.mp hMem with ⟨k, hk, hSet, _⟩
  rw [h.free_of_zero hZero hk] at hSet
  cases hSet

/- The items lie in the range. -/
theorem key_range
    (h : Holds w lo hi key good r)
    {x : β}
    (hMem : x ∈ r.items w) :
    lo ≤ key x ∧ key x ≤ hi := by
  rcases mem_items_iff.mp hMem with ⟨k, hk, hSet, rfl⟩
  rcases h.slot k hk.1 hk.2 hSet with ⟨_, hLo, hHi, _⟩
  exact ⟨hLo, hHi⟩

/- An item lies in the slot of its number. -/
theorem window_key
    (h : Holds w lo hi key good r)
    {x : β}
    (hMem : x ∈ r.items w) :
    r.window (key x % w) = x := by
  rcases mem_items_iff.mp hMem with ⟨k, hk, hSet, rfl⟩
  rcases h.slot k hk.1 hk.2 hSet with ⟨hKey, _⟩
  rw [hKey]

/-
  For a number close enough to the range, its slot is in use
  if and only if the ring has an item of that number.
-/
theorem set_iff
    (h : Holds w lo hi key good r)
    (hw : 0 < w)
    {s : Int}
    (hLo : hi < s + w)
    (hHi : s < lo + w) :
    r.buffer (s % w) = true ↔
      ∃ x ∈ r.items w, key x = s := by
  constructor
  · intro hSet
    refine
      ⟨r.window (s % w), ?_, h.key_eq hw hLo hHi hSet⟩
    exact mem_items_iff.mpr ⟨_, slot_range hw s, hSet, rfl⟩
  · rintro ⟨x, hMem, rfl⟩
    rcases mem_items_iff.mp hMem with ⟨k, hk, hSet, rfl⟩
    rcases h.slot k hk.1 hk.2 hSet with ⟨hKey, _⟩
    rw [hKey]
    exact hSet

/- Releasing its slot removes the item at the lower end. -/
theorem mem_items_release
    (h : Holds w lo hi key good r)
    (hw : 0 < w)
    (hSpan : hi < lo + w)
    {x : β} :
    x ∈ (r.release (lo % w)).items w ↔
      x ∈ r.items w ∧ key x ≠ lo := by
  simp only [mem_items_iff, RingBuffer.release]
  constructor
  · rintro ⟨k, hk, hSet, rfl⟩
    have hNe : k ≠ lo % w := by
      rintro rfl
      simp at hSet
    rw [Function.update_of_ne hNe] at hSet
    refine ⟨⟨k, hk, hSet, rfl⟩, ?_⟩
    intro hKey
    rcases h.slot k hk.1 hk.2 hSet with ⟨hSlot, _⟩
    rw [hKey] at hSlot
    exact hNe hSlot.symm
  · rintro ⟨⟨k, hk, hSet, rfl⟩, hKey⟩
    have hNe : k ≠ lo % w := by
      rintro rfl
      exact hKey (h.key_eq hw hSpan (by omega) hSet)
    refine ⟨k, hk, ?_, rfl⟩
    rw [Function.update_of_ne hNe]
    exact hSet

/- A counter at `w` means that every slot is in use. -/
theorem set_of_full
    (h : Holds w lo hi key good r)
    (hFull : r.buffersize = w)
    {k : Int}
    (hk : 0 ≤ k ∧ k < w) :
    r.buffer k = true := by
  by_contra hFree
  have hLt :=
    card_occupied_lt hk (Bool.eq_false_of_not_eq_true hFree)
  have hCount := h.count
  omega

/- Contents of free slots do not matter. -/
theorem congr_window
    (h : Holds w lo hi key good r)
    {window : Int → β}
    (hSame :
      ∀ k, r.buffer k = true → window k = r.window k) :
    Holds w lo hi key good { r with window := window } where
  count := h.count
  slot := by
    intro k hk hkw hSet
    simp only [hSame k hSet]
    exact h.slot k hk hkw hSet

/- The empty ring. -/
theorem empty
    (window : Int → β) :
    Holds w lo hi key good
      { buffer := fun _ => false
        window := window
        buffersize := 0 } where
  count := by simp [occupied]
  slot := by
    intro k _ _ hSet
    cases hSet

theorem count_nonneg
    (h : Holds w lo hi key good r) :
    0 ≤ r.buffersize := by
  have hCount := h.count
  omega

end Holds

end RingBuffer

end Lib

end Cs2520
