import Cs2520.P1.Rcv

/-
  The receiver's reorder window and the file it writes.

  `Assembled` is the receiver's invariant: an exact counter,
  slots that carry their own packets from the stated range,
  and a file whose i-th payload is that of a packet i. One
  data packet keeps it unless the expected packet arrives
  while all slots are in use.

  Main declarations:
    * `Numbered`
    * `Assembled`
    * `drain_inOrder`
    * `drain_stop`
    * `Assembled.expected`
    * `Assembled.outOfOrder`
    * `reassembled_iff_never_full`
    * `not_reassembled_full`
-/

------------------------------------------------------------
-- The Invariant
------------------------------------------------------------

namespace Cs2520

namespace P1

namespace Rcv

open Lib

variable {A ρ δ β : Type}

/- The i-th payload is that of a good packet numbered i. -/
def Numbered
    (good : Packet β → Prop)
    (fw : List β) : Prop :=
  ∀ i (hi : i < fw.length),
    ∃ p, good p ∧ p.hdr.seq = (i : Int) + 1 ∧
      p.data = fw[i]

/-
  Slots carry good packets of their own number from
  `lo .. hi`, and the file is numbered up to `C_ack`.
-/
structure InOrder
    (good : Packet β → Prop)
    (lo hi : Int)
    (r : Rcv A β) : Prop where
  ring :
    RingBuffer.Holds windowSize lo hi
      (fun p => p.hdr.seq) good r.toRingBuffer
  count : r.cAck = r.fw.length
  file : Numbered good r.fw

/-
  The stated range of the window is
  `C_ack + 2 .. C_ack + Window_size + 1`.
-/
def Assembled
    (good : Packet β → Prop)
    (r : Rcv A β) : Prop :=
  InOrder good (r.cAck + 2) (r.cAck + 1 + windowSize) r

theorem Numbered.mono
    {good good' : Packet β → Prop}
    {fw : List β}
    (h : Numbered good fw)
    (hGood : ∀ p, good p → good' p) :
    Numbered good' fw := by
  intro i hi
  rcases h i hi with ⟨p, hp, hSeq, hData⟩
  exact ⟨p, hGood p hp, hSeq, hData⟩

/- The next packet's payload may be appended. -/
theorem Numbered.append
    {good : Packet β → Prop}
    {fw : List β}
    (h : Numbered good fw)
    {p : Packet β}
    (hp : good p)
    (hSeq : p.hdr.seq = (fw.length : Int) + 1) :
    Numbered good (fw ++ [p.data]) := by
  intro i hi
  by_cases hOld : i < fw.length
  · rcases h i hOld with ⟨q, hq, hqSeq, hqData⟩
    refine ⟨q, hq, hqSeq, ?_⟩
    rw [List.getElem_append_left hOld, hqData]
  · have hLast : i = fw.length := by
      simp only [List.length_append, List.length_singleton]
        at hi
      omega
    subst hLast
    refine ⟨p, hp, hSeq, ?_⟩
    simp

theorem InOrder.mono
    {good good' : Packet β → Prop}
    {lo hi lo' hi' : Int}
    {r : Rcv A β}
    (h : InOrder good lo hi r)
    (hLo : lo' ≤ lo)
    (hHi : hi ≤ hi')
    (hGood : ∀ p, good p → good' p) :
    InOrder good' lo' hi' r where
  ring := h.ring.mono hLo hHi hGood
  count := h.count
  file := h.file.mono hGood

theorem Assembled.mono
    {good good' : Packet β → Prop}
    {r : Rcv A β}
    (h : Assembled good r)
    (hGood : ∀ p, good p → good' p) :
    Assembled good' r :=
  InOrder.mono h (by omega) (by omega) hGood

theorem Assembled.cAck_nonneg
    {good : Packet β → Prop}
    {r : Rcv A β}
    (h : Assembled good r) :
    0 ≤ r.cAck := by
  have hCount := h.count
  omega

/- The invariant reads only the ring, `C_ack` and the file. -/
theorem InOrder.congr
    {good : Packet β → Prop}
    {lo hi : Int}
    {r r' : Rcv A β}
    (h : InOrder good lo hi r)
    (hRing : r'.toRingBuffer = r.toRingBuffer)
    (hAck : r'.cAck = r.cAck)
    (hFile : r'.fw = r.fw) :
    InOrder good lo hi r' where
  ring := by rw [hRing]; exact h.ring
  count := by rw [hAck, hFile]; exact h.count
  file := by rw [hFile]; exact h.file

end Rcv

end P1

end Cs2520

------------------------------------------------------------
-- The Drain Loop
------------------------------------------------------------

namespace Cs2520

namespace P1

namespace Rcv

open Lib

variable {A ρ δ β : Type}
variable (w : Wire ρ δ β)
variable {good : Packet β → Prop}
variable {hi : Int}

theorem windowSize_pos : 0 < windowSize := by decide

@[simp] theorem takeSlot_cAck
    (r : Rcv A β)
    (k : Int) :
    (r.takeSlot w k).cAck = r.cAck + 1 := rfl

@[simp] theorem takeSlot_buffersize
    (r : Rcv A β)
    (k : Int) :
    (r.takeSlot w k).buffersize = r.buffersize - 1 := rfl

@[simp] theorem takeSlot_buffer
    (r : Rcv A β)
    (k : Int) :
    (r.takeSlot w k).buffer =
      Function.update r.buffer k false := rfl

/- Taking the slot of `C_ack + 1` prints that packet. -/
theorem takeSlot_inOrder
    {r : Rcv A β}
    (h : InOrder good (r.cAck + 1) hi r)
    (hSpan : hi < r.cAck + 1 + windowSize)
    (hSet : r.buffer ((r.cAck + 1) % windowSize) = true) :
    InOrder good (r.cAck + 1 + 1) hi
      (r.takeSlot w ((r.cAck + 1) % windowSize)) := by
  have hRange :=
    RingBuffer.Holds.slot_range windowSize_pos (r.cAck + 1)
  have hKey :=
    h.ring.key_eq windowSize_pos (s := r.cAck + 1)
      (by omega) (by omega) hSet
  have hSlot := h.ring.slot _ hRange.1 hRange.2 hSet
  have hFreed :
      Function.update r.buffer
          ((r.cAck + 1) % windowSize) false
          ((r.cAck + 1) % windowSize) = false :=
    Function.update_self _ _ _
  refine ⟨?_, ?_, ?_⟩
  · have hReleased :=
      (h.ring.release hRange hSet).raise hFreed
    apply hReleased.congr_window
    intro k hk
    have hNe : k ≠ (r.cAck + 1) % windowSize := by
      rintro rfl
      have hFalse :
          Function.update r.buffer
              ((r.cAck + 1) % windowSize) false
              ((r.cAck + 1) % windowSize) = true := hk
      rw [hFreed] at hFalse
      cases hFalse
    exact Function.update_of_ne hNe _ _
  · simp [takeSlot, h.count]
  · apply h.file.append hSlot.2.2.2
    have hCount := h.count
    omega

/- The loop goes on while slot `j` is in use. -/
theorem drain_take
    {n : Nat}
    {j : Int}
    {r : Rcv A β}
    (hGo :
      0 < r.buffersize ∧ r.buffer (j % windowSize) = true) :
    drain w (n + 1) j r =
      ((drain w n (j + 1)
          (r.takeSlot w (j % windowSize))).1,
        .printSlot (j % windowSize)
            (r.window (j % windowSize)).data ::
          (drain w n (j + 1)
            (r.takeSlot w (j % windowSize))).2) := by
  rw [drain, if_pos hGo.1, if_pos hGo.2]

theorem drain_halt
    {n : Nat}
    {j : Int}
    {r : Rcv A β}
    (hStop :
      ¬ (0 < r.buffersize ∧
        r.buffer (j % windowSize) = true)) :
    drain w (n + 1) j r = (r, []) := by
  rw [drain]
  by_cases hSize : 0 < r.buffersize
  · rw [if_pos hSize, if_neg (fun hSet => hStop ⟨hSize, hSet⟩)]
  · rw [if_neg hSize]

/- Draining keeps the order up to the new `C_ack`. -/
theorem drain_inOrder
    (n : Nat)
    {r : Rcv A β}
    (h : InOrder good (r.cAck + 1) hi r)
    (hSpan : hi < r.cAck + 1 + windowSize) :
    InOrder good ((drain w n (r.cAck + 1) r).1.cAck + 1) hi
      (drain w n (r.cAck + 1) r).1 := by
  induction n generalizing r with
  | zero => exact h
  | succ n ih =>
      by_cases hGo :
          0 < r.buffersize ∧
            r.buffer ((r.cAck + 1) % windowSize) = true
      · rw [drain_take w hGo]
        have hNext := takeSlot_inOrder w h hSpan hGo.2
        exact ih (r := r.takeSlot w _) hNext (by
          rw [takeSlot_cAck]
          omega)
      · rw [drain_halt w hGo]
        exact h

/- Each drained slot counts once on either side. -/
theorem drain_count
    (n : Nat)
    (j : Int)
    (r : Rcv A β) :
    r.cAck ≤ (drain w n j r).1.cAck ∧
      (drain w n j r).1.cAck ≤ r.cAck + n ∧
      (drain w n j r).1.buffersize +
          (drain w n j r).1.cAck =
        r.buffersize + r.cAck := by
  induction n generalizing j r with
  | zero => simp [drain]
  | succ n ih =>
      by_cases hGo :
          0 < r.buffersize ∧
            r.buffer (j % windowSize) = true
      · have hRest :=
          ih (j + 1) (r.takeSlot w (j % windowSize))
        rw [takeSlot_cAck, takeSlot_buffersize] at hRest
        rw [drain_take w hGo]
        push_cast
        omega
      · rw [drain_halt w hGo]
        push_cast
        omega

/-
  The loop stops on an empty buffer, at a free slot, or when
  `j` has taken all its values.
-/
theorem drain_stop
    (n : Nat)
    (r : Rcv A β) :
    (drain w n (r.cAck + 1) r).1.buffersize ≤ 0 ∨
      (drain w n (r.cAck + 1) r).1.buffer
          (((drain w n (r.cAck + 1) r).1.cAck + 1) %
            windowSize) = false ∨
      (drain w n (r.cAck + 1) r).1.cAck = r.cAck + n := by
  induction n generalizing r with
  | zero => simp [drain]
  | succ n ih =>
      by_cases hGo :
          0 < r.buffersize ∧
            r.buffer ((r.cAck + 1) % windowSize) = true
      · have hRest :=
          ih (r.takeSlot w ((r.cAck + 1) % windowSize))
        rw [takeSlot_cAck] at hRest
        rw [drain_take w hGo]
        rcases hRest with hEmpty | hFree | hAll
        · exact Or.inl hEmpty
        · exact Or.inr (Or.inl hFree)
        · exact Or.inr (Or.inr (by push_cast; omega))
      · rw [drain_halt w hGo]
        by_cases hSize : 0 < r.buffersize
        · have hFree :=
            Bool.eq_false_of_not_eq_true
              (fun hSet => hGo ⟨hSize, hSet⟩)
          exact Or.inr (Or.inl hFree)
        · exact Or.inl (by simpa using hSize)

/- Slots above the drained ones stay as they were. -/
theorem drain_untouched
    (n : Nat)
    (r : Rcv A β)
    {s : Int}
    (hLo : (drain w n (r.cAck + 1) r).1.cAck < s)
    (hHi : s ≤ r.cAck + windowSize) :
    (drain w n (r.cAck + 1) r).1.buffer (s % windowSize) =
        r.buffer (s % windowSize) ∧
      (drain w n (r.cAck + 1) r).1.window (s % windowSize) =
        r.window (s % windowSize) := by
  induction n generalizing r with
  | zero => exact ⟨rfl, rfl⟩
  | succ n ih =>
      by_cases hGo :
          0 < r.buffersize ∧
            r.buffer ((r.cAck + 1) % windowSize) = true
      · have hCount :=
          drain_count w n (r.cAck + 1 + 1)
            (r.takeSlot w ((r.cAck + 1) % windowSize))
        rw [drain_take w hGo] at hLo ⊢
        dsimp only at hLo ⊢
        have hRest :=
          ih (r.takeSlot w ((r.cAck + 1) % windowSize))
            hLo (by rw [takeSlot_cAck]; omega)
        rw [takeSlot_cAck] at hCount hRest
        have hNe :
            s % windowSize ≠ (r.cAck + 1) % windowSize :=
          emod_ne_of_lt (by omega) (by omega) (by omega)
        exact
          ⟨hRest.1.trans (Function.update_of_ne hNe _ _),
            hRest.2.trans (Function.update_of_ne hNe _ _)⟩
      · rw [drain_halt w hGo]
        exact ⟨rfl, rfl⟩

/- The search itself only prints slots. -/
theorem mem_drain
    {n : Nat}
    {j : Int}
    {r : Rcv A β}
    {o : Out A β}
    (hMem : o ∈ (drain w n j r).2) :
    ∃ k buf, o = .printSlot k buf := by
  induction n generalizing j r with
  | zero => cases hMem
  | succ n ih =>
      by_cases hGo :
          0 < r.buffersize ∧
            r.buffer (j % windowSize) = true
      · rw [drain_take w hGo] at hMem
        rcases List.mem_cons.mp hMem with hHead | hRest
        · exact ⟨_, _, hHead⟩
        · exact ih hRest
      · rw [drain_halt w hGo] at hMem
        cases hMem

/- Draining touches nothing but the ring and the file. -/
theorem drain_frame
    (n : Nat)
    (j : Int)
    (r : Rcv A β) :
    (drain w n j r).1 =
      { r with
        toRingBuffer := (drain w n j r).1.toRingBuffer
        cAck := (drain w n j r).1.cAck
        fw := (drain w n j r).1.fw } := by
  induction n generalizing j r with
  | zero => rfl
  | succ n ih =>
      by_cases hGo :
          0 < r.buffersize ∧
            r.buffer (j % windowSize) = true
      · rw [drain_take w hGo]
        exact ih (j + 1) (r.takeSlot w (j % windowSize))
      · rw [drain_halt w hGo]

end Rcv

end P1

end Cs2520

------------------------------------------------------------
-- One Data Packet
------------------------------------------------------------

namespace Cs2520

namespace P1

namespace Rcv

open Lib

variable {A ρ δ β : Type}
variable (w : Wire ρ δ β)
variable {good : Packet β → Prop}

/- The state of Case 1 after the search. -/
def drained
    (r : Rcv A β) : Rcv A β :=
  (drain w
    (r.cAck + 1 + windowSize - (r.cAck + 2)).toNat
    (r.cAck + 2) (r.printData w)).1

/-
  Both subcases of Case 1 leave the drained state: with an
  empty buffer there is nothing to search.
-/
theorem expected_agrees
    (r : Rcv A β) :
    (r.expected w).1.toRingBuffer =
        (r.drained w).toRingBuffer ∧
      (r.expected w).1.cAck = (r.drained w).cAck ∧
      (r.expected w).1.fw = (r.drained w).fw := by
  unfold expected drained
  by_cases hEmpty : r.buffersize = 0
  · rw [if_pos hEmpty]
    have hPasses :
        (r.cAck + 1 + windowSize - (r.cAck + 2)).toNat =
          98 + 1 := by
      simp only [windowSize]
      omega
    have hHalt :
        ¬ (0 < (r.printData w).buffersize ∧
          (r.printData w).buffer
            ((r.cAck + 2) % windowSize) = true) := by
      rintro ⟨hPos, _⟩
      have hZero : (r.printData w).buffersize = 0 := hEmpty
      omega
    rw [hPasses, drain_halt w hHalt]
    exact ⟨rfl, rfl, rfl⟩
  · rw [if_neg hEmpty]
    exact ⟨rfl, rfl, rfl⟩

theorem drained_eq
    (r : Rcv A β) :
    r.drained w =
      (drain w 99 ((r.printData w).cAck + 1)
        (r.printData w)).1 := by
  have hPasses :
      (r.cAck + 1 + windowSize - (r.cAck + 2)).toNat =
        99 := by
    simp only [windowSize]
    omega
  have hFirst :
      r.cAck + 2 = (r.printData w).cAck + 1 := by
    simp only [printData]
    omega
  rw [drained, hPasses, hFirst]

/- The file grows by the expected packet first. -/
theorem printData_inOrder
    {r : Rcv A β}
    (h : Assembled good r)
    (hGood : good r.messBuf)
    (hSeq : r.messBuf.hdr.seq = r.cAck + 1) :
    InOrder good ((r.printData w).cAck + 1)
      (r.cAck + 1 + windowSize) (r.printData w) := by
  have hCount := h.count
  have hRange :
      (r.printData w).cAck + 1 = r.cAck + 2 := by
    simp only [printData]
    omega
  refine ⟨?_, ?_, ?_⟩
  · rw [hRange]
    exact h.ring
  · simp [printData, hCount]
  · exact h.file.append hGood (by omega)

/-
  The expected packet keeps the invariant while some slot is
  free: if the search uses up its range, all slots are free.
-/
theorem Assembled.expected
    {r : Rcv A β}
    (h : Assembled good r)
    (hGood : good r.messBuf)
    (hSeq : r.messBuf.hdr.seq = r.cAck + 1)
    (hRoom : r.buffersize < windowSize) :
    Assembled good (r.expected w).1 := by
  rcases expected_agrees w r with ⟨hRing, hAck, hFile⟩
  suffices hDrained : Assembled good (r.drained w) by
    unfold Assembled
    rw [hAck]
    exact hDrained.congr hRing hAck hFile
  have hStart := printData_inOrder w h hGood hSeq
  have hPrinted : (r.printData w).cAck = r.cAck + 1 := rfl
  have hSize :
      (r.printData w).buffersize = r.buffersize := rfl
  have hOrder :=
    drain_inOrder w 99 hStart
      (by simp only [windowSize]; omega)
  have hCount :=
    drain_count w 99 ((r.printData w).cAck + 1)
      (r.printData w)
  have hStop := drain_stop w 99 (r.printData w)
  rw [← drained_eq] at hOrder hCount hStop
  have hNonneg := hOrder.ring.count_nonneg
  simp only [windowSize] at hRoom
  by_cases hZero : (r.drained w).buffersize = 0
  · exact
      ⟨hOrder.ring.of_zero hZero _ _ _,
        hOrder.count, hOrder.file⟩
  · have hFree :
        (r.drained w).buffer
          (((r.drained w).cAck + 1) % windowSize) =
            false := by
      rcases hStop with hEmpty | hFree | hAll
      · omega
      · exact hFree
      · omega
    have hRaised :
        InOrder good ((r.drained w).cAck + 1 + 1)
          (r.cAck + 1 + windowSize) (r.drained w) :=
      ⟨hOrder.ring.raise hFree, hOrder.count, hOrder.file⟩
    exact
      hRaised.mono (by omega)
        (by simp only [windowSize]; omega)
        (fun _ hp => hp)

/-
  With all slots in use the search takes every packet but
  one, whose slot stays as it was.
-/
theorem drained_of_full
    {r : Rcv A β}
    (h : Assembled good r)
    (hFull : r.buffersize = windowSize) :
    (r.drained w).cAck = r.cAck + windowSize ∧
      ∀ k,
        k = ((r.drained w).cAck + 1) % windowSize →
          (r.drained w).buffer k = true ∧
            (r.drained w).window k = r.window k := by
  have hSize :
      (r.printData w).buffersize = r.buffersize := rfl
  have hLast : (r.printData w).cAck = r.cAck + 1 := rfl
  have hCount :=
    drain_count w 99 ((r.printData w).cAck + 1)
      (r.printData w)
  have hStop := drain_stop w 99 (r.printData w)
  have hSame :=
    drain_untouched w 99 (r.printData w)
      (s := (r.drained w).cAck + 1)
      (by rw [drained_eq]; omega)
  rw [← drained_eq] at hCount hStop hSame
  simp only [windowSize] at hFull
  have hKept :=
    hSame (by simp only [windowSize]; omega)
  have hSet :
      (r.drained w).buffer
        (((r.drained w).cAck + 1) % windowSize) = true := by
    rw [hKept.1]
    apply h.ring.set_of_full hFull
    exact RingBuffer.Holds.slot_range windowSize_pos _
  constructor
  · simp only [windowSize]
    rcases hStop with hEmpty | hFree | hAll
    · omega
    · rw [hSet] at hFree
      cases hFree
    · omega
  · intro k hk
    subst hk
    exact ⟨hSet, hKept.2⟩

/-
  The packet left in the window is the one that is now
  `C_ack + 1`, below the stated range.
-/
theorem not_assembled_expected_of_full
    {r : Rcv A β}
    (good' : Packet β → Prop)
    (h : Assembled good r)
    (hFull : r.buffersize = windowSize) :
    ¬ Assembled good' (r.expected w).1 := by
  intro hAfter
  rcases expected_agrees w r with ⟨hRing, hAck, _⟩
  rcases drained_of_full w h hFull with ⟨hEnd, hSlots⟩
  rcases hSlots _ rfl with ⟨hSet, hKept⟩
  have hRange :=
    RingBuffer.Holds.slot_range windowSize_pos
      ((r.drained w).cAck + 1)
  have hKey :
      (r.window
        (((r.drained w).cAck + 1) % windowSize)).hdr.seq =
          (r.drained w).cAck + 1 :=
    h.ring.key_eq windowSize_pos
      (by simp only [windowSize] at hEnd ⊢; omega)
      (by simp only [windowSize] at hEnd ⊢; omega)
      (h.ring.set_of_full hFull hRange)
  have hSlot :=
    hAfter.ring.slot _ hRange.1 hRange.2
      (by rw [hRing]; exact hSet)
  rw [hRing, hAck, hKept] at hSlot
  have hLow := hSlot.2.1
  rw [hKey] at hLow
  omega

/- Case 2 stores a packet of the stated range, or nothing. -/
theorem Assembled.outOfOrder
    {r : Rcv A β}
    (h : Assembled good r)
    (hGood :
      r.cAck + 2 ≤ r.messBuf.hdr.seq → good r.messBuf) :
    Assembled good r.outOfOrder.1 := by
  unfold Rcv.outOfOrder
  dsimp only
  split
  · next hRange =>
      split
      · next hFree =>
          have hStored :
              Assembled good
                { r with
                  toRingBuffer :=
                    r.toRingBuffer.store
                      (r.messBuf.hdr.seq % windowSize)
                      r.messBuf } :=
            ⟨h.ring.store windowSize_pos hFree
              hRange.1 hRange.2 (hGood hRange.1),
              h.count, h.file⟩
          split
          · split
            · exact hStored.congr rfl rfl rfl
            · exact hStored.congr rfl rfl rfl
          · exact hStored
      · exact h
  · exact h

end Rcv

end P1

end Cs2520

------------------------------------------------------------
-- Sessions
------------------------------------------------------------

namespace Cs2520

namespace P1

namespace Rcv

open Lib

variable {A ρ δ β : Type}
variable (w : Wire ρ δ β)
variable {good : Packet β → Prop}

/- The receiver has an open session with sender `a`. -/
structure Serves
    (r : Rcv A β)
    (a : A) : Prop where
  running : r.exited = false
  hassender : r.hassender = true
  current : r.current = a

/- An idle receiver that can open the file of this packet. -/
structure Accepts
    (canOpen : β → Bool)
    (r : Rcv A β)
    (pkt : Packet δ) : Prop where
  running : r.exited = false
  idle : r.hassender = false
  filename : pkt.hdr.seq = 0
  opens :
    canOpen (w.recvfrom r.messBuf.data pkt.data) = true

theorem expected_frame
    (r : Rcv A β) :
    (r.expected w).1.exited = r.exited ∧
      (r.expected w).1.hassender = r.hassender ∧
      (r.expected w).1.current = r.current ∧
      (r.expected w).1.fromAddr = r.fromAddr := by
  unfold expected
  by_cases hEmpty : r.buffersize = 0
  · rw [if_pos hEmpty]
    exact ⟨rfl, rfl, rfl, rfl⟩
  · rw [if_neg hEmpty]
    dsimp only [echo]
    rw [drain_frame]
    exact ⟨rfl, rfl, rfl, rfl⟩

theorem outOfOrder_frame
    (r : Rcv A β) :
    r.outOfOrder.1.exited = r.exited ∧
      r.outOfOrder.1.hassender = r.hassender ∧
      r.outOfOrder.1.current = r.current ∧
      r.outOfOrder.1.fromAddr = r.fromAddr ∧
      r.outOfOrder.1.cAck = r.cAck ∧
      r.outOfOrder.1.fw = r.fw := by
  unfold outOfOrder
  dsimp only [echo]
  split_ifs <;> exact ⟨rfl, rfl, rfl, rfl, rfl, rfl⟩

variable [DecidableEq A]
variable (canOpen : β → Bool)

/- Accepting a filename starts an empty session. -/
variable (good) in
theorem step_accept
    {r : Rcv A β}
    (a : A)
    {pkt : Packet δ}
    (h : Accepts w canOpen r pkt) :
    Serves (step w canOpen r (.recv a pkt)).1 a ∧
      Assembled good
        (step w canOpen r (.recv a pkt)).1 ∧
      (step w canOpen r (.recv a pkt)).1.fw = [] ∧
      (step w canOpen r (.recv a pkt)).1.cAck = 0 := by
  rcases h with ⟨hRunning, hIdle, hName, hOpens⟩
  have hStep :
      step w canOpen r (.recv a pkt) =
        (r.recvfrom w a pkt).accept canOpen := by
    simp [step, recv, recvfrom, hRunning, hIdle, hName]
  have hCan :
      canOpen (r.recvfrom w a pkt).messBuf.data = true :=
    hOpens
  rw [hStep, accept]
  dsimp only [echo]
  rw [if_pos hCan]
  refine ⟨⟨hRunning, rfl, rfl⟩, ⟨?_, rfl, ?_⟩, rfl, rfl⟩
  · exact RingBuffer.Holds.empty _
  · intro i hi
    simp at hi

/- A data packet of the current sender is Case 1 or Case 2. -/
theorem step_data
    {r : Rcv A β}
    {a : A}
    {pkt : Packet δ}
    (hServes : Serves r a)
    (hData : pkt.hdr.seq ≠ -1) :
    step w canOpen r (.recv a pkt) =
      if pkt.hdr.seq = r.cAck + 1 then
        (r.recvfrom w a pkt).expected w
      else
        (r.recvfrom w a pkt).outOfOrder := by
  rcases hServes with ⟨hRunning, hOpen, hCurrent⟩
  simp [step, recv, recvfrom, hRunning, hOpen, hCurrent,
    hData]

/- Data packets leave the session open. -/
theorem Serves.step_data
    {r : Rcv A β}
    {a : A}
    (hServes : Serves r a)
    {pkt : Packet δ}
    (hData : pkt.hdr.seq ≠ -1) :
    Serves (step w canOpen r (.recv a pkt)).1 a := by
  rw [Rcv.step_data w canOpen hServes hData]
  rcases hServes with ⟨hRunning, hOpen, hCurrent⟩
  split
  · rcases expected_frame w (r.recvfrom w a pkt) with
      ⟨hExited, hSender, hAddr, _⟩
    exact
      ⟨hExited.trans hRunning, hSender.trans hOpen,
        hAddr.trans hCurrent⟩
  · rcases outOfOrder_frame (r.recvfrom w a pkt) with
      ⟨hExited, hSender, hAddr, _⟩
    exact
      ⟨hExited.trans hRunning, hSender.trans hOpen,
        hAddr.trans hCurrent⟩

/- The expected packet arrives while all slots are in use. -/
def FullAtExpected
    (r : Rcv A β) : Ev A δ → Prop
  | .timer => False
  | .recv _ pkt =>
      pkt.hdr.seq = r.cAck + 1 ∧ r.buffersize = windowSize

/- One data packet keeps the invariant unless it is full. -/
theorem Assembled.step_data
    {r : Rcv A β}
    {a : A}
    (h : Assembled good r)
    (hServes : Serves r a)
    {pkt : Packet δ}
    (hData : pkt.hdr.seq ≠ -1)
    (hGood :
      r.cAck + 1 ≤ pkt.hdr.seq →
        good (r.recvfrom w a pkt).messBuf)
    (hRoom : ¬ FullAtExpected r (.recv a pkt)) :
    Assembled good
      (step w canOpen r (.recv a pkt)).1 := by
  rw [Rcv.step_data w canOpen hServes hData]
  have hStart : Assembled good (r.recvfrom w a pkt) :=
    h.congr rfl rfl rfl
  split
  · next hSeq =>
      apply hStart.expected w (hGood hSeq.ge) hSeq
      have hLe :=
        RingBuffer.card_occupied_le
          windowSize_pos.le r.buffer
      have hCount := h.ring.count
      have hNe : r.buffersize ≠ windowSize :=
        fun hFull => hRoom ⟨hSeq, hFull⟩
      have hSame :
          (r.recvfrom w a pkt).buffersize =
            r.buffersize := rfl
      omega
  · apply hStart.outOfOrder
    intro hAhead
    apply hGood
    have hSame :
        (r.recvfrom w a pkt).messBuf.hdr.seq =
          pkt.hdr.seq := rfl
    have hAck : (r.recvfrom w a pkt).cAck = r.cAck := rfl
    omega

end Rcv

end P1

end Cs2520

------------------------------------------------------------
-- Runs of Datagrams
------------------------------------------------------------

namespace Cs2520

namespace P1

namespace Rcv

open Lib

variable {A α : Type} [DecidableEq A]
variable (canOpen : α → Bool)

/- The receiver on payloads as unstructured values. -/
abbrev opaqueMachine :
    Machine (Rcv A α) (Ev A α) (Out A α) :=
  machine (Wire.opaquePayload α) canOpen

theorem serves_run
    {r : Rcv A α}
    {a : A}
    (hServes : Serves r a)
    {ds : List (Packet α)}
    (hSeq : ∀ d ∈ ds, 0 ≤ d.hdr.seq) :
    Serves
      ((opaqueMachine canOpen).run r
        (ds.map (Ev.recv a))) a := by
  induction ds generalizing r with
  | nil => exact hServes
  | cons d ds ih =>
      have hHead := hSeq d List.mem_cons_self
      apply ih
      · exact hServes.step_data _ canOpen (by omega)
      · intro d' hMem
        exact hSeq d' (List.mem_cons_of_mem _ hMem)

/- A run over packets that never find it full keeps order. -/
theorem assembled_run
    {r : Rcv A α}
    {a : A}
    (hServes : Serves r a)
    (hInit : Assembled (fun _ => False) r)
    {ds : List (Packet α)}
    (hSeq : ∀ d ∈ ds, 0 ≤ d.hdr.seq)
    (hNever :
      ∀ e ∈ (opaqueMachine canOpen).trace r
          (ds.map (Ev.recv a)),
        ¬ FullAtExpected e.1 e.2) :
    Assembled (· ∈ ds)
      ((opaqueMachine canOpen).run r
        (ds.map (Ev.recv a))) := by
  induction ds using List.reverseRecOn with
  | nil => exact hInit.mono (fun _ hFalse => hFalse.elim)
  | append_singleton ds d ih =>
      have hEarlier : ∀ d' ∈ ds, 0 ≤ d'.hdr.seq :=
        fun d' hd' => hSeq d' (List.mem_append_left _ hd')
      have hLast : 0 ≤ d.hdr.seq := hSeq d (by simp)
      rw [List.map_append, Machine.trace_append] at hNever
      have hBefore :=
        ih hEarlier
          (fun e he => hNever e (List.mem_append_left _ he))
      rw [List.map_append, Machine.run_append]
      apply Assembled.step_data
      · exact hBefore.mono
          (fun p hp => List.mem_append_left _ hp)
      · exact serves_run canOpen hServes hEarlier
      · omega
      · intro _
        exact List.mem_append_right _
          (List.mem_singleton_self d)
      · exact
          hNever (_, _)
            (List.mem_append_right _ List.mem_cons_self)

/- An expected packet that finds it full breaks the order. -/
theorem not_assembled_of_full
    {r : Rcv A α}
    {a : A}
    {d : Packet α}
    {good good' : Packet α → Prop}
    (hServes : Serves r a)
    (hBefore : Assembled good r)
    (hFull : FullAtExpected r (.recv a d)) :
    ¬ Assembled good'
      ((opaqueMachine canOpen).step r (.recv a d)).1 := by
  have hNonneg := hBefore.cAck_nonneg
  have hSeq := hFull.1
  have hData : d.hdr.seq ≠ -1 := by omega
  have hStep :=
    step_data (Wire.opaquePayload α) canOpen hServes hData
  rw [if_pos hFull.1] at hStep
  have hStart :
      Assembled good
        (r.recvfrom (Wire.opaquePayload α) a d) :=
    hBefore.congr rfl rfl rfl
  have hNot :=
    not_assembled_expected_of_full (Wire.opaquePayload α)
      good' hStart hFull.2
  rw [← hStep] at hNot
  exact hNot

/-
  The session's datagrams are reassembled after each of them
  exactly when no expected packet finds all slots in use.
-/
theorem reassembled_iff_never_full
    (r₀ : Rcv A α)
    (a : A)
    (name : Packet α)
    (hAccept :
      Accepts (Wire.opaquePayload α) canOpen r₀ name)
    (ds : List (Packet α))
    (hSeq : ∀ d ∈ ds, 0 ≤ d.hdr.seq) :
    (∀ pre, pre <+: ds →
        Assembled (· ∈ pre)
          ((opaqueMachine canOpen).run r₀
            (.recv a name :: pre.map (Ev.recv a)))) ↔
      ∀ e ∈ (opaqueMachine canOpen).trace
          ((opaqueMachine canOpen).run r₀ [.recv a name])
          (ds.map (Ev.recv a)),
        ¬ FullAtExpected e.1 e.2 := by
  rcases step_accept (Wire.opaquePayload α)
      (fun _ => False) canOpen a hAccept with
    ⟨hServes, hInit, _, _⟩
  simp only [Machine.run_cons, Machine.run_nil]
  constructor
  · rintro hAll ⟨r, ev⟩ hMem hFull
    rcases (Machine.mem_trace_iff _ _ _ _ _).mp hMem with
      ⟨pre, post, hSplit, rfl⟩
    rcases List.map_eq_append_iff.mp hSplit with
      ⟨ds₁, rest, rfl, rfl, hRest⟩
    rcases List.map_eq_cons_iff.mp hRest with
      ⟨d, ds₂, rfl, rfl, rfl⟩
    have hBefore := hAll ds₁ (List.prefix_append _ _)
    have hAfter := hAll (ds₁ ++ [d]) ⟨ds₂, by simp⟩
    rw [List.map_append, Machine.run_append] at hAfter
    have hEarlier : ∀ d' ∈ ds₁, 0 ≤ d'.hdr.seq :=
      fun d' hd' => hSeq d' (by simp [hd'])
    have hOpen := serves_run canOpen hServes hEarlier
    exact not_assembled_of_full canOpen hOpen hBefore hFull
      hAfter
  · rintro hNever pre ⟨post, rfl⟩
    rw [List.map_append, Machine.trace_append] at hNever
    exact
      assembled_run canOpen hServes hInit
        (fun d hd => hSeq d (List.mem_append_left _ hd))
        (fun e he => hNever e (List.mem_append_left _ he))

/- The receiver at its start, before any file is open. -/
def waiting : Rcv Unit Nat :=
  initial () (chunkPacket 0) (chunkPacket 0).hdr
    (fun _ => chunkPacket 0)

theorem reassembled_iff_never_full_swapped :
    Assembled (· ∈ [chunkPacket 2, chunkPacket 1])
      ((opaqueMachine (fun _ => true)).run waiting
        (.recv () (chunkPacket 0) ::
          [chunkPacket 2, chunkPacket 1].map
            (Ev.recv ()))) :=
  (reassembled_iff_never_full (fun _ => true) waiting ()
    (chunkPacket 0) ⟨rfl, rfl, rfl, rfl⟩
    [chunkPacket 2, chunkPacket 1] (by decide)).mpr
    (by
      simp only [List.map_cons, List.map_nil,
        Machine.run_cons, Machine.run_nil,
        Machine.trace_cons, Machine.trace_nil,
        List.forall_mem_cons, List.not_mem_nil,
        false_implies, implies_true, and_true]
      refine ⟨?_, ?_⟩ <;> rintro ⟨_, hFull⟩ <;>
        revert hFull <;> decide +kernel)
    _ (List.prefix_refl _)

/- Packets 2 .. 101 fill the window before 1 arrives. -/
def fullBeforeFirst : List (Packet Nat) :=
  (List.range 100).map (fun i => chunkPacket (i + 2)) ++
    [chunkPacket 1]

/-
  Slot 1 still holds packet 101 when `C_ack` is 100, below
  the stated range 102 .. 201.
-/
theorem not_reassembled_full :
    ¬ ∀ ds : List (Packet Nat),
      (∀ d ∈ ds, 0 ≤ d.hdr.seq) →
        Assembled (· ∈ ds)
          ((opaqueMachine (fun _ => true)).run waiting
            (.recv () (chunkPacket 0) ::
              ds.map (Ev.recv ()))) := by
  intro hAll
  have hAfter := hAll fullBeforeFirst (by decide +kernel)
  have hSlot :=
    hAfter.ring.slot 1 (by decide) (by decide)
      (by decide +kernel)
  have hLow := hSlot.2.1
  revert hLow
  decide +kernel

end Rcv

end P1

end Cs2520
