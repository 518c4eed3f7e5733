import Cs2520.Lib.Missing
import Cs2520.P1.Echoes
import Cs2520.P1.Ncp

/-
  What the NACK lists of the file receiver say.

  The receiver fills the entry of index `i` when the packet
  looked at in pass `i` is missing, and leaves a hole when it
  is not. The sender stops reading at the first hole.

  Main declarations:
    * `Buffered`
    * `Nacks`
    * `NoHole`
    * `Nacks.asked_iff`
    * `Waits.step_echo`
    * `nack_list_iff`
    * `nack_list_with_hole`
-/

------------------------------------------------------------
-- The Written List
------------------------------------------------------------

namespace Cs2520

namespace P1

/- The entries up to the first negative one. -/
def Uhdr.asked
    (hdr : Uhdr) : List Int :=
  (List.ofFn hdr.nack).takeWhile (fun s => 0 ≤ s)

namespace Rcv

open Lib

variable {A ρ δ β : Type}

/- The slot of number `j` is in use by packet `j`. -/
def Buffered
    (r : Rcv A β)
    (j : Int) : Prop :=
  r.buffer (j % windowSize) = true ∧
    (r.window (j % windowSize)).hdr.seq = j

instance
    (r : Rcv A β) :
    DecidablePred r.Buffered := by
  intro j
  unfold Buffered
  infer_instance

/- The first missing numbers below `seq`, as many as fit. -/
def wanted
    (r : Rcv A β)
    (seq : Int) : List Int :=
  (missing r.Buffered (r.cAck + 1) seq).take nackSize

/- Packet `seq` of `a` makes the receiver ask for others. -/
structure Nacks
    (r : Rcv A β)
    (a : A)
    (seq : Int) : Prop where
  serves : Serves r a
  ahead : r.cAck + 2 ≤ seq
  within : seq ≤ r.cAck + 1 + windowSize
  free : r.buffer (seq % windowSize) = false
  limit :
    r.lastAck ≠ r.cAck ∨
      (r.lastAck = r.cAck ∧ r.nackTime < 2)

/-
  Packet `C_ack + 1` is missing, and from the first number
  on whose slot is found in use, everything is buffered.
-/
def NoHole
    (r : Rcv A β)
    (seq : Int) : Prop :=
  ¬ r.Buffered (r.cAck + 1) ∧
    ∀ j,
      j = r.cAck + 2 ∨ j = r.cAck + 3 →
        j < seq →
          r.buffer (j % windowSize) = true →
            ∀ k, j ≤ k → k < seq → r.Buffered k

theorem nackSize_pos :
    0 < nackSize :=
  Nat.zero_lt_succ _

/- The header of the echo for packet `seq`. -/
def nackHdr
    (r : Rcv A β)
    (seq : Int) : Uhdr :=
  { r.echoHdr with
    cack := r.cAck
    nack :=
      nackScan
        (Function.update r.buffer (seq % windowSize) true)
        seq nackSize (r.cAck + 2) 1
        (Function.update noNack ⟨0, nackSize_pos⟩
          (r.cAck + 1)) }

/- The slots that the search looks at are not that of `seq`. -/
theorem Nacks.buffer_eq
    {r : Rcv A β}
    {a : A}
    {seq : Int}
    (h : Nacks r a seq)
    {j : Int}
    (hLo : r.cAck + 2 ≤ j)
    (hHi : j < seq) :
    Function.update r.buffer (seq % windowSize) true
        (j % windowSize) =
      r.buffer (j % windowSize) := by
  have hWithin := h.within
  exact
    Function.update_of_ne
      (emod_ne_of_lt (by omega) (by omega) (by omega)) _ _

/- The list that the sender reads. -/
theorem Nacks.asked_eq
    {r : Rcv A β}
    {a : A}
    {seq : Int}
    (h : Nacks r a seq)
    (hNonneg : 0 ≤ r.cAck) :
    (r.nackHdr seq).asked =
      (r.cAck + 1) ::
        if r.cAck + 2 < seq ∧
            r.buffer ((r.cAck + 2) % windowSize) = false then
          (r.cAck + 2) ::
            if r.cAck + 3 < seq ∧
                r.buffer ((r.cAck + 3) % windowSize) =
                  false then
              [r.cAck + 3]
            else
              []
        else
          [] := by
  have hThird : r.cAck + 2 + 1 = r.cAck + 3 := by omega
  have hOne : 0 ≤ r.cAck + 1 := by omega
  have hTwo : 0 ≤ r.cAck + 2 := by omega
  have hThree : 0 ≤ r.cAck + 3 := by omega
  unfold Uhdr.asked nackHdr
  simp only [nackSize, nackScan, hThird]
  by_cases hSecond : r.cAck + 2 < seq
  · rw [h.buffer_eq (Int.le_refl _) hSecond]
    by_cases hLast : r.cAck + 3 < seq
    · rw [h.buffer_eq (by omega) hLast]
      cases r.buffer ((r.cAck + 2) % windowSize) with
      | true =>
          cases r.buffer ((r.cAck + 3) % windowSize) with
          | true =>
              simp [hSecond, hLast, List.ofFn_succ, noNack,
                hOne]
          | false =>
              simp [hSecond, hLast, List.ofFn_succ, noNack,
                Function.update_apply, hOne]
      | false =>
          cases r.buffer ((r.cAck + 3) % windowSize) with
          | true =>
              simp [hSecond, hLast, List.ofFn_succ, noNack,
                Function.update_apply, hOne, hTwo]
          | false =>
              simp [hSecond, hLast, List.ofFn_succ, noNack,
                Function.update_apply, hOne, hTwo, hThree]
    · cases r.buffer ((r.cAck + 2) % windowSize) with
      | true =>
          simp [hSecond, hLast, List.ofFn_succ, noNack,
            hOne]
      | false =>
          simp [hSecond, hLast, List.ofFn_succ, noNack,
            Function.update_apply, hOne, hTwo]
  · simp [hSecond, List.ofFn_succ, noNack, hOne]

theorem not_buffered_of_free
    {r : Rcv A β}
    {j : Int}
    (hFree : r.buffer (j % windowSize) = false) :
    ¬ r.Buffered j := by
  rintro ⟨hSet, _⟩
  rw [hFree] at hSet
  cases hSet

/- What the two slots that are looked at require. -/
theorem noHole_iff
    {r : Rcv A β}
    {seq : Int}
    (hFirst : ¬ r.Buffered (r.cAck + 1)) :
    r.NoHole seq ↔
      (r.cAck + 2 < seq →
          r.buffer ((r.cAck + 2) % windowSize) = true →
            missing r.Buffered (r.cAck + 2) seq = []) ∧
        (r.cAck + 3 < seq →
          r.buffer ((r.cAck + 3) % windowSize) = true →
            missing r.Buffered (r.cAck + 3) seq = []) := by
  simp only [NoHole, missing_eq_nil_iff, hFirst,
    not_false_eq_true, true_and, forall_eq_or_imp,
    forall_eq]

/- The list read is the list of missing numbers. -/
theorem Nacks.asked_iff
    {r : Rcv A β}
    {a : A}
    {seq : Int}
    (h : Nacks r a seq)
    (hNonneg : 0 ≤ r.cAck) :
    (r.nackHdr seq).asked = r.wanted seq ↔
      r.NoHole seq := by
  have hAhead := h.ahead
  have hTwo : r.cAck + 1 + 1 = r.cAck + 2 := by omega
  have hThree : r.cAck + 2 + 1 = r.cAck + 3 := by omega
  rw [h.asked_eq hNonneg, wanted]
  by_cases hFirst : r.Buffered (r.cAck + 1)
  · -- then the first entry names a buffered packet
    constructor
    · intro hEq
      have hMem :
          r.cAck + 1 ∈
            (missing r.Buffered (r.cAck + 1) seq).take
              nackSize := by
        rw [← hEq]
        exact List.mem_cons_self
      exact
        absurd hFirst
          ((mem_missing _).mp (List.mem_of_mem_take hMem)).2
    · intro hNoHole
      exact absurd hFirst hNoHole.1
  · rw [missing_of_not _ (by omega) hFirst, hTwo,
      List.take_succ_cons, List.cons_inj_right,
      noHole_iff hFirst]
    by_cases hSecond : r.cAck + 2 < seq
    · cases hSlot : r.buffer ((r.cAck + 2) % windowSize) with
      | true =>
          -- a hole right behind the first entry
          rw [if_neg (by simp), eq_comm,
            List.take_eq_nil_iff]
          constructor
          · rintro (hZero | hNone)
            · cases hZero
            · refine ⟨fun _ _ => hNone, fun _ _ => ?_⟩
              have hHeld :=
                (missing_eq_nil_iff _).mp hNone
              apply (missing_eq_nil_iff _).mpr
              intro i hLo hHi
              exact hHeld i (by omega) hHi
          · intro hAll
            exact Or.inr (hAll.1 hSecond rfl)
      | false =>
          rw [if_pos ⟨hSecond, rfl⟩,
            missing_of_not _ hSecond
              (not_buffered_of_free hSlot), hThree,
            List.take_succ_cons, List.cons_inj_right]
          by_cases hLast : r.cAck + 3 < seq
          · cases hSlot' :
                r.buffer ((r.cAck + 3) % windowSize) with
            | true =>
                rw [if_neg (by simp), eq_comm,
                  List.take_eq_nil_iff]
                simp [hLast]
            | false =>
                rw [if_pos ⟨hLast, rfl⟩,
                  missing_of_not _ hLast
                    (not_buffered_of_free hSlot')]
                simp
          · rw [if_neg (fun hBoth => hLast hBoth.1),
              missing_nil _ (by omega)]
            simp
    · rw [if_neg (fun hBoth => hSecond hBoth.1),
        missing_nil _ (by omega),
        missing_nil _ (by omega)]
      simp

end Rcv

end P1

end Cs2520

------------------------------------------------------------
-- The Echo
------------------------------------------------------------

namespace Cs2520

namespace P1

namespace Rcv

open Lib

variable {A ρ δ β : Type} [DecidableEq A]
variable (w : Wire ρ δ β)
variable (canOpen : β → Bool)

/- Case 2 with a free slot, when echoes are not used up. -/
omit [DecidableEq A] in
theorem outOfOrder_echo
    {r : Rcv A β}
    (hRange :
      r.cAck + 2 ≤ r.messBuf.hdr.seq ∧
        r.messBuf.hdr.seq ≤ r.cAck + 1 + windowSize)
    (hFree :
      r.buffer (r.messBuf.hdr.seq % windowSize) = false)
    (hLimit :
      r.lastAck ≠ r.cAck ∨
        (r.lastAck = r.cAck ∧ r.nackTime < 2)) :
    r.outOfOrder.2 =
      [.sendto r.fromAddr (r.nackHdr r.messBuf.hdr.seq)]
    := by
  unfold outOfOrder
  dsimp only
  rw [if_pos hRange, if_pos hFree, if_pos hLimit]
  by_cases hSame : r.lastAck = r.cAck
  · rw [if_pos hSame]
    rfl
  · rw [if_neg hSame]
    rfl

/- The packet is stored, and the echo carries the list. -/
theorem Nacks.step_out
    {r : Rcv A β}
    {a : A}
    {pkt : Packet δ}
    (h : Nacks r a pkt.hdr.seq)
    (hNonneg : 0 ≤ r.cAck) :
    (step w canOpen r (.recv a pkt)).2 =
      [.sendto a (r.nackHdr pkt.hdr.seq)] := by
  have hAhead := h.ahead
  rw [step_data w canOpen h.serves (by omega),
    if_neg (by omega)]
  have hRange :
      (r.recvfrom w a pkt).cAck + 2 ≤ pkt.hdr.seq ∧
        pkt.hdr.seq ≤
          (r.recvfrom w a pkt).cAck + 1 + windowSize :=
    ⟨h.ahead, h.within⟩
  exact outOfOrder_echo hRange h.free h.limit

/- In no state of a run is `C_ack` negative. -/
theorem cAck_nonneg_run
    {r : Rcv A β}
    (hNonneg : 0 ≤ r.cAck)
    (es : List (Ev A δ)) :
    0 ≤ ((machine w canOpen).run r es).cAck :=
  (machine w canOpen).run_always (fun r => 0 ≤ r.cAck)
    (fun _ e h => step_cAck_nonneg w canOpen h e) hNonneg es

end Rcv

end P1

end Cs2520

------------------------------------------------------------
-- The Sender
------------------------------------------------------------

namespace Cs2520

namespace P1

namespace Ncp

open Lib

variable {A ρ δ β : Type}
variable {w : Wire ρ δ β}
variable {file : Nat → ρ}

/- The sender resends what it reads and has in its window. -/
theorem resendNacks_eq
    (n : Ncp β)
    (nack : List Int) :
    n.resendNacks w nack =
      ((nack.takeWhile (fun s => 0 ≤ s)).filter
          (fun s => n.head ≤ s ∧ s ≤ n.tail)).map
        (n.sendSlot w) := by
  induction nack with
  | nil => rfl
  | cons s rest ih =>
      rw [resendNacks]
      split
      · next hNeg =>
          rw [List.takeWhile_cons_of_neg (by simpa using hNeg)]
          rfl
      · next hNonneg =>
          rw [
            List.takeWhile_cons_of_pos
              (by simpa using hNonneg)]
          split
          · next hIn =>
              rw [List.filter_cons_of_pos (by simpa using hIn),
                List.map_cons, ih]
          · next hOut =>
              rw [
                List.filter_cons_of_neg
                  (by simpa using hOut), ih]

/-
  A sender in its main loop that has `first` as its head and
  the packets `wanted` in its window.
-/
structure Waits
    (n : Ncp β)
    (first : Int)
    (wanted : List Int) : Prop where
  running : n.exited = false
  sending : n.filenameSend = true
  head : n.head = first
  slots :
    ∀ s ∈ wanted,
      s ≤ n.tail ∧ (n.window (s % windowSize)).hdr.seq = s

theorem Waits.step_echo
    {n : Ncp β}
    {first : Int}
    {wanted : List Int}
    (h : n.Waits first wanted)
    (hdr : Uhdr)
    (elapsed : Bool) :
    step w file n (.echo hdr elapsed) = n.onEcho w file hdr
    := by
  rw [step, h.running, h.sending]
  rfl

/-
  On an echo that acknowledges all before the head and asks
  for `wanted`, beginning with the head, the sender resends
  these packets unless it is at its last packet.
-/
theorem Waits.resends_iff
    {n : Ncp β}
    {first : Int}
    {rest : List Int}
    (h : n.Waits first (first :: rest))
    (hPos : 0 < first)
    (hRest : ∀ s ∈ rest, first ≤ s)
    {hdr : Uhdr}
    (hAck : hdr.cack = first - 1)
    (hAsked : hdr.asked = first :: rest)
    (elapsed : Bool) :
    (step w file n (.echo hdr elapsed)).2 =
        (first :: rest).map (n.sendSlot w) ↔
      ¬ (n.eof = true ∧ n.tail = n.head) := by
  have hHead := h.head
  have hTail := (h.slots first List.mem_cons_self).1
  have hSlot := (h.slots first List.mem_cons_self).2
  rw [h.step_echo, onEcho]
  dsimp only
  split
  · next hFinish =>
      simp only [finishedOn, Bool.and_eq_true,
        Bool.or_eq_true, decide_eq_true_eq] at hFinish
      have hDone :
          n.eof = true ∧
            (n.tail ≤ hdr.cack ∨ n.tail ≤ n.head) :=
        hFinish
      constructor
      · intro hSame
        -- the number -1 is sent instead
        rcases List.cons_eq_cons.mp hSame with ⟨hFirst, _⟩
        have hSeq := congrArg (fun p => p.hdr.seq) hFirst
        change -1 = (n.window (first % windowSize)).hdr.seq
          at hSeq
        omega
      · intro hNot
        exfalso
        apply hNot
        exact ⟨hDone.1, by omega⟩
  · next hGo =>
      have hResend :
          ¬ hdr.cack < (n.recvEcho hdr).head - 1 ∧
            hdr.cack = (n.recvEcho hdr).head - 1 := by
        have hSame : (n.recvEcho hdr).head = n.head := rfl
        omega
      have hKept :
          (first :: rest).filter
              (fun s => n.head ≤ s ∧ s ≤ n.tail) =
            first :: rest := by
        apply List.filter_eq_self.mpr
        intro s hMem
        have hUpTo := (h.slots s hMem).1
        rcases List.mem_cons.mp hMem with rfl | hIn
        · simp [hHead, hUpTo]
        · simp [hHead, hUpTo, hRest s hIn]
      have hOut :
          (n.recvEcho hdr).resendNacks w (List.ofFn hdr.nack) =
            (first :: rest).map (n.sendSlot w) := by
        rw [resendNacks_eq]
        change
          (hdr.asked.filter
            (fun s => n.head ≤ s ∧ s ≤ n.tail)).map _ = _
        rw [hAsked, hKept]
        rfl
      rw [if_neg hResend.1, if_pos hResend.2]
      constructor
      · rintro _ ⟨hEof, hLast⟩
        apply hGo
        simp [finishedOn, recvEcho, hEof, hLast]
      · intro _
        exact hOut

end Ncp

end P1

end Cs2520

------------------------------------------------------------
-- Both Programs
------------------------------------------------------------

namespace Cs2520

namespace P1

namespace Rcv

open Lib

variable {A ρ δ β : Type} [DecidableEq A]

/- Without a hole the first entry is `C_ack + 1`. -/
omit [DecidableEq A] in
theorem NoHole.wanted_eq
    {r : Rcv A β}
    {seq : Int}
    (h : r.NoHole seq)
    (hAhead : r.cAck + 1 < seq) :
    ∃ rest,
      r.wanted seq = (r.cAck + 1) :: rest ∧
        ∀ s ∈ rest, r.cAck + 1 ≤ s := by
  rw [wanted, missing_of_not _ hAhead h.1,
    List.take_succ_cons]
  refine ⟨_, rfl, ?_⟩
  intro s hMem
  have hRange :=
    ((mem_missing _).mp (List.mem_of_mem_take hMem)).1
  omega

/-
  In every run, a packet that makes the receiver ask for
  others is answered by one echo. The list in it, up to where
  the sender reads, is that of the first missing numbers, and
  the sender resends exactly these packets, if and only if
  the list has no hole and the sender is not at its last
  packet.
-/
theorem nack_list_iff
    (w : Wire ρ δ β)
    (canOpen : β → Bool)
    (file : Nat → ρ)
    (addr : A)
    (messBuf : Packet β)
    (echoHdr : Uhdr)
    (window : Int → Packet β)
    (es : List (Ev A δ))
    (a : A)
    (pkt : Packet δ)
    (n : Ncp β)
    (elapsed : Bool) :
    let r :=
      (machine w canOpen).run
        (initial addr messBuf echoHdr window) es
    Nacks r a pkt.hdr.seq →
      n.Waits (r.cAck + 1) (r.wanted pkt.hdr.seq) →
        ∃ hdr,
          (step w canOpen r (.recv a pkt)).2 =
              [.sendto a hdr] ∧
            (hdr.asked = r.wanted pkt.hdr.seq ∧
                (Ncp.step w file n (.echo hdr elapsed)).2 =
                  (r.wanted pkt.hdr.seq).map
                    (n.sendSlot w) ↔
              r.NoHole pkt.hdr.seq ∧
                ¬ (n.eof = true ∧ n.tail = n.head)) := by
  intro r hNacks hWaits
  have hNonneg : 0 ≤ r.cAck :=
    cAck_nonneg_run w canOpen (Int.le_refl 0) es
  have hAsked := hNacks.asked_iff hNonneg
  have hAhead := hNacks.ahead
  refine ⟨_, hNacks.step_out w canOpen hNonneg, ?_⟩
  constructor
  · rintro ⟨hList, hSent⟩
    have hNoHole := hAsked.mp hList
    rcases hNoHole.wanted_eq (by omega) with
      ⟨rest, hWanted, hRest⟩
    rw [hWanted] at hWaits hSent hList
    exact
      ⟨hNoHole,
        (hWaits.resends_iff (by omega) hRest
          (Int.add_sub_cancel _ 1).symm hList
          elapsed).mp hSent⟩
  · rintro ⟨hNoHole, hMore⟩
    have hList := hAsked.mpr hNoHole
    rcases hNoHole.wanted_eq (by omega) with
      ⟨rest, hWanted, hRest⟩
    rw [hWanted] at hWaits hList ⊢
    exact
      ⟨hList,
        (hWaits.resends_iff (by omega) hRest
          (Int.add_sub_cancel _ 1).symm hList
          elapsed).mpr hMore⟩

/- A filename and packet 2. -/
def secondFirst : List (Ev Unit Nat) :=
  [.recv () (chunkPacket 0), .recv () (chunkPacket 2)]

/- A sender that has sent its first window. -/
def firstSent : Ncp Nat :=
  (Ncp.step (Wire.opaquePayload Nat) (chunksOf 200)
    (Ncp.initial (chunkPacket 0) (fun _ => chunkPacket 0))
    (.echo (chunkPacket 0).hdr true)).1

theorem nack_list_iff_third :
    let r :=
      (opaqueMachine (fun _ => true)).run waiting
        secondFirst
    ∃ hdr,
      (step (Wire.opaquePayload Nat) (fun _ => true) r
            (.recv () (chunkPacket 3))).2 =
          [.sendto () hdr] ∧
        (hdr.asked = r.wanted 3 ∧
            (Ncp.step (Wire.opaquePayload Nat)
                (chunksOf 200) firstSent
                (.echo hdr true)).2 =
              (r.wanted 3).map
                (firstSent.sendSlot
                  (Wire.opaquePayload Nat)) ↔
          r.NoHole 3 ∧
            ¬ (firstSent.eof = true ∧
              firstSent.tail = firstSent.head)) :=
  nack_list_iff (Wire.opaquePayload Nat) (fun _ => true)
    (chunksOf 200) () (chunkPacket 0) (chunkPacket 0).hdr
    (fun _ => chunkPacket 0) secondFirst () (chunkPacket 3)
    firstSent true
    ⟨⟨by decide, by decide, rfl⟩, by decide, by decide,
      by decide, by decide⟩
    ⟨by decide +kernel, by decide +kernel,
      by decide +kernel, by decide +kernel⟩

/-
  Packets 2 and 4 have arrived. Packets 1 and 3 are missing,
  and the array is 1, -1, 3: the sender reads 1 only.
-/
theorem nack_list_with_hole :
    ¬ ∀ (es : List (Ev Unit Nat)) (pkt : Packet Nat),
      Nacks
          ((opaqueMachine (fun _ => true)).run waiting es) ()
          pkt.hdr.seq →
        ∃ hdr,
          (step (Wire.opaquePayload Nat) (fun _ => true)
              ((opaqueMachine (fun _ => true)).run waiting
                es) (.recv () pkt)).2 =
              [.sendto () hdr] ∧
            hdr.asked =
              ((opaqueMachine (fun _ => true)).run waiting
                es).wanted pkt.hdr.seq := by
  intro hAll
  have hNacks :
      Nacks
        ((opaqueMachine (fun _ => true)).run waiting
          secondFirst) () (chunkPacket 4).hdr.seq :=
    ⟨⟨by decide, by decide, rfl⟩, by decide, by decide,
      by decide, by decide⟩
  rcases hAll secondFirst (chunkPacket 4) hNacks with
    ⟨hdr, hOut, hAsked⟩
  rw [hNacks.step_out _ _ (by decide)] at hOut
  cases hOut
  revert hAsked
  decide +kernel

end Rcv

end P1

end Cs2520
