import Cs2520.P1.NackLists
import Cs2520.P1.Release
import Cs2520.P1.Transfer

/-
  One timeout burst without a loss repairs everything.

  The sender resends all of its window. Whatever is buffered,
  after packet `i` of the burst the receiver has printed all
  numbers up to `i`, so nothing is left to buffer behind the
  last one.

  Main declarations:
    * `Ncp.resendFrom_eq`
    * `Ncp.step_numbers`
    * `running_of_reachable`
    * `Running.burst`
    * `burst_repairs`
-/

------------------------------------------------------------
-- Numbers Sent
------------------------------------------------------------

namespace Cs2520

namespace P1

namespace Ncp

open Lib

variable {ρ δ β : Type}
variable {w : Wire ρ δ β}
variable {file : Nat → ρ}

/- The burst is the slots of a range of numbers. -/
theorem resendFrom_eq
    (n : Ncp β)
    (k : Nat)
    (i : Int) :
    n.resendFrom w k i =
      (Int.range i (i + k)).map (n.sendSlot w) := by
  induction k generalizing i with
  | zero =>
      rw [range_nil (by omega)]
      rfl
  | succ k ih =>
      have hEnd : i + ((k + 1 : Nat) : Int) = i + 1 + k := by
        omega
      have hFirst : i < i + 1 + (k : Int) := by omega
      rw [resendFrom, ih, hEnd, range_cons hFirst,
        List.map_cons]

/- The slots of a loaded window carry their own numbers. -/
theorem Loaded.sendSlot_seq
    {n : Ncp β}
    (h : Loaded w file n)
    {i : Int}
    (hLo : n.head ≤ i)
    (hHi : i ≤ n.tail) :
    (n.sendSlot w i).hdr.seq = i :=
  (h.filled.slots i hLo hHi).1

/- A loaded sender resends its whole window, in order. -/
theorem Loaded.resent_seqs
    {n : Ncp β}
    (h : Loaded w file n) :
    (n.resendFrom w (n.tail + 1 - n.head).toNat n.head).map
        (fun p => p.hdr.seq) =
      Int.range n.head (n.tail + 1) := by
  have hLe := h.head_le
  have hSpan :
      n.head + ((n.tail + 1 - n.head).toNat : Int) =
        n.tail + 1 := by
    omega
  rw [resendFrom_eq, hSpan, List.map_map]
  refine (List.map_congr_left ?_).trans (List.map_id _)
  intro i hMem
  rcases Int.mem_range_iff.mp hMem with ⟨hLo, hHi⟩
  exact h.sendSlot_seq hLo (by omega)

theorem fillWindow_numbers
    (k : Nat)
    (i : Int)
    {n : Ncp β}
    (hSeq : 0 ≤ n.seq) :
    ∀ p ∈ (fillWindow w file k i n).2, 0 ≤ p.hdr.seq := by
  induction k generalizing i n with
  | zero =>
      intro p hMem
      cases hMem
  | succ k ih =>
      intro p hMem
      rcases List.mem_cons.mp hMem with rfl | hRest
      · exact hSeq
      · apply ih (i + 1) (n := n.push w file i) ?_ p hRest
        exact Int.le_add_one hSeq

theorem shiftWindow_numbers
    (receivedAck : Int)
    (k : Nat)
    {n : Ncp β}
    (hSeq : 0 ≤ n.seq) :
    ∀ p ∈ (shiftWindow w file receivedAck k n).2,
      0 ≤ p.hdr.seq := by
  induction k generalizing n with
  | zero =>
      intro p hMem
      cases hMem
  | succ k ih =>
      rw [shiftWindow_succ]
      split
      · intro p hMem
        rw [List.mem_singleton.mp hMem]
        exact hSeq
      · intro p hMem
        rcases List.mem_cons.mp hMem with rfl | hRest
        · exact hSeq
        · apply ih (n := n.shiftOnce w file) ?_ p hRest
          exact Int.le_add_one hSeq

theorem Fresh.connect_numbers
    {n : Ncp β}
    (h : Fresh n)
    (echo : Option Uhdr)
    (elapsed : Bool) :
    ∀ p ∈ (n.connect w file echo elapsed).2,
      0 ≤ p.hdr.seq := by
  rcases greet_spec (w := w) h echo elapsed with
    ⟨⟨buf, hBuf⟩, hOut⟩
  have hSeq : (n.greet w echo elapsed).1.seq = 0 := by
    rw [hBuf]
    exact h.seq
  unfold connect
  dsimp only
  split
  · intro p hMem
    rcases List.mem_append.mp hMem with hName | hFill
    · exact (hOut p hName).ge
    · apply fillWindow_numbers _ _ ?_ p hFill
      dsimp only
      omega
  · intro p hMem
    exact (hOut p hMem).ge

/- A loaded sender that goes on sends no number -1. -/
theorem Loaded.onEcho_numbers
    {n : Ncp β}
    (h : Loaded w file n)
    (hdr : Uhdr)
    (hStays : (n.onEcho w file hdr).1.exited = false) :
    ∀ p ∈ (n.onEcho w file hdr).2, 0 ≤ p.hdr.seq := by
  have hPos := h.head_pos
  have hSeq := h.filled.seq
  have hEnd := h.head_le
  have hHeard := onEcho_hearing w file n hdr
  generalize n.onEcho w file hdr = res at hHeard hStays ⊢
  cases hHeard with
  | finished _ => cases hStays
  | old _ =>
      intro p hMem
      cases hMem
  | repeated _ =>
      intro p hMem
      rw [resendNacks_eq] at hMem
      rcases List.mem_map.mp hMem with ⟨s, hIn, rfl⟩
      have hRange := (List.mem_filter.mp hIn).2
      simp only [decide_eq_true_eq] at hRange
      rw [(h.recvEcho hdr).sendSlot_seq hRange.1 hRange.2]
      have hSame : (n.recvEcho hdr).head = n.head := rfl
      omega
  | jumped _ _ =>
      intro p hMem
      cases hMem
  | shifted _ _ =>
      apply shiftWindow_numbers
      change 0 ≤ n.seq
      omega

theorem Loaded.onTimeout_numbers
    {n : Ncp β}
    (h : Loaded w file n)
    (hStays : (n.onTimeout w).1.exited = false) :
    ∀ p ∈ (n.onTimeout w).2, 0 ≤ p.hdr.seq := by
  have hPos := h.head_pos
  unfold onTimeout at hStays ⊢
  split at hStays
  · cases hStays
  · next hGo =>
      rw [if_neg hGo]
      intro p hMem
      have hSeq :=
        List.mem_map_of_mem (f := fun p => p.hdr.seq) hMem
      rw [h.resent_seqs, Int.mem_range_iff] at hSeq
      omega

/- Only a sender that exits sends the number -1. -/
theorem step_numbers
    {n : Ncp β}
    (hPhase : Fresh n ∨ Loaded w file n)
    (e : Ev)
    (hStays : (step w file n e).1.exited = false) :
    ∀ p ∈ (step w file n e).2, 0 ≤ p.hdr.seq := by
  unfold step at hStays ⊢
  split at hStays
  · next hExited =>
      rw [if_pos hExited]
      intro p hMem
      cases hMem
  · next hRunning =>
      rw [if_neg hRunning]
      rcases hPhase with hFresh | hLoaded
      · have hWaiting := hFresh.connecting
        rw [if_neg (by simp [hWaiting])]
        cases e with
        | quiet elapsed =>
            exact hFresh.connect_numbers none elapsed
        | echo hdr elapsed =>
            exact hFresh.connect_numbers (some hdr) elapsed
      · rw [if_pos hLoaded.connected] at hStays ⊢
        cases e with
        | quiet elapsed =>
            exact hLoaded.onTimeout_numbers hStays
        | echo hdr elapsed =>
            exact hLoaded.onEcho_numbers hdr hStays

end Ncp

end P1

end Cs2520

------------------------------------------------------------
-- While the Sender Runs
------------------------------------------------------------

namespace Cs2520

namespace P1

namespace Session

open Lib

variable {A α : Type} [DecidableEq A]
variable {file : Nat → α × Int}
variable {canOpen : α → Bool}
variable {a : A}

/- A sender that has exited stays where it is. -/
theorem running_of_step
    {n : Ncp α}
    {e : Ncp.Ev}
    (hStays :
      (Ncp.step (Wire.opaquePayload α) file n e).1.exited =
        false) :
    n.exited = false := by
  by_contra hExited
  have hTrue := Bool.eq_true_of_not_eq_false hExited
  unfold Ncp.step at hStays
  rw [if_pos hTrue, hTrue] at hStays
  cases hStays

/-
  As long as the sender has not exited, the receiver has not
  heard the number -1 and goes on serving it.
-/
structure Running
    (file : Nat → α × Int)
    (canOpen : α → Bool)
    (a : A)
    (s : Net A α) : Prop where
  reach :
    Link.Reachable (sender file) (receiver canOpen a)
      (Accepted canOpen a) Open s
  hassender : s.right.hassender = true
  numbers : ∀ p ∈ s.toRight, 0 ≤ p.hdr.seq

theorem Running.serves
    {s : Net A α}
    (h : Running file canOpen a s) :
    Rcv.Serves s.right a := by
  have hInv := inv_of_reachable (fun _ _ h => h) h.reach
  exact ⟨hInv.running, h.hassender, hInv.current⟩

theorem Running.left
    {s : Net A α}
    (h : Running file canOpen a s)
    {e : Ncp.Ev}
    (hEnabled :
      Link.Enabled (sender file) (receiver canOpen a) s
        (.inl e))
    (hStays :
      (s.act (sender file) (receiver canOpen a)
        (.inl e)).left.exited = false) :
    Running file canOpen a
      (s.act (sender file) (receiver canOpen a)
        (.inl e)) where
  reach := .step h.reach hEnabled h.hassender
  hassender := h.hassender
  numbers := by
    have hInv := inv_of_reachable (fun _ _ h => h) h.reach
    intro p hMem
    rcases List.mem_append.mp hMem with hOld | hNew
    · exact h.numbers p hOld
    · exact
        Ncp.step_numbers (hInv.phase.imp_right And.left) e
          hStays p hNew

theorem Running.right
    {s : Net A α}
    (h : Running file canOpen a s)
    {e : Rcv.Ev A α}
    (hEnabled :
      Link.Enabled (sender file) (receiver canOpen a) s
        (.inr e)) :
    Running file canOpen a
      (s.act (sender file) (receiver canOpen a)
        (.inr e)) where
  reach := .step h.reach hEnabled h.hassender
  hassender := by
    apply
      (h.serves.step_bound (Wire.opaquePayload α) canOpen
        ?_).hassender
    rintro ⟨pkt, rfl, hEnd⟩
    have hTaken : pkt ∈ s.toRight :=
      hEnabled pkt (by simp [receiver, packet?])
    have hNonneg := h.numbers pkt hTaken
    omega
  numbers := h.numbers

theorem running_of_reachable
    {s : Net A α}
    (hReach :
      Link.Reachable (sender file) (receiver canOpen a)
        (Accepted canOpen a) (fun _ _ => True) s)
    (hRunning : s.left.exited = false) :
    Running file canOpen a s := by
  refine
    hReach.invariant
      (fun s =>
        s.left.exited = false → Running file canOpen a s)
      ?_ ?_ hRunning
  · intro s hStart _
    refine ⟨.start hStart, ?_, ?_⟩
    · rcases hStart.accepts with ⟨r, name, hAccepts, hRight⟩
      rw [hRight]
      exact
        (Rcv.step_accept (Wire.opaquePayload α)
          (fun _ => False) canOpen a hAccepts).1.hassender
    · intro p hMem
      exact (hStart.names p hMem).ge
  · intro s act hBefore hEnabled _ hStays
    cases act with
    | inl e =>
        exact
          (hBefore (running_of_step hStays)).left hEnabled
            hStays
    | inr e => exact (hBefore hStays).right hEnabled

end Session

end P1

end Cs2520

------------------------------------------------------------
-- The Burst
------------------------------------------------------------

namespace Cs2520

namespace P1

namespace Session

open Lib

variable {A α : Type} [DecidableEq A]
variable {file : Nat → α × Int}
variable {canOpen : α → Bool}
variable {a : A}

/-
  Packet `C_ack + 1` raises `C_ack`, and an older one leaves
  it: after packet `i` all numbers up to `i` are printed.
-/
theorem cAck_after
    (canOpen : α → Bool)
    {r : Rcv A α}
    (hServes : Rcv.Serves r a)
    {p : Packet α}
    (hNonneg : 0 ≤ p.hdr.seq)
    (hLe : p.hdr.seq ≤ r.cAck + 1) :
    p.hdr.seq ≤
      ((Rcv.opaqueMachine canOpen).step r (.recv a p)).1.cAck
    := by
  change
    p.hdr.seq ≤
      (Rcv.step (Wire.opaquePayload α) canOpen r
        (.recv a p)).1.cAck
  rw [Rcv.step_data _ canOpen hServes (by omega)]
  split
  · next hNext =>
      have hLt :=
        Rcv.expected_cAck_lt (Wire.opaquePayload α)
          (r.recvfrom (Wire.opaquePayload α) a p)
      have hSame :
          (r.recvfrom (Wire.opaquePayload α) a p).cAck =
            r.cAck := rfl
      omega
  · rw [(Rcv.outOfOrder_frame _).2.2.2.2.1]
    change p.hdr.seq ≤ r.cAck
    omega

/- The receiver takes the packets of the burst in turn. -/
theorem Running.burst
    (k : Nat)
    {i : Int}
    {s : Net A α}
    (h : Running file canOpen a s)
    {ps : List (Packet α)}
    (hNumbers :
      ps.map (fun p => p.hdr.seq) = Int.range i (i + k))
    (hSent : ∀ p ∈ ps, p ∈ s.toRight)
    (hLe : i - 1 ≤ s.right.cAck) :
    let s' :=
      Link.runActs (sender file) (receiver canOpen a) s
        (ps.map (fun p => .inr (.recv a p)))
    Running file canOpen a s' ∧
      s'.left = s.left ∧
      i + k - 1 ≤ s'.right.cAck := by
  induction k generalizing i s ps with
  | zero =>
      rw [range_nil (by omega)] at hNumbers
      rw [List.map_eq_nil_iff.mp hNumbers]
      refine ⟨h, rfl, ?_⟩
      change i + 0 - 1 ≤ s.right.cAck
      omega
  | succ k ih =>
      have hEnd : i + ((k + 1 : Nat) : Int) = i + 1 + k := by
        omega
      have hFirst : i < i + 1 + (k : Int) := by omega
      rw [hEnd, range_cons hFirst] at hNumbers
      rcases List.map_eq_cons_iff.mp hNumbers with
        ⟨p, rest, rfl, hSeq, hRest⟩
      have hTaken : p ∈ s.toRight :=
        hSent p List.mem_cons_self
      have hEnabled :
          Link.Enabled (sender file) (receiver canOpen a) s
            (.inr (.recv a p)) := by
        intro m hMem
        have hSame : some p = some m := by
          simpa [receiver, packet?] using hMem
        cases hSame
        exact hTaken
      have hNonneg := h.numbers p hTaken
      have hAfter :=
        cAck_after canOpen h.serves hNonneg (by omega)
      have hStep :=
        ih (h.right hEnabled) hRest
          (fun p' hMem =>
            hSent p' (List.mem_cons_of_mem _ hMem))
          (by
            change
              i + 1 - 1 ≤
                ((Rcv.opaqueMachine canOpen).step s.right
                  (.recv a p)).1.cAck
            omega)
      rw [hEnd]
      exact hStep

/- With all numbers printed, nothing is left to buffer. -/
omit [DecidableEq A] in
theorem Inv.empty_of_all
    {s : Net A α}
    (h : Inv file a s)
    (hAll : s.left.last ≤ s.right.cAck) :
    s.right.cAck = s.left.last ∧
      s.right.buffersize = 0 ∧
      ∀ k, 0 ≤ k → k < windowSize →
        s.right.buffer k = false := by
  have hLe := h.cAck_le
  have hRing :
      RingBuffer.Holds windowSize (s.right.cAck + 2)
        s.left.last (fun p => p.hdr.seq)
        (Chunk file s.left.last) s.right.toRingBuffer :=
    { count := h.assembled.ring.count
      slot := by
        intro k hk hkw hSet
        rcases h.assembled.ring.slot k hk hkw hSet with
          ⟨hKey, hLow, _, hChunk⟩
        exact ⟨hKey, hLow, hChunk.range.2, hChunk⟩ }
  have hZero : s.right.buffersize = 0 :=
    hRing.zero_of_lt (by omega)
  exact
    ⟨by omega, hZero,
      fun k hk hkw => hRing.free_of_zero hZero ⟨hk, hkw⟩⟩

/-
  From every reachable state with a window of two packets or
  more, a timeout burst that arrives in full leaves the
  receiver with `C_ack` at the end of the window and with an
  empty buffer.
-/
theorem burst_repairs
    {s : Net A α}
    (hReach :
      Link.Reachable (sender file) (receiver canOpen a)
        (Accepted canOpen a) (fun _ _ => True) s)
    (hRunning : s.left.exited = false)
    (hSending : s.left.filenameSend = true)
    (hMore : s.left.head < s.left.tail)
    (elapsed : Bool) :
    let burst :=
      (Ncp.step (Wire.opaquePayload α) file s.left
        (.quiet elapsed)).2
    let s' :=
      Link.runActs (sender file) (receiver canOpen a) s
        (.inl (.quiet elapsed) ::
          burst.map (fun p => .inr (.recv a p)))
    burst.map (fun p => p.hdr.seq) =
        Int.range s.left.head (s.left.tail + 1) ∧
      s'.right.cAck = s.left.tail ∧
      s'.right.buffersize = 0 ∧
      ∀ k, 0 ≤ k → k < windowSize →
        s'.right.buffer k = false := by
  intro burst s'
  have hServed := running_of_reachable hReach hRunning
  have hInv :=
    inv_of_reachable (fun _ _ h => h) hServed.reach
  have hLoaded :
      Loaded file s.left ∧
        s.left.head - 1 ≤ s.right.cAck := by
    rcases hInv.phase with hFresh | hBoth
    · rw [hFresh.connecting] at hSending
      cases hSending
    · exact hBoth
  have hStep :
      Ncp.step (Wire.opaquePayload α) file s.left
          (.quiet elapsed) =
        (s.left,
          s.left.resendFrom (Wire.opaquePayload α)
            (s.left.tail + 1 - s.left.head).toNat
            s.left.head) := by
    unfold Ncp.step
    rw [hRunning, hSending, Ncp.onTimeout,
      if_neg hMore.ne]
    rfl
  have hNumbers :
      burst.map (fun p => p.hdr.seq) =
        Int.range s.left.head (s.left.tail + 1) := by
    simp only [burst, hStep]
    exact hLoaded.1.resent_seqs
  have hSpan :
      s.left.head +
          ((s.left.tail + 1 - s.left.head).toNat : Int) =
        s.left.tail + 1 := by
    omega
  have hEnabled :
      Link.Enabled (sender file) (receiver canOpen a) s
        (.inl (.quiet elapsed)) := by
    intro m hMem
    cases hMem
  have hLeft :
      (s.act (sender file) (receiver canOpen a)
        (.inl (.quiet elapsed))).left = s.left :=
    congrArg Prod.fst hStep
  have hResent :=
    hServed.left hEnabled
      ((congrArg Ncp.exited hLeft).trans hRunning)
  rw [← hSpan] at hNumbers
  rcases
    hResent.burst _ hNumbers
      (fun p hMem => List.mem_append_right _ hMem)
      hLoaded.2 with
    ⟨hAfter, hKept, hReached⟩
  change Running file canOpen a s' at hAfter
  change s'.left = _ at hKept
  change _ ≤ s'.right.cAck at hReached
  rw [hLeft] at hKept
  have hLast : s'.left.last = s.left.tail := by
    rw [hKept]
    exact hLoaded.1.last_eq
  have hEnd :=
    (inv_of_reachable (fun _ _ h => h)
      hAfter.reach).empty_of_all (by omega)
  rw [hLast] at hEnd
  rw [hSpan] at hNumbers
  exact ⟨hNumbers, hEnd⟩

/- The first window is sent, and only packet 5 arrives. -/
def onlyFifth : List (Act Unit Nat) :=
  [.inl (.echo (chunkPacket 0).hdr true),
    .inr (.recv () (chunkPacket 5))]

/- The state in which the sender times out. -/
def fifthBuffered : Net Unit Nat :=
  Link.runActs (sender (chunksOf 200))
    (receiver (fun _ => true) ())
    (begun (fun _ => true) () (chunkPacket 0)) onlyFifth

theorem reachable_fifthBuffered :
    Link.Reachable (sender (chunksOf 200))
      (receiver (fun _ => true) ())
      (Accepted (fun _ => true) ()) (fun _ _ => True)
      fifthBuffered :=
  Link.reachable_runActs
    (.start (accepted_begun _ () rfl rfl))
    (by decide +kernel)

theorem burst_repairs_fifth :
    let burst :=
      (Ncp.step (Wire.opaquePayload Nat) (chunksOf 200)
        fifthBuffered.left (.quiet true)).2
    let s' :=
      Link.runActs (sender (chunksOf 200))
        (receiver (fun _ => true) ()) fifthBuffered
        (.inl (.quiet true) ::
          burst.map (fun p => .inr (.recv () p)))
    burst.map (fun p => p.hdr.seq) =
        Int.range fifthBuffered.left.head
          (fifthBuffered.left.tail + 1) ∧
      s'.right.cAck = fifthBuffered.left.tail ∧
      s'.right.buffersize = 0 ∧
      ∀ k, 0 ≤ k → k < windowSize →
        s'.right.buffer k = false :=
  burst_repairs reachable_fifthBuffered
    (by decide +kernel) (by decide +kernel)
    (by decide +kernel) true

end Session

end P1

end Cs2520
