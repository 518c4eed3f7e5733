import Cs2520.Lib.CanReach
import Cs2520.P1.Burst
import Cs2520.P1.Completion

/-
  What a session can still do after a total loss.

  All packets and echoes in flight are lost. As long as more
  than one packet is in the sender's window, the transfer can
  still be completed; with a single unacknowledged packet it
  cannot.

  Main declarations:
    * `Ncp.Paced`
    * `Ncp.shiftWindow_sent`
    * `Live`
    * `Live.deliver`
    * `Finished`
    * `Spread.finish`
    * `Stranded`
    * `completable_iff`
-/

------------------------------------------------------------
-- The Size of the Window
------------------------------------------------------------

namespace Cs2520

namespace P1

namespace Ncp

open Lib

variable {ρ δ β : Type}
variable {w : Wire ρ δ β}
variable {file : Nat → ρ}

/-
  Before the end of the file the window is full, and it is
  never empty while the sender runs.
-/
structure Paced
    (n : Ncp β) : Prop where
  full : n.eof = false → n.tail + 1 = n.head + windowSize
  head_le : n.exited = false → n.head ≤ n.tail

theorem Paced.eof_of_single
    {n : Ncp β}
    (h : Paced n)
    (hSingle : n.head = n.tail) :
    n.eof = true := by
  cases hEof : n.eof with
  | true => rfl
  | false =>
      have hFull := h.full hEof
      simp only [windowSize] at hFull
      omega

theorem Fresh.paced
    {n : Ncp β}
    (h : Fresh n) :
    Paced n := by
  have hHead := h.head
  have hTail := h.tail
  simp only [windowSize] at hTail
  refine ⟨fun _ => ?_, fun _ => ?_⟩
  · simp only [windowSize]
    omega
  · omega

theorem connect_paced
    {n : Ncp β}
    (h : Paced n)
    (echo : Option Uhdr)
    (elapsed : Bool) :
    Paced (n.connect w file echo elapsed).1 := by
  have hGreet : Paced (n.greet w echo elapsed).1 := by
    cases echo <;> cases elapsed <;>
      exact ⟨h.full, h.head_le⟩
  unfold connect
  dsimp only
  split
  · rcases firstWindow_frame w file
        (n.greet w echo elapsed).1 with
      ⟨hExited, _, hHead, hTail, hEof⟩
    refine ⟨?_, ?_⟩
    · rw [hEof, hHead, hTail]
      exact hGreet.full
    · rw [hExited, hHead, hTail]
      exact hGreet.head_le
  · exact hGreet

/-
  Up to an ack of the whole window, the shift loop reads one
  chunk for each number acknowledged, or stops at the end of
  the file.
-/
theorem shiftWindow_paced
    (receivedAck : Int)
    (k : Nat)
    {n : Ncp β}
    (hFull : n.tail + 1 = n.head + windowSize)
    (hHead : n.head + k = receivedAck + 1)
    (hAck : receivedAck ≤ n.tail) :
    Paced (shiftWindow w file receivedAck k n).1 := by
  induction k generalizing n with
  | zero =>
      refine ⟨fun _ => hFull, fun _ => ?_⟩
      simp only [shiftWindow, windowSize] at hFull ⊢
      omega
  | succ k ih =>
      push_cast at hHead
      have hHead' :
          (n.shiftOnce w file).head = n.head + 1 := rfl
      have hTail' :
          (n.shiftOnce w file).tail = n.tail + 1 := rfl
      rw [shiftWindow_succ]
      split
      · next hEof =>
          refine ⟨fun hMore => ?_, fun _ => ?_⟩
          · cases hEof.symm.trans hMore
          · change receivedAck + 1 ≤ n.tail + 1
            omega
      · exact ih (by omega) (by omega) (by omega)

theorem onEcho_paced
    {n : Ncp β}
    (h : Paced n)
    (hdr : Uhdr)
    (hAck : hdr.cack ≤ n.tail) :
    Paced (n.onEcho w file hdr).1 := by
  have hHead : (n.recvEcho hdr).head = n.head := rfl
  have hTail : (n.recvEcho hdr).tail = n.tail := rfl
  unfold onEcho
  dsimp only
  split
  · exact ⟨h.full, fun hStays => by cases hStays⟩
  · next hGo =>
      split
      · exact ⟨h.full, h.head_le⟩
      · split
        · exact ⟨h.full, h.head_le⟩
        · split
          · next hEof =>
              refine ⟨fun hMore => ?_, fun _ => ?_⟩
              · cases hEof.symm.trans hMore
              · simp only [finishedOn, hEof, Bool.true_and,
                  Bool.or_eq_true, decide_eq_true_eq,
                  not_or, not_le] at hGo
                exact hGo.1
          · next hMore =>
              exact
                shiftWindow_paced _ _
                  (h.full (Bool.eq_false_of_not_eq_true hMore))
                  (by omega) hAck

theorem step_paced
    {n : Ncp β}
    (h : Paced n)
    {e : Ev}
    (hAck : ∀ hdr, e.echo? = some hdr → hdr.cack ≤ n.tail) :
    Paced (step w file n e).1 := by
  unfold step
  split
  · exact h
  · split
    · cases e with
      | quiet elapsed =>
          dsimp only
          unfold onTimeout
          split
          · exact ⟨h.full, fun hStays => by cases hStays⟩
          · exact h
      | echo hdr elapsed => exact onEcho_paced h hdr (hAck hdr rfl)
    · cases e with
      | quiet elapsed => exact connect_paced h none elapsed
      | echo hdr elapsed =>
          exact connect_paced h (some hdr) elapsed

end Ncp

end P1

end Cs2520

------------------------------------------------------------
-- What a Shift Sends
------------------------------------------------------------

namespace Cs2520

namespace P1

namespace Ncp

open Lib

variable {ρ δ β : Type}
variable {w : Wire ρ δ β}
variable {file : Nat → ρ}

/-
  The shift loop ends with the head behind the ack, and has
  sent every number that it added to the window.
-/
structure Shifted
    (w : Wire ρ δ β)
    (file : Nat → ρ)
    (receivedAck : Int)
    (n : Ncp β)
    (res : Ncp β × List (Packet δ)) : Prop where
  exited : res.1.exited = n.exited
  head : res.1.head = receivedAck + 1
  sent :
    res.2.map (fun p => p.hdr.seq) =
      Int.range (n.tail + 1) (res.1.tail + 1)

theorem shiftWindow_sent
    (receivedAck : Int)
    (k : Nat)
    {n : Ncp β}
    (h : Loaded w file n)
    (hHead : n.head + k = receivedAck + 1)
    (hAck : receivedAck ≤ n.tail) :
    Shifted w file receivedAck n
      (shiftWindow w file receivedAck k n) := by
  induction k generalizing n with
  | zero =>
      refine ⟨rfl, ?_, ?_⟩
      · simp only [shiftWindow]
        omega
      · exact (range_nil (le_refl _)).symm
  | succ k ih =>
      push_cast at hHead
      have hOnce := h.shiftOnce (by omega)
      have hHead' :
          (n.shiftOnce w file).head = n.head + 1 := rfl
      have hTail' :
          (n.shiftOnce w file).tail = n.tail + 1 := rfl
      have hSeq :
          (sendText w
            (n.push w file (n.tail + 1))).hdr.seq =
            n.tail + 1 := h.filled.seq
      rw [shiftWindow_succ]
      split
      · refine ⟨rfl, rfl, ?_⟩
        change [_] = Int.range (n.tail + 1) (n.tail + 1 + 1)
        rw [range_cons (by omega), range_nil (by omega)]
        exact congrArg (fun i => [i]) hSeq
      · have hRest := ih hOnce (by omega) (by omega)
        have hGrow :=
          (shiftWindow_loaded receivedAck k hOnce (by omega)
            (by omega)).2.1
        refine ⟨hRest.exited, hRest.head, ?_⟩
        rw [List.map_cons, hRest.sent, hSeq, hTail']
        rw [hTail'] at hGrow
        exact (range_cons (by omega)).symm

/- The first read of the loop always takes place. -/
theorem shiftWindow_reads
    (receivedAck : Int)
    {k : Nat}
    (hk : 0 < k)
    {n : Ncp β}
    (h : Loaded w file n)
    (hHead : n.head + k = receivedAck + 1)
    (hAck : receivedAck ≤ n.tail) :
    let n' := (shiftWindow w file receivedAck k n).1
    n.reads < n'.reads ∧
      (shortRead (w.bytes (file n.reads)) = true →
        n'.eof = true) := by
  cases k with
  | zero => omega
  | succ k =>
      push_cast at hHead
      have hOnce := h.shiftOnce (by omega)
      have hHead' :
          (n.shiftOnce w file).head = n.head + 1 := rfl
      have hTail' :
          (n.shiftOnce w file).tail = n.tail + 1 := rfl
      have hReads :
          (n.shiftOnce w file).reads = n.reads + 1 := rfl
      dsimp only
      rw [shiftWindow_succ]
      split
      · next hEof =>
          refine ⟨?_, fun _ => hEof⟩
          change n.reads < (n.shiftOnce w file).reads
          omega
      · next hMore =>
          rcases shiftWindow_loaded receivedAck k hOnce
              (by omega) (by omega) with
            ⟨hLoaded, hGrow, _⟩
          have hBefore := hOnce.filled.reads
          have hAfter := hLoaded.filled.reads
          refine ⟨?_, fun hShort => ?_⟩
          · dsimp only
            omega
          · exact (hMore (by simp [Ncp.shiftOnce, hShort])).elim

/- An ack of the whole window is answered with a new one. -/
structure Renewed
    (w : Wire ρ δ β)
    (file : Nat → ρ)
    (n : Ncp β)
    (res : Ncp β × List (Packet δ)) : Prop where
  exited : res.1.exited = n.exited
  filenameSend : res.1.filenameSend = n.filenameSend
  sent :
    res.2.map (fun p => p.hdr.seq) =
      Int.range res.1.head (res.1.tail + 1)
  reads : n.reads < res.1.reads
  eof :
    shortRead (w.bytes (file n.reads)) = true →
      res.1.eof = true

theorem Loaded.renewed
    {n : Ncp β}
    (h : Loaded w file n)
    (hMore : n.eof = false)
    (hHead : n.head ≤ n.tail)
    {hdr : Uhdr}
    (hAll : hdr.cack = n.tail) :
    Renewed w file n (n.onEcho w file hdr) := by
  have hHeard := onEcho_hearing w file n hdr
  have hSame : (n.recvEcho hdr).head = n.head := rfl
  have hTail : (n.recvEcho hdr).tail = n.tail := rfl
  generalize n.onEcho w file hdr = res at hHeard ⊢
  cases hHeard with
  | finished hEnd =>
      have hEof : (n.recvEcho hdr).eof = n.eof := rfl
      rw [finishedOn, hEof, hMore, Bool.false_and] at hEnd
      cases hEnd
  | old hOld => omega
  | repeated hSame => omega
  | jumped hEof _ => cases hMore.symm.trans hEof
  | shifted _ hAhead =>
      have hRecv := h.recvEcho hdr
      have hFrame :=
        shiftWindow_frame w file hdr.cack
          (hdr.cack + 1 - n.head).toNat
          (n := n.recvEcho hdr) (by omega)
      have hShifted :=
        shiftWindow_sent hdr.cack
          (hdr.cack + 1 - n.head).toNat hRecv (by omega)
          (by omega)
      have hReads :=
        shiftWindow_reads hdr.cack
          (k := (hdr.cack + 1 - n.head).toNat) (by omega)
          hRecv (by omega) (by omega)
      refine
        ⟨hFrame.1, hFrame.2.1, ?_, hReads.1, hReads.2⟩
      have hSent := hShifted.sent
      rw [hTail] at hSent
      rw [hShifted.head, hSent, hAll]

/- The first window is numbered on from `seq`. -/
variable (w file) in
theorem fillWindow_sent
    (k : Nat)
    (i : Int)
    (n : Ncp β) :
    (fillWindow w file k i n).2.map (fun p => p.hdr.seq) =
      Int.range n.seq (n.seq + k) := by
  induction k generalizing i n with
  | zero =>
      rw [range_nil (by omega)]
      rfl
  | succ k ih =>
      have hEnd :
          n.seq + ((k + 1 : Nat) : Int) = n.seq + 1 + k := by
        omega
      have hFirst : n.seq < n.seq + 1 + (k : Int) := by omega
      rw [hEnd, range_cons hFirst]
      exact congrArg (n.seq :: ·) (ih (i + 1) (n.push w file i))

end Ncp

end P1

end Cs2520

------------------------------------------------------------
-- Sessions that Can Go On
------------------------------------------------------------

namespace Cs2520

namespace P1

namespace Session

open Lib

variable {A α : Type} [DecidableEq A]
variable {file : Nat → α × Int}
variable {canOpen : α → Bool}
variable {a : A}

/-
  The sender is running and the receiver serves it. What is
  in flight may be less than what was ever sent.
-/
structure Live
    (file : Nat → α × Int)
    (a : A)
    (s : Net A α) : Prop where
  inv : Inv file a s
  running : s.left.exited = false
  hassender : s.right.hassender = true
  paced : Ncp.Paced s.left
  numbers : ∀ p ∈ s.toRight, 0 ≤ p.hdr.seq

omit [DecidableEq A] in
theorem Live.serves
    {s : Net A α}
    (h : Live file a s) :
    Rcv.Serves s.right a :=
  ⟨h.inv.running, h.hassender, h.inv.current⟩

/- An echo acknowledges nothing past the window. -/
omit [DecidableEq A] in
theorem Inv.echo_le_tail
    {s : Net A α}
    (h : Inv file a s)
    {hdr : Uhdr}
    (hEcho : hdr ∈ s.toLeft) :
    hdr.cack ≤ s.left.tail := by
  have hLe := (h.echoed hdr hEcho).trans h.cAck_le
  rcases h.phase with hFresh | ⟨hLoaded, _⟩
  · rw [hFresh.last_eq] at hLe
    rw [hFresh.tail]
    simp only [windowSize]
    omega
  · rw [hLoaded.last_eq] at hLe
    exact hLe

theorem Live.left
    {s : Net A α}
    (h : Live file a s)
    {e : Ncp.Ev}
    (hEnabled :
      Link.Enabled (sender file) (receiver canOpen a) s
        (.inl e))
    (hStays :
      (s.act (sender file) (receiver canOpen a)
        (.inl e)).left.exited = false) :
    Live file a
      (s.act (sender file) (receiver canOpen a)
        (.inl e)) where
  inv := h.inv.left hEnabled
  running := hStays
  hassender := h.hassender
  paced :=
    Ncp.step_paced h.paced
      (fun hdr hSome =>
        h.inv.echo_le_tail (hEnabled hdr hSome))
  numbers := by
    intro p hMem
    rcases List.mem_append.mp hMem with hOld | hNew
    · exact h.numbers p hOld
    · exact
        Ncp.step_numbers (h.inv.phase.imp_right And.left) e
          hStays p hNew

theorem Live.right
    {s : Net A α}
    (h : Live file a s)
    {e : Rcv.Ev A α}
    (hEnabled :
      Link.Enabled (sender file) (receiver canOpen a) s
        (.inr e)) :
    Live file a
      (s.act (sender file) (receiver canOpen a)
        (.inr e)) where
  inv := h.inv.right hEnabled h.hassender
  running := h.running
  hassender := by
    apply
      (h.serves.step_bound (Wire.opaquePayload α) canOpen
        ?_).hassender
    rintro ⟨pkt, rfl, hEnd⟩
    have hTaken : pkt ∈ s.toRight :=
      hEnabled pkt (by simp [receiver, packet?])
    have hNonneg := h.numbers pkt hTaken
    omega
  paced := h.paced
  numbers := h.numbers

/- A packet that was sent may be taken. -/
variable (file canOpen a) in
theorem enabled_recv
    {s : Net A α}
    {p : Packet α}
    (hSent : p ∈ s.toRight) :
    Link.Enabled (sender file) (receiver canOpen a) s
      (.inr (.recv a p)) := by
  intro m hMem
  have hSame : some p = some m := by
    simpa [receiver, packet?] using hMem
  cases hSame
  exact hSent

/- Any datagram of `a` makes `a` the last one heard. -/
theorem fromAddr_after
    (canOpen : α → Bool)
    {r : Rcv A α}
    (hServes : Rcv.Serves r a)
    {p : Packet α}
    (hNonneg : 0 ≤ p.hdr.seq) :
    ((Rcv.opaqueMachine canOpen).step r
      (.recv a p)).1.fromAddr = a := by
  change
    (Rcv.step (Wire.opaquePayload α) canOpen r
      (.recv a p)).1.fromAddr = a
  rw [Rcv.step_data _ canOpen hServes (by omega)]
  split
  · exact (Rcv.expected_frame _ _).2.2.2
  · exact (Rcv.outOfOrder_frame _).2.2.2.1

/- Packets that are delivered in the order of their numbers. -/
structure Delivered
    (file : Nat → α × Int)
    (canOpen : α → Bool)
    (a : A)
    (s : Net A α)
    (last : Int)
    (as : List (Act A α)) : Prop where
  allowed :
    Link.Allowed (sender file) (receiver canOpen a) Open s as
  live :
    Live file a
      (Link.runActs (sender file) (receiver canOpen a) s as)
  left :
    (Link.runActs (sender file) (receiver canOpen a)
      s as).left = s.left
  cAck :
    last ≤
      (Link.runActs (sender file) (receiver canOpen a)
        s as).right.cAck
  fromAddr :
    s.right.fromAddr = a ∨ as ≠ [] →
      (Link.runActs (sender file) (receiver canOpen a)
        s as).right.fromAddr = a

theorem Live.deliver
    (canOpen : α → Bool)
    (k : Nat)
    {i : Int}
    {s : Net A α}
    (h : Live file a s)
    {ps : List (Packet α)}
    (hNumbers :
      ps.map (fun p => p.hdr.seq) = Int.range i (i + k))
    (hSent : ∀ p ∈ ps, p ∈ s.toRight)
    (hLe : i - 1 ≤ s.right.cAck) :
    Delivered file canOpen a s (i + k - 1)
      (ps.map (fun p => .inr (.recv a p))) := by
  induction k generalizing i s ps with
  | zero =>
      rw [range_nil (by omega)] at hNumbers
      rw [List.map_eq_nil_iff.mp hNumbers]
      refine ⟨trivial, h, rfl, ?_, ?_⟩
      · change i + 0 - 1 ≤ s.right.cAck
        omega
      · rintro (hAddr | hNe)
        · exact hAddr
        · exact (hNe rfl).elim
  | succ k ih =>
      have hEnd : i + ((k + 1 : Nat) : Int) = i + 1 + k := by
        omega
      have hFirst : i < i + 1 + (k : Int) := by omega
      rw [hEnd, range_cons hFirst] at hNumbers
      rcases List.map_eq_cons_iff.mp hNumbers with
        ⟨p, rest, rfl, hSeq, hRest⟩
      have hTaken : p ∈ s.toRight :=
        hSent p List.mem_cons_self
      have hEnabled := enabled_recv file canOpen a hTaken
      have hNonneg := h.numbers p hTaken
      have hAfter :=
        cAck_after canOpen h.serves hNonneg (by omega)
      have hHeard := fromAddr_after canOpen h.serves hNonneg
      have hStep :=
        ih (h.right hEnabled) hRest
          (fun p' hMem =>
            hSent p' (List.mem_cons_of_mem _ hMem))
          (by
            change
              i + 1 - 1 ≤
                ((Rcv.opaqueMachine canOpen).step s.right
                  (.recv a p)).1.cAck
            omega)
      rw [hEnd]
      exact
        ⟨⟨⟨hEnabled, h.hassender⟩, hStep.allowed⟩,
          hStep.live, hStep.left, hStep.cAck,
          fun _ => hStep.fromAddr (.inl hHeard)⟩

/- The timer echoes `C_ack` to the last one heard. -/
theorem Live.timer
    (canOpen : α → Bool)
    {s : Net A α}
    (h : Live file a s)
    (hAddr : s.right.fromAddr = a) :
    let s' :=
      s.act (sender file) (receiver canOpen a) (.inr .timer)
    Live file a s' ∧
      s'.right.cAck = s.right.cAck ∧
      ∃ hdr ∈ s'.toLeft, hdr.cack = s.right.cAck := by
  intro s'
  have hStep :
      (Rcv.opaqueMachine canOpen).step s.right .timer =
        s.right.timer :=
    Rcv.step_timer (Wire.opaquePayload α) canOpen
      h.inv.running
  rw [Rcv.timer, if_pos h.hassender] at hStep
  refine ⟨h.right (by simp [Link.Enabled, receiver, packet?]),
    ?_, ?_⟩
  · change
      ((Rcv.opaqueMachine canOpen).step
        s.right .timer).1.cAck = _
    rw [hStep]
    rfl
  · obtain ⟨hdr, hMem, hCack⟩ :
        ∃ hdr,
          Rcv.Out.sendto s.right.fromAddr hdr ∈
              ((Rcv.opaqueMachine canOpen).step
                s.right .timer).2 ∧
            hdr.cack = s.right.cAck := by
      rw [hStep]
      exact ⟨_, List.mem_singleton_self _, rfl⟩
    exact
      ⟨hdr,
        List.mem_append_right _
          (List.mem_filterMap.mpr ⟨_, hMem, if_pos hAddr⟩),
        hCack⟩

end Session

end P1

end Cs2520

------------------------------------------------------------
-- Finishing
------------------------------------------------------------

namespace Cs2520

namespace P1

namespace Session

open Lib

variable {A α : Type} [DecidableEq A]
variable {file : Nat → α × Int}
variable {canOpen : α → Bool}
variable {a : A}

/- Both sides are done, and the whole file is written. -/
structure Finished
    (file : Nat → α × Int)
    (s : Net A α) : Prop where
  exited : s.left.exited = true
  eof : s.left.eof = true
  closed : s.right.hassender = false
  written :
    s.right.fw =
      (List.range s.left.reads).map (fun i => (file i).1)

omit [DecidableEq A] in
theorem Live.loaded
    {s : Net A α}
    (h : Live file a s)
    (hSending : s.left.filenameSend = true) :
    Loaded file s.left ∧
      s.left.head - 1 ≤ s.right.cAck := by
  rcases h.inv.phase with hFresh | hLoaded
  · rw [hFresh.connecting] at hSending
    cases hSending
  · exact hLoaded

/- With the window printed, the file holds all reads. -/
omit [DecidableEq A] in
theorem Live.written
    {s : Net A α}
    (h : Live file a s)
    (hSending : s.left.filenameSend = true)
    (hAll : s.left.tail ≤ s.right.cAck) :
    s.right.fw =
      (List.range s.left.reads).map
        (fun i => (file i).1) := by
  have hLoaded := (h.loaded hSending).1
  have hLe := h.inv.cAck_le
  have hCount := h.inv.assembled.count
  have hReads := hLoaded.filled.reads
  rw [hLoaded.last_eq] at hLe
  have hLength : s.right.fw.length = s.left.reads := by
    omega
  rw [fw_eq_of_numbered h.inv.assembled.file, hLength]
  apply List.map_congr_left
  intro i _
  simp [payload]

/- The number -1 of a sender that has exited is taken. -/
theorem canReach_of_exited
    {s : Net A α}
    (hServes : Rcv.Serves s.right a)
    (hExited : s.left.exited = true)
    (hEof : s.left.eof = true)
    (hWritten :
      s.right.fw =
        (List.range s.left.reads).map (fun i => (file i).1))
    {p : Packet α}
    (hSent : p ∈ s.toRight)
    (hEnd : p.hdr.seq = -1) :
    Link.CanReach (sender file) (receiver canOpen a) Open
      (Finished file) s := by
  refine
    .step (enabled_recv file canOpen a hSent)
      hServes.hassender (.now ?_)
  have hStep :
      (Rcv.opaqueMachine canOpen).step s.right (.recv a p) =
        _ :=
    Rcv.step_finish (Wire.opaquePayload α) canOpen hServes
      hEnd
  have hRight :
      (s.act (sender file) (receiver canOpen a)
        (.inr (.recv a p))).right =
        { s.right.recvfrom (Wire.opaquePayload α) a p with
          hassender := false } :=
    congrArg Prod.fst hStep
  refine ⟨hExited, hEof, ?_, ?_⟩
  · rw [hRight]
  · rw [hRight]
    exact hWritten

/- A finish of the sender can be made to end the session. -/
theorem Live.finish
    {s : Net A α}
    (h : Live file a s)
    (hEof : s.left.eof = true)
    (hWritten :
      s.right.fw =
        (List.range s.left.reads).map (fun i => (file i).1))
    {e : Ncp.Ev}
    (hEnabled :
      Link.Enabled (sender file) (receiver canOpen a) s
        (.inl e))
    {m : Ncp α}
    (hStep :
      Ncp.step (Wire.opaquePayload α) file s.left e =
        m.finish (Wire.opaquePayload α))
    (hMore : m.eof = s.left.eof)
    (hReads : m.reads = s.left.reads) :
    Link.CanReach (sender file) (receiver canOpen a) Open
      (Finished file) s := by
  refine .step hEnabled h.hassender ?_
  have hLeft :
      (s.act (sender file) (receiver canOpen a)
        (.inl e)).left =
        (m.finish (Wire.opaquePayload α)).1 :=
    congrArg Prod.fst hStep
  have hSent :
      (s.act (sender file) (receiver canOpen a)
        (.inl e)).toRight =
        s.toRight ++
          (m.finish (Wire.opaquePayload α)).2 :=
    congrArg
      (fun res : Ncp α × List (Packet α) =>
        s.toRight ++ res.2)
      hStep
  have hServes :
      Rcv.Serves
        (s.act (sender file) (receiver canOpen a)
          (.inl e)).right a :=
    h.serves
  apply canReach_of_exited hServes
  · rw [hLeft]
    rfl
  · rw [hLeft]
    exact hMore.trans hEof
  · rw [hLeft]
    change _ = (List.range m.reads).map _
    rw [hReads]
    exact hWritten
  · rw [hSent]
    exact
      List.mem_append_right _ (List.mem_singleton_self _)
  · rfl

end Session

end P1

end Cs2520

------------------------------------------------------------
-- One Round
------------------------------------------------------------

namespace Cs2520

namespace P1

namespace Session

open Lib

variable {A α : Type} [DecidableEq A]
variable {file : Nat → α × Int}
variable {canOpen : α → Bool}
variable {a : A}

/- All packets of the sender's window are in flight. -/
structure Spread
    (file : Nat → α × Int)
    (a : A)
    (s : Net A α) : Prop where
  live : Live file a s
  sending : s.left.filenameSend = true
  inFlight :
    ∃ ps : List (Packet α),
      (∀ p ∈ ps, p ∈ s.toRight) ∧
        ps.map (fun p => p.hdr.seq) =
          Int.range s.left.head (s.left.tail + 1)

/-
  How often the window can still be shifted when every read
  from the `k`-th on is short.
-/
def remaining
    (k : Nat)
    (s : Net A α) : Nat :=
  if s.left.eof then 0 else k - s.left.reads + 1

omit [DecidableEq A] in
theorem remaining_of_eof
    (k : Nat)
    {s : Net A α}
    (hEof : s.left.eof = true) :
    remaining k s = 0 :=
  if_pos hEof

omit [DecidableEq A] in
theorem remaining_of_more
    (k : Nat)
    {s : Net A α}
    (hMore : s.left.eof = false) :
    remaining k s = k - s.left.reads + 1 :=
  if_neg (by simp [hMore])

omit [DecidableEq A] in
theorem remaining_le
    (k : Nat)
    (s : Net A α) :
    remaining k s ≤ k - s.left.reads + 1 := by
  unfold remaining
  split <;> omega

/- The receiver has the window, and its echo is in flight. -/
structure Acked
    (file : Nat → α × Int)
    (a : A)
    (n : Ncp α)
    (s : Net A α) : Prop where
  live : Live file a s
  left : s.left = n
  cAck : n.tail ≤ s.right.cAck
  echo : ∃ hdr ∈ s.toLeft, hdr.cack = n.tail

/- The window is delivered in order, and the timer fires. -/
theorem Spread.acked
    {s : Net A α}
    (h : Spread file a s) :
    Link.CanReach (sender file) (receiver canOpen a) Open
      (Acked file a s.left) s := by
  rcases h with ⟨hLive, hSending, ps, hSent, hNumbers⟩
  rcases hLive.loaded hSending with ⟨_, hHead⟩
  have hOrder := hLive.paced.head_le hLive.running
  have hSpan :
      s.left.head +
          ((s.left.tail + 1 - s.left.head).toNat : Int) =
        s.left.tail + 1 := by
    omega
  have hNone : ps ≠ [] := by
    rintro rfl
    rw [range_cons (by omega)] at hNumbers
    cases hNumbers
  rw [← hSpan] at hNumbers
  rcases hLive.deliver canOpen _ hNumbers hSent hHead with
    ⟨hAllowed, hTaken, hLeft, hAck, hHeard⟩
  refine .after hAllowed ?_
  have hAddr := hHeard (.inr (by simpa using hNone))
  generalize
    Link.runActs (sender file) (receiver canOpen a) s _ = t
    at hTaken hLeft hAck hAddr ⊢
  rcases hTaken.timer canOpen hAddr with
    ⟨hAfter, hSame, hdr, hMem, hCack⟩
  have hTop : hdr.cack ≤ t.left.tail :=
    hAfter.inv.echo_le_tail hMem
  rw [hLeft] at hTop
  refine
    .step (a := .inr .timer)
      (by simp [Link.Enabled, receiver, packet?])
      hTaken.hassender
      (.now ⟨hAfter, hLeft, ?_, hdr, hMem, ?_⟩)
  · omega
  · omega

/- The echo finishes the session or renews the window. -/
theorem Acked.renewed
    {k : Nat}
    (hEnds :
      ∀ i, k ≤ i → Ncp.shortRead (file i).2 = true)
    {s t : Net A α}
    (hSending : s.left.filenameSend = true)
    (h : Acked file a s.left t) :
    Link.CanReach (sender file) (receiver canOpen a) Open
      (fun u =>
        Finished file u ∨
          (Spread file a u ∧ remaining k u < remaining k s))
      t := by
  rcases h with ⟨hLive, hLeft, hCack, hdr, hMem, hAll⟩
  have hOrder := hLive.paced.head_le hLive.running
  have hEnabled :
      Link.Enabled (sender file) (receiver canOpen a) t
        (.inl (.echo hdr false)) := by
    intro m hSome
    cases hSome
    exact hMem
  rw [← hLeft] at hSending hCack hAll
  have hLoaded := (hLive.loaded hSending).1
  have hStep :
      Ncp.step (Wire.opaquePayload α) file t.left
          (.echo hdr false) =
        t.left.onEcho (Wire.opaquePayload α) file hdr := by
    simp [Ncp.step, hLive.running, hSending]
  cases hEof : t.left.eof with
  | true =>
      have hEnd :
          t.left.onEcho (Wire.opaquePayload α) file hdr =
            (t.left.recvEcho hdr).finish
              (Wire.opaquePayload α) := by
        apply if_pos
        have hTail : (t.left.recvEcho hdr).tail = t.left.tail :=
          rfl
        have hSame : (t.left.recvEcho hdr).eof = t.left.eof :=
          rfl
        simp [Ncp.finishedOn, hSame, hEof, hTail, hAll]
      exact
        (hLive.finish hEof (hLive.written hSending hCack)
          hEnabled (hStep.trans hEnd) rfl rfl).mono
          (fun u hDone => .inl hDone)
  | false =>
      have hNew := hLoaded.renewed hEof hOrder hAll
      rw [← hStep] at hNew
      have hReads := hNew.reads
      have hFewer :
          remaining k
              (t.act (sender file) (receiver canOpen a)
                (.inl (.echo hdr false))) <
            remaining k s := by
        have hBefore :
            remaining k s = k - t.left.reads + 1 := by
          rw [hLeft] at hEof ⊢
          exact remaining_of_more k hEof
        rw [hBefore]
        by_cases hLate : k ≤ t.left.reads
        · rw [remaining_of_eof k (hNew.eof (hEnds _ hLate))]
          omega
        · have hNext :=
            remaining_le k
              (t.act (sender file) (receiver canOpen a)
                (.inl (.echo hdr false)))
          change _ ≤ k - (Ncp.step (Wire.opaquePayload α) file
            t.left (.echo hdr false)).1.reads + 1 at hNext
          omega
      refine
        .step hEnabled hLive.hassender
          (.now (.inr ⟨⟨?_, ?_, ?_⟩, hFewer⟩))
      · exact
          hLive.left hEnabled
            (hNew.exited.trans hLive.running)
      · exact hNew.filenameSend.trans hSending
      · exact
          ⟨_, fun p hp => List.mem_append_right _ hp,
            hNew.sent⟩

/- From a window in flight the session can be finished. -/
theorem Spread.finish
    (canOpen : α → Bool)
    {k : Nat}
    (hEnds :
      ∀ i, k ≤ i → Ncp.shortRead (file i).2 = true)
    {s : Net A α}
    (h : Spread file a s) :
    Link.CanReach (sender file) (receiver canOpen a) Open
      (Finished file) s :=
  Link.canReach_of_measure (remaining k)
    (fun _ hSpread =>
      hSpread.acked.trans
        (fun _ hAcked =>
          hAcked.renewed hEnds hSpread.sending))
    h

end Session

end P1

end Cs2520

------------------------------------------------------------
-- The First Steps after a Loss
------------------------------------------------------------

namespace Cs2520

namespace P1

namespace Ncp

open Lib

variable {ρ δ β : Type}
variable (w : Wire ρ δ β)
variable (file : Nat → ρ)

/- A sender that still connects sends its filename again. -/
theorem Fresh.call
    {n : Ncp β}
    (h : Fresh n) :
    ∃ p,
      (step w file n (.quiet true)).2 = [p] ∧
        p.hdr.seq = 0 ∧
        Fresh (step w file n (.quiet true)).1 := by
  have hStep :
      step w file n (.quiet true) = n.sendFilename w := by
    simp [step, connect, greet, sendFilename, h.running,
      h.connecting]
  refine ⟨_, congrArg Prod.snd hStep, h.seq, ?_⟩
  rw [hStep]
  exact
    ⟨h.running, h.connecting, h.seq, h.head, h.tail, h.eof,
      h.reads⟩

/- An echo of 0 makes it send the first window. -/
theorem Fresh.answer
    {n : Ncp β}
    (h : Fresh n)
    {hdr : Uhdr}
    (hZero : hdr.cack = 0) :
    let res := step w file n (.echo hdr false)
    res.1.exited = false ∧
      res.1.filenameSend = true ∧
      res.2.map (fun p => p.hdr.seq) =
        Int.range res.1.head (res.1.tail + 1) := by
  intro res
  obtain ⟨m, hM⟩ :
      ∃ m,
        m =
          { n.recvEcho hdr with
            filenameSend := true
            seq := 1 } := ⟨_, rfl⟩
  have hRes : res = fillWindow w file 100 1 m := by
    simp [res, hM, step, connect, greet, firstWindow,
      h.running, h.connecting, h.seq, h.head, h.tail, hZero,
      recvEcho, windowSize]
  rcases fillWindow_frame w file 100 1 m with
    ⟨hExited, hSend, hHead, hTail, _⟩
  have hSent := fillWindow_sent w file 100 1 m
  rw [hRes]
  refine ⟨?_, ?_, ?_⟩
  · rw [hExited, hM]
    exact h.running
  · rw [hSend, hM]
  · rw [hSent, hHead, hTail, hM]
    simp [recvEcho, h.head, h.tail, windowSize]

/- With one packet left at the end, every pass finishes. -/
theorem step_of_single
    {n : Ncp β}
    (hRunning : n.exited = false)
    (hSending : n.filenameSend = true)
    (hEof : n.eof = true)
    (hSingle : n.head = n.tail)
    (e : Ev) :
    ∃ m : Ncp β,
      step w file n e = m.finish w ∧
        m.eof = n.eof ∧
        m.reads = n.reads := by
  cases e with
  | quiet elapsed =>
      refine ⟨n, ?_, rfl, rfl⟩
      simp [step, onTimeout, hRunning, hSending, hSingle]
  | echo hdr elapsed =>
      refine ⟨n.recvEcho hdr, ?_, rfl, rfl⟩
      simp [step, onEcho, finishedOn, recvEcho, hRunning,
        hSending, hEof, hSingle]

end Ncp

end P1

end Cs2520

------------------------------------------------------------
-- After a Total Loss
------------------------------------------------------------

namespace Cs2520

namespace P1

namespace Session

open Lib

variable {A α : Type} [DecidableEq A]
variable {file : Nat → α × Int}
variable {canOpen : α → Bool}
variable {a : A}

/- Nothing is left in flight. -/
def lost
    (s : Net A α) : Net A α :=
  { s with toLeft := [], toRight := [] }

theorem live_lost
    {s : Net A α}
    (hReach :
      Link.Reachable (sender file) (receiver canOpen a)
        (Accepted canOpen a) (fun _ _ => True) s)
    (hRunning : s.left.exited = false) :
    Live file a (lost s) := by
  have hServed := running_of_reachable hReach hRunning
  have hBoth : Inv file a s ∧ Ncp.Paced s.left := by
    refine
      hServed.reach.invariant
        (fun s => Inv file a s ∧ Ncp.Paced s.left) ?_ ?_
    · intro s hStart
      exact ⟨hStart.inv, hStart.fresh.paced⟩
    · rintro s (e | e) ⟨hInv, hPaced⟩ hEnabled hOpen
      · exact
          ⟨hInv.left hEnabled,
            Ncp.step_paced hPaced
              (fun hdr hSome =>
                hInv.echo_le_tail (hEnabled hdr hSome))⟩
      · exact ⟨hInv.right hEnabled hOpen, hPaced⟩
  rcases hBoth with ⟨hInv, hPaced⟩
  refine
    ⟨⟨hInv.assembled, hInv.running, hInv.current, hInv.phase,
        ?_, ?_⟩,
      hRunning, hServed.hassender, hPaced, ?_⟩
  · intro p hMem
    cases hMem
  · intro hdr hMem
    cases hMem
  · intro p hMem
    cases hMem

/-
  A sender that still connects is heard again, and its first
  window is sent.
-/
theorem Live.reconnect
    {s : Net A α}
    (h : Live file a s)
    (hWaiting : s.left.filenameSend = false) :
    Link.CanReach (sender file) (receiver canOpen a) Open
      (Spread file a) s := by
  have hFresh : Ncp.Fresh s.left := by
    rcases h.inv.phase with hFresh | ⟨hLoaded, _⟩
    · exact hFresh
    · cases hWaiting.symm.trans hLoaded.connected
  rcases hFresh.call (Wire.opaquePayload α) file with
    ⟨p, hOut, hZero, hStill⟩
  have hQuiet :
      Link.Enabled (sender file) (receiver canOpen a) s
        (.inl (.quiet true)) := by
    intro m hMem
    cases hMem
  refine .step hQuiet h.hassender ?_
  have hCalled := h.left hQuiet hStill.running
  have hSent :
      (s.act (sender file) (receiver canOpen a)
        (.inl (.quiet true))).toRight =
        s.toRight ++ [p] :=
    congrArg (s.toRight ++ ·) hOut
  have hKept :
      Ncp.Fresh
        (s.act (sender file) (receiver canOpen a)
          (.inl (.quiet true))).left := hStill
  generalize
    s.act (sender file) (receiver canOpen a)
      (.inl (.quiet true)) = t
    at hCalled hSent hKept ⊢
  have hNumbers :
      [p].map (fun p => p.hdr.seq) =
        Int.range 0 (0 + (1 : Nat)) := by
    rw [List.map_singleton, hZero]
    rfl
  have hNonneg := hCalled.inv.assembled.cAck_nonneg
  rcases hCalled.deliver canOpen 1 hNumbers (by simp [hSent])
      (by omega) with
    ⟨hAllowed, hTaken, hLeft, _, hHeard⟩
  refine .after hAllowed ?_
  have hAddr := hHeard (.inr (by simp))
  rw [← hLeft] at hKept
  generalize
    Link.runActs (sender file) (receiver canOpen a) t _ = u
    at hTaken hKept hAddr ⊢
  rcases hTaken.timer canOpen hAddr with
    ⟨hAfter, _, hdr, hMem, hCack⟩
  refine
    .step (a := .inr .timer)
      (by simp [Link.Enabled, receiver, packet?])
      hTaken.hassender ?_
  have hAck : hdr.cack = 0 := by
    have hLow := hTaken.inv.assembled.cAck_nonneg
    have hHigh := hTaken.inv.cAck_le
    rw [hKept.last_eq] at hHigh
    omega
  rcases hKept.answer (Wire.opaquePayload α) file hAck with
    ⟨hRun, hSend, hNew⟩
  have hEcho :
      Link.Enabled (sender file) (receiver canOpen a)
        (u.act (sender file) (receiver canOpen a)
          (.inr .timer))
        (.inl (.echo hdr false)) := by
    intro m hSome
    cases hSome
    exact hMem
  exact
    .step hEcho hAfter.hassender
      (.now
        ⟨hAfter.left hEcho hRun, hSend, _,
          fun p hp => List.mem_append_right _ hp, hNew⟩)

/- A timeout sends the whole window again. -/
theorem Live.resend
    {s : Net A α}
    (h : Live file a s)
    (hSending : s.left.filenameSend = true)
    (hMore : s.left.head < s.left.tail) :
    Link.CanReach (sender file) (receiver canOpen a) Open
      (Spread file a) s := by
  have hStep :
      Ncp.step (Wire.opaquePayload α) file s.left
          (.quiet false) =
        (s.left,
          s.left.resendFrom (Wire.opaquePayload α)
            (s.left.tail + 1 - s.left.head).toNat
            s.left.head) := by
    simp [Ncp.step, Ncp.onTimeout, h.running, hSending,
      hMore.ne]
  have hQuiet :
      Link.Enabled (sender file) (receiver canOpen a) s
        (.inl (.quiet false)) := by
    intro m hMem
    cases hMem
  have hLeft :
      (s.act (sender file) (receiver canOpen a)
        (.inl (.quiet false))).left = s.left :=
    congrArg Prod.fst hStep
  refine .step hQuiet h.hassender (.now ⟨?_, ?_, ?_⟩)
  · exact h.left hQuiet (hLeft ▸ h.running)
  · rw [hLeft]
    exact hSending
  · refine
      ⟨_, fun p hp => List.mem_append_right _ hp, ?_⟩
    rw [hLeft]
    change
      (Ncp.step (Wire.opaquePayload α) file s.left
        (.quiet false)).2.map _ = _
    rw [hStep]
    exact (h.loaded hSending).1.resent_seqs

/-
  A receiver that lacks the last packet of a sender that will
  not send it again.
-/
structure Stranded
    (a : A)
    (s : Net A α) : Prop where
  running : s.right.exited = false
  current : s.right.current = a
  short : s.right.fw.length < s.left.reads
  ending :
    s.left.exited = true ∨
      (s.left.exited = false ∧
        s.left.filenameSend = true ∧
          s.left.eof = true ∧ s.left.head = s.left.tail)
  numbers : ∀ p ∈ s.toRight, p.hdr.seq = -1

theorem Stranded.left
    {s : Net A α}
    (h : Stranded a s)
    (e : Ncp.Ev) :
    Stranded a
      (s.act (sender file) (receiver canOpen a)
        (.inl e)) := by
  have hOut :
      let res := Ncp.step (Wire.opaquePayload α) file s.left e
      res.1.exited = true ∧
        res.1.reads = s.left.reads ∧
        ∀ p ∈ res.2, p.hdr.seq = -1 := by
    rcases h.ending with
      hExited | ⟨hRunning, hSending, hEof, hSingle⟩
    · simp [Ncp.step, hExited]
    · rcases Ncp.step_of_single (Wire.opaquePayload α) file
          hRunning hSending hEof hSingle e with
        ⟨m, hStep, _, hReads⟩
      rw [hStep]
      refine ⟨rfl, hReads, ?_⟩
      intro p hMem
      rw [List.mem_singleton.mp hMem]
      rfl
  refine ⟨h.running, h.current, ?_, .inl hOut.1, ?_⟩
  · exact h.short.trans_eq hOut.2.1.symm
  · intro p hMem
    rcases List.mem_append.mp hMem with hOld | hNew
    · exact h.numbers p hOld
    · exact hOut.2.2 p hNew

theorem Stranded.right
    {s : Net A α}
    (h : Stranded a s)
    {e : Rcv.Ev A α}
    (hEnabled :
      Link.Enabled (sender file) (receiver canOpen a) s
        (.inr e))
    (hOpen : s.right.hassender = true) :
    Stranded a
      (s.act (sender file) (receiver canOpen a)
        (.inr e)) := by
  have hServes : Rcv.Serves s.right a :=
    ⟨h.running, hOpen, h.current⟩
  rcases hServes.step_cases (Wire.opaquePayload α) canOpen e
    with hIdles | ⟨pkt, rfl, hData⟩
  · refine
      ⟨hIdles.exited.trans h.running,
        hIdles.current.trans h.current, ?_, h.ending,
        h.numbers⟩
    exact (congrArg List.length hIdles.fw).trans_lt h.short
  · exact
      (hData
        (h.numbers pkt
          (hEnabled pkt (by simp [receiver, packet?])))).elim

omit [DecidableEq A] in
theorem Stranded.not_finished
    {s : Net A α}
    (h : Stranded a s) :
    ¬ Finished file s := by
  intro hDone
  have hShort := h.short
  rw [hDone.written, List.length_map, List.length_range]
    at hShort
  exact Nat.lt_irrefl _ hShort

/-
  When everything in flight is lost, the transfer can still
  be completed unless the window has shrunk to its last
  packet and the receiver has not printed that one.
-/
theorem completable_iff
    (hEnds :
      ∃ k, ∀ i, k ≤ i → Ncp.shortRead (file i).2 = true)
    {s : Net A α}
    (hReach :
      Link.Reachable (sender file) (receiver canOpen a)
        (Accepted canOpen a) (fun _ _ => True) s)
    (hRunning : s.left.exited = false) :
    Link.CanReach (sender file) (receiver canOpen a) Open
        (Finished file) (lost s) ↔
      s.left.filenameSend = false ∨
        s.left.head < s.left.tail ∨
          s.left.tail ≤ s.right.cAck := by
  rcases hEnds with ⟨k, hEnds⟩
  have hLive := live_lost hReach hRunning
  have hOrder := hLive.paced.head_le hRunning
  constructor
  · intro hDone
    by_contra hNot
    simp only [not_or, not_lt, not_le] at hNot
    rcases hNot with ⟨hWaiting, hSingle, hMissing⟩
    have hSending := Bool.eq_true_of_not_eq_false hWaiting
    have hEnd : s.left.head = s.left.tail :=
      le_antisymm hOrder hSingle
    have hCount := hLive.inv.assembled.count
    have hReads := (hLive.loaded hSending).1.filled.reads
    have hStranded : Stranded a (lost s) := by
      refine
        ⟨hLive.inv.running, hLive.inv.current, ?_,
          .inr ⟨hRunning, hSending,
            hLive.paced.eof_of_single hEnd, hEnd⟩, ?_⟩
      · have hFile : s.right.cAck = s.right.fw.length := hCount
        have hLast : (s.left.reads : Int) = s.left.tail :=
          hReads
        change s.right.fw.length < s.left.reads
        omega
      · intro p hMem
        cases hMem
    refine
      Link.not_canReach_of_invariant (Stranded a) ?_
        (fun t hT => hT.not_finished) hStranded hDone
    rintro t (e | e) hT hEnabled hOpen
    · exact hT.left e
    · exact hT.right hEnabled hOpen
  · rintro hCase
    by_cases hWaiting : s.left.filenameSend = false
    · exact
        (hLive.reconnect hWaiting).trans
          (fun t hT => hT.finish canOpen hEnds)
    · have hSending := Bool.eq_true_of_not_eq_false hWaiting
      by_cases hMore : s.left.head < s.left.tail
      · exact
          (hLive.resend hSending hMore).trans
            (fun t hT => hT.finish canOpen hEnds)
      · have hAll : s.left.tail ≤ s.right.cAck :=
          (hCase.resolve_left hWaiting).resolve_left hMore
        have hEnd : s.left.head = s.left.tail :=
          le_antisymm hOrder (not_lt.mp hMore)
        have hQuiet :
            Link.Enabled (sender file) (receiver canOpen a)
              (lost s) (.inl (.quiet false)) := by
          intro m hMem
          cases hMem
        have hEof : s.left.eof = true :=
          hLive.paced.eof_of_single hEnd
        rcases Ncp.step_of_single (Wire.opaquePayload α) file
            hRunning hSending hEof hEnd (.quiet false) with
          ⟨m, hStep, hSame, hReads⟩
        exact
          hLive.finish hEof (hLive.written hSending hAll)
            hQuiet hStep hSame hReads

theorem shortRead_chunksOf
    {k i : Nat}
    (hLe : k ≤ i) :
    Ncp.shortRead (chunksOf k i).2 = true := by
  have hSize : 0 < chunkSize := by decide
  simp [chunksOf, not_lt.mpr hLe, Ncp.shortRead, hSize]

/-
  With packets 1 .. 100 outstanding the transfer goes on. It
  does not when only packet 101, the last, is outstanding.
-/
theorem completable_iff_fifth :
    Link.CanReach (sender (chunksOf 200))
        (receiver (fun _ => true) ()) Open
        (Finished (chunksOf 200)) (lost fifthBuffered) ∧
      ¬ Link.CanReach (sender (chunksOf 100))
        (receiver (fun _ => true) ()) Open
        (Finished (chunksOf 100))
        (lost
          (Link.runActs (sender (chunksOf 100))
            (receiver (fun _ => true) ())
            (begun (fun _ => true) () (chunkPacket 0))
            windowAcked)) := by
  constructor
  · exact
      (completable_iff ⟨200, fun _ => shortRead_chunksOf⟩
        reachable_fifthBuffered (by decide +kernel)).mpr
        (.inr (.inl (by decide +kernel)))
  · rw [completable_iff ⟨100, fun _ => shortRead_chunksOf⟩
      (Link.reachable_runActs
        (.start (accepted_begun _ () rfl rfl))
        (by decide +kernel))
      (by decide +kernel)]
    decide +kernel

end Session

end P1

end Cs2520
