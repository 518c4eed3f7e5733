import Cs2520.Lib.RingBuffer
import Cs2520.P1.SenderLoops

/-
  The sender's window and the packets it sends.

  `Loaded` is the sender's invariant after its connection
  loop: slot `i % WINDOW_SIZE` keeps packet `i` for every
  `i` of `head .. tail`. One pass of either loop keeps it
  and sends packets that were built from the file.

  Main declarations:
    * `Copy`
    * `Chunk`
    * `Built`
    * `Filled.push`
    * `Loaded`
    * `step_fresh`
    * `step_loaded`
-/

------------------------------------------------------------
-- Packets Built from the File
------------------------------------------------------------

namespace Cs2520

namespace P1

namespace Ncp

open Lib

variable {ρ δ β : Type}
variable (w : Wire ρ δ β)
variable (file : Nat → ρ)

/-
  The payload of a copy of one chunk: as it is first sent,
  or as its window slot is sent again. The buffer that the
  chunk was read into may have held anything.
-/
inductive Copy
    (r : ρ) : δ → Prop where
| first (old : β) : Copy r (w.text (w.read old r))
| again (old : β) : Copy r (w.whole (w.read old r))

/- A copy of one of the first `last` chunks. -/
structure Chunk
    (last : Int)
    (p : Packet δ) : Prop where
  range : 1 ≤ p.hdr.seq ∧ p.hdr.seq ≤ last
  data : Copy w (file (p.hdr.seq - 1).toNat) p.data

/-
  A packet of a sender that has numbered its chunks up to
  `last`: a filename, a finish mark or a chunk.
-/
def Built
    (last : Int)
    (p : Packet δ) : Prop :=
  p.hdr.seq = 0 ∨ p.hdr.seq = -1 ∨ Chunk w file last p

theorem Chunk.mono
    {last last' : Int}
    {p : Packet δ}
    (h : Chunk w file last p)
    (hLe : last ≤ last') :
    Chunk w file last' p := by
  have hRange := h.range
  exact ⟨by omega, h.data⟩

theorem Built.mono
    {last last' : Int}
    {p : Packet δ}
    (h : Built w file last p)
    (hLe : last ≤ last') :
    Built w file last' p := by
  rcases h with hZero | hEnd | hChunk
  · exact Or.inl hZero
  · exact Or.inr (Or.inl hEnd)
  · exact Or.inr (Or.inr (hChunk.mono w file hLe))

/-
  Chunks up to `hi` are numbered, and the slots of
  `lo .. hi` keep their packets.
-/
structure Filled
    (lo hi : Int)
    (n : Ncp β) : Prop where
  seq : n.seq = hi + 1
  reads : (n.reads : Int) = hi
  slots :
    ∀ i, lo ≤ i → i ≤ hi →
      (n.window (i % windowSize)).hdr.seq = i ∧
        ∃ old,
          (n.window (i % windowSize)).data =
            w.read old (file (i - 1).toNat)

variable {w file}

/- The next chunk may take a slot that is no longer needed. -/
theorem Filled.push
    {lo lo' hi : Int}
    {n : Ncp β}
    (h : Filled w file lo hi n)
    (hLo : lo ≤ lo')
    (hSpan : hi + 1 < lo' + windowSize) :
    Filled w file lo' (hi + 1)
      (n.push w file (hi + 1)) where
  seq := by
    have hSeq := h.seq
    simp only [Ncp.push, keep, nextChunk]
    omega
  reads := by
    have hReads := h.reads
    simp only [Ncp.push, keep, nextChunk]
    omega
  slots := by
    intro i hiLo hiHi
    have hSeq := h.seq
    have hReads := h.reads
    simp only [Ncp.push, keep, nextChunk]
    by_cases hLast : i = hi + 1
    · subst hLast
      rw [Function.update_self]
      refine ⟨hSeq, ?_⟩
      have hIndex : (hi + 1 - 1).toNat = n.reads := by omega
      rw [hIndex]
      exact ⟨n.messBuf.data, rfl⟩
    · have hNe :
          i % windowSize ≠ (hi + 1) % windowSize :=
        emod_ne_of_lt (by omega) (by omega) (by omega)
      rw [Function.update_of_ne hNe]
      exact h.slots i (by omega) (by omega)

theorem Filled.mono
    {lo lo' hi : Int}
    {n : Ncp β}
    (h : Filled w file lo hi n)
    (hLo : lo ≤ lo') :
    Filled w file lo' hi n where
  seq := h.seq
  reads := h.reads
  slots := fun i hiLo hiHi => h.slots i (by omega) hiHi

/- The message just numbered is built from the file. -/
theorem Filled.built_next
    {lo hi : Int}
    {n : Ncp β}
    (h : Filled w file lo hi n) :
    Built w file (hi + 1)
      (sendText w (n.push w file (hi + 1))) := by
  have hSeq := h.seq
  have hReads := h.reads
  have hIndex : (n.seq - 1).toNat = n.reads := by omega
  refine Or.inr (Or.inr ⟨?_, ?_⟩)
  · simp only [sendText, Ncp.push, keep, nextChunk]
    omega
  · simp only [sendText, Ncp.push, keep, nextChunk, hIndex]
    exact .first n.messBuf.data

/- A slot in range is sent as the packet it keeps. -/
theorem Filled.built_slot
    {lo hi : Int}
    {n : Ncp β}
    (h : Filled w file lo hi n)
    (hPos : 1 ≤ lo)
    {i : Int}
    (hLo : lo ≤ i)
    (hHi : i ≤ hi) :
    Built w file hi (sendSlot w n i) := by
  rcases h.slots i hLo hHi with ⟨hSeq, old, hData⟩
  refine Or.inr (Or.inr ⟨?_, ?_⟩)
  · simp only [sendSlot, hSeq]
    omega
  · simp only [sendSlot, hSeq, hData]
    exact .again old

end Ncp

end P1

end Cs2520

------------------------------------------------------------
-- The First Window
------------------------------------------------------------

namespace Cs2520

namespace P1

namespace Ncp

open Lib

variable {ρ δ β : Type}
variable {w : Wire ρ δ β}
variable {file : Nat → ρ}

/- Nothing has been read and no session is known. -/
structure Fresh
    (n : Ncp β) : Prop where
  running : n.exited = false
  connecting : n.filenameSend = false
  seq : n.seq = 0
  head : n.head = 1
  tail : n.tail = windowSize
  eof : n.eof = false
  reads : n.reads = 0

/- After the connection loop the window is always filled. -/
structure Loaded
    (w : Wire ρ δ β)
    (file : Nat → ρ)
    (n : Ncp β) : Prop where
  connected : n.filenameSend = true
  filled : Filled w file n.head n.tail n
  head_pos : 1 ≤ n.head
  head_le : n.head ≤ n.tail + 1
  span : n.tail < n.head + windowSize

/- The highest number given to a chunk so far. -/
def last
    (n : Ncp β) : Int :=
  if n.filenameSend then n.tail else 0

theorem fresh_initial
    (messBuf : Packet β)
    (window : Int → Packet β) :
    Fresh (initial messBuf window) :=
  ⟨rfl, rfl, rfl, rfl, rfl, rfl, rfl⟩

theorem Fresh.last_eq
    {n : Ncp β}
    (h : Fresh n) :
    n.last = 0 := by
  simp [last, h.connecting]

theorem Loaded.last_eq
    {n : Ncp β}
    (h : Loaded w file n) :
    n.last = n.tail := by
  simp [last, h.connected]

/-
  The loop fills the slots up to the end it runs to and
  sends each packet once.
-/
theorem fillWindow_filled
    (k : Nat)
    {lo hi : Int}
    {n : Ncp β}
    (h : Filled w file lo hi n)
    (hSpan : hi + k < lo + windowSize) :
    Filled w file lo (hi + k)
        (fillWindow w file k
          (hi + 1) n).1 ∧
      ∀ p ∈ (fillWindow w file k
          (hi + 1) n).2,
        Built w file (hi + k) p := by
  induction k generalizing hi n with
  | zero =>
      refine ⟨?_, ?_⟩
      · simpa [fillWindow] using h
      · simp [fillWindow]
  | succ k ih =>
      have hPush :=
        h.push (le_refl lo) (by push_cast at hSpan; omega)
      have hRest :=
        ih hPush (by push_cast at hSpan ⊢; omega)
      have hEnd :
          hi + 1 + (k : Int) = hi + ((k + 1 : Nat) : Int) := by
        push_cast
        omega
      rw [hEnd] at hRest
      refine ⟨hRest.1, ?_⟩
      intro p hp
      rcases List.mem_cons.mp hp with rfl | hp
      · exact h.built_next.mono w file (by push_cast; omega)
      · exact hRest.2 p hp

end Ncp

end P1

end Cs2520

------------------------------------------------------------
-- The Connection Loop
------------------------------------------------------------

namespace Cs2520

namespace P1

namespace Ncp

open Lib

variable {ρ δ β : Type}
variable {w : Wire ρ δ β}
variable {file : Nat → ρ}

/-
  Greeting changes nothing but the message buffer and the
  phase, and sends at most the number 0.
-/
theorem greet_spec
    {n : Ncp β}
    (h : Fresh n)
    (echo : Option Uhdr)
    (elapsed : Bool) :
    (∃ buf,
      (n.greet w echo elapsed).1 =
        { n with
          messBuf := buf
          filenameSend := echo.any (fun h => h.cack == 0) })
      ∧ ∀ p ∈
          (n.greet w echo elapsed).2,
        p.hdr.seq = 0 := by
  have hPhase := h.connecting
  have hSeq := h.seq
  cases n
  simp only at hPhase hSeq
  subst hPhase hSeq
  cases echo <;> cases elapsed <;>
    simp [greet, sendFilename, recvEcho]

/- The initialization loads the whole window. -/
variable (w file) in
theorem firstWindow_loaded
    {n : Ncp β}
    (hPhase : n.filenameSend = true)
    (hSeq : n.seq = 0)
    (hReads : n.reads = 0)
    (hHead : n.head = 1)
    (hTail : n.tail = windowSize) :
    Loaded w file
        (n.firstWindow w file).1 ∧
      (n.firstWindow w file).1.head =
        1 ∧
      (n.firstWindow w file).1.exited =
        n.exited ∧
      ∀ p ∈ (n.firstWindow w file).2,
        Built w file
          (n.firstWindow w
            file).1.last p := by
  obtain ⟨m, hM⟩ :
      ∃ m, m = { n with seq := n.seq + 1 } := ⟨_, rfl⟩
  have hEmpty : Filled w file 1 0 m := by
    refine ⟨?_, ?_, ?_⟩
    · simp [hM, hSeq]
    · simp [hM, hReads]
    · intro i hLo hHi
      omega
  have hmHead : m.head = 1 := by rw [hM]; exact hHead
  have hmTail : m.tail = windowSize := by
    rw [hM]
    exact hTail
  rw [firstWindow, ← hM, hHead]
  generalize hk : (n.tail + 1 - 1).toNat = k
  have hTailK : (k : Int) = windowSize := by
    simp only [windowSize] at hTail ⊢
    omega
  have hFill :=
    fillWindow_filled k hEmpty (by rw [hTailK]; decide)
  rcases fillWindow_frame w file k 1 m
    with ⟨hExited', hSend', hHead', hTail', _⟩
  rw [Int.zero_add, Int.zero_add, hTailK] at hFill
  have hLoaded :
      Loaded w file
        (fillWindow w file k 1 m).1 := by
    refine ⟨hSend'.trans ?_, ?_, ?_, ?_, ?_⟩
    · rw [hM]
      exact hPhase
    · rw [hHead', hTail', hmHead, hmTail]
      exact hFill.1
    · omega
    · rw [hHead', hTail', hmHead, hmTail]
      decide
    · rw [hHead', hTail', hmHead, hmTail]
      decide
  refine ⟨hLoaded, hHead'.trans hmHead, ?_, ?_⟩
  · rw [hExited', hM]
  · rw [hLoaded.last_eq, hTail', hmTail]
    exact hFill.2

/-
  A pass of the connection loop stays in it, or an echo with
  `cack = 0` leads to the first window.
-/
theorem connect_fresh
    {n : Ncp β}
    (h : Fresh n)
    (echo : Option Uhdr)
    (elapsed : Bool) :
    let res :=
      n.connect w file echo elapsed
    (Fresh res.1 ∨
        (Loaded w file res.1 ∧ res.1.head = 1 ∧
          res.1.exited = false)) ∧
      ∀ p ∈ res.2, Built w file res.1.last p := by
  rcases greet_spec h echo elapsed with ⟨⟨buf, hBuf⟩, hOut⟩
  dsimp only [connect]
  by_cases hHeard :
      (n.greet w echo
        elapsed).1.filenameSend = true
  · rw [if_pos hHeard]
    have hFirst :=
      firstWindow_loaded w file hHeard
        (by rw [hBuf]; exact h.seq)
        (by rw [hBuf]; exact h.reads)
        (by rw [hBuf]; exact h.head)
        (by rw [hBuf]; exact h.tail)
    rcases hFirst with ⟨hLoaded, hHead, hExited, hFill⟩
    have hRunning :
        (n.greet w echo
          elapsed).1.exited = false := by
      rw [hBuf]
      exact h.running
    refine ⟨Or.inr ⟨hLoaded, hHead,
      hExited.trans hRunning⟩, ?_⟩
    intro p hp
    rcases List.mem_append.mp hp with hp | hp
    · exact Or.inl (hOut p hp)
    · exact hFill p hp
  · rw [if_neg hHeard]
    have hWaiting := Bool.eq_false_of_not_eq_true hHeard
    refine ⟨Or.inl ?_, fun p hp => Or.inl (hOut p hp)⟩
    dsimp only
    rw [hBuf] at hWaiting ⊢
    exact
      ⟨h.running, hWaiting, h.seq, h.head, h.tail, h.eof,
        h.reads⟩

end Ncp

end P1

end Cs2520

------------------------------------------------------------
-- The Main Loop
------------------------------------------------------------

namespace Cs2520

namespace P1

namespace Ncp

open Lib

variable {ρ δ β : Type}
variable {w : Wire ρ δ β}
variable {file : Nat → ρ}

theorem Loaded.shiftOnce
    {n : Ncp β}
    (h : Loaded w file n)
    (hHead : n.head ≤ n.tail) :
    Loaded w file (n.shiftOnce w file) := by
  have hSpan := h.span
  have hPos := h.head_pos
  have hPush :
      Filled w file (n.head + 1) (n.tail + 1)
        (n.push w file (n.tail + 1)) :=
    h.filled.push (by omega) (by omega)
  refine ⟨h.connected, ?_, ?_, ?_, ?_⟩
  · exact ⟨hPush.seq, hPush.reads, hPush.slots⟩
  · simp only [Ncp.shiftOnce]
    omega
  · simp only [Ncp.shiftOnce]
    omega
  · simp only [Ncp.shiftOnce]
    omega

/- Raising the head keeps the window loaded. -/
theorem Loaded.withHead
    {n : Ncp β}
    (h : Loaded w file n)
    (head : Int)
    (hLo : n.head ≤ head)
    (hHi : head ≤ n.tail + 1) :
    Loaded w file { n with head := head } := by
  have hSpan := h.span
  have hPos := h.head_pos
  have hSlots := h.filled.mono hLo
  refine ⟨h.connected, ?_, ?_, hHi, ?_⟩
  · exact ⟨hSlots.seq, hSlots.reads, hSlots.slots⟩
  · dsimp only
    omega
  · dsimp only
    omega

/-
  The shift loop moves the head no further than the ack and
  sends the chunks it reads.
-/
theorem shiftWindow_loaded
    (receivedAck : Int)
    (k : Nat)
    {n : Ncp β}
    (h : Loaded w file n)
    (hHead : n.head + k = receivedAck + 1)
    (hAck : receivedAck ≤ n.tail) :
    let res :=
      shiftWindow w file receivedAck
        k n
    Loaded w file res.1 ∧ n.tail ≤ res.1.tail ∧
      res.1.head ≤ receivedAck + 1 ∧
      ∀ p ∈ res.2, Built w file res.1.tail p := by
  induction k generalizing n with
  | zero =>
      refine ⟨h, le_refl _, ?_, ?_⟩
      · simp only [shiftWindow]
        omega
      · simp [shiftWindow]
  | succ k ih =>
      push_cast at hHead
      have hOnce := h.shiftOnce (by omega)
      have hHead' :
          (n.shiftOnce w file).head =
            n.head + 1 :=
        rfl
      have hTail' :
          (n.shiftOnce w file).tail =
            n.tail + 1 :=
        rfl
      have hSent := h.filled.built_next
      dsimp only
      rw [shiftWindow_succ]
      by_cases hEof :
          (n.shiftOnce w file).eof =
            true
      · rw [if_pos hEof]
        have hJump :=
          hOnce.withHead (receivedAck + 1) (by omega)
            (by omega)
        refine ⟨hJump, ?_, le_refl _, ?_⟩
        · dsimp only
          omega
        · intro p hp
          rw [List.mem_singleton] at hp
          subst hp
          exact hSent
      · rw [if_neg hEof]
        have hRest := ih hOnce (by omega) (by omega)
        refine ⟨hRest.1, ?_, hRest.2.2.1, ?_⟩
        · have hGrow := hRest.2.1
          dsimp only
          omega
        · intro p hp
          rcases List.mem_cons.mp hp with rfl | hp
          · have hGrow := hRest.2.1
            exact hSent.mono w file (by dsimp only; omega)
          · exact hRest.2.2.2 p hp

theorem built_of_mem_resendNacks
    {n : Ncp β}
    (h : Loaded w file n)
    {nack : List Int}
    {p : Packet δ}
    (hp :
      p ∈ n.resendNacks w nack) :
    Built w file n.tail p := by
  have hPos := h.head_pos
  induction nack with
  | nil => simp [resendNacks] at hp
  | cons s rest ih =>
      rw [resendNacks] at hp
      split at hp
      · cases hp
      · split at hp
        · next hRange =>
            rcases List.mem_cons.mp hp with rfl | hp
            · exact
                h.filled.built_slot hPos hRange.1 hRange.2
            · exact ih hp
        · exact ih hp

theorem built_of_mem_resendFrom
    {n : Ncp β}
    (h : Loaded w file n)
    (k : Nat)
    {i : Int}
    (hLo : n.head ≤ i)
    (hHi : i + k ≤ n.tail + 1)
    {p : Packet δ}
    (hp : p ∈ n.resendFrom w k i) :
    Built w file n.tail p := by
  have hPos := h.head_pos
  induction k generalizing i with
  | zero => simp [resendFrom] at hp
  | succ k ih =>
      push_cast at hHi
      rcases List.mem_cons.mp hp with rfl | hp
      · exact
          h.filled.built_slot hPos (by omega) (by omega)
      · exact ih (by omega) (by omega) hp

theorem Loaded.finish
    {n : Ncp β}
    (h : Loaded w file n) :
    Loaded w file (n.finish w).1 := by
  refine ⟨h.connected, ?_, h.head_pos, h.head_le, h.span⟩
  exact ⟨h.filled.seq, h.filled.reads, h.filled.slots⟩

theorem Loaded.recvEcho
    {n : Ncp β}
    (h : Loaded w file n)
    (hdr : Uhdr) :
    Loaded w file (n.recvEcho hdr) := by
  refine ⟨h.connected, ?_, h.head_pos, h.head_le, h.span⟩
  exact ⟨h.filled.seq, h.filled.reads, h.filled.slots⟩

/- What a pass of the main loop does to a loaded sender. -/
structure Advances
    (w : Wire ρ δ β)
    (file : Nat → ρ)
    (n : Ncp β)
    (e : Ev)
    (res : Ncp β × List (Packet δ)) : Prop where
  loaded : Loaded w file res.1
  tail : n.tail ≤ res.1.tail
  head :
    res.1.head ≤ n.head ∨
      ∃ hdr, e.echo? = some hdr ∧
        res.1.head ≤ hdr.cack + 1
  sent : ∀ p ∈ res.2, Built w file res.1.tail p

theorem onTimeout_advances
    {n : Ncp β}
    (h : Loaded w file n)
    (e : Ev) :
    Advances w file n e
      (n.onTimeout w) := by
  have hLe := h.head_le
  unfold onTimeout
  split
  · refine ⟨h.finish, le_refl _, Or.inl (le_refl _), ?_⟩
    intro p hp
    rw [Ncp.finish, List.mem_singleton] at hp
    subst hp
    exact Or.inr (Or.inl rfl)
  · refine ⟨h, le_refl _, Or.inl (le_refl _), ?_⟩
    intro p hp
    exact
      built_of_mem_resendFrom h _ (le_refl _) (by omega) hp

theorem onEcho_advances
    {n : Ncp β}
    (h : Loaded w file n)
    {e : Ev}
    {hdr : Uhdr}
    (hEcho : e.echo? = some hdr)
    (hAck : hdr.cack ≤ n.tail) :
    Advances w file n e
      (n.onEcho w file hdr) := by
  have hRecv := h.recvEcho hdr
  have hHead : (n.recvEcho hdr).head = n.head := rfl
  have hTail : (n.recvEcho hdr).tail = n.tail := rfl
  have hHeard := onEcho_hearing w file n hdr
  generalize n.onEcho w file hdr = res at hHeard ⊢
  cases hHeard with
  | finished _ =>
      refine
        ⟨hRecv.finish, le_refl _, Or.inl (le_refl _), ?_⟩
      intro p hp
      rw [Ncp.finish, List.mem_singleton] at hp
      subst hp
      exact Or.inr (Or.inl rfl)
  | old _ =>
      exact
        ⟨hRecv, le_refl _, Or.inl (le_refl _), by simp⟩
  | repeated _ =>
      refine ⟨hRecv, le_refl _, Or.inl (le_refl _), ?_⟩
      intro p hp
      exact built_of_mem_resendNacks hRecv hp
  | jumped _ _ =>
      have hJump :=
        hRecv.withHead (hdr.cack + 1) (by omega) (by omega)
      exact
        ⟨hJump, le_refl _, Or.inr ⟨hdr, hEcho, le_refl _⟩,
          by simp⟩
  | shifted _ _ =>
      have hShift :=
        shiftWindow_loaded hdr.cack
          (hdr.cack + 1 - n.head).toNat hRecv (by omega)
          (by omega)
      exact
        ⟨hShift.1, hShift.2.1,
          Or.inr ⟨hdr, hEcho, hShift.2.2.1⟩, hShift.2.2.2⟩

/- One pass of a fresh sender. -/
variable (w file) in
theorem step_fresh
    {n : Ncp β}
    (h : Fresh n)
    (e : Ev) :
    let res := step w file n e
    (Fresh res.1 ∨
        (Loaded w file res.1 ∧ res.1.head = 1 ∧
          res.1.exited = false)) ∧
      ∀ p ∈ res.2, Built w file res.1.last p := by
  dsimp only [step]
  rw [if_neg (by simp [h.running]),
    if_neg (by simp [h.connecting])]
  cases e with
  | quiet elapsed => exact connect_fresh h none elapsed
  | echo hdr elapsed =>
      exact connect_fresh h (some hdr) elapsed

/- One pass of a loaded sender. -/
theorem step_loaded
    {n : Ncp β}
    (h : Loaded w file n)
    (e : Ev)
    (hAck : ∀ hdr, e.echo? = some hdr → hdr.cack ≤ n.tail) :
    Advances w file n e
      (step w file n e) := by
  unfold step
  split
  · exact ⟨h, le_refl _, Or.inl (le_refl _), by simp⟩
  · rw [if_pos h.connected]
    cases e with
    | quiet elapsed => exact onTimeout_advances h _
    | echo hdr elapsed =>
        exact onEcho_advances h rfl (hAck hdr rfl)

end Ncp

end P1

end Cs2520
