import Cs2520.P1.Reopen

/-
  The window discipline between one sender and the receiver.

  Within a session the sender's window starts no later than
  one behind `C_ack` and never ends more than `WINDOW_SIZE`
  behind it. Its slots keep their packets from the first
  window on; before, they hold whatever was in memory. A
  session that an old filename reopens starts at 0 again.

  Main declarations:
    * `Bounds`
    * `SlotsKept`
    * `window_discipline`
    * `discipline_broken`
-/

------------------------------------------------------------
-- Both Windows
------------------------------------------------------------

namespace Cs2520

namespace P1

namespace Session

open Lib

variable {A α : Type}

/- How both windows and all packets in flight are related. -/
structure Bounds
    (s : Net A α) : Prop where
  acked : s.left.head - 1 ≤ s.right.cAck
  sent : s.right.cAck ≤ s.left.tail
  span : s.left.tail - s.left.head < windowSize
  flight :
    ∀ p ∈ s.toRight, 1 ≤ p.hdr.seq →
      p.hdr.seq ≤ s.right.cAck + windowSize
  /- the last number that the receiver would accept -/
  spare :
    ∀ p ∈ s.toRight,
      p.hdr.seq ≠ s.right.cAck + windowSize + 1

/- Slot `i % WINDOW_SIZE` holds packet `i`, read as chunk. -/
def SlotsKept
    (file : Nat → α × Int)
    (n : Ncp α) : Prop :=
  ∀ i, n.head ≤ i → i ≤ n.tail →
    (n.window (i % windowSize)).hdr.seq = i ∧
      (n.window (i % windowSize)).data = payload file i

variable {file : Nat → α × Int}
variable {a : A}

/- The highest number given out is in the window. -/
theorem last_le_tail
    {n : Ncp α}
    (hPhase : Ncp.Fresh n ∨ Loaded file n) :
    n.last ≤ n.tail := by
  rcases hPhase with hFresh | hLoaded
  · rw [hFresh.last_eq, hFresh.tail]
    decide
  · exact hLoaded.last_eq.le

/- Numbers given out stay within `WINDOW_SIZE` of `C_ack`. -/
theorem Inv.last_le
    {s : Net A α}
    (h : Inv file a s) :
    s.left.last ≤ s.right.cAck + windowSize := by
  rcases h.phase with hFresh | ⟨hLoaded, hHead⟩
  · have hNonneg := h.assembled.cAck_nonneg
    rw [hFresh.last_eq]
    simp only [windowSize]
    omega
  · have hSpan := hLoaded.span
    rw [hLoaded.last_eq]
    omega

theorem Inv.bounds
    {s : Net A α}
    (h : Inv file a s) :
    Bounds s := by
  have hNonneg := h.assembled.cAck_nonneg
  have hLast := h.last_le
  have hFlight :
      ∀ p ∈ s.toRight, 1 ≤ p.hdr.seq →
        p.hdr.seq ≤ s.right.cAck + windowSize := by
    intro p hp hPos
    rcases h.sent p hp with hZero | hEnd | hChunk
    · omega
    · omega
    · exact hChunk.range.2.trans hLast
  refine ⟨?_, ?_, ?_, hFlight, ?_⟩
  · rcases h.phase with hFresh | ⟨_, hHead⟩
    · rw [hFresh.head]
      omega
    · exact hHead
  · exact
      h.cAck_le.trans
        (last_le_tail (h.phase.imp_right And.left))
  · rcases h.phase with hFresh | ⟨hLoaded, _⟩
    · rw [hFresh.head, hFresh.tail]
      decide
    · have hSpan := hLoaded.span
      omega
  · intro p hp hSpare
    have hPos : 1 ≤ p.hdr.seq := by
      simp only [windowSize] at hSpare
      omega
    have hLe := hFlight p hp hPos
    omega

/- A loaded window keeps what was read for each number. -/
theorem slotsKept_of_loaded
    {n : Ncp α}
    (h : Loaded file n) :
    SlotsKept file n := by
  intro i hLo hHi
  rcases h.filled.slots i hLo hHi with ⟨hSeq, _, hData⟩
  exact ⟨hSeq, hData⟩

variable [DecidableEq A]
variable {canOpen : α → Bool}

/-
  In every state of a session the windows are related as
  they should be, and once the sender has left its connection
  loop its slots hold their packets.
-/
theorem window_discipline
    {s : Net A α}
    (hReach :
      Link.Reachable (sender file) (receiver canOpen a)
        (Accepted canOpen a) Open s) :
    Bounds s ∧
      (s.left.filenameSend = true →
        SlotsKept file s.left) := by
  have hInv := inv_of_reachable (fun _ _ h => h) hReach
  refine ⟨hInv.bounds, ?_⟩
  intro hConnected
  rcases hInv.phase with hFresh | ⟨hLoaded, _⟩
  · rw [hFresh.connecting] at hConnected
    cases hConnected
  · exact slotsKept_of_loaded hLoaded

/- The window has been shifted to packet 101. -/
theorem window_discipline_shifted :
    let s :=
      Link.runActs (sender (chunksOf 100))
        (receiver (fun _ => true) ())
        (begun (fun _ => true) () (chunkPacket 0))
        windowAcked
    s.left.tail = 101 ∧
      s.left.tail - s.left.head < windowSize :=
  ⟨by decide +kernel,
    (window_discipline
      (Link.reachable_runActs
        (.start (accepted_begun _ () rfl rfl))
        (by decide +kernel))).1.span⟩

/-
  Before the first window the slots hold no packets. After a
  finished transfer a copy of its filename is accepted: the
  receiver serves the same sender with `C_ack = 0`.
-/
theorem discipline_broken :
    (¬ ∀ s : Net Unit Nat,
      Link.Reachable (sender (chunksOf 100))
          (receiver (fun _ => true) ())
          (Accepted (fun _ => true) ()) Open s →
        SlotsKept (chunksOf 100) s.left) ∧
      ¬ ∀ s : Net Unit Nat,
        Link.Reachable (sender (chunksOf 100))
            (receiver (fun _ => true) ())
            (Accepted (fun _ => true) ())
            (fun _ _ => True) s →
          Rcv.Serves s.right () →
            Bounds s := by
  constructor
  · intro hAll
    have hSlot :=
      (hAll (begun (fun _ => true) () (chunkPacket 0))
        (.start (accepted_begun _ () rfl rfl)) 1
        (by decide) (by decide)).1
    revert hSlot
    decide
  · intro hAll
    have hHead :=
      (hAll
        (Link.runActs (sender (chunksOf 100))
          (receiver (fun _ => true) ())
          (begun (fun _ => true) () (chunkPacket 0))
          (lastAcked ++
            [.inr (.recv () Rcv.finishPacket),
              .inr (.recv () (chunkPacket 0))]))
        (Link.reachable_runActs
          (.start (accepted_begun _ () rfl rfl))
          (by decide +kernel))
        ⟨by decide +kernel, by decide +kernel, rfl⟩).acked
    revert hHead
    decide +kernel

end Session

end P1

end Cs2520
