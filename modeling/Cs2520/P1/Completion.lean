import Cs2520.P1.Transfer

/-
  What the receiver has written when the sender finishes.

  The sender finishes with its last packet unacknowledged
  only through its tests of `head` against `tail`: the head
  is one past the highest acknowledged packet, so the tests
  hold one packet too early.

  Main declarations:
    * `step_exits`
    * `Confirmed`
    * `Complete`
    * `complete_of_confirmed`
    * `finished_early`
-/

------------------------------------------------------------
-- The Finishing Passes
------------------------------------------------------------

namespace Cs2520

namespace P1

namespace Ncp

open Lib

variable {α : Type}
variable {file : Nat → α × Int}

/- A timeout exits when `head == tail`. -/
theorem onTimeout_exits
    {n : Ncp α}
    (hRunning : n.exited = false)
    (hExits :
      (n.onTimeout (Wire.opaquePayload α)).1.exited = true) :
    (n.onTimeout (Wire.opaquePayload α)).1.tail = n.tail ∧
      n.head = n.tail := by
  unfold onTimeout at hExits ⊢
  split at hExits
  · next hEnd =>
      rw [if_pos hEnd]
      exact ⟨rfl, hEnd⟩
  · rw [hRunning] at hExits
    cases hExits

/- An echo exits when it passes the finish test. -/
theorem onEcho_exits
    {n : Ncp α}
    {hdr : Uhdr}
    (hRunning : n.exited = false)
    (hExits :
      (n.onEcho (Wire.opaquePayload α) file
        hdr).1.exited = true) :
    (n.onEcho (Wire.opaquePayload α) file hdr).1.tail =
        n.tail ∧
      (n.tail ≤ hdr.cack ∨ n.tail ≤ n.head) := by
  have hHeard :=
    onEcho_hearing (Wire.opaquePayload α) file n hdr
  generalize
    n.onEcho (Wire.opaquePayload α) file hdr = res
    at hHeard hExits ⊢
  cases hHeard with
  | finished hTest =>
      simp only [finishedOn, Bool.and_eq_true,
        Bool.or_eq_true, decide_eq_true_eq] at hTest
      exact ⟨rfl, hTest.2⟩
  | old _ => cases hRunning.symm.trans hExits
  | repeated _ => cases hRunning.symm.trans hExits
  | jumped _ _ => cases hRunning.symm.trans hExits
  | shifted _ hAhead =>
      have hHead : (n.recvEcho hdr).head = n.head := rfl
      have hFrame :=
        shiftWindow_frame (Wire.opaquePayload α) file hdr.cack
          (hdr.cack + 1 - n.head).toNat
          (n := n.recvEcho hdr) (by omega)
      have hSame := hFrame.1.symm.trans hExits
      cases hRunning.symm.trans hSame

/-
  Only the two finish branches exit: on a timeout when
  `head == tail`, or on an echo that passes the finish test.
-/
theorem step_exits
    {n : Ncp α}
    {e : Ev}
    (hRunning : n.exited = false)
    (hSend : n.filenameSend = true)
    (hExits :
      (step (Wire.opaquePayload α) file n e).1.exited =
        true) :
    (step (Wire.opaquePayload α) file n e).1.tail = n.tail ∧
      ((e.echo? = none ∧ n.head = n.tail) ∨
        ∃ hdr, e.echo? = some hdr ∧
          (n.tail ≤ hdr.cack ∨ n.tail ≤ n.head)) := by
  unfold step at hExits ⊢
  rw [if_neg (by simp [hRunning]), if_pos hSend]
    at hExits ⊢
  cases e with
  | quiet elapsed =>
      rcases onTimeout_exits hRunning hExits with
        ⟨hTail, hEnd⟩
      exact ⟨hTail, Or.inl ⟨rfl, hEnd⟩⟩
  | echo hdr elapsed =>
      rcases onEcho_exits hRunning hExits with
        ⟨hTail, hEnd⟩
      exact ⟨hTail, Or.inr ⟨hdr, rfl, hEnd⟩⟩

end Ncp

end P1

end Cs2520

------------------------------------------------------------
-- Complete Files
------------------------------------------------------------

namespace Cs2520

namespace P1

namespace Session

open Lib

variable {A α : Type} [DecidableEq A]
variable {file : Nat → α × Int}
variable {canOpen : α → Bool}
variable {a : A}

/-
  A pass of the main loop that finds `head == tail` is one on
  an echo of at least `tail`.
-/
def Confirmed
    (n : Ncp α)
    (e : Ncp.Ev) : Prop :=
  n.filenameSend = true → n.head = n.tail →
    e.echo?.any
      (fun hdr => decide (n.tail ≤ hdr.cack)) = true

instance (n : Ncp α) (e : Ncp.Ev) :
    Decidable (Confirmed n e) :=
  inferInstanceAs (Decidable (_ → _ → _))

/- The session is open, and the sender's passes confirmed. -/
def OpenConfirmed
    (s : Net A α) : Act A α → Prop
  | .inl e => Open s (.inl e) ∧ Confirmed s.left e
  | .inr e => Open s (.inr e)

instance (s : Net A α) (act : Act A α) :
    Decidable (OpenConfirmed s act) := by
  cases act <;> unfold OpenConfirmed <;> infer_instance

/- After the sender's finish everything has been written. -/
def Complete
    (s : Net A α) : Prop :=
  s.left.exited = true → s.left.tail ≤ s.right.cAck

/- A confirmed finish comes after the last packet. -/
theorem complete_left
    {s : Net A α}
    (hInv : Inv file a s)
    (hComplete : Complete s)
    {e : Ncp.Ev}
    (hEnabled :
      Link.Enabled (sender file) (receiver canOpen a) s
        (.inl e))
    (hConfirmed : Confirmed s.left e) :
    Complete
      (s.act (sender file) (receiver canOpen a)
        (.inl e)) := by
  intro hExited
  have hExits :
      (Ncp.step (Wire.opaquePayload α) file
        s.left e).1.exited = true := hExited
  change
    (Ncp.step (Wire.opaquePayload α) file s.left e).1.tail ≤
      s.right.cAck
  cases hBefore : s.left.exited with
  | true =>
      have hKept :
          Ncp.step (Wire.opaquePayload α) file s.left e =
            (s.left, []) := by
        simp [Ncp.step, hBefore]
      rw [hKept]
      exact hComplete hBefore
  | false =>
      rcases hInv.phase with hFresh | ⟨hLoaded, hHead⟩
      · rcases (Ncp.step_fresh (Wire.opaquePayload α) file
            hFresh e).1
          with hFresh' | ⟨_, _, hRunning⟩
        · rw [hFresh'.running] at hExits
          cases hExits
        · rw [hRunning] at hExits
          cases hExits
      · rcases Ncp.step_exits hBefore hLoaded.connected
            hExits with ⟨hTail, hWhy⟩
        have hTest :=
          hConfirmed hLoaded.connected
        rw [hTail]
        rcases hWhy with ⟨hNone, hEnd⟩ | ⟨hdr, hSome, hWhy⟩
        · have hAny := hTest hEnd
          simp [hNone] at hAny
        · have hCack :=
            hInv.echoed hdr (hEnabled hdr hSome)
          rcases hWhy with hAcked | hPassed
          · omega
          · -- past the tail, the head itself is the proof
            by_cases hEnd : s.left.head = s.left.tail
            · have hAny := hTest hEnd
              simp only [hSome, Option.any_some,
                decide_eq_true_eq] at hAny
              omega
            · omega

theorem complete_right
    {s : Net A α}
    (hInv : Inv file a s)
    (hComplete : Complete s)
    {e : Rcv.Ev A α}
    (hOpen : s.right.hassender = true) :
    Complete
      (s.act (sender file) (receiver canOpen a)
        (.inr e)) := by
  intro hExited
  have hServes : Rcv.Serves s.right a :=
    ⟨hInv.running, hOpen, hInv.current⟩
  exact
    (hComplete hExited).trans
      (hServes.cAck_le (Wire.opaquePayload α) canOpen e)

/-
  In runs whose sender passes are confirmed, the file is
  complete when the sender has finished.
-/
theorem complete_of_confirmed
    {s : Net A α}
    (hReach :
      Link.Reachable (sender file) (receiver canOpen a)
        (Accepted canOpen a) OpenConfirmed s)
    (hExited : s.left.exited = true) :
    s.left.tail ≤ s.right.cAck ∧
      s.right.fw =
        (List.range s.left.reads).map
          (fun i => (file i).1) := by
  have hOpen :
      ∀ (s : Net A α) act,
        OpenConfirmed s act → Open s act := by
    rintro s (e | e) hOk
    · exact hOk.1
    · exact hOk
  have hBoth : Inv file a s ∧ Complete s := by
    refine
      hReach.invariant
        (fun s => Inv file a s ∧ Complete s) ?_ ?_
    · intro s hStart
      refine ⟨hStart.inv, ?_⟩
      intro hExited
      rw [hStart.fresh.running] at hExited
      cases hExited
    · rintro s (e | e) ⟨hInv, hComplete⟩ hEnabled hOk
      · exact
          ⟨hInv.left hEnabled,
            complete_left hInv hComplete hEnabled hOk.2⟩
      · exact
          ⟨hInv.right hEnabled hOk,
            complete_right hInv hComplete hOk⟩
  rcases hBoth with ⟨hInv, hComplete⟩
  have hTail := hComplete hExited
  refine ⟨hTail, ?_⟩
  have hLe := hInv.cAck_le
  have hCount := hInv.assembled.count
  rcases hInv.phase with hFresh | ⟨hLoaded, _⟩
  · rw [hFresh.running] at hExited
    cases hExited
  · rw [hLoaded.last_eq] at hLe
    have hReads := hLoaded.filled.reads
    have hLength : s.right.fw.length = s.left.reads := by
      omega
    rw [fw_eq_of_numbered hInv.assembled.file, hLength]
    apply List.map_congr_left
    intro i _
    simp [payload]

/- The first window, its delivery, and its last echo. -/
def windowAcked : List (Act Unit Nat) :=
  .inl (.echo (chunkPacket 0).hdr true) ::
    (List.range 100).map
      (fun i => .inr (.recv () (chunkPacket (i + 1)))) ++
    [.inl (.echo { (chunkPacket 0).hdr with cack := 100 }
      true)]

/- Packet 101 arrives and its echo ends the sender. -/
def lastAcked : List (Act Unit Nat) :=
  windowAcked ++
    [.inr (.recv ()
        { hdr := { cack := 100, nack := noNack, seq := 101 }
          data := 100 }),
      .inl (.echo { (chunkPacket 0).hdr with cack := 101 }
        true)]

theorem complete_of_confirmed_acked :
    let s :=
      Link.runActs (sender (chunksOf 100))
        (receiver (fun _ => true) ())
        (begun (fun _ => true) () (chunkPacket 0))
        lastAcked
    s.left.exited = true ∧ s.left.tail = 101 ∧
      s.left.tail ≤ s.right.cAck ∧
      s.right.fw =
        (List.range s.left.reads).map
          (fun i => (chunksOf 100 i).1) :=
  ⟨by decide +kernel, by decide +kernel,
    complete_of_confirmed
      (Link.reachable_runActs
        (.start (accepted_begun _ () rfl rfl))
        (by decide +kernel))
      (by decide +kernel)⟩

/-
  An echo of 100 makes the sender read the last chunk and
  sets `head` to 101, its `tail`. The next timeout finishes
  while that chunk is still in flight.
-/
theorem finished_early :
    ¬ ∀ s : Net Unit Nat,
      Link.Reachable (sender (chunksOf 100))
          (receiver (fun _ => true) ())
          (Accepted (fun _ => true) ()) Open s →
        s.left.exited = true →
          s.left.tail ≤ s.right.cAck := by
  intro hAll
  have hLe :=
    hAll
      (Link.runActs (sender (chunksOf 100))
        (receiver (fun _ => true) ())
        (begun (fun _ => true) () (chunkPacket 0))
        (windowAcked ++ [.inl (.quiet true)]))
      (Link.reachable_runActs
        (.start (accepted_begun _ () rfl rfl))
        (by decide +kernel))
      (by decide +kernel)
  revert hLe
  decide +kernel

end Session

end P1

end Cs2520
