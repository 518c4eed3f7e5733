import Cs2520.P2.DeliveryPass
import Cs2520.P2.Losses

/-
  What the echoes of the real-time receiver ask for.

  The search for missing packets fills the NACK array from
  the front. In the window a free slot means that the packet
  of that very number is missing.

  Main declarations:
    * `Holding`
    * `nackScan_get`
    * `Inv.nackFor_eq`
    * `receivePass_accepted`
    * `nack_exact`
-/

------------------------------------------------------------
-- The Search
------------------------------------------------------------

namespace Cs2520

namespace P2

namespace RtRcv

open Lib

variable {A : Type}
variable {latency : Nat}
variable {good : Package → Prop}
variable {r : RtRcv A}

/- The packet numbered `i` waits in the window. -/
def Holding
    (latency : Nat)
    (r : RtRcv A)
    (i : Int) : Prop :=
  ∃ p ∈ r.buffered latency, p.seq = i

instance
    (r : RtRcv A) :
    DecidablePred (r.Holding latency) := by
  intro i
  unfold Holding
  infer_instance

/-
  The array after the search: behind the entries found so far
  come the numbers with a free slot, in order.
-/
theorem nackScan_get
    (buffer : Int → Bool)
    (n : Nat)
    (i : Int)
    (j : Nat)
    (nack : Fin nackSize → Int)
    (k : Fin nackSize) :
    nackScan latency buffer n i j nack k =
      if (k : Nat) < j then
        nack k
      else
        ((missing
              (fun s =>
                buffer (s % windowSize latency) = true)
              i (i + n))[(k : Nat) - j]?).getD (nack k) := by
  induction n generalizing i j nack with
  | zero =>
      rw [nackScan, missing_nil _ (by omega)]
      split
      · rfl
      · rfl
  | succ n ih =>
      have hEnd : i + ((n + 1 : Nat) : Int) = i + 1 + n := by
        omega
      rw [nackScan, hEnd]
      split
      · next hRoom =>
          split
          · next hFree =>
              rw [missing_of_not _ (by omega) (by simp [hFree]),
                ih]
              rcases lt_trichotomy (k : Nat) j with
                hLt | hEq | hGt
              · have hNe : k ≠ ⟨j, hRoom⟩ :=
                  Fin.ne_of_val_ne hLt.ne
                rw [if_pos (by omega), if_pos hLt,
                  Function.update_of_ne hNe]
              · have hSame : k = ⟨j, hRoom⟩ := Fin.ext hEq
                rw [if_pos (by omega), if_neg (by omega),
                  hEq, Nat.sub_self, hSame,
                  Function.update_self]
                rfl
              · have hNe : k ≠ ⟨j, hRoom⟩ :=
                  Fin.ne_of_val_ne hGt.ne'
                have hBehind :
                    (k : Nat) - j = (k : Nat) - (j + 1) + 1 := by
                  omega
                rw [if_neg (by omega), if_neg (by omega),
                  hBehind, List.getElem?_cons_succ,
                  Function.update_of_ne hNe]
          · next hUsed =>
              rw [
                missing_of_held _ (by omega)
                  (Bool.eq_true_of_not_eq_false hUsed),
                ih]
      · next hFull =>
          rw [if_pos (by omega)]

/- In the window a used slot has the packet of its number. -/
theorem Inv.set_iff_holding
    (h : Inv latency good r.progress)
    {i : Int}
    (hLo : r.cAck < i)
    (hHi : i ≤ r.cAck + windowSize latency) :
    r.buffer (i % windowSize latency) = true ↔
      r.Holding latency i := by
  have hBound :
      i < r.cAck + 1 + windowSize latency := by
    omega
  exact
    h.ring.set_iff (windowSize_pos latency)
      (Int.add_lt_add_right hLo _) hBound

/-
  The NACK array for a packet that belongs into the window:
  the first numbers missing before it, and -1 behind them.
-/
theorem Inv.nackFor_eq
    (h : Inv latency good r.progress)
    {seq : Int}
    (hLo : r.cAck + 1 ≤ seq)
    (hHi : seq ≤ r.cAck + windowSize latency) :
    r.nackFor latency seq =
      fun k : Fin nackSize =>
        ((missing (r.Holding latency) (r.cAck + 1)
          seq)[(k : Nat)]?).getD (-1) := by
  have hEnd :
      r.cAck + 1 + (seq - (r.cAck + 1)).toNat = seq := by
    omega
  have hSame :
      missing
          (fun s =>
            r.buffer (s % windowSize latency) = true)
          (r.cAck + 1) seq =
        missing (r.Holding latency) (r.cAck + 1) seq := by
    apply missing_congr
    intro i hFrom hTo
    exact h.set_iff_holding (by omega) (by omega)
  funext k
  rw [nackFor, nackScan_get, if_neg (by omega), hEnd, hSame,
    Nat.sub_zero]

end RtRcv

end P2

end Cs2520

------------------------------------------------------------
-- Echoes
------------------------------------------------------------

namespace Cs2520

namespace P2

namespace RtRcv

open Lib

variable {A : Type}
variable {latency : Nat}
variable {r : RtRcv A}

/- The state in which a packet has just been stored. -/
def stored
    (latency : Nat)
    (c : Clocks)
    (r : RtRcv A)
    (a : A)
    (pkt : Package) : RtRcv A :=
  (RtRcv.measure c
    { r.recvfrom a pkt with
      now := c.examine.toTimeval }).storePacket latency

/- An accepted packet is stored, and then acknowledged. -/
theorem receivePass_accepted
    {c : Clocks}
    {a : A}
    {pkt : Package}
    (hAccepts : Accepts latency c r (some (a, pkt))) :
    r.receivePass latency c (some (a, pkt)) =
      (r.stored latency c a pkt).sendEcho latency c := by
  rcases hAccepts with ⟨_, _, hEv, hType, hRange, hTime⟩
  cases hEv
  calc
    r.receivePass latency c (some (a, pkt)) =
        (r.recvfrom a pkt).dataPacket latency c :=
      if_pos hType
    _ = (r.stored latency c a pkt).sendEcho latency c :=
      (if_pos hRange).trans (if_pos hTime)

/- What the stored packet leaves as it was. -/
theorem stored_packet
    (latency : Nat)
    (r : RtRcv A)
    (c : Clocks)
    (a : A)
    (pkt : Package) :
    (r.stored latency c a pkt).senderPkt = stamped c pkt ∧
      (r.stored latency c a pkt).senderAddr = a ∧
      (r.stored latency c a pkt).cAck = r.cAck := by
  rcases
    measure_progress c
      { r.recvfrom a pkt with now := c.examine.toTimeval }
    with ⟨hSame, hPkt, hAddr⟩
  have hAck := congrArg Progress.cAck hSame
  exact ⟨hPkt, hAddr, hAck⟩

/- A pass that accepts a packet ends with the echo. -/
theorem step_accepted
    {c : Clocks}
    {a : A}
    {pkt : Package}
    (hRunning : r.exited = false)
    (hConnected : r.getpermission = true)
    (hAccepts :
      Accepts latency c (examining latency c r)
        (some (a, pkt))) :
    let m := (examining latency c r).stored latency c a pkt
    step latency r { packet := some (a, pkt), clocks := c } =
      ((m.sendEcho latency c).1,
        (r.deliverPass latency c).2 ++
          (m.sendEcho latency c).2) := by
  intro m
  rw [step_main hRunning hConnected, mainPass]
  dsimp only
  rw [← examining, receivePass_accepted hAccepts]

/-
  In every run, the echo of an accepted packet carries the
  first numbers after `C_ack` and before the packet that are
  not in the window, as many as fit, and -1 behind them. No
  entry has been delivered.
-/
theorem nack_exact
    (server : A)
    (u : Uninitialized)
    (es : List (Ev A))
    (c : Clocks)
    (a : A)
    (pkt : Package)
    (hConnected :
      ((machine latency).run (initial server u)
        es).getpermission = true)
    (hAccepts :
      Accepts latency c
        (examining latency c
          ((machine latency).run (initial server u) es))
        (some (a, pkt))) :
    let r := (machine latency).run (initial server u) es
    let e : Ev A := { packet := some (a, pkt), clocks := c }
    let q :=
      (machine latency).run (initial server u) (es ++ [e])
    let gaps :=
      missing (q.Holding latency) (q.cAck + 1) pkt.seq
    ∃ echo,
      (step latency r e).2 =
          (r.deliverPass latency c).2 ++ [.sendto a echo] ∧
        echo.type = 2 ∧
        echo.seq = pkt.seq ∧
        List.ofFn echo.nack =
          gaps.take nackSize ++
            List.replicate (nackSize - gaps.length) (-1) ∧
        gaps.Pairwise (fun i j => i < j) ∧
        ∀ k,
          echo.nack k ∉
            deliveredSeqs
              ((machine latency).outputs (initial server u)
                (es ++ [e])) := by
  intro r e q gaps
  have hInv :=
    (inv_initial latency (fun _ => True) server u).run es
  have hRunning : r.exited = false :=
    hInv.running hConnected
  have hStep :=
    step_accepted hRunning hConnected hAccepts
  have hLast : q = (step latency r e).1 := by
    simp only [q, r, Machine.run_append]
    rfl
  rcases
    stored_packet latency (examining latency c r) c a pkt
    with
    ⟨hPkt, hAddr, hAck⟩
  have hNext :
      Inv latency (fun _ => True) q.progress :=
    (inv_initial latency (fun _ => True) server u).run _
  rw [hStep] at hLast
  rcases hAccepts with ⟨_, _, hEv, _, hRange, _⟩
  cases hEv
  simp only [inWindow, Bool.and_eq_true,
    decide_eq_true_eq] at hRange
  have hSame :
      q.cAck =
        (examining latency c
          ((machine latency).run (initial server u)
            es)).cAck := by
    rw [hLast]
    exact hAck
  have hNack :
      q.echoPkt.nack =
        fun k : Fin nackSize =>
          (gaps[(k : Nat)]?).getD (-1) := by
    rw [← hNext.nackFor_eq (by omega) (by omega), hLast]
    change nackFor latency _ (RtRcv.senderPkt _).seq = _
    rw [hPkt]
    rfl
  refine
    ⟨q.echoPkt, ?_, ?_, ?_, ?_, missing_increasing _ _ _, ?_⟩
  · rw [hStep, hLast]
    change _ ++ [Out.sendto (RtRcv.senderAddr _) _] = _
    rw [hAddr]
    rfl
  · rw [hLast]
    rfl
  · rw [hLast]
    change (RtRcv.senderPkt _).seq = _
    rw [hPkt]
    rfl
  · rw [hNack]
    exact ofFn_getD gaps nackSize (-1)
  · intro k hMem
    rcases deliveredSeqs_range server u _ hMem with
      ⟨hPositive, hUpTo⟩
    rw [hNack] at hPositive hUpTo
    dsimp only at hPositive hUpTo
    cases hGap : gaps[(k : Nat)]? with
    | none =>
        rw [hGap, Option.getD_none] at hPositive
        omega
    | some i =>
        rw [hGap, Option.getD_some] at hUpTo
        rcases
          (mem_missing _).mp
            (List.mem_of_getElem? hGap) with
          ⟨⟨hFrom, _⟩, _⟩
        change i ≤ q.cAck at hUpTo
        omega

theorem nack_exact_third :
    let r :=
      (machine 10).run (initial () zeroedMemory) [permission]
    let e : Ev Unit :=
      { packet := some ((), dataPackage 3)
        clocks := .ofSeconds 1 }
    let q :=
      (machine 10).run (initial () zeroedMemory)
        ([permission] ++ [e])
    let gaps := missing (q.Holding 10) (q.cAck + 1) 3
    ∃ echo,
      (step 10 r e).2 =
          (r.deliverPass 10 (.ofSeconds 1)).2 ++
            [.sendto () echo] ∧
        echo.type = 2 ∧
        echo.seq = 3 ∧
        List.ofFn echo.nack =
          gaps.take nackSize ++
            List.replicate (nackSize - gaps.length) (-1) ∧
        gaps.Pairwise (fun i j => i < j) ∧
        ∀ k,
          echo.nack k ∉
            deliveredSeqs
              ((machine 10).outputs (initial () zeroedMemory)
                ([permission] ++ [e])) :=
  nack_exact () zeroedMemory [permission] (.ofSeconds 1) ()
    (dataPackage 3) (by decide +kernel)
    ⟨(), dataPackage 3, rfl, Or.inl rfl, by decide +kernel,
      by decide +kernel⟩

end RtRcv

end P2

end Cs2520
