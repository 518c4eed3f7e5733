import Cs2520.Lib.Missing
import Cs2520.P2.Window

/-
  The loss that the real-time receiver reports.

  Of the packets that were accepted, those no longer in the
  window have been delivered. Deliveries only go forward from
  `C_ack`, so what is missing below it stays missing.

  Main declarations:
    * `loss`
    * `Advanced`
    * `run_advanced`
    * `Counted`
    * `run_counted`
    * `loss_accounting`
-/

------------------------------------------------------------
-- Deliveries Go Forward
------------------------------------------------------------

namespace Cs2520

namespace P2

namespace RtRcv

open Lib

variable {A : Type}
variable {latency : Nat}
variable {good : Package → Prop}
variable {r : RtRcv A}

/-
  From `t` to `t'` only numbers after `C_ack` of `t` are
  delivered.
-/
structure Advanced
    (t t' : Progress) : Prop where
  cAck : t.cAck ≤ t'.cAck
  delivered :
    ∃ more,
      t'.delivered = t.delivered ++ more ∧
        ∀ d ∈ more, t.cAck < d.seq

theorem Advanced.refl
    (t : Progress) :
    Advanced t t where
  cAck := Int.le_refl _
  delivered :=
    ⟨[], (List.append_nil _).symm, fun d hMem => by
      cases hMem⟩

theorem Advanced.trans
    {t t' t'' : Progress}
    (h : Advanced t t')
    (h' : Advanced t' t'') :
    Advanced t t'' where
  cAck := h.cAck.trans h'.cAck
  delivered := by
    rcases h.delivered with ⟨more, hMore, hAfter⟩
    rcases h'.delivered with ⟨more', hMore', hAfter'⟩
    refine ⟨more ++ more', ?_, ?_⟩
    · rw [hMore', hMore, List.append_assoc]
    · intro d hMem
      rcases List.mem_append.mp hMem with hOld | hNew
      · exact hAfter d hOld
      · exact h.cAck.trans_lt (hAfter' d hNew)

/- Nothing is delivered and `C_ack` stays. -/
theorem Advanced.of_eq
    {t t' : Progress}
    (hAck : t'.cAck = t.cAck)
    (hDelivered : t'.delivered = t.delivered) :
    Advanced t t' where
  cAck := hAck.ge
  delivered :=
    ⟨[], by rw [hDelivered, List.append_nil],
      fun d hMem => by cases hMem⟩

theorem Delivering.advanced
    {hi i : Int}
    (h : Delivering latency good hi i r.progress)
    (hSet : r.buffer (i % windowSize latency) = true) :
    Advanced r.progress
      (r.deliverSlot latency i).progress where
  cAck := h.before.le
  delivered := by
    have hw := windowSize_pos latency
    refine ⟨_, rfl, ?_⟩
    intro d hMem
    rw [List.mem_singleton.mp hMem]
    calc
      r.cAck < i := h.before
      _ = (r.window (i % windowSize latency)).seq :=
        (h.ring.key_eq hw h.span (by omega) hSet).symm

theorem Inv.deliverPass_advanced
    (h : Inv latency good r.progress)
    (c : Clocks) :
    Advanced r.progress
      (r.deliverPass latency c).1.progress := by
  rcases
    deliver_invariant
      (fun i q =>
        Delivering latency good
            (r.cAck + windowSize latency) i q.progress ∧
          Advanced r.progress q.progress)
      (fun _ _ hAt hFree => ⟨hAt.1.skip hFree, hAt.2⟩)
      (fun _ _ hAt hSet =>
        ⟨hAt.1.slot hSet,
          hAt.2.trans (hAt.1.advanced hSet)⟩)
      (r := { r with now := c.pass.toTimeval })
      ⟨h.delivering, Advanced.refl _⟩ with
    ⟨_, _, hEnd⟩
  exact hEnd

theorem Received.advanced
    {c : Clocks}
    {packet : Option (A × Package)}
    {res : RtRcv A × List (Out A)}
    (hRes : Received latency c r packet res) :
    Advanced r.progress res.1.progress := by
  cases hRes with
  | unchanged _ hSame =>
      rw [hSame]
      exact Advanced.refl _
  | stored _ _ _ hStored _ _ =>
      rw [hStored]
      exact Advanced.of_eq rfl rfl

theorem Connecting.advanced
    {c : Clocks}
    {packet : Option (A × Package)}
    {res : RtRcv A × List (Out A)}
    (hRes : Connecting latency c r packet res) :
    Advanced r.progress res.1.progress := by
  cases hRes with
  | asked => exact Advanced.refl _
  | declined _ => exact Advanced.of_eq rfl rfl
  | permitted _ => exact Advanced.of_eq rfl rfl
  | ignored _ _ => exact Advanced.refl _

theorem Inv.step_advanced
    (h : Inv latency good r.progress)
    (e : Ev A) :
    Advanced r.progress
      (RtRcv.step latency r e).1.progress := by
  have hStep := step_stepping latency r e
  generalize RtRcv.step latency r e = res at hStep ⊢
  cases hStep with
  | exited _ => exact Advanced.refl _
  | connecting _ _ hRes => exact hRes.advanced
  | receiving _ _ hRes =>
      exact
        (h.deliverPass_advanced e.clocks).trans
          hRes.received.advanced

/- Whatever arrives, a run keeps the window in order. -/
theorem Inv.run
    (h : Inv latency (fun _ => True) r.progress)
    (es : List (Ev A)) :
    Inv latency (fun _ => True)
      ((machine latency).run r es).progress :=
  (machine latency).run_always
    (fun q => Inv latency (fun _ => True) q.progress)
    (fun _ _ hInv => hInv.step (fun _ _ _ _ _ => trivial))
    h es

/- A whole run only delivers numbers after `C_ack`. -/
theorem run_advanced
    (h : Inv latency (fun _ => True) r.progress)
    (es : List (Ev A)) :
    Advanced r.progress
      ((machine latency).run r es).progress := by
  have hRun :
      Inv latency (fun _ => True)
          ((machine latency).run r es).progress ∧
        Advanced r.progress
          ((machine latency).run r es).progress := by
    apply
      (machine latency).run_always
        (fun q =>
          Inv latency (fun _ => True) q.progress ∧
            Advanced r.progress q.progress)
    · rintro q e ⟨hInv, hFrom⟩
      exact
        ⟨hInv.step (fun _ _ _ _ _ => trivial),
          hFrom.trans (hInv.step_advanced e)⟩
    · exact ⟨h, Advanced.refl _⟩
  exact hRun.2

end RtRcv

end P2

end Cs2520

------------------------------------------------------------
-- Counters
------------------------------------------------------------

namespace Cs2520

namespace P2

namespace RtRcv

open Lib

variable {A : Type}
variable {latency : Nat}
variable {r : RtRcv A}

/- What was accepted has been delivered or still waits. -/
def Counted
    (r : RtRcv A) : Prop :=
  r.rcvdCount = r.buffersize + r.delivered.length

theorem Counted.deliverSlot
    (h : r.Counted)
    (i : Int) :
    (r.deliverSlot latency i).Counted := by
  change
    r.rcvdCount =
      r.buffersize - 1 +
        (r.delivered ++ [_]).length
  rw [h, List.length_append, List.length_singleton]
  omega

theorem Counted.deliverPass
    (h : r.Counted)
    (c : Clocks) :
    (r.deliverPass latency c).1.Counted :=
  deliverPass_keeps (fun i _ hAt => hAt.deliverSlot i) h

/- Accepting a packet adds it to both counters. -/
theorem Counted.storeMeasured
    (h : r.Counted)
    (c : Clocks) :
    ((r.measure c).storePacket latency).Counted := by
  rcases measure_eq_sample c r with ⟨_, _, _, hSample⟩
  rw [hSample]
  change r.rcvdCount + 1 = r.buffersize + 1 + r.delivered.length
  rw [h]
  omega

theorem Counted.receiving
    (h : r.Counted)
    {c : Clocks}
    {packet : Option (A × Package)}
    {res : RtRcv A × List (Out A)}
    (hRes : Receiving latency c r packet res) :
    res.1.Counted := by
  cases hRes with
  | idle _ => exact h
  | reported _ => exact h
  | @stored a pkt _ _ _ =>
      exact
        Counted.storeMeasured
          (r :=
            { r.recvfrom a pkt with
              now := c.examine.toTimeval }) h c
  | late _ => exact h
  | outside _ => exact h
  | ackacked _ _ => exact h
  | ignored _ _ => exact h

theorem Counted.connecting
    (h : r.Counted)
    {c : Clocks}
    {packet : Option (A × Package)}
    {res : RtRcv A × List (Out A)}
    (hRes : Connecting latency c r packet res) :
    res.1.Counted := by
  cases hRes with
  | asked => exact h
  | declined _ => exact h
  | permitted _ => exact h
  | ignored _ _ => exact h

theorem Counted.step
    (h : r.Counted)
    (e : Ev A) :
    (RtRcv.step latency r e).1.Counted := by
  have hStep := step_stepping latency r e
  generalize RtRcv.step latency r e = res at hStep ⊢
  cases hStep with
  | exited _ => exact h
  | connecting _ _ hRes => exact h.connecting hRes
  | receiving _ _ hRes =>
      dsimp only
      exact (h.deliverPass e.clocks).receiving hRes

theorem run_counted
    (server : A)
    (u : Uninitialized)
    (es : List (Ev A)) :
    ((machine latency).run (initial server u) es).Counted
    := by
  have hInit : (initial server u).Counted := rfl
  exact
    (machine latency).run_always Counted
      (fun _ e h => h.step e) hInit es

end RtRcv

end P2

end Cs2520

------------------------------------------------------------
-- The Report
------------------------------------------------------------

namespace Cs2520

namespace P2

namespace RtRcv

open Lib

variable {A : Type}
variable {latency : Nat}
variable {r : RtRcv A}

/- The `loss` of the report. -/
def loss
    (r : RtRcv A) : Int :=
  r.cAck - (r.rcvdCount - r.buffersize)

/- The numbers in the records sent to the application. -/
def deliveredSeqs
    (out : List (Out A)) : List Int :=
  (out.filterMap Out.record?).map StreamPkt.seq

/- The reported loss counts the numbers not delivered. -/
theorem Inv.loss_eq
    {good : Package → Prop}
    (h : Inv latency good r.progress)
    (hCounted : r.Counted)
    (hPositive : ∀ d ∈ r.delivered, 0 < d.seq)
    {sent : List Int}
    (hSent : sent = r.delivered.map StreamPkt.seq) :
    r.loss =
      (missing (fun i => i ∈ sent) 1 (r.cAck + 1)).length
    := by
  have hNonneg : 0 ≤ r.cAck := h.nonneg
  subst hSent
  rw [length_missing (by omega), List.length_map, loss,
    hCounted]
  · omega
  · exact List.pairwise_map.mpr h.ordered
  · intro i hMem
    rcases List.mem_map.mp hMem with ⟨d, hIn, rfl⟩
    have hLow := hPositive d hIn
    have hHigh : d.seq ≤ r.cAck := h.upTo d hIn
    omega

/- The numbers in `delivered` are those sent so far. -/
theorem deliveredSeqs_run
    (server : A)
    (u : Uninitialized)
    (es : List (Ev A)) :
    deliveredSeqs
        ((machine latency).outputs (initial server u) es) =
      ((machine latency).run (initial server u)
        es).delivered.map StreamPkt.seq := by
  rw [delivered_eq_outputs]
  rfl

/- The numbers delivered so far start at 1. -/
theorem delivered_positive
    (server : A)
    (u : Uninitialized)
    (es : List (Ev A)) :
    ∀ d ∈
        ((machine latency).run (initial server u)
          es).delivered,
      0 < d.seq := by
  have hInit := inv_initial latency (fun _ => True) server u
  rcases (run_advanced hInit es).delivered with
    ⟨more, hMore, hAfter⟩
  intro d hMem
  apply hAfter d
  rw [← List.nil_append more]
  exact hMore ▸ hMem

/- They end at `C_ack`. -/
theorem deliveredSeqs_range
    (server : A)
    (u : Uninitialized)
    (es : List (Ev A))
    {i : Int}
    (hMem :
      i ∈
        deliveredSeqs
          ((machine latency).outputs (initial server u)
            es)) :
    0 < i ∧
      i ≤ ((machine latency).run (initial server u) es).cAck
    := by
  have hInit := inv_initial latency (fun _ => True) server u
  rw [deliveredSeqs_run] at hMem
  rcases List.mem_map.mp hMem with ⟨d, hIn, rfl⟩
  exact
    ⟨delivered_positive server u es d hIn,
      (hInit.run es).upTo d hIn⟩

/- The state at the end of a run, and what it delivered. -/
theorem run_loss
    (server : A)
    (u : Uninitialized)
    (es : List (Ev A)) :
    ((machine latency).run (initial server u) es).loss =
      (missing
        (fun i =>
          i ∈
            deliveredSeqs
              ((machine latency).outputs (initial server u)
                es)) 1
        (((machine latency).run (initial server u)
          es).cAck + 1)).length := by
  have hInit := inv_initial latency (fun _ => True) server u
  exact
    (hInit.run es).loss_eq (run_counted server u es)
      (delivered_positive server u es)
      (deliveredSeqs_run server u es)

/- Below `C_ack` nothing is delivered any more. -/
theorem delivered_settled
    (server : A)
    (u : Uninitialized)
    (es es' : List (Ev A))
    {i : Int}
    (hLe :
      i ≤ ((machine latency).run (initial server u) es).cAck) :
    i ∈
        deliveredSeqs
          ((machine latency).outputs (initial server u)
            (es ++ es')) ↔
      i ∈
        deliveredSeqs
          ((machine latency).outputs (initial server u)
            es) := by
  have hInit := inv_initial latency (fun _ => True) server u
  rcases (run_advanced (hInit.run es) es').delivered with
    ⟨more, hMore, hAfter⟩
  have hAll :
      ((machine latency).run (initial server u)
          (es ++ es')).delivered =
        ((machine latency).run (initial server u)
          es).delivered ++ more := by
    rw [Machine.run_append]
    exact hMore
  rw [deliveredSeqs_run, deliveredSeqs_run, hAll,
    List.map_append, List.mem_append]
  constructor
  · rintro (hOld | hNew)
    · exact hOld
    · rcases List.mem_map.mp hNew with ⟨d, hMem, rfl⟩
      exact absurd (hAfter d hMem) (Int.not_lt.mpr hLe)
  · exact Or.inl

theorem loss_le_continued
    (server : A)
    (u : Uninitialized)
    (es es' : List (Ev A)) :
    ((machine latency).run (initial server u) es).loss ≤
      ((machine latency).run (initial server u)
        (es ++ es')).loss := by
  let sent :=
    deliveredSeqs
      ((machine latency).outputs (initial server u) es)
  let all :=
    deliveredSeqs
      ((machine latency).outputs (initial server u)
        (es ++ es'))
  have hInit := inv_initial latency (fun _ => True) server u
  have hNonneg :
      0 ≤ ((machine latency).run (initial server u) es).cAck :=
    (hInit.run es).nonneg
  have hAck :
      ((machine latency).run (initial server u) es).cAck ≤
        ((machine latency).run (initial server u)
          (es ++ es')).cAck := by
    rw [Machine.run_append]
    exact (run_advanced (hInit.run es) es').cAck
  -- up to the old `C_ack` the longer run misses the same
  have hBelow :
      missing (fun i => i ∈ sent) 1
          (((machine latency).run (initial server u)
            es).cAck + 1) =
        missing (fun i => i ∈ all) 1
          (((machine latency).run (initial server u)
            es).cAck + 1) :=
    missing_congr _ _
      (fun i _ hLt =>
        (delivered_settled server u es es'
          (Int.le_of_lt_add_one hLt)).symm)
  rw [run_loss, run_loss, hBelow,
    missing_append (fun i => i ∈ all)
      (Int.le_add_of_nonneg_left hNonneg)
      (Int.add_le_add_right hAck 1),
    List.length_append]
  omega

/-
  In every run, what was accepted and has left the window was
  delivered. The loss counts the numbers up to `C_ack` that
  were not delivered, and will not be in any continuation; it
  is never negative and never decreases.
-/
theorem loss_accounting
    (server : A)
    (u : Uninitialized)
    (es es' : List (Ev A)) :
    let r := (machine latency).run (initial server u) es
    let sent :=
      deliveredSeqs
        ((machine latency).outputs (initial server u) es)
    r.rcvdCount - r.buffersize = sent.length ∧
      r.loss =
        (missing (fun i => i ∈ sent) 1 (r.cAck + 1)).length ∧
      (∀ i, i ≤ r.cAck →
        (i ∈
            deliveredSeqs
              ((machine latency).outputs (initial server u)
                (es ++ es')) ↔
          i ∈ sent)) ∧
      0 ≤ r.loss ∧
      r.loss ≤
        ((machine latency).run (initial server u)
          (es ++ es')).loss := by
  intro r sent
  have hLoss : r.loss = _ := run_loss server u es
  refine
    ⟨?_, hLoss,
      fun _ hLe => delivered_settled server u es es' hLe,
      ?_, loss_le_continued server u es es'⟩
  · have hCounted : r.Counted := run_counted server u es
    have hLength : sent.length = r.delivered.length := by
      simp only [sent, deliveredSeqs_run, List.length_map]
      rfl
    rw [hCounted, hLength]
    omega
  · rw [hLoss]
    exact Int.natCast_nonneg _

end RtRcv

end P2

end Cs2520
