import Cs2520.P2.Lockout

/-
  The delivery loop of the real-time receiver is exact.

  When the times in the window grow with the numbers, the
  loop delivers the packets that are due, in their order, and
  leaves the others: the first packet that is not due comes
  before all others that are not.

  Main declarations:
    * `IsDue`
    * `Timely`
    * `Delivered`
    * `deliver_exact`
    * `deliverPass_exact`
-/

------------------------------------------------------------
-- Due Packets
------------------------------------------------------------

namespace Cs2520

namespace P2

theorem latencyWindow_normal
    (latency : Nat) :
    (latencyWindow latency).Normal := by
  constructor
  · simp only [latencyWindow]
    omega
  · simp only [latencyWindow]
    omega

namespace RtRcv

open Lib

variable {A : Type}
variable (latency : Nat)

/- The packets in the window. -/
def buffered
    (r : RtRcv A) : List Package :=
  r.toRingBuffer.items (windowSize latency)

/- `Send_TS + Base_Delta + Latency_Window <= now` -/
def IsDue
    (r : RtRcv A)
    (p : Package) : Prop :=
  p.sendTS.micros + r.baseDelta.value.micros +
      (latencyWindow latency).micros ≤
    r.now.micros

/- Times are normal, and grow with the numbers. -/
structure Timely
    (r : RtRcv A) : Prop where
  delta : r.baseDelta.value.Normal
  normal : ∀ p ∈ r.buffered latency, p.sendTS.Normal
  ordered :
    ∀ p ∈ r.buffered latency,
      ∀ p' ∈ r.buffered latency,
        p.seq ≤ p'.seq →
          p.sendTS.micros ≤ p'.sendTS.micros

/- The record in which a packet is delivered. -/
def recordOf
    (r : RtRcv A)
    (p : Package) : StreamPkt :=
  (r.fillSendPkt p).sendPkt

/-
  The loop delivers `ps`: exactly the packets that are due,
  in increasing order. All others stay, and `C_ack` is the
  last number delivered.
-/
structure Delivered
    (r : RtRcv A)
    (ps : List Package)
    (res : RtRcv A × List (Out A)) : Prop where
  out : res.2 = ps.map (fun p => .deliver (r.recordOf p))
  due :
    ∀ p,
      p ∈ ps ↔ p ∈ r.buffered latency ∧ r.IsDue latency p
  increasing : ps.Pairwise (fun p p' => p.seq < p'.seq)
  kept :
    ∀ p,
      p ∈ res.1.buffered latency ↔
        p ∈ r.buffered latency ∧ ¬ r.IsDue latency p
  cAck : res.1.cAck = (ps.map Package.seq).getLastD r.cAck

variable {latency}

/- The test of the loop is on microseconds. -/
theorem Timely.deliver_iff
    {r : RtRcv A}
    (h : Timely latency r)
    (hNow : r.now.Normal)
    {p : Package}
    (hMem : p ∈ r.buffered latency) :
    -1 < cmpTime r.now (r.deliverTime latency p) ↔
      r.IsDue latency p := by
  have hTime : (r.deliverTime latency p).Normal :=
    (h.delta.timeradd (h.normal p hMem)).timeradd
      (latencyWindow_normal latency)
  rw [cmpTime_iff_micros hNow hTime, deliverTime,
    Timeval.micros_timeradd, Timeval.micros_timeradd, IsDue]
  omega

/- A packet after one that is not due is not due either. -/
theorem Timely.not_due_after
    {r : RtRcv A}
    (h : Timely latency r)
    {p p' : Package}
    (hMem : p ∈ r.buffered latency)
    (hMem' : p' ∈ r.buffered latency)
    (hLe : p.seq ≤ p'.seq)
    (hNotDue : ¬ r.IsDue latency p) :
    ¬ r.IsDue latency p' := by
  have hTime := h.ordered p hMem p' hMem' hLe
  unfold IsDue at hNotDue ⊢
  omega

/- Nothing is delivered when nothing is due. -/
theorem Delivered.none
    {r : RtRcv A}
    (hNone :
      ∀ p ∈ r.buffered latency, ¬ r.IsDue latency p) :
    Delivered latency r [] (r, []) where
  out := rfl
  due := by
    intro p
    constructor
    · intro hMem
      cases hMem
    · rintro ⟨hMem, hDue⟩
      exact absurd hDue (hNone p hMem)
  increasing := List.Pairwise.nil
  kept := by
    intro p
    constructor
    · intro hMem
      exact ⟨hMem, hNone p hMem⟩
    · rintro ⟨hMem, _⟩
      exact hMem
  cAck := rfl

end RtRcv

end P2

end Cs2520

------------------------------------------------------------
-- The Loop
------------------------------------------------------------

namespace Cs2520

namespace P2

namespace RtRcv

open Lib

variable {A : Type}
variable {latency : Nat}
variable {good : Package → Prop}
variable {i hi : Int}
variable {r : RtRcv A}

/- What is left in the window when slot `i` is delivered. -/
theorem buffered_deliverSlot
    (h :
      RingBuffer.Holds (windowSize latency) i hi
        Package.seq good r.toRingBuffer)
    (hSpan : hi < i + windowSize latency)
    (p : Package) :
    p ∈ (r.deliverSlot latency i).buffered latency ↔
      p ∈ r.buffered latency ∧ p.seq ≠ i :=
  h.mem_items_release (windowSize_pos latency) hSpan

theorem Timely.deliverSlot
    (hTimely : Timely latency r)
    (h :
      RingBuffer.Holds (windowSize latency) i hi
        Package.seq good r.toRingBuffer)
    (hSpan : hi < i + windowSize latency) :
    Timely latency (r.deliverSlot latency i) := by
  have hLeft := buffered_deliverSlot h hSpan
  constructor
  · exact hTimely.delta
  · intro p hMem
    exact hTimely.normal p ((hLeft p).mp hMem).1
  · intro p hMem p' hMem'
    exact
      hTimely.ordered p ((hLeft p).mp hMem).1 p'
        ((hLeft p').mp hMem').1

/- The packet at `i` is delivered before all others. -/
theorem Delivered.cons
    (h :
      RingBuffer.Holds (windowSize latency) i hi
        Package.seq good r.toRingBuffer)
    (hSpan : hi < i + windowSize latency)
    {p : Package}
    (hMem : p ∈ r.buffered latency)
    (hSeq : p.seq = i)
    (hDue : r.IsDue latency p)
    {ps : List Package}
    {res : RtRcv A × List (Out A)}
    (hRest :
      Delivered latency (r.deliverSlot latency i) ps res) :
    Delivered latency r (p :: ps)
      (res.1, .deliver (r.recordOf p) :: res.2) := by
  have hLeft := buffered_deliverSlot h hSpan
  have hOnly :
      ∀ p' ∈ r.buffered latency, p'.seq = i → p' = p := by
    intro p' hMem' hSeq'
    rw [← h.window_key hMem', ← h.window_key hMem, hSeq,
      hSeq']
  -- the other packets are due or not, as they were before
  have hOthers :
      ∀ p',
        p' ∈ ps ↔
          (p' ∈ r.buffered latency ∧ p'.seq ≠ i) ∧
            r.IsDue latency p' := by
    intro p'
    rw [hRest.due p', hLeft p']
    exact Iff.rfl
  constructor
  · rw [List.map_cons, hRest.out]
    rfl
  · intro p'
    rw [List.mem_cons, hOthers p']
    constructor
    · rintro (rfl | ⟨⟨hIn, _⟩, hDue'⟩)
      · exact ⟨hMem, hDue⟩
      · exact ⟨hIn, hDue'⟩
    · rintro ⟨hIn, hDue'⟩
      by_cases hFirst : p'.seq = i
      · exact Or.inl (hOnly p' hIn hFirst)
      · exact Or.inr ⟨⟨hIn, hFirst⟩, hDue'⟩
  · apply List.pairwise_cons.mpr
    refine ⟨?_, hRest.increasing⟩
    intro p' hIn
    rcases (hOthers p').mp hIn with ⟨⟨hIn', hNe⟩, _⟩
    have hLow := (h.key_range hIn').1
    omega
  · intro p'
    rw [hRest.kept p', hLeft p']
    constructor
    · rintro ⟨⟨hIn, _⟩, hNot⟩
      exact ⟨hIn, hNot⟩
    · rintro ⟨hIn, hNot⟩
      refine ⟨⟨hIn, ?_⟩, hNot⟩
      intro hFirst
      rw [hOnly p' hIn hFirst] at hNot
      exact hNot hDue
  · rw [List.map_cons, List.getLastD_cons, hSeq]
    exact hRest.cAck

/- Nothing is delivered from an empty window. -/
theorem Delivered.of_zero
    (h :
      RingBuffer.Holds (windowSize latency) i hi
        Package.seq good r.toRingBuffer)
    (hZero : r.buffersize = 0) :
    Delivered latency r [] (r, []) := by
  apply Delivered.none
  intro p hMem
  exact (h.items_of_zero hZero p hMem).elim

/- Nothing is delivered if the first packet is not due. -/
theorem Delivered.of_not_due
    (h :
      RingBuffer.Holds (windowSize latency) i hi
        Package.seq good r.toRingBuffer)
    (hTimely : Timely latency r)
    {p : Package}
    (hMem : p ∈ r.buffered latency)
    (hSeq : p.seq = i)
    (hNotDue : ¬ r.IsDue latency p) :
    Delivered latency r [] (r, []) := by
  apply Delivered.none
  intro p' hMem'
  apply hTimely.not_due_after hMem hMem' ?_ hNotDue
  rw [hSeq]
  exact (h.key_range hMem').1

/- The packet in a used slot `i` is packet `i`. -/
theorem slot_buffered
    (h :
      RingBuffer.Holds (windowSize latency) i hi
        Package.seq good r.toRingBuffer)
    (hSpan : hi < i + windowSize latency)
    (hSet : r.buffer (i % windowSize latency) = true) :
    r.window (i % windowSize latency) ∈
        r.buffered latency ∧
      (r.window (i % windowSize latency)).seq = i := by
  have hw := windowSize_pos latency
  constructor
  · apply RingBuffer.mem_items_iff.mpr
    exact
      ⟨_, RingBuffer.Holds.slot_range hw i, hSet, rfl⟩
  · exact h.key_eq hw hSpan (by omega) hSet

/- The loop stops by its own test when nothing is left. -/
theorem zero_of_stopped
    (h :
      RingBuffer.Holds (windowSize latency) i hi
        Package.seq good r.toRingBuffer)
    (hReach : hi ≤ r.cAck + windowSize latency)
    (hEnd :
      ¬ (i < r.cAck + 1 + windowSize latency ∧
          0 < r.buffersize)) :
    r.buffersize = 0 := by
  by_contra hSome
  have hNonneg := h.count_nonneg
  apply hEnd
  refine ⟨?_, by omega⟩
  by_contra hPast
  exact hSome (h.zero_of_lt (by omega))

/-
  The loop from `i` on, with enough passes for every number
  in the window, is exact.
-/
theorem deliver_exact
    (h :
      RingBuffer.Holds (windowSize latency) i hi
        Package.seq good r.toRingBuffer)
    (hSpan : hi < i + windowSize latency)
    (hReach : hi ≤ r.cAck + windowSize latency)
    {n : Nat}
    (hFuel : hi < i + n)
    (hNow : r.now.Normal)
    (hTimely : Timely latency r) :
    ∃ ps, Delivered latency r ps (deliver latency n i r) := by
  induction n generalizing i r with
  | zero =>
      exact ⟨[], .of_zero h (h.zero_of_lt (by omega))⟩
  | succ n ih =>
      have hw := windowSize_pos latency
      rw [deliver]
      dsimp only
      split
      · split
        · next hFree =>
            exact
              ih (h.raise hFree) (by omega) hReach
                (by omega) hNow hTimely
        · next hUsed =>
            have hSet := Bool.eq_true_of_not_eq_false hUsed
            rcases slot_buffered h hSpan hSet with
              ⟨hMem, hSeq⟩
            have hTest := hTimely.deliver_iff hNow hMem
            split
            · next hPassed =>
                rcases
                  ih (r := r.deliverSlot latency i)
                    (h.release_raise hw hSet) (by omega)
                    (Int.le_of_lt hSpan) (by omega) hNow
                    (hTimely.deliverSlot h hSpan) with
                  ⟨ps, hRest⟩
                exact
                  ⟨_,
                    hRest.cons h hSpan hMem hSeq
                      (hTest.mp hPassed)⟩
            · next hFailed =>
                have hNotDue :=
                  fun hDue => hFailed (hTest.mpr hDue)
                exact
                  ⟨[],
                    .of_not_due h hTimely hMem hSeq
                      hNotDue⟩
      · next hEnd =>
          exact
            ⟨[], .of_zero h (zero_of_stopped h hReach hEnd)⟩

/-
  The window of any run, with any estimate and a new reading
  of the clock.
-/
def delivering
    (latency : Nat)
    (server : A)
    (u : Uninitialized)
    (es : List (Ev A))
    (estimate : Estimate)
    (c : Clocks) : RtRcv A :=
  { (machine latency).run (initial server u) es with
    baseDelta := estimate
    now := c.pass.toTimeval }

/-
  With normal times that grow with the numbers, one run of
  the delivery loop in any reachable window delivers exactly
  the packets that are due, in increasing order, and leaves
  all others. It ends: more passes change nothing.
-/
theorem deliverPass_exact
    (server : A)
    (u : Uninitialized)
    (es : List (Ev A))
    (estimate : Estimate)
    (c : Clocks)
    (hTimely :
      Timely latency
        (delivering latency server u es estimate c)) :
    (∃ ps,
        Delivered latency
          (delivering latency server u es estimate c) ps
          (deliverPass latency c
            (delivering latency server u es estimate c))) ∧
      ∀ n,
        deliver latency ((windowSize latency).toNat + n)
            ((delivering latency server u es estimate
              c).cAck + 1)
            (delivering latency server u es estimate c) =
          deliverPass latency c
            (delivering latency server u es estimate c) := by
  have hw := windowSize_pos latency
  have hInv :
      Inv latency
        (fun p =>
          p.seq ∈
            acceptedSeqs
              ((machine latency).outputs (initial server u)
                es))
        (delivering latency server u es estimate c).progress
      :=
    inv_acceptedSeqs latency server u es
  constructor
  · exact
      deliver_exact hInv.ring (by omega) (Int.le_refl _)
        (by omega) c.pass.normal hTimely
  · intro n
    exact hInv.deliver_more n

/- Packets 1 and 3 arrive, the second one a second later. -/
def oneMissing : List (Ev Unit) :=
  [permission,
    { packet := some ((), dataPackage 1)
      clocks := .ofSeconds 1 },
    { packet :=
        some
          ((),
            { dataPackage 3 with
              sendTS := (Clock.ofSeconds 2).toTimeval })
      clocks := .ofSeconds 1 }]

/- An estimate of half a second. -/
def halfSecond : Estimate where
  value := { sec := 0, usec := 500000 }
  sec := fun _ => 0
  usec := fun _ => 500000
  count := 1

/- Two seconds after the start only packet 1 is due. -/
def waiting : RtRcv Unit :=
  delivering 10 () zeroedMemory oneMissing halfSecond
    (.ofSeconds 2)

theorem exact_waiting :
    (∃ ps,
        Delivered 10 waiting ps
          (deliverPass 10 (.ofSeconds 2) waiting)) ∧
      ∀ n,
        deliver 10 ((windowSize 10).toNat + n)
            (waiting.cAck + 1) waiting =
          deliverPass 10 (.ofSeconds 2) waiting :=
  deliverPass_exact () zeroedMemory oneMissing halfSecond
    (.ofSeconds 2)
    ⟨by decide, by decide +kernel, by decide +kernel⟩

end RtRcv

end P2

end Cs2520
