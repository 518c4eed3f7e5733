import Cs2520.Lib.RecentLog
import Cs2520.P2.Sliding

/-
  The buffer of the real-time sender at its highest rate.

  Packet `n` is overwritten when `WINDOW_SIZE` further
  packets have been sent. At no more than 20 Mbit/s, that is
  25 packets in 14 milliseconds, and one more, so many are
  not sent before the packet has expired.

  Main declarations:
    * `firstSends`
    * `Store`
    * `Stored`
    * `Stored.step`
    * `stored_run`
    * `atMaxRate_of_spaced`
    * `buffer_large_enough`
-/

------------------------------------------------------------
-- The Store of the Server
------------------------------------------------------------

namespace Cs2520

namespace P2

namespace RtSrv

open Lib Timeval

variable {A : Type}

/- The packets that are sent for the first time. -/
def firstSends
    (out : List (A × Package)) : List Package :=
  (out.map Prod.snd).filter (fun p => p.type = 0)

/- What sending and resending rely on. -/
structure Store where
  request : Bool
  seq : Int
  windowSize : Int
  latencyWindow : Timeval
  window : Int → Package
  slide : Int → Timeval

def store
    (s : RtSrv A) : Store where
  request := s.request
  seq := s.seq
  windowSize := s.windowSize
  latencyWindow := s.latencyWindow
  window := s.window
  slide := s.slide

/-
  The packets sent so far are numbered from 1 on, and the two
  arrays hold the last of them and their expiry times.
-/
structure Stored
    (sent : List Package)
    (t : Store) : Prop where
  count : t.seq = sent.length + 1
  waiting : t.request = false → sent = []
  numbered :
    ∀ (k : Nat) (p : Package),
      sent[k]? = some p → p.seq = (k : Int) + 1
  normal : ∀ p ∈ sent, p.sendTS.Normal
  window : Recent t.windowSize sent t.window
  slide :
    Recent t.windowSize
      (sent.map (fun p => timeradd p.sendTS t.latencyWindow))
      t.slide

theorem firstSends_append
    (out out' : List (A × Package)) :
    firstSends (out ++ out') =
      firstSends out ++ firstSends out' := by
  rw [firstSends, List.map_append, List.filter_append]
  rfl

/- Other types are not sent for the first time. -/
theorem firstSends_nil
    {out : List (A × Package)}
    (hOther : ∀ m ∈ out, m.2.type ≠ 0) :
    firstSends out = [] := by
  rw [firstSends, List.filter_eq_nil_iff]
  intro p hMem
  rcases List.mem_map.mp hMem with ⟨m, hOut, rfl⟩
  rw [decide_eq_true_eq]
  exact hOther m hOut

theorem Replied.store_eq
    {s q : RtSrv A}
    (h : Replied s q) :
    q.store = s.store := by
  rcases h with ⟨_, _, _, _, _, rfl⟩
  rfl

theorem slideLoop_store
    (n : Nat)
    (s : RtSrv A) :
    (slideLoop n s).store = s.store := by
  induction n generalizing s with
  | zero => rfl
  | succ n ih =>
      rw [slideLoop]
      split
      · exact ih { s with head := s.head + 1 }
      · rfl

theorem slideWindow_store
    (c : Clocks)
    (s : RtSrv A) :
    (s.slideWindow c).store = s.store := by
  unfold slideWindow
  dsimp only
  split
  · exact slideLoop_store _ _
  · rfl

/- A record is stored in the slot of its number. -/
theorem onApp_store
    (c : Clocks)
    (s : RtSrv A)
    (r : StreamPkt) :
    let p := (s.onApp c r).1.rcvPkt
    let k := s.seq % s.windowSize
    p.sendTS = c.send.toTimeval ∧
      (s.onApp c r).1.store =
        { s.store with
          seq := s.seq + 1
          window := Function.update s.window k p
          slide :=
            Function.update s.slide k
              (timeradd p.sendTS s.latencyWindow) } := by
  unfold onApp
  dsimp only
  split
  · exact ⟨rfl, rfl⟩
  · exact ⟨rfl, rfl⟩

/- Before the first packet only the number matters. -/
theorem stored_nil
    {t : Store}
    (hSeq : t.seq = 1) :
    Stored [] t where
  count := hSeq
  waiting := fun _ => rfl
  numbered := by
    intro k p hNone
    cases hNone
  normal := by
    intro p hMem
    cases hMem
  window := recent_nil _ _
  slide := recent_nil _ _

/- One more packet is sent and stored. -/
theorem Stored.push
    {sent : List Package}
    {t : Store}
    (h : Stored sent t)
    (hRequest : t.request = true)
    {p : Package}
    (hSeq : p.seq = t.seq)
    (hNormal : p.sendTS.Normal) :
    Stored (sent ++ [p])
      { t with
        seq := t.seq + 1
        window :=
          Function.update t.window (t.seq % t.windowSize) p
        slide :=
          Function.update t.slide (t.seq % t.windowSize)
            (timeradd p.sendTS t.latencyWindow) } where
  count := by
    rw [List.length_append, h.count]
    rfl
  waiting := by
    intro hWaiting
    rw [hRequest] at hWaiting
    cases hWaiting
  numbered := by
    intro k q hEntry
    rcases concat_entry hEntry with
      ⟨rfl, rfl⟩ | ⟨_, hBefore⟩
    · exact hSeq.trans h.count
    · exact h.numbered k q hBefore
  normal := by
    intro q hMem
    rcases List.mem_append.mp hMem with hOld | hNew
    · exact h.normal q hOld
    · rw [List.mem_singleton.mp hNew]
      exact hNormal
  window := by
    rw [h.count]
    exact h.window.push p
  slide := by
    have hPush :=
      h.slide.push (timeradd p.sendTS t.latencyWindow)
    rw [List.length_map] at hPush
    rw [h.count, List.map_append]
    exact hPush

variable [DecidableEq A]

theorem rcvPart_store
    (c : Clocks)
    (s : RtSrv A)
    (rcv : Option (A × Package)) :
    (s.rcvPart c rcv).1.store = s.store ∧
      firstSends (s.rcvPart c rcv).2 = [] := by
  refine ⟨(rcvPart_replied c s rcv).store_eq, ?_⟩
  cases rcv with
  | none => rfl
  | some packet =>
      apply firstSends_nil
      intro m hMem
      rcases
        (onRcv_out c s packet.1 packet.2 m hMem).2 with
        hDecline | ⟨_, hAckack | ⟨_, _, _, _, hCopy⟩⟩
      · omega
      · omega
      · rw [hCopy]
        exact (by decide : (6 : Int) ≠ 0)

/- Without a record nothing is sent for the first time. -/
theorem mainPass_quiet_store
    (s : RtSrv A)
    (rcv : Option (A × Package))
    (c : Clocks) :
    let e : Ev A := { app := none, rcv := rcv, clocks := c }
    (s.mainPass e).1.store = s.store ∧
      firstSends (s.mainPass e).2 = [] := by
  dsimp only
  rw [mainPass_out_quiet]
  refine ⟨?_, (rcvPart_store c s rcv).2⟩
  cases rcv with
  | none =>
      rcases mainPass_timeout s c with hIdle | hReport
      · rw [hIdle]
      · rw [hReport]
        exact slideWindow_store c _
  | some packet =>
      exact
        (slideWindow_store c _).trans
          (rcvPart_store c s (some packet)).1

theorem Stored.mainPass
    {sent : List Package}
    {s : RtSrv A}
    (h : Stored sent s.store)
    (hRequest : s.request = true)
    (e : Ev A) :
    Stored (sent ++ firstSends (s.mainPass e).2)
      (s.mainPass e).1.store := by
  rcases e with ⟨_ | _ | r, rcv, c⟩
  · rcases mainPass_quiet_store s rcv c with ⟨hStore, hNone⟩
    rw [hStore, hNone, List.append_nil]
    exact h
  · rw [RtSrv.mainPass]
    dsimp only
    rw [firstSends_nil (by simp), List.append_nil]
    exact h
  · have hCarries := onApp_carries c s r
    rcases onApp_store c s r with ⟨hTime, hStore⟩
    rcases rcvPart_store c (s.onApp c r).1 rcv with
      ⟨hRest, hNone⟩
    have hSent :
        firstSends
            (s.mainPass
              { app := some (some r)
                rcv := rcv
                clocks := c }).2 =
          [(s.onApp c r).1.rcvPkt] := by
      rw [mainPass_out_record, firstSends_append, hNone,
        List.append_nil, onApp_out, firstSends]
      simp [hCarries.type]
    have hEnd :
        (s.mainPass
            { app := some (some r)
              rcv := rcv
              clocks := c }).1.store =
          (s.onApp c r).1.store :=
      (slideWindow_store c _).trans hRest
    rw [hSent, hEnd, hStore]
    apply h.push hRequest hCarries.number
    rw [hTime]
    exact c.send.normal

/- Every pass keeps the books of what was sent. -/
theorem Stored.step
    {sent : List Package}
    {s : RtSrv A}
    (h : Stored sent s.store)
    (e : Ev A) :
    Stored (sent ++ firstSends (s.step e).2)
      (s.step e).1.store := by
  unfold RtSrv.step
  split
  · rw [firstSends_nil (by simp), List.append_nil]
    exact h
  · split
    · next hRequest => exact h.mainPass hRequest e
    · next hWaiting =>
        have hNone :=
          h.waiting (Bool.eq_false_of_not_eq_true hWaiting)
        rcases waitPass_books s e with ⟨hBooks, hOut⟩
        rw [firstSends_nil (by
            intro m hMem
            rw [hOut m hMem]
            exact (by decide : (4 : Int) ≠ 0)),
          hNone]
        apply stored_nil
        have hCount := h.count
        rw [hNone] at hCount
        exact (congrArg Books.seq hBooks).trans hCount

/- So does every run. -/
theorem stored_run
    (addr : A)
    (rcvPkt : Package)
    (window : Int → Package)
    (slide : Int → Timeval)
    (es : List (Ev A)) :
    let s := allocated addr rcvPkt window slide
    Stored (firstSends (machine.outputs s es))
      (machine.run s es).store := by
  intro s
  apply
    machine.outputs_invariant
      (fun s out => Stored (firstSends out) s.store)
  · intro s out e hStored
    rw [firstSends_append]
    exact hStored.step e
  · exact stored_nil rfl

end RtSrv

end P2

end Cs2520

------------------------------------------------------------
-- The Size of the Buffer
------------------------------------------------------------

namespace Cs2520

namespace P2

namespace RtSrv

open Lib Timeval

variable {A : Type} [DecidableEq A]

/- The latency window in microseconds. -/
theorem micros_latencyWindow
    (latency : Nat) :
    (P2.latencyWindow latency).Normal ∧
      (P2.latencyWindow latency).micros = 1000 * latency := by
  refine ⟨⟨?_, ?_⟩, ?_⟩
  · simp only [P2.latencyWindow]
    omega
  · simp only [P2.latencyWindow]
    omega
  · simp only [P2.latencyWindow, micros]
    omega

/- At most 25 packets in 14 milliseconds, and one more. -/
def AtMaxRate
    (times : List Int) : Prop :=
  ∀ (a : Int) (t : Nat),
    times.countP (fun x => a ≤ x ∧ x ≤ a + 1000 * t) ≤
      25 * t / 14 + 1

/- Packets that are 560 microseconds apart keep to it. -/
theorem atMaxRate_of_spaced
    {times : List Int}
    (hSpaced : times.Pairwise (fun s t => s + 560 ≤ t)) :
    AtMaxRate times := by
  have hCount :
      ∀ (xs : List Int) (a b : Int),
        xs.Pairwise (fun s t => s + 560 ≤ t) →
          (∀ x ∈ xs, a ≤ x ∧ x ≤ b) →
            a ≤ b + 560 →
              560 * (xs.length : Int) ≤ b - a + 560 := by
    intro xs
    induction xs with
    | nil =>
        intro a b _ _ hRoom
        rw [List.length_nil]
        omega
    | cons x xs ih =>
        intro a b hApart hWithin _
        rcases List.pairwise_cons.mp hApart with
          ⟨hFirst, hRest⟩
        rcases hWithin x List.mem_cons_self with
          ⟨hFrom, hTo⟩
        have hLater :=
          ih (x + 560) b hRest
            (fun y hMem =>
              ⟨hFirst y hMem,
                (hWithin y (List.mem_cons_of_mem x hMem)).2⟩)
            (by omega)
        rw [List.length_cons]
        push_cast
        omega
  intro a t
  have hFew :=
    hCount
      (times.filter
        (fun x => a ≤ x ∧ x ≤ a + 1000 * t))
      a (a + 1000 * t) (hSpaced.filter _)
      (fun x hMem => by
        simpa using (List.mem_filter.mp hMem).2)
      (by omega)
  rw [List.countP_eq_length_filter]
  omega

/-
  Fewer than `WINDOW_SIZE` packets follow one that has not
  expired.
-/
theorem AtMaxRate.few_behind
    {times : List Int}
    (h : AtMaxRate times)
    (hSorted : times.Pairwise (fun s t => s ≤ t))
    {latency : Nat}
    {now a : Int}
    (hPast : ∀ x ∈ times, x ≤ now)
    {k : Nat}
    (hEntry : times[k]? = some a)
    (hAlive : now ≤ a + 1000 * latency) :
    (times.length : Int) <
      (k : Int) + 1 + P2.windowSize latency := by
  by_contra hMany
  rw [P2.windowSize] at hMany
  have hLast : k + (latency * 25 / 14 + 100) < times.length :=
    by omega
  have hBetween :=
    le_countP_between hSorted hEntry
      (List.getElem?_eq_getElem hLast)
  have hWithin :
      times.countP
          (fun x =>
            a ≤ x ∧
              x ≤ times[k + (latency * 25 / 14 + 100)]) ≤
        times.countP
          (fun x => a ≤ x ∧ x ≤ a + 1000 * latency) := by
    apply List.countP_mono_left
    intro x _ hIn
    rw [decide_eq_true_eq] at hIn ⊢
    have hBefore := hPast _ (List.getElem_mem hLast)
    exact ⟨hIn.1, by omega⟩
  have hRate := h a latency
  omega

/-
  At the highest rate, no slot is overwritten before its
  packet has expired: at every moment each packet whose time
  with the latency window is not over is in its slot, and so
  is its expiry time.
-/
theorem buffer_large_enough
    (latency : Nat)
    (addr : A)
    (rcvPkt : Package)
    (window : Int → Package)
    (slide : Int → Timeval)
    (es : List (Ev A))
    (now : Timeval)
    (hNow : now.Normal) :
    let start := allocated addr rcvPkt window slide
    let s := machine.run start es
    let sent := firstSends (machine.outputs start es)
    let times := sent.map (fun p => p.sendTS.micros)
    s.windowSize = P2.windowSize latency →
      s.latencyWindow = P2.latencyWindow latency →
        times.Pairwise (fun t t' => t ≤ t') →
          AtMaxRate times →
            (∀ t ∈ times, t ≤ now.micros) →
              ∀ n, 1 ≤ n → n < s.seq →
                ∃ p,
                  sent[(n - 1).toNat]? = some p ∧
                    p.seq = n ∧
                    (-1 <
                        cmpTime
                          (timeradd p.sendTS
                            s.latencyWindow)
                          now →
                      s.window (n % s.windowSize) = p ∧
                        s.slide (n % s.windowSize) =
                          timeradd p.sendTS
                            s.latencyWindow) := by
  intro start s sent times hSize hLatency hSorted hRate
    hPast n hPos hLt
  have hStored : Stored sent s.store :=
    stored_run addr rcvPkt window slide es
  have hCount : s.seq = sent.length + 1 := hStored.count
  obtain ⟨k, hK⟩ : ∃ k : Nat, n = (k : Int) + 1 :=
    ⟨(n - 1).toNat, by omega⟩
  have hIndex : (n - 1).toNat = k := by omega
  have hSent : k < sent.length := by omega
  have hEntry := List.getElem?_eq_getElem hSent
  rw [hIndex]
  refine
    ⟨_, hEntry, (hStored.numbered k _ hEntry).trans hK.symm,
      ?_⟩
  intro hAlive
  rcases micros_latencyWindow latency with
    ⟨hWindow, hMicros⟩
  have hTime := hStored.normal _ (List.getElem_mem hSent)
  rw [hLatency,
    cmpTime_iff_micros (hTime.timeradd hWindow) hNow,
    micros_timeradd, hMicros] at hAlive
  have hTimes :
      times[k]? = some (sent[k]).sendTS.micros := by
    rw [List.getElem?_map, hEntry]
    rfl
  have hFew :=
    hRate.few_behind hSorted hPast hTimes hAlive
  rw [List.length_map, ← hSize] at hFew
  have hExpiry :
      (sent.map
          (fun p => timeradd p.sendTS s.latencyWindow))[k]? =
        some (timeradd (sent[k]).sendTS s.latencyWindow) := by
    rw [List.getElem?_map, hEntry]
    rfl
  rw [hK]
  refine ⟨hStored.window k _ hEntry hFew, ?_⟩
  apply hStored.slide k _ hExpiry
  rw [List.length_map]
  exact hFew

/- The clock after so many gaps of 560 microseconds. -/
def gaps
    (k : Fin 25) : Clock where
  sec := 1
  usec := 560 * k.1
  after := by decide
  usec_nonneg := by omega
  usec_lt := by omega

/- A pass with a record that reads the clock then. -/
def sendsAt
    (k : Fin 25) : Ev Bool where
  app := some (some { StreamPkt.zeroed with seq := k.1 + 1 })
  rcv := none
  clocks :=
    { receive := gaps k
      start := gaps k
      send := gaps k
      ackack := gaps k
      nack := fun _ => gaps k
      resend := fun _ => gaps k
      report := gaps k
      slide := gaps k }

/- A client is accepted, and 25 records follow in 14 ms. -/
def atFullRate : List (Ev Bool) :=
  { app := none
    rcv := some (true, Stream.requestPkt)
    clocks := .ofSeconds 0 } ::
    (List.finRange 25).map sendsAt

def idle : RtSrv Bool :=
  allocated false .zeroed (fun _ => .zeroed) (fun _ => .zero)

def filled : RtSrv Bool :=
  machine.run idle atFullRate

/-
  When the last record is sent, the eighth is the first that
  has not expired, and is still in its slot.
-/
theorem buffer_large_enough_first :
    filled.seq = 26 ∧
      (filled.window (8 % filled.windowSize)).seq = 8 ∧
      filled.slide (8 % filled.windowSize) =
        { sec := 1, usec := 13920 } := by
  have hTimes :
      (firstSends (machine.outputs idle atFullRate)).map
          (fun p => p.sendTS.micros) =
        (List.finRange 25).map
          (fun k => 1000000 + 560 * (k.1 : Int)) := by
    decide +kernel
  have hSorted :
      ((List.finRange 25).map
        (fun k => 1000000 + 560 * (k.1 : Int))).Pairwise
          (fun s t => s + 560 ≤ t) := by
    decide +kernel
  have hEighth :
      (firstSends
          (machine.outputs idle atFullRate))[7]?.map
          Package.sendTS =
        some { sec := 1, usec := 3920 } := by
    decide +kernel
  have hRun : machine.run idle atFullRate = filled := rfl
  have hAll :=
    buffer_large_enough 10 false .zeroed (fun _ => .zeroed)
      (fun _ => .zero) atFullRate { sec := 1, usec := 13440 }
      (by decide) (by decide +kernel) (by decide +kernel)
  rw [← idle, hRun, hTimes] at hAll
  rcases
    hAll (hSorted.imp (by omega))
      (atMaxRate_of_spaced hSorted) (by decide +kernel)
      8 (by decide) (by decide +kernel) with
    ⟨p, hSent, hSeq, hSlot⟩
  have hTime : p.sendTS = { sec := 1, usec := 3920 } := by
    rw [show (8 - 1 : Int).toNat = 7 from rfl] at hSent
    rw [hSent] at hEighth
    exact Option.some.inj hEighth
  have hLatency :
      filled.latencyWindow = P2.latencyWindow 10 := by
    decide +kernel
  have hExpiry :
      timeradd { sec := 1, usec := 3920 }
          (P2.latencyWindow 10) =
        { sec := 1, usec := 13920 } := by
    decide
  rw [hTime, hLatency, hExpiry] at hSlot
  rcases hSlot (by decide) with ⟨hWindow, hSlide⟩
  refine ⟨by decide +kernel, ?_, hSlide⟩
  rw [hWindow]
  exact hSeq

end RtSrv

end P2

end Cs2520
