import Cs2520.P2.Sliding

/-
  Which packets the real-time sender resends for an ACK.

  The resend loop loads each packet over the ACK it reads
  from, so every entry after a resent packet is read from the
  array that was stored with this packet.

  Main declarations:
    * `Asked`
    * `Owed`
    * `LoadsAgree`
    * `LoadsAgree.answer_eq`
    * `nacks_honoured_of_loadsAgree`
    * `second_entry_lost`
-/

------------------------------------------------------------
-- Entries
------------------------------------------------------------

namespace Cs2520

namespace P2

namespace RtSrv

open Lib

variable {A : Type}
variable (c : Clocks)

/- The test of pass `i` on the number `n`. -/
def Asked
    (s : RtSrv A)
    (i : Fin nackSize)
    (n : Int) : Prop :=
  (n ≠ -1 ∧ s.head ≤ n) ∧
    -1 <
      cmpTime (s.slide (n % s.windowSize))
        (c.nack i).toTimeval

instance
    (s : RtSrv A)
    (i : Fin nackSize)
    (n : Int) :
    Decidable (Asked c s i n) := by
  unfold Asked
  infer_instance

/- Entry `i` names a packet that is still in its slot. -/
def Owed
    (s : RtSrv A)
    (i : Fin nackSize) : Prop :=
  Asked c s i (s.rcvPkt.nack i) ∧
    s.rcvPkt.nack i < s.seq ∧
      (s.window (s.rcvPkt.nack i % s.windowSize)).seq =
        s.rcvPkt.nack i

instance
    (s : RtSrv A)
    (i : Fin nackSize) :
    Decidable (Owed c s i) := by
  unfold Owed
  infer_instance

/- The entries before `i`. -/
def earlier
    (i : Nat) : List (Fin nackSize) :=
  (List.finRange nackSize).take i

/-
  The array stored with the packet of the last entry that is
  owed, or that of the ACK.
-/
def loaded
    (s : RtSrv A)
    (entries : List (Fin nackSize)) : Fin nackSize → Int :=
  entries.foldl
    (fun nack i =>
      if Owed c s i then
        (s.window (s.rcvPkt.nack i % s.windowSize)).nack
      else
        nack)
    s.rcvPkt.nack

/- The numbers of the packets that are resent. -/
def retransmitted
    (out : List (A × Package)) : List Int :=
  (out.filter (fun m => m.2.type = 6)).map (fun m => m.2.seq)

/- The numbers that the entries of the ACK are owed. -/
def honoured
    (s : RtSrv A)
    (entries : List (Fin nackSize)) : List Int :=
  (entries.filter (fun i => Owed c s i)).map s.rcvPkt.nack

/- The loop before pass `i`. -/
def before
    (s : RtSrv A)
    (i : Nat) : RtSrv A × List (A × Package) :=
  resend c (earlier i) (s.fillAckack c)

/- What pass `i` of the loop resends. -/
def answer
    (s : RtSrv A)
    (i : Fin nackSize) : List Int :=
  retransmitted (resend c [i] (before c s i).1).2

/-
  Entry `i` of that array passes the test exactly if entry
  `i` of the ACK is owed, and names the same slot.
-/
def AgreesAt
    (s : RtSrv A)
    (i : Fin nackSize) : Prop :=
  (Asked c s i (loaded c s (earlier i) i) ↔ Owed c s i) ∧
    (Owed c s i →
      loaded c s (earlier i) i % s.windowSize =
        s.rcvPkt.nack i % s.windowSize)

instance
    (s : RtSrv A)
    (i : Fin nackSize) :
    Decidable (AgreesAt c s i) := by
  unfold AgreesAt
  infer_instance

/- No loaded array disturbs an entry behind it. -/
def LoadsAgree
    (s : RtSrv A) : Prop :=
  ∀ i, AgreesAt c s i

instance
    (s : RtSrv A) :
    Decidable (LoadsAgree c s) := by
  unfold LoadsAgree
  infer_instance

end RtSrv

end P2

end Cs2520

------------------------------------------------------------
-- The Passes of the Loop
------------------------------------------------------------

namespace Cs2520

namespace P2

namespace RtSrv

open Lib

variable {A : Type}
variable {c : Clocks}

theorem retransmitted_append
    (out out' : List (A × Package)) :
    retransmitted (out ++ out') =
      retransmitted out ++ retransmitted out' := by
  simp only [retransmitted, List.filter_append,
    List.map_append]

theorem retransmitted_of_others
    {out : List (A × Package)}
    (hOthers : ∀ m ∈ out, m.2.type ≠ 6) :
    retransmitted out = [] := by
  rw [retransmitted, List.map_eq_nil_iff,
    List.filter_eq_nil_iff]
  intro m hMem
  simpa using hOthers m hMem

theorem resend_append
    (entries entries' : List (Fin nackSize))
    (s : RtSrv A) :
    resend c (entries ++ entries') s =
      ((resend c entries' (resend c entries s).1).1,
        (resend c entries s).2 ++
          (resend c entries' (resend c entries s).1).2) := by
  induction entries generalizing s with
  | nil => rfl
  | cons i rest ih =>
      rw [List.cons_append, resend, resend]
      dsimp only
      split
      · split
        · rw [ih]
          rfl
        · rw [ih]
      · rw [ih]

/- The array in hand, over the window of `s`. -/
structure Reads
    (s : RtSrv A)
    (nack : Fin nackSize → Int)
    (t : RtSrv A) : Prop where
  head : t.head = s.head
  windowSize : t.windowSize = s.windowSize
  window : t.window = s.window
  slide : t.slide = s.slide
  nack : t.rcvPkt.nack = nack

/- The loop starts with the array of the ACK. -/
theorem reads_fillAckack
    (c : Clocks)
    (s : RtSrv A) :
    Reads s s.rcvPkt.nack (s.fillAckack c) :=
  ⟨rfl, rfl, rfl, rfl, rfl⟩

/- A pass resends what the entry in hand names. -/
theorem Reads.pass
    {s t : RtSrv A}
    {nack : Fin nackSize → Int}
    (h : Reads s nack t)
    (i : Fin nackSize) :
    retransmitted (resend c [i] t).2 =
        (if Asked c s i (nack i) then
          [(s.window (nack i % s.windowSize)).seq]
        else
          []) ∧
      Reads s
        (if Asked c s i (nack i) then
          (s.window (nack i % s.windowSize)).nack
        else
          nack)
        (resend c [i] t).1 := by
  rw [resend]
  dsimp only [resend]
  rw [h.nack, h.head]
  by_cases hNumber : nack i ≠ -1 ∧ s.head ≤ nack i
  · have hTest :
        cmpTime
            ((t.readNow c i).slide
              (nack i % (t.readNow c i).windowSize))
            (t.readNow c i).now =
          cmpTime (s.slide (nack i % s.windowSize))
            (c.nack i).toTimeval := by
      rw [← h.slide, ← h.windowSize]
      rfl
    rw [if_pos hNumber, hTest]
    by_cases hLive :
        -1 <
          cmpTime (s.slide (nack i % s.windowSize))
            (c.nack i).toTimeval
    · have hAsked : Asked c s i (nack i) :=
        ⟨hNumber, hLive⟩
      rw [if_pos hLive, if_pos hAsked, if_pos hAsked,
        ← h.window, ← h.windowSize]
      exact
        ⟨rfl, h.head, h.windowSize, h.window, h.slide, rfl⟩
    · have hNot : ¬ Asked c s i (nack i) := by
        rintro ⟨_, hBoth⟩
        exact hLive hBoth
      rw [if_neg hLive, if_neg hNot, if_neg hNot]
      exact
        ⟨rfl, h.head, h.windowSize, h.window, h.slide,
          h.nack⟩
  · have hNot : ¬ Asked c s i (nack i) := by
      rintro ⟨hBoth, _⟩
      exact hNumber hBoth
    rw [if_neg hNumber, if_neg hNot, if_neg hNot]
    exact ⟨rfl, h⟩

theorem loaded_append
    (s : RtSrv A)
    (entries : List (Fin nackSize))
    (i : Fin nackSize) :
    loaded c s (entries ++ [i]) =
      if Owed c s i then
        (s.window (s.rcvPkt.nack i % s.windowSize)).nack
      else
        loaded c s entries := by
  rw [loaded, List.foldl_append]
  rfl

theorem honoured_singleton
    (s : RtSrv A)
    (i : Fin nackSize) :
    honoured c s [i] =
      if Owed c s i then [s.rcvPkt.nack i] else [] := by
  by_cases hOwed : Owed c s i
  · simp [honoured, hOwed]
  · simp [honoured, hOwed]

/- With an array that agrees, a pass answers its entry. -/
theorem Reads.answer
    {s t : RtSrv A}
    {i : Fin nackSize}
    (h : Reads s (loaded c s (earlier i)) t)
    (hAgree : AgreesAt c s i) :
    retransmitted (resend c [i] t).2 =
        honoured c s [i] ∧
      Reads s (loaded c s (earlier i ++ [i]))
        (resend c [i] t).1 := by
  rcases hAgree with ⟨hAsked, hSlot⟩
  rcases h.pass i (c := c) with ⟨hOut, hNext⟩
  rw [hOut, honoured_singleton, loaded_append]
  simp only [hAsked] at hNext ⊢
  by_cases hOwed : Owed c s i
  · have hHeld := hOwed.2.2
    rw [if_pos hOwed, hSlot hOwed] at hNext
    rw [if_pos hOwed, if_pos hOwed, if_pos hOwed,
      hSlot hOwed, hHeld]
    exact ⟨rfl, hNext⟩
  · rw [if_neg hOwed] at hNext
    rw [if_neg hOwed, if_neg hOwed, if_neg hOwed]
    exact ⟨rfl, hNext⟩

theorem earlier_succ
    (i : Fin nackSize) :
    earlier (i + 1) = earlier i ++ [i] := by
  have hLength :
      i.1 < (List.finRange nackSize).length := by
    rw [List.length_finRange]
    exact i.2
  rw [earlier, List.take_succ_eq_append_getElem hLength,
    List.getElem_finRange]
  rfl

theorem before_succ
    (s : RtSrv A)
    (i : Fin nackSize) :
    before c s (i + 1) =
      ((resend c [i] (before c s i).1).1,
        (before c s i).2 ++
          (resend c [i] (before c s i).1).2) := by
  rw [before, earlier_succ, resend_append]
  rfl

/- Every pass finds the array that the owed entries left. -/
theorem before_reads
    {s : RtSrv A}
    (hAgree : LoadsAgree c s)
    {n : Nat}
    (hSize : n ≤ nackSize) :
    Reads s (loaded c s (earlier n)) (before c s n).1 := by
  induction n with
  | zero => exact reads_fillAckack c s
  | succ n ih =>
      have hReads := ih (by omega)
      rw [before_succ s ⟨n, hSize⟩,
        earlier_succ ⟨n, hSize⟩]
      exact (hReads.answer (hAgree ⟨n, hSize⟩)).2

/- So every pass answers its own entry. -/
theorem LoadsAgree.answer_eq
    {s : RtSrv A}
    (hAgree : LoadsAgree c s)
    (i : Fin nackSize) :
    answer c s i = honoured c s [i] :=
  ((before_reads hAgree (Nat.le_of_lt i.2)).answer
    (hAgree i)).1

/- The passes together resend what each of them resends. -/
theorem retransmitted_before
    (s : RtSrv A)
    {n : Nat}
    (hSize : n ≤ nackSize) :
    retransmitted (before c s n).2 =
      (earlier n).flatMap (answer c s) := by
  induction n with
  | zero => rfl
  | succ n ih =>
      rw [before_succ s ⟨n, hSize⟩,
        earlier_succ ⟨n, hSize⟩]
      dsimp only
      rw [retransmitted_append, ih (by omega),
        List.flatMap_append, List.flatMap_singleton]
      rfl

theorem honoured_eq_flatMap
    (s : RtSrv A)
    (entries : List (Fin nackSize)) :
    honoured c s entries =
      entries.flatMap (fun i => honoured c s [i]) := by
  induction entries with
  | nil => rfl
  | cons i rest ih =>
      rw [List.flatMap_cons, ← ih]
      simp only [honoured]
      rw [← List.map_append, ← List.filter_append,
        List.singleton_append]

/- The whole loop resends what the entries are owed. -/
theorem LoadsAgree.resends
    {s : RtSrv A}
    (hAgree : LoadsAgree c s) :
    retransmitted (before c s nackSize).2 =
      honoured c s (List.finRange nackSize) := by
  rw [retransmitted_before s (Nat.le_refl nackSize),
    honoured_eq_flatMap, ← funext hAgree.answer_eq]
  rfl

end RtSrv

end P2

end Cs2520

------------------------------------------------------------
-- The Answer to an ACK
------------------------------------------------------------

namespace Cs2520

namespace P2

namespace RtSrv

open Lib

variable {A : Type} [DecidableEq A]

/- The state of a pass when its ACK has been received. -/
def acked
    (s : RtSrv A)
    (e : Ev A)
    (fromAddr : A)
    (pkt : Package) : RtSrv A :=
  match e.app with
  | some (some r) =>
      (s.onApp e.clocks r).1.recvfrom fromAddr pkt
  | _ => s.recvfrom fromAddr pkt

/- An ACK is answered by the ACKACK and the whole loop. -/
theorem onRcv_retransmitted
    (c : Clocks)
    (s : RtSrv A)
    (fromAddr : A)
    {pkt : Package}
    (hAck : pkt.type = 2) :
    retransmitted (s.onRcv c fromAddr pkt).2 =
      retransmitted
        (before c (s.recvfrom fromAddr pkt) nackSize).2 := by
  have hOn :
      s.onRcv c fromAddr pkt =
        (s.recvfrom fromAddr pkt).onAck c := if_pos hAck
  rw [hOn, onAck_eq]
  rfl

/- Nothing else in the pass is resent. -/
theorem step_retransmitted
    {s : RtSrv A}
    (hRunning : ¬ (s.exited ∨ s.hung))
    (hAccepted : s.request = true)
    {e : Ev A}
    (hApp : e.app ≠ some none)
    {fromAddr : A}
    {pkt : Package}
    (hRcv : e.rcv = some (fromAddr, pkt))
    (hAck : pkt.type = 2) :
    retransmitted (step s e).2 =
      retransmitted
        (before e.clocks (acked s e fromAddr pkt)
          nackSize).2 := by
  rw [step, if_neg hRunning, if_pos hAccepted]
  rcases e with ⟨_ | _ | r, rcv, c⟩
  · dsimp only at hRcv
    rw [mainPass_out_quiet, hRcv]
    exact onRcv_retransmitted c s fromAddr hAck
  · exact absurd rfl hApp
  · dsimp only at hRcv
    have hData :
        retransmitted (s.onApp c r).2 = [] := by
      apply retransmitted_of_others
      intro m hMem
      rw [onApp_out, List.mem_singleton] at hMem
      rw [hMem, (onApp_carries c s r).type]
      decide
    rw [mainPass_out_record, retransmitted_append, hData,
      List.nil_append, hRcv]
    exact onRcv_retransmitted c _ fromAddr hAck

/-
  An ACK is answered by one packet for each entry that is
  owed, in their order and by nothing else, if no array that
  is loaded on the way disturbs an entry behind it.
-/
theorem nacks_honoured_of_loadsAgree
    {s : RtSrv A}
    (hRunning : ¬ (s.exited ∨ s.hung))
    (hAccepted : s.request = true)
    {e : Ev A}
    (hApp : e.app ≠ some none)
    {fromAddr : A}
    {pkt : Package}
    (hRcv : e.rcv = some (fromAddr, pkt))
    (hAck : pkt.type = 2)
    (hAgree :
      LoadsAgree e.clocks (acked s e fromAddr pkt)) :
    retransmitted (step s e).2 =
      honoured e.clocks (acked s e fromAddr pkt)
        (List.finRange nackSize) :=
  (step_retransmitted hRunning hAccepted hApp hRcv
    hAck).trans hAgree.resends

/- A client is accepted, and two records are sent. -/
def twoSent
    (request : Package) : List (Ev Bool) :=
  [{ app := none
     rcv := some (true, request)
     clocks := .ofSeconds 0 },
    { app := some (some .zeroed)
      rcv := none
      clocks := .ofSeconds 0 },
    { app := some (some .zeroed)
      rcv := none
      clocks := .ofSeconds 0 }]

/- Entries `i` and `i + 1` are used, and no others. -/
def pairAt
    (i : Nat)
    (first second : Int) : Fin nackSize → Int :=
  fun j =>
    if j.1 = i then first
    else if j.1 = i + 1 then second
    else -1

def ackOf
    (nack : Fin nackSize → Int) : Package :=
  { Package.zeroed with type := 2, nack := nack }

/- The client sends a packet in the same second. -/
def hears
    (pkt : Package) : Ev Bool where
  app := none
  rcv := some (true, pkt)
  clocks := .ofSeconds 0

/- The state after the two records. -/
def afterTwo
    (request : Package) : RtSrv Bool :=
  machine.run
    (allocated false .zeroed (fun _ => .zeroed)
      (fun _ => .zero)) (twoSent request)

/-
  Both packets are resent: the request left the same entries
  in the arrays that are stored with them.
-/
theorem nacks_honoured_pair :
    retransmitted
        (step
          (afterTwo
            { Stream.requestPkt with nack := pairAt 2 1 2 })
          (hears (ackOf (pairAt 2 1 2)))).2 =
      [1, 2] :=
  (nacks_honoured_of_loadsAgree (by decide +kernel)
    (by decide +kernel) (by decide) rfl rfl
    (by decide +kernel)).trans (by decide +kernel)

/-
  Two lost packets are asked for. The packet resent for the
  first entry is loaded over the second one, which is not
  answered.
-/
theorem second_entry_lost :
    ¬ ∀ (window : Int → Package) (slide : Int → Timeval)
        (es : List (Ev Bool)) (e : Ev Bool) (pkt : Package),
      ¬ ((machine.run
              (allocated false .zeroed window slide)
              es).exited ∨
          (machine.run
              (allocated false .zeroed window slide)
              es).hung) →
        (machine.run
            (allocated false .zeroed window slide)
            es).request = true →
          e.app ≠ some none →
            e.rcv = some (true, pkt) →
              pkt.type = 2 →
                retransmitted
                    (step
                      (machine.run
                        (allocated false .zeroed window
                          slide) es) e).2 =
                  honoured e.clocks
                    (acked
                      (machine.run
                        (allocated false .zeroed window
                          slide) es) e true pkt)
                    (List.finRange nackSize) := by
  intro hAll
  have hBoth :=
    hAll (fun _ => .zeroed) (fun _ => .zero)
      (twoSent Stream.requestPkt)
      (hears (ackOf (pairAt 0 1 2))) (ackOf (pairAt 0 1 2))
      (by decide +kernel) (by decide +kernel) (by decide)
      rfl rfl
  revert hBoth
  decide +kernel

end RtSrv

end P2

end Cs2520
