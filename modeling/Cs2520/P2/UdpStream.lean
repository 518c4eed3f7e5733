import Cs2520.Lib.Pacing
import Cs2520.P2.Package

/-
  The application before the real-time server
  (`p2/source/udp_stream.c`), which sends at a target rate.

  An input of the program is one reading of its clock. The
  rate is compared exactly, and the lines it prints are left
  out.

  Main declarations:
    * `UdpStream`
    * `UdpStream.machine`
    * `UdpStream.plan`
    * `UdpStream.refines`
    * `UdpStream.keeps_rate`
-/

------------------------------------------------------------
-- The Program
------------------------------------------------------------

namespace Cs2520

namespace P2

open Lib

/- `TARGET_RATE`, in bits per microsecond -/
abbrev targetRate : Int := 8

namespace UdpStream

/-
  What the next reading of the clock is for: the start, the
  body of the loop, or the start and the loop of `isleep`.
-/
inductive Phase where
| start : Phase
| send : Phase
| sleep : Int → Phase
| wait : Int → Timeval → Phase
| done : Phase
deriving DecidableEq

end UdpStream

/- The variables of the program. -/
structure UdpStream where
  phase : UdpStream.Phase
  numMsgs : Int
  startTS : Timeval
  sendPkt : StreamPkt

namespace UdpStream

/- Before the first reading, with what memory holds. -/
def initial
    (numMsgs : Int)
    (startTS : Timeval)
    (sendPkt : StreamPkt) : UdpStream where
  phase := .start
  numMsgs := numMsgs
  startTS := startTS
  sendPkt := sendPkt

/- The head of the loop. -/
def loop
    (r : UdpStream)
    (seq : Int) : UdpStream :=
  { r with
    sendPkt := { r.sendPkt with seq := seq }
    phase := if seq ≤ r.numMsgs then .send else .done }

/- The bits sent so far, a product of `int`s. -/
def bits
    (seq : Int) : Int :=
  toInt32 (maxDataLen * seq * 8)

/- `rate > TARGET_RATE` for a quotient of these. -/
def tooFast
    (bits duration : Int) : Bool :=
  if duration < 0 then
    decide (bits < targetRate * duration)
  else
    decide (targetRate * duration < bits)

/- `int_delay`, where it is computed. -/
def intDelay
    (seq duration : Int) : Int :=
  if tooFast (bits seq) duration then
    toInt32 ((bits seq).tdiv targetRate - duration)
  else
    0

/- The microseconds from one time to another. -/
def elapsed
    (start now : Timeval) : Int :=
  (now.sec - start.sec) * 1000000 + (now.usec - start.usec)

/- The body of the loop up to the call of `isleep`. -/
def send
    (r : UdpStream)
    (now : Timeval) : UdpStream × List StreamPkt :=
  let r :=
    { r with
      sendPkt :=
        { r.sendPkt with
          tsSec := now.sec
          tsUsec := now.usec } }
  let delay :=
    intDelay r.sendPkt.seq (elapsed r.startTS now)
  (if 0 < delay then { r with phase := .sleep delay }
    else r.loop (r.sendPkt.seq + 1),
    [r.sendPkt])

/- What the program does with a reading of the clock. -/
def step
    (r : UdpStream)
    (now : Timeval) : UdpStream × List StreamPkt :=
  match r.phase with
  | .start => (({ r with startTS := now }).loop 1, [])
  | .send => r.send now
  | .sleep usec => ({ r with phase := .wait usec now }, [])
  | .wait usec start =>
      if elapsed start now < usec then (r, [])
      else (r.loop (r.sendPkt.seq + 1), [])
  | .done => (r, [])

def machine : Machine UdpStream Timeval StreamPkt where
  step := step

end UdpStream

end P2

end Cs2520

------------------------------------------------------------
-- A Paced Loop
------------------------------------------------------------

namespace Cs2520

namespace P2

namespace UdpStream

open Lib

/- The clock is read once for the stamp and the rate. -/
def plan
    (numMsgs : Int) : Pacer.Plan where
  count := numMsgs
  delay := intDelay

/- A phase of the program, with the number it is at. -/
def Phase.toPacer
    (seq : Int) :
    Phase → Pacer.Phase
  | .start => .start
  | .send => .stamp seq
  | .sleep usec => .nap seq usec
  | .wait usec since => .wait seq usec since.micros
  | .done => .done

/- The program as a paced loop. -/
def toPacer
    (r : UdpStream) : Pacer where
  origin := r.startTS.micros
  phase := r.phase.toPacer r.sendPkt.seq

/- The number of a record and its time. -/
def stamp
    (p : StreamPkt) : Int × Int :=
  (p.seq, { sec := p.tsSec, usec := p.tsUsec : Timeval }.micros)

theorem elapsed_eq
    (start now : Timeval) :
    elapsed start now = now.micros - start.micros := by
  unfold elapsed Timeval.micros
  omega

theorem loop_toPacer
    (r : UdpStream)
    (seq : Int) :
    (r.loop seq).toPacer =
      { origin := r.startTS.micros
        phase := (plan r.numMsgs).goOn seq } := by
  unfold toPacer loop Pacer.Plan.goOn plan
  by_cases hMore : seq ≤ r.numMsgs
  · simp only [hMore, if_true, Phase.toPacer]
  · simp only [hMore, if_false, Phase.toPacer]

/- A reading does to the program what it does to the loop. -/
theorem step_toPacer
    (r : UdpStream)
    (now : Timeval) :
    ((r.step now).1.toPacer, (r.step now).2.map stamp) =
        r.toPacer.read (plan r.numMsgs) now.micros ∧
      (r.step now).1.numMsgs = r.numMsgs := by
  rcases r with ⟨phase, numMsgs, startTS, pkt⟩
  cases phase with
  | start =>
      simp only [step, loop_toPacer]
      exact ⟨rfl, rfl⟩
  | send =>
      have hRead :
          Pacer.read (plan numMsgs)
              (toPacer ⟨.send, numMsgs, startTS, pkt⟩)
              now.micros =
            ({ origin := startTS.micros
               phase :=
                (plan numMsgs).rest pkt.seq
                  (now.micros - startTS.micros) },
              [(pkt.seq, now.micros)]) := rfl
      rw [hRead, Pacer.Plan.rest, ← elapsed_eq]
      simp only [step, send]
      by_cases hSome :
          0 < intDelay pkt.seq (elapsed startTS now)
      · have hNap :
            0 < (plan numMsgs).delay pkt.seq
              (elapsed startTS now) := hSome
        rw [if_pos hSome, if_pos hNap]
        exact ⟨rfl, rfl⟩
      · have hGo :
            ¬ 0 < (plan numMsgs).delay pkt.seq
              (elapsed startTS now) := hSome
        rw [if_neg hSome, if_neg hGo, loop_toPacer]
        exact ⟨rfl, rfl⟩
  | sleep usec => exact ⟨rfl, rfl⟩
  | wait usec since =>
      have hRead :
          Pacer.read (plan numMsgs)
              (toPacer ⟨.wait usec since, numMsgs, startTS, pkt⟩)
              now.micros =
            if now.micros - since.micros < usec then
              (toPacer
                ⟨.wait usec since, numMsgs, startTS, pkt⟩, [])
            else
              ({ origin := startTS.micros
                 phase := (plan numMsgs).goOn (pkt.seq + 1) },
                []) := rfl
      rw [hRead, ← elapsed_eq]
      simp only [step]
      split
      · exact ⟨rfl, rfl⟩
      · rw [loop_toPacer]
        exact ⟨rfl, rfl⟩
  | done => exact ⟨rfl, rfl⟩

theorem refines
    (numMsgs : Int) :
    machine.Refines (Pacer.machine (plan numMsgs))
      (fun r P => r.numMsgs = numMsgs ∧ r.toPacer = P)
      (fun e => some e.2.micros)
      (fun p => some (stamp p)) some where
  step := by
    rintro r _ now ⟨rfl, rfl⟩
    rcases step_toPacer r now with ⟨hStep, hSame⟩
    exact ⟨hSame, congrArg Prod.fst hStep⟩
  out := by
    rintro r _ now ⟨rfl, rfl⟩
    rcases step_toPacer r now with ⟨hStep, _⟩
    have hOut := congrArg Prod.snd hStep
    rw [← List.filterMap_eq_map] at hOut
    exact hOut.trans (List.filterMap_some).symm

/- The last number whose bits fit into an `int` -/
abbrev lastInRange : Int := 198841

theorem bits_eq
    {seq : Int}
    (hLow : 0 ≤ seq)
    (hHigh : seq ≤ lastInRange) :
    bits seq = 10800 * seq := by
  have hProduct : (maxDataLen : Int) * seq * 8 = 10800 * seq
    := by
    unfold maxDataLen
    omega
  unfold lastInRange at hHigh
  rw [bits, hProduct]
  exact toInt32_of_in ⟨by omega, by omega⟩

/-
  The packet after number `seq` has to wait until as many
  bits may have been sent: 1350 microseconds for each packet.
-/
theorem waits
    (numMsgs : Int)
    {seq : Int}
    (hLow : 0 ≤ seq)
    (hHigh : seq ≤ lastInRange) :
    Pacer.Waits (plan numMsgs) seq (1350 * seq) := by
  intro duration hNonneg
  have hBits := bits_eq hLow hHigh
  unfold lastInRange at hHigh
  have hQuot : (10800 * seq).tdiv targetRate = 1350 * seq := by
    rw [Int.tdiv_eq_ediv_of_nonneg (by omega)]
    unfold targetRate
    omega
  change
    1350 * seq ≤ duration + max (intDelay seq duration) 0
  have hTest :
      tooFast (10800 * seq) duration =
        decide (targetRate * duration < 10800 * seq) :=
    if_neg (by omega)
  rw [intDelay, hBits, hTest, hQuot]
  unfold targetRate
  split
  · next hFast =>
      have hLt := of_decide_eq_true hFast
      rw [toInt32_of_in ⟨by omega, by omega⟩]
      omega
  · next hSlow =>
      have hLe : ¬ 8 * duration < 10800 * seq :=
        fun hLt => hSlow (decide_eq_true hLt)
      omega

end UdpStream

end P2

end Cs2520

------------------------------------------------------------
-- Whole Runs
------------------------------------------------------------

namespace Cs2520

namespace P2

namespace UdpStream

open Lib

/- The time of a record, in microseconds. -/
def time
    (p : StreamPkt) : Int :=
  (stamp p).2

/-
  The records sent are numbered `1, 2, 3, …`. If the clock
  never goes back, and as long as the bits sent fit into an
  `int`, a record is not sent before 1350 microseconds have
  passed for each record before it, so at most
  `span / 1350 + 1` records are sent within `span` of the
  start.
-/
theorem keeps_rate
    (numMsgs : Int)
    (startTS : Timeval)
    (pkt : StreamPkt)
    (readings : List Timeval)
    (hClock :
      readings.Pairwise (fun t t' => t.micros ≤ t'.micros)) :
    let r :=
      machine.run (initial numMsgs startTS pkt) readings
    let sent :=
      machine.outputs (initial numMsgs startTS pkt) readings
    sent.map StreamPkt.seq = Int.range 1 (1 + sent.length) ∧
      (∀ p ∈ sent, p.seq ≤ lastInRange + 1 →
        r.startTS.micros + 1350 * (p.seq - 1) ≤ time p) ∧
      (sent.length ≤ lastInRange + 1 →
        ∀ span, 0 ≤ span →
          ((sent.filter
            (fun p =>
              time p ≤ r.startTS.micros + span)).length :
                Int) ≤
            span / 1350 + 1) := by
  intro r sent
  have hStart :
      (initial numMsgs startTS pkt).toPacer =
        Pacer.initial startTS.micros := rfl
  have hRun :=
    (refines numMsgs).run ⟨rfl, hStart⟩ readings
  have hOut :=
    (refines numMsgs).outputs ⟨rfl, hStart⟩ readings
  have hInputs :
      (machine.trace (initial numMsgs startTS pkt)
          readings).map (fun e => some e.2.micros) =
        readings.map (fun t => some t.micros) :=
    machine.trace_map_input (fun t => some t.micros) _ _
  have hSent :
      sent.map stamp =
        (Pacer.machine (plan numMsgs)).outputs
          (Pacer.initial startTS.micros)
          (readings.map (fun t => some t.micros)) := by
    rw [← hInputs, ← List.filterMap_eq_map]
    exact hOut.trans List.filterMap_some
  rw [hInputs] at hRun
  have hReadings :
      (readings.map
          (fun t => some t.micros)).reduceOption.Pairwise
        (fun t t' => t ≤ t') := by
    have hMap :
        (readings.map (fun t => some t.micros)).reduceOption =
          readings.map Timeval.micros := by
      change (readings.map _).filterMap id = _
      rw [List.filterMap_map]
      exact congrFun List.filterMap_eq_map readings
    rw [hMap]
    exact List.pairwise_map.mpr hClock
  have hNumbers :
      (sent.map stamp).map Prod.fst =
        Int.range 1 (1 + (sent.map stamp).length) := by
    rw [hSent]
    exact (Pacer.numbered _ _ _).all
  have hDue :
      ∀ i t, (i + 1, t) ∈ sent.map stamp → 0 ≤ i →
        i ≤ lastInRange →
          r.startTS.micros + 1350 * i ≤ t := by
    intro i t hMem hLow hHigh
    rw [hSent] at hMem
    have hKept :=
      Pacer.kept (waits numMsgs hLow hHigh) (by omega)
        startTS.micros hReadings t hMem
    rw [← hRun.2] at hKept
    exact hKept
  have hRange :
      ∀ o ∈ sent.map stamp, 1 ≤ o.1 ∧ o.1 ≤ sent.length := by
    intro o hMem
    have hNumber := List.mem_map_of_mem (f := Prod.fst) hMem
    rw [hNumbers, List.length_map] at hNumber
    have hBoth := Int.mem_range_iff.mp hNumber
    omega
  refine ⟨?_, ?_, ?_⟩
  · rw [List.map_map, List.length_map] at hNumbers
    exact hNumbers
  · intro p hMem hHigh
    have hStamp := List.mem_map_of_mem (f := stamp) hMem
    have hLow := (hRange _ hStamp).1
    change 1 ≤ p.seq at hLow
    apply hDue (p.seq - 1) (time p) ?_ (by omega) (by omega)
    rw [Int.sub_add_cancel]
    exact hStamp
  · intro hLength span hSpan
    have hCount :=
      Pacer.length_sent_le (c := 1350) (by omega) hSpan
        hNumbers
        (fun j t hMem => by
          have hBoth := hRange _ hMem
          dsimp only at hBoth
          exact hDue j t hMem (by omega) (by omega))
    rw [List.filter_map, List.length_map] at hCount
    exact hCount

/- A reading at so many microseconds. -/
def clock
    (usec : Int) : Timeval where
  sec := 0
  usec := usec

theorem keeps_rate_twoRecords :
    let readings := [clock 0, clock 10, clock 20, clock 1370]
    let r := machine.run (initial 2 .zero .zeroed) readings
    let sent :=
      machine.outputs (initial 2 .zero .zeroed) readings
    sent.map StreamPkt.seq = Int.range 1 (1 + sent.length) ∧
      (∀ p ∈ sent, p.seq ≤ lastInRange + 1 →
        r.startTS.micros + 1350 * (p.seq - 1) ≤ time p) ∧
      (sent.length ≤ lastInRange + 1 →
        ∀ span, 0 ≤ span →
          ((sent.filter
            (fun p =>
              time p ≤ r.startTS.micros + span)).length :
                Int) ≤
            span / 1350 + 1) :=
  keeps_rate 2 .zero .zeroed
    [clock 0, clock 10, clock 20, clock 1370]
    (by decide)

end UdpStream

end P2

end Cs2520
