import Cs2520.Lib.Double
import Cs2520.Lib.Machine
import Cs2520.Lib.RingBuffer
import Cs2520.P2.Package

/-
  The real-time receiver (`p2/source/rt_rcv.c`).

  `RtRcv` holds the variables of the program, and
  `RtRcv.step` is one pass of the connection loop or of the
  main loop. A pass of the main loop delivers what is due and
  then handles at most one packet. The running average of the
  one-way delays, which is only printed, is left out.

  Main declarations:
    * `windowSize`
    * `Estimate.update`
    * `onewayDelay`
    * `RtRcv`
    * `RtRcv.deliver`
    * `RtRcv.dataPacket`
    * `RtRcv.ackackPacket`
    * `RtRcv.machine`
-/

------------------------------------------------------------
-- Parameters and Estimates
------------------------------------------------------------

namespace Cs2520

namespace P2

open Lib Timeval

/- `WINDOW_SIZE` for a latency window in milliseconds -/
def windowSize
    (latency : Nat) : Int :=
  latency * 25 / 14 + 100

/- `Latency_Window` -/
def latencyWindow
    (latency : Nat) : Timeval :=
  { sec := latency / 1000
    usec := (latency - latency / 1000 * 1000) * 1000 }

/- `Half_time`, with division towards zero as in C -/
def halfTime
    (t : Timeval) : Timeval :=
  { sec := t.sec.tdiv 2
    usec :=
      if t.sec.tmod 2 = 1 then
        t.usec.tdiv 2 + 500000
      else
        t.usec.tdiv 2 }

/- `oneway`, in milliseconds, every operation rounded -/
def onewayDelay
    (now sent : Timeval) : ℚ :=
  let oneway := roundDouble (now.sec - sent.sec : Int)
  let oneway := roundDouble (oneway * 1000)
  let usec := roundDouble (now.usec - sent.usec : Int)
  roundDouble (oneway + roundDouble (usec / 1000))

/-
  A running mean and the latest samples it is made of. The
  arrays `sec` and `usec` are used modulo `RECORD_SIZE`.
-/
structure Estimate where
  value : Timeval
  sec : Int → Int
  usec : Int → Int
  count : Int

namespace Estimate

/- Enter one sample into the mean. -/
def update
    (e : Estimate)
    (sample : Timeval) : Estimate :=
  let i := e.count
  if i < recordSize then
    let t1 :=
      (e.value.sec * i + sample.sec).tdiv (i + 1)
    let t2 := e.value.sec * i + sample.sec - t1 * (i + 1)
    let t3 :=
      (t2 * 1000000 + e.value.usec * i + sample.usec).tdiv
        (i + 1)
    { value := { sec := t1, usec := t3 }
      sec := Function.update e.sec i sample.sec
      usec := Function.update e.usec i sample.usec
      count := i + 1 }
  else
    let k := i.tmod recordSize
    let t1 := (sample.sec - e.sec k).tdiv recordSize
    let t2 := sample.sec - e.sec k - t1 * recordSize
    let t3 :=
      (t2 * 1000000 + sample.usec - e.usec k).tdiv recordSize
    { value :=
        { sec := e.value.sec + t1
          usec := e.value.usec + t3 }
      sec := Function.update e.sec k sample.sec
      usec := Function.update e.usec k sample.usec
      count := i + 1 }

/- A sample that starts the record and replaces the value. -/
def start
    (e : Estimate)
    (sample : Timeval) : Estimate where
  value := sample
  sec := Function.update e.sec e.count sample.sec
  usec := Function.update e.usec e.count sample.usec
  count := e.count + 1

/- The code for `Base_Delta`, of which there are two copies. -/
def updateBaseDelta
    (e : Estimate)
    (sample : Timeval) : Estimate :=
  e.update sample

/- The code for `Half_RTT`, with a case for no record. -/
def updateHalfRTT
    (e : Estimate)
    (sample : Timeval) : Estimate :=
  if e.count < recordSize ∧ e.count = 0 then
    e.start sample
  else
    e.update sample

/- The case for no record does what the mean does. -/
theorem updateHalfRTT_eq_update
    (e : Estimate)
    (sample : Timeval) :
    e.updateHalfRTT sample = e.update sample := by
  unfold updateHalfRTT
  split
  · next hNone =>
      have hLt : (0 : Int) < recordSize := by decide
      simp [update, start, hNone.2, hLt]
  · rfl

end Estimate

end P2

end Cs2520

------------------------------------------------------------
-- State, Events and Outputs
------------------------------------------------------------

namespace Cs2520

namespace P2

open Lib Timeval

/-
  The variables of the program. `buffer`, `window` and
  `buffersize` come from `RingBuffer`; `delivered` lists the
  records sent to the local application.
-/
structure RtRcv (A : Type) extends RingBuffer Package where
  exited : Bool
  getpermission : Bool
  senderAddr : A
  senderPkt : Package
  echoPkt : Package
  sendPkt : StreamPkt
  cAck : Int
  rcvdCount : Int
  highestseq : Int
  baseDelta : Estimate
  halfRTT : Estimate
  maxOneway : Double
  minOneway : Double
  now : Timeval
  startTS : Timeval
  nextReportTime : Timeval
  delivered : List StreamPkt

namespace RtRcv

variable {A : Type}

/- What is not initialized at the start of the program. -/
structure Uninitialized where
  window : Int → Package
  senderPkt : Package
  echoPkt : Package
  sendPkt : StreamPkt
  maxOneway : Double
  minOneway : Double
  startTS : Timeval
  nextReportTime : Timeval

/- Memory that happens to be zero. -/
def zeroedMemory : Uninitialized where
  window := fun _ => .zeroed
  senderPkt := .zeroed
  echoPkt := .zeroed
  sendPkt := .zeroed
  maxOneway := .num 0
  minOneway := .num 0
  startTS := .zero
  nextReportTime := .zero

/- The state before the connection loop. -/
def initial
    (server : A)
    (u : Uninitialized) : RtRcv A where
  buffer := fun _ => false
  window := u.window
  buffersize := 0
  exited := false
  getpermission := false
  senderAddr := server
  senderPkt := u.senderPkt
  echoPkt := u.echoPkt
  sendPkt := u.sendPkt
  cAck := 0
  rcvdCount := 0
  highestseq := 0
  baseDelta :=
    { value := .zero
      sec := fun _ => 0
      usec := fun _ => 0
      count := 0 }
  halfRTT :=
    { value := { sec := 0, usec := 40000 }
      sec := fun _ => 0
      usec := fun _ => 0
      count := 0 }
  maxOneway := u.maxOneway
  minOneway := u.minOneway
  now := .zero
  startTS := u.startTS
  nextReportTime := u.nextReportTime
  delivered := []

/- What the `gettimeofday` calls of a pass return. -/
structure Clocks where
  request : Clock
  permission : Clock
  pass : Clock
  examine : Clock
  accept : Clock
  receive : Clock
  start : Clock
  echo : Clock
  ackack : Clock
  report : Clock

/- All readings of a pass at the same full second. -/
def Clocks.ofSeconds
    (sec : Nat) : Clocks where
  request := .ofSeconds sec
  permission := .ofSeconds sec
  pass := .ofSeconds sec
  examine := .ofSeconds sec
  accept := .ofSeconds sec
  receive := .ofSeconds sec
  start := .ofSeconds sec
  echo := .ofSeconds sec
  ackack := .ofSeconds sec
  report := .ofSeconds sec

/- What a pass reacts to: a packet, or none in time. -/
structure Ev (A : Type) where
  packet : Option (A × Package)
  clocks : Clocks

/- The two kinds of datagrams that the process sends. -/
inductive Out (A : Type) where
| sendto : A → Package → Out A
| deliver : StreamPkt → Out A
deriving DecidableEq

/- The `recvfrom` of both loops. -/
def recvfrom
    (r : RtRcv A)
    (fromAddr : A)
    (pkt : Package) : RtRcv A :=
  { r with senderAddr := fromAddr, senderPkt := pkt }

end RtRcv

end P2

end Cs2520

------------------------------------------------------------
-- Connection and Delivery
------------------------------------------------------------

namespace Cs2520

namespace P2

namespace RtRcv

open Lib Timeval

variable {A : Type}
variable (latency : Nat)
variable (c : Clocks)

/- A request, sent when a second has passed in silence. -/
def sendRequest
    (r : RtRcv A) : RtRcv A × List (Out A) :=
  let r :=
    { r with
      echoPkt :=
        { r.echoPkt with
          sendTS := c.request.toTimeval
          type := 3
          windowSize := windowSize latency
          latencyWindow :=
            timeradd (latencyWindow latency) .zero } }
  (r, [.sendto r.senderAddr r.echoPkt])

/- The permission gives the first samples. -/
def permit
    (r : RtRcv A) : RtRcv A :=
  let now := c.permission.toTimeval
  { r with
    getpermission := true
    now := now
    baseDelta :=
      r.baseDelta.start (timersub now r.senderPkt.receiveTS1)
    halfRTT :=
      r.halfRTT.start
        (halfTime (timersub now r.senderPkt.sendTS)) }

/- A pass of the connection loop. -/
def connectPass
    (r : RtRcv A)
    (packet : Option (A × Package)) :
    RtRcv A × List (Out A) :=
  match packet with
  | none => r.sendRequest latency c
  | some (fromAddr, pkt) =>
      let r := r.recvfrom fromAddr pkt
      if r.senderPkt.type = 5 then
        ({ r with exited := true }, [])
      else if r.senderPkt.type = 4 then
        (r.permit c, [])
      else
        (r, [])

/- When a buffered packet is to be delivered. -/
def deliverTime
    (r : RtRcv A)
    (pkt : Package) : Timeval :=
  timeradd (timeradd r.baseDelta.value pkt.sendTS)
    (latencyWindow latency)

/- Make the record of a buffered packet in `send_pkt`. -/
def fillSendPkt
    (r : RtRcv A)
    (pkt : Package) : RtRcv A :=
  { r with
    sendPkt :=
      { r.sendPkt with
        seq := pkt.seq
        tsSec := r.now.sec
        tsUsec := r.now.usec
        data := pkt.data } }

/- Deliver slot `i % WINDOW_SIZE` and free it. -/
def deliverSlot
    (r : RtRcv A)
    (i : Int) : RtRcv A :=
  let k := i % windowSize latency
  let r := r.fillSendPkt (r.window k)
  { r with
    toRingBuffer := r.toRingBuffer.release k
    cAck := i
    delivered := r.delivered ++ [r.sendPkt] }

/-
  The delivery loop from `i` on. The first argument bounds
  the number of passes.
-/
def deliver :
    Nat → Int → RtRcv A → RtRcv A × List (Out A)
  | 0, _, r => (r, [])
  | n + 1, i, r =>
      let k := i % windowSize latency
      if i < r.cAck + 1 + windowSize latency ∧
          0 < r.buffersize then
        if r.buffer k = false then
          deliver n (i + 1) r
        else if -1 <
            cmpTime r.now
              (r.deliverTime latency (r.window k)) then
          let r := r.deliverSlot latency i
          let pkt := r.sendPkt
          let (r, out) := deliver n (i + 1) r
          (r, .deliver pkt :: out)
        else
          (r, [])
      else
        (r, [])

/-
  The delivery loop of a pass. It never takes more than
  `WINDOW_SIZE` passes (`Inv.deliver_more`).
-/
def deliverPass
    (r : RtRcv A) : RtRcv A × List (Out A) :=
  deliver latency (windowSize latency).toNat (r.cAck + 1)
    { r with now := c.pass.toTimeval }

end RtRcv

end P2

end Cs2520

------------------------------------------------------------
-- Packets
------------------------------------------------------------

namespace Cs2520

namespace P2

namespace RtRcv

open Lib Timeval

variable {A : Type}
variable (latency : Nat)
variable (c : Clocks)

/-
  The search for missing packets from `i` on, with `j`
  entries found. The first argument counts the numbers below
  that of the packet.
-/
def nackScan
    (buffer : Int → Bool) :
    Nat → Int → Nat → (Fin nackSize → Int) →
      Fin nackSize → Int
  | 0, _, _, nack => nack
  | n + 1, i, j, nack =>
      if h : j < nackSize then
        if buffer (i % windowSize latency) = false then
          nackScan buffer n (i + 1) (j + 1)
            (Function.update nack ⟨j, h⟩ i)
        else
          nackScan buffer n (i + 1) j nack
      else
        nack

/- The NACK array of the echo for a packet. -/
def nackFor
    (r : RtRcv A)
    (seq : Int) : Fin nackSize → Int :=
  nackScan latency r.buffer (seq - (r.cAck + 1)).toNat
    (r.cAck + 1) 0 (fun _ => -1)

/- The range and slot test of an arriving data packet. -/
def inWindow
    (r : RtRcv A)
    (seq : Int) : Bool :=
  decide (r.cAck + 1 ≤ seq) &&
    decide (seq < r.cAck + 1 + windowSize latency) &&
    r.buffer (seq % windowSize latency) == false

/- The lateness test of an arriving data packet. -/
def inTime
    (r : RtRcv A)
    (pkt : Package)
    (now : Timeval) : Bool :=
  decide
    (-1 <
      cmpTime
        (timeradd
          (timeradd pkt.sendTS r.baseDelta.value)
          (latencyWindow latency))
        now)

/- The times when the packet is taken. -/
def stampPacket
    (r : RtRcv A) : RtRcv A :=
  { r with
    now := c.accept.toTimeval
    senderPkt :=
      { r.senderPkt with
        receiveTS1 := c.receive.toTimeval } }

/- The first packet of type 0 starts the report timer. -/
def startReport
    (r : RtRcv A) : RtRcv A :=
  if r.senderPkt.type = 0 ∧ r.rcvdCount = 0 then
    { r with
      startTS := c.start.toTimeval
      nextReportTime :=
        timeradd c.start.toTimeval reportInterval }
  else
    r

/- The highest number of type 0 so far. -/
def raiseHighest
    (r : RtRcv A) : RtRcv A :=
  if r.senderPkt.type = 0 ∧
      r.highestseq < r.senderPkt.seq then
    { r with highestseq := r.senderPkt.seq }
  else
    r

/-
  The sample of an accepted packet. Type 0 is measured from
  its sending, type 6 from its resending.
-/
def sample
    (r : RtRcv A) : RtRcv A :=
  let sent :=
    if r.senderPkt.type = 0 then r.senderPkt.sendTS
    else r.senderPkt.nSendTS
  let oneway := Double.num (onewayDelay r.now sent)
  { r with
    maxOneway :=
      if r.maxOneway < oneway ∨ r.rcvdCount = 1 then oneway
      else r.maxOneway
    minOneway :=
      if oneway < r.minOneway ∨ r.rcvdCount = 1 then oneway
      else r.minOneway
    rcvdCount := r.rcvdCount + 1
    baseDelta :=
      r.baseDelta.updateBaseDelta (timersub r.now sent) }

/- What comes before an accepted packet is stored. -/
def measure
    (r : RtRcv A) : RtRcv A :=
  (((r.stampPacket c).startReport c).raiseHighest).sample

/- Put the received packet into its slot. -/
def storePacket
    (r : RtRcv A) : RtRcv A :=
  { r with
    toRingBuffer :=
      r.toRingBuffer.store
        (r.senderPkt.seq % windowSize latency) r.senderPkt }

/- Acknowledge the stored packet. -/
def sendEcho
    (r : RtRcv A) : RtRcv A × List (Out A) :=
  let r :=
    { r with
      echoPkt :=
        { r.echoPkt with
          type := 2
          sendTS := timeradd .zero r.senderPkt.sendTS
          nSendTS := timeradd .zero r.senderPkt.nSendTS
          receiveTS1 := c.echo.toTimeval
          seq := r.senderPkt.seq
          ack := r.senderPkt.seq
          nack := r.nackFor latency r.senderPkt.seq
          halfrtt := r.halfRTT.value } }
  (r, [.sendto r.senderAddr r.echoPkt])

/- Case 1: a data packet, first sent or resent. -/
def dataPacket
    (r : RtRcv A) : RtRcv A × List (Out A) :=
  if r.inWindow latency r.senderPkt.seq then
    let now := c.examine.toTimeval
    if r.inTime latency r.senderPkt now then
      (({ r with now := now }.measure c).storePacket
        latency).sendEcho latency c
    else
      ({ r with now := now }, [])
  else
    (r, [])

/- Case 2: an ACKACK gives samples for both estimates. -/
def ackackPacket
    (r : RtRcv A) : RtRcv A :=
  let now := c.ackack.toTimeval
  let pkt := r.senderPkt
  let sent :=
    if pkt.nSendTS.sec = -1 then pkt.sendTS else pkt.nSendTS
  let rtts :=
    timeradd (timersub now pkt.receiveTS1)
      (timersub pkt.ackackTS sent)
  { r with
    now := now
    baseDelta :=
      r.baseDelta.updateBaseDelta
        (timersub now pkt.ackackTS)
    halfRTT :=
      r.halfRTT.updateHalfRTT (halfTime (halfTime rtts)) }

/- The timeout branch. -/
def report
    (r : RtRcv A) : RtRcv A :=
  { r with
    now := c.report.toTimeval
    nextReportTime :=
      timeradd r.nextReportTime reportInterval }

/- What follows the delivery loop in a pass. -/
def receivePass
    (r : RtRcv A) :
    Option (A × Package) → RtRcv A × List (Out A)
  | none =>
      -- until a packet is stored `select` has no timeout
      if r.rcvdCount = 0 then (r, []) else (r.report c, [])
  | some (fromAddr, pkt) =>
      let r := r.recvfrom fromAddr pkt
      if r.senderPkt.type = 0 ∨ r.senderPkt.type = 6 then
        r.dataPacket latency c
      else if r.senderPkt.type = 1 then
        (r.ackackPacket c, [])
      else
        (r, [])

/- A pass of the main loop. -/
def mainPass
    (r : RtRcv A)
    (packet : Option (A × Package)) :
    RtRcv A × List (Out A) :=
  let (r, outDeliver) := r.deliverPass latency c
  let (r, outReceive) := r.receivePass latency c packet
  (r, outDeliver ++ outReceive)

/- One pass of either loop; nothing follows `exit`. -/
def step
    (r : RtRcv A)
    (e : Ev A) : RtRcv A × List (Out A) :=
  if r.exited then
    (r, [])
  else if r.getpermission then
    r.mainPass latency e.clocks e.packet
  else
    r.connectPass latency e.clocks e.packet

/- The receiver process. -/
def machine : Machine (RtRcv A) (Ev A) (Out A) where
  step := step latency

end RtRcv

end P2

end Cs2520
