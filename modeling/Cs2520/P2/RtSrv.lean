import Cs2520.Lib.Machine
import Cs2520.P2.Package

/-
  The real-time sender (`p2/source/rt_srv.c`).

  `RtSrv` holds the variables of `main`. `RtSrv.step` is one
  pass of the request loop or of the main loop; its event
  says what `select` reports and what each clock reading of
  the pass gives. Printed reports are left out.

  Main declarations:
    * `RtSrv`
    * `RtSrv.accept`
    * `RtSrv.onApp`
    * `RtSrv.onRcv`
    * `RtSrv.slideWindow`
    * `RtSrv.machine`
-/

------------------------------------------------------------
-- State and Events
------------------------------------------------------------

namespace Cs2520

namespace P2

open Lib

/-
  The variables of `main`. `hung` records that the sliding
  loop does not end; `records` lists the records received
  from the application.
-/
structure RtSrv (A : Type) where
  exited : Bool
  hung : Bool
  request : Bool
  rcvAddr : A
  currentAddr : A
  rcvPkt : Package
  seq : Int
  windowSize : Int
  latencyWindow : Timeval
  head : Int
  sendCount : Int
  totalCount : Int
  halfrtt : Timeval
  now : Timeval
  startTS : Timeval
  nextReportTime : Timeval
  window : Int → Package
  slide : Int → Timeval
  records : List StreamPkt

namespace RtSrv

variable {A : Type}

/-
  The state before the request loop. `malloc` is taken to
  return zeroed memory; the parameters stand for what is not
  initialized.
-/
def initial
    (addr : A)
    (rcvPkt : Package) : RtSrv A where
  exited := false
  hung := false
  request := false
  rcvAddr := addr
  currentAddr := addr
  rcvPkt := rcvPkt
  seq := 1
  windowSize := 0
  latencyWindow := .zero
  head := 1
  sendCount := 0
  totalCount := 0
  halfrtt := { sec := 0, usec := 40000 }
  now := .zero
  startTS := .zero
  nextReportTime := .zero
  window := fun _ => .zeroed
  slide := fun _ => .zero
  records := []

/- What the `gettimeofday` calls of a pass return. -/
structure Clocks where
  receive : Clock
  start : Clock
  send : Clock
  ackack : Clock
  nack : Fin nackSize → Clock
  resend : Fin nackSize → Clock
  report : Clock
  slide : Clock

/- All readings of a pass at the same full second. -/
def Clocks.ofSeconds
    (sec : Nat) : Clocks where
  receive := .ofSeconds sec
  start := .ofSeconds sec
  send := .ofSeconds sec
  ackack := .ofSeconds sec
  nack := fun _ => .ofSeconds sec
  resend := fun _ => .ofSeconds sec
  report := .ofSeconds sec
  slide := .ofSeconds sec

/-
  What a pass reacts to: a datagram of the application, a
  datagram on the client port, both, or neither. A failed or
  empty receive from the application is `some none`.
-/
structure Ev (A : Type) where
  app : Option (Option StreamPkt)
  rcv : Option (A × Package)
  clocks : Clocks

/- Send `rcv_pkt` to `rcv_addr`. -/
def sendPkt
    (s : RtSrv A) : A × Package :=
  (s.rcvAddr, s.rcvPkt)

/- The `recvfrom` of the client port. -/
def recvfrom
    (s : RtSrv A)
    (fromAddr : A)
    (pkt : Package) : RtSrv A :=
  { s with rcvAddr := fromAddr, rcvPkt := pkt }

end RtSrv

end P2

end Cs2520

------------------------------------------------------------
-- The Parts of a Pass
------------------------------------------------------------

namespace Cs2520

namespace P2

namespace RtSrv

open Lib Timeval

variable {A : Type}
variable (c : Clocks)

/-
  A request is granted ten times. Receivers always ask for a
  window of positive size.
-/
def accept
    (s : RtSrv A) : RtSrv A × List (A × Package) :=
  let s :=
    { s with
      currentAddr := s.rcvAddr
      request := true
      windowSize := s.rcvPkt.windowSize
      latencyWindow := s.rcvPkt.latencyWindow
      rcvPkt :=
        { s.rcvPkt with
          type := 4
          receiveTS1 := c.receive.toTimeval } }
  (s, List.replicate 10 s.sendPkt)

/- Case 1: send a record of the application and store it. -/
def onApp
    (s : RtSrv A)
    (r : StreamPkt) : RtSrv A × List (A × Package) :=
  let s :=
    if s.sendCount = 0 then
      { s with
        startTS := c.start.toTimeval
        nextReportTime :=
          timeradd c.start.toTimeval reportInterval }
    else
      s
  let s :=
    { s with
      sendCount := s.sendCount + 1
      totalCount := s.totalCount + 1
      records := s.records ++ [r]
      rcvPkt :=
        { s.rcvPkt.copyRecord r with
          sendTS := c.send.toTimeval
          type := 0
          seq := s.seq
          nSendTS := { sec := -1, usec := -1 } } }
  let k := s.seq % s.windowSize
  ({ s with
      window := Function.update s.window k s.rcvPkt
      slide :=
        Function.update s.slide k
          (timeradd s.rcvPkt.sendTS s.latencyWindow)
      seq := s.seq + 1 },
    [s.sendPkt])

/- Read the clock before entry `i` is looked up. -/
def readNow
    (i : Fin nackSize)
    (s : RtSrv A) : RtSrv A :=
  { s with now := (c.nack i).toTimeval }

/- Load a packet from the window, to be sent again. -/
def reload
    (i : Fin nackSize)
    (lossSeq : Int)
    (s : RtSrv A) : RtSrv A :=
  { s with
    rcvPkt :=
      { s.window (lossSeq % s.windowSize) with
        type := 6
        nSendTS := (c.resend i).toTimeval }
    totalCount := s.totalCount + 1 }

/-
  The resend loop. Each pass reads the next entry of
  `rcv_pkt.nack`, which the previous pass may have
  overwritten.
-/
def resend :
    List (Fin nackSize) → RtSrv A →
      RtSrv A × List (A × Package)
  | [], s => (s, [])
  | i :: rest, s =>
      let lossSeq := s.rcvPkt.nack i
      if lossSeq ≠ -1 ∧ s.head ≤ lossSeq then
        let s := s.readNow c i
        if -1 < cmpTime (s.slide (lossSeq % s.windowSize))
            s.now then
          let s := s.reload c i lossSeq
          let pkt := s.sendPkt
          let (s, out) := resend rest s
          (s, pkt :: out)
        else
          resend rest s
      else
        resend rest s

/- Turn the ACK into an ACKACK. -/
def fillAckack
    (s : RtSrv A) : RtSrv A :=
  { s with
    halfrtt := s.rcvPkt.halfrtt
    rcvPkt :=
      { s.rcvPkt with
        type := 1
        ackackTS := c.ackack.toTimeval } }

/- An ACK is answered by an ACKACK and resent packets. -/
def onAck
    (s : RtSrv A) : RtSrv A × List (A × Package) :=
  let s := s.fillAckack c
  let ackack := s.sendPkt
  let (s, out) := resend c (List.finRange nackSize) s
  (s, ackack :: out)

variable [DecidableEq A]

/- Case 2: a packet of a receiver. -/
def onRcv
    (s : RtSrv A)
    (fromAddr : A)
    (pkt : Package) : RtSrv A × List (A × Package) :=
  let s := s.recvfrom fromAddr pkt
  if s.rcvPkt.type = 2 then
    -- afterwards the type is 1 or 6, so no request follows
    s.onAck c
  else if s.rcvPkt.type = 3 then
    if s.currentAddr ≠ s.rcvAddr then
      let s :=
        { s with
          rcvPkt :=
            { s.rcvPkt with
              type := 5
              receiveTS1 := c.receive.toTimeval } }
      (s, [s.sendPkt])
    else
      (s, [])
  else
    (s, [])

/-
  The sliding loop, in which `i` equals `head`. After
  `WINDOW_SIZE` passes every slot has expired, and the loop
  goes round for ever.
-/
def slideLoop :
    Nat → RtSrv A → RtSrv A
  | 0, s => { s with hung := true }
  | n + 1, s =>
      let temp :=
        timeradd (s.slide (s.head % s.windowSize)) s.halfrtt
      if -1 < cmpTime s.now temp then
        slideLoop n { s with head := s.head + 1 }
      else
        s

/- Case 3: slide the window. -/
def slideWindow
    (s : RtSrv A) : RtSrv A :=
  let s := { s with now := c.slide.toTimeval }
  if 0 < s.windowSize then
    slideLoop s.windowSize.toNat s
  else
    s

/- The timeout branch. -/
def report
    (s : RtSrv A) : RtSrv A :=
  { s with
    now := c.report.toTimeval
    nextReportTime :=
      timeradd s.nextReportTime reportInterval }

end RtSrv

end P2

end Cs2520

------------------------------------------------------------
-- The Loops
------------------------------------------------------------

namespace Cs2520

namespace P2

namespace RtSrv

open Lib

variable {A : Type} [DecidableEq A]

/- The client port in a pass of the main loop. -/
def rcvPart
    (c : Clocks)
    (s : RtSrv A) :
    Option (A × Package) → RtSrv A × List (A × Package)
  | none => (s, [])
  | some (fromAddr, pkt) => s.onRcv c fromAddr pkt

/- A pass of the request loop, which hears no application. -/
def waitPass
    (s : RtSrv A)
    (e : Ev A) : RtSrv A × List (A × Package) :=
  match e.rcv with
  | none => (s, [])
  | some (fromAddr, pkt) =>
      let s := s.recvfrom fromAddr pkt
      if s.rcvPkt.type = 3 then
        s.accept e.clocks
      else
        (s, [])

/- A pass of the main loop. -/
def mainPass
    (s : RtSrv A)
    (e : Ev A) : RtSrv A × List (A × Package) :=
  match e.app, e.rcv with
  | some none, _ => ({ s with exited := true }, [])
  | some (some r), rcv =>
      let (s, outApp) := s.onApp e.clocks r
      let (s, outRcv) := s.rcvPart e.clocks rcv
      (s.slideWindow e.clocks, outApp ++ outRcv)
  | none, some rcv =>
      let (s, out) := s.rcvPart e.clocks (some rcv)
      (s.slideWindow e.clocks, out)
  | none, none =>
      -- until the first record `select` has no timeout
      if s.sendCount = 0 then
        (s, [])
      else
        ((s.report e.clocks).slideWindow e.clocks, [])

/- One pass; nothing follows an exit or an endless loop. -/
def step
    (s : RtSrv A)
    (e : Ev A) : RtSrv A × List (A × Package) :=
  if s.exited ∨ s.hung then
    (s, [])
  else if s.request then
    s.mainPass e
  else
    s.waitPass e

/- The server process. -/
def machine : Machine (RtSrv A) (Ev A) (A × Package) where
  step := step

end RtSrv

end P2

end Cs2520
