import Cs2520.Lib.Machine
import Cs2520.P1.Packet

/-
  The file sender (`p1/source/ncp.c`).

  `Ncp` holds the variables of `main`, and `Ncp.step` one
  pass of its connection loop or of its main loop. The file
  is the sequence of results that its `read` calls return.

  Since the file descriptor is always ready, `select` gives
  2 exactly when an echo has arrived, so the main loop takes
  its second branch on every pass without an echo.

  Main declarations:
    * `Ncp`
    * `Ncp.nextChunk`
    * `Ncp.fillWindow`
    * `Ncp.shiftWindow`
    * `Ncp.onEcho`
    * `Ncp.onTimeout`
    * `Ncp.machine`
-/

------------------------------------------------------------
-- State and Events
------------------------------------------------------------

namespace Cs2520

namespace P1

open Lib

/- The variables of `main`; `reads` counts `read` calls. -/
structure Ncp (β : Type) where
  exited : Bool
  filenameSend : Bool
  messBuf : Packet β
  seq : Int
  window : Int → Packet β
  head : Int
  tail : Int
  eof : Bool
  reads : Nat

namespace Ncp

variable {ρ δ β : Type}

/-
  The state before the connection loop, when `mess_buf`
  holds the file name.
-/
def initial
    (messBuf : Packet β)
    (window : Int → Packet β) : Ncp β where
  exited := false
  filenameSend := false
  messBuf := messBuf
  seq := 0
  window := window
  head := 1
  tail := windowSize
  eof := false
  reads := 0

/-
  What a pass reacts to: an echo or none. `elapsed` tells
  whether the connection loop finds that a microsecond has
  passed since its last filename packet.
-/
inductive Ev where
| quiet (elapsed : Bool) : Ev
| echo (hdr : Uhdr) (elapsed : Bool) : Ev

/- The echo that a pass receives, if any. -/
def Ev.echo? : Ev → Option Uhdr
  | .quiet _ => none
  | .echo hdr _ => some hdr

end Ncp

end P1

end Cs2520

------------------------------------------------------------
-- Reading and Sending Chunks
------------------------------------------------------------

namespace Cs2520

namespace P1

namespace Ncp

variable {ρ δ β : Type}
variable (w : Wire ρ δ β)
variable (file : Nat → ρ)

/- The first `sizeof(uhdr) + strlen(data_buf)` bytes. -/
def sendText
    (n : Ncp β) : Packet δ :=
  { hdr := n.messBuf.hdr, data := w.text n.messBuf.data }

/- The whole window slot of packet `i`. -/
def sendSlot
    (n : Ncp β)
    (i : Int) : Packet δ :=
  { hdr := (n.window (i % windowSize)).hdr
    data := w.whole (n.window (i % windowSize)).data }

/- Read the next chunk and number it `seq++`. -/
def nextChunk
    (n : Ncp β) : Ncp β :=
  { n with
    messBuf :=
      { hdr := { n.messBuf.hdr with seq := n.seq }
        data := w.read n.messBuf.data (file n.reads) }
    seq := n.seq + 1
    reads := n.reads + 1 }

/- Keep `mess_buf` in the window slot of number `i`. -/
def keep
    (n : Ncp β)
    (i : Int) : Ncp β :=
  { n with
    window :=
      Function.update n.window (i % windowSize) n.messBuf }

/-
  The first window: send and keep the packets from `i` on.
  The first argument counts those up to `tail`.
-/
def fillWindow :
    Nat → Int → Ncp β → Ncp β × List (Packet δ)
  | 0, _, n => (n, [])
  | k + 1, i, n =>
      let n := n.nextChunk w file
      let pkt := n.sendText w
      let (n, out) := fillWindow k (i + 1) (n.keep i)
      (n, pkt :: out)

/-
  `bytes < sizeof(mess_buf) - sizeof(uhdr) - 1`, where the
  comparison takes `bytes` as unsigned.
-/
def shortRead
    (bytes : Int) : Bool :=
  decide (bytes % 2 ^ 64 < chunkSize)

/-
  The shift loop. The first argument counts the values that
  `i` may still take below `received_ack + 1`.
-/
def shiftWindow
    (receivedAck : Int) :
    Nat → Ncp β → Ncp β × List (Packet δ)
  | 0, n => (n, [])
  | k + 1, n =>
      let bytes := w.bytes (file n.reads)
      let n := n.nextChunk w file
      let n := { n with eof := n.eof || shortRead bytes }
      let n := n.keep (n.tail + 1)
      let pkt := n.sendText w
      let n :=
        { n with head := n.head + 1, tail := n.tail + 1 }
      if n.eof then
        ({ n with head := receivedAck + 1 }, [pkt])
      else
        let (n, out) := shiftWindow receivedAck k n
        (n, pkt :: out)

/- Resend the slots that a NACK array asks for. -/
def resendNacks
    (n : Ncp β) : List Int → List (Packet δ)
  | [] => []
  | s :: rest =>
      if s < 0 then
        []
      else if n.head ≤ s ∧ s ≤ n.tail then
        n.sendSlot w s :: resendNacks n rest
      else
        resendNacks n rest

/- Resend packets `i`, `i + 1`, and so on. -/
def resendFrom
    (n : Ncp β) : Nat → Int → List (Packet δ)
  | 0, _ => []
  | k + 1, i => n.sendSlot w i :: resendFrom n k (i + 1)

end Ncp

end P1

end Cs2520

------------------------------------------------------------
-- The Two Loops
------------------------------------------------------------

namespace Cs2520

namespace P1

namespace Ncp

open Lib

variable {ρ δ β : Type}
variable (w : Wire ρ δ β)
variable (file : Nat → ρ)

/- The `recvfrom` of an echo, whose payload is empty. -/
def recvEcho
    (n : Ncp β)
    (hdr : Uhdr) : Ncp β :=
  { n with messBuf := { n.messBuf with hdr := hdr } }

/- Set the number of the message and send all of it. -/
def sendFilename
    (n : Ncp β) : Ncp β × List (Packet δ) :=
  let n :=
    { n with
      messBuf :=
        { n.messBuf with
          hdr := { n.messBuf.hdr with seq := n.seq } } }
  (n,
    [{ hdr := n.messBuf.hdr
       data := w.whole n.messBuf.data }])

/- A pass of the connection loop. -/
def greet
    (n : Ncp β)
    (echo : Option Uhdr)
    (elapsed : Bool) : Ncp β × List (Packet δ) :=
  let n :=
    match echo with
    | none => n
    | some hdr =>
        { n.recvEcho hdr with
          filenameSend := n.filenameSend || hdr.cack == 0 }
  if elapsed then
    n.sendFilename w
  else
    (n, [])

/- The initialization after the connection loop. -/
def firstWindow
    (n : Ncp β) : Ncp β × List (Packet δ) :=
  fillWindow w file (n.tail + 1 - n.head).toNat n.head
    { n with seq := n.seq + 1 }

/- A pass of the connection loop, and what follows it. -/
def connect
    (n : Ncp β)
    (echo : Option Uhdr)
    (elapsed : Bool) : Ncp β × List (Packet δ) :=
  let (n, out) := n.greet w echo elapsed
  if n.filenameSend then
    let (n, outFill) := n.firstWindow w file
    (n, out ++ outFill)
  else
    (n, out)

/- Send the number -1 and exit. -/
def finish
    (n : Ncp β) : Ncp β × List (Packet δ) :=
  let n :=
    { n with
      exited := true
      messBuf :=
        { n.messBuf with
          hdr := { n.messBuf.hdr with seq := -1 } } }
  (n, [n.sendText w])

/- The test of the first finish branch. -/
def finishedOn
    (n : Ncp β)
    (cack : Int) : Bool :=
  n.eof && (decide (n.tail ≤ cack) || decide (n.tail ≤ n.head))

/- The main loop on an echo. -/
def onEcho
    (n : Ncp β)
    (hdr : Uhdr) : Ncp β × List (Packet δ) :=
  let n := n.recvEcho hdr
  if n.finishedOn hdr.cack then
    n.finish w
  else
    let receivedAck := hdr.cack
    if receivedAck < n.head - 1 then
      (n, [])
    else if receivedAck = n.head - 1 then
      (n, n.resendNacks w (List.ofFn hdr.nack))
    else if n.eof then
      ({ n with head := receivedAck + 1 }, [])
    else
      n.shiftWindow w file receivedAck
        (receivedAck + 1 - n.head).toNat

/- The main loop without an echo. -/
def onTimeout
    (n : Ncp β) : Ncp β × List (Packet δ) :=
  if n.head = n.tail then
    n.finish w
  else
    (n, n.resendFrom w (n.tail + 1 - n.head).toNat n.head)

/- One pass of either loop; nothing follows `exit`. -/
def step
    (n : Ncp β)
    (e : Ev) : Ncp β × List (Packet δ) :=
  if n.exited then
    (n, [])
  else if n.filenameSend then
    match e with
    | .quiet _ => n.onTimeout w
    | .echo hdr _ => n.onEcho w file hdr
  else
    match e with
    | .quiet elapsed => n.connect w file none elapsed
    | .echo hdr elapsed =>
        n.connect w file (some hdr) elapsed

/- The sender process on a given file. -/
def machine : Machine (Ncp β) Ev (Packet δ) where
  step := step w file

end Ncp

end P1

end Cs2520
