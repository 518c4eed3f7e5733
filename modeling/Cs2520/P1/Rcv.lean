import Cs2520.Lib.Machine
import Cs2520.Lib.RingBuffer
import Cs2520.P1.Packet

/-
  The file receiver (`p1/source/rcv.c`).

  `Rcv` holds the variables of `main`, and `Rcv.step` one
  pass of its loop: either the timer at the loop head fires
  or one datagram is received. The byte counters and clock
  readings that are only printed are left out.

  Main declarations:
    * `Rcv`
    * `Rcv.drain`
    * `Rcv.expected`
    * `Rcv.outOfOrder`
    * `Rcv.recv`
    * `Rcv.machine`
-/

------------------------------------------------------------
-- State, Events and Outputs
------------------------------------------------------------

namespace Cs2520

namespace P1

open Lib

/-
  The variables of `main`. `buffer`, `window` and
  `buffersize` come from `RingBuffer`; `fw` lists the payloads
  printed into the file since it was opened.
-/
structure Rcv (A β : Type) extends RingBuffer (Packet β) where
  exited : Bool
  hassender : Bool
  /- `currentip` and `currenthost` -/
  current : A
  fromAddr : A
  messBuf : Packet β
  echoHdr : Uhdr
  cAck : Int
  lastAck : Int
  nackTime : Int
  fw : List β

namespace Rcv

variable {A ρ δ β : Type}

/-
  The state before the loop. The parameters stand for what
  the declarations leave uninitialized.
-/
def initial
    (addr : A)
    (messBuf : Packet β)
    (echoHdr : Uhdr)
    (window : Int → Packet β) : Rcv A β where
  buffer := fun _ => false
  window := window
  buffersize := 0
  exited := false
  hassender := false
  current := addr
  fromAddr := addr
  messBuf := messBuf
  echoHdr := echoHdr
  cAck := 0
  lastAck := -1
  nackTime := 0
  fw := []

/- What a pass of the loop reacts to. -/
inductive Ev (A δ : Type) where
| timer : Ev A δ
| recv : A → Packet δ → Ev A δ

/-
  What a pass of the loop does to the outside. The two
  prints are the two `fprintf` statements: from `data_buf`,
  and from slot `k` of the window.
-/
inductive Out (A β : Type) where
| sendto : A → Uhdr → Out A β
| fopen : β → Out A β
| printData : β → Out A β
| printSlot : Int → β → Out A β
deriving DecidableEq

end Rcv

end P1

end Cs2520

------------------------------------------------------------
-- The Loop Body
------------------------------------------------------------

namespace Cs2520

namespace P1

namespace Rcv

open Lib

variable {A ρ δ β : Type}
variable (w : Wire ρ δ β)

/- Send an echo; `echo_data_buf` is taken as empty. -/
def echo
    (r : Rcv A β)
    (hdr : Uhdr) : Rcv A β × List (Out A β) :=
  ({ r with echoHdr := hdr }, [.sendto r.fromAddr hdr])

/- The timer at the head of the loop asks for `C_ack + 1`. -/
def timer
    (r : Rcv A β) : Rcv A β × List (Out A β) :=
  if r.hassender then
    r.echo
      { r.echoHdr with
        cack := r.cAck
        nack :=
          fun i => if i.1 = 0 then r.cAck + 1 else -1 }
  else
    (r, [])

/- A filename opens the file and starts a session. -/
def accept
    (canOpen : β → Bool)
    (r : Rcv A β) : Rcv A β × List (Out A β) :=
  let name := r.messBuf.data
  let r := { r with current := r.fromAddr }
  if canOpen name then
    let (r, out) := r.echo { r.echoHdr with cack := 0 }
    ({ r with
        hassender := true
        cAck := 0
        lastAck := -1
        nackTime := 0
        buffersize := 0
        buffer := fun _ => false
        fw := [] },
      .fopen name :: out)
  else
    ({ r with exited := true }, [.fopen name])

/- Another sender hears that the receiver is busy. -/
def busy
    (r : Rcv A β) : Rcv A β × List (Out A β) :=
  r.echo { r.echoHdr with cack := -1 }

/- Print the payload of slot `k`, free it and clear it. -/
def takeSlot
    (r : Rcv A β)
    (k : Int) : Rcv A β :=
  let slot := r.window k
  { r with
    toRingBuffer :=
      { r.toRingBuffer.release k with
        window :=
          Function.update r.window k
            { slot with data := w.bzero slot.data } }
    cAck := r.cAck + 1
    fw := r.fw ++ [slot.data] }

/-
  The search of Case 1, Subcase 2: print consecutive slots
  from `j` on. The first argument counts the values that `j`
  may still take.
-/
def drain :
    Nat → Int → Rcv A β → Rcv A β × List (Out A β)
  | 0, _, r => (r, [])
  | n + 1, j, r =>
      if 0 < r.buffersize then
        if r.buffer (j % windowSize) then
          let k := j % windowSize
          let data := (r.window k).data
          let (r, out) := drain n (j + 1) (r.takeSlot w k)
          (r, .printSlot k data :: out)
        else
          (r, [])
      else
        (r, [])

/- Print `data_buf` and clear it. -/
def printData
    (r : Rcv A β) : Rcv A β :=
  { r with
    messBuf :=
      { r.messBuf with data := w.bzero r.messBuf.data }
    cAck := r.cAck + 1
    fw := r.fw ++ [r.messBuf.data] }

/- Case 1: the expected packet `C_ack + 1`. -/
def expected
    (r : Rcv A β) : Rcv A β × List (Out A β) :=
  let data := r.messBuf.data
  if r.buffersize = 0 then
    let r := r.printData w
    let (r, out) :=
      { r with lastAck := r.cAck, nackTime := 0 }.echo
        { r.echoHdr with cack := r.cAck, nack := noNack }
    (r, .printData data :: out)
  else
    -- `j` runs from `temp + 2` below `temp + 1 + WINDOW_SIZE`
    let temp := r.cAck
    let bound := temp + 1 + windowSize
    let (r, outDrain) :=
      drain w (bound - (temp + 2)).toNat (temp + 2)
        (r.printData w)
    let (r, outEcho) :=
      { r with lastAck := r.cAck, nackTime := 0 }.echo
        { r.echoHdr with cack := r.cAck, nack := noNack }
    (r, .printData data :: (outDrain ++ outEcho))

/-
  The NACK search: `j` and the index `i` advance together.
  The first argument counts the passes that `i` still has.
-/
def nackScan
    (buffer : Int → Bool)
    (seq : Int) :
    Nat → Int → Nat → (Fin nackSize → Int) →
      Fin nackSize → Int
  | 0, _, _, nack => nack
  | n + 1, j, i, nack =>
      if h : j < seq ∧ i < nackSize then
        nackScan buffer seq n (j + 1) (i + 1)
          (if buffer (j % windowSize) = false then
            Function.update nack ⟨i, h.2⟩ j
          else
            nack)
      else
        nack

/- The NACK array for a packet ahead of `C_ack + 1`. -/
def nackFor
    (r : Rcv A β)
    (seq : Int) : Fin nackSize → Int :=
  nackScan r.buffer seq nackSize (r.cAck + 2) 1
    (Function.update noNack ⟨0, by decide⟩ (r.cAck + 1))

/- Case 2: any other packet. -/
def outOfOrder
    (r : Rcv A β) : Rcv A β × List (Out A β) :=
  let seq := r.messBuf.hdr.seq
  if r.cAck + 2 ≤ seq ∧
      seq ≤ r.cAck + 1 + windowSize then
    if r.buffer (seq % windowSize) = false then
      let r :=
        { r with
          toRingBuffer :=
            r.toRingBuffer.store (seq % windowSize) r.messBuf }
      if r.lastAck ≠ r.cAck ∨
          (r.lastAck = r.cAck ∧ r.nackTime < 2) then
        let r :=
          if r.lastAck = r.cAck then
            { r with nackTime := r.nackTime + 1 }
          else
            { r with nackTime := 0, lastAck := r.cAck }
        r.echo
          { r.echoHdr with
            cack := r.cAck
            nack := r.nackFor seq }
      else
        (r, [])
    else
      (r, [])
  else
    (r, [])

/- The `recvfrom` of the loop. -/
def recvfrom
    (r : Rcv A β)
    (fromAddr : A)
    (pkt : Packet δ) : Rcv A β :=
  { r with
    fromAddr := fromAddr
    messBuf :=
      { hdr := pkt.hdr
        data := w.recvfrom r.messBuf.data pkt.data } }

variable [DecidableEq A]

/- One datagram. -/
def recv
    (canOpen : β → Bool)
    (r : Rcv A β)
    (fromAddr : A)
    (pkt : Packet δ) : Rcv A β × List (Out A β) :=
  let r := r.recvfrom w fromAddr pkt
  if r.hassender = false then
    if r.messBuf.hdr.seq = 0 then
      r.accept canOpen
    else
      (r, [])
  else if r.current ≠ r.fromAddr then
    r.busy
  else if r.messBuf.hdr.seq = -1 then
    ({ r with hassender := false }, [])
  else if r.messBuf.hdr.seq = r.cAck + 1 then
    r.expected w
  else
    r.outOfOrder

/- One pass of the loop; nothing follows `exit`. -/
def step
    (canOpen : β → Bool)
    (r : Rcv A β) :
    Ev A δ → Rcv A β × List (Out A β)
  | .timer => if r.exited then (r, []) else r.timer
  | .recv fromAddr pkt =>
      if r.exited then (r, [])
      else r.recv w canOpen fromAddr pkt

/- The receiver process. -/
def machine
    (canOpen : β → Bool) :
    Machine (Rcv A β) (Ev A δ) (Out A β) where
  step := step w canOpen

end Rcv

end P1

end Cs2520
