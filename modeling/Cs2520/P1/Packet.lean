import Mathlib.Data.Fintype.Pi
import Mathlib.Tactic.Common

/-
  Packets of the file transfer (`p1/source/net_include.h`)
  and what its two processes do with the payload part of a
  message buffer.

  Main declarations:
    * `Uhdr`
    * `Packet`
    * `Wire`
    * `Wire.opaquePayload`
-/

------------------------------------------------------------
-- Constants and Headers
------------------------------------------------------------

namespace Cs2520

namespace P1

/- `WINDOW_SIZE` -/
abbrev windowSize : Int := 100

/- `NACK_SIZE` -/
abbrev nackSize : Nat := 3

/- `MAX_MESS_LEN` -/
abbrev maxMessLen : Nat := 1400

/- `sizeof(uhdr)`: five ints, padding and a `timeval` -/
abbrev uhdrSize : Nat := 40

/- The room for `data_buf` in a message. -/
abbrev dataSize : Nat := maxMessLen - uhdrSize

/- `sizeof(mess_buf) - sizeof(uhdr) - 1`, one chunk. -/
abbrev chunkSize : Nat := maxMessLen - uhdrSize - 1

/- `sizeof(char *)` -/
abbrev pointerSize : Nat := 8

/-
  `uhdr` without its timestamp `ts`, which neither process
  writes or reads.
-/
structure Uhdr where
  cack : Int
  nack : Fin nackSize → Int
  seq : Int
deriving DecidableEq

/- A header and a payload of any kind. -/
structure Packet (δ : Type) where
  hdr : Uhdr
  data : δ
deriving DecidableEq

/- No packet is missing: every entry is -1. -/
def noNack : Fin nackSize → Int :=
  fun _ => -1

/- A file of `k` full chunks, each its own position. -/
def chunksOf
    (k : Nat) : Nat → Nat × Int :=
  fun i => (i, if i < k then chunkSize else 0)

/- Packet `seq` of such a file, or its name as packet 0. -/
def chunkPacket
    (seq : Nat) : Packet Nat :=
  { hdr := { cack := 0, nack := noNack, seq := seq }
    data := seq - 1 }

end P1

end Cs2520

------------------------------------------------------------
-- Payload Handling
------------------------------------------------------------

namespace Cs2520

namespace P1

/-
  The operations on the payload part of a message buffer.
  `ρ` is what one `read` call returns, `δ` the payload of a
  datagram, `β` the contents of `data_buf`.
-/
structure Wire (ρ δ β : Type) where
  /- `read` into `data_buf`, then `data_buf[bytes] = '\0'` -/
  read : β → ρ → β
  /- the value that `read` returns -/
  bytes : ρ → Int
  /- the first `strlen(data_buf)` bytes -/
  text : β → δ
  /- all of `data_buf` -/
  whole : β → δ
  /- `recvfrom` over the old contents of `data_buf` -/
  recvfrom : β → δ → β
  /- `bzero(data_buf, sizeof(data_buf))` -/
  bzero : β → β

/-
  Payloads as unstructured values: a packet carries the
  value that was read, whichever way it is sent.
-/
def Wire.opaquePayload
    (α : Type) : Wire (α × Int) α α where
  read := fun _ r => r.1
  bytes := fun r => r.2
  text := id
  whole := id
  recvfrom := fun _ d => d
  bzero := id

end P1

end Cs2520
