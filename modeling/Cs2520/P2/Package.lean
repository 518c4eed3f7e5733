import Cs2520.Lib.Bytes
import Cs2520.Lib.Time
import Mathlib.Data.Fintype.Pi

/-
  Packets of the real-time stream
  (`p2/source/udp_stream_common.h`) and the time comparison
  that both of its processes use.

  Main declarations:
    * `Package`
    * `StreamPkt`
    * `StreamPkt.bytes_payload`
    * `StreamPkt.toBytes_ofBytes`
    * `Package.copyRecord`
    * `cmpTime`
    * `cmpTime_iff_micros`
-/

------------------------------------------------------------
-- Packets
------------------------------------------------------------

namespace Cs2520

namespace P2

open Lib

/- `MAX_DATA_LEN` -/
abbrev maxDataLen : Nat := 1350

/- `NACK_SIZE` -/
abbrev nackSize : Nat := 10

/- `RECORD_SIZE` -/
abbrev recordSize : Int := 100

/- `Report_Interval` -/
def reportInterval : Timeval :=
  { sec := 5, usec := 0 }

/-
  `struct package`. The types are 0 data, 1 ACKACK, 2 ACK,
  3 request, 4 permission, 5 decline, 6 retransmitted data.
-/
structure Package where
  type : Int
  seq : Int
  data : Block UInt8 maxDataLen
  ack : Int
  nack : Fin nackSize → Int
  sendTS : Timeval
  nSendTS : Timeval
  receiveTS1 : Timeval
  ackackTS : Timeval
  latencyWindow : Timeval
  windowSize : Int
  halfrtt : Timeval
deriving DecidableEq

/- A package in zeroed memory. -/
def Package.zeroed : Package where
  type := 0
  seq := 0
  data := Block.fill maxDataLen 0
  ack := 0
  nack := fun _ => 0
  sendTS := .zero
  nSendTS := .zero
  receiveTS1 := .zero
  ackackTS := .zero
  latencyWindow := .zero
  windowSize := 0
  halfrtt := .zero

/-
  `struct stream_pkt`, a record of the application. `pad` is
  the padding up to a multiple of four bytes.
-/
structure StreamPkt where
  seq : Int
  tsSec : Int
  tsUsec : Int
  data : Block UInt8 maxDataLen
  pad : Block UInt8 2
deriving DecidableEq

namespace StreamPkt

/- A record in zeroed memory. -/
def zeroed : StreamPkt where
  seq := 0
  tsSec := 0
  tsUsec := 0
  data := Block.fill maxDataLen 0
  pad := Block.fill 2 0

/- The 12 bytes before the data field. -/
def header
    (r : StreamPkt) : List UInt8 :=
  le32 r.seq ++ le32 r.tsSec ++ le32 r.tsUsec

/- The record as it lies in memory. -/
def toBytes
    (r : StreamPkt) : List UInt8 :=
  r.header ++ (r.data.bytes ++ r.pad.bytes)

@[simp] theorem length_header
    (r : StreamPkt) :
    r.header.length = 12 := by
  simp [header]

theorem length_toBytes
    (r : StreamPkt) :
    r.toBytes.length = maxDataLen + 14 := by
  simp only [toBytes, List.length_append, length_header,
    r.data.size, r.pad.size, maxDataLen]

/- What `memcpy` puts into a data field. -/
def payload
    (r : StreamPkt) : Block UInt8 maxDataLen :=
  Block.ofPrefix maxDataLen r.toBytes
    (by rw [r.length_toBytes]; omega)

/- It is the header and what fits of the data. -/
theorem bytes_payload
    (r : StreamPkt) :
    r.payload.bytes =
      r.header ++ r.data.bytes.take (maxDataLen - 12) := by
  have hFits :
      maxDataLen - 12 ≤ r.data.bytes.length := by
    rw [r.data.size]
    exact Nat.sub_le _ _
  calc
    r.payload.bytes =
        (r.header ++ (r.data.bytes ++ r.pad.bytes)).take
          (r.header.length + (maxDataLen - 12)) := by
      rw [length_header]
      rfl
    _ = r.header ++
          (r.data.bytes ++ r.pad.bytes).take
            (maxDataLen - 12) := List.take_length_add_append _
    _ = _ := by
      rw [List.take_append_of_le_length hFits]

/- The record that lies in some memory of its size. -/
def ofBytes
    (b : Block UInt8 (maxDataLen + 14)) : StreamPkt where
  seq := ofLe32 b.bytes
  tsSec := ofLe32 (b.bytes.drop 4)
  tsUsec := ofLe32 (b.bytes.drop 8)
  data :=
    Block.ofPrefix maxDataLen (b.bytes.drop 12)
      (by rw [List.length_drop, b.size]; omega)
  pad :=
    Block.ofPrefix 2 (b.bytes.drop (maxDataLen + 12))
      (by rw [List.length_drop, b.size]; omega)

theorem toBytes_ofBytes
    (b : Block UInt8 (maxDataLen + 14)) :
    (ofBytes b).toBytes = b.bytes := by
  have hSize := b.size
  have hPad :
      (b.bytes.drop (maxDataLen + 12)).length = 2 := by
    rw [List.length_drop, hSize]
    rfl
  have hAfter :
      b.bytes.drop (maxDataLen + 12) =
        (b.bytes.drop 12).drop maxDataLen := by
    rw [List.drop_drop, Nat.add_comm]
  have hRest :
      (b.bytes.drop 12).take maxDataLen ++
          (b.bytes.drop (maxDataLen + 12)).take 2 =
        b.bytes.drop 12 := by
    rw [List.take_of_length_le hPad.le, hAfter]
    exact List.take_append_drop maxDataLen (b.bytes.drop 12)
  have hHeader : (ofBytes b).header = b.bytes.take 12 := by
    have hFourth : 4 ≤ (b.bytes.drop 4).length := by
      rw [List.length_drop, hSize]
      omega
    have hEighth : 4 ≤ (b.bytes.drop 8).length := by
      rw [List.length_drop, hSize]
      omega
    rw [header, ofBytes, le32_ofLe32 (by omega),
      le32_ofLe32 hFourth, le32_ofLe32 hEighth,
      show 12 = 4 + 4 + 4 from rfl, List.take_add,
      List.take_add]
  rw [toBytes, hHeader]
  exact
    (congrArg (b.bytes.take 12 ++ ·) hRest).trans
      (List.take_append_drop 12 b.bytes)

end StreamPkt

/-
  `memcpy(rcv_pkt.data, &app_pkt, sizeof(app_pkt))`. The
  record is 14 bytes longer than the data field: it goes on
  over two bytes of padding, `ack`, `nack[0]` and `nack[1]`.
-/
def Package.copyRecord
    (p : Package)
    (r : StreamPkt) : Package :=
  { p with
    data := r.payload
    ack := ofLe32 (r.toBytes.drop (maxDataLen + 2))
    nack := fun i =>
      if i.1 = 0 then
        ofLe32 (r.toBytes.drop (maxDataLen + 6))
      else if i.1 = 1 then
        ofLe32 (r.toBytes.drop (maxDataLen + 10))
      else
        p.nack i }

end P2

end Cs2520

------------------------------------------------------------
-- Comparing Times
------------------------------------------------------------

namespace Cs2520

namespace P2

open Lib

/- `Cmp_time`: 1 if `t1 > t2`, -1 if `t1 < t2`, 0 if equal. -/
def cmpTime
    (t1 t2 : Timeval) : Int :=
  if t2.sec < t1.sec then 1
  else if t1.sec < t2.sec then -1
  else if t2.usec < t1.usec then 1
  else if t1.usec < t2.usec then -1
  else 0

/- Zeroed memory holds a time before every clock reading. -/
theorem cmpTime_zero_clock
    (now : Clock) :
    cmpTime .zero now.toTimeval = -1 := by
  have hAfter := now.after
  have hZero : Timeval.zero.sec = 0 := rfl
  rw [cmpTime, if_neg (by omega), if_pos (by omega)]

/- On normal times the comparison is that of microseconds. -/
theorem cmpTime_iff_micros
    {t1 t2 : Timeval}
    (h1 : t1.Normal)
    (h2 : t2.Normal) :
    -1 < cmpTime t1 t2 ↔ t2.micros ≤ t1.micros := by
  rw [h2.micros_le_iff h1, cmpTime]
  split
  · omega
  · split
    · omega
    · split
      · omega
      · split
        · omega
        · omega

end P2

end Cs2520
