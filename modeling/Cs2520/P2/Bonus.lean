import Cs2520.Lib.RecentLog
import Cs2520.P2.Stream

/-
  The video variant of the stream (`p2/source/bonus`).

  Its two programs are those of the stream but for
  `MAX_DATA_LEN` and three calls: the datagrams that the
  application sends and the player gets are plain data, and
  `memcpy` copies from the data field of `app_pkt`.

  A package of the variant is a `Package` of which the first
  `MAX_DATA_LEN` bytes of the data field count. The variant
  then runs as the stream does on records made of what its
  `memcpy` reads.

  Main declarations:
    * `AppDatagram`
    * `Srv`
    * `Srv.onApp`
    * `Srv.step`
    * `playerData`
    * `record`
    * `Srv.step_eq`
    * `reachable_stream`
    * `transparent_iff`
    * `short_datagram_filled`
-/

------------------------------------------------------------
-- The Server
------------------------------------------------------------

namespace Cs2520

namespace P2

namespace Bonus

open Lib Timeval

/- `MAX_DATA_LEN` of the variant -/
abbrev maxDataLen : Nat := 1316

/- `sizeof(app_pkt) - sizeof(app_pkt.data)` -/
abbrev overrun : Nat := 12

/- What the application sends. -/
structure AppDatagram where
  bytes : List UInt8
  pos : bytes ≠ []
  size : bytes.length ≤ maxDataLen
deriving DecidableEq

/-
  The server of the stream with the data of `app_pkt`, and
  the datagrams received from the application.
-/
structure Srv (A : Type) extends RtSrv A where
  appData : Block UInt8 maxDataLen
  datagrams : List AppDatagram

/-
  What a pass reacts to. A datagram of the application comes
  with the bytes that happen to lie behind `app_pkt`.
-/
structure Ev (A : Type) where
  app : Option (Option (AppDatagram × Block UInt8 overrun))
  rcv : Option (A × Package)
  clocks : RtSrv.Clocks

/- The data field of a package. -/
def dataField
    (appData : Block UInt8 maxDataLen) :
    Block UInt8 P2.maxDataLen where
  bytes := appData.bytes ++ List.replicate 34 0
  size := by
    rw [List.length_append, appData.size,
      List.length_replicate]

/-
  `memcpy(rcv_pkt.data, app_pkt.data, sizeof(app_pkt))`. Both
  fields are 12 bytes shorter: the copy reads what lies
  behind `app_pkt`, and goes on over `ack`, `nack[0]` and
  `nack[1]`.
-/
def copyData
    (p : Package)
    (appData : Block UInt8 maxDataLen)
    (behind : Block UInt8 overrun) : Package :=
  { p with
    data := dataField appData
    ack := ofLe32 behind.bytes
    nack := fun i =>
      if i.1 = 0 then ofLe32 (behind.bytes.drop 4)
      else if i.1 = 1 then ofLe32 (behind.bytes.drop 8)
      else p.nack i }

/- The memory that `memcpy` reads, as a record. -/
def record
    (appData : Block UInt8 maxDataLen)
    (behind : Block UInt8 overrun) : StreamPkt :=
  .ofBytes
    { bytes :=
        (dataField appData).bytes ++
          (List.replicate 2 0 ++ behind.bytes)
      size := by
        rw [List.length_append, (dataField appData).size,
          List.length_append, behind.size,
          List.length_replicate]
        rfl }

namespace Srv

variable {A : Type}

/- The state before the request loop. -/
def initial
    (addr : A)
    (rcvPkt : Package)
    (appData : Block UInt8 maxDataLen) : Srv A where
  toRtSrv := RtSrv.initial addr rcvPkt
  appData := appData
  datagrams := []

/-
  Case 1: send a datagram of the application and store it.
  It goes over the first bytes of `app_pkt.data`; how many
  they are is not kept.
-/
def onApp
    (c : RtSrv.Clocks)
    (s : Srv A)
    (x : AppDatagram)
    (behind : Block UInt8 overrun) :
    Srv A × List (A × Package) :=
  let appData := s.appData.write x.bytes
  let q := s.toRtSrv
  let q :=
    if q.sendCount = 0 then
      { q with
        startTS := c.start.toTimeval
        nextReportTime :=
          timeradd c.start.toTimeval reportInterval }
    else
      q
  let q :=
    { q with
      sendCount := q.sendCount + 1
      totalCount := q.totalCount + 1
      records := q.records ++ [record appData behind]
      rcvPkt :=
        { copyData q.rcvPkt appData behind with
          sendTS := c.send.toTimeval
          type := 0
          seq := q.seq
          nSendTS := { sec := -1, usec := -1 } } }
  let k := q.seq % q.windowSize
  let q :=
    { q with
      window := Function.update q.window k q.rcvPkt
      slide :=
        Function.update q.slide k
          (timeradd q.rcvPkt.sendTS q.latencyWindow)
      seq := q.seq + 1 }
  ({ toRtSrv := q
     appData := appData
     datagrams := s.datagrams ++ [x] },
    [q.sendPkt])

variable [DecidableEq A]

/- A pass of the main loop. -/
def mainPass
    (s : Srv A)
    (e : Ev A) : Srv A × List (A × Package) :=
  match e.app with
  | some none =>
      let q := { s.toRtSrv with exited := true }
      ({ s with toRtSrv := q }, [])
  | some (some (x, behind)) =>
      let (s, outApp) := s.onApp e.clocks x behind
      let (q, outRcv) := s.toRtSrv.rcvPart e.clocks e.rcv
      ({ s with toRtSrv := q.slideWindow e.clocks },
        outApp ++ outRcv)
  | none =>
      let (q, out) :=
        s.toRtSrv.mainPass
          { app := none, rcv := e.rcv, clocks := e.clocks }
      ({ s with toRtSrv := q }, out)

/- One pass; nothing follows an exit or an endless loop. -/
def step
    (s : Srv A)
    (e : Ev A) : Srv A × List (A × Package) :=
  if s.exited ∨ s.hung then
    (s, [])
  else if s.request then
    s.mainPass e
  else
    let (q, out) :=
      s.toRtSrv.waitPass
        { app := none, rcv := e.rcv, clocks := e.clocks }
    ({ s with toRtSrv := q }, out)

/- The server process. -/
def machine : Machine (Srv A) (Ev A) (A × Package) where
  step := step

end Srv

end Bonus

end P2

end Cs2520

------------------------------------------------------------
-- A Server of Records
------------------------------------------------------------

namespace Cs2520

namespace P2

namespace Bonus

open Lib

theorem toBytes_record
    (appData : Block UInt8 maxDataLen)
    (behind : Block UInt8 overrun) :
    (record appData behind).toBytes =
      (dataField appData).bytes ++
        (List.replicate 2 0 ++ behind.bytes) :=
  StreamPkt.toBytes_ofBytes _

/- The record starts with the data field. -/
theorem payload_record
    (appData : Block UInt8 maxDataLen)
    (behind : Block UInt8 overrun) :
    (record appData behind).payload = dataField appData := by
  apply Block.eq_of_bytes
  change (record appData behind).toBytes.take _ = _
  rw [toBytes_record]
  exact List.take_left' (dataField appData).size

/- What lies behind the data and their padding. -/
theorem drop_record
    (appData : Block UInt8 maxDataLen)
    (behind : Block UInt8 overrun)
    (k : Nat) :
    (record appData behind).toBytes.drop
        (P2.maxDataLen + (2 + k)) =
      behind.bytes.drop k := by
  have hSize := (dataField appData).size
  rw [toBytes_record, ← List.drop_drop,
    List.drop_left' hSize, ← List.drop_drop]
  rfl

/- The copy is that of the record. -/
theorem copyRecord_record
    (p : Package)
    (appData : Block UInt8 maxDataLen)
    (behind : Block UInt8 overrun) :
    p.copyRecord (record appData behind) =
      copyData p appData behind := by
  rw [Package.copyRecord, copyData, payload_record,
    drop_record appData behind 0,
    drop_record appData behind 4,
    drop_record appData behind 8]
  rfl

variable {A : Type}

/- The event as the server of the stream would see it. -/
def Ev.toStream
    (appData : Block UInt8 maxDataLen)
    (e : Ev A) : RtSrv.Ev A where
  app :=
    e.app.map
      (Option.map
        (fun x => record (appData.write x.1.bytes) x.2))
  rcv := e.rcv
  clocks := e.clocks

namespace Srv

theorem onApp_eq
    (c : RtSrv.Clocks)
    (s : Srv A)
    (x : AppDatagram)
    (behind : Block UInt8 overrun) :
    let r := record (s.appData.write x.bytes) behind
    s.onApp c x behind =
      ({ toRtSrv := (s.toRtSrv.onApp c r).1
         appData := s.appData.write x.bytes
         datagrams := s.datagrams ++ [x] },
        (s.toRtSrv.onApp c r).2) := by
  unfold onApp RtSrv.onApp
  dsimp only
  rw [copyRecord_record]
  rfl

variable [DecidableEq A]

/- Every pass is one of the stream on the record. -/
theorem step_eq
    (s : Srv A)
    (e : Ev A) :
    (s.step e).1.toRtSrv =
        (s.toRtSrv.step (e.toStream s.appData)).1 ∧
      (s.step e).2 =
        (s.toRtSrv.step (e.toStream s.appData)).2 := by
  unfold step RtSrv.step
  split
  · exact ⟨rfl, rfl⟩
  · split
    · rcases e with ⟨_ | _ | ⟨x, behind⟩, rcv, c⟩
      · exact ⟨rfl, rfl⟩
      · exact ⟨rfl, rfl⟩
      · simp only [mainPass, onApp_eq]
        exact ⟨rfl, rfl⟩
    · exact ⟨rfl, rfl⟩

end Srv

end Bonus

end P2

end Cs2520

------------------------------------------------------------
-- The Joined Variant
------------------------------------------------------------

namespace Cs2520

namespace P2

namespace Bonus

open Lib

variable {A : Type} [DecidableEq A]
variable (latency : Nat)
variable (srv client : A)

/- Both processes and all datagrams sent between them. -/
abbrev Net (A : Type) :=
  Link (Srv A) (RtRcv A) (Stream.Datagram A)
    (Stream.Datagram A)

/- The server, which hears the same as in the stream. -/
def server :
    Endpoint (Srv A) (Ev A) (A × Package)
      (Stream.Datagram A) (Stream.Datagram A) :=
  { Srv.machine with
    consumes := fun e =>
      (Stream.server srv client).consumes
        { app := none, rcv := e.rcv, clocks := e.clocks }
    emits := (Stream.server srv client).emits }

/- Both processes are at their start, nothing was sent. -/
structure Start
    (s : Net A) : Prop where
  server :
    ∃ addr pkt appData, s.left = Srv.initial addr pkt appData
  receiver : ∃ u, s.right = RtRcv.initial srv u
  toServer : s.toLeft = []
  toClient : s.toRight = []

/- The states of all runs, under any network. -/
abbrev Reachable
    (s : Net A) : Prop :=
  Link.Reachable (server srv client)
    (Stream.receiver latency client) (Start srv)
    (fun _ _ => True) s

/-
  `sendto(sock, send_pkt.data, sizeof(send_pkt.data))`, what
  the player gets for a record.
-/
def playerData
    (d : StreamPkt) : List UInt8 :=
  d.data.bytes.take maxDataLen

/- The stream that the variant runs as. -/
def toStream
    (s : Net A) : Stream.Net A where
  left := s.left.toRtSrv
  right := s.right
  toLeft := s.toLeft
  toRight := s.toRight

variable {latency srv client}

/- Every run of the variant is one of the stream. -/
theorem reachable_stream
    {s : Net A}
    (hReach : Reachable latency srv client s) :
    Stream.Reachable latency srv client (toStream s) := by
  apply hReach.simulates toStream
  · intro s hStart
    rcases hStart.server with ⟨addr, pkt, appData, hLeft⟩
    refine
      ⟨⟨addr, pkt, ?_⟩, hStart.receiver, hStart.toServer,
        hStart.toClient⟩
    change s.left.toRtSrv = _
    rw [hLeft]
    rfl
  · intro s a hEnabled _
    cases a with
    | inl e =>
        refine
          ⟨.inl (e.toStream s.left.appData), hEnabled,
            trivial, ?_⟩
        rcases s.left.step_eq e with ⟨hState, hOut⟩
        change
          ({ left := (s.left.step e).1.toRtSrv
             right := s.right
             toLeft := s.toLeft
             toRight :=
              s.toRight ++
                (s.left.step e).2.map
                  (Stream.fromServer srv) } :
            Stream.Net A) = _
        rw [hState, hOut]
        rfl
    | inr e => exact ⟨.inr e, hEnabled, trivial, rfl⟩

end Bonus

end P2

end Cs2520

------------------------------------------------------------
-- Datagrams and Records
------------------------------------------------------------

namespace Cs2520

namespace P2

namespace Bonus

open Lib

variable {A : Type}

/-
  The n-th record is made of the n-th datagram, written over
  what `app_pkt.data` held.
-/
structure Recorded
    (s : Srv A) : Prop where
  count : s.records.length = s.datagrams.length
  made :
    ∀ (k : Nat) (x : AppDatagram),
      s.datagrams[k]? = some x →
        ∃ (old : Block UInt8 maxDataLen)
          (behind : Block UInt8 overrun),
          s.records[k]? =
            some (record (old.write x.bytes) behind)

theorem Recorded.congr
    {s s' : Srv A}
    (h : Recorded s)
    (hRecords : s'.records = s.records)
    (hDatagrams : s'.datagrams = s.datagrams) :
    Recorded s' := by
  refine ⟨?_, ?_⟩
  · rw [hRecords, hDatagrams]
    exact h.count
  · rw [hRecords, hDatagrams]
    exact h.made

theorem Recorded.onApp
    {s : Srv A}
    (h : Recorded s)
    (c : RtSrv.Clocks)
    (x : AppDatagram)
    (behind : Block UInt8 overrun) :
    Recorded (s.onApp c x behind).1 := by
  have hRecords :
      (s.onApp c x behind).1.records =
        s.records ++
          [record (s.appData.write x.bytes) behind] := by
    unfold Srv.onApp
    dsimp only
    split
    · rfl
    · rfl
  have hDatagrams :
      (s.onApp c x behind).1.datagrams =
        s.datagrams ++ [x] := rfl
  refine ⟨?_, ?_⟩
  · rw [hRecords, hDatagrams, List.length_append,
      List.length_append, h.count]
    rfl
  · intro k y hDatagram
    rw [hDatagrams] at hDatagram
    rw [hRecords]
    rcases concat_entry hDatagram with
      ⟨rfl, rfl⟩ | ⟨hOld, hBefore⟩
    · rw [← h.count, List.getElem?_concat_length]
      exact ⟨s.appData, behind, rfl⟩
    · rw [← h.count] at hOld
      rw [List.getElem?_append_left hOld]
      exact h.made k y hBefore

variable [DecidableEq A]

theorem Recorded.step
    {s : Srv A}
    (h : Recorded s)
    (e : Ev A) :
    Recorded (s.step e).1 := by
  unfold Srv.step
  split
  · exact h
  · split
    · rcases e with ⟨_ | _ | ⟨x, behind⟩, rcv, c⟩
      · have hBooks :=
          (RtSrv.mainPass_quiet_frame s.toRtSrv rcv c).books
        exact h.congr (congrArg RtSrv.Books.records hBooks) rfl
      · exact h.congr rfl rfl
      · have hBooks :=
          ((RtSrv.rcvPart_frame c
              (s.onApp c x behind).1.toRtSrv rcv).trans
            (RtSrv.slideWindow_frame c _)).books
        exact
          (h.onApp c x behind).congr
            (congrArg RtSrv.Books.records hBooks) rfl
    · have hBooks :=
        (RtSrv.waitPass_books s.toRtSrv
          { app := none, rcv := e.rcv, clocks := e.clocks }).1
      exact h.congr (congrArg RtSrv.Books.records hBooks) rfl

variable {latency : Nat}
variable {srv client : A}

theorem recorded_of_reachable
    {s : Net A}
    (hReach : Reachable latency srv client s) :
    Recorded s.left := by
  apply hReach.invariant (fun s => Recorded s.left)
  · intro s hStart
    rcases hStart.server with ⟨addr, pkt, appData, hLeft⟩
    rw [hLeft]
    exact ⟨rfl, fun k x hNone => by cases hNone⟩
  · intro s a hInv _ _
    cases a with
    | inl e => exact hInv.step e
    | inr e => exact hInv

end Bonus

end P2

end Cs2520

------------------------------------------------------------
-- Transparency
------------------------------------------------------------

namespace Cs2520

namespace P2

namespace Bonus

open Lib

variable {A : Type} [DecidableEq A]
variable {latency : Nat}
variable {srv client : A}

/- Only the fields of a new data packet differ. -/
def SameHeader
    (p p' : Package) : Prop :=
  p' =
    { p with
      type := p'.type
      seq := p'.seq
      data := p'.data
      sendTS := p'.sendTS
      nSendTS := p'.nSendTS }

/- The player gets all of the buffer, whatever was written. -/
theorem take_dataField
    (old : Block UInt8 maxDataLen)
    (x : AppDatagram) :
    (dataField (old.write x.bytes)).bytes.take maxDataLen =
        x.bytes ↔
      x.bytes.length = maxDataLen := by
  have hAll :
      (dataField (old.write x.bytes)).bytes.take maxDataLen =
        (old.write x.bytes).bytes :=
    List.take_left' (old.write x.bytes).size
  rw [hAll]
  constructor
  · intro hSame
    rw [← hSame]
    exact (old.write x.bytes).size
  · intro hFull
    exact overlay_of_length_eq (by rw [hFull, old.size])

/- The packet of a datagram and the one it is made from. -/
omit [DecidableEq A] in
theorem sameHeader_onApp_iff
    (c : RtSrv.Clocks)
    (s : Srv A)
    (x : AppDatagram)
    (behind : Block UInt8 overrun)
    {m : A × Package}
    (hMem : m ∈ (s.onApp c x behind).2) :
    SameHeader s.rcvPkt m.2 ↔
      ofLe32 behind.bytes = s.rcvPkt.ack ∧
        ofLe32 (behind.bytes.drop 4) = s.rcvPkt.nack 0 ∧
        ofLe32 (behind.bytes.drop 8) = s.rcvPkt.nack 1 := by
  obtain ⟨p, hP⟩ :
      ∃ p, p =
        copyData s.rcvPkt (s.appData.write x.bytes) behind :=
    ⟨_, rfl⟩
  have hOut :
      m.2 =
        { p with
          sendTS := c.send.toTimeval
          type := 0
          seq := s.seq
          nSendTS := { sec := -1, usec := -1 } } := by
    unfold Srv.onApp at hMem
    dsimp only [RtSrv.sendPkt] at hMem
    rw [List.mem_singleton] at hMem
    rw [hMem, hP]
    dsimp only
    split
    · rfl
    · rfl
  have hFields :
      SameHeader s.rcvPkt m.2 ↔
        p.ack = s.rcvPkt.ack ∧ p.nack = s.rcvPkt.nack := by
    rw [SameHeader, hOut, hP]
    simp [copyData]
  rw [hFields, hP, copyData]
  dsimp only
  constructor
  · rintro ⟨hAck, hNack⟩
    exact ⟨hAck, congrFun hNack 0, congrFun hNack 1⟩
  · rintro ⟨hAck, hFirst, hSecond⟩
    refine ⟨hAck, ?_⟩
    funext i
    split
    · next hZero =>
        have hI : i = 0 := Fin.ext hZero
        rw [hI]
        exact hFirst
    · split
      · next hOne =>
          have hI : i = 1 := Fin.ext hOne
          rw [hI]
          exact hSecond
      · rfl

/-
  The player gets a datagram as it was exactly when it has
  `MAX_DATA_LEN` bytes, and a data packet keeps the header it
  is built in exactly when the bytes behind `app_pkt` are
  those of the current `ack`, `nack[0]` and `nack[1]`.
-/
theorem transparent_iff
    {s : Net A}
    (hReach : Reachable latency srv client s) :
    (∀ d ∈ s.right.delivered,
        1 ≤ d.seq ∧
          ∃ x,
            s.left.datagrams[(d.seq - 1).toNat]? = some x ∧
              (playerData d = x.bytes ↔
                x.bytes.length = maxDataLen)) ∧
      ∀ c x behind,
        ∀ m ∈ (s.left.onApp c x behind).2,
          (SameHeader s.left.rcvPkt m.2 ↔
            ofLe32 behind.bytes = s.left.rcvPkt.ack ∧
              ofLe32 (behind.bytes.drop 4) =
                s.left.rcvPkt.nack 0 ∧
              ofLe32 (behind.bytes.drop 8) =
                s.left.rcvPkt.nack 1) := by
  refine ⟨?_, ?_⟩
  · intro d hMem
    rcases Stream.delivered_payload
        (reachable_stream hReach) hMem with
      ⟨hPos, r, hRecord, hData⟩
    have hRecorded := recorded_of_reachable hReach
    have hLt := (List.getElem?_eq_some_iff.mp hRecord).1
    have hCount :
        (d.seq - 1).toNat < s.left.datagrams.length := by
      rw [← hRecorded.count]
      exact hLt
    have hDatagram := List.getElem?_eq_getElem hCount
    rcases hRecorded.made _ _ hDatagram with
      ⟨old, behind, hMade⟩
    refine ⟨hPos, _, hDatagram, ?_⟩
    have hSame :
        r = record (old.write _) behind :=
      Option.some.inj (hRecord.symm.trans hMade)
    rw [playerData, hData, hSame, payload_record]
    exact take_dataField old _
  · intro c x behind m hMem
    exact sameHeader_onApp_iff c s.left x behind hMem

/- A datagram of the single byte "h". -/
def shortDatagram : AppDatagram where
  bytes := [104]
  pos := by decide
  size := by decide

/- The server is `false` and the client `true`. -/
def begun : Net Bool where
  left :=
    Srv.initial false .zeroed (Block.fill maxDataLen 0)
  right := RtRcv.initial false RtRcv.zeroedMemory
  toLeft := []
  toRight := []

/- The packet that carries it, with zeros behind `app_pkt`. -/
def shortPkt : Package :=
  { copyData Stream.permissionPkt
      ((Block.fill maxDataLen 0).write shortDatagram.bytes)
      (Block.fill overrun 0) with
    type := 0
    seq := 1
    nSendTS := { sec := -1, usec := -1 } }

/- A pass of the receiver. -/
def hears
    (packet : Option Package)
    (sec : Nat) : Ev Bool ⊕ RtRcv.Ev Bool :=
  .inr
    { packet := packet.map (fun pkt => (false, pkt))
      clocks := .ofSeconds sec }

/- The datagram is sent, stored and delivered. -/
def delivered : Net Bool :=
  Link.runActs (server false true) (Stream.receiver 10 true)
    begun
    [hears none 0,
      .inl
        { app := none
          rcv := some (true, Stream.requestPkt)
          clocks := .ofSeconds 0 },
      hears (some Stream.permissionPkt) 0,
      .inl
        { app :=
            some (some (shortDatagram, Block.fill overrun 0))
          rcv := none
          clocks := .ofSeconds 0 },
      hears (some shortPkt) 0, hears none 1]

theorem reachable_delivered :
    Reachable 10 false true delivered :=
  Link.reachable_runActs
    (.start
      ⟨⟨_, _, _, rfl⟩, ⟨_, rfl⟩, rfl, rfl⟩)
    (by decide +kernel)

theorem transparent_short :
    (∀ d ∈ delivered.right.delivered,
        1 ≤ d.seq ∧
          ∃ x,
            delivered.left.datagrams[(d.seq - 1).toNat]? =
                some x ∧
              (playerData d = x.bytes ↔
                x.bytes.length = maxDataLen)) ∧
      ∀ c x behind,
        ∀ m ∈ (delivered.left.onApp c x behind).2,
          (SameHeader delivered.left.rcvPkt m.2 ↔
            ofLe32 behind.bytes =
                delivered.left.rcvPkt.ack ∧
              ofLe32 (behind.bytes.drop 4) =
                delivered.left.rcvPkt.nack 0 ∧
              ofLe32 (behind.bytes.drop 8) =
                delivered.left.rcvPkt.nack 1) :=
  transparent_iff reachable_delivered

/- The player gets 1316 bytes for the one byte that was sent. -/
theorem short_datagram_filled :
    ¬ ∀ s : Net Bool,
      Reachable 10 false true s →
        ∀ d ∈ s.right.delivered,
          ∀ x,
            s.left.datagrams[(d.seq - 1).toNat]? = some x →
              playerData d = x.bytes := by
  intro hAll
  have hSame :=
    hAll delivered reachable_delivered
      { StreamPkt.zeroed with
        seq := 1
        tsSec := 2
        data := shortPkt.data }
      (by decide +kernel) shortDatagram (by decide +kernel)
  revert hSame
  decide +kernel

end Bonus

end P2

end Cs2520
