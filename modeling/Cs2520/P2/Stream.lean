import Cs2520.P2.Serving
import Cs2520.P2.Window

/-
  The real-time sender and one receiver, joined by a network
  that may lose, duplicate, delay and reorder.

  `Sender` says what the server has ever sent: each number is
  given to one record, and everything sent under that number,
  from a slot of the window or not, is the same packet. What
  the receiver stores and delivers is then such a packet.

  Main declarations:
    * `server`
    * `receiver`
    * `Sender`
    * `Sender.step`
    * `Inv.act`
    * `stream_safe`
    * `delivered_payload`
    * `data_kept_iff_shifted`
    * `data_lost`
-/

------------------------------------------------------------
-- The Joined System
------------------------------------------------------------

namespace Cs2520

namespace P2

namespace Stream

open Lib

variable {A : Type} [DecidableEq A]
variable (latency : Nat)
variable (srv client : A)

structure Datagram (A : Type) where
  src : A
  dest : A
  pkt : Package
deriving DecidableEq

/- Both processes and all datagrams sent between them. -/
abbrev Net (A : Type) :=
  Link (RtSrv A) (RtRcv A) (Datagram A) (Datagram A)

/- An input to either process. -/
abbrev Act (A : Type) := RtSrv.Ev A ⊕ RtRcv.Ev A

/- The datagram that carries an output of the server. -/
def fromServer
    (m : A × Package) : Datagram A where
  src := srv
  dest := m.1
  pkt := m.2

/- The datagram that gives the receiver a packet. -/
def toClient
    (m : A × Package) : Datagram A where
  src := m.1
  dest := client
  pkt := m.2

/-
  The server. What it hears from the client was sent by the
  client; other addresses may send it anything.
-/
def server :
    Endpoint (RtSrv A) (RtSrv.Ev A) (A × Package)
      (Datagram A) (Datagram A) :=
  { RtSrv.machine with
    consumes := fun e =>
      match e.rcv with
      | none => none
      | some (fromAddr, pkt) =>
          if fromAddr = client then
            some { src := client, dest := srv, pkt := pkt }
          else
            none
    emits := List.map (fromServer srv) }

/- The receiver, which only hears the server. -/
def receiver :
    Endpoint (RtRcv A) (RtRcv.Ev A) (RtRcv.Out A)
      (Datagram A) (Datagram A) :=
  { RtRcv.machine latency with
    consumes := fun e => e.packet.map (toClient client)
    emits :=
      List.filterMap
        (fun o =>
          match o with
          | .sendto dest pkt =>
              some { src := client, dest := dest, pkt := pkt }
          | .deliver _ => none) }

/- Both processes are at their start, nothing was sent. -/
structure Start
    (s : Net A) : Prop where
  server : ∃ addr pkt, s.left = RtSrv.initial addr pkt
  receiver : ∃ u, s.right = RtRcv.initial srv u
  toServer : s.toLeft = []
  toClient : s.toRight = []

/- The states of all runs, under any network. -/
abbrev Reachable
    (s : Net A) : Prop :=
  Link.Reachable (server srv client)
    (receiver latency client) (Start srv)
    (fun _ _ => True) s

/- A record, sent for the first time or again. -/
def IsData
    (p : Package) : Prop :=
  p.type = 0 ∨ p.type = 6

variable {latency srv client}

/- The client only gets packets that were sent to it. -/
theorem sent_of_packet
    {s : Net A}
    {e : RtRcv.Ev A}
    (hEnabled :
      Link.Enabled (server srv client)
        (receiver latency client) s (.inr e))
    {a : A}
    {pkt : Package}
    (hPacket : e.packet = some (a, pkt)) :
    toClient client (a, pkt) ∈ s.toRight := by
  apply hEnabled
  change _ ∈ e.packet.map (toClient client)
  rw [hPacket]
  rfl

/- What the server gets from the client, the client sent. -/
theorem sent_of_rcv
    {s : Net A}
    {e : RtSrv.Ev A}
    (hEnabled :
      Link.Enabled (server srv client)
        (receiver latency client) s (.inl e))
    {pkt : Package}
    (hRcv : e.rcv = some (client, pkt)) :
    { src := client, dest := srv, pkt := pkt } ∈
      s.toLeft := by
  apply hEnabled
  simp only [server, hRcv, if_true, Option.mem_def]

end Stream

end P2

end Cs2520

------------------------------------------------------------
-- A Run with One Record
------------------------------------------------------------

namespace Cs2520

namespace P2

namespace Stream

open Lib

/- The client's request, and the permission it gets. -/
def requestPkt : Package :=
  { Package.zeroed with
    type := 3
    sendTS := (Clock.ofSeconds 0).toTimeval
    latencyWindow := latencyWindow 10
    windowSize := windowSize 10 }

def permissionPkt : Package :=
  { requestPkt with
    type := 4
    receiveTS1 := (Clock.ofSeconds 0).toTimeval }

/- A first record whose data are all zero. -/
def firstRecord : StreamPkt :=
  { StreamPkt.zeroed with seq := 1 }

def firstPkt : Package :=
  { permissionPkt.copyRecord firstRecord with
    type := 0
    seq := 1
    nSendTS := { sec := -1, usec := -1 } }

def secondRecord : StreamPkt :=
  { StreamPkt.zeroed with seq := 2 }

def secondPkt : Package :=
  { firstPkt.copyRecord secondRecord with seq := 2 }

/- The server is `false` and the client `true`. -/
def begun : Net Bool where
  left := RtSrv.initial false .zeroed
  right := RtRcv.initial false RtRcv.zeroedMemory
  toLeft := []
  toRight := []

theorem start_begun : Start false begun :=
  ⟨⟨_, _, rfl⟩, ⟨_, rfl⟩, rfl, rfl⟩

/- A pass of the receiver. -/
def hears
    (packet : Option Package)
    (sec : Nat) : Act Bool :=
  .inr
    { packet := packet.map (fun pkt => (false, pkt))
      clocks := .ofSeconds sec }

/-
  Two records are sent. The second one arrives first, and
  once more after the first one; both are delivered.
-/
def twoRecords : List (Act Bool) :=
  [hears none 0,
    .inl
      { app := none
        rcv := some (true, requestPkt)
        clocks := .ofSeconds 0 },
    hears (some permissionPkt) 0,
    .inl
      { app := some (some firstRecord)
        rcv := none
        clocks := .ofSeconds 0 },
    .inl
      { app := some (some secondRecord)
        rcv := none
        clocks := .ofSeconds 0 },
    hears (some secondPkt) 0, hears (some firstPkt) 0,
    hears (some secondPkt) 0, hears none 1]

/- The state after them. -/
def delivered : Net Bool :=
  Link.runActs (server false true) (receiver 10 true) begun
    twoRecords

theorem reachable_delivered :
    Reachable 10 false true delivered :=
  Link.reachable_runActs (.start start_begun)
    (by decide +kernel)

end Stream

end P2

end Cs2520

------------------------------------------------------------
-- What the Server Has Sent
------------------------------------------------------------

namespace Cs2520

namespace P2

namespace Stream

open Lib

variable {A : Type}

/- The packet agrees with one of type 0 that was sent. -/
def Genuine
    (sent : List (Datagram A))
    (p : Package) : Prop :=
  ∃ m ∈ sent,
    m.pkt.type = 0 ∧
      m.pkt.seq = p.seq ∧
      m.pkt.data = p.data ∧
      m.pkt.sendTS = p.sendTS

/-
  Packets of type 0 and records correspond by number, resent
  packets are genuine, and so are the slots that a NACK can
  reach.
-/
structure Sender
    (b : RtSrv.Books)
    (sent : List (Datagram A)) : Prop where
  count : b.seq = b.records.length + 1
  numbered :
    ∀ m ∈ sent,
      m.pkt.type = 0 →
        1 ≤ m.pkt.seq ∧
          m.pkt.seq < b.seq ∧
          ∃ r,
            b.records[(m.pkt.seq - 1).toNat]? = some r ∧
              m.pkt.data = r.payload
  once :
    ∀ m ∈ sent,
      ∀ m' ∈ sent,
        m.pkt.type = 0 →
          m'.pkt.type = 0 →
            m.pkt.seq = m'.pkt.seq → m.pkt = m'.pkt
  genuine : ∀ m ∈ sent, IsData m.pkt → Genuine sent m.pkt
  slots :
    ∀ k,
      b.slide k = Timeval.zero ∨ Genuine sent (b.window k)

theorem Genuine.mono
    {sent sent' : List (Datagram A)}
    {p : Package}
    (h : Genuine sent p)
    (hSub : sent ⊆ sent') :
    Genuine sent' p := by
  rcases h with ⟨m, hMem, hSame⟩
  exact ⟨m, hSub hMem, hSame⟩

theorem sender_initial
    (addr : A)
    (pkt : Package) :
    Sender (RtSrv.initial addr pkt).books
      ([] : List (Datagram A)) where
  count := rfl
  numbered := by
    intro m hMem
    cases hMem
  once := by
    intro m hMem
    cases hMem
  genuine := by
    intro m hMem
    cases hMem
  slots := fun k => Or.inl rfl

/- A resent packet agrees with one that was sent. -/
theorem Sender.genuine_of_copies
    {b : RtSrv.Books}
    {sent : List (Datagram A)}
    (h : Sender b sent)
    {p : Package}
    (hCopies : RtSrv.Copies b p) :
    p.type = 6 ∧ Genuine sent p := by
  rcases hCopies with ⟨k, now, resent, hTime, rfl⟩
  refine ⟨rfl, ?_⟩
  rcases h.slots k with hZero | hGenuine
  · -- a slot never written has expired
    rw [hZero, cmpTime_zero_clock] at hTime
    exact absurd hTime (Int.lt_irrefl _)
  · exact hGenuine

/- Answers to datagrams add no packet of type 0. -/
theorem Sender.answers
    {b : RtSrv.Books}
    {sent out : List (Datagram A)}
    (h : Sender b sent)
    (hOut :
      ∀ m ∈ out,
        ¬ IsData m.pkt ∨ RtSrv.Copies b m.pkt) :
    Sender b (sent ++ out) := by
  have hOld :
      ∀ m ∈ sent ++ out, m.pkt.type = 0 → m ∈ sent := by
    intro m hMem hType
    rcases List.mem_append.mp hMem with hSent | hNew
    · exact hSent
    · rcases hOut m hNew with hOther | hCopies
      · exact absurd (Or.inl hType) hOther
      · have hResent := (h.genuine_of_copies hCopies).1
        omega
  refine
    { count := h.count
      numbered := ?_
      once := ?_
      genuine := ?_
      slots := ?_ }
  · intro m hMem hType
    exact h.numbered m (hOld m hMem hType) hType
  · intro m hMem m' hMem' hType hType'
    exact
      h.once m (hOld m hMem hType) m'
        (hOld m' hMem' hType') hType hType'
  · intro m hMem hData
    apply Genuine.mono ?_ (List.subset_append_left _ _)
    rcases List.mem_append.mp hMem with hSent | hNew
    · exact h.genuine m hSent hData
    · rcases hOut m hNew with hOther | hCopies
      · exact absurd hData hOther
      · exact (h.genuine_of_copies hCopies).2
  · intro k
    rcases h.slots k with hZero | hGenuine
    · exact Or.inl hZero
    · right
      exact hGenuine.mono (List.subset_append_left _ _)

end Stream

end P2

end Cs2520

------------------------------------------------------------
-- A New Record
------------------------------------------------------------

namespace Cs2520

namespace P2

namespace Stream

open Lib

variable {A : Type}
variable {b : RtSrv.Books}
variable {sent : List (Datagram A)}

variable {r : StreamPkt}
variable {new : Datagram A}

/- The new packet is numbered like its record. -/
theorem Sender.numbered_new
    (h : Sender b sent)
    (hNew : RtSrv.Carries b r new.pkt) :
    1 ≤ new.pkt.seq ∧
      new.pkt.seq < b.seq + 1 ∧
      (b.records ++ [r])[(new.pkt.seq - 1).toNat]? =
        some r := by
  have hCount := h.count
  have hIndex :
      (new.pkt.seq - 1).toNat = b.records.length := by
    rw [hNew.number, hCount, Int.add_sub_cancel,
      Int.toNat_natCast]
  rw [hIndex, hNew.number]
  refine ⟨by omega, Int.lt_succ b.seq, ?_⟩
  exact List.getElem?_concat_length

/- Older packets keep their records. -/
theorem Sender.numbered_old
    (h : Sender b sent)
    (r : StreamPkt)
    {m : Datagram A}
    (hMem : m ∈ sent)
    (hType : m.pkt.type = 0) :
    1 ≤ m.pkt.seq ∧
      m.pkt.seq < b.seq + 1 ∧
      ∃ r',
        (b.records ++ [r])[(m.pkt.seq - 1).toNat]? =
            some r' ∧
          m.pkt.data = r'.payload := by
  rcases h.numbered m hMem hType with
    ⟨hPos, hLt, r', hRecord, hPayload⟩
  rcases List.getElem?_eq_some_iff.mp hRecord with
    ⟨hIndex, _⟩
  refine
    ⟨hPos, hLt.trans (Int.lt_succ b.seq), r', ?_, hPayload⟩
  rw [List.getElem?_append_left hIndex]
  exact hRecord

/- Its number is new among the packets of type 0. -/
theorem Sender.ne_new
    (h : Sender b sent)
    (hNew : RtSrv.Carries b r new.pkt)
    {m : Datagram A}
    (hMem : m ∈ sent)
    (hType : m.pkt.type = 0) :
    m.pkt.seq ≠ new.pkt.seq := by
  rw [hNew.number]
  exact (h.numbered m hMem hType).2.1.ne

theorem Sender.once_enter
    (h : Sender b sent)
    (hNew : RtSrv.Carries b r new.pkt)
    {m m' : Datagram A}
    (hMem : m ∈ sent ++ [new])
    (hMem' : m' ∈ sent ++ [new])
    (hType : m.pkt.type = 0)
    (hType' : m'.pkt.type = 0)
    (hSame : m.pkt.seq = m'.pkt.seq) :
    m.pkt = m'.pkt := by
  rcases List.mem_append.mp hMem with hOld | hLast
  · rcases List.mem_append.mp hMem' with hOld' | hLast'
    · exact h.once m hOld m' hOld' hType hType' hSame
    · exfalso
      apply h.ne_new hNew hOld hType
      rw [hSame, List.mem_singleton.mp hLast']
  · rcases List.mem_append.mp hMem' with hOld' | hLast'
    · exfalso
      apply h.ne_new hNew hOld' hType'
      rw [← hSame, List.mem_singleton.mp hLast]
    · rw [List.mem_singleton.mp hLast,
        List.mem_singleton.mp hLast']

theorem genuine_new
    (hNew : RtSrv.Carries b r new.pkt) :
    Genuine (sent ++ [new]) new.pkt := by
  refine ⟨new, ?_, hNew.type, rfl, rfl, rfl⟩
  exact List.mem_append_right _ List.mem_cons_self

/- One slot gets the new packet, the others keep theirs. -/
theorem Sender.slots_enter
    (h : Sender b sent)
    (hNew : RtSrv.Carries b r new.pkt)
    (j : Int)
    (expires : Timeval)
    (k : Int) :
    Function.update b.slide j expires k = Timeval.zero ∨
      Genuine (sent ++ [new])
        (Function.update b.window j new.pkt k) := by
  by_cases hSame : k = j
  · subst hSame
    right
    rw [Function.update_self]
    exact genuine_new hNew
  · rw [Function.update_of_ne hSame,
      Function.update_of_ne hSame]
    rcases h.slots k with hZero | hOld
    · exact Or.inl hZero
    · right
      exact hOld.mono (List.subset_append_left _ _)

/- A record becomes the next packet of type 0. -/
theorem Sender.enter
    (h : Sender b sent)
    (hNew : RtSrv.Carries b r new.pkt)
    (j : Int)
    (expires : Timeval) :
    Sender (b.enter r new.pkt j expires) (sent ++ [new])
    where
  count := by
    change b.seq + 1 = ((b.records ++ [r]).length : Int) + 1
    rw [List.length_append, h.count]
    rfl
  numbered := by
    intro m hMem hType
    rcases List.mem_append.mp hMem with hOld | hLast
    · exact h.numbered_old r hOld hType
    · rw [List.mem_singleton.mp hLast]
      rcases h.numbered_new hNew with ⟨hPos, hLt, hRecord⟩
      exact ⟨hPos, hLt, r, hRecord, hNew.data⟩
  once := by
    intro m hMem m' hMem' hType hType' hSame
    exact
      h.once_enter hNew hMem hMem' hType hType' hSame
  genuine := by
    intro m hMem hData
    rcases List.mem_append.mp hMem with hOld | hLast
    · apply (h.genuine m hOld hData).mono
      exact List.subset_append_left _ _
    · rw [List.mem_singleton.mp hLast]
      exact genuine_new hNew
  slots := h.slots_enter hNew j expires

end Stream

end P2

end Cs2520

------------------------------------------------------------
-- Passes of the Server
------------------------------------------------------------

namespace Cs2520

namespace P2

namespace Stream

open Lib

variable {A : Type} [DecidableEq A]

/- The client port sends no record for the first time. -/
theorem Sender.rcvPart
    (srv : A)
    {s : RtSrv A}
    {sent : List (Datagram A)}
    (h : Sender s.books sent)
    (c : RtSrv.Clocks)
    (rcv : Option (A × Package)) :
    Sender s.books
      (sent ++ (s.rcvPart c rcv).2.map (fromServer srv)) := by
  apply h.answers
  intro m hMem
  rcases List.mem_map.mp hMem with ⟨out, hOut, rfl⟩
  cases rcv with
  | none => cases hOut
  | some packet =>
      rcases
        (RtSrv.onRcv_out c s packet.1 packet.2 out hOut).2
        with hDecline | ⟨_, hAckack | hCopies⟩
      · left
        change ¬ IsData out.2
        unfold IsData
        omega
      · left
        change ¬ IsData out.2
        unfold IsData
        omega
      · exact Or.inr hCopies

/- A record goes out, then the client port is served. -/
theorem Sender.record
    (srv : A)
    {s : RtSrv A}
    {sent : List (Datagram A)}
    (h : Sender s.books sent)
    (r : StreamPkt)
    (rcv : Option (A × Package))
    (c : RtSrv.Clocks) :
    Sender (s.onApp c r).1.books
      (sent ++
        ((s.onApp c r).2 ++
          ((s.onApp c r).1.rcvPart c rcv).2).map
            (fromServer srv)) := by
  have hApp :
      Sender (s.onApp c r).1.books
        (sent ++ (s.onApp c r).2.map (fromServer srv)) := by
    have hNew :
        RtSrv.Carries s.books r
          (fromServer srv
            (s.rcvAddr, (s.onApp c r).1.rcvPkt)).pkt :=
      RtSrv.onApp_carries c s r
    rcases RtSrv.onApp_books c s r with
      ⟨j, expires, hBooks⟩
    rw [RtSrv.onApp_out, hBooks]
    exact h.enter hNew j expires
  rw [List.map_append, ← List.append_assoc]
  exact hApp.rcvPart srv c rcv

theorem Sender.mainPass
    (srv : A)
    {s : RtSrv A}
    {sent : List (Datagram A)}
    (h : Sender s.books sent)
    (e : RtSrv.Ev A) :
    Sender (s.mainPass e).1.books
      (sent ++ (s.mainPass e).2.map (fromServer srv)) := by
  rcases e with ⟨_ | _ | r, rcv, c⟩
  · rw [RtSrv.mainPass_out_quiet,
      (RtSrv.mainPass_quiet_frame s rcv c).books]
    exact h.rcvPart srv c rcv
  · rw [RtSrv.mainPass, List.map_nil, List.append_nil]
    exact h
  · have hRest :=
      (RtSrv.rcvPart_frame c (s.onApp c r).1 rcv).trans
        (RtSrv.slideWindow_frame c _)
    have hBooks :
        (s.mainPass
            { app := some (some r)
              rcv := rcv
              clocks := c }).1.books =
          (s.onApp c r).1.books := hRest.books
    rw [RtSrv.mainPass_out_record, hBooks]
    exact h.record srv r rcv c

/- Every pass of the server. -/
theorem Sender.step
    (srv : A)
    {s : RtSrv A}
    {sent : List (Datagram A)}
    (h : Sender s.books sent)
    (e : RtSrv.Ev A) :
    Sender (s.step e).1.books
      (sent ++ (s.step e).2.map (fromServer srv)) := by
  unfold RtSrv.step
  split
  · rw [List.map_nil, List.append_nil]
    exact h
  · split
    · exact h.mainPass srv e
    · rcases RtSrv.waitPass_books s e with ⟨hBooks, hOut⟩
      rw [hBooks]
      apply h.answers
      intro m hMem
      rcases List.mem_map.mp hMem with ⟨out, hSent, rfl⟩
      have hType := hOut out hSent
      left
      change ¬ IsData out.2
      unfold IsData
      omega

end Stream

end P2

end Cs2520

------------------------------------------------------------
-- The Invariant
------------------------------------------------------------

namespace Cs2520

namespace P2

namespace Stream

open Lib

variable {A : Type} [DecidableEq A]
variable {latency : Nat}
variable {srv client : A}

/- What is stored and delivered was sent by the server. -/
structure Inv
    (latency : Nat)
    (s : Net A) : Prop where
  left : Sender s.left.books s.toRight
  right :
    RtRcv.Inv latency (Genuine s.toRight) s.right.progress

omit [DecidableEq A] in
theorem Start.inv
    {s : Net A}
    (h : Start srv s) :
    Inv latency s := by
  rcases h.server with ⟨addr, pkt, hLeft⟩
  rcases h.receiver with ⟨u, hRight⟩
  refine ⟨?_, ?_⟩
  · rw [hLeft, h.toClient]
    exact sender_initial addr pkt
  · rw [hRight]
    exact RtRcv.inv_initial latency _ srv u

/- The network only delivers what the server sent. -/
theorem Inv.act
    {s : Net A}
    (h : Inv latency s)
    {act : Act A}
    (hEnabled :
      Link.Enabled (server srv client)
        (receiver latency client) s act) :
    Inv latency
      (s.act (server srv client)
        (receiver latency client) act) := by
  cases act with
  | inl e =>
      refine ⟨h.left.step srv e, ?_⟩
      apply h.right.mono
      intro p hGenuine
      exact hGenuine.mono (List.subset_append_left _ _)
  | inr e =>
      refine ⟨h.left, ?_⟩
      apply h.right.step
      intro a pkt hPacket hType _
      exact
        h.left.genuine _ (sent_of_packet hEnabled hPacket)
          hType

theorem inv_of_reachable
    {s : Net A}
    (hReach : Reachable latency srv client s) :
    Inv latency s :=
  hReach.invariant (Inv latency)
    (fun _ hStart => hStart.inv)
    (fun _ _ hInv hEnabled _ => hInv.act hEnabled)

/- All data under one number agree. -/
omit [DecidableEq A] in
theorem Sender.agree
    {b : RtSrv.Books}
    {sent : List (Datagram A)}
    (h : Sender b sent)
    {m m' : Datagram A}
    (hMem : m ∈ sent)
    (hMem' : m' ∈ sent)
    (hData : IsData m.pkt)
    (hData' : IsData m'.pkt)
    (hSeq : m.pkt.seq = m'.pkt.seq) :
    m.pkt.data = m'.pkt.data ∧
      m.pkt.sendTS = m'.pkt.sendTS := by
  rcases h.genuine m hMem hData with
    ⟨o, hO, hType, hNum, hBytes, hTime⟩
  rcases h.genuine m' hMem' hData' with
    ⟨o', hO', hType', hNum', hBytes', hTime'⟩
  have hSame : o.pkt = o'.pkt :=
    h.once o hO o' hO' hType hType'
      (hNum.trans (hSeq.trans hNum'.symm))
  refine ⟨?_, ?_⟩
  · rw [← hBytes, hSame, hBytes']
  · rw [← hTime, hSame, hTime']

/-
  Packets with the same number carry the same data and the
  same time. Delivered numbers increase, and each record
  delivered carries the data sent under its number.
-/
theorem stream_safe
    {s : Net A}
    (hReach : Reachable latency srv client s) :
    (∀ m ∈ s.toRight,
      ∀ m' ∈ s.toRight,
        IsData m.pkt →
          IsData m'.pkt →
            m.pkt.seq = m'.pkt.seq →
              m.pkt.data = m'.pkt.data ∧
                m.pkt.sendTS = m'.pkt.sendTS) ∧
      s.right.delivered.Pairwise
        (fun d d' => d.seq < d'.seq) ∧
      ∀ d ∈ s.right.delivered,
        ∃ m ∈ s.toRight,
          m.pkt.type = 0 ∧
            m.pkt.seq = d.seq ∧
            m.pkt.data = d.data := by
  have hInv := inv_of_reachable hReach
  refine ⟨?_, hInv.right.ordered, ?_⟩
  · intro m hMem m' hMem' hData hData' hSeq
    exact
      hInv.left.agree hMem hMem' hData hData' hSeq
  · intro d hMem
    rcases hInv.right.genuine d hMem with
      ⟨p, ⟨m, hSent, hType, hSeq, hData, _⟩, hNum, hBytes⟩
    exact
      ⟨m, hSent, hType, hSeq.trans hNum,
        hData.trans hBytes⟩

theorem safe_delivered :
    delivered.right.delivered.map StreamPkt.seq = [1, 2] ∧
      (∀ m ∈ delivered.toRight,
        ∀ m' ∈ delivered.toRight,
          IsData m.pkt →
            IsData m'.pkt →
              m.pkt.seq = m'.pkt.seq →
                m.pkt.data = m'.pkt.data ∧
                  m.pkt.sendTS = m'.pkt.sendTS) ∧
      delivered.right.delivered.Pairwise
        (fun d d' => d.seq < d'.seq) ∧
      ∀ d ∈ delivered.right.delivered,
        ∃ m ∈ delivered.toRight,
          m.pkt.type = 0 ∧
            m.pkt.seq = d.seq ∧
            m.pkt.data = d.data :=
  ⟨by decide +kernel, stream_safe reachable_delivered⟩

end Stream

end P2

end Cs2520

------------------------------------------------------------
-- The Data of the Application
------------------------------------------------------------

namespace Cs2520

namespace P2

namespace Stream

open Lib

variable {A : Type} [DecidableEq A]
variable {latency : Nat}
variable {srv client : A}

/- The data are the record's own header, then themselves. -/
def Shifted
    (r : StreamPkt) : Prop :=
  r.data.bytes =
    r.header ++ r.data.bytes.take (maxDataLen - 12)

theorem payload_eq_data_iff
    (r : StreamPkt) :
    r.payload = r.data ↔ Shifted r := by
  rw [Shifted, ← r.bytes_payload]
  constructor
  · intro hSame
    rw [hSame]
  · intro hBytes
    exact Block.eq_of_bytes hBytes.symm

/- What is delivered under number `n` is the n-th payload. -/
theorem delivered_payload
    {s : Net A}
    (hReach : Reachable latency srv client s)
    {d : StreamPkt}
    (hMem : d ∈ s.right.delivered) :
    1 ≤ d.seq ∧
      ∃ r,
        s.left.records[(d.seq - 1).toNat]? = some r ∧
          d.data = r.payload := by
  have hInv := inv_of_reachable hReach
  rcases hInv.right.genuine d hMem with
    ⟨p, ⟨m, hSent, hType, hSeq, hData, _⟩, hNum, hBytes⟩
  rcases hInv.left.numbered m hSent hType with
    ⟨hPos, _, r, hRecord, hPayload⟩
  have hSame : m.pkt.seq = d.seq := hSeq.trans hNum
  rw [hSame] at hPos hRecord
  refine ⟨hPos, r, hRecord, ?_⟩
  rw [← hBytes, ← hData, hPayload]

/-
  What is delivered under number `n` comes from the n-th
  record, and has its data exactly when they are shifted.
-/
theorem data_kept_iff_shifted
    {s : Net A}
    (hReach : Reachable latency srv client s) :
    ∀ d ∈ s.right.delivered,
      1 ≤ d.seq ∧
        ∃ r,
          s.left.records[(d.seq - 1).toNat]? = some r ∧
            (d.data = r.data ↔ Shifted r) := by
  intro d hMem
  rcases delivered_payload hReach hMem with
    ⟨hPos, r, hRecord, hData⟩
  refine ⟨hPos, r, hRecord, ?_⟩
  rw [hData]
  exact payload_eq_data_iff r

/- The record as the receiver delivers it. -/
def firstDelivered : StreamPkt :=
  { firstRecord with
    tsSec := 2
    data := firstRecord.payload }

theorem data_kept_first :
    1 ≤ firstDelivered.seq ∧
      ∃ r,
        delivered.left.records[(firstDelivered.seq -
            1).toNat]? = some r ∧
          (firstDelivered.data = r.data ↔ Shifted r) :=
  data_kept_iff_shifted reachable_delivered firstDelivered
    (by decide +kernel)

/- The zeros of the first record come with its header. -/
theorem data_lost :
    ¬ ∀ s : Net Bool,
      Reachable 10 false true s →
        ∀ d ∈ s.right.delivered,
          ∀ r,
            s.left.records[(d.seq - 1).toNat]? = some r →
              d.data = r.data := by
  intro hAll
  have hSame :=
    hAll delivered reachable_delivered firstDelivered
      (by decide +kernel) firstRecord (by decide +kernel)
  revert hSame
  decide +kernel

end Stream

end P2

end Cs2520
