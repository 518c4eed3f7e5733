import Cs2520.P2.RtSrv

/-
  What the passes of the real-time sender change and send.

  Only a record of the application changes the window. All
  other packets are answers to the datagram that was handled
  last, and go to where it came from.

  Main declarations:
    * `books`
    * `client`
    * `mainPass_client`
    * `Copies`
    * `onApp_out`
    * `onApp_carries`
    * `onApp_books`
    * `mem_mainPass_out`
    * `onRcv_replied`
    * `onRcv_out`
    * `slideWindow_frame`
-/

------------------------------------------------------------
-- What Is Kept
------------------------------------------------------------

namespace Cs2520

namespace P2

namespace RtSrv

open Lib

variable {A : Type}

/- The numbers given out and the window. -/
structure Books where
  seq : Int
  records : List StreamPkt
  window : Int → Package
  slide : Int → Timeval

/- The accepted client. -/
structure Client (A : Type) where
  request : Bool
  currentAddr : A

def books
    (s : RtSrv A) : Books where
  seq := s.seq
  records := s.records
  window := s.window
  slide := s.slide

def client
    (s : RtSrv A) : Client A where
  request := s.request
  currentAddr := s.currentAddr

/- Neither the books nor the client change. -/
structure Frame
    (s q : RtSrv A) : Prop where
  books : q.books = s.books
  client : q.client = s.client

theorem Frame.trans
    {s q t : RtSrv A}
    (h : Frame s q)
    (h' : Frame q t) :
    Frame s t where
  books := h'.books.trans h.books
  client := h'.client.trans h.client

theorem Frame.of_rfl
    (s : RtSrv A) :
    Frame s s :=
  ⟨rfl, rfl⟩

/-
  Only the packet at hand, where it came from and what is
  read off it or counted change.
-/
def Replied
    (s q : RtSrv A) : Prop :=
  ∃ rcvAddr rcvPkt halfrtt now totalCount,
    q =
      { s with
        rcvAddr := rcvAddr
        rcvPkt := rcvPkt
        halfrtt := halfrtt
        now := now
        totalCount := totalCount }

theorem Replied.of_rfl
    (s : RtSrv A) :
    Replied s s :=
  ⟨_, _, _, _, _, rfl⟩

theorem Replied.trans
    {s q t : RtSrv A}
    (h : Replied s q)
    (h' : Replied q t) :
    Replied s t := by
  rcases h with ⟨_, _, _, _, _, rfl⟩
  rcases h' with ⟨_, _, _, _, _, rfl⟩
  exact ⟨_, _, _, _, _, rfl⟩

theorem Replied.frame
    {s q : RtSrv A}
    (h : Replied s q) :
    Frame s q := by
  rcases h with ⟨_, _, _, _, _, rfl⟩
  exact ⟨rfl, rfl⟩

theorem readNow_replied
    (c : Clocks)
    (i : Fin nackSize)
    (s : RtSrv A) :
    Replied s (s.readNow c i) :=
  ⟨_, _, _, _, _, rfl⟩

theorem reload_replied
    (c : Clocks)
    (i : Fin nackSize)
    (lossSeq : Int)
    (s : RtSrv A) :
    Replied s (s.reload c i lossSeq) :=
  ⟨_, _, _, _, _, rfl⟩

theorem resend_replied
    (c : Clocks)
    (entries : List (Fin nackSize))
    (s : RtSrv A) :
    Replied s (resend c entries s).1 := by
  induction entries generalizing s with
  | nil => exact .of_rfl s
  | cons i rest ih =>
      have hNow := readNow_replied c i s
      have hReload :=
        hNow.trans
          (reload_replied c i (s.rcvPkt.nack i)
            (s.readNow c i))
      rw [resend]
      dsimp only
      split
      · split
        · exact hReload.trans (ih _)
        · exact hNow.trans (ih _)
      · exact ih s

theorem fillAckack_replied
    (c : Clocks)
    (s : RtSrv A) :
    Replied s (s.fillAckack c) :=
  ⟨_, _, _, _, _, rfl⟩

theorem onAck_eq
    (c : Clocks)
    (s : RtSrv A) :
    s.onAck c =
      ((resend c (List.finRange nackSize)
          (s.fillAckack c)).1,
        (s.fillAckack c).sendPkt ::
          (resend c (List.finRange nackSize)
            (s.fillAckack c)).2) := rfl

theorem onAck_replied
    (c : Clocks)
    (s : RtSrv A) :
    Replied s (s.onAck c).1 := by
  rw [onAck_eq]
  exact
    (fillAckack_replied c s).trans (resend_replied c _ _)

theorem recvfrom_replied
    (s : RtSrv A)
    (fromAddr : A)
    (pkt : Package) :
    Replied s (s.recvfrom fromAddr pkt) :=
  ⟨_, _, _, _, _, rfl⟩

theorem onRcv_replied
    [DecidableEq A]
    (c : Clocks)
    (s : RtSrv A)
    (fromAddr : A)
    (pkt : Package) :
    Replied s (s.onRcv c fromAddr pkt).1 := by
  have hFrom := recvfrom_replied s fromAddr pkt
  unfold onRcv
  dsimp only
  split
  · exact hFrom.trans (onAck_replied c _)
  · split
    · split
      · exact hFrom.trans ⟨_, _, _, _, _, rfl⟩
      · exact hFrom
    · exact hFrom

theorem rcvPart_replied
    [DecidableEq A]
    (c : Clocks)
    (s : RtSrv A)
    (rcv : Option (A × Package)) :
    Replied s (s.rcvPart c rcv).1 := by
  cases rcv with
  | none => exact .of_rfl s
  | some packet =>
      exact onRcv_replied c s packet.1 packet.2

theorem slideLoop_frame
    (n : Nat)
    (s : RtSrv A) :
    Frame s (slideLoop n s) := by
  induction n generalizing s with
  | zero => exact ⟨rfl, rfl⟩
  | succ n ih =>
      have hHead : Frame s { s with head := s.head + 1 } :=
        ⟨rfl, rfl⟩
      rw [slideLoop]
      split
      · exact hHead.trans (ih _)
      · exact .of_rfl s

theorem slideWindow_frame
    (c : Clocks)
    (s : RtSrv A) :
    Frame s (s.slideWindow c) := by
  have hNow : Frame s { s with now := c.slide.toTimeval } :=
    ⟨rfl, rfl⟩
  unfold slideWindow
  dsimp only
  split
  · exact hNow.trans (slideLoop_frame _ _)
  · exact hNow

theorem report_frame
    (c : Clocks)
    (s : RtSrv A) :
    Frame s (s.report c) :=
  ⟨rfl, rfl⟩

theorem rcvPart_frame
    [DecidableEq A]
    (c : Clocks)
    (s : RtSrv A)
    (rcv : Option (A × Package)) :
    Frame s (s.rcvPart c rcv).1 :=
  (rcvPart_replied c s rcv).frame

theorem onApp_client
    (c : Clocks)
    (s : RtSrv A)
    (r : StreamPkt) :
    (s.onApp c r).1.client = s.client := by
  unfold onApp
  dsimp only
  split
  · rfl
  · rfl

/- A pass without input idles, or reports and slides. -/
theorem mainPass_timeout
    [DecidableEq A]
    (s : RtSrv A)
    (c : Clocks) :
    let res :=
      s.mainPass { app := none, rcv := none, clocks := c }
    res = (s, []) ∨ res = ((s.report c).slideWindow c, []) := by
  unfold mainPass
  dsimp only
  split
  · exact Or.inl rfl
  · exact Or.inr rfl

/- A pass without a record keeps the books as well. -/
theorem mainPass_quiet_frame
    [DecidableEq A]
    (s : RtSrv A)
    (rcv : Option (A × Package))
    (c : Clocks) :
    Frame s
      (s.mainPass
        { app := none, rcv := rcv, clocks := c }).1 := by
  cases rcv with
  | none =>
      rcases mainPass_timeout s c with hIdle | hReport
      · rw [hIdle]
        exact .of_rfl s
      · rw [hReport]
        exact
          (report_frame c s).trans (slideWindow_frame c _)
  | some packet =>
      exact
        (rcvPart_frame c s (some packet)).trans
          (slideWindow_frame c _)

/- The main loop never changes the accepted client. -/
theorem mainPass_client
    [DecidableEq A]
    (s : RtSrv A)
    (e : Ev A) :
    (s.mainPass e).1.client = s.client := by
  rcases e with ⟨_ | _ | r, rcv, c⟩
  · exact (mainPass_quiet_frame s rcv c).client
  · rfl
  · have hRest :=
      (rcvPart_frame c (s.onApp c r).1 rcv).trans
        (slideWindow_frame c _)
    exact hRest.client.trans (onApp_client c s r)

end RtSrv

end P2

end Cs2520

------------------------------------------------------------
-- What Is Sent
------------------------------------------------------------

namespace Cs2520

namespace P2

namespace RtSrv

open Lib

variable {A : Type}

/- A packet resent from a slot that has not expired. -/
def Copies
    (b : Books)
    (p : Package) : Prop :=
  ∃ k, ∃ now resent : Clock,
    -1 < cmpTime (b.slide k) now.toTimeval ∧
      p =
        { b.window k with
          type := 6
          nSendTS := resent.toTimeval }

/- Resent packets go to where the ACK came from. -/
theorem resend_out
    (c : Clocks)
    (entries : List (Fin nackSize))
    (s : RtSrv A) :
    ∀ m ∈ (resend c entries s).2,
      m.1 = s.rcvAddr ∧ Copies s.books m.2 := by
  induction entries generalizing s with
  | nil =>
      intro m hMem
      cases hMem
  | cons i rest ih =>
      rw [resend]
      dsimp only
      split
      · split
        · next hNow =>
            intro m hMem
            rcases List.mem_cons.mp hMem with rfl | hRest
            · exact
                ⟨rfl, _, c.nack i, c.resend i, hNow, rfl⟩
            · exact ih (reload c i _ (readNow c i s)) m hRest
        · exact ih (readNow c i s)
      · exact ih s

/-
  The answers to a packet of a receiver. Only an ACK is
  answered by anything but a decline.
-/
theorem onRcv_out
    [DecidableEq A]
    (c : Clocks)
    (s : RtSrv A)
    (fromAddr : A)
    (pkt : Package) :
    ∀ m ∈ (s.onRcv c fromAddr pkt).2,
      m.1 = fromAddr ∧
        (m.2.type = 5 ∨
          (pkt.type = 2 ∧
            (m.2.type = 1 ∨ Copies s.books m.2))) := by
  unfold onRcv
  dsimp only
  split
  · next hAck =>
      intro m hMem
      rw [onAck_eq] at hMem
      rcases List.mem_cons.mp hMem with rfl | hRest
      · exact ⟨rfl, Or.inr ⟨hAck, Or.inl rfl⟩⟩
      · rcases resend_out c _ _ m hRest with
          ⟨hDest, hCopies⟩
        exact ⟨hDest, Or.inr ⟨hAck, Or.inr hCopies⟩⟩
  · split
    · split
      · intro m hMem
        rw [List.mem_singleton.mp hMem]
        exact ⟨rfl, Or.inl rfl⟩
      · intro m hMem
        cases hMem
    · intro m hMem
      cases hMem

/- Every ACK is answered by an ACKACK. -/
theorem onRcv_ackack
    [DecidableEq A]
    (c : Clocks)
    (s : RtSrv A)
    (fromAddr : A)
    {pkt : Package}
    (hAck : pkt.type = 2) :
    ∃ p,
      p.type = 1 ∧
        (fromAddr, p) ∈ (s.onRcv c fromAddr pkt).2 := by
  have hOn :
      s.onRcv c fromAddr pkt =
        (s.recvfrom fromAddr pkt).onAck c := if_pos hAck
  rw [hOn, onAck_eq]
  exact ⟨_, rfl, List.mem_cons_self⟩

/- A record goes to where the last datagram came from. -/
theorem onApp_out
    (c : Clocks)
    (s : RtSrv A)
    (r : StreamPkt) :
    (s.onApp c r).2 =
      [(s.rcvAddr, (s.onApp c r).1.rcvPkt)] := by
  unfold onApp
  dsimp only [sendPkt]
  split
  · rfl
  · rfl

/- Without a record only the client port is served. -/
theorem mainPass_out_quiet
    [DecidableEq A]
    (s : RtSrv A)
    (rcv : Option (A × Package))
    (c : Clocks) :
    (s.mainPass { app := none, rcv := rcv, clocks := c }).2 =
      (s.rcvPart c rcv).2 := by
  cases rcv with
  | none =>
      rcases mainPass_timeout s c with hIdle | hReport
      · rw [hIdle]
        rfl
      · rw [hReport]
        rfl
  | some packet => rfl

/- A record is sent before the client port is served. -/
theorem mainPass_out_record
    [DecidableEq A]
    (s : RtSrv A)
    (r : StreamPkt)
    (rcv : Option (A × Package))
    (c : Clocks) :
    (s.mainPass
        { app := some (some r), rcv := rcv, clocks := c }).2 =
      (s.onApp c r).2 ++
        ((s.onApp c r).1.rcvPart c rcv).2 := rfl

/- Enter a record and the packet it is sent in. -/
def Books.enter
    (b : Books)
    (r : StreamPkt)
    (pkt : Package)
    (k : Int)
    (expires : Timeval) : Books where
  seq := b.seq + 1
  records := b.records ++ [r]
  window := Function.update b.window k pkt
  slide := Function.update b.slide k expires

/- The packet carries the record under the next number. -/
structure Carries
    (b : Books)
    (r : StreamPkt)
    (pkt : Package) : Prop where
  type : pkt.type = 0
  number : pkt.seq = b.seq
  data : pkt.data = r.payload

theorem onApp_carries
    (c : Clocks)
    (s : RtSrv A)
    (r : StreamPkt) :
    Carries s.books r (s.onApp c r).1.rcvPkt := by
  unfold onApp
  dsimp only
  split
  · exact ⟨rfl, rfl, rfl⟩
  · exact ⟨rfl, rfl, rfl⟩

theorem onApp_books
    (c : Clocks)
    (s : RtSrv A)
    (r : StreamPkt) :
    ∃ k expires,
      (s.onApp c r).1.books =
        s.books.enter r (s.onApp c r).1.rcvPkt k expires
    := by
  unfold onApp
  dsimp only
  split
  · exact ⟨_, _, rfl⟩
  · exact ⟨_, _, rfl⟩

/- A pass sends a new record and answers to the client. -/
theorem mem_mainPass_out
    [DecidableEq A]
    {s : RtSrv A}
    {e : Ev A}
    {m : A × Package}
    (hMem : m ∈ (s.mainPass e).2) :
    m.2.type = 0 ∨
      ∃ q : RtSrv A, m ∈ (q.rcvPart e.clocks e.rcv).2 := by
  rcases e with ⟨_ | _ | r, rcv, c⟩
  · rw [mainPass_out_quiet] at hMem
    exact Or.inr ⟨s, hMem⟩
  · cases hMem
  · rw [mainPass_out_record] at hMem
    rcases List.mem_append.mp hMem with hApp | hRcv
    · rw [onApp_out] at hApp
      rw [List.mem_singleton.mp hApp]
      exact Or.inl (onApp_carries c s r).type
    · exact Or.inr ⟨_, hRcv⟩

/- Granting a request does not touch the window. -/
theorem waitPass_books
    (s : RtSrv A)
    (e : Ev A) :
    (s.waitPass e).1.books = s.books ∧
      ∀ m ∈ (s.waitPass e).2, m.2.type = 4 := by
  unfold waitPass
  split
  · constructor
    · rfl
    · intro m hMem
      cases hMem
  · dsimp only
    split
    · constructor
      · rfl
      · intro m hMem
        rw [List.eq_of_mem_replicate hMem]
        rfl
    · constructor
      · rfl
      · intro m hMem
        cases hMem

end RtSrv

end P2

end Cs2520
