import Cs2520.P2.Addressing
import Cs2520.P2.Stream

/-
  The handshake of the real-time stream.

  The server grants the first request it hears with a burst
  of permissions and goes on to its main loop, which answers
  requests of other clients only. The client asks until it
  hears a permission. If the whole burst is lost, no request
  is answered any more.

  Main declarations:
    * `RtSrv.mainPass_no_permission`
    * `RtRcv.step_waiting`
    * `LosesGrants`
    * `no_further_permission`
    * `never_granted_again`
    * `burst_lost`
-/

------------------------------------------------------------
-- Both Loops
------------------------------------------------------------

namespace Cs2520

namespace P2

namespace RtSrv

open Lib

variable {A : Type} [DecidableEq A]

/- Only a decline or packets for an ACK are answers. -/
theorem rcvPart_no_permission
    (c : Clocks)
    (s : RtSrv A)
    (rcv : Option (A × Package)) :
    ∀ m ∈ (s.rcvPart c rcv).2, m.2.type ≠ 4 := by
  cases rcv with
  | none =>
      intro m hMem
      cases hMem
  | some packet =>
      intro m hMem
      rcases (onRcv_out c s packet.1 packet.2 m hMem).2 with
        hDecline | ⟨_, hAckack | hCopies⟩
      · omega
      · omega
      · rcases hCopies with ⟨_, _, _, _, hPkt⟩
        have hData : m.2.type = 6 := by rw [hPkt]
        omega

/- The main loop sends no permissions. -/
theorem mainPass_no_permission
    (s : RtSrv A)
    (e : Ev A) :
    ∀ m ∈ (s.mainPass e).2, m.2.type ≠ 4 := by
  intro m hMem
  rcases mem_mainPass_out hMem with hRecord | ⟨q, hRcv⟩
  · omega
  · exact rcvPart_no_permission e.clocks q e.rcv m hRcv

/- Once a client is recorded, nothing is granted. -/
theorem step_no_permission
    {s : RtSrv A}
    (hRecorded : s.request = true)
    (e : Ev A) :
    (step s e).1.request = true ∧
      ∀ m ∈ (step s e).2, m.2.type ≠ 4 := by
  have hKept : Accepted s.currentAddr (step s e).1 :=
    Accepted.step ⟨hRecorded, rfl⟩ e
  refine ⟨hKept.1, ?_⟩
  unfold step
  split
  · intro m hMem
    cases hMem
  · exact mainPass_no_permission s e

end RtSrv

namespace RtRcv

open Lib

variable {A : Type}
variable {latency : Nat}

/- Only a permission ends the connection loop. -/
theorem Connecting.waiting
    {r : RtRcv A}
    (hWaiting : r.getpermission = false)
    {c : Clocks}
    {packet : Option (A × Package)}
    {res : RtRcv A × List (Out A)}
    (hRes : Connecting latency c r packet res)
    (hNone :
      ∀ a pkt, packet = some (a, pkt) → pkt.type ≠ 4) :
    res.1.getpermission = false := by
  cases hRes with
  | asked => exact hWaiting
  | declined _ => exact hWaiting
  | permitted hType => exact absurd hType (hNone _ _ rfl)
  | ignored _ _ => exact hWaiting

theorem step_waiting
    {r : RtRcv A}
    (hWaiting : r.getpermission = false)
    {e : Ev A}
    (hNone :
      ∀ a pkt, e.packet = some (a, pkt) → pkt.type ≠ 4) :
    (step latency r e).1.getpermission = false := by
  have hStep := step_stepping latency r e
  generalize step latency r e = res at hStep ⊢
  cases hStep with
  | exited _ => exact hWaiting
  | connecting _ _ hRes => exact hRes.waiting hWaiting hNone
  | receiving _ hConnected _ =>
      cases hWaiting.symm.trans hConnected

end RtRcv

end P2

end Cs2520

------------------------------------------------------------
-- After the Burst
------------------------------------------------------------

namespace Cs2520

namespace P2

namespace Stream

open Lib

variable {A : Type} [DecidableEq A]
variable {latency : Nat}
variable {srv client : A}

/- The pass hears none of the permissions in `lost`. -/
def LosesGrants
    (client : A)
    (lost : List (Datagram A)) : Act A → Prop
  | .inl _ => True
  | .inr e =>
      ∀ m, e.packet = some m →
        m.2.type = 4 → toClient client m ∉ lost

/-
  The server has granted its only request, every permission
  is one of `lost`, and the client has heard none.
-/
structure Granted
    (lost : List (Datagram A))
    (s : Net A) : Prop where
  recorded : s.left.request = true
  waiting : s.right.getpermission = false
  grants : ∀ m ∈ s.toRight, m.pkt.type = 4 → m ∈ lost

theorem Granted.act
    {lost : List (Datagram A)}
    {s : Net A}
    (h : Granted lost s)
    {act : Act A}
    (hEnabled :
      Link.Enabled (server srv client)
        (receiver latency client) s act)
    (hLost : LosesGrants client lost act) :
    Granted lost
      (s.act (server srv client) (receiver latency client)
        act) := by
  cases act with
  | inl e =>
      rcases RtSrv.step_no_permission h.recorded e with
        ⟨hRecorded, hNone⟩
      refine ⟨hRecorded, h.waiting, ?_⟩
      intro m hMem hType
      rcases List.mem_append.mp hMem with hOld | hNew
      · exact h.grants m hOld hType
      · rcases List.mem_map.mp hNew with ⟨o, hOut, hTo⟩
        subst hTo
        exact absurd hType (hNone o hOut)
  | inr e =>
      refine ⟨h.recorded, ?_, h.grants⟩
      apply RtRcv.step_waiting h.waiting
      intro a pkt hPacket hType
      exact
        hLost (a, pkt) hPacket hType
          (h.grants _ (sent_of_packet hEnabled hPacket) hType)

/- In no continuation the client gets a permission. -/
theorem no_further_permission
    {lost : List (Datagram A)}
    {s : Net A}
    (h : Granted lost s)
    {acts : List (Act A)}
    (hAllowed :
      Link.Allowed (server srv client)
        (receiver latency client) (fun _ _ => True) s acts)
    (hLost : ∀ act ∈ acts, LosesGrants client lost act) :
    Granted lost
      (Link.runActs (server srv client)
        (receiver latency client) s acts) := by
  induction acts generalizing s with
  | nil => exact h
  | cons act acts ih =>
      apply ih
      · exact h.act hAllowed.1.1 (hLost act List.mem_cons_self)
      · exact hAllowed.2
      · intro act' hMem
        exact hLost act' (List.mem_cons_of_mem _ hMem)

/-
  From any state in which a client is recorded and has no
  permission: no request of this client is answered by one,
  and when the permissions under way are lost it never gets
  one, however long it goes on asking.
-/
theorem never_granted_again
    {s : Net A}
    (hRecorded : s.left.request = true)
    (hWaiting : s.right.getpermission = false) :
    (∀ e : RtSrv.Ev A,
      ∀ pkt : Package,
        e.rcv = some (s.left.currentAddr, pkt) →
          pkt.type = 3 →
            ∀ m ∈ (RtSrv.step s.left e).2,
              m.2.type ≠ 4) ∧
      ∀ acts : List (Act A),
        Link.Allowed (server srv client)
            (receiver latency client) (fun _ _ => True) s
            acts →
          (∀ act ∈ acts,
            LosesGrants client s.toRight act) →
            (Link.runActs (server srv client)
              (receiver latency client) s
              acts).right.getpermission = false := by
  constructor
  · intro e _ _ _
    exact (RtSrv.step_no_permission hRecorded e).2
  · intro acts hAllowed hLost
    have hGranted : Granted s.toRight s :=
      ⟨hRecorded, hWaiting, fun m hMem _ => hMem⟩
    exact
      (no_further_permission hGranted hAllowed
        hLost).waiting

/- The next request, a second later. -/
def secondRequest : Package :=
  { requestPkt with
    sendTS := (Clock.ofSeconds 1).toTimeval }

/- The client asks, is granted, and hears nothing. -/
def unheard : List (Act Bool) :=
  [hears none 0,
    .inl
      { app := none
        rcv := some (true, requestPkt)
        clocks := .ofSeconds 0 },
    hears none 1]

/- The server hears the next request. -/
def asksAgain : RtSrv.Ev Bool where
  app := none
  rcv := some (true, secondRequest)
  clocks := .ofSeconds 1

theorem never_granted_unheard :
    asksAgain.rcv = some (true, secondRequest) ∧
      ∀ m ∈ (RtSrv.step
          (Link.runActs (server false true)
            (receiver 10 true) begun unheard).left
          asksAgain).2,
        m.2.type ≠ 4 := by
  refine ⟨rfl, ?_⟩
  exact
    (@never_granted_again Bool _ 10 false true _
      (by decide +kernel) (by decide +kernel)).1
      asksAgain secondRequest (by decide +kernel) rfl

/-
  The ten permissions are lost. The next request of the
  client reaches the server and is not answered.
-/
theorem burst_lost :
    ¬ ∀ s : Net Bool,
      Reachable 10 false true s →
        s.left.request = true →
          s.left.currentAddr = true →
            s.right.getpermission = false →
              ∀ e : RtSrv.Ev Bool,
                ∀ pkt : Package,
                  e.rcv = some (true, pkt) →
                    pkt.type = 3 →
                      Link.Enabled (server false true)
                          (receiver 10 true) s (.inl e) →
                        ∃ m ∈ (RtSrv.step s.left e).2,
                          m.1 = true ∧ m.2.type = 4 := by
  intro hAll
  have hAnswer :=
    hAll
      (Link.runActs (server false true) (receiver 10 true)
        begun unheard)
      (Link.reachable_runActs (.start start_begun)
        (by decide +kernel))
      (by decide +kernel) (by decide +kernel)
      (by decide +kernel) asksAgain secondRequest rfl rfl
      (by decide +kernel)
  rcases hAnswer with ⟨m, hMem, _, hType⟩
  exact
    (RtSrv.step_no_permission (by decide +kernel) asksAgain).2
      m hMem hType

end Stream

end P2

end Cs2520
