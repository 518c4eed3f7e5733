import Cs2520.P4.Multicast

/-
  Packets for any one member of a group: every daemon on the
  way hands them to its cheapest neighbor, and they stay at
  the first member.

  Main declarations:
    * `Converged.acast_step`
    * `Network.Seeks`
    * `Network.delivered_any`
-/

------------------------------------------------------------
-- Any One of a Group
------------------------------------------------------------

namespace Cs2520

namespace P4

open Lib

/- The two kinds of group addresses are apart. -/
theorem not_isMcastAddr
    {dest : NodeID}
    (hAny : isAcastAddr dest = true) :
    isMcastAddr dest = false := by
  rw [isAcastAddr, Bool.and_eq_true, bne_iff_ne,
    decide_eq_true_eq] at hAny
  rw [isMcastAddr, hAny.1]
  simp [hAny.2]

namespace Daemon

variable (d : Daemon)
variable (sender : NodeID)

/- At a member the packet stays. -/
theorem bestNextHop_member
    {states : List GroupState}
    (hMember :
      ∃ g ∈ states,
        g.active = true ∧ g.nodeNid = d.myAddress)
    (best : Option NodeID) :
    d.bestNextHop sender states best = none := by
  induction states generalizing best with
  | nil =>
      rcases hMember with ⟨g, hMem, _⟩
      cases hMem
  | cons g states ih =>
      rw [bestNextHop]
      split
      · rfl
      · next hNot =>
          rcases hMember with ⟨g', hMem, hIs⟩
          rcases List.mem_cons.mp hMem with rfl | hLater
          · exact absurd hIs hNot
          · split
            · exact ih ⟨g', hLater, hIs⟩ _
            · exact ih ⟨g', hLater, hIs⟩ _

/- Elsewhere it goes on where there is a way to a member. -/
theorem bestNextHop_isSome
    {states : List GroupState}
    (hElse :
      ∀ g ∈ states,
        ¬ (g.active = true ∧ g.nodeNid = d.myAddress))
    (best : Option NodeID)
    (hSome :
      best.isSome = true ∨
        ∃ g ∈ states, (d.hopTo sender g).isSome = true) :
    (d.bestNextHop sender states best).isSome = true := by
  induction states generalizing best with
  | nil =>
      rcases hSome with hBest | ⟨g, hMem, _⟩
      · exact hBest
      · cases hMem
  | cons g states ih =>
      rw [bestNextHop, if_neg (hElse g List.mem_cons_self)]
      have hRest := ih
        (fun g' hMem => hElse g' (List.mem_cons_of_mem g hMem))
      cases hHop : d.hopTo sender g with
      | some hop => exact hRest _ (Or.inl rfl)
      | none =>
          apply hRest
          rcases hSome with hBest | ⟨g', hMem, hIs⟩
          · exact Or.inl hBest
          · rcases List.mem_cons.mp hMem with rfl | hLater
            · rw [hHop] at hIs
              cases hIs
            · exact Or.inr ⟨g', hLater, hIs⟩

end Daemon

namespace Converged

variable {nodes : Nodes}
variable {w : NodeID → NodeID → Option Nat}
variable {groups : NodeID → Option (List GroupState)}
variable {daemons : NodeID → Daemon}

/- It is delivered or goes on, never both. -/
theorem acast_step
    (h : Converged nodes w groups daemons)
    (v : NodeID)
    (hdr : UdpHeader)
    (hAny : isAcastAddr hdr.dest = true) :
    ((daemons v).deliverAndForward hdr).1.length +
        (if ((daemons v).deliverAndForward hdr).2 then 1
        else 0) ≤ 1 := by
  have hGroup :
      (isMcastAddr hdr.dest || isAcastAddr hdr.dest) = true
      := by
    rw [hAny, Bool.or_true]
  have hOne :
      (((daemons v).rrGetMcastNeighbors hdr.source
        hdr.dest).getD []).length ≤ 1 := by
    rw [Daemon.rrGetMcastNeighbors, not_isMcastAddr hAny]
    cases (daemons v).allGroupsByName hdr.dest with
    | none => exact Nat.zero_le 1
    | some states =>
        rw [Option.map_some, Option.getD_some,
          if_neg Bool.false_ne_true]
        cases (daemons v).bestNextHop hdr.source states none
          with
        | none => exact Nat.zero_le 1
        | some hop => exact Nat.le_refl 1
  by_cases hHere :
      ((daemons v).deliverAndForward hdr).2 = true
  · have hMember := (h.delivers_iff v hdr).mp hHere
    rw [mem_targets _ _ hGroup] at hMember
    have hNone :
        ((daemons v).rrGetMcastNeighbors hdr.source
          hdr.dest).getD [] = [] := by
      rw [Daemon.rrGetMcastNeighbors, not_isMcastAddr hAny,
        h.groups]
      cases hStates : groups hdr.dest with
      | none => rfl
      | some states =>
          rw [hStates, Option.getD_some] at hMember
          rw [Option.map_some, Option.getD_some,
            if_neg Bool.false_ne_true,
            Daemon.bestNextHop_member]
          · rfl
          · rw [h.address]
            exact hMember.2
    rw [if_pos hHere, Daemon.deliverAndForward]
    split
    · exact Nat.le_refl 1
    · dsimp only
      rw [if_pos hGroup, hNone]
      split
      · exact Nat.le_refl 1
      · exact Nat.le_refl 1
  · rw [if_neg hHere, Nat.add_zero, Daemon.deliverAndForward]
    split
    · exact Nat.zero_le 1
    · dsimp only
      rw [if_pos hGroup]
      dsimp only
      rw [List.length_map]
      split
      · exact
          Nat.le_trans (List.length_filter_le _ _) hOne
      · exact Nat.zero_le 1

/-
  With hops to spare it goes on from every daemon on the way
  to a member that is none itself.
-/
theorem acast_goes_on
    (h : Converged nodes w groups daemons)
    (hConnected :
      ∀ v y, (daemons v).isConnectedNeighbor y = true)
    {v y m : NodeID}
    {hdr : UdpHeader}
    (hAny : isAcastAddr hdr.dest = true)
    (hTtl : 1 < hdr.ttl)
    (hElse : v ∉ targets groups hdr.dest)
    (hTarget : m ∈ targets groups hdr.dest)
    (hHop :
      rrGetNextHop (daemons v).currentRouting hdr.source m =
        some y) :
    ((daemons v).deliverAndForward hdr).1 ≠ [] := by
  have hGroup :
      (isMcastAddr hdr.dest || isAcastAddr hdr.dest) = true
      := by
    rw [hAny, Bool.or_true]
  have hLive : hdr.ttl ≠ 0 := by omega
  have hLeft : 0 < hdr.ttl - 1 := by omega
  rw [mem_targets _ _ hGroup] at hElse hTarget
  rcases hTarget with ⟨g, hState, hActive, rfl⟩
  have hSome :
      ∃ hop,
        ((daemons v).rrGetMcastNeighbors hdr.source
          hdr.dest).getD [] = [hop] := by
    rw [Daemon.rrGetMcastNeighbors, not_isMcastAddr hAny,
      h.groups]
    cases hStates : groups hdr.dest with
    | none =>
        rw [hStates] at hState
        cases hState
    | some states =>
        rw [hStates, Option.getD_some] at hState hElse
        rw [Option.map_some, Option.getD_some,
          if_neg Bool.false_ne_true]
        have hBest :
            ((daemons v).bestNextHop hdr.source states
              none).isSome = true := by
          apply Daemon.bestNextHop_isSome
          · intro g' hMem hIs
            rw [h.address] at hIs
            exact hElse ⟨g', hMem, hIs⟩
          · right
            refine ⟨g, hState, ?_⟩
            rw [Daemon.hopTo, if_pos hActive, hHop]
            rfl
        rcases Option.isSome_iff_exists.mp hBest with
          ⟨hop, hEq⟩
        exact ⟨hop, by rw [hEq]; rfl⟩
  rcases hSome with ⟨hop, hHops⟩
  rw [Daemon.deliverAndForward, if_neg hLive]
  dsimp only
  rw [if_pos hGroup, if_pos hLeft, hHops]
  dsimp only
  rw [List.filter_cons_of_pos (hConnected v hop)]
  exact List.cons_ne_nil _ _

end Converged

end P4

end Cs2520

namespace Cs2520

namespace P4

open Lib

namespace Network

variable {nodes : Nodes}
variable {w : NodeID → NodeID → Option Nat}
variable {groups : NodeID → Option (List GroupState)}
variable {daemons : NodeID → Daemon}
variable {sent : UdpHeader}
variable {n : Network}

/- One copy that flies or has been delivered, at most. -/
theorem acast_arrive
    (hAll : Converged nodes w groups daemons)
    (hAny : isAcastAddr sent.dest = true)
    (hOnce :
      Once (ways nodes w) (targets groups sent.dest) sent n)
    (h : n.flying.length + n.delivered.length ≤ 1)
    (i : Nat) :
    (n.step daemons (.arrive i)).flying.length +
        (n.step daemons (.arrive i)).delivered.length ≤ 1 := by
  rw [Network.step]
  cases hGet : n.flying[i]? with
  | none => exact h
  | some c =>
      rcases c with ⟨v, hdr⟩
      dsimp only
      rcases hOnce.header _ (List.mem_of_getElem? hGet) with
        ⟨p, _, _, hHdr, _⟩
      dsimp only at hHdr
      have hDest : hdr.dest = sent.dest := by rw [hHdr]
      have hStep :=
        hAll.acast_step v hdr (hDest ▸ hAny)
      rcases exists_split hGet with
        ⟨before, after, hFlying, hErase⟩
      rw [hFlying, List.length_append, List.length_cons] at h
      rw [List.length_append, hErase, List.length_append]
      split
      · next hHere =>
          rw [if_pos hHere] at hStep
          rw [List.length_append, List.length_singleton]
          omega
      · next hNot =>
          rw [if_neg hNot] at hStep
          omega

/- Without losses the copy is on the way to a member. -/
structure Seeks
    (T : Table NodeID)
    (targets : List NodeID)
    (sent : UdpHeader)
    (n : Network) : Prop where
  one : n.flying.length + n.delivered.length = 1
  way :
    ∀ c ∈ n.flying,
      ∃ m ∈ targets, ∃ a b,
        T.Leads sent.source m (a ++ c.1 :: b)

theorem Seeks.arrive
    (hAll : Converged nodes w groups daemons)
    (hConnected :
      ∀ v y, (daemons v).isConnectedNeighbor y = true)
    (hAny : isAcastAddr sent.dest = true)
    (hPos : 0 < sent.ttl)
    (hEnough : nodes.ids.length ≤ sent.ttl)
    (hOnce :
      Once (ways nodes w) (targets groups sent.dest) sent n)
    (h :
      Seeks (ways nodes w) (targets groups sent.dest) sent n)
    (i : Nat) :
    Seeks (ways nodes w) (targets groups sent.dest) sent
      (n.step daemons (.arrive i)) := by
  have hMost :=
    acast_arrive hAll hAny hOnce (Nat.le_of_eq h.one) i
  rw [Network.step] at hMost ⊢
  cases hGet : n.flying[i]? with
  | none => exact h
  | some c =>
      rcases c with ⟨v, hdr⟩
      rw [hGet] at hMost
      dsimp only at hMost ⊢
      have hMem := List.mem_of_getElem? hGet
      rcases hOnce.header _ hMem with
        ⟨p, hTo, _, hHdr, hTtl, hLive⟩
      dsimp only at hTo hHdr hTtl hLive
      have hDest : hdr.dest = sent.dest := by rw [hHdr]
      have hSource : hdr.source = sent.source := by rw [hHdr]
      have hGoes :
          v ∉ targets groups sent.dest →
            ((daemons v).deliverAndForward hdr).1 ≠ [] := by
        intro hElse
        rcases h.way _ hMem with ⟨m, hTarget, a, b, hLeads⟩
        have hBest := best_ways nodes w
        cases b with
        | nil =>
            rcases hBest.leads_end hLeads with ⟨q, hEnd⟩
            have hLast : v = m :=
              List.singleton_inj.mp
                (List.append_inj_right' hEnd rfl)
            rw [hLast] at hElse
            exact absurd hTarget hElse
        | cons y b =>
            have hApart : sent.source ≠ m := by
              rcases hLeads with ⟨_, hEq⟩ | ⟨hNe, _⟩
              · have hLength := congrArg List.length hEq
                simp only [List.length_append,
                  List.length_cons, List.length_nil]
                  at hLength
                omega
              · exact hNe
            have hLength := hAll.length_le hApart hLeads
            have hHere := hBest.leads_front hLeads
            rw [Table.Best.leads_unique hTo hHere] at hTtl
            simp only [List.length_append, List.length_cons,
              List.length_nil] at hLength hTtl
            apply
              hAll.acast_goes_on hConnected
                (by rw [hDest]; exact hAny) (by omega)
                (by rw [hDest]; exact hElse)
                (by rw [hDest]; exact hTarget)
            rw [hSource]
            exact hAll.nextHop_iff.mpr ⟨a, b, hLeads⟩
      refine { one := ?_, way := ?_ }
      · apply Nat.le_antisymm hMost
        by_cases hHere : v ∈ targets groups sent.dest
        · have hDelivers :
              ((daemons v).deliverAndForward hdr).2 = true :=
            (hAll.delivers_iff v hdr).mpr
              ⟨hLive hPos, by rw [hDest]; exact hHere⟩
          rw [if_pos hDelivers, List.length_append,
            List.length_append, List.length_singleton]
          omega
        · have hOut :=
            List.length_pos_of_ne_nil (hGoes hHere)
          rw [List.length_append]
          omega
      · intro c hIn
        rcases List.mem_append.mp hIn with hOld | hNew
        · exact
            h.way c
              ((List.eraseIdx_sublist n.flying i).subset hOld)
        · rcases hAll.mem_forwards hNew with
            ⟨_, _, m, hTarget, hHop⟩
          rw [hSource] at hHop
          rw [hDest] at hTarget
          rcases hAll.nextHop_iff.mp hHop with ⟨a, b, hLeads⟩
          refine ⟨m, hTarget, a ++ [v], b, ?_⟩
          rw [List.append_assoc]
          exact hLeads

/-
  A packet for any one of a group is delivered at most once,
  at a member. If nothing is lost, the packet has as many
  hops as there are nodes, and a member can be reached, it is
  delivered.
-/
theorem delivered_any
    (hAll : Converged nodes w groups daemons)
    (sent : UdpHeader)
    (hAny : isAcastAddr sent.dest = true)
    (es : List Ev) :
    let n := run daemons (initial sent) es
    (n.delivered.length ≤ 1 ∧
        ∀ v ∈ n.delivered, v ∈ targets groups sent.dest) ∧
      ((∀ v y, (daemons v).isConnectedNeighbor y = true) →
        (∀ e ∈ es, ∃ i, e = .arrive i) →
        0 < sent.ttl →
        nodes.ids.length ≤ sent.ttl →
        (∃ m ∈ targets groups sent.dest, ∃ p c,
          Walk w sent.source p m c) →
        n.flying = [] →
          n.delivered.length = 1) := by
  intro n
  have hOnce := once_run hAll sent es
  have hMost :
      n.flying.length + n.delivered.length ≤ 1 := by
    clear hOnce
    induction es using List.reverseRecOn with
    | nil => exact Nat.le_refl 1
    | append_singleton es e ih =>
        have hBefore := once_run hAll sent es
        have hEq :
            n =
              (run daemons (initial sent) es).step
                daemons e :=
          List.foldl_concat _ _ _ _
        rw [hEq]
        cases e with
        | arrive i =>
            exact acast_arrive hAll hAny hBefore ih i
        | lose i =>
            have hFewer :=
              (List.eraseIdx_sublist
                (run daemons (initial sent) es).flying
                i).length_le
            exact
              Nat.le_trans (Nat.add_le_add_right hFewer _) ih
  refine ⟨⟨by omega, ?_⟩, ?_⟩
  · intro v hMem
    exact (hOnce.delivered v hMem).2.1
  · intro hConnected hLossless hPos hEnough hMember hDone
    have hSeeks :
        Seeks (ways nodes w) (targets groups sent.dest) sent
          n := by
      clear hDone hMost hOnce
      induction es using List.reverseRecOn with
      | nil =>
          refine { one := rfl, way := ?_ }
          intro c hMem
          rw [List.mem_singleton.mp hMem]
          rcases hMember with ⟨m, hTarget, p, d, hWalk⟩
          rcases hAll.leads_iff.mpr ⟨p, d, hWalk⟩ with
            ⟨q, hLeads⟩
          refine ⟨m, hTarget, [], ?_⟩
          rcases hLeads with ⟨hEnd, hEq⟩ | ⟨hNe, t, hSome, hEq⟩
          · exact ⟨[], Or.inl ⟨hEnd, rfl⟩⟩
          · exact ⟨t.stops, Or.inr ⟨hNe, t, hSome, rfl⟩⟩
      | append_singleton es e ih =>
          have hBefore :=
            ih (fun e hMem =>
              hLossless e (List.mem_append_left _ hMem))
          rcases hLossless e (by simp) with ⟨i, rfl⟩
          have hEq :
              n =
                (run daemons (initial sent) es).step
                  daemons (.arrive i) :=
            List.foldl_concat _ _ _ _
          rw [hEq]
          exact
            hBefore.arrive hAll hConnected hAny hPos hEnough
              (once_run hAll sent es) i
    have hOne := hSeeks.one
    rw [hDone, List.length_nil, Nat.zero_add] at hOne
    exact hOne

/- From node 1 to any member, with three hops. -/
def anyPacket : UdpHeader where
  source := 1
  dest := 0xF0000001
  ttl := 3

theorem delivered_any_detour :
    (run detourDaemons (initial anyPacket)
      threeArrivals).delivered.length = 1 := by
  have hAny :=
    delivered_any detour_converged anyPacket (by decide)
      threeArrivals
  exact
    hAny.2 (fun _ _ => rfl) threeArrivals_lossless
      (by decide) (by decide)
      ⟨3, by decide, [2, 3], 10, detour_walk⟩ (by decide)

end Network

end P4

end Cs2520
