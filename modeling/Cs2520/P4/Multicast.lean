import Cs2520.P4.Forwarding
import Mathlib.Data.List.Perm.Subperm

/-
  Packets for one node or for all members of a group.

  The ways from the source form a tree, so a daemon hears of
  a packet from one neighbor only. No daemon has a packet
  twice, whatever is lost and in whatever order the copies
  arrive; a copy comes by all daemons of its way, one after
  another; and without losses every target in reach gets it.

  Main declarations:
    * `Network.Once`
    * `Network.once_run`
    * `Network.Passed`
    * `Network.delivered_all`
    * `Network.delivered_once`
-/

------------------------------------------------------------
-- At Most One Copy
------------------------------------------------------------

namespace Cs2520

namespace P4

open Lib

namespace Network

variable {nodes : Nodes}
variable {w : NodeID → NodeID → Option Nat}
variable {groups : NodeID → Option (List GroupState)}
variable {daemons : NodeID → Daemon}
variable {sent : UdpHeader}
variable {n : Network}

/- The daemons that have a copy or have had one. -/
def reached
    (n : Network) : List NodeID :=
  n.visited ++ n.flying.map Prod.fst

/-
  Every copy is on the way from the source to its daemon and
  has come by all daemons before, and no daemon is reached
  twice.
-/
structure Once
    (T : Table NodeID)
    (targets : List NodeID)
    (sent : UdpHeader)
    (n : Network) : Prop where
  header :
    ∀ c ∈ n.flying,
      ∃ p,
        T.Leads sent.source c.1 p ∧
          p.Sublist (n.visited ++ [c.1]) ∧
          c.2 = { sent with ttl := c.2.ttl } ∧
          c.2.ttl + p.length = sent.ttl + 1 ∧
          (0 < sent.ttl → 0 < c.2.ttl)
  apart : n.reached.Nodup
  parent :
    ∀ y ∈ n.reached, y ≠ sent.source →
      ∃ a x,
        T.Leads sent.source y (a ++ [x, y]) ∧ x ∈ n.visited
  nodup : n.delivered.Nodup
  delivered :
    ∀ v ∈ n.delivered,
      v ∈ n.visited ∧
        v ∈ targets ∧
        ∃ p,
          T.Leads sent.source v p ∧
            p.Sublist n.visited ∧
            p.length ≤ sent.ttl

theorem once_initial
    (T : Table NodeID)
    (targets : List NodeID)
    (sent : UdpHeader) :
    Once T targets sent (initial sent) where
  header := by
    intro c hMem
    rw [List.mem_singleton.mp hMem]
    exact
      ⟨_, Or.inl ⟨rfl, rfl⟩, List.Sublist.refl _, rfl, rfl,
        fun hPos => hPos⟩
  apart := by
    rw [reached, initial]
    exact List.nodup_singleton _
  parent := by
    intro y hMem hNe
    exact absurd (List.mem_singleton.mp hMem) hNe
  nodup := List.nodup_nil
  delivered := by
    intro v hMem
    cases hMem

/- A copy leaves the list of those that fly. -/
theorem exists_split
    {α : Type}
    {as : List α}
    {n : Nat}
    {a : α}
    (hGet : as[n]? = some a) :
    ∃ before after,
      as = before ++ a :: after ∧
        as.eraseIdx n = before ++ after := by
  rcases List.getElem?_eq_some_iff.mp hGet with ⟨hLt, hEq⟩
  refine ⟨as.take n, as.drop (n + 1), ?_, ?_⟩
  · rw [← hEq, List.getElem_cons_drop,
      List.take_append_drop]
  · exact List.eraseIdx_eq_take_drop_succ as n

/- A lost copy reaches no one. -/
theorem Once.lose
    {T : Table NodeID}
    {targets : List NodeID}
    (h : Once T targets sent n)
    (i : Nat) :
    Once T targets sent
      { n with flying := n.flying.eraseIdx i } := by
  have hFewer := List.eraseIdx_sublist n.flying i
  have hReached :
      ({ n with flying := n.flying.eraseIdx i } :
        Network).reached.Sublist n.reached :=
    List.Sublist.append (List.Sublist.refl _)
      (hFewer.map Prod.fst)
  exact
    { header := fun c hMem => h.header c (hFewer.subset hMem)
      apart := h.apart.sublist hReached
      parent := fun y hMem =>
        h.parent y (hReached.subset hMem)
      nodup := h.nodup
      delivered := h.delivered }

/-
  The daemons that a copy is forwarded to come next on the
  ways from the source, and have not been reached.
-/
theorem Once.forwards_new
    (hAll : Converged nodes w groups daemons)
    (h :
      Once (ways nodes w) (targets groups sent.dest) sent n)
    {v : NodeID}
    {hdr : UdpHeader}
    (hMem : (v, hdr) ∈ n.flying)
    {c : NodeID × UdpHeader}
    (hOut : c ∈ ((daemons v).deliverAndForward hdr).1) :
    (∃ a,
      (ways nodes w).Leads sent.source v (a ++ [v]) ∧
        (ways nodes w).Leads sent.source c.1
          (a ++ [v, c.1]) ∧
        (a ++ [v]).Sublist (n.visited ++ [v]) ∧
        hdr.ttl + (a ++ [v]).length = sent.ttl + 1) ∧
      c.2 = { sent with ttl := hdr.ttl - 1 } ∧
      1 < hdr.ttl ∧
      c.1 ∉ n.reached := by
  have hBest := best_ways nodes w
  rcases h.header _ hMem with
    ⟨p, hTo, hAlong, hHdr, hTtl, _⟩
  dsimp only at hTo hAlong hHdr hTtl
  rcases hAll.mem_forwards hOut with
    ⟨hHdr', hLive, m, _, hHop⟩
  rw [hHdr] at hHop
  rcases hAll.nextHop_iff.mp hHop with ⟨a, b, hLeads⟩
  have hHere := hBest.leads_front hLeads
  have hSplit :
      a ++ v :: c.1 :: b = (a ++ [v]) ++ c.1 :: b := by
    rw [List.append_assoc]
    rfl
  rw [hSplit] at hLeads
  have hThere := hBest.leads_front hLeads
  rw [List.append_assoc] at hThere
  have hSame := Table.Best.leads_unique hTo hHere
  rw [hSame] at hTtl hAlong
  refine ⟨⟨a, hHere, hThere, hAlong, hTtl⟩, ?_, hLive, ?_⟩
  · rw [hHdr', hHdr]
  · intro hIn
    have hApart : c.1 ≠ sent.source := by
      intro hSource
      rcases hThere with ⟨_, hEq⟩ | ⟨hNe, _⟩
      · have hLength := congrArg List.length hEq
        simp at hLength
      · exact hNe hSource.symm
    rcases h.parent c.1 hIn hApart with
      ⟨a', x, hLeads', hVisited⟩
    have hParent := Table.Best.leads_parent hThere hLeads'
    rw [← hParent] at hVisited
    exact
      (List.nodup_append.mp h.apart).2.2 v hVisited v
        (List.mem_map_of_mem hMem) rfl

/- The copy moves on: its daemon was already reached. -/
theorem reached_arrive
    {v : NodeID}
    {hdr : UdpHeader}
    {i : Nat}
    (hGet : n.flying[i]? = some (v, hdr))
    (out : List (NodeID × UdpHeader))
    (delivered : List NodeID) :
    (reached
      { flying := n.flying.eraseIdx i ++ out
        visited := n.visited ++ [v]
        delivered := delivered }).Perm
      (n.reached ++ out.map Prod.fst) := by
  rcases exists_split hGet with
    ⟨before, after, hFlying, hErase⟩
  rw [reached, reached, hErase, hFlying]
  simp only [List.map_append, List.map_cons,
    List.append_assoc, List.singleton_append]
  apply List.Perm.append_left
  rw [← List.append_assoc, ← List.append_assoc,
    ← List.cons_append, ← List.cons_append]
  apply List.Perm.append_right
  exact List.perm_middle.symm

/- A copy stays on its way when another one arrives at `v`. -/
theorem Once.header_kept
    {T : Table NodeID}
    {targets : List NodeID}
    (h : Once T targets sent n)
    {c : NodeID × UdpHeader}
    (hMem : c ∈ n.flying)
    (v : NodeID) :
    ∃ p,
      T.Leads sent.source c.1 p ∧
        p.Sublist ((n.visited ++ [v]) ++ [c.1]) ∧
        c.2 = { sent with ttl := c.2.ttl } ∧
        c.2.ttl + p.length = sent.ttl + 1 ∧
        (0 < sent.ttl → 0 < c.2.ttl) := by
  rcases h.header c hMem with ⟨p, hLeads, hAlong, hRest⟩
  have hLonger :=
    (List.sublist_append_left n.visited
      [v]).append_right [c.1]
  exact ⟨p, hLeads, hAlong.trans hLonger, hRest⟩

/- A copy that is forwarded has one daemon more behind it. -/
theorem Once.header_forwarded
    (hAll : Converged nodes w groups daemons)
    (h :
      Once (ways nodes w) (targets groups sent.dest) sent n)
    {v : NodeID}
    {hdr : UdpHeader}
    (hMem : (v, hdr) ∈ n.flying)
    {c : NodeID × UdpHeader}
    (hOut : c ∈ ((daemons v).deliverAndForward hdr).1) :
    ∃ p,
      (ways nodes w).Leads sent.source c.1 p ∧
        p.Sublist ((n.visited ++ [v]) ++ [c.1]) ∧
        c.2 = { sent with ttl := c.2.ttl } ∧
        c.2.ttl + p.length = sent.ttl + 1 ∧
        (0 < sent.ttl → 0 < c.2.ttl) := by
  rcases h.forwards_new hAll hMem hOut with
    ⟨⟨a, _, hThere, hAlong, hTtl⟩, hHdr, hLive, _⟩
  have hNext := hAlong.append_right [c.1]
  rw [List.append_assoc] at hNext
  rw [List.length_append, List.length_singleton] at hTtl
  refine ⟨_, hThere, hNext, ?_, ?_, ?_⟩
  · rw [hHdr]
  · rw [hHdr, List.length_append, List.length_cons,
      List.length_singleton]
    dsimp only
    omega
  · intro _
    rw [hHdr]
    dsimp only
    omega

/- What was delivered stays delivered over the same way. -/
theorem Once.delivered_kept
    {T : Table NodeID}
    {targets : List NodeID}
    (h : Once T targets sent n)
    {x : NodeID}
    (hIn : x ∈ n.delivered)
    (v : NodeID) :
    x ∈ n.visited ++ [v] ∧
      x ∈ targets ∧
      ∃ p,
        T.Leads sent.source x p ∧
          p.Sublist (n.visited ++ [v]) ∧
          p.length ≤ sent.ttl := by
  rcases h.delivered x hIn with
    ⟨hVisited, hTarget, p, hLeads, hAlong, hLe⟩
  exact
    ⟨List.mem_append_left _ hVisited, hTarget, p, hLeads,
      hAlong.trans (List.sublist_append_left _ _), hLe⟩

/- A target gets the packet over the way of its copy. -/
theorem Once.delivered_here
    (hAll : Converged nodes w groups daemons)
    (h :
      Once (ways nodes w) (targets groups sent.dest) sent n)
    {v : NodeID}
    {hdr : UdpHeader}
    (hMem : (v, hdr) ∈ n.flying)
    (hHere : ((daemons v).deliverAndForward hdr).2 = true) :
    v ∈ n.visited ++ [v] ∧
      v ∈ targets groups sent.dest ∧
      ∃ p,
        (ways nodes w).Leads sent.source v p ∧
          p.Sublist (n.visited ++ [v]) ∧
          p.length ≤ sent.ttl := by
  rcases h.header _ hMem with
    ⟨p, hTo, hAlong, hHdr, hTtl, _⟩
  dsimp only at hTo hAlong hHdr hTtl
  rcases (hAll.delivers_iff v hdr).mp hHere with
    ⟨hPos, hTarget⟩
  rw [hHdr] at hTarget
  refine
    ⟨List.mem_append_right _ List.mem_cons_self, hTarget, p,
      hTo, hAlong, ?_⟩
  omega

/- A copy that arrives. -/
theorem Once.arrive
    (hAll : Converged nodes w groups daemons)
    (h :
      Once (ways nodes w) (targets groups sent.dest) sent n)
    (i : Nat) :
    Once (ways nodes w) (targets groups sent.dest) sent
      (n.step daemons (.arrive i)) := by
  rw [Network.step]
  cases hGet : n.flying[i]? with
  | none => exact h
  | some c =>
      rcases c with ⟨v, hdr⟩
      dsimp only
      have hMem : (v, hdr) ∈ n.flying :=
        List.mem_of_getElem? hGet
      have hNew :=
        fun {c : NodeID × UdpHeader} hOut =>
          h.forwards_new hAll hMem (c := c) hOut
      have hPerm :=
        reached_arrive hGet
          ((daemons v).deliverAndForward hdr).1
      have hFree : v ∉ n.visited := fun hIn =>
        (List.nodup_append.mp h.apart).2.2 v hIn v
          (List.mem_map_of_mem hMem) rfl
      have hNone : v ∉ n.delivered := fun hIn =>
        hFree (h.delivered v hIn).1
      refine
        { header := ?_
          apart := ?_
          parent := ?_
          nodup := ?_
          delivered := ?_ }
      · intro c hIn
        rcases List.mem_append.mp hIn with hOld | hOut
        · exact
            h.header_kept
              ((List.eraseIdx_sublist n.flying i).subset
                hOld) v
        · exact h.header_forwarded hAll hMem hOut
      · rw [(hPerm _).nodup_iff]
        refine
          List.nodup_append.mpr
            ⟨h.apart, Converged.nodup_forwards _ _, ?_⟩
        rintro y hOld x hOut rfl
        rcases List.mem_map.mp hOut with ⟨c, hIn, rfl⟩
        exact (hNew hIn).2.2.2 hOld
      · intro y hIn hNe
        rw [(hPerm _).mem_iff, List.mem_append] at hIn
        rcases hIn with hOld | hOut
        · rcases h.parent y hOld hNe with
            ⟨a, x, hLeads, hVisited⟩
          exact
            ⟨a, x, hLeads, List.mem_append_left _ hVisited⟩
        · rcases List.mem_map.mp hOut with ⟨c, hFwd, rfl⟩
          rcases hNew hFwd with ⟨⟨a, _, hThere, _, _⟩, _⟩
          exact
            ⟨a, v, hThere,
              List.mem_append_right _ List.mem_cons_self⟩
      · split
        · have hMore := h.nodup.concat hNone
          rw [List.concat_eq_append] at hMore
          exact hMore
        · exact h.nodup
      · intro x hIn
        split at hIn
        · next hHere =>
            rcases List.mem_append.mp hIn with
              hBefore | hNow
            · exact h.delivered_kept hBefore v
            · rw [List.mem_singleton.mp hNow]
              exact h.delivered_here hAll hMem hHere
        · exact h.delivered_kept hIn v

/-
  In every run of a network with the same edges everywhere no
  daemon gets a packet twice, whatever is lost and in whatever
  order the copies arrive.
-/
theorem once_run
    (hAll : Converged nodes w groups daemons)
    (sent : UdpHeader)
    (es : List Ev) :
    Once (ways nodes w) (targets groups sent.dest) sent
      (run daemons (initial sent) es) := by
  induction es using List.reverseRecOn with
  | nil => exact once_initial _ _ sent
  | append_singleton es e ih =>
      rw [run, List.foldl_concat, ← run]
      cases e with
      | arrive i => exact ih.arrive hAll i
      | lose i => exact ih.lose i

end Network

end P4

end Cs2520

------------------------------------------------------------
-- A Copy for Everyone
------------------------------------------------------------

namespace Cs2520

namespace P4

open Lib

namespace Network

variable {nodes : Nodes}
variable {w : NodeID → NodeID → Option Nat}
variable {groups : NodeID → Option (List GroupState)}
variable {daemons : NodeID → Daemon}
variable {sent : UdpHeader}
variable {n : Network}

/-
  Whoever has had a copy with hops to spare has passed it on
  along the ways to the targets, and has delivered it if it
  is one.
-/
structure Passed
    (T : Table NodeID)
    (targets : List NodeID)
    (sent : UdpHeader)
    (n : Network) : Prop where
  source : sent.source ∈ n.reached
  next :
    ∀ {a v y b m}, v ∈ n.visited → m ∈ targets →
      T.Leads sent.source m (a ++ v :: y :: b) →
        (a ++ [v]).length < sent.ttl → y ∈ n.reached
  delivers :
    ∀ v ∈ n.visited, v ∈ targets → 0 < sent.ttl →
      v ∈ n.delivered

theorem passed_initial
    (T : Table NodeID)
    (targets : List NodeID)
    (sent : UdpHeader) :
    Passed T targets sent (initial sent) where
  source := List.mem_cons_self
  next := by
    intro a v y b m hMem
    cases hMem
  delivers := by
    intro v hMem
    cases hMem

theorem Passed.arrive
    (hAll : Converged nodes w groups daemons)
    (hConnected :
      ∀ v y, (daemons v).isConnectedNeighbor y = true)
    (hEach : isAcastAddr sent.dest = false)
    (hOnce :
      Once (ways nodes w) (targets groups sent.dest) sent n)
    (h :
      Passed (ways nodes w) (targets groups sent.dest) sent n)
    (i : Nat) :
    Passed (ways nodes w) (targets groups sent.dest) sent
      (n.step daemons (.arrive i)) := by
  rw [Network.step]
  cases hGet : n.flying[i]? with
  | none => exact h
  | some c =>
      rcases c with ⟨v, hdr⟩
      dsimp only
      have hPerm :=
        reached_arrive hGet
          ((daemons v).deliverAndForward hdr).1
      rcases hOnce.header _ (List.mem_of_getElem? hGet) with
        ⟨p, hTo, _, hHdr, hTtl, hLive⟩
      dsimp only at hTo hHdr hTtl hLive
      have hDest : hdr.dest = sent.dest := by rw [hHdr]
      have hSource : hdr.source = sent.source := by rw [hHdr]
      refine { source := ?_, next := ?_, delivers := ?_ }
      · rw [(hPerm _).mem_iff]
        exact List.mem_append_left _ h.source
      · intro a x y b m hVisited hTarget hLeads hShort
        rw [(hPerm _).mem_iff]
        rcases List.mem_append.mp hVisited with hOld | hNow
        · exact
            List.mem_append_left _
              (h.next hOld hTarget hLeads hShort)
        · rw [List.mem_singleton.mp hNow] at hLeads hShort
          apply List.mem_append_right
          have hHere :=
            (best_ways nodes w).leads_front hLeads
          rw [Table.Best.leads_unique hTo hHere] at hTtl
          apply
            hAll.forwards_all (hConnected v y)
              (by rw [hDest]; exact hEach) (by omega)
              (by rw [hDest]; exact hTarget)
          rw [hSource]
          exact hAll.nextHop_iff.mpr ⟨a, b, hLeads⟩
      · intro x hVisited hTarget hPos
        rcases List.mem_append.mp hVisited with hOld | hNow
        · have hBefore := h.delivers x hOld hTarget hPos
          split
          · exact List.mem_append_left _ hBefore
          · exact hBefore
        · rw [List.mem_singleton.mp hNow] at hTarget ⊢
          have hHere :
              ((daemons v).deliverAndForward hdr).2 = true :=
            (hAll.delivers_iff v hdr).mpr
              ⟨hLive hPos, by rw [hDest]; exact hTarget⟩
          rw [if_pos hHere]
          exact List.mem_append_right _ List.mem_cons_self

theorem passed_run
    (hAll : Converged nodes w groups daemons)
    (hConnected :
      ∀ v y, (daemons v).isConnectedNeighbor y = true)
    (hEach : isAcastAddr sent.dest = false)
    {es : List Ev}
    (hLossless : ∀ e ∈ es, ∃ i, e = .arrive i) :
    Passed (ways nodes w) (targets groups sent.dest) sent
      (run daemons (initial sent) es) := by
  induction es using List.reverseRecOn with
  | nil => exact passed_initial _ _ sent
  | append_singleton es e ih =>
      rw [run, List.foldl_concat, ← run]
      rcases hLossless e (by simp) with ⟨i, rfl⟩
      have hBefore :=
        ih (fun e hMem =>
          hLossless e (List.mem_append_left _ hMem))
      exact
        hBefore.arrive hAll hConnected hEach
          (once_run hAll sent es) i

/- When nothing flies all on the way to a target had one. -/
theorem Passed.visits
    (h :
      Passed (ways nodes w) (targets groups sent.dest) sent n)
    (hDone : n.flying = [])
    {m : NodeID}
    (hTarget : m ∈ targets groups sent.dest)
    {a b : List NodeID}
    {x : NodeID}
    (hLeads :
      (ways nodes w).Leads sent.source m (a ++ x :: b))
    (hShort : (a ++ x :: b).length ≤ sent.ttl) :
    x ∈ n.visited := by
  have hReached : n.reached = n.visited := by
    rw [reached, hDone, List.map_nil, List.append_nil]
  induction a using List.reverseRecOn generalizing x b with
  | nil =>
      have hSource : x = sent.source := by
        rcases hLeads with ⟨_, hEq⟩ | ⟨_, t, _, hEq⟩
        · exact (List.cons.inj hEq).1
        · exact (List.cons.inj hEq).1
      rw [hSource, ← hReached]
      exact h.source
  | append_singleton a v ih =>
      rw [List.append_assoc, List.singleton_append]
        at hLeads hShort
      have hBefore := ih hLeads hShort
      rw [← hReached]
      apply h.next hBefore hTarget hLeads
      simp only [List.length_append, List.length_cons,
        List.length_nil] at hShort ⊢
      omega

end Network

end P4

end Cs2520

------------------------------------------------------------
-- Delivery
------------------------------------------------------------

namespace Cs2520

namespace P4

open Lib

/- A way passes no more daemons than there are nodes. -/
theorem Converged.length_le
    {nodes : Nodes}
    {w : NodeID → NodeID → Option Nat}
    {groups : NodeID → Option (List GroupState)}
    {daemons : NodeID → Daemon}
    (h : Converged nodes w groups daemons)
    {s m : NodeID}
    {p : List NodeID}
    (hNe : s ≠ m)
    (hLeads : (ways nodes w).Leads s m p) :
    p.length ≤ nodes.ids.length := by
  have hBest := best_ways nodes w
  have hNodup := hBest.leads_nodup hLeads
  apply (List.subperm_of_subset hNodup ?_).length_le
  intro x hMem
  rcases List.append_of_mem hMem with ⟨a, b, hSplit⟩
  have hAll := hLeads
  rw [hSplit] at hAll
  rcases hBest.leads_front hAll with
    ⟨hSource, _⟩ | ⟨hApart, t, hSome, _⟩
  · rcases hLeads with ⟨hEnd, _⟩ | ⟨_, t, hSome, _⟩
    · exact absurd hEnd.symm hNe
    · rw [hSource]
      exact (h.mem_nodes hNe hSome).1
  · exact (h.mem_nodes hApart hSome).2

/- There is a way wherever a walk leads, as cheap. -/
theorem Converged.le_walk
    {nodes : Nodes}
    {w : NodeID → NodeID → Option Nat}
    {groups : NodeID → Option (List GroupState)}
    {daemons : NodeID → Daemon}
    (h : Converged nodes w groups daemons)
    {s v : NodeID}
    (hNe : s ≠ v)
    {p : List NodeID}
    {c : Nat}
    (hWalk : Walk w s p v c) :
    ∃ t, ways nodes w s v = some t ∧ t.cost ≤ c := by
  rcases h.routing s with ⟨edges, rfl, hInit⟩
  apply (best_ways nodes _).least hNe hWalk
  exact
    hWalk.inside
      (fun i j c hEdge => (rrInit_ends hInit i j c hEdge).1)

/- The ways lead where the walks do. -/
theorem Converged.leads_iff
    {nodes : Nodes}
    {w : NodeID → NodeID → Option Nat}
    {groups : NodeID → Option (List GroupState)}
    {daemons : NodeID → Daemon}
    (h : Converged nodes w groups daemons)
    {s v : NodeID} :
    (∃ p, (ways nodes w).Leads s v p) ↔
      ∃ p c, Walk w s p v c := by
  have hBest := best_ways nodes w
  by_cases hSame : s = v
  · subst hSame
    exact
      iff_of_true ⟨_, Or.inl ⟨rfl, rfl⟩⟩ ⟨[], 0, .nil s⟩
  · constructor
    · rintro ⟨p, ⟨hEnd, _⟩ | ⟨_, t, hSome, _⟩⟩
      · exact absurd hEnd.symm hSame
      · exact ⟨_, _, hBest.walk hSame hSome⟩
    · rintro ⟨p, c, hWalk⟩
      rcases h.le_walk hSame hWalk with ⟨t, hSome, _⟩
      exact ⟨_, Or.inr ⟨hSame, t, hSome, rfl⟩⟩

namespace Network

variable {nodes : Nodes}
variable {w : NodeID → NodeID → Option Nat}
variable {groups : NodeID → Option (List GroupState)}
variable {daemons : NodeID → Daemon}

/-
  When nothing is lost and all copies have arrived, exactly
  the targets within the hops of the packet have delivered
  it; with as many hops as nodes, all that can be reached.
-/
theorem delivered_all
    (hAll : Converged nodes w groups daemons)
    (hConnected :
      ∀ v y, (daemons v).isConnectedNeighbor y = true)
    (sent : UdpHeader)
    (hEach : isAcastAddr sent.dest = false)
    {es : List Ev}
    (hLossless : ∀ e ∈ es, ∃ i, e = .arrive i)
    (hDone : (run daemons (initial sent) es).flying = []) :
    let n := run daemons (initial sent) es
    (∀ v,
      v ∈ n.delivered ↔
        v ∈ targets groups sent.dest ∧
          ∃ p,
            (ways nodes w).Leads sent.source v p ∧
              p.length ≤ sent.ttl) ∧
      (0 < sent.ttl → nodes.ids.length ≤ sent.ttl →
        ∀ v,
          v ∈ n.delivered ↔
            v ∈ targets groups sent.dest ∧
              ∃ p c, Walk w sent.source p v c) := by
  intro n
  have hOnce := once_run hAll sent es
  have hPassed := passed_run hAll hConnected hEach hLossless
  have hShort :
      ∀ v,
        v ∈ n.delivered ↔
          v ∈ targets groups sent.dest ∧
            ∃ p,
              (ways nodes w).Leads sent.source v p ∧
                p.length ≤ sent.ttl := by
    intro v
    constructor
    · intro hMem
      rcases hOnce.delivered v hMem with
        ⟨_, hTarget, p, hLeads, _, hLe⟩
      exact ⟨hTarget, p, hLeads, hLe⟩
    · rintro ⟨hTarget, p, hLeads, hLe⟩
      rcases (best_ways nodes w).leads_end hLeads with
        ⟨a, rfl⟩
      have hVisited :=
        hPassed.visits hDone hTarget hLeads hLe
      rw [List.length_append, List.length_singleton] at hLe
      exact hPassed.delivers v hVisited hTarget (by omega)
  refine ⟨hShort, ?_⟩
  intro hPos hEnough v
  rw [hShort]
  refine and_congr_right (fun _ => ?_)
  rw [← hAll.leads_iff]
  constructor
  · rintro ⟨p, hLeads, _⟩
    exact ⟨p, hLeads⟩
  · rintro ⟨p, hLeads⟩
    refine ⟨p, hLeads, ?_⟩
    by_cases hSame : sent.source = v
    · rcases hLeads with ⟨_, rfl⟩ | ⟨hNe, _⟩
      · exact hPos
      · exact absurd hSame hNe
    · exact
        Nat.le_trans (hAll.length_le hSame hLeads) hEnough

/- The daemons of the nodes 1, 2 and 3; 2 and 3 are members. -/
def detourDaemons
    (v : NodeID) : Daemon where
  myAddress := v
  currentRouting :=
    (rrInit v threeNodes detourEdges).getD
      ⟨threeNodes, .initial⟩
  allGroupsByName := fun _ => some [⟨2, true⟩, ⟨3, true⟩]
  nodeCost := fun _ => 0
  isConnectedNeighbor := fun _ => true

theorem detour_converged :
    Converged threeNodes (edgeCost detourEdges)
      (fun _ => some [⟨2, true⟩, ⟨3, true⟩])
      detourDaemons where
  address := fun _ => rfl
  routing := fun _ => ⟨detourEdges, rfl, rfl⟩
  groups := fun _ => rfl
  loops := by
    intro v
    rw [edgeCost, Option.map_eq_none_iff,
      List.getLast?_eq_none_iff, List.filter_eq_nil_iff]
    have hApart : ∀ e ∈ detourEdges, e.src ≠ e.dst := by
      decide
    intro e hMem hLoop
    rw [decide_eq_true_eq] at hLoop
    exact hApart e hMem (hLoop.2.1.trans hLoop.2.2.symm)

/- From node 1 to a group, with three hops. -/
def groupPacket : UdpHeader where
  source := 1
  dest := 0xE0000001
  ttl := 3

/- The copies arrive one after another. -/
def threeArrivals : List Ev :=
  [.arrive 0, .arrive 0, .arrive 0]

theorem threeArrivals_lossless :
    ∀ e ∈ threeArrivals, ∃ i, e = .arrive i := by
  intro e hMem
  have hEach : e = .arrive 0 := by
    simpa [threeArrivals] using hMem
  exact ⟨0, hEach⟩

theorem delivered_all_detour :
    3 ∈ (run detourDaemons (initial groupPacket)
      threeArrivals).delivered := by
  have hAll :=
    (delivered_all detour_converged (fun _ _ => rfl)
      groupPacket (by decide)
      threeArrivals_lossless (by decide)).2
  exact
    (hAll (by decide) (by decide) 3).mpr
      ⟨by decide, [2, 3], 10, detour_walk⟩

/-
  In every run, with any losses and in any order, no daemon
  has a packet twice; it is delivered at targets only, at
  each at most once, and has come there along a cheapest
  walk: all its daemons have had the packet in this order.
-/
theorem delivered_once
    (hAll : Converged nodes w groups daemons)
    (sent : UdpHeader)
    (es : List Ev) :
    let n := run daemons (initial sent) es
    n.reached.Nodup ∧
      n.delivered.Nodup ∧
      ∀ v ∈ n.delivered,
        v ∈ targets groups sent.dest ∧
          ∃ p c,
            Walk w sent.source p v c ∧
              (sent.source :: p).Sublist n.visited ∧
              p.length < sent.ttl ∧
              ∀ q d, Walk w sent.source q v d → c ≤ d := by
  intro n
  have hOnce := once_run hAll sent es
  refine ⟨hOnce.apart, hOnce.nodup, ?_⟩
  intro v hMem
  rcases hOnce.delivered v hMem with
    ⟨_, hTarget, p, hLeads, hAlong, hLe⟩
  refine ⟨hTarget, ?_⟩
  rcases hLeads with ⟨rfl, rfl⟩ | ⟨hNe, t, hSome, rfl⟩
  · exact
      ⟨[], 0, .nil _, hAlong, hLe,
        fun q d _ => Nat.zero_le d⟩
  · have hBest := best_ways nodes w
    refine
      ⟨t.stops, t.cost, hBest.walk hNe hSome, hAlong, hLe,
        ?_⟩
    intro q d hWalk
    rcases hAll.le_walk hNe hWalk with ⟨t', hSome', hLeast⟩
    rw [hSome] at hSome'
    cases hSome'
    exact hLeast

/- The cheap walk to node 3 is the one by node 2. -/
theorem detour_only
    {p : List NodeID}
    {c : Nat}
    (hWalk : Walk (edgeCost detourEdges) 1 p 3 c)
    (hAlong : p.Sublist [2, 3])
    (hCheap : c ≤ 10) :
    p = [2, 3] := by
  cases hWalk with
  | cons hFirst hRest =>
      cases hRest with
      | nil _ =>
          have hDirect :
              edgeCost detourEdges 1 3 = some 20 := by
            decide
          rw [hDirect] at hFirst
          cases hFirst
          omega
      | cons _ _ =>
          apply hAlong.eq_of_length_le
          exact
            Nat.succ_le_succ (Nat.succ_le_succ (Nat.zero_le _))

theorem delivered_once_detour :
    let n :=
      run detourDaemons (initial groupPacket) threeArrivals
    n.delivered = [2, 3] ∧
      n.delivered.Nodup ∧
      ∃ c,
        Walk (edgeCost detourEdges) 1 [2, 3] 3 c ∧
          [1, 2, 3].Sublist n.visited ∧
          ∀ q d,
            Walk (edgeCost detourEdges) 1 q 3 d → c ≤ d := by
  intro n
  have hOnce :=
    delivered_once detour_converged groupPacket
      threeArrivals
  have hHere : n.delivered = [2, 3] := by
    decide
  have hVisited : n.visited = [1, 2, 3] := by
    decide
  rcases (hOnce.2.2 3 (by decide)).2 with
    ⟨p, c, hWalk, hAlong, _, hLeast⟩
  have hSub : p.Sublist [2, 3] := by
    have hAll : (1 :: p).Sublist [1, 2, 3] := hVisited ▸ hAlong
    exact List.cons_sublist_cons.mp hAll
  have hTwo :=
    detour_only hWalk hSub (hLeast _ _ detour_walk)
  subst hTwo
  exact ⟨hHere, hOnce.2.1, c, hWalk, hAlong, hLeast⟩

end Network

end P4

end Cs2520
