import Cs2520.P4.Routes
import Mathlib.Data.List.Nodup

/-
  The forwarding of packets by the overlay daemons
  (`daemon/route.c`), each with the routes that it computed
  itself.

  A packet flies to a daemon until it arrives or is lost, in
  any order. `Forward_Data` and the delivery to the clients
  are the events of the model; the cache of forwarding tables
  is left out, as are the other kinds of routing.

  Main declarations:
    * `Daemon.rrGetMcastNeighbors`
    * `Daemon.deliverAndForward`
    * `Network`
    * `Converged`
    * `Converged.nextHop_iff`
    * `Converged.forwards_all`
-/

------------------------------------------------------------
-- One Daemon
------------------------------------------------------------

namespace Cs2520

namespace P4

/- `Is_mcast_addr` -/
def isMcastAddr
    (x : Nat) : Bool :=
  x &&& 0xF0000000 = 0xE0000000 ||
    x &&& 0xFFFFFF00 = 0xFEFF0000

/- `Is_acast_addr` -/
def isAcastAddr
    (x : Nat) : Bool :=
  x &&& 0xF0000000 = 0xF0000000 &&
    x &&& 0xFFFFFF00 != 0xFEFF0000

/- A member of a group, and `status & ACTIVE_GROUP`. -/
structure GroupState where
  nodeNid : NodeID
  active : Bool
deriving DecidableEq

/- `udp_header` -/
structure UdpHeader where
  source : NodeID
  dest : NodeID
  ttl : Nat
deriving DecidableEq

/-
  What a daemon knows: its routes, the members of a group,
  the costs of the nodes and which neighbors are connected.
-/
structure Daemon where
  myAddress : NodeID
  currentRouting : RoutingRegime
  allGroupsByName : NodeID → Option (List GroupState)
  nodeCost : NodeID → Int
  isConnectedNeighbor : NodeID → Bool

namespace Daemon

/- The next hop towards a member. -/
def hopTo
    (d : Daemon)
    (sender : NodeID)
    (g : GroupState) : Option NodeID :=
  if g.active then
    rrGetNextHop d.currentRouting sender g.nodeNid
  else
    none

/- The next hops towards all members, each once. -/
def mcastHops
    (d : Daemon)
    (sender : NodeID)
    (states : List GroupState) : List NodeID :=
  states.foldl
    (fun neighbors g =>
      match d.hopTo sender g with
      | some hop =>
          if hop ∈ neighbors then neighbors
          else neighbors ++ [hop]
      | none => neighbors)
    []

/- The cheaper of two neighbors. -/
def cheaper
    (d : Daemon)
    (hop : NodeID) : Option NodeID → NodeID
  | none => hop
  | some best =>
      if d.nodeCost hop < d.nodeCost best then hop else best

/- The cheapest neighbor, none at a member itself. -/
def bestNextHop
    (d : Daemon)
    (sender : NodeID) :
    List GroupState → Option NodeID → Option NodeID
  | [], best => best
  | g :: states, best =>
      if g.active ∧ g.nodeNid = d.myAddress then
        none
      else
        match d.hopTo sender g with
        | none => d.bestNextHop sender states best
        | some hop =>
            d.bestNextHop sender states
              (some (d.cheaper hop best))

/- `RR_Get_Mcast_Neighbors` -/
def rrGetMcastNeighbors
    (d : Daemon)
    (sender group : NodeID) : Option (List NodeID) :=
  (d.allGroupsByName group).map
    (fun states =>
      if isMcastAddr group then
        d.mcastHops sender states
      else
        (d.bestNextHop sender states none).toList)

/- The local node is an active member. -/
def isMember
    (d : Daemon)
    (group : NodeID) : Bool :=
  ((d.allGroupsByName group).getD []).any
    (fun g => decide (g.nodeNid = d.myAddress) && g.active)

/-
  `Deliver_and_Forward_Data` for `MIN_WEIGHT_ROUTING`: the
  neighbors that get the packet, with its header, and whether
  the clients get it.
-/
def deliverAndForward
    (d : Daemon)
    (hdr : UdpHeader) : List (NodeID × UdpHeader) × Bool :=
  if hdr.ttl = 0 then
    ([], false)
  else
    let hdr := { hdr with ttl := hdr.ttl - 1 }
    if isMcastAddr hdr.dest || isAcastAddr hdr.dest then
      let neighbors :=
        if 0 < hdr.ttl then
          ((d.rrGetMcastNeighbors hdr.source hdr.dest).getD
            []).filter d.isConnectedNeighbor
        else
          []
      (neighbors.map (·, hdr), d.isMember hdr.dest)
    else
      let nextHop :=
        if hdr.dest ≠ d.myAddress ∧ 0 < hdr.ttl then
          rrGetNextHop d.currentRouting hdr.source hdr.dest
        else
          none
      (nextHop.toList.map (·, hdr),
        decide (hdr.dest = d.myAddress))

end Daemon

end P4

end Cs2520

------------------------------------------------------------
-- The Network
------------------------------------------------------------

namespace Cs2520

namespace P4

/-
  The copies of one packet on their way, the daemons that
  have taken one, and those that have delivered it.
-/
structure Network where
  flying : List (NodeID × UdpHeader)
  visited : List NodeID
  delivered : List NodeID

namespace Network

/- A copy arrives, or is lost. -/
inductive Ev where
  | arrive (n : Nat)
  | lose (n : Nat)
deriving DecidableEq

/- The source hands the packet to itself. -/
def initial
    (hdr : UdpHeader) : Network where
  flying := [(hdr.source, hdr)]
  visited := []
  delivered := []

def step
    (daemons : NodeID → Daemon)
    (s : Network) : Ev → Network
  | .arrive n =>
      match s.flying[n]? with
      | none => s
      | some (v, hdr) =>
          let (out, here) := (daemons v).deliverAndForward hdr
          { flying := s.flying.eraseIdx n ++ out
            visited := s.visited ++ [v]
            delivered :=
              if here then s.delivered ++ [v]
              else s.delivered }
  | .lose n => { s with flying := s.flying.eraseIdx n }

def run
    (daemons : NodeID → Daemon)
    (s : Network)
    (es : List Ev) : Network :=
  es.foldl (step daemons) s

end Network

end P4

end Cs2520

------------------------------------------------------------
-- Next Hops
------------------------------------------------------------

namespace Cs2520

namespace P4

open Lib

/- The nodes that a packet is for. -/
def targets
    (groups : NodeID → Option (List GroupState))
    (dest : NodeID) : List NodeID :=
  if isMcastAddr dest || isAcastAddr dest then
    (((groups dest).getD []).filter (·.active)).map
      (·.nodeNid)
  else
    [dest]

/-
  The daemons know the same edges, in whatever order, and the
  same groups; no node has an edge to itself.
-/
structure Converged
    (nodes : Nodes)
    (w : NodeID → NodeID → Option Nat)
    (groups : NodeID → Option (List GroupState))
    (daemons : NodeID → Daemon) : Prop where
  address : ∀ v, (daemons v).myAddress = v
  routing :
    ∀ v, ∃ edges,
      edgeCost edges = w ∧
        rrInit v nodes edges = some (daemons v).currentRouting
  groups : ∀ v, (daemons v).allGroupsByName = groups
  loops : ∀ v, w v v = none

namespace Converged

variable {nodes : Nodes}
variable {w : NodeID → NodeID → Option Nat}
variable {groups : NodeID → Option (List GroupState)}
variable {daemons : NodeID → Daemon}

/- A way only leads from one node to another. -/
theorem mem_nodes
    (h : Converged nodes w groups daemons)
    {s m : NodeID}
    {t : Way NodeID}
    (hNe : s ≠ m)
    (hWay : ways nodes w s m = some t) :
    s ∈ nodes.ids ∧ m ∈ nodes.ids := by
  rcases h.routing s with ⟨edges, rfl, hInit⟩
  have hWalk := (best_ways nodes _).walk hNe hWay
  rcases hWalk.ends hNe with ⟨⟨x, d, hFirst⟩, y, e, hLast⟩
  exact
    ⟨(rrInit_ends hInit _ _ _ hFirst).1,
      (rrInit_ends hInit _ _ _ hLast).2⟩

/-
  The next hop of a daemon is the node that comes after it on
  the way from the source: all daemons follow the same way.
-/
theorem nextHop_iff
    (h : Converged nodes w groups daemons)
    {v s m y : NodeID} :
    rrGetNextHop (daemons v).currentRouting s m = some y ↔
      ∃ a b, (ways nodes w).Leads s m (a ++ v :: y :: b) := by
  rcases h.routing v with ⟨edges, hEdges, hInit⟩
  have hShows := rrInit_shows hInit
  rw [rrGetNextHop, rrFindRoute, hShows.1]
  by_cases hSame : s = m
  · subst hSame
    refine iff_of_false ?_ ?_
    · split
      · next hIn =>
          have hSelf :=
            rrInit_self hInit hIn.1 (hEdges ▸ h.loops s)
          rw [Option.bind_some, hSelf]
          intro hHop
          cases hHop
      · intro hHop
        cases hHop
    · rintro ⟨a, b, ⟨_, hEq⟩ | ⟨hNe, _⟩⟩
      · have hLength := congrArg List.length hEq
        simp only [List.length_append, List.length_cons,
          List.length_nil] at hLength
        omega
      · exact hNe rfl
  · constructor
    · intro hHop
      split at hHop
      · next hIn =>
          rw [Option.bind_some] at hHop
          have hRoute := hShows.2 s hIn.1 m hIn.2 hSame
          rw [hEdges] at hRoute
          cases hWay : ways nodes w s m with
          | none =>
              rw [hWay] at hRoute
              have hNone : _ = _ := hRoute
              rw [hNone] at hHop
              cases hHop
          | some t =>
              rw [hWay] at hRoute
              rw [hRoute.2.2.1, nextAfter_eq_some_iff
                ((best_ways nodes w).nodup hSame hWay)]
                at hHop
              rcases hHop with ⟨a, b, hSplit⟩
              exact
                ⟨a, b, Or.inr ⟨hSame, t, hWay, hSplit.symm⟩⟩
      · cases hHop
    · rintro ⟨a, b, ⟨hEq, _⟩ | ⟨_, t, hWay, hSplit⟩⟩
      · exact absurd hEq.symm hSame
      · have hIn := h.mem_nodes hSame hWay
        have hRoute := hShows.2 s hIn.1 m hIn.2 hSame
        rw [hEdges, hWay] at hRoute
        rw [if_pos hIn, Option.bind_some, hRoute.2.2.1,
          nextAfter_eq_some_iff
            ((best_ways nodes w).nodup hSame hWay)]
        exact ⟨a, b, hSplit.symm⟩

end Converged

end P4

end Cs2520

------------------------------------------------------------
-- One Packet at One Daemon
------------------------------------------------------------

namespace Cs2520

namespace P4

namespace Daemon

variable (d : Daemon)
variable (sender : NodeID)

/- The next hops towards the active members. -/
theorem mem_mcastHops
    (states : List GroupState)
    (y : NodeID) :
    y ∈ d.mcastHops sender states ↔
      ∃ g ∈ states, d.hopTo sender g = some y := by
  induction states using List.reverseRecOn with
  | nil => simp [mcastHops]
  | append_singleton states g ih =>
      rw [mcastHops, List.foldl_concat, ← mcastHops]
      have hLast :
          (∃ g' ∈ states ++ [g], d.hopTo sender g' = some y) ↔
            (∃ g' ∈ states, d.hopTo sender g' = some y) ∨
              d.hopTo sender g = some y := by
        simp [or_and_right, exists_or]
      rw [hLast, ← ih]
      cases d.hopTo sender g with
      | none => simp
      | some hop =>
          dsimp only
          split
          · next hIn =>
              constructor
              · exact Or.inl
              · rintro (hOld | hNew)
                · exact hOld
                · cases hNew
                  exact hIn
          · rw [List.mem_append, List.mem_singleton,
              Option.some_inj, eq_comm (a := hop)]

theorem nodup_mcastHops
    (states : List GroupState) :
    (d.mcastHops sender states).Nodup := by
  induction states using List.reverseRecOn with
  | nil => exact List.nodup_nil
  | append_singleton states g ih =>
      rw [mcastHops, List.foldl_concat, ← mcastHops]
      cases d.hopTo sender g with
      | none => exact ih
      | some hop =>
          dsimp only
          split
          · exact ih
          · next hNew =>
              rw [← List.concat_eq_append]
              exact ih.concat hNew

theorem cheaper_eq
    (hop : NodeID)
    (best : Option NodeID) :
    d.cheaper hop best = hop ∨
      best = some (d.cheaper hop best) := by
  cases best with
  | none => exact Or.inl rfl
  | some old =>
      rw [cheaper]
      split
      · exact Or.inl rfl
      · exact Or.inr rfl

theorem bestNextHop_eq_some
    {states : List GroupState}
    {best : Option NodeID}
    {y : NodeID}
    (hBest : d.bestNextHop sender states best = some y) :
    best = some y ∨
      ∃ g ∈ states, d.hopTo sender g = some y := by
  induction states generalizing best with
  | nil => exact Or.inl hBest
  | cons g states ih =>
      rw [bestNextHop] at hBest
      split at hBest
      · cases hBest
      · cases hHop : d.hopTo sender g with
        | none =>
            rw [hHop] at hBest
            rcases ih hBest with hSome | ⟨g', hMem, hLater⟩
            · exact Or.inl hSome
            · exact
                Or.inr
                  ⟨g', List.mem_cons_of_mem g hMem, hLater⟩
        | some hop =>
            rw [hHop] at hBest
            rcases ih hBest with hSome | ⟨g', hMem, hLater⟩
            · cases hSome
              rcases d.cheaper_eq hop best with hNew | hOld
              · right
                refine ⟨g, List.mem_cons_self, ?_⟩
                rw [hHop, hNew]
              · exact Or.inl hOld
            · exact
                Or.inr
                  ⟨g', List.mem_cons_of_mem g hMem, hLater⟩

theorem hopTo_eq_some
    {g : GroupState}
    {y : NodeID}
    (hHop : d.hopTo sender g = some y) :
    g.active = true ∧
      rrGetNextHop d.currentRouting sender g.nodeNid =
        some y := by
  rw [hopTo] at hHop
  split at hHop
  · next hActive => exact ⟨hActive, hHop⟩
  · cases hHop

/- The neighbors lie on the way to an active member. -/
theorem mem_rrGetMcastNeighbors
    {group y : NodeID}
    (hMem :
      y ∈ (d.rrGetMcastNeighbors sender group).getD []) :
    ∃ g ∈ (d.allGroupsByName group).getD [],
      d.hopTo sender g = some y := by
  rw [rrGetMcastNeighbors] at hMem
  cases hStates : d.allGroupsByName group with
  | none =>
      rw [hStates] at hMem
      cases hMem
  | some states =>
      rw [hStates, Option.map_some, Option.getD_some] at hMem
      rw [Option.getD_some]
      split at hMem
      · exact (d.mem_mcastHops sender states y).mp hMem
      · rcases
          d.bestNextHop_eq_some sender
            (Option.mem_toList.mp hMem) with hNone | hSome
        · cases hNone
        · exact hSome

theorem nodup_rrGetMcastNeighbors
    (group : NodeID) :
    ((d.rrGetMcastNeighbors sender group).getD
      []).Nodup := by
  rw [rrGetMcastNeighbors]
  cases d.allGroupsByName group with
  | none => exact List.nodup_nil
  | some states =>
      rw [Option.map_some, Option.getD_some]
      split
      · exact d.nodup_mcastHops sender states
      · cases d.bestNextHop sender states none with
        | none => exact List.nodup_nil
        | some hop => exact List.nodup_singleton hop

end Daemon

namespace Converged

open Lib

variable {nodes : Nodes}
variable {w : NodeID → NodeID → Option Nat}
variable {groups : NodeID → Option (List GroupState)}
variable {daemons : NodeID → Daemon}

theorem mem_targets
    (dest m : NodeID)
    (hGroup :
      (isMcastAddr dest || isAcastAddr dest) = true) :
    m ∈ targets groups dest ↔
      ∃ g ∈ (groups dest).getD [],
        g.active = true ∧ g.nodeNid = m := by
  rw [targets, if_pos hGroup, List.mem_map]
  simp only [List.mem_filter, and_assoc]

/- At its end a way goes no further. -/
theorem no_hop_home
    (h : Converged nodes w groups daemons)
    {v s m y : NodeID}
    (hHere : m = v) :
    rrGetNextHop (daemons v).currentRouting s m ≠
      some y := by
  subst hHere
  intro hHop
  rcases h.nextHop_iff.mp hHop with ⟨a, b, hLeads⟩
  have hBest := best_ways nodes w
  have hNodup := hBest.leads_nodup hLeads
  rcases hBest.leads_end hLeads with ⟨c, hEnd⟩
  have hLast : m ∈ y :: b := by
    have hTail := congrArg List.getLast? hEnd
    rw [List.getLast?_append_cons, List.getLast?_cons_cons,
      List.getLast?_concat] at hTail
    exact List.mem_of_getLast? hTail
  exact
    (List.nodup_cons.mp
      (List.nodup_append.mp hNodup).2.1).1 hLast

/- A copy is only forwarded along the ways to the targets. -/
theorem mem_forwards
    (h : Converged nodes w groups daemons)
    {v y : NodeID}
    {hdr hdr' : UdpHeader}
    (hMem :
      (y, hdr') ∈ ((daemons v).deliverAndForward hdr).1) :
    hdr' = { hdr with ttl := hdr.ttl - 1 } ∧
      1 < hdr.ttl ∧
      ∃ m ∈ targets groups hdr.dest,
        rrGetNextHop (daemons v).currentRouting hdr.source m =
          some y := by
  rw [Daemon.deliverAndForward] at hMem
  split at hMem
  · cases hMem
  · dsimp only at hMem
    split at hMem
    · next hGroup =>
        rcases List.mem_map.mp hMem with ⟨x, hIn, hEq⟩
        cases hEq
        split at hIn
        · next hPos =>
            rcases
              Daemon.mem_rrGetMcastNeighbors _ _
                (List.mem_filter.mp hIn).1 with
              ⟨g, hState, hHop⟩
            rcases Daemon.hopTo_eq_some _ _ hHop with
              ⟨hActive, hNext⟩
            rw [h.groups] at hState
            exact
              ⟨rfl, by omega, g.nodeNid,
                (mem_targets _ _ hGroup).mpr
                  ⟨g, hState, hActive, rfl⟩,
                hNext⟩
        · cases hIn
    · next hNode =>
        rcases List.mem_map.mp hMem with ⟨x, hIn, hEq⟩
        cases hEq
        rw [Option.mem_toList] at hIn
        split at hIn
        · next hGo =>
            refine ⟨rfl, by omega, hdr.dest, ?_, hIn⟩
            rw [targets, if_neg hNode]
            exact List.mem_cons_self
        · cases hIn

theorem nodup_forwards
    (d : Daemon)
    (hdr : UdpHeader) :
    ((d.deliverAndForward hdr).1.map Prod.fst).Nodup := by
  rw [Daemon.deliverAndForward]
  split
  · exact List.nodup_nil
  · dsimp only
    split
    · rw [List.map_map]
      refine List.Nodup.map (fun x y hSame => hSame) ?_
      split
      · exact (d.nodup_rrGetMcastNeighbors _ _).filter _
      · exact List.nodup_nil
    · rw [List.map_map]
      refine List.Nodup.map (fun x y hSame => hSame) ?_
      split
      · cases rrGetNextHop d.currentRouting hdr.source
          hdr.dest with
        | none => exact List.nodup_nil
        | some hop => exact List.nodup_singleton hop
      · exact List.nodup_nil

/- It is delivered at the targets. -/
theorem delivers_iff
    (h : Converged nodes w groups daemons)
    (v : NodeID)
    (hdr : UdpHeader) :
    ((daemons v).deliverAndForward hdr).2 = true ↔
      0 < hdr.ttl ∧ v ∈ targets groups hdr.dest := by
  rw [Daemon.deliverAndForward]
  split
  · next hNone =>
      exact iff_of_false (by nofun) (by omega)
  · next hSome =>
      have hPos : 0 < hdr.ttl := Nat.pos_of_ne_zero hSome
      dsimp only
      split
      · next hGroup =>
          rw [mem_targets _ _ hGroup, Daemon.isMember,
            h.groups, List.any_eq_true]
          simp only [h.address, Bool.and_eq_true,
            decide_eq_true_eq, hPos, true_and, and_comm]
      · next hNode =>
          rw [targets, if_neg hNode, List.mem_singleton,
            decide_eq_true_eq, h.address]
          simp only [hPos, true_and, eq_comm]

/-
  With all neighbors connected it is forwarded along every
  way to a target, unless it is for any one of a group.
-/
theorem forwards_all
    (h : Converged nodes w groups daemons)
    {v y m : NodeID}
    {hdr : UdpHeader}
    (hConnected :
      (daemons v).isConnectedNeighbor y = true)
    (hEach : isAcastAddr hdr.dest = false)
    (hTtl : 1 < hdr.ttl)
    (hTarget : m ∈ targets groups hdr.dest)
    (hHop :
      rrGetNextHop (daemons v).currentRouting hdr.source m =
        some y) :
    y ∈ ((daemons v).deliverAndForward hdr).1.map
      Prod.fst := by
  have hLive : hdr.ttl ≠ 0 := by omega
  have hLeft : 0 < hdr.ttl - 1 := by omega
  rw [Daemon.deliverAndForward, if_neg hLive]
  dsimp only
  by_cases hGroup :
      (isMcastAddr hdr.dest || isAcastAddr hdr.dest) = true
  · rw [if_pos hGroup, if_pos hLeft]
    dsimp only
    rw [List.map_map, List.mem_map]
    refine ⟨y, List.mem_filter.mpr ⟨?_, hConnected⟩, rfl⟩
    rcases (mem_targets _ _ hGroup).mp hTarget with
      ⟨g, hState, hActive, rfl⟩
    have hMcast : isMcastAddr hdr.dest = true := by
      rw [hEach, Bool.or_false] at hGroup
      exact hGroup
    rw [Daemon.rrGetMcastNeighbors, h.groups]
    cases hStates : groups hdr.dest with
    | none =>
        rw [hStates] at hState
        cases hState
    | some states =>
        rw [hStates, Option.getD_some] at hState
        rw [Option.map_some, Option.getD_some,
          if_pos hMcast, Daemon.mem_mcastHops]
        refine ⟨g, hState, ?_⟩
        rw [Daemon.hopTo, if_pos hActive]
        exact hHop
  · rw [targets, if_neg hGroup, List.mem_singleton]
      at hTarget
    subst hTarget
    have hElse : hdr.dest ≠ (daemons v).myAddress := by
      rw [h.address]
      intro hHere
      exact h.no_hop_home hHere hHop
    rw [if_neg hGroup, if_pos ⟨hElse, hLeft⟩, hHop]
    exact List.mem_cons_self

end Converged

end P4

end Cs2520
