import Cs2520.P4.Flooding
import Cs2520.P4.Forwarding

/-
  From the flooding of edge costs (`daemon/link_state.c`) to
  the routes: once the flooding rests, the daemons that are
  linked route over the same edges, namely those that their
  sources publish.

  Main declarations:
    * `FloodDaemon.edges`
    * `Overlay.topology`
    * `Overlay.Routed`
    * `Overlay.converged`
-/

------------------------------------------------------------
-- Edges
------------------------------------------------------------

namespace Cs2520

namespace P4

open Lib

/- The flooding of edges: the value of a state is its cost. -/
abbrev EdgeDaemon := FloodDaemon NodeID NodeID Int

abbrev EdgeOverlay := Overlay NodeID NodeID Int

/- `All_Edges`, as the routes are computed from it. -/
def FloodDaemon.edges
    (d : EdgeDaemon) : List Edge :=
  d.states.entries.map (fun e => ⟨e.1.1, e.1.2, e.2.value⟩)

/- What an edge costs; -1 is an edge that is down. -/
def StateData.cost
    (e : StateData Int) : Option Nat :=
  if e.value = -1 then none else some e.value.natAbs

/- Of the states in a list at most one has the key. -/
theorem filter_key
    {β : Type}
    {l : List (Sigma (fun _ : NodeID × NodeID => β))}
    (hNodup : l.NodupKeys)
    (k : NodeID × NodeID) :
    l.filter (fun e => decide (e.1 = k)) =
      ((l.dlookup k).map (fun x => ⟨k, x⟩)).toList := by
  induction l with
  | nil => rfl
  | cons e rest ih =>
      rcases e with ⟨k', x⟩
      rcases List.nodupKeys_cons.mp hNodup with
        ⟨hFresh, hRest⟩
      rw [List.filter_cons, ih hRest]
      by_cases hThis : k = k'
      · subst hThis
        have hNone : List.dlookup k rest = none :=
          List.dlookup_eq_none.mpr hFresh
        rw [hNone, List.dlookup_cons_eq]
        simp
      · rw [List.dlookup_cons_ne _ _ hThis]
        rw [if_neg]
        rw [decide_eq_true_eq]
        exact fun hSame => hThis hSame.symm

/- The cost of an edge is that of the state known. -/
theorem edgeCost_edges
    (d : EdgeDaemon)
    (i j : NodeID) :
    edgeCost d.edges i j =
      (d.know (i, j)).bind StateData.cost := by
  have hOne := filter_key d.states.nodupKeys (i, j)
  have hSplit :
      d.edges.filter
          (fun e =>
            decide (e.cost ≠ -1 ∧ e.src = i ∧ e.dst = j)) =
        ((d.states.entries.filter
            (fun e => decide (e.1 = (i, j)))).filter
          (fun e => decide (e.2.value ≠ -1))).map
          (fun e => ⟨e.1.1, e.1.2, e.2.value⟩) := by
    rw [FloodDaemon.edges, List.filter_map, List.filter_filter]
    congr 2
    funext e
    rcases e with ⟨⟨src, dst⟩, x⟩
    simp [Prod.mk.injEq]
  rw [edgeCost, hSplit, hOne]
  change _ = (d.states.lookup (i, j)).bind StateData.cost
  rw [AList.lookup]
  cases d.states.entries.dlookup (i, j) with
  | none => rfl
  | some x =>
      by_cases hDown : x.value = -1
      · simp [StateData.cost, hDown]
      · simp [StateData.cost, hDown]

end P4

end Cs2520

------------------------------------------------------------
-- Routes over What Is Published
------------------------------------------------------------

namespace Cs2520

namespace P4

open Lib

namespace Overlay

/-
  What the edges cost by the states of their own sources,
  among the nodes.
-/
def topology
    (nodes : Nodes)
    (s : EdgeOverlay)
    (i j : NodeID) : Option Nat :=
  if i ∈ nodes.ids then
    ((s.daemon i).know (i, j)).bind StateData.cost
  else
    none

/-
  The daemons have computed their routes from the edges that
  they know; an address without a node stands for the root.
-/
structure Routed
    (s : EdgeOverlay)
    (nodes : Nodes)
    (root : NodeID)
    (groups : NodeID → Option (List GroupState))
    (daemons : NodeID → Daemon) : Prop where
  address : ∀ v, (daemons v).myAddress = v
  routing :
    ∀ v,
      rrInit v nodes
          (s.daemon (if v ∈ nodes.ids then v else root)).edges =
        some (daemons v).currentRouting
  groups : ∀ v, (daemons v).allGroupsByName = groups
  loops :
    ∀ v e, (s.daemon v).know (v, v) = some e → e.value = -1

/-
  Once the flooding rests and links join all nodes, they
  route over the same edges: those that the nodes publish
  themselves.
-/
theorem converged
    (s : EdgeOverlay)
    (hReach : s.Reachable (-1))
    (hRest : s.AtRest)
    (nodes : Nodes)
    (root : NodeID)
    (hPath :
      ∀ v ∈ nodes.ids, Relation.ReflTransGen s.Linked root v)
    (groups : NodeID → Option (List GroupState))
    (daemons : NodeID → Daemon)
    (hRouted : s.Routed nodes root groups daemons) :
    Converged nodes (s.topology nodes) groups daemons := by
  have hRight := hReach.right
  have hSame :
      ∀ v ∈ nodes.ids,
        (s.daemon root).know = (s.daemon v).know :=
    fun v hMem => hRight.know_eq hRest (hPath v hMem)
  refine
    { address := hRouted.address
      routing := ?_
      groups := hRouted.groups
      loops := ?_ }
  · intro v
    have hInit := hRouted.routing v
    refine ⟨_, ?_, hInit⟩
    have hKnow :
        (s.daemon (if v ∈ nodes.ids then v else root)).know =
          (s.daemon root).know := by
      split
      · next hMem => exact (hSame v hMem).symm
      · rfl
    funext i j
    by_cases hNode : i ∈ nodes.ids
    · rw [edgeCost_edges, hKnow, topology, if_pos hNode,
        hSame i hNode]
    · rw [topology, if_neg hNode]
      refine Option.eq_none_iff_forall_ne_some.mpr ?_
      intro c hCost
      exact hNode (rrInit_ends hInit i j c hCost).1
  · intro v
    rw [topology]
    split
    · cases hLoop : (s.daemon v).know (v, v) with
      | none => rfl
      | some e =>
          rw [Option.bind_some, StateData.cost,
            if_pos (hRouted.loops v e hLoop)]
    · rfl

def twoNodes : Nodes :=
  ⟨[1, 2], by decide⟩

/- Two nodes publish an edge to each other. -/
def edgeCell
    (i j : NodeID) :
    StateCell NodeID NodeID Int :=
  ⟨(i, j), ⟨⟨0, 1⟩, 5⟩⟩

def betweenTwo :
    List (Ev NodeID NodeID Int) :=
  [.connect 1 2 0, .connect 2 1 0,
    .sendAll 1 2, .sendAll 2 1,
    .publish 1 .zero 2 5, .publish 2 .zero 1 5,
    .sendUpdates 1 (fun _ _ => true),
    .sendUpdates 2 (fun _ _ => true),
    .receive 2 1 (edgeCell 1 2) false,
    .receive 1 2 (edgeCell 2 1) false,
    .sendUpdates 1 (fun _ _ => true),
    .sendUpdates 2 (fun _ _ => true)]

def restOfTwo : EdgeOverlay :=
  (machine (-1)).run initial betweenTwo

theorem reachable_restOfTwo :
    restOfTwo.Reachable (-1) :=
  reachable_run .start (by decide)

theorem daemon_restOfTwo
    {a : NodeID}
    (hOther : a ∉ twoNodes.ids) :
    restOfTwo.daemon a = .initial := by
  refine daemon_run ?_ initial
  have hNodes : ∀ e ∈ betweenTwo, e.node ∈ twoNodes.ids := by
    decide
  intro e hMem hSame
  exact hOther (hSame ▸ hNodes e hMem)

theorem atRest_restOfTwo :
    restOfTwo.AtRest := by
  have hNodes :
      ∀ a ∈ twoNodes.ids,
        (restOfTwo.daemon a).changed = [] ∧
          (restOfTwo.daemon a).sendAll = [] ∧
          ∀ b ∈ (restOfTwo.daemon a).neighbors.keys,
            restOfTwo.wire a b = [] := by
    decide
  intro a
  by_cases hThis : a ∈ twoNodes.ids
  · rcases hNodes a hThis with ⟨hChanged, hQueue, hWire⟩
    refine ⟨hChanged, fun b hMem => ⟨?_, hWire b hMem⟩⟩
    rw [hQueue]
    exact List.not_mem_nil
  · rw [daemon_restOfTwo hThis]
    refine ⟨rfl, fun b hMem => ?_⟩
    exact absurd hMem (AList.notMem_empty b)

def pairDaemons
    (v : NodeID) : Daemon where
  myAddress := v
  currentRouting :=
    (rrInit v twoNodes
      (restOfTwo.daemon
        (if v ∈ twoNodes.ids then v else 1)).edges).getD
      ⟨twoNodes, .initial⟩
  allGroupsByName := fun _ => none
  nodeCost := fun _ => 0
  isConnectedNeighbor := fun _ => true

theorem routed_restOfTwo :
    restOfTwo.Routed twoNodes 1 (fun _ => none)
      pairDaemons where
  address := fun _ => rfl
  groups := fun _ => rfl
  routing := by
    intro v
    have hSome :
        (rrInit v twoNodes
          (restOfTwo.daemon
            (if v ∈ twoNodes.ids then v else 1)).edges).isSome
          := by
      by_cases hThis : v ∈ twoNodes.ids
      · have hAll :
            ∀ v ∈ twoNodes.ids,
              (rrInit v twoNodes
                (restOfTwo.daemon v).edges).isSome := by
          decide
        rw [if_pos hThis]
        exact hAll v hThis
      · rw [if_neg hThis]
        rfl
    rcases Option.isSome_iff_exists.mp hSome with ⟨rr, hInit⟩
    rw [pairDaemons]
    dsimp only
    rw [hInit]
    rfl
  loops := by
    intro v e hKnown
    by_cases hThis : v ∈ twoNodes.ids
    · have hNone :
          ∀ v ∈ twoNodes.ids,
            (restOfTwo.daemon v).know (v, v) = none := by
        decide
      rw [hNone v hThis] at hKnown
      cases hKnown
    · rw [daemon_restOfTwo hThis] at hKnown
      cases hKnown

theorem converged_restOfTwo :
    Converged twoNodes (restOfTwo.topology twoNodes)
      (fun _ => none) pairDaemons :=
  converged restOfTwo reachable_restOfTwo atRest_restOfTwo
    twoNodes 1
    (by
      intro v hMem
      have hNodes :
          ∀ v ∈ twoNodes.ids,
            v = 1 ∨ restOfTwo.Linked 1 v := by
        unfold Linked
        decide
      rcases hNodes v hMem with rfl | hLink
      · exact .refl
      · exact .single hLink)
    (fun _ => none) pairDaemons routed_restOfTwo

end Overlay

end P4

end Cs2520
