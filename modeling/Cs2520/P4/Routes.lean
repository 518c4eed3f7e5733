import Cs2520.Lib.FloydWarshall

/-
  The routes of the overlay daemons (`daemon/route.c`).

  Every daemon computes the routes between all nodes from the
  edges it knows. The rows and columns of its matrix are the
  nodes here, in the order of their indexes. What depends on
  the daemon is only the forwarder: the neighbor that comes
  after it on the route.

  Main declarations:
    * `Route`
    * `rrInit`
    * `rrGetNextHop`
    * `ways`
    * `Route.Shows`
    * `rrInit_least`
-/

------------------------------------------------------------
-- Routing State
------------------------------------------------------------

namespace Cs2520

namespace P4

/- `Node_ID` -/
abbrev NodeID := Nat

/- The nodes of an edge and its cost, -1 if it is down. -/
structure Edge where
  src : NodeID
  dst : NodeID
  cost : Int
deriving DecidableEq

structure Route where
  distance : Int
  cost : Int
  forwarder : Option NodeID
  predecessor : NodeID
deriving DecidableEq

/- The matrix `Routes`. -/
abbrev Routes := NodeID → NodeID → Route

/- `Node_IDs`, the nodes by their indexes. -/
structure Nodes where
  ids : List NodeID
  increasing : ids.Pairwise (· < ·)

/- `Routing_Regime` -/
structure RoutingRegime where
  nodes : Nodes
  routes : Routes

theorem Nodes.nodup
    (nodes : Nodes) :
    nodes.ids.Nodup :=
  nodes.increasing.imp Nat.ne_of_lt

namespace Routes

/- Every node has a route to itself. -/
def initial : Routes :=
  fun i j =>
    if i = j then
      { distance := 0
        cost := 0
        forwarder := none
        predecessor := 0 }
    else
      { distance := -1
        cost := -1
        forwarder := none
        predecessor := 0 }

def set
    (r : Routes)
    (i j : NodeID)
    (route : Route) : Routes :=
  fun i' j' => if i' = i ∧ j' = j then route else r i' j'

/- An edge whose nodes have no index ends the daemon. -/
def addEdge
    (thisNode : NodeID)
    (nodes : Nodes)
    (r : Routes)
    (e : Edge) : Option Routes :=
  if e.cost = -1 then
    some r
  else if e.src ∈ nodes.ids ∧ e.dst ∈ nodes.ids then
    some
      (r.set e.src e.dst
        { distance := 1
          cost := e.cost.natAbs
          forwarder :=
            if e.src ≠ thisNode then none else some e.dst
          predecessor := e.src })
  else
    none

/- The route from `i` to `j`, if it is cheaper through `k`. -/
def viaNode
    (k i : NodeID)
    (r : Routes)
    (j : NodeID) : Routes :=
  if i = j ∨ j = k ∨ (r k j).cost < 0 then
    r
  else if (r i j).cost < 0 ∨
      (r i k).cost + (r k j).cost < (r i j).cost then
    r.set i j
      { distance := (r i k).distance + (r k j).distance
        cost := (r i k).cost + (r k j).cost
        forwarder :=
          (r k j).forwarder.or (r i k).forwarder
        predecessor := k }
  else
    r

def fromNode
    (nodes : Nodes)
    (k : NodeID)
    (r : Routes)
    (i : NodeID) : Routes :=
  if i = k ∨ (r i k).cost < 0 then
    r
  else
    nodes.ids.foldl (viaNode k i) r

def throughNode
    (nodes : Nodes)
    (r : Routes)
    (k : NodeID) : Routes :=
  nodes.ids.foldl (fromNode nodes k) r

end Routes

/- `RR_Init` -/
def rrInit
    (thisNode : NodeID)
    (nodes : Nodes)
    (edges : List Edge) : Option RoutingRegime :=
  let known :=
    edges.foldlM (Routes.addEdge thisNode nodes) .initial
  known.map
    (fun r => ⟨nodes, nodes.ids.foldl (.throughNode nodes) r⟩)

/- `RR_Find_Route` -/
def rrFindRoute
    (rr : RoutingRegime)
    (src dst : NodeID) : Option Route :=
  if src ∈ rr.nodes.ids ∧ dst ∈ rr.nodes.ids then
    some (rr.routes src dst)
  else
    none

/- `RR_Get_Next_Hop` -/
def rrGetNextHop
    (rr : RoutingRegime)
    (src dst : NodeID) : Option NodeID :=
  (rrFindRoute rr src dst).bind Route.forwarder

end P4

end Cs2520

------------------------------------------------------------
-- Edges
------------------------------------------------------------

namespace Cs2520

namespace P4

open Lib

/-
  What an edge costs. Of several entries for one edge the
  last counts; a negative cost counts as its absolute value.
-/
def edgeCost
    (edges : List Edge)
    (i j : NodeID) : Option Nat :=
  (edges.filter
    (fun e =>
      decide (e.cost ≠ -1 ∧ e.src = i ∧ e.dst = j))).getLast?.map
        (fun e => e.cost.natAbs)

theorem edgeCost_concat
    (edges : List Edge)
    (e : Edge)
    (i j : NodeID) :
    edgeCost (edges ++ [e]) i j =
      if e.cost ≠ -1 ∧ e.src = i ∧ e.dst = j then
        some e.cost.natAbs
      else
        edgeCost edges i j := by
  rw [edgeCost, List.filter_append]
  by_cases hThis : e.cost ≠ -1 ∧ e.src = i ∧ e.dst = j
  · rw [if_pos hThis, List.filter_singleton,
      decide_eq_true hThis]
    simp
  · rw [if_neg hThis, List.filter_singleton,
      decide_eq_false hThis]
    simp [edgeCost]

namespace Routes

theorem set_apply
    (r : Routes)
    (i j i' j' : NodeID)
    (route : Route) :
    r.set i j route i' j' =
      if i' = i ∧ j' = j then route else r i' j' := rfl

/- The route over one edge, if there is one. -/
def overEdge
    (thisNode i j : NodeID) : Option Nat → Route
  | none =>
      { distance := -1
        cost := -1
        forwarder := none
        predecessor := 0 }
  | some c =>
      { distance := 1
        cost := c
        forwarder := if i ≠ thisNode then none else some j
        predecessor := i }

/- The known edges, and their nodes. -/
structure Known
    (thisNode : NodeID)
    (nodes : Nodes)
    (edges : List Edge)
    (r : Routes) : Prop where
  routes :
    ∀ i j, i ≠ j →
      r i j = overEdge thisNode i j (edgeCost edges i j)
  self :
    ∀ i, edgeCost edges i i = none →
      (r i i).forwarder = none
  ends :
    ∀ i j c, edgeCost edges i j = some c →
      i ∈ nodes.ids ∧ j ∈ nodes.ids

theorem known_addEdge
    {thisNode : NodeID}
    {nodes : Nodes}
    {edges : List Edge}
    {r r' : Routes}
    (h : Known thisNode nodes edges r)
    {e : Edge}
    (hAdd : r.addEdge thisNode nodes e = some r') :
    Known thisNode nodes (edges ++ [e]) r' := by
  rw [addEdge] at hAdd
  split at hAdd
  · next hDown =>
      cases hAdd
      constructor
      · intro i j hNe
        rw [edgeCost_concat, if_neg (fun hUp => hUp.1 hDown)]
        exact h.routes i j hNe
      · intro i hNone
        rw [edgeCost_concat, if_neg (fun hUp => hUp.1 hDown)]
          at hNone
        exact h.self i hNone
      · intro i j c hCost
        rw [edgeCost_concat, if_neg (fun hUp => hUp.1 hDown)]
          at hCost
        exact h.ends i j c hCost
  · next hUp =>
      split at hAdd
      · next hNodes =>
          cases hAdd
          constructor
          · intro i j hNe
            rw [edgeCost_concat, set_apply]
            by_cases hThis : i = e.src ∧ j = e.dst
            · rcases hThis with ⟨rfl, rfl⟩
              have hIs :
                  e.cost ≠ -1 ∧ e.src = e.src ∧ e.dst = e.dst
                  := ⟨hUp, rfl, rfl⟩
              rw [if_pos ⟨rfl, rfl⟩, if_pos hIs]
              rfl
            · rw [if_neg hThis,
                if_neg (fun hIs =>
                  hThis ⟨hIs.2.1.symm, hIs.2.2.symm⟩)]
              exact h.routes i j hNe
          · intro i hNone
            rw [edgeCost_concat] at hNone
            split at hNone
            · cases hNone
            · next hOther =>
                rw [set_apply, if_neg (fun hIs =>
                  hOther ⟨hUp, hIs.1.symm, hIs.2.symm⟩)]
                exact h.self i hNone
          · intro i j c hCost
            rw [edgeCost_concat] at hCost
            split at hCost
            · next hThis =>
                rw [← hThis.2.1, ← hThis.2.2]
                exact hNodes
            · exact h.ends i j c hCost
      · cases hAdd

/- The matrix before the rounds. -/
theorem known_edges
    {thisNode : NodeID}
    {nodes : Nodes}
    {edges : List Edge}
    {r : Routes}
    (hAll :
      edges.foldlM (addEdge thisNode nodes) initial =
        some r) :
    Known thisNode nodes edges r := by
  induction edges using List.reverseRecOn generalizing r with
  | nil =>
      cases hAll
      constructor
      · intro i j hNe
        rw [initial, if_neg hNe]
        rfl
      · intro i _
        rw [initial, if_pos rfl]
      · intro i j c hCost
        cases hCost
  | append_singleton edges e ih =>
      rw [List.foldlM_append] at hAll
      rcases Option.bind_eq_some_iff.mp hAll with
        ⟨before, hBefore, hLast⟩
      rw [List.foldlM_cons] at hLast
      rcases Option.bind_eq_some_iff.mp hLast with
        ⟨after, hAfter, hEnd⟩
      cases hEnd
      exact known_addEdge (ih hBefore) hAfter

end Routes

end P4

end Cs2520

------------------------------------------------------------
-- The Loops
------------------------------------------------------------

namespace Cs2520

namespace P4

namespace Routes

variable {nodes : Nodes}
variable {r r' : Routes}
variable {i j k a b : NodeID}

/- One pass changes at most the route it is about. -/
theorem viaNode_frame
    (hOther : ¬ (a = i ∧ b = j ∧ j ≠ k)) :
    viaNode k i r j a b = r a b := by
  rw [viaNode]
  split
  · rfl
  · next hPass =>
      have hRight : j ≠ k := fun hSame =>
        hPass (Or.inr (Or.inl hSame))
      split
      · rw [set_apply, if_neg]
        rintro ⟨hA, hB⟩
        exact hOther ⟨hA, hB, hRight⟩
      · rfl

/- It reads three routes. -/
theorem viaNode_congr
    (hLeft : r i k = r' i k)
    (hRight : r k j = r' k j)
    (hThis : r i j = r' i j) :
    viaNode k i r j i j = viaNode k i r' j i j := by
  rw [viaNode, viaNode, hLeft, hRight, hThis]
  split
  · exact hThis
  · split
    · rw [set_apply, set_apply, if_pos ⟨rfl, rfl⟩,
        if_pos ⟨rfl, rfl⟩]
    · exact hThis

/- The routes of one node, through another. -/
theorem viaNodes_apply
    {js : List NodeID}
    (hNodup : js.Nodup)
    (hApart : i ≠ k) :
    js.foldl (viaNode k i) r a b =
      if a = i ∧ b ∈ js then viaNode k i r b i b
      else r a b := by
  induction js generalizing r with
  | nil => rw [if_neg (fun hIn => List.not_mem_nil hIn.2)]; rfl
  | cons j js ih =>
      rw [List.foldl_cons, ih (List.nodup_cons.mp hNodup).2]
      by_cases hLater : a = i ∧ b ∈ js
      · have hOther : b ≠ j := by
          rintro rfl
          exact (List.nodup_cons.mp hNodup).1 hLater.2
        rw [if_pos hLater,
          if_pos ⟨hLater.1, List.mem_cons_of_mem j hLater.2⟩]
        apply viaNode_congr
        · apply viaNode_frame
          rintro ⟨_, hSame, hNot⟩
          exact hNot hSame.symm
        · apply viaNode_frame
          rintro ⟨hSame, _⟩
          exact hApart hSame.symm
        · apply viaNode_frame
          rintro ⟨_, hSame, _⟩
          exact hOther hSame
      · rw [if_neg hLater]
        by_cases hNow : a = i ∧ b = j
        · rcases hNow with ⟨rfl, rfl⟩
          rw [if_pos ⟨rfl, List.mem_cons_self⟩]
        · rw [viaNode_frame (fun hIs => hNow ⟨hIs.1, hIs.2.1⟩),
            if_neg]
          rintro ⟨hA, hB⟩
          rcases List.mem_cons.mp hB with hHere | hThere
          · exact hNow ⟨hA, hHere⟩
          · exact hLater ⟨hA, hThere⟩

/- The route from `i` to `j` after the round of `k`. -/
def relaxed
    (r : Routes)
    (k i j : NodeID) : Route :=
  if i = k ∨ (r i k).cost < 0 then r i j
  else viaNode k i r j i j

theorem fromNode_apply :
    fromNode nodes k r i a b =
      if a = i ∧ b ∈ nodes.ids then relaxed r k i b
      else r a b := by
  rw [fromNode, relaxed]
  split
  · split
    · next hThis => rw [hThis.1]
    · rfl
  · next hGo =>
      exact
        viaNodes_apply nodes.nodup
          (fun hSame => hGo (Or.inl hSame))

theorem relaxed_congr
    (hLeft : r i k = r' i k)
    (hRight : r k j = r' k j)
    (hThis : r i j = r' i j) :
    relaxed r k i j = relaxed r' k i j := by
  rw [relaxed, relaxed, hLeft, hThis,
    viaNode_congr hLeft hRight hThis]

/- A round leaves the row and the column of its node. -/
theorem relaxed_row :
    relaxed r k k j = r k j := by
  rw [relaxed, if_pos (Or.inl rfl)]

theorem relaxed_column :
    relaxed r k i k = r i k := by
  rw [relaxed]
  split
  · rfl
  · exact viaNode_frame (fun hIs => hIs.2.2 rfl)

/-
  A round works in place, but every route is made from the
  routes before the round.
-/
theorem fromNodes_apply
    {is : List NodeID}
    (hNodup : is.Nodup) :
    is.foldl (fromNode nodes k) r a b =
      if a ∈ is ∧ b ∈ nodes.ids then relaxed r k a b
      else r a b := by
  induction is generalizing r with
  | nil => rw [if_neg (fun hIn => List.not_mem_nil hIn.1)]; rfl
  | cons i is ih =>
      have hRow : ∀ b, fromNode nodes k r i k b = r k b := by
        intro b
        rw [fromNode_apply]
        split
        · next hThis =>
            rw [← hThis.1]
            exact relaxed_row
        · rfl
      have hColumn :
          ∀ a, fromNode nodes k r i a k = r a k := by
        intro a
        rw [fromNode_apply]
        split
        · next hThis =>
            rw [hThis.1]
            exact relaxed_column
        · rfl
      rw [List.foldl_cons, ih (List.nodup_cons.mp hNodup).2]
      by_cases hLater : a ∈ is ∧ b ∈ nodes.ids
      · have hOther : a ≠ i := by
          rintro rfl
          exact (List.nodup_cons.mp hNodup).1 hLater.1
        rw [if_pos hLater,
          if_pos ⟨List.mem_cons_of_mem i hLater.1, hLater.2⟩]
        apply relaxed_congr (hColumn a) (hRow b)
        rw [fromNode_apply, if_neg (fun hIs => hOther hIs.1)]
      · rw [if_neg hLater, fromNode_apply]
        by_cases hNow : a = i ∧ b ∈ nodes.ids
        · rcases hNow with ⟨rfl, hB⟩
          rw [if_pos ⟨rfl, hB⟩,
            if_pos ⟨List.mem_cons_self, hB⟩]
        · rw [if_neg hNow, if_neg]
          rintro ⟨hA, hB⟩
          rcases List.mem_cons.mp hA with hHere | hThere
          · exact hNow ⟨hHere, hB⟩
          · exact hLater ⟨hThere, hB⟩

theorem throughNode_apply
    (hA : a ∈ nodes.ids)
    (hB : b ∈ nodes.ids) :
    throughNode nodes r k a b = relaxed r k a b := by
  rw [throughNode, fromNodes_apply nodes.nodup,
    if_pos ⟨hA, hB⟩]

end Routes

end P4

end Cs2520

------------------------------------------------------------
-- Least Routes
------------------------------------------------------------

namespace Cs2520

namespace P4

open Lib

/- The ways that all daemons with these edges choose. -/
def ways
    (nodes : Nodes)
    (w : NodeID → NodeID → Option Nat) : Table NodeID :=
  nodes.ids.foldl Table.pivot (Table.edges w)

/- What a daemon records of a way. -/
def Route.Shows
    (thisNode i : NodeID)
    (r : Route) : Option (Way NodeID) → Prop
  | none =>
      r =
        { distance := -1
          cost := -1
          forwarder := none
          predecessor := 0 }
  | some t =>
      r.cost = t.cost ∧
        r.distance = t.stops.length ∧
        r.forwarder = nextAfter thisNode i t.stops ∧
        r.predecessor ∈ i :: t.stops.dropLast

namespace Routes

/- The matrix shows a table of ways. -/
def Shows
    (thisNode : NodeID)
    (nodes : Nodes)
    (r : Routes)
    (T : Table NodeID) : Prop :=
  ∀ i ∈ nodes.ids, ∀ j ∈ nodes.ids, i ≠ j →
    (r i j).Shows thisNode i (T i j)

variable {thisNode : NodeID}
variable {nodes : Nodes}
variable {edges : List Edge}
variable {r : Routes}
variable {T : Table NodeID}
variable {i j k : NodeID}

theorem cost_of_shows
    {route : Route}
    {way : Option (Way NodeID)}
    (h : route.Shows thisNode i way) :
    route.cost < 0 ↔ way = none := by
  cases way with
  | none =>
      have hNone : route = _ := h
      rw [hNone]
      exact iff_of_true (by decide) rfl
  | some t =>
      rw [h.1]
      exact
        iff_of_false (Int.not_lt.mpr (Int.natCast_nonneg _))
          (by nofun)

theorem Known.shows
    (h : Known thisNode nodes edges r) :
    Shows thisNode nodes r (Table.edges (edgeCost edges)) := by
  intro i _ j _ hNe
  rw [h.routes i j hNe, Table.edges]
  cases edgeCost edges i j with
  | none => rfl
  | some c =>
      refine ⟨rfl, rfl, ?_, List.mem_cons_self⟩
      rw [overEdge]
      dsimp only
      rw [nextAfter, nextAfter, Option.none_or]
      by_cases hThis : i = thisNode
      · rw [if_pos hThis, if_neg (not_not.mpr hThis)]
      · rw [if_neg hThis, if_pos hThis]

/- The route through a node. -/
theorem shows_join
    {w : NodeID → NodeID → Option Nat}
    {ik kj : Route}
    {s t : Way NodeID}
    (hFirst : ik.Shows thisNode i (some s))
    (hThen : kj.Shows thisNode k (some t))
    (hWalk : Walk w i s.stops k s.cost)
    (hNe : i ≠ k)
    (hSome : t.stops ≠ []) :
    Route.Shows thisNode i
      { distance := ik.distance + kj.distance
        cost := ik.cost + kj.cost
        forwarder := kj.forwarder.or ik.forwarder
        predecessor := k }
      (some (s.join t)) := by
  rcases hFirst with ⟨hCost, hDistance, hNext, _⟩
  rcases hThen with ⟨hCost', hDistance', hNext', _⟩
  rcases hWalk.eq_concat (hWalk.ne_nil hNe) with ⟨q, hStops⟩
  refine ⟨?_, ?_, ?_, ?_⟩
  · rw [hCost, hCost']
    rfl
  · rw [hDistance, hDistance', Way.join, List.length_append]
    rfl
  · rw [hNext, hNext', Way.join, nextAfter_append hWalk]
  · rw [Way.join, List.dropLast_append_of_ne_nil hSome, hStops]
    simp

/- A round makes the pivot of its node. -/
theorem shows_relaxed
    {w : NodeID → NodeID → Option Nat}
    {done : List NodeID}
    (hBest : Table.Best w done T)
    (hShows : Shows thisNode nodes r T)
    (hI : i ∈ nodes.ids)
    (hJ : j ∈ nodes.ids)
    (hK : k ∈ nodes.ids)
    (hNe : i ≠ j) :
    (relaxed r k i j).Shows thisNode i (T.pivot k i j) := by
  have hThis := hShows i hI j hJ hNe
  rw [relaxed, Table.pivot]
  by_cases hLeft : i = k
  · rw [if_pos (Or.inl hLeft), if_pos (Or.inr (Or.inl hLeft))]
    exact hThis
  by_cases hRight : j = k
  · rw [viaNode, if_pos (Or.inr (Or.inl hRight)), ite_self,
      if_pos (Or.inr (Or.inr hRight))]
    exact hThis
  have hFirst := hShows i hI k hK hLeft
  have hThen := hShows k hK j hJ (Ne.symm hRight)
  have hApart : ¬ (i = j ∨ i = k ∨ j = k) := by
    rintro (hSame | hSame | hSame)
    · exact hNe hSame
    · exact hLeft hSame
    · exact hRight hSame
  rw [if_neg hApart]
  cases hTo : T i k with
  | none =>
      rw [if_pos (Or.inr ((cost_of_shows hFirst).mpr hTo))]
      exact hThis
  | some s =>
      have hGo : ¬ (i = k ∨ (r i k).cost < 0) := by
        rw [cost_of_shows hFirst, hTo]
        rintro (hSame | hNone)
        · exact hLeft hSame
        · cases hNone
      rw [if_neg hGo, viaNode]
      cases hOn : T k j with
      | none =>
          rw [if_pos
            (Or.inr (Or.inr ((cost_of_shows hThen).mpr hOn)))]
          exact hThis
      | some t =>
          have hPass :
              ¬ (i = j ∨ j = k ∨ (r k j).cost < 0) := by
            rw [cost_of_shows hThen, hOn]
            rintro (hSame | hSame | hNone)
            · exact hNe hSame
            · exact hRight hSame
            · cases hNone
          rw [hTo] at hFirst
          rw [hOn] at hThen
          have hWalk := hBest.walk hLeft hTo
          have hRest := hBest.walk (Ne.symm hRight) hOn
          have hJoin :=
            shows_join hFirst hThen hWalk hLeft
              (hRest.ne_nil (Ne.symm hRight))
          rw [if_neg hPass]
          dsimp only
          cases hOld : T i j with
          | none =>
              have hFree := (cost_of_shows hThis).mpr hOld
              rw [if_pos (Or.inl hFree), set_apply,
                if_pos ⟨rfl, rfl⟩]
              exact hJoin
          | some old =>
              rw [hOld] at hThis
              have hCosts :
                  ((r i j).cost < 0 ∨
                      (r i k).cost + (r k j).cost <
                        (r i j).cost) ↔
                    (s.join t).cost < old.cost := by
                rw [hThis.1, hFirst.1, hThen.1, Way.join]
                dsimp only
                omega
              rw [Way.shorter]
              by_cases hLess : (s.join t).cost < old.cost
              · rw [if_pos (hCosts.mpr hLess), if_pos hLess,
                  set_apply, if_pos ⟨rfl, rfl⟩]
                exact hJoin
              · rw [if_neg (fun hIs => hLess (hCosts.mp hIs)),
                  if_neg hLess]
                exact hThis

/- All rounds make all pivots. -/
theorem shows_rounds
    {w : NodeID → NodeID → Option Nat}
    {done ks : List NodeID}
    (hBest : Table.Best w done T)
    (hShows : Shows thisNode nodes r T)
    (hNodes : ∀ k ∈ ks, k ∈ nodes.ids) :
    Shows thisNode nodes (ks.foldl (throughNode nodes) r)
      (ks.foldl Table.pivot T) := by
  induction ks generalizing r T done with
  | nil => exact hShows
  | cons k ks ih =>
      apply ih (hBest.pivot k)
      · intro i hI j hJ hNe
        rw [throughNode_apply hI hJ]
        exact
          shows_relaxed hBest hShows hI hJ
            (hNodes k List.mem_cons_self) hNe
      · intro k' hMem
        exact hNodes k' (List.mem_cons_of_mem k hMem)

end Routes

/-
  The routes that any daemon computes show the ways that all
  daemons with these edges choose.
-/
theorem rrInit_shows
    {thisNode : NodeID}
    {nodes : Nodes}
    {edges : List Edge}
    {rr : RoutingRegime}
    (h : rrInit thisNode nodes edges = some rr) :
    rr.nodes = nodes ∧
      rr.routes.Shows thisNode nodes
        (ways nodes (edgeCost edges)) := by
  rcases Option.map_eq_some_iff.mp h with ⟨r, hKnown, rfl⟩
  exact
    ⟨rfl,
      Routes.shows_rounds
        (Table.best_edges (edgeCost edges))
        (Routes.known_edges hKnown).shows
        (fun k hMem => hMem)⟩

/- The rounds leave the route of a node to itself. -/
theorem rounds_self
    {nodes : Nodes}
    {i : NodeID}
    (hI : i ∈ nodes.ids)
    (ks : List NodeID)
    (r : Routes) :
    ks.foldl (Routes.throughNode nodes) r i i = r i i := by
  induction ks generalizing r with
  | nil => rfl
  | cons k ks ih =>
      rw [List.foldl_cons, ih,
        Routes.throughNode_apply hI hI, Routes.relaxed]
      split
      · rfl
      · rw [Routes.viaNode, if_pos (Or.inl rfl)]

/- Without an edge to itself a node is not its neighbor. -/
theorem rrInit_self
    {thisNode : NodeID}
    {nodes : Nodes}
    {edges : List Edge}
    {rr : RoutingRegime}
    (h : rrInit thisNode nodes edges = some rr)
    {i : NodeID}
    (hI : i ∈ nodes.ids)
    (hNone : edgeCost edges i i = none) :
    (rr.routes i i).forwarder = none := by
  rcases Option.map_eq_some_iff.mp h with ⟨r, hKnown, rfl⟩
  dsimp only
  rw [rounds_self hI]
  exact (Routes.known_edges hKnown).self i hNone

/- Edges only join nodes with an index. -/
theorem rrInit_ends
    {thisNode : NodeID}
    {nodes : Nodes}
    {edges : List Edge}
    {rr : RoutingRegime}
    (h : rrInit thisNode nodes edges = some rr)
    (i j : NodeID)
    (c : Nat)
    (hCost : edgeCost edges i j = some c) :
    i ∈ nodes.ids ∧ j ∈ nodes.ids := by
  rcases Option.map_eq_some_iff.mp h with ⟨r, hKnown, rfl⟩
  exact (Routes.known_edges hKnown).ends i j c hCost

theorem best_ways
    (nodes : Nodes)
    (w : NodeID → NodeID → Option Nat) :
    Table.Best w nodes.ids (ways nodes w) :=
  Table.best_pivots w nodes.ids

/-
  The route between two nodes is a cheapest walk over the
  edges that visits no node twice, with its cost, its length,
  a node on it, and the node after the local one. Without a
  walk there is no route.
-/
theorem rrInit_least
    {thisNode : NodeID}
    {nodes : Nodes}
    {edges : List Edge}
    {rr : RoutingRegime}
    (h : rrInit thisNode nodes edges = some rr)
    {i j : NodeID}
    (hI : i ∈ nodes.ids)
    (hJ : j ∈ nodes.ids)
    (hNe : i ≠ j) :
    let route := rr.routes i j
    let w := edgeCost edges
    (route.cost = -1 ↔ ¬ ∃ p c, Walk w i p j c) ∧
      (∀ p c, Walk w i p j c →
        0 ≤ route.cost ∧ route.cost ≤ c) ∧
      (route.cost ≠ -1 →
        ∃ p c,
          Walk w i p j c ∧
            (i :: p).Nodup ∧
            route.cost = c ∧
            route.distance = p.length ∧
            route.predecessor ∈ i :: p.dropLast ∧
            route.forwarder = nextAfter thisNode i p) := by
  intro route w
  have hBest := best_ways nodes (edgeCost edges)
  have hShows := (rrInit_shows h).2 i hI j hJ hNe
  have hLeast :
      ∀ p c, Walk w i p j c →
        ∃ t,
          ways nodes (edgeCost edges) i j = some t ∧
            t.cost ≤ c := by
    intro p c hWalk
    exact
      hBest.least hNe hWalk
        (hWalk.inside
          (fun i j c hEdge => (rrInit_ends h i j c hEdge).1))
  cases hWay : ways nodes (edgeCost edges) i j with
  | none =>
      rw [hWay] at hShows
      have hRoute : route = _ := hShows
      have hNone : ∀ p c, ¬ Walk w i p j c := by
        intro p c hWalk
        rcases hLeast p c hWalk with ⟨t, hSome, _⟩
        rw [hWay] at hSome
        cases hSome
      refine ⟨?_, ?_, ?_⟩
      · rw [hRoute]
        refine iff_of_true rfl ?_
        rintro ⟨p, c, hWalk⟩
        exact hNone p c hWalk
      · intro p c hWalk
        exact absurd hWalk (hNone p c)
      · intro hSome
        rw [hRoute] at hSome
        exact absurd rfl hSome
  | some t =>
      rw [hWay] at hShows
      rcases hShows with ⟨hCost, hDistance, hNext, hOn⟩
      have hWalk := hBest.walk hNe hWay
      have hRoute : route.cost = t.cost := hCost
      refine ⟨?_, ?_, ?_⟩
      · refine iff_of_false ?_ ?_
        · omega
        · exact fun hNone => hNone ⟨_, _, hWalk⟩
      · intro p c hOther
        rcases hLeast p c hOther with ⟨t', hSome, hLe⟩
        rw [hWay] at hSome
        cases hSome
        omega
      · intro _
        exact
          ⟨t.stops, t.cost, hWalk, hBest.nodup hNe hWay,
            hCost, hDistance, hOn, hNext⟩

/- The nodes 1, 2 and 3. -/
def threeNodes : Nodes :=
  ⟨[1, 2, 3], by decide⟩

/- From node 1 to node 3 it is cheaper over node 2. -/
def detourEdges : List Edge :=
  [⟨1, 3, 20⟩, ⟨1, 2, 5⟩, ⟨2, 3, 5⟩]

theorem detour_walk :
    Walk (edgeCost detourEdges) 1 [2, 3] 3 10 :=
  .cons (c := 5) (d := 5) (by decide)
    (.cons (c := 5) (d := 0) (by decide) (.nil 3))

theorem rrInit_least_detour :
    let regime := rrInit 1 threeNodes detourEdges
    (((regime.get (by decide)).routes 1 3).cost ≤ 10) := by
  intro regime
  have hSome :
      regime = some (regime.get (by decide)) :=
    (Option.some_get _).symm
  have hLeast :=
    (rrInit_least hSome (by decide) (by decide)
      (by decide : (1 : NodeID) ≠ 3)).2.1
  exact (hLeast _ _ detour_walk).2

end P4

end Cs2520
