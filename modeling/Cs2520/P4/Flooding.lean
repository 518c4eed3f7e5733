import Cs2520.Lib.Machine
import Cs2520.Lib.Newest
import Cs2520.P4.StateFlood

/-
  Runs of the state flooding in a whole overlay.

  Control links are reliable while their sender holds them
  up; here they may also repeat and reorder. The two ends of
  a link notice on their own when it goes down or comes up.

  Main declarations:
    * `Overlay`
    * `Overlay.act`
    * `Overlay.Reachable`
    * `Overlay.Right`
    * `Overlay.agree_atRest`
    * `Overlay.own_newest`
-/

------------------------------------------------------------
-- The Overlay
------------------------------------------------------------

namespace Cs2520

namespace P4

open Lib

/- All daemons, and the cells on the way between them. -/
structure Overlay (ν δ V : Type) where
  daemon : ν → FloodDaemon ν δ V
  wire : ν → ν → List (StateCell ν δ V)

namespace Overlay

/-
  `again` is a cell that stays on its way, and `lost` the
  cells that a link loses when it goes down.
-/
inductive Ev (ν δ V : Type) where
  | publish (n : ν) (now : Timeval) (dest : δ) (value : V)
  | receive
      (n sender : ν)
      (cell : StateCell ν δ V)
      (again : Bool)
  | sendUpdates (n : ν) (packs : ν → ν × δ → Bool)
  | sendAll (n nbr : ν)
  | connect (n nbr : ν) (slot : Nat)
  | disconnect
      (n nbr : ν)
      (lost : StateCell ν δ V → Bool)

variable {ν δ V : Type}
variable [DecidableEq ν] [DecidableEq δ] [DecidableEq V]

def initial : Overlay ν δ V where
  daemon := fun _ => .initial
  wire := fun _ _ => []

/- One daemon changes. -/
def put
    (s : Overlay ν δ V)
    (n : ν)
    (d : FloodDaemon ν δ V) : Overlay ν δ V :=
  { s with daemon := Function.update s.daemon n d }

/- One daemon changes and sends. -/
def putSend
    (s : Overlay ν δ V)
    (n : ν)
    (r : FloodDaemon ν δ V × List (ν × StateCell ν δ V)) :
    Overlay ν δ V :=
  { s.put n r.1 with
    wire :=
      Function.update s.wire n
        (fun b =>
          s.wire n b ++
            (r.2.filter (fun x => x.1 = b)).map Prod.snd) }

/- The cells from one node to another change. -/
def rewire
    (s : Overlay ν δ V)
    (a b : ν)
    (cells : List (StateCell ν δ V)) : Overlay ν δ V :=
  { s with
    wire :=
      Function.update s.wire a
        (Function.update (s.wire a) b cells) }

def act
    (blank : V)
    (s : Overlay ν δ V) : Ev ν δ V → Overlay ν δ V
  | .publish n now dest value =>
      s.put n ((s.daemon n).publish blank n now dest value)
  | .receive n sender cell again =>
      match (s.daemon n).neighbors.lookup sender with
      | none => s
      | some slot =>
          let cells := s.wire sender n
          (s.put n
            ((s.daemon n).processCell blank n slot
              cell)).rewire sender n
            (if again then cells else cells.erase cell)
  | .sendUpdates n packs =>
      s.putSend n ((s.daemon n).sendStateUpdates packs)
  | .sendAll n nbr =>
      s.putSend n ((s.daemon n).netSendStateAll nbr)
  | .connect n nbr slot =>
      s.put n ((s.daemon n).connect nbr slot)
  | .disconnect n nbr lost =>
      (s.put n ((s.daemon n).disconnect nbr)).rewire n nbr
        ((s.wire n nbr).filter (fun x => !lost x))

/-
  A cell arrives only if it was sent, and a new neighbor gets
  a slot of its own.
-/
def Enabled
    (s : Overlay ν δ V) : Ev ν δ V → Prop
  | .receive n sender cell _ => cell ∈ s.wire sender n
  | .sendAll n nbr => nbr ∈ (s.daemon n).sendAll
  | .connect n _ slot =>
      slot ∉ (s.daemon n).neighbors.entries.map Sigma.snd
  | _ => True

/- The states that runs reach. -/
inductive Reachable
    (blank : V) : Overlay ν δ V → Prop where
  | start : Reachable blank initial
  | step {s e} :
      Reachable blank s →
      Enabled s e →
      Reachable blank (s.act blank e)

end Overlay

end P4

end Cs2520

------------------------------------------------------------
-- Whole Runs
------------------------------------------------------------

namespace Cs2520

namespace P4

open Lib

namespace Overlay

variable {ν δ V : Type}
variable [DecidableEq ν] [DecidableEq δ]
variable {s s' : Overlay ν δ V}
variable {blank : V}

/- A daemon has the state, or it is on its way. -/
def Holds
    (s : Overlay ν δ V)
    (x : StateCell ν δ V) : Prop :=
  (∃ n, (s.daemon n).know x.key = some x.data) ∨
    ∃ a b, x ∈ s.wire a b

/- A daemon knows the state, or a newer one. -/
def Knows
    (s : Overlay ν δ V)
    (n : ν)
    (x : StateCell ν δ V) : Prop :=
  ∃ e, (s.daemon n).know x.key = some e ∧
    x.data.stamp ≤ e.stamp

/-
  A neighbor in a slot knows the state, or will hear of it:
  the state waits for it, or is on its way.
-/
def Informed
    (s : Overlay ν δ V)
    (a b : ν)
    (slot : Nat)
    (x : StateCell ν δ V) : Prop :=
  s.Knows b x ∨
    b ∈ (s.daemon a).sendAll ∨
    (s.daemon a).Pending slot x.key ∨
    ∃ y ∈ s.wire a b,
      y.key = x.key ∧ x.data.stamp ≤ y.data.stamp

/- What every run keeps. -/
structure Right
    (s : Overlay ν δ V) : Prop where
  slots :
    ∀ n, ((s.daemon n).neighbors.entries.map Sigma.snd).Nodup
  coherent :
    ∀ x y, s.Holds x → s.Holds y → x.key = y.key →
      x.data.stamp = y.data.stamp → x.data = y.data
  own : ∀ x, s.Holds x → s.Knows x.key.1 x
  heard : ∀ a b x, x ∈ s.wire a b → s.Knows a x
  informed :
    ∀ a b slot,
      (s.daemon a).neighbors.lookup b = some slot →
        ∀ x, (s.daemon a).know x.key = some x.data →
          s.Informed a b slot x

theorem right_initial :
    (initial : Overlay ν δ V).Right where
  slots := fun _ => List.nodup_nil
  coherent := by
    rintro x y (⟨n, hKnown⟩ | ⟨a, b, hMem⟩) _ _ _
    · cases hKnown
    · cases hMem
  own := by
    rintro x (⟨n, hKnown⟩ | ⟨a, b, hMem⟩)
    · cases hKnown
    · cases hMem
  heard := fun a b x hMem => by cases hMem
  informed := fun a b slot hNeighbor => by cases hNeighbor

/-
  What a step adds is known from before, or is a state that
  its source has just published, and newer than all others.
-/
structure Learns
    (s s' : Overlay ν δ V) : Prop where
  grows :
    ∀ n,
      Below StateData.stamp (s.daemon n).know
        (s'.daemon n).know
  holds :
    ∀ x, s'.Holds x →
      s.Holds x ∨
        (s'.daemon x.key.1).know x.key = some x.data ∧
          ∀ y, s.Holds y → y.key = x.key →
            y.data.stamp < x.data.stamp
  heard :
    ∀ a b x, x ∈ s'.wire a b →
      x ∈ s.wire a b ∨ s'.Knows a x

theorem Knows.grow
    {n : ν}
    {x : StateCell ν δ V}
    (h : s.Knows n x)
    (hGrows :
      Below StateData.stamp (s.daemon n).know
        (s'.daemon n).know) :
    s'.Knows n x := by
  rcases h with ⟨e, hKnown, hLe⟩
  rcases hGrows x.key e hKnown with ⟨e', hNext, hMore⟩
  exact ⟨e', hNext, le_trans hLe hMore⟩

/- The part of the invariant that learning keeps. -/
theorem Right.learn
    (h : s.Right)
    (hLearns : Learns s s')
    (hSlots :
      ∀ n,
        ((s'.daemon n).neighbors.entries.map Sigma.snd).Nodup)
    (hInformed :
      ∀ a b slot,
        (s'.daemon a).neighbors.lookup b = some slot →
          ∀ x, (s'.daemon a).know x.key = some x.data →
            s'.Informed a b slot x) :
    s'.Right where
  slots := hSlots
  coherent := by
    intro x y hLeft hRight hKey hStamp
    rcases hLearns.holds x hLeft with hOld | ⟨hNew, hLast⟩
    · rcases hLearns.holds y hRight with
        hOld' | ⟨_, hLast⟩
      · exact h.coherent x y hOld hOld' hKey hStamp
      · exact absurd hStamp (ne_of_lt (hLast x hOld hKey))
    · rcases hLearns.holds y hRight with
        hOld | ⟨hNew', _⟩
      · exact
          absurd hStamp (ne_of_gt (hLast y hOld hKey.symm))
      · rw [hKey, hNew'] at hNew
        exact (Option.some.inj hNew).symm
  own := by
    intro x hHolds
    rcases hLearns.holds x hHolds with hOld | ⟨hNew, _⟩
    · exact (h.own x hOld).grow (hLearns.grows _)
    · exact ⟨x.data, hNew, le_refl _⟩
  heard := by
    intro a b x hMem
    rcases hLearns.heard a b x hMem with hOld | hNew
    · exact (h.heard a b x hOld).grow (hLearns.grows a)
    · exact hNew
  informed := hInformed

/- A neighbor stays informed over a step. -/
theorem Informed.step
    {a b : ν}
    {slot : Nat}
    {x : StateCell ν δ V}
    (h : s.Informed a b slot x)
    (hGrows :
      Below StateData.stamp (s.daemon b).know
        (s'.daemon b).know)
    (hAll :
      b ∈ (s.daemon a).sendAll → s'.Informed a b slot x)
    (hWaits :
      (s.daemon a).Pending slot x.key →
        s'.Informed a b slot x)
    (hWire :
      ∀ y ∈ s.wire a b, y ∈ s'.wire a b ∨ s'.Knows b y) :
    s'.Informed a b slot x := by
  rcases h with hKnows | hQueued | hPending |
    ⟨y, hMem, hKey, hLe⟩
  · exact Or.inl (hKnows.grow hGrows)
  · exact hAll hQueued
  · exact hWaits hPending
  · rcases hWire y hMem with hStays | ⟨e, hKnown, hMore⟩
    · exact Or.inr (Or.inr (Or.inr ⟨y, hStays, hKey, hLe⟩))
    · rw [hKey] at hKnown
      exact Or.inl ⟨e, hKnown, le_trans hLe hMore⟩

/- A neighbor in the queue for all states gets them. -/
theorem informed_queued
    {n b : ν}
    {slot : Nat}
    {x : StateCell ν δ V}
    {d : FloodDaemon ν δ V}
    (hDaemon : s.daemon n = d)
    (hQueued : b ∈ d.sendAll) :
    s.Informed n b slot x := by
  subst hDaemon
  exact Or.inr (Or.inl hQueued)

/- So does one for whose slot the state waits. -/
theorem informed_pending
    {n b : ν}
    {slot : Nat}
    {x : StateCell ν δ V}
    {d : FloodDaemon ν δ V}
    (hDaemon : s.daemon n = d)
    (hPending : d.Pending slot x.key) :
    s.Informed n b slot x := by
  subst hDaemon
  exact Or.inr (Or.inr (Or.inl hPending))

/- It stays informed while its sender rests. -/
theorem Informed.rest
    {a b : ν}
    {slot : Nat}
    {x : StateCell ν δ V}
    (h : s.Informed a b slot x)
    (hDaemon : s'.daemon a = s.daemon a)
    (hGrows :
      Below StateData.stamp (s.daemon b).know
        (s'.daemon b).know)
    (hWire :
      ∀ y ∈ s.wire a b, y ∈ s'.wire a b ∨ s'.Knows b y) :
    s'.Informed a b slot x := by
  refine h.step hGrows ?_ ?_ hWire
  · intro hQueued
    exact informed_queued hDaemon hQueued
  · intro hPending
    exact informed_pending hDaemon hPending

omit [DecidableEq δ] in
theorem daemon_put
    (s : Overlay ν δ V)
    (n : ν)
    (d : FloodDaemon ν δ V) :
    (s.put n d).daemon n = d := by
  rw [put]
  exact Function.update_self n d s.daemon

omit [DecidableEq δ] in
theorem daemon_put_ne
    (s : Overlay ν δ V)
    {a n : ν}
    (d : FloodDaemon ν δ V)
    (hNe : a ≠ n) :
    (s.put n d).daemon a = s.daemon a := by
  rw [put]
  exact Function.update_of_ne hNe d s.daemon

/-
  A step at one node: what is to be shown of the node itself,
  as the others rest.
-/
theorem Right.change
    {n : ν}
    (h : s.Right)
    (hOthers : ∀ a, a ≠ n → s'.daemon a = s.daemon a)
    (hLearns : Learns s s')
    (hSlots :
      ((s'.daemon n).neighbors.entries.map Sigma.snd).Nodup)
    (hWire :
      ∀ a b, a ≠ n → ∀ y ∈ s.wire a b,
        y ∈ s'.wire a b ∨ s'.Knows b y)
    (hInformed :
      ∀ b slot,
        (s'.daemon n).neighbors.lookup b = some slot →
          ∀ x, (s'.daemon n).know x.key = some x.data →
            s'.Informed n b slot x) :
    s'.Right := by
  refine h.learn hLearns ?_ ?_
  · intro a
    by_cases hThis : a = n
    · rw [hThis]
      exact hSlots
    · rw [hOthers a hThis]
      exact h.slots a
  · intro a b slot hNeighbor x hKnown
    by_cases hThis : a = n
    · subst hThis
      exact hInformed b slot hNeighbor x hKnown
    · have hDaemon := hOthers a hThis
      rw [hDaemon] at hNeighbor hKnown
      exact
        (h.informed a b slot hNeighbor x hKnown).rest hDaemon
          (hLearns.grows b) (hWire a b hThis)

/- All daemons grow if the one that changes does. -/
theorem below_put
    {n : ν}
    {d : FloodDaemon ν δ V}
    (hGrows :
      Below StateData.stamp (s.daemon n).know d.know)
    (a : ν) :
    Below StateData.stamp (s.daemon a).know
      ((s.put n d).daemon a).know := by
  by_cases hThis : a = n
  · subst hThis
    rw [daemon_put]
    exact hGrows
  · rw [daemon_put_ne s d hThis]
    exact .refl _

theorem below_put_same
    {n : ν}
    {d : FloodDaemon ν δ V}
    (hSame : d.states = (s.daemon n).states)
    (a : ν) :
    Below StateData.stamp (s.daemon a).know
      ((s.put n d).daemon a).know := by
  refine below_put ?_ a
  rw [FloodDaemon.know_congr hSame]
  exact .refl _

/- What is held was held, or the node that changes has it. -/
theorem holds_put
    {n : ν}
    {d : FloodDaemon ν δ V}
    {x : StateCell ν δ V}
    (hHolds : (s.put n d).Holds x) :
    s.Holds x ∨ d.know x.key = some x.data := by
  rcases hHolds with ⟨m, hKnown⟩ | hSent
  · by_cases hThis : m = n
    · subst hThis
      rw [daemon_put] at hKnown
      exact Or.inr hKnown
    · rw [daemon_put_ne s d hThis] at hKnown
      exact Or.inl (Or.inl ⟨m, hKnown⟩)
  · exact Or.inl (Or.inr hSent)

/- Setting a state of one's own only raises it. -/
theorem below_published
    {d d' : FloodDaemon ν δ V}
    {key : ν × δ}
    (h : FloodDaemon.Published d d' key) :
    Below StateData.stamp d.know d'.know := by
  intro k e hKnown
  by_cases hKey : k = key
  · subst hKey
    rcases h.raises with ⟨x, hNew, hLess⟩
    exact ⟨x, hNew, le_of_lt (hLess e hKnown)⟩
  · rw [← h.others k hKey] at hKnown
    exact ⟨e, hKnown, le_refl _⟩

/- A node sets a state of its own. -/
theorem Right.publish
    {n : ν}
    {dest : δ}
    {d' : FloodDaemon ν δ V}
    (h : s.Right)
    (hNew :
      FloodDaemon.Published (s.daemon n) d' (n, dest)) :
    (s.put n d').Right := by
  have hGrows := below_put (below_published hNew)
  have hDaemon := daemon_put s n d'
  rcases hNew.raises with ⟨top, hTop, hLast⟩
  refine
    h.change (fun a hNe => daemon_put_ne s d' hNe)
      { grows := hGrows
        holds := ?_
        heard := fun a b x hMem => Or.inl hMem }
      ?_ (fun a b _ y hMem => Or.inl hMem) ?_
  · intro x hHolds
    rcases holds_put hHolds with hOld | hKnown
    · exact Or.inl hOld
    by_cases hKey : x.key = (n, dest)
    · right
      rw [hKey] at hKnown ⊢
      dsimp only
      rw [hDaemon]
      refine ⟨hKnown, ?_⟩
      intro y hOld hSame
      rcases h.own y hOld with ⟨e, hOwn, hLe⟩
      rw [hSame] at hOwn
      rw [hTop] at hKnown
      rw [← Option.some.inj hKnown]
      exact lt_of_le_of_lt hLe (hLast e hOwn)
    · rw [hNew.others _ hKey] at hKnown
      exact Or.inl (Or.inl ⟨n, hKnown⟩)
  · rw [hDaemon, hNew.neighbors]
    exact h.slots n
  · intro b slot hNeighbor x hKnown
    rw [hDaemon] at hNeighbor hKnown
    rw [hNew.neighbors] at hNeighbor
    have hWaits :
        x.key = (n, dest) ∨
            (s.daemon n).Pending slot x.key →
          (s.put n d').Informed n b slot x := by
      intro hSome
      exact
        informed_pending hDaemon
          (hNew.pending slot x.key hSome)
    by_cases hKey : x.key = (n, dest)
    · exact hWaits (Or.inl hKey)
    · rw [hNew.others _ hKey] at hKnown
      refine
        (h.informed n b slot hNeighbor x hKnown).step
          (hGrows b) ?_ (fun hSome => hWaits (Or.inr hSome))
          (fun y hMem => Or.inl hMem)
      intro hQueued
      rw [← hNew.sendAll] at hQueued
      exact informed_queued hDaemon hQueued

omit [DecidableEq δ] in
theorem wire_rewire
    (s : Overlay ν δ V)
    (a b : ν)
    (cells : List (StateCell ν δ V)) :
    (s.rewire a b cells).wire a b = cells := by
  rw [rewire]
  dsimp only
  rw [Function.update_self, Function.update_self]

omit [DecidableEq δ] in
theorem wire_rewire_ne
    (s : Overlay ν δ V)
    {a b a' b' : ν}
    (cells : List (StateCell ν δ V))
    (hNe : a' ≠ a ∨ b' ≠ b) :
    (s.rewire a b cells).wire a' b' = s.wire a' b' := by
  rw [rewire]
  dsimp only
  by_cases hThis : a' = a
  · subst hThis
    rw [Function.update_self]
    rcases hNe with hNe | hNe
    · exact absurd rfl hNe
    · rw [Function.update_of_ne hNe]
  · rw [Function.update_of_ne hThis]

omit [DecidableEq δ] in
/- A wire that only loses cells holds nothing new. -/
theorem mem_rewire
    {a b a' b' : ν}
    {cells : List (StateCell ν δ V)}
    {x : StateCell ν δ V}
    (hSub : ∀ y ∈ cells, y ∈ s.wire a b)
    (hMem : x ∈ (s.rewire a b cells).wire a' b') :
    x ∈ s.wire a' b' := by
  by_cases hThis : a' = a ∧ b' = b
  · rcases hThis with ⟨rfl, rfl⟩
    rw [wire_rewire] at hMem
    exact hSub x hMem
  · rw [wire_rewire_ne s cells (not_and_or.mp hThis)] at hMem
    exact hMem

/- Two neighbors have two slots. -/
theorem eq_of_slot
    {l : AList (fun _ : ν => Nat)}
    {a b : ν}
    {slot : Nat}
    (hSlots : (l.entries.map Sigma.snd).Nodup)
    (hLeft : l.lookup a = some slot)
    (hRight : l.lookup b = some slot) :
    a = b := by
  have hSame :=
    List.inj_on_of_nodup_map hSlots
      (AList.mem_lookup_iff.mp hLeft)
      (AList.mem_lookup_iff.mp hRight) rfl
  exact congrArg Sigma.fst hSame

theorem below_processed
    {d d' : FloodDaemon ν δ V}
    {slot : Nat}
    {cell : StateCell ν δ V}
    (h : FloodDaemon.Processed d d' slot cell) :
    Below StateData.stamp d.know d'.know := by
  intro k e hKnown
  by_cases hKey : k = cell.key
  · subst hKey
    rcases h.change with hSame | ⟨hTop, hLast, _⟩
    · exact ⟨e, hSame.trans hKnown, le_refl _⟩
    · exact ⟨cell.data, hTop, le_of_lt (hLast e hKnown)⟩
  · rw [← h.others k hKey] at hKnown
    exact ⟨e, hKnown, le_refl _⟩

/- A cell arrives; the rest of its wire stays. -/
theorem Right.receive
    {n sender : ν}
    {slot : Nat}
    {cell : StateCell ν δ V}
    {cells : List (StateCell ν δ V)}
    {d' : FloodDaemon ν δ V}
    (h : s.Right)
    (hSender : (s.daemon n).neighbors.lookup sender = some slot)
    (hMem : cell ∈ s.wire sender n)
    (hNew : FloodDaemon.Processed (s.daemon n) d' slot cell)
    (hSub : ∀ y ∈ cells, y ∈ s.wire sender n)
    (hRest : ∀ y ∈ s.wire sender n, y ∈ cells ∨ y = cell) :
    ((s.put n d').rewire sender n cells).Right := by
  have hGrows := below_put (below_processed hNew)
  have hDaemon := daemon_put s n d'
  let s' := (s.put n d').rewire sender n cells
  have hTold : s'.Knows sender cell :=
    (h.heard sender n cell hMem).grow (hGrows sender)
  change Right s'
  refine
    h.change
      (fun a hNe => daemon_put_ne s d' hNe)
      { grows := hGrows
        holds := ?_
        heard := ?_ }
      ?_ ?_ ?_
  · rintro x (⟨m, hKnown⟩ | ⟨a, b, hSent⟩)
    · rcases holds_put (Or.inl ⟨m, hKnown⟩) with
        hOld | hHere
      · exact Or.inl hOld
      · by_cases hKey : x.key = cell.key
        · rw [hKey] at hHere
          rcases hNew.change with hSame | ⟨hTop, _⟩
          · rw [hSame, ← hKey] at hHere
            exact Or.inl (Or.inl ⟨n, hHere⟩)
          · rw [hTop] at hHere
            have hEq : x = cell := by
              cases x
              cases cell
              cases hKey
              cases hHere
              rfl
            rw [hEq]
            exact Or.inl (Or.inr ⟨sender, n, hMem⟩)
        · rw [hNew.others _ hKey] at hHere
          exact Or.inl (Or.inl ⟨n, hHere⟩)
    · exact Or.inl (Or.inr ⟨a, b, mem_rewire hSub hSent⟩)
  · intro a b x hSent
    exact Or.inl (mem_rewire hSub hSent)
  · change ((s.put n d').daemon n).neighbors.entries.map _
      |>.Nodup
    rw [hDaemon, hNew.neighbors]
    exact h.slots n
  · intro a b _ y hBefore
    by_cases hThis : a = sender ∧ b = n
    · rcases hThis with ⟨rfl, rfl⟩
      rcases hRest y hBefore with hStays | rfl
      · left
        rw [wire_rewire]
        exact hStays
      · right
        rcases hNew.knows with ⟨e, hKnown, hLe⟩
        refine ⟨e, ?_, hLe⟩
        change ((s.put b d').daemon b).know y.key = some e
        rw [hDaemon]
        exact hKnown
    · left
      rw [wire_rewire_ne _ cells (not_and_or.mp hThis)]
      exact hBefore
  · intro b slot' hNeighbor x hKnown
    by_cases hSelf : b = n
    · rw [hSelf]
      exact Or.inl ⟨x.data, hKnown, le_refl _⟩
    have hWire : s'.wire n b = s.wire n b :=
      wire_rewire_ne _ cells (Or.inr hSelf)
    change ((s.put n d').daemon n).neighbors.lookup b = _
      at hNeighbor
    change ((s.put n d').daemon n).know x.key = _ at hKnown
    rw [hDaemon] at hNeighbor hKnown
    rw [hNew.neighbors] at hNeighbor
    -- the neighbor that the cell comes from knows it
    have hSource :
        slot' = slot →
          x.key = cell.key →
            x.data.stamp ≤ cell.data.stamp →
              s'.Informed n b slot' x := by
      intro hSlot hKey hLe
      rw [hSlot] at hNeighbor
      have hThis : b = sender :=
        eq_of_slot (h.slots n) hNeighbor hSender
      rcases hTold with ⟨e, hHas, hMore⟩
      rw [hThis]
      rw [← hKey] at hHas
      exact Or.inl ⟨e, hHas, le_trans hLe hMore⟩
    have hWaits :
        d'.Pending slot' x.key → s'.Informed n b slot' x := by
      intro hPending
      exact informed_pending hDaemon hPending
    have hOld :
        (s.daemon n).know x.key = some x.data →
          s'.Informed n b slot' x := by
      intro hBefore
      refine
        (h.informed n b slot' hNeighbor x hBefore).step
          (hGrows b) ?_ ?_ (fun y hY => Or.inl (hWire ▸ hY))
      · intro hQueued
        rw [← hNew.sendAll] at hQueued
        exact informed_queued hDaemon hQueued
      · intro hPending
        rcases hNew.pending slot' x.key hPending with
          hStays | ⟨hSlot, hKey, hLe⟩
        · exact hWaits hStays
        · exact hSource hSlot hKey (hLe x.data hKnown)
    by_cases hKey : x.key = cell.key
    · rcases hNew.change with hSame | ⟨hTop, _, hAll⟩
      · rw [← hKey] at hSame
        exact hOld (hSame.symm.trans hKnown)
      · by_cases hSlot : slot' = slot
        · rw [hKey, hTop] at hKnown
          refine hSource hSlot hKey ?_
          rw [Option.some.inj hKnown]
        · refine hWaits ?_
          rw [hKey]
          exact hAll slot' hSlot
    · rw [hNew.others _ hKey] at hKnown
      exact hOld hKnown

omit [DecidableEq δ] in
theorem mem_putSend
    {n a b : ν}
    {d : FloodDaemon ν δ V}
    {out : List (ν × StateCell ν δ V)}
    {x : StateCell ν δ V} :
    x ∈ (s.putSend n (d, out)).wire a b ↔
      x ∈ s.wire a b ∨ (a = n ∧ (b, x) ∈ out) := by
  have hOut :
      x ∈ (out.filter (fun y => y.1 = b)).map Prod.snd ↔
        (b, x) ∈ out := by
    rw [List.mem_map]
    constructor
    · rintro ⟨⟨b', x'⟩, hMem, rfl⟩
      rcases List.mem_filter.mp hMem with ⟨hOut, hTo⟩
      rw [← of_decide_eq_true hTo]
      exact hOut
    · intro hMem
      refine ⟨(b, x), List.mem_filter.mpr ⟨hMem, ?_⟩, rfl⟩
      exact decide_eq_true rfl
  rw [putSend]
  dsimp only
  by_cases hThis : a = n
  · subst hThis
    rw [Function.update_self, List.mem_append, hOut]
    exact or_congr_right (iff_and_self.mpr fun _ => rfl)
  · rw [Function.update_of_ne hThis]
    exact (or_iff_left (fun hBoth => hThis hBoth.1)).symm

/- A node sends what it knows; no update gets lost. -/
theorem Right.send
    {n : ν}
    {d' : FloodDaemon ν δ V}
    {out : List (ν × StateCell ν δ V)}
    (h : s.Right)
    (hSends : FloodDaemon.Sends (s.daemon n) d' out)
    (hQueued :
      ∀ b x, (s.daemon n).know x.key = some x.data →
        b ∈ (s.daemon n).sendAll →
          b ∈ d'.sendAll ∨ (b, x) ∈ out)
    (hPending :
      ∀ b slot x,
        (s.daemon n).neighbors.lookup b = some slot →
          (s.daemon n).know x.key = some x.data →
            (s.daemon n).Pending slot x.key →
              d'.Pending slot x.key ∨ (b, x) ∈ out) :
    (s.putSend n (d', out)).Right := by
  have hDaemon := daemon_put s n d'
  have hKnow := FloodDaemon.know_congr hSends.states
  have hSame : ∀ a, ((s.put n d').daemon a).know =
      (s.daemon a).know := by
    intro a
    by_cases hThis : a = n
    · rw [hThis, hDaemon, hKnow]
    · rw [daemon_put_ne s d' hThis]
  have hGrows :
      ∀ a, Below StateData.stamp (s.daemon a).know
        ((s.putSend n (d', out)).daemon a).know := by
    intro a
    change Below _ _ ((s.put n d').daemon a).know
    rw [hSame]
    exact .refl _
  refine
    h.change (fun a hNe => daemon_put_ne s d' hNe)
      { grows := hGrows
        holds := ?_
        heard := ?_ }
      ?_ ?_ ?_
  · rintro x (⟨m, hKnown⟩ | ⟨a, b, hSent⟩)
    · change ((s.put n d').daemon m).know x.key = _ at hKnown
      rw [hSame] at hKnown
      exact Or.inl (Or.inl ⟨m, hKnown⟩)
    · rcases mem_putSend.mp hSent with hOld | ⟨_, hNew⟩
      · exact Or.inl (Or.inr ⟨a, b, hOld⟩)
      · exact Or.inl (Or.inl ⟨n, hSends.genuine _ hNew⟩)
  · intro a b x hSent
    rcases mem_putSend.mp hSent with hOld | ⟨rfl, hNew⟩
    · exact Or.inl hOld
    · right
      have hKnown := hSends.genuine _ hNew
      refine ⟨x.data, ?_, le_refl _⟩
      change ((s.put a d').daemon a).know x.key = _
      rw [hSame]
      exact hKnown
  · change ((s.put n d').daemon n).neighbors.entries.map _
      |>.Nodup
    rw [hDaemon, hSends.neighbors]
    exact h.slots n
  · intro a b _ y hMem
    exact Or.inl (mem_putSend.mpr (Or.inl hMem))
  · intro b slot hNeighbor x hKnown
    change ((s.put n d').daemon n).neighbors.lookup b = _
      at hNeighbor
    change ((s.put n d').daemon n).know x.key = _ at hKnown
    rw [hDaemon, hSends.neighbors] at hNeighbor
    rw [hSame] at hKnown
    have hSent :
        (b, x) ∈ out →
          (s.putSend n (d', out)).Informed n b slot x := by
      intro hMem
      refine Or.inr (Or.inr (Or.inr ⟨x, ?_, rfl, le_refl _⟩))
      exact mem_putSend.mpr (Or.inr ⟨rfl, hMem⟩)
    refine
      (h.informed n b slot hNeighbor x hKnown).step
        (hGrows b) ?_ ?_
        (fun y hMem => Or.inl (mem_putSend.mpr (Or.inl hMem)))
    · intro hAll
      rcases hQueued b x hKnown hAll with hStays | hNow
      · exact informed_queued hDaemon hStays
      · exact hSent hNow
    · intro hWaits
      rcases hPending b slot x hNeighbor hKnown hWaits with
        hStays | hNow
      · exact informed_pending hDaemon hStays
      · exact hSent hNow

/- A link comes up: all states are queued for it. -/
theorem Right.connect
    {n nbr : ν}
    {slot : Nat}
    (h : s.Right)
    (hFree :
      slot ∉ (s.daemon n).neighbors.entries.map Sigma.snd) :
    (s.put n ((s.daemon n).connect nbr slot)).Right := by
  have hDaemon := daemon_put s n ((s.daemon n).connect nbr slot)
  have hGrows :=
    below_put_same (s := s) (n := n)
      (d := (s.daemon n).connect nbr slot) rfl
  refine
    h.change (fun a hNe => daemon_put_ne s _ hNe)
      { grows := hGrows
        holds := ?_
        heard := fun a b x hMem => Or.inl hMem }
      ?_ (fun a b _ y hMem => Or.inl hMem) ?_
  · intro x hHolds
    rcases holds_put hHolds with hOld | hKnown
    · exact Or.inl hOld
    · exact Or.inl (Or.inl ⟨n, hKnown⟩)
  · rw [hDaemon, FloodDaemon.connect, AList.entries_insert,
      List.map_cons, List.nodup_cons]
    have hFewer :=
      (List.kerase_sublist nbr
        (s.daemon n).neighbors.entries).map Sigma.snd
    exact
      ⟨fun hMem => hFree (hFewer.subset hMem),
        (h.slots n).sublist hFewer⟩
  · intro b slot' hNeighbor x hKnown
    rw [hDaemon] at hNeighbor hKnown
    have hQueued :
        b = nbr ∨ b ∈ (s.daemon n).sendAll →
          (s.put n
            ((s.daemon n).connect nbr slot)).Informed
              n b slot' x := by
      intro hSome
      exact
        informed_queued hDaemon (List.mem_cons.mpr hSome)
    by_cases hThis : b = nbr
    · exact hQueued (Or.inl hThis)
    · have hBefore :
          (s.daemon n).neighbors.lookup b = some slot' :=
        (AList.lookup_insert_ne hThis).symm.trans hNeighbor
      refine
        (h.informed n b slot' hBefore x hKnown).step
          (hGrows b) (fun hSome => hQueued (Or.inr hSome)) ?_
          (fun y hMem => Or.inl hMem)
      intro hPending
      exact informed_pending hDaemon hPending

/- A link goes down and loses cells. -/
theorem Right.disconnect
    {n nbr : ν}
    {cells : List (StateCell ν δ V)}
    (h : s.Right)
    (hSub : ∀ y ∈ cells, y ∈ s.wire n nbr) :
    ((s.put n ((s.daemon n).disconnect nbr)).rewire n nbr
      cells).Right := by
  let s' :=
    (s.put n ((s.daemon n).disconnect nbr)).rewire n nbr cells
  have hDaemon := daemon_put s n ((s.daemon n).disconnect nbr)
  have hGrows :=
    below_put_same (s := s) (n := n)
      (d := (s.daemon n).disconnect nbr) rfl
  change Right s'
  refine
    h.change (fun a hNe => daemon_put_ne s _ hNe)
      { grows := hGrows
        holds := ?_
        heard := ?_ }
      ?_ ?_ ?_
  · rintro x (⟨m, hKnown⟩ | ⟨a, b, hSent⟩)
    · rcases holds_put (Or.inl ⟨m, hKnown⟩) with
        hOld | hHere
      · exact Or.inl hOld
      · exact Or.inl (Or.inl ⟨n, hHere⟩)
    · exact Or.inl (Or.inr ⟨a, b, mem_rewire hSub hSent⟩)
  · intro a b x hSent
    exact Or.inl (mem_rewire hSub hSent)
  · change ((s.put n _).daemon n).neighbors.entries.map _
      |>.Nodup
    rw [hDaemon]
    exact
      (h.slots n).sublist
        ((List.kerase_sublist nbr
          (s.daemon n).neighbors.entries).map Sigma.snd)
  · intro a b hNe y hMem
    left
    rw [wire_rewire_ne _ cells (Or.inl hNe)]
    exact hMem
  · intro b slot hNeighbor x hKnown
    change ((s.put n _).daemon n).neighbors.lookup b = _
      at hNeighbor
    change ((s.put n _).daemon n).know x.key = _ at hKnown
    rw [hDaemon] at hNeighbor hKnown
    by_cases hThis : b = nbr
    · rw [hThis, FloodDaemon.disconnect,
        AList.lookup_erase] at hNeighbor
      cases hNeighbor
    · have hBefore :
          (s.daemon n).neighbors.lookup b = some slot :=
        (AList.lookup_erase_ne hThis).symm.trans hNeighbor
      refine
        (h.informed n b slot hBefore x hKnown).step
          (hGrows b) ?_ ?_ ?_
      · intro hQueued
        exact
          informed_queued hDaemon
            (List.mem_filter.mpr
              ⟨hQueued, decide_eq_true hThis⟩)
      · intro hPending
        exact informed_pending hDaemon hPending
      · intro y hMem
        left
        rw [wire_rewire_ne _ cells (Or.inr hThis)]
        exact hMem

variable [DecidableEq V]

/- One event in the overlay. -/
theorem Right.act
    (h : s.Right)
    (e : Ev ν δ V)
    (hEnabled : s.Enabled e) :
    (s.act blank e).Right := by
  cases e with
  | publish n now dest value =>
      exact h.publish (FloodDaemon.published now dest value _)
  | receive n sender cell again =>
      rw [Overlay.act]
      split
      · exact h
      · next slot hSender =>
          have hMem : cell ∈ s.wire sender n := hEnabled
          have hNew :
              FloodDaemon.Processed (s.daemon n)
                ((s.daemon n).processCell blank n slot cell)
                slot cell := by
            refine FloodDaemon.processed_cell ?_
            rintro rfl
            exact h.own cell (Or.inr ⟨sender, _, hMem⟩)
          refine h.receive hSender hMem hNew ?_ ?_
          · intro y hY
            split at hY
            · exact hY
            · exact List.mem_of_mem_erase hY
          · intro y hY
            split
            · exact Or.inl hY
            · by_cases hThis : y = cell
              · exact Or.inr hThis
              · exact
                  Or.inl
                    ((List.mem_erase_of_ne hThis).mpr hY)
  | sendUpdates n packs =>
      rcases FloodDaemon.sends_updates packs (s.daemon n) with
        ⟨hSends, hAll⟩
      refine h.send hSends ?_ ?_
      · intro b x _ hQueued
        have hStays :
            b ∈ ((s.daemon n).sendStateUpdates packs).1.sendAll
            := by
          rw [hAll]
          exact hQueued
        exact Or.inl hStays
      · intro b slot x hNeighbor hKnown hPending
        exact
          hPending.updates packs (h.slots n) hNeighbor hKnown
  | sendAll n nbr =>
      refine h.send ⟨rfl, rfl, ?_⟩ ?_ ?_
      · intro x hMem
        rcases List.mem_map.mp hMem with ⟨p, hEntry, rfl⟩
        exact AList.mem_lookup_iff.mpr hEntry
      · intro b x hKnown hQueued
        by_cases hThis : b = nbr
        · right
          rw [hThis]
          refine
            List.mem_map.mpr ⟨⟨x.key, x.data⟩, ?_, rfl⟩
          exact AList.mem_lookup_iff.mp hKnown
        · left
          exact
            List.mem_filter.mpr
              ⟨hQueued, decide_eq_true hThis⟩
      · intro b slot x _ _ hPending
        exact Or.inl hPending
  | connect n nbr slot => exact h.connect hEnabled
  | disconnect n nbr lost =>
      exact
        h.disconnect
          (fun y hMem => (List.mem_filter.mp hMem).1)

theorem Reachable.right
    (hReach : s.Reachable blank) :
    s.Right := by
  induction hReach with
  | start => exact right_initial
  | step _ hEnabled ih => exact ih.act _ hEnabled

/- Each end holds the link to the other up. -/
def Linked
    (s : Overlay ν δ V)
    (a b : ν) : Prop :=
  b ∈ (s.daemon a).neighbors ∧ a ∈ (s.daemon b).neighbors

/- No update waits, and none is on its way. -/
def AtRest
    (s : Overlay ν δ V) : Prop :=
  ∀ a,
    (s.daemon a).changed = [] ∧
      ∀ b ∈ (s.daemon a).neighbors,
        b ∉ (s.daemon a).sendAll ∧ s.wire a b = []

omit [DecidableEq V] in
/- At rest a neighbor knows what the node knows. -/
theorem Right.below_neighbor
    {a b : ν}
    (h : s.Right)
    (hRest : s.AtRest)
    (hNeighbor : b ∈ (s.daemon a).neighbors) :
    Below StateData.stamp (s.daemon a).know
      (s.daemon b).know := by
  intro k e hKnown
  rcases Option.isSome_iff_exists.mp
    (AList.lookup_isSome.mpr hNeighbor) with ⟨slot, hSlot⟩
  rcases hRest a with ⟨hChanged, hQuiet⟩
  rcases hQuiet b hNeighbor with ⟨hQueue, hWire⟩
  rcases h.informed a b slot hSlot ⟨k, e⟩ hKnown with
    hKnows | hAll | ⟨c, hMem, _⟩ | ⟨y, hMem, _⟩
  · exact hKnows
  · exact absurd hAll hQueue
  · rw [hChanged] at hMem
    cases hMem
  · rw [hWire] at hMem
    cases hMem

/- The overlay as a machine. -/
def machine
    (blank : V) :
    Machine (Overlay ν δ V) (Ev ν δ V) Unit where
  step s e := (s.act blank e, [])

instance
    (s : Overlay ν δ V)
    (e : Ev ν δ V) :
    Decidable (s.Enabled e) := by
  cases e <;> unfold Enabled <;> infer_instance

/- The daemon that an event changes. -/
def Ev.node
    {ν δ V : Type} : Ev ν δ V → ν
  | .publish n _ _ _ => n
  | .receive n _ _ _ => n
  | .sendUpdates n _ => n
  | .sendAll n _ => n
  | .connect n _ _ => n
  | .disconnect n _ _ => n

theorem daemon_act
    (s : Overlay ν δ V)
    (e : Ev ν δ V)
    {a : ν}
    (hNe : a ≠ e.node) :
    (s.act blank e).daemon a = s.daemon a := by
  cases e with
  | receive n sender cell again =>
      rw [Overlay.act]
      split
      · rfl
      · exact daemon_put_ne s _ hNe
  | publish n now dest value => exact daemon_put_ne s _ hNe
  | sendUpdates n packs => exact daemon_put_ne s _ hNe
  | sendAll n nbr => exact daemon_put_ne s _ hNe
  | connect n nbr slot => exact daemon_put_ne s _ hNe
  | disconnect n nbr lost => exact daemon_put_ne s _ hNe

/- A daemon without an event in a run does not change. -/
theorem daemon_run
    {es : List (Ev ν δ V)}
    {a : ν}
    (hNe : ∀ e ∈ es, a ≠ e.node)
    (s : Overlay ν δ V) :
    ((machine blank).run s es).daemon a = s.daemon a := by
  induction es generalizing s with
  | nil => rfl
  | cons e es ih =>
      rcases List.forall_mem_cons.mp hNe with ⟨hFirst, hRest⟩
      exact
        (ih hRest (s.act blank e)).trans
          (daemon_act s e hFirst)

theorem reachable_run
    {es : List (Ev ν δ V)}
    (hReach : s.Reachable blank)
    (hEnabled :
      ∀ e ∈ (machine blank).trace s es, Enabled e.1 e.2) :
    ((machine blank).run s es).Reachable blank := by
  induction es generalizing s with
  | nil => exact hReach
  | cons e es ih =>
      rcases List.forall_mem_cons.mp hEnabled with
        ⟨hFirst, hRest⟩
      exact ih (.step hReach hFirst) hRest

/- Three daemons on a line. -/
inductive Site where
  | west
  | middle
  | east
deriving DecidableEq

instance : Fintype Site where
  elems := {.west, .middle, .east}
  complete := by
    intro x
    cases x <;> decide

def cellOnLine :
    StateCell Site Nat Int :=
  ⟨(.west, 7), ⟨⟨0, 1⟩, 5⟩⟩

/- What one end sets gets to the other. -/
def alongLine :
    List (Ev Site Nat Int) :=
  [.connect .west .middle 0, .connect .middle .west 0,
    .connect .middle .east 1, .connect .east .middle 0,
    .publish .west .zero 7 5,
    .sendUpdates .west (fun _ _ => true),
    .receive .middle .west cellOnLine false,
    .sendUpdates .middle (fun _ _ => true),
    .receive .east .middle cellOnLine false,
    .sendUpdates .east (fun _ _ => true),
    .sendAll .west .middle, .sendAll .middle .west,
    .sendAll .middle .east, .sendAll .east .middle,
    .receive .middle .west cellOnLine false,
    .receive .west .middle cellOnLine false,
    .receive .east .middle cellOnLine false,
    .receive .middle .east cellOnLine false]

def restOnLine :
    Overlay Site Nat Int :=
  (machine (-1)).run initial alongLine

theorem reachable_restOnLine :
    restOnLine.Reachable (-1) :=
  reachable_run .start (by decide)

omit [DecidableEq V] in
/- At rest, all daemons on a path of links know the same. -/
theorem Right.know_eq
    {a b : ν}
    (h : s.Right)
    (hRest : s.AtRest)
    (hPath : Relation.ReflTransGen s.Linked a b) :
    (s.daemon a).know = (s.daemon b).know := by
  refine
    eq_of_linked StateData.stamp
      (fun n => (s.daemon n).know) ?_ ?_ hPath
  · intro a b hLinked
    exact
      ⟨h.below_neighbor hRest hLinked.1,
        h.below_neighbor hRest hLinked.2⟩
  · intro a b k x y hLeft hRight hStamp
    exact
      h.coherent ⟨k, x⟩ ⟨k, y⟩ (Or.inl ⟨a, hLeft⟩)
        (Or.inl ⟨b, hRight⟩) rfl hStamp

/-
  Once the flooding rests, all daemons on a path of links
  know the same states, whatever happened before: changes at
  any node, links that went down and came up, cells repeated
  and out of order. Each state is the one of its source, if
  that is on the path.
-/
theorem agree_atRest
    (s : Overlay ν δ V)
    (hReach : s.Reachable blank)
    (hRest : s.AtRest)
    (a b : ν)
    (hPath : Relation.ReflTransGen s.Linked a b)
    (k : ν × δ) :
    (s.daemon a).know k = (s.daemon b).know k ∧
      (Relation.ReflTransGen s.Linked a k.1 →
        (s.daemon a).know k = (s.daemon k.1).know k) := by
  have hRight := hReach.right
  refine ⟨congrFun (hRight.know_eq hRest hPath) k, ?_⟩
  intro hSource
  exact congrFun (hRight.know_eq hRest hSource) k

theorem agree_atRest_line :
    (restOnLine.daemon .east).know (.west, 7) =
      (restOnLine.daemon .west).know (.west, 7) :=
  (agree_atRest restOnLine reachable_restOnLine
    (by unfold AtRest; decide) .east .west
    (.tail (b := .middle)
      (.tail .refl (by unfold Linked; decide))
      (by unfold Linked; decide)) (.west, 7)).1

/- No event makes a daemon forget or take an older state. -/
theorem Right.below_act
    (h : s.Right)
    (e : Ev ν δ V)
    (hEnabled : s.Enabled e)
    (n : ν) :
    Below StateData.stamp (s.daemon n).know
      ((s.act blank e).daemon n).know := by
  cases e with
  | publish m now dest value =>
      exact
        below_put
          (below_published
            (FloodDaemon.published now dest value _)) n
  | receive m sender cell again =>
      rw [Overlay.act]
      split
      · exact .refl _
      · next slot hSender =>
          refine
            below_put
              (below_processed
                (FloodDaemon.processed_cell ?_)) n
          rintro rfl
          exact h.own cell (Or.inr ⟨sender, _, hEnabled⟩)
  | sendUpdates m packs =>
      have hSends :=
        (FloodDaemon.sends_updates packs (s.daemon m)).1
      exact below_put_same hSends.states n
  | sendAll m nbr =>
      exact
        below_put_same (n := m)
          (d := ((s.daemon m).netSendStateAll nbr).1) rfl n
  | connect m nbr slot =>
      exact
        below_put_same (n := m)
          (d := (s.daemon m).connect nbr slot) rfl n
  | disconnect m nbr lost =>
      exact
        below_put_same (n := m)
          (d := (s.daemon m).disconnect nbr) rfl n

/-
  In every run each daemon's states only get newer, and none
  is newer than what its source has: one with the same stamp
  is the source's own.
-/
theorem own_newest
    (s : Overlay ν δ V)
    (hReach : s.Reachable blank)
    (e : Ev ν δ V)
    (hEnabled : s.Enabled e)
    (n : ν)
    (k : ν × δ)
    (x : StateData V)
    (hKnown : (s.daemon n).know k = some x) :
    (∃ y, ((s.act blank e).daemon n).know k = some y ∧
        x.stamp ≤ y.stamp) ∧
      ∃ y, (s.daemon k.1).know k = some y ∧
        (x.stamp < y.stamp ∨ x = y) := by
  have hRight := hReach.right
  refine
    ⟨hRight.below_act e hEnabled n k x hKnown, ?_⟩
  have hHolds : s.Holds ⟨k, x⟩ := Or.inl ⟨n, hKnown⟩
  rcases hRight.own ⟨k, x⟩ hHolds with ⟨y, hOwn, hLe⟩
  refine ⟨y, hOwn, ?_⟩
  rcases lt_or_eq_of_le hLe with hLess | hSame
  · exact Or.inl hLess
  · exact
      Or.inr
        (hRight.coherent ⟨k, x⟩ ⟨k, y⟩ hHolds
          (Or.inl ⟨k.1, hOwn⟩) rfl hSame)

theorem own_newest_restOnLine :
    ∃ y, (restOnLine.daemon .west).know (.west, 7) = some y ∧
      (cellOnLine.data.stamp < y.stamp ∨
        cellOnLine.data = y) :=
  (own_newest restOnLine reachable_restOnLine
    (.sendUpdates .west (fun _ _ => true)) trivial .east
    (.west, 7) cellOnLine.data (by decide)).2

end Overlay

end P4

end Cs2520
