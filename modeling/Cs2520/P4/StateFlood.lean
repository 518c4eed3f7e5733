import Cs2520.Lib.Time
import Mathlib.Data.List.AList
import Mathlib.Data.Prod.Lex

/-
  State flooding at one overlay daemon
  (`daemon/state_flood.c`), by which the daemons learn the
  states that each of them publishes: the costs of its edges
  (`daemon/link_state.c`) or its groups
  (`daemon/multicast.c`).

  A packet is its cells one after another, so a cell is what
  travels. The garbage collection of states that are 25 hours
  old is left out.

  Main declarations:
    * `FloodDaemon.addToChangedStates`
    * `FloodDaemon.processCell`
    * `FloodDaemon.publish`
    * `FloodDaemon.sendStateUpdates`
    * `FloodDaemon.netSendStateAll`
    * `FloodDaemon.processed_cell`
    * `FloodDaemon.published`
    * `FloodDaemon.Pending.updates`
-/

------------------------------------------------------------
-- States
------------------------------------------------------------

namespace Cs2520

namespace P4

open Lib

/- `++timestamp_usec`, with a carry to the seconds -/
def bump
    (t : Timeval) : Timeval :=
  if 1000000 ≤ t.usec + 1 then ⟨t.sec + 1, 0⟩
  else ⟨t.sec, t.usec + 1⟩

/- The first time is older, by seconds, then microseconds. -/
def Older
    (s t : Timeval) : Prop :=
  s.sec < t.sec ∨ (s.sec = t.sec ∧ s.usec < t.usec)

instance (s t : Timeval) : Decidable (Older s t) := by
  unfold Older
  infer_instance

structure StateData (V : Type) where
  timestamp : Timeval
  value : V
deriving DecidableEq

/-
  A state is named by its source and its destination. A set
  bit of the mask is a neighbor that needs no update.
-/
structure ChangedState (ν δ : Type) where
  key : ν × δ
  mask : Nat → Bool

structure StateCell (ν δ V : Type) where
  key : ν × δ
  data : StateData V
deriving DecidableEq

def ChangedState.mark
    {ν δ : Type}
    (slot : Nat)
    (c : ChangedState ν δ) : ChangedState ν δ :=
  { c with mask := Function.update c.mask slot true }

/-
  What a daemon keeps: `All_States` and `Changed_States`, the
  neighbors it is connected to with their `neighbor_id`, and
  those that `Net_Send_State_All` is queued for.
-/
structure FloodDaemon (ν δ V : Type) where
  states : AList (fun _ : ν × δ => StateData V)
  changed : List (ChangedState ν δ)
  neighbors : AList (fun _ : ν => Nat)
  sendAll : List ν

namespace FloodDaemon

variable {ν δ V : Type}
variable [DecidableEq ν] [DecidableEq δ]

def initial : FloodDaemon ν δ V where
  states := ∅
  changed := []
  neighbors := ∅
  sendAll := []

/- The sender is the node itself, or a neighbor. -/
def addToChangedStates
    (sender : Option Nat)
    (key : ν × δ)
    (d : FloodDaemon ν δ V) : FloodDaemon ν δ V :=
  let mask := fun slot => decide (sender = some slot)
  { d with
    changed :=
      if d.changed.any (fun c => c.key = key) then
        d.changed.map
          (fun c => if c.key = key then ⟨key, mask⟩ else c)
      else
        d.changed ++ [⟨key, mask⟩] }

/-
  `Groups_Process_state_cell`, `Edge_Process_state_cell`, and
  what the caller does with their result. A node does not
  take over its own states but publishes them anew; one that
  it does not have yet is `blank`.
-/
def processStateCell
    (blank : V)
    (me : ν)
    (sender : Nat)
    (cell : StateCell ν δ V)
    (d : FloodDaemon ν δ V) : FloodDaemon ν δ V :=
  if cell.key.1 ≠ me then
    addToChangedStates (some sender) cell.key
      { d with states := d.states.insert cell.key cell.data }
  else
    let old := d.states.lookup cell.key
    addToChangedStates none cell.key
      { d with
        states :=
          d.states.insert cell.key
            { timestamp := bump cell.data.timestamp
              value := (old.map StateData.value).getD blank } }

/- The neighbor has the state already. -/
def markInformed
    (sender : Nat)
    (key : ν × δ)
    (d : FloodDaemon ν δ V) : FloodDaemon ν δ V :=
  { d with
    changed :=
      d.changed.map
        (fun c => if c.key = key then c.mark sender else c) }

/- One cell in `Process_state_packet` -/
def processCell
    (blank : V)
    (me : ν)
    (sender : Nat)
    (cell : StateCell ν δ V)
    (d : FloodDaemon ν δ V) : FloodDaemon ν δ V :=
  match d.states.lookup cell.key with
  | none => d.processStateCell blank me sender cell
  | some s =>
      if Older s.timestamp cell.data.timestamp then
        d.processStateCell blank me sender cell
      else if s.timestamp = cell.data.timestamp then
        d.markInformed sender cell.key
      else
        d

/-
  A node sets a state of its own: `Join_Group`,
  `Leave_Group`, `Network_Leg_Set_Cost`, and with the value
  that it has `Resend_States`.
-/
def publish
    (blank : V)
    (me : ν)
    (now : Timeval)
    (dest : δ)
    (value : V)
    (d : FloodDaemon ν δ V) : FloodDaemon ν δ V :=
  let old := (d.states.lookup (me, dest)).getD ⟨now, blank⟩
  addToChangedStates none (me, dest)
    { d with
      states :=
        d.states.insert (me, dest)
          { timestamp := bump old.timestamp
            value := value } }

/-
  `Net_Send_State_Updates` to one neighbor: what it packs,
  and whether that is all. `packs` is what fits into the
  packets that it may send at once.
-/
def netSendStateUpdates
    (packs : ν × δ → Bool)
    (slot : Nat)
    (d : FloodDaemon ν δ V) :
    FloodDaemon ν δ V × List (StateCell ν δ V) × Bool :=
  let needs := fun c : ChangedState ν δ => !c.mask slot
  let sends :=
    fun c : ChangedState ν δ => needs c && packs c.key
  ({ d with
      changed :=
        d.changed.map
          (fun c => if sends c then c.mark slot else c) },
    (d.changed.filter sends).filterMap
      (fun c => (d.states.lookup c.key).map (⟨c.key, ·⟩)),
    d.changed.all (fun c => !needs c || packs c.key))

/- The loop over the neighbors in `Send_State_Updates` -/
def sendLoop
    (packs : ν → ν × δ → Bool) :
    List (Sigma (fun _ : ν => Nat)) →
      FloodDaemon ν δ V →
      FloodDaemon ν δ V × List (ν × StateCell ν δ V) × Bool
  | [], d => (d, [], true)
  | ⟨nbr, slot⟩ :: rest, d =>
      let (d, cells, all) :=
        d.netSendStateUpdates (packs nbr) slot
      let (d, out, others) := sendLoop packs rest d
      (d, cells.map (nbr, ·) ++ out, all && others)

/- `Send_State_Updates` -/
def sendStateUpdates
    (packs : ν → ν × δ → Bool)
    (d : FloodDaemon ν δ V) :
    FloodDaemon ν δ V × List (ν × StateCell ν δ V) :=
  let (d, out, all) := d.sendLoop packs d.neighbors.entries
  ({ d with changed := if all then [] else d.changed }, out)

/- `Net_Send_State_All` -/
def netSendStateAll
    (nbr : ν)
    (d : FloodDaemon ν δ V) :
    FloodDaemon ν δ V × List (ν × StateCell ν δ V) :=
  ({ d with sendAll := d.sendAll.filter (· ≠ nbr) },
    d.states.entries.map (fun e => (nbr, ⟨e.1, e.2⟩)))

/- The link to a neighbor comes up, or goes down. -/
def connect
    (nbr : ν)
    (slot : Nat)
    (d : FloodDaemon ν δ V) : FloodDaemon ν δ V :=
  { d with
    neighbors := d.neighbors.insert nbr slot
    sendAll := nbr :: d.sendAll }

def disconnect
    (nbr : ν)
    (d : FloodDaemon ν δ V) : FloodDaemon ν δ V :=
  { d with
    neighbors := d.neighbors.erase nbr
    sendAll := d.sendAll.filter (· ≠ nbr) }

end FloodDaemon

end P4

end Cs2520

------------------------------------------------------------
-- Stamps
------------------------------------------------------------

namespace Cs2520

namespace P4

open Lib

/- A time, ordered by its seconds, then its microseconds. -/
def stampOf
    (t : Timeval) : Int ×ₗ Int :=
  toLex (t.sec, t.usec)

def StateData.stamp
    {V : Type}
    (e : StateData V) : Int ×ₗ Int :=
  stampOf e.timestamp

theorem older_iff
    (s t : Timeval) :
    Older s t ↔ stampOf s < stampOf t := by
  rw [stampOf, stampOf, Prod.Lex.toLex_lt_toLex, Older]

theorem lt_bump
    (t : Timeval) :
    stampOf t < stampOf (bump t) := by
  rw [← older_iff, Older, bump]
  split
  · exact Or.inl (Int.lt_succ t.sec)
  · exact Or.inr ⟨rfl, Int.lt_succ t.usec⟩

end P4

end Cs2520

------------------------------------------------------------
-- One Daemon
------------------------------------------------------------

namespace Cs2520

namespace P4

open Lib

/- A mark leaves the bits of the other neighbors. -/
theorem ChangedState.mask_mark
    {ν δ : Type}
    {slot slot' : Nat}
    (c : ChangedState ν δ)
    (hOther : slot ≠ slot') :
    (c.mark slot').mask slot = c.mask slot := by
  rw [ChangedState.mark]
  exact Function.update_of_ne hOther true c.mask

namespace FloodDaemon

variable {ν δ V : Type}
variable [DecidableEq ν] [DecidableEq δ]
variable {d d' : FloodDaemon ν δ V}
variable {key k : ν × δ}
variable {slot slot' : Nat}

/- The state that a daemon has under a key. -/
def know
    (d : FloodDaemon ν δ V)
    (k : ν × δ) : Option (StateData V) :=
  d.states.lookup k

theorem know_congr
    (hStates : d'.states = d.states) :
    d'.know = d.know := by
  funext k
  rw [know, know, hStates]

/- An update of the state waits for the neighbor. -/
def Pending
    (d : FloodDaemon ν δ V)
    (slot : Nat)
    (k : ν × δ) : Prop :=
  ∃ c ∈ d.changed, c.key = k ∧ c.mask slot = false

/- A change waits for all neighbors but its sender. -/
theorem pending_add_self
    {sender : Option Nat}
    (hOther : sender ≠ some slot) :
    (d.addToChangedStates sender key).Pending slot key := by
  let c : ChangedState ν δ :=
    ⟨key, fun slot => decide (sender = some slot)⟩
  refine ⟨c, ?_, rfl, decide_eq_false hOther⟩
  rw [addToChangedStates]
  dsimp only
  split
  · next hFound =>
      rcases List.any_eq_true.mp hFound with
        ⟨old, hMem, hKey⟩
      refine List.mem_map.mpr ⟨old, hMem, ?_⟩
      exact if_pos (of_decide_eq_true hKey)
  · exact List.mem_append_right _ List.mem_cons_self

theorem Pending.add
    {sender : Option Nat}
    (h : d.Pending slot k)
    (hOther : k ≠ key) :
    (d.addToChangedStates sender key).Pending slot k := by
  rcases h with ⟨c, hMem, hKey, hBit⟩
  refine ⟨c, ?_, hKey, hBit⟩
  rw [addToChangedStates]
  dsimp only
  split
  · refine List.mem_map.mpr ⟨c, hMem, ?_⟩
    exact if_neg (fun hSame => hOther (hKey ▸ hSame))
  · exact List.mem_append_left _ hMem

theorem Pending.mark
    (h : d.Pending slot k)
    (hOther : k ≠ key ∨ slot ≠ slot') :
    (d.markInformed slot' key).Pending slot k := by
  rcases h with ⟨c, hMem, hKey, hBit⟩
  refine
    ⟨_, List.mem_map_of_mem hMem, ?_⟩
  split
  · next hSame =>
      have hSlot : slot ≠ slot' := by
        rcases hOther with hNe | hNe
        · exact absurd (hKey.symm.trans hSame) hNe
        · exact hNe
      exact ⟨hKey, (c.mask_mark hSlot).trans hBit⟩
  · exact ⟨hKey, hBit⟩

/-
  What one cell does. A node's own states are never heard in
  a newer form, which is the assumption here.
-/
structure Processed
    (d d' : FloodDaemon ν δ V)
    (slot : Nat)
    (cell : StateCell ν δ V) : Prop where
  neighbors : d'.neighbors = d.neighbors
  sendAll : d'.sendAll = d.sendAll
  knows :
    ∃ e, d'.know cell.key = some e ∧
      cell.data.stamp ≤ e.stamp
  others : ∀ k, k ≠ cell.key → d'.know k = d.know k
  change :
    d'.know cell.key = d.know cell.key ∨
      d'.know cell.key = some cell.data ∧
        (∀ e, d.know cell.key = some e →
          e.stamp < cell.data.stamp) ∧
        ∀ slot', slot' ≠ slot → d'.Pending slot' cell.key
  pending :
    ∀ slot' k,
      d.Pending slot' k →
        d'.Pending slot' k ∨
          slot' = slot ∧ k = cell.key ∧
            ∀ e, d'.know k = some e →
              e.stamp ≤ cell.data.stamp

variable {blank : V}
variable {me : ν}
variable {cell : StateCell ν δ V}

/- A newer state of another node is taken over. -/
theorem processed_newer
    (hForeign : cell.key.1 ≠ me)
    (hNewer :
      ∀ e, d.know cell.key = some e →
        e.stamp < cell.data.stamp) :
    Processed d (d.processStateCell blank me slot cell)
      slot cell := by
  rw [processStateCell, if_pos hForeign]
  have hSelf :
      (addToChangedStates (some slot) cell.key
        { d with
          states := d.states.insert cell.key cell.data }).know
          cell.key = some cell.data :=
    AList.lookup_insert _
  refine
    { neighbors := rfl
      sendAll := rfl
      knows := ⟨cell.data, hSelf, le_refl _⟩
      others := fun k hNe => AList.lookup_insert_ne hNe
      change := Or.inr ⟨hSelf, hNewer, ?_⟩
      pending := ?_ }
  · intro slot' hNe
    refine pending_add_self ?_
    exact fun hSame => hNe (Option.some.inj hSame).symm
  · intro slot' k hBefore
    have hSame :
        ({ d with
          states := d.states.insert cell.key cell.data } :
            FloodDaemon ν δ V).Pending slot' k := hBefore
    by_cases hKey : k = cell.key
    · subst hKey
      by_cases hSlot : slot' = slot
      · refine Or.inr ⟨hSlot, rfl, ?_⟩
        intro e hKnown
        rw [hSelf] at hKnown
        rw [← Option.some.inj hKnown]
      · refine Or.inl (pending_add_self ?_)
        exact fun hEq => hSlot (Option.some.inj hEq).symm
    · exact Or.inl (hSame.add hKey)

theorem processed_cell
    (hOwn :
      cell.key.1 = me →
        ∃ e, d.know cell.key = some e ∧
          cell.data.stamp ≤ e.stamp) :
    Processed d (d.processCell blank me slot cell)
      slot cell := by
  rw [processCell]
  cases hKnown : d.know cell.key with
  | none =>
      have hLookup : d.states.lookup cell.key = none := hKnown
      rw [hLookup]
      refine processed_newer ?_ ?_
      · intro hMine
        rcases hOwn hMine with ⟨e, hSome, _⟩
        rw [hKnown] at hSome
        cases hSome
      · intro e hSome
        rw [hKnown] at hSome
        cases hSome
  | some e =>
      have hLookup : d.states.lookup cell.key = some e :=
        hKnown
      rw [hLookup]
      dsimp only
      split
      · next hOlder =>
          have hLess := (older_iff _ _).mp hOlder
          refine processed_newer ?_ ?_
          · intro hMine
            rcases hOwn hMine with ⟨own, hSome, hLe⟩
            rw [hKnown] at hSome
            cases hSome
            exact absurd hLe (not_le_of_gt hLess)
          · intro old hSome
            rw [hKnown] at hSome
            cases hSome
            exact hLess
      · next hNotOlder =>
          have hLe : cell.data.stamp ≤ e.stamp :=
            le_of_not_gt
              (fun hLess =>
                hNotOlder ((older_iff _ _).mpr hLess))
          split
          · next hSame =>
              refine
                { neighbors := rfl
                  sendAll := rfl
                  knows := ⟨e, hKnown, hLe⟩
                  others := fun k _ => rfl
                  change := Or.inl rfl
                  pending := ?_ }
              intro slot' k hBefore
              by_cases hKey : k = cell.key
              · subst hKey
                by_cases hSlot : slot' = slot
                · refine Or.inr ⟨hSlot, rfl, ?_⟩
                  intro e' hSome
                  have hEq : d.know cell.key = some e' := hSome
                  rw [hKnown] at hEq
                  cases hEq
                  exact le_of_eq (congrArg stampOf hSame)
                · exact Or.inl (hBefore.mark (Or.inr hSlot))
              · exact Or.inl (hBefore.mark (Or.inl hKey))
          · exact
              { neighbors := rfl
                sendAll := rfl
                knows := ⟨e, hKnown, hLe⟩
                others := fun k _ => rfl
                change := Or.inl rfl
                pending := fun _ _ hBefore => Or.inl hBefore }

/- What setting a state of one's own does. -/
structure Published
    (d d' : FloodDaemon ν δ V)
    (key : ν × δ) : Prop where
  neighbors : d'.neighbors = d.neighbors
  sendAll : d'.sendAll = d.sendAll
  raises :
    ∃ x, d'.know key = some x ∧
      ∀ e, d.know key = some e → e.stamp < x.stamp
  others : ∀ k, k ≠ key → d'.know k = d.know k
  pending :
    ∀ slot k, k = key ∨ d.Pending slot k → d'.Pending slot k

theorem published
    (now : Timeval)
    (dest : δ)
    (value : V)
    (d : FloodDaemon ν δ V) :
    Published d (d.publish blank me now dest value)
      (me, dest) := by
  have hNone : ∀ slot : Nat, (none : Option Nat) ≠ some slot :=
    fun _ hSame => by cases hSame
  rw [publish]
  refine
    { neighbors := rfl
      sendAll := rfl
      raises := ⟨_, AList.lookup_insert _, ?_⟩
      others := fun k hNe => AList.lookup_insert_ne hNe
      pending := ?_ }
  · intro e hKnown
    have hLookup : d.states.lookup (me, dest) = some e := hKnown
    rw [hLookup]
    exact lt_bump e.timestamp
  · rintro slot k (rfl | hBefore)
    · exact pending_add_self (hNone slot)
    · by_cases hKey : k = (me, dest)
      · subst hKey
        exact pending_add_self (hNone slot)
      · have hSame :
            ({ d with
              states :=
                d.states.insert (me, dest)
                  { timestamp :=
                      bump
                        ((d.states.lookup (me, dest)).getD
                          ⟨now, blank⟩).timestamp
                    value := value } } :
                FloodDaemon ν δ V).Pending slot k := hBefore
        exact hSame.add hKey

/- Sending to one neighbor leaves what waits for others. -/
theorem Pending.net_other
    (packs : ν × δ → Bool)
    (h : d.Pending slot' k)
    (hOther : slot' ≠ slot) :
    (d.netSendStateUpdates packs slot).1.Pending slot' k := by
  rcases h with ⟨c, hMem, hKey, hBit⟩
  refine ⟨_, List.mem_map_of_mem hMem, ?_⟩
  split
  · exact ⟨hKey, (c.mask_mark hOther).trans hBit⟩
  · exact ⟨hKey, hBit⟩

/- A waiting update is sent, or waits and is counted. -/
theorem Pending.net
    {x : StateData V}
    (packs : ν × δ → Bool)
    (h : d.Pending slot k)
    (hKnown : d.know k = some x) :
    (d.netSendStateUpdates packs slot).1.Pending slot k ∧
        (d.netSendStateUpdates packs slot).2.2 = false ∨
      ⟨k, x⟩ ∈ (d.netSendStateUpdates packs slot).2.1 := by
  rcases h with ⟨c, hMem, hKey, hBit⟩
  cases hPacks : packs c.key with
  | true =>
      refine Or.inr (List.mem_filterMap.mpr ⟨c, ?_, ?_⟩)
      · refine List.mem_filter.mpr ⟨hMem, ?_⟩
        dsimp only
        rw [hBit, hPacks]
        rfl
      · rw [hKey]
        have hLookup : d.states.lookup k = some x := hKnown
        rw [hLookup]
        rfl
  | false =>
      refine Or.inl ⟨⟨c, ?_, hKey, hBit⟩, ?_⟩
      · refine List.mem_map.mpr ⟨c, hMem, if_neg ?_⟩
        dsimp only
        rw [hPacks, Bool.and_false]
        exact Bool.false_ne_true
      · refine List.all_eq_false.mpr ⟨c, hMem, ?_⟩
        dsimp only
        rw [hPacks, hBit]
        exact Bool.false_ne_true

theorem sendLoop_cons
    (packs : ν → ν × δ → Bool)
    (nbr : ν)
    (slot : Nat)
    (rest : List (Sigma (fun _ : ν => Nat)))
    (d : FloodDaemon ν δ V) :
    sendLoop packs (⟨nbr, slot⟩ :: rest) d =
      let r := d.netSendStateUpdates (packs nbr) slot
      let q := sendLoop packs rest r.1
      (q.1, r.2.1.map (nbr, ·) ++ q.2.1, r.2.2 && q.2.2) :=
  rfl

/- What the loop over the neighbors does. -/
structure Sends
    (d d' : FloodDaemon ν δ V)
    (out : List (ν × StateCell ν δ V)) : Prop where
  states : d'.states = d.states
  neighbors : d'.neighbors = d.neighbors
  genuine : ∀ x ∈ out, d.know x.2.key = some x.2.data

theorem sends_loop
    (packs : ν → ν × δ → Bool)
    (l : List (Sigma (fun _ : ν => Nat)))
    (d : FloodDaemon ν δ V) :
    Sends d (sendLoop packs l d).1 (sendLoop packs l d).2.1 ∧
      (sendLoop packs l d).1.sendAll = d.sendAll := by
  induction l generalizing d with
  | nil =>
      exact ⟨⟨rfl, rfl, fun x hMem => by cases hMem⟩, rfl⟩
  | cons p rest ih =>
      rcases p with ⟨nbr, slot⟩
      rw [sendLoop_cons]
      rcases ih (d.netSendStateUpdates (packs nbr) slot).1
        with ⟨hRest, hAll⟩
      refine
        ⟨⟨hRest.states, hRest.neighbors, ?_⟩, hAll⟩
      intro x hMem
      rcases List.mem_append.mp hMem with hThis | hLater
      · rcases List.mem_map.mp hThis with ⟨cell, hCell, rfl⟩
        rcases List.mem_filterMap.mp hCell with
          ⟨c, _, hSome⟩
        rcases Option.map_eq_some_iff.mp hSome with
          ⟨e, hKnown, rfl⟩
        exact hKnown
      · exact hRest.genuine x hLater

theorem Pending.loop_other
    {l : List (Sigma (fun _ : ν => Nat))}
    (packs : ν → ν × δ → Bool)
    (h : d.Pending slot k)
    (hOther : slot ∉ l.map Sigma.snd) :
    (sendLoop packs l d).1.Pending slot k := by
  induction l generalizing d with
  | nil => exact h
  | cons p rest ih =>
      rcases p with ⟨nbr, slot'⟩
      rw [List.map_cons, List.mem_cons, not_or] at hOther
      rw [sendLoop_cons]
      exact ih (h.net_other (packs nbr) hOther.1) hOther.2

theorem Pending.loop
    {x : StateData V}
    {nbr : ν}
    {l : List (Sigma (fun _ : ν => Nat))}
    (packs : ν → ν × δ → Bool)
    (hSlots : (l.map Sigma.snd).Nodup)
    (hNeighbor : ⟨nbr, slot⟩ ∈ l)
    (h : d.Pending slot k)
    (hKnown : d.know k = some x) :
    (sendLoop packs l d).1.Pending slot k ∧
        (sendLoop packs l d).2.2 = false ∨
      (nbr, ⟨k, x⟩) ∈ (sendLoop packs l d).2.1 := by
  induction l generalizing d with
  | nil => cases hNeighbor
  | cons p rest ih =>
      rcases p with ⟨nbr', slot'⟩
      rw [List.map_cons, List.nodup_cons] at hSlots
      rw [sendLoop_cons]
      dsimp only
      rcases List.mem_cons.mp hNeighbor with hThis | hLater
      · cases hThis
        rcases h.net (packs nbr) hKnown with
          ⟨hWaits, hSome⟩ | hSent
        · refine Or.inl ⟨?_, ?_⟩
          · exact hWaits.loop_other packs hSlots.1
          · rw [hSome, Bool.false_and]
        · exact
            Or.inr
              (List.mem_append_left _
                (List.mem_map_of_mem hSent))
      · have hOther : slot ≠ slot' := by
          rintro rfl
          exact
            hSlots.1 (List.mem_map.mpr ⟨_, hLater, rfl⟩)
        rcases
          ih hSlots.2 hLater (h.net_other (packs nbr') hOther)
            hKnown with
          ⟨hWaits, hSome⟩ | hSent
        · exact
            Or.inl ⟨hWaits, by rw [hSome, Bool.and_false]⟩
        · exact Or.inr (List.mem_append_right _ hSent)

theorem sends_updates
    (packs : ν → ν × δ → Bool)
    (d : FloodDaemon ν δ V) :
    Sends d (d.sendStateUpdates packs).1
        (d.sendStateUpdates packs).2 ∧
      (d.sendStateUpdates packs).1.sendAll = d.sendAll := by
  rcases sends_loop packs d.neighbors.entries d with
    ⟨hSends, hAll⟩
  exact
    ⟨⟨hSends.states, hSends.neighbors, hSends.genuine⟩, hAll⟩

/- An update is sent to a neighbor, or still waits. -/
theorem Pending.updates
    {x : StateData V}
    {nbr : ν}
    (packs : ν → ν × δ → Bool)
    (hSlots : (d.neighbors.entries.map Sigma.snd).Nodup)
    (hNeighbor : d.neighbors.lookup nbr = some slot)
    (h : d.Pending slot k)
    (hKnown : d.know k = some x) :
    (d.sendStateUpdates packs).1.Pending slot k ∨
      (nbr, ⟨k, x⟩) ∈ (d.sendStateUpdates packs).2 := by
  have hMem : (⟨nbr, slot⟩ : Sigma (fun _ : ν => Nat)) ∈
      d.neighbors.entries := AList.mem_lookup_iff.mp hNeighbor
  rcases h.loop packs hSlots hMem hKnown with
    ⟨hWaits, hSome⟩ | hSent
  · left
    rcases hWaits with ⟨c, hChanged, hRest⟩
    refine ⟨c, ?_, hRest⟩
    rw [sendStateUpdates]
    dsimp only
    rw [hSome]
    exact hChanged
  · exact Or.inr hSent

end FloodDaemon

end P4

end Cs2520
