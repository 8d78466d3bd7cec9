import Mathlib.Data.Fintype.Basic
import Harness.Foundation.Chain
import Harness.Foundation.Machine
import Harness.Foundation.OrderedMap

namespace Harness.Scope

open Harness.Foundation

abbrev ScopeKey := Nat

inductive EntryKey
  | named (name : String)
  | anonymous (symbol : Nat)
  deriving DecidableEq, Repr

/-- `NamedEntries` and `AnonymousEntries`: the current map, and how many came before it. -/
structure EntryTable (V : Type) where
  generation : Nat
  data : OrderedMap EntryKey V

variable {Slot V : Type}

namespace EntryTable

variable (table : EntryTable V)

def empty : EntryTable V := ⟨0, .empty⟩

def isEmpty : Bool := decide (table.data.size = 0)

def insert (name : String) (value : V) : Option (EntryTable V) :=
  if table.data.has (.named name) then none
  else some { table with data := table.data.set (.named name) value }

def append (symbol : Nat) (value : V) : EntryTable V :=
  { table with data := table.data.set (.anonymous symbol) value }

/-- An active undo.  A map that is no longer the table's was empty when it was replaced. -/
def undo (generation : Nat) (key : EntryKey) : EntryTable V :=
  if table.generation = generation then
    let data := table.data.delete key
    if data.size = 0 then ⟨table.generation + 1, .empty⟩ else { table with data }
  else table

end EntryTable

structure ScopeLayer (Slot V : Type) where
  scope : Option ScopeKey
  tables : Slot → EntryTable V

def ScopeLayer.isEmpty [Fintype Slot] (layer : ScopeLayer Slot V) : Bool :=
  decide (∀ slot, (layer.tables slot).isEmpty = true)

/-- What one `effectAt` captures: the scope, the layer, and whether it made the layer. -/
structure Effect where
  id : Nat
  scope : Option ScopeKey
  layer : Nat
  created : Bool
  deriving DecidableEq, Repr

inductive Frame
  | acting (effect : Effect)
  | disposing (effect : Effect)
  deriving DecidableEq, Repr

def Frame.effect : Frame → Effect
  | .acting effect => effect
  | .disposing effect => effect

structure Undo (Slot V : Type) where
  effect : Effect
  slot : Slot
  generation : Nat
  key : EntryKey
  value : V
  active : Bool

structure ScopedLayers (Slot V : Type) where
  layers : Nat → ScopeLayer Slot V
  made : Nat
  scopedMap : OrderedMap ScopeKey Nat
  parents : OrderedMap ScopeKey ScopeKey
  effects : Nat
  live : List Effect
  stack : List Frame
  undos : List (Undo Slot V)

inductive LayerOp (Slot V : Type)
  | effectAt (scope : Option ScopeKey)
  | insert (slot : Slot) (name : String) (value : V)
  | append (slot : Slot) (value : V)
  | undo (index : Nat)
  | returns
  | throws
  | dispose (id : Nat)
  | reclaim
  | bindScopeParent (key parent : ScopeKey)
  | rebind (key parent : ScopeKey)

namespace ScopedLayers

def initial : ScopedLayers Slot V where
  layers := fun _ => ⟨none, fun _ => .empty⟩
  made := 1
  scopedMap := .empty
  parents := .empty
  effects := 0
  live := []
  stack := []
  undos := []

variable (state : ScopedLayers Slot V)

/-- The loop of the source, which ends within the links there are; see `scopeChain_ends`. -/
def scopeChain (key : ScopeKey) : Option (List ScopeKey) :=
  chain state.parents.get? (state.parents.size + 1) key

def scopeChainOf (scope : Option ScopeKey) : List ScopeKey :=
  match scope with
  | none => []
  | some key => (state.scopeChain key).getD []

def linkScopeParent (key parent : ScopeKey) : Option (ScopedLayers Slot V) :=
  (state.scopeChain parent).bind fun ancestors =>
    if key ∈ ancestors then none
    else some { state with parents := state.parents.set key parent }

def chainLayers (scope : Option ScopeKey) : List (ScopeLayer Slot V) :=
  (state.scopeChainOf scope).reverse.filterMap fun key => (state.scopedMap.get? key).map state.layers

def merge (scope : Option ScopeKey) (pick : Slot) : OrderedMap EntryKey V :=
  (state.chainLayers scope).foldl (fun merged layer => merged.insertAll (layer.tables pick).data.entries)
    ((state.layers 0).tables pick).data

def effectAt (scope : Option ScopeKey) : ScopedLayers Slot V :=
  match scope with
  | none =>
    { state with
      effects := state.effects + 1
      stack := .acting ⟨state.effects, none, 0, false⟩ :: state.stack }
  | some key =>
    match state.scopedMap.get? key with
    | some layer =>
      { state with
        effects := state.effects + 1
        stack := .acting ⟨state.effects, some key, layer, false⟩ :: state.stack }
    | none =>
      { state with
        layers := fun layer =>
          if layer = state.made then ⟨some key, fun _ => .empty⟩ else state.layers layer
        made := state.made + 1
        scopedMap := state.scopedMap.set key state.made
        effects := state.effects + 1
        stack := .acting ⟨state.effects, some key, state.made, true⟩ :: state.stack }

variable [DecidableEq Slot]

def setTable (layer : Nat) (slot : Slot) (table : EntryTable V) : ScopedLayers Slot V :=
  { state with
    layers := fun other =>
      if other = layer then
        { state.layers layer with
          tables := fun pick => if pick = slot then table else (state.layers layer).tables pick }
      else state.layers other }

def record (effect : Effect) (slot : Slot) (key : EntryKey) (value : V) (table : EntryTable V) :
    ScopedLayers Slot V :=
  { state.setTable effect.layer slot table with
    undos := state.undos ++ [⟨effect, slot, table.generation, key, value, true⟩] }

def insert (effect : Effect) (slot : Slot) (name : String) (value : V) : ScopedLayers Slot V :=
  match ((state.layers effect.layer).tables slot).insert name value with
  | some table => state.record effect slot (.named name) value table
  | none => state

def append (effect : Effect) (slot : Slot) (value : V) : ScopedLayers Slot V :=
  let symbol := state.undos.length
  state.record effect slot (.anonymous symbol) value
    (((state.layers effect.layer).tables slot).append symbol value)

/-- One of the undos that an effect holds is called, for the first time or again. -/
def callUndo (effect : Effect) (index : Nat) : Option (ScopedLayers Slot V) :=
  match state.undos[index]? with
  | none => none
  | some undo =>
    if undo.effect ≠ effect then none
    else if undo.active = false then some state
    else
      let table := ((state.layers effect.layer).tables undo.slot).undo undo.generation undo.key
      some { state.setTable effect.layer undo.slot table with
        undos := state.undos.set index { undo with active := false } }

variable [Fintype Slot]

/-- `if (layer.isEmpty()) this.scoped.delete(scope)`. -/
def reclaim (effect : Effect) : ScopedLayers Slot V :=
  match effect.scope with
  | some key =>
    if (state.layers effect.layer).isEmpty then { state with scopedMap := state.scopedMap.delete key }
    else state
  | none => state

end ScopedLayers

def ScopedLayers.step [DecidableEq Slot] [Fintype Slot] (state : ScopedLayers Slot V) :
    LayerOp Slot V → Option (ScopedLayers Slot V)
  | .effectAt scope => some (state.effectAt scope)
  | .insert slot name value =>
    match state.stack with
    | .acting effect :: _ => some (state.insert effect slot name value)
    | _ => none
  | .append slot value =>
    match state.stack with
    | .acting effect :: _ => some (state.append effect slot value)
    | _ => none
  | .undo index =>
    match state.stack with
    | frame :: _ => state.callUndo frame.effect index
    | [] => none
  | .returns =>
    match state.stack with
    | .acting effect :: rest => some { state with stack := rest, live := state.live ++ [effect] }
    | _ => none
  | .throws =>
    match state.stack with
    | .acting effect :: rest =>
      let state := { state with stack := rest }
      some (if effect.created then state.reclaim effect else state)
    | _ => none
  | .dispose id =>
    -- a disposer that has been called does nothing
    match state.live.find? (·.id = id) with
    | some effect =>
      some { state with
        live := state.live.filter (·.id ≠ id)
        stack := .disposing effect :: state.stack }
    | none => some state
  | .reclaim =>
    match state.stack with
    | .disposing effect :: rest => some ({ state with stack := rest }.reclaim effect)
    | _ => none
  | .bindScopeParent key parent =>
    if state.parents.has key then some state
    else some ((state.linkScopeParent key parent).getD state)
  | .rebind key parent =>
    if state.parents.has key then some ((state.linkScopeParent key parent).getD state) else none

end Harness.Scope
