import Harness.Foundation.Except
import Harness.Foundation.Machine
import Harness.Foundation.OrderedMap
import Harness.Foundation.SafeInteger

namespace Harness.Projection

open Harness.Foundation

structure CommittedEvent (Data : Type) where
  seq : Nat
  data : Data
  deriving DecidableEq, Repr

/-- A pure unit over one state, event and view type.  `apply` answers `none` for the same
reference; `view` is the view that passed its schema. -/
structure ProjectionDefinition (State Data View : Type) where
  key : String
  parse : State → Except String State
  init : State
  apply : State → CommittedEvent Data → Except String (Option State)
  view : Option (State → Except String View)
  ownedSuffix : Bool
  stateVersion : Int

variable {State Data View : Type}

def committed (log : List Data) : List (CommittedEvent Data) :=
  log.zipIdx.map fun entry => ⟨entry.2, entry.1⟩

structure UnitCell (State : Type) where
  state : State
  observedSeq : Int
  deriving DecidableEq, Repr

def lastSeq (events : List (CommittedEvent Data)) (fallback : Int) : Int :=
  match events.getLast? with
  | some event => event.seq
  | none => fallback

namespace ProjectionDefinition

variable (definition : ProjectionDefinition State Data View)

def applyOwned (seedLength : Nat) (state : State) (event : CommittedEvent Data) :
    Except String State :=
  if definition.ownedSuffix && decide (event.seq < seedLength) then .ok state
  else (fun next => next.getD state) <$> definition.apply state event

def buildCell (events : List (CommittedEvent Data)) (seedLength : Nat) :
    Except String (UnitCell State) := do
  let state ← foldOk (definition.applyOwned seedLength) definition.init events
  return { state, observedSeq := lastSeq events (-1) }

end ProjectionDefinition

/-- One live registration, which of them it is, and how long the log was when it came. -/
structure Registration (State Data View : Type) where
  definition : ProjectionDefinition State Data View
  cell : Option (UnitCell State)
  refs : Nat
  serial : Nat
  since : Nat

structure ProjectionChange (State Data View : Type) where
  definition : ProjectionDefinition State Data View
  serial : Nat
  value : View
  seq : Nat
  listeners : List Nat

structure ProjectionCheckpointRow (State : Type) where
  ver : Int
  seq : Int
  val : State
  deriving DecidableEq, Repr

abbrev ProjectionCheckpoint (State : Type) := OrderedMap String (ProjectionCheckpointRow State)

structure ProjectionSnapshot (State Data View : Type) where
  asOfSeq : Int
  values : List (ProjectionDefinition State Data View × View)

/-- Where the publication of the last event is: `telling` is inside the listener loop of one unit,
with the listeners and the units that are still to come. -/
inductive Dispatch
  | idle
  | committed
  | driving (pending : List String)
  | telling (listeners : List Nat) (pending : List String)
  deriving DecidableEq, Repr

structure ProjectedSession (State Data View : Type) where
  log : List Data
  seedLength : Nat
  registrations : OrderedMap String (Registration State Data View)
  listeners : OrderedMap Nat Nat
  nextSerial : Nat
  dispatch : Dispatch
  changes : List (ProjectionChange State Data View)
  snapshots : List (ProjectionSnapshot State Data View)

namespace ProjectedSession

/-- A Session that enters the store with its log, before any unit has touched it. -/
def entered (log : List Data) (seedLength : Nat) : ProjectedSession State Data View where
  log := log
  seedLength := seedLength
  registrations := .empty
  listeners := .empty
  nextSerial := 0
  dispatch := .idle
  changes := []
  snapshots := []

variable (session : ProjectedSession State Data View)

def awaiting : List String :=
  match session.dispatch with
  | .idle => []
  | .committed => session.registrations.keys
  | .driving pending | .telling _ pending => pending

def untold : List Nat :=
  match session.dispatch with
  | .telling listeners _ => listeners
  | _ => []

def heardNow : List Nat :=
  match session.dispatch, session.changes.getLast? with
  | .telling _ _, some change => change.listeners
  | _, _ => []

def mismatch (existing definition : ProjectionDefinition State Data View) : String :=
  s!"session projection key {definition.key} is already registered at stateVersion {existing.stateVersion}; refusing to share it with stateVersion {definition.stateVersion}"

def awaitKey (key : String) : Dispatch → Dispatch
  | .driving pending => .driving (pending ++ [key])
  | .telling listeners pending => .telling listeners (pending ++ [key])
  | dispatch => dispatch

def register (definition : ProjectionDefinition State Data View) :
    Except String (ProjectedSession State Data View) :=
  if !isSafe definition.stateVersion || decide (definition.stateVersion < 0) then
    .error s!"session projection {definition.key} stateVersion must be a non-negative integer, got {definition.stateVersion}"
  else
    match session.registrations.get? definition.key with
    | none =>
      let registration :=
        { definition, cell := none, refs := 1, serial := session.nextSerial, since := session.log.length }
      .ok { session with
        registrations := session.registrations.set definition.key registration
        nextSerial := session.nextSerial + 1
        dispatch := awaitKey definition.key session.dispatch }
    | some existing =>
      if existing.definition.stateVersion ≠ definition.stateVersion
          ∨ existing.definition.ownedSuffix ≠ definition.ownedSuffix then
        .error (mismatch existing.definition definition)
      else
        .ok { session with
          registrations :=
            session.registrations.set definition.key { existing with refs := existing.refs + 1 } }

def forgetKey (key : String) : Dispatch → Dispatch
  | .driving pending => .driving (pending.filter (· ≠ key))
  | .telling listeners pending => .telling listeners (pending.filter (· ≠ key))
  | dispatch => dispatch

def dispose (key : String) : ProjectedSession State Data View :=
  match session.registrations.get? key with
  | none => session
  | some live =>
    if live.refs - 1 = 0 then
      { session with
        registrations := session.registrations.delete key
        dispatch := forgetKey key session.dispatch }
    else
      { session with
        registrations := session.registrations.set key { live with refs := live.refs - 1 } }

def setCell (key : String) (registration : Registration State Data View) (cell : UnitCell State) :
    ProjectedSession State Data View :=
  { session with
    registrations := session.registrations.set key { registration with cell := some cell } }

def cellFor (key : String) (registration : Registration State Data View) :
    Except String (ProjectedSession State Data View × UnitCell State) :=
  match registration.cell with
  | some cell => .ok (session, cell)
  | none => do
    let cell ← registration.definition.buildCell (committed session.log) session.seedLength
    return (session.setCell key registration cell, cell)

def stateOf (key : String) : ProjectedSession State Data View × Except String (Option State) :=
  match session.registrations.get? key with
  | none => (session, .ok none)
  | some registration =>
    match session.cellFor key registration with
    | .error message => (session, .error message)
    | .ok (session, cell) => (session, .ok (some cell.state))

def visit {β : Type} (f : Registration State Data View → UnitCell State → Except String β) :
    List String → ProjectedSession State Data View →
      ProjectedSession State Data View × Except String (List β)
  | [], session => (session, .ok [])
  | key :: keys, session =>
    match session.registrations.get? key with
    | none => visit f keys session
    | some registration =>
      match session.cellFor key registration with
      | .error message => (session, .error message)
      | .ok (session, cell) =>
        match f registration cell with
        | .error message => (session, .error message)
        | .ok value =>
          let (session, values) := visit f keys session
          (session, (fun rest => value :: rest) <$> values)

def wireKeys : List String :=
  (session.registrations.entries.filter fun entry => entry.2.definition.view.isSome).map Prod.fst

def viewCell (registration : Registration State Data View) (cell : UnitCell State) :
    Except String (ProjectionDefinition State Data View × View) := do
  let view ← expect registration.definition.view "the unit has no view"
  let value ← view cell.state
  return (registration.definition, value)

def snapshot :
    ProjectedSession State Data View × Except String (ProjectionSnapshot State Data View) :=
  let (after, values) := visit viewCell session.wireKeys session
  let cut : List (ProjectionDefinition State Data View × View) →
      ProjectionSnapshot State Data View := fun values => ⟨session.log.length - 1, values⟩
  (after, cut <$> values)

def rowOf (registration : Registration State Data View) (cell : UnitCell State) :
    Except String (String × ProjectionCheckpointRow State) :=
  .ok (registration.definition.key,
    ⟨registration.definition.stateVersion, cell.observedSeq, cell.state⟩)

def checkpoint : ProjectedSession State Data View × Except String (ProjectionCheckpoint State) :=
  let (after, rows) := visit rowOf session.registrations.keys session
  (after, OrderedMap.empty.insertAll <$> rows)

/-- The cell a drive starts from: the one there is, or the fold of what came before the event. -/
def driveCell (registration : Registration State Data View) (seq : Nat) :
    Except String (UnitCell State) :=
  match registration.cell with
  | some cell => .ok cell
  | none =>
    registration.definition.buildCell ((committed session.log).take seq) session.seedLength

/-- What one unit makes of the event: its next cell, and the value to publish when it changed. -/
def driveUnit (registration : Registration State Data View) (event : CommittedEvent Data) :
    Except String (UnitCell State × Option View) := do
  let cell ← session.driveCell registration event.seq
  let next ← registration.definition.apply cell.state event
  let driven := { state := next.getD cell.state, observedSeq := event.seq }
  match next, registration.definition.view with
  | some state, some view =>
    if session.listeners.entries.isEmpty then return (driven, none)
    else
      let value ← view state
      return (driven, some value)
  | _, _ => return (driven, none)

def cellReached (registration : Registration State Data View) (event : CommittedEvent Data) :
    Option (UnitCell State) :=
  match session.driveCell registration event.seq with
  | .error _ => none
  | .ok cell =>
    match registration.definition.apply cell.state event with
    | .error _ => some cell
    | .ok next => some { state := next.getD cell.state, observedSeq := event.seq }

def abandon (key : String) (registration : Registration State Data View)
    (event : CommittedEvent Data) : ProjectedSession State Data View :=
  match session.cellReached registration event with
  | none => { session with dispatch := .driving [] }
  | some cell => { session.setCell key registration cell with dispatch := .driving [] }

def driveNext : Option (ProjectedSession State Data View) :=
  match session.dispatch with
  | .driving (key :: pending) =>
    match session.registrations.get? key, session.log.getLast? with
    | some registration, some data =>
      let seq := session.log.length - 1
      match session.driveUnit registration ⟨seq, data⟩ with
      | .error _ => some (session.abandon key registration ⟨seq, data⟩)
      | .ok (cell, value) =>
        let driven := session.setCell key registration cell
        match value with
        | none => some { driven with dispatch := .driving pending }
        | some value =>
          let change :=
            { definition := registration.definition, serial := registration.serial, value, seq,
              listeners := [] }
          some { driven with
            dispatch := .telling session.listeners.keys pending
            changes := session.changes ++ [change] }
    | _, _ => some { session with dispatch := .driving pending }
  | _ => none

def tellLast (listener : Nat) :
    List (ProjectionChange State Data View) → List (ProjectionChange State Data View)
  | [] => []
  | [change] => [{ change with listeners := change.listeners ++ [listener] }]
  | change :: changes => change :: tellLast listener changes

/-- The next listener is called; until the one after it, whatever happens happens in its body. -/
def tell : Option (ProjectedSession State Data View) :=
  match session.dispatch with
  | .telling (listener :: rest) pending =>
    some { session with
      dispatch := .telling rest pending
      changes := tellLast listener session.changes }
  | _ => none

def told : Option (ProjectedSession State Data View) :=
  match session.dispatch with
  | .telling [] pending => some { session with dispatch := .driving pending }
  | _ => none

def listenerThrows : Option (ProjectedSession State Data View) :=
  if session.heardNow = [] then none else some { session with dispatch := .driving [] }

def commit (data : Data) : Option (ProjectedSession State Data View) :=
  if session.dispatch = .idle then
    some { session with log := session.log ++ [data], dispatch := .committed }
  else none

def startDrive : Option (ProjectedSession State Data View) :=
  if session.dispatch = .committed then
    some { session with dispatch := .driving session.registrations.keys }
  else none

def finish : Option (ProjectedSession State Data View) :=
  if session.dispatch = .driving [] then some { session with dispatch := .idle } else none

def readSnapshot : ProjectedSession State Data View :=
  match session.snapshot with
  | (after, .ok snapshot) => { after with snapshots := after.snapshots ++ [snapshot] }
  | (after, .error _) => after

/-- A listener that subscribes while a change is told comes last in the loop. -/
def awaitListener (listener : Nat) : Dispatch → Dispatch
  | .telling listeners pending => .telling (listeners ++ [listener]) pending
  | dispatch => dispatch

def onChanged (listener : Nat) : ProjectedSession State Data View :=
  if session.listeners.has listener then session
  else
    { session with
      listeners := session.listeners.set listener session.log.length
      dispatch := awaitListener listener session.dispatch }

def forgetListener (listener : Nat) : Dispatch → Dispatch
  | .telling listeners pending => .telling (listeners.filter (· ≠ listener)) pending
  | dispatch => dispatch

def offChanged (listener : Nat) : ProjectedSession State Data View :=
  { session with
    listeners := session.listeners.delete listener
    dispatch := forgetListener listener session.dispatch }

end ProjectedSession

inductive ProjectionOp (State Data View : Type)
  | commit (data : Data)
  | startDrive
  | driveNext
  | tell
  | told
  | listenerThrows
  | finish
  | register (definition : ProjectionDefinition State Data View)
  | dispose (key : String)
  | onChanged (listener : Nat)
  | offChanged (listener : Nat)
  | stateOf (key : String)
  | snapshot
  | checkpoint

def ProjectedSession.step (session : ProjectedSession State Data View) :
    ProjectionOp State Data View → Option (ProjectedSession State Data View)
  | .commit data => session.commit data
  | .startDrive => session.startDrive
  | .driveNext => session.driveNext
  | .tell => session.tell
  | .told => session.told
  | .listenerThrows => session.listenerThrows
  | .finish => session.finish
  | .register definition =>
    match session.register definition with
    | .ok next => some next
    | .error _ => some session
  | .dispose key => some (session.dispose key)
  | .onChanged listener => some (session.onChanged listener)
  | .offChanged listener => some (session.offChanged listener)
  | .stateOf key => some (session.stateOf key).1
  | .snapshot => some session.readSnapshot
  | .checkpoint => some session.checkpoint.1

end Harness.Projection
