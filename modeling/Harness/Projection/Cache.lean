import Harness.Projection.RegistryRuns

namespace Harness.Projection

open Harness.Foundation

variable {State Data View : Type}

def readFrom (log : List Data) (fromSeq : Nat) : List (CommittedEvent Data) :=
  (committed log).drop fromSeq

structure RestoredUnit (State Data View : Type) where
  row : String × ProjectionCheckpointRow State
  value : Option (ProjectionDefinition State Data View × View)

structure Restored (State Data View : Type) where
  snapshot : ProjectionSnapshot State Data View
  checkpoint : ProjectionCheckpoint State

def restoredOf (endSeq : Int) (units : List (RestoredUnit State Data View)) :
    Restored State Data View where
  snapshot := ⟨endSeq, units.filterMap (·.value)⟩
  checkpoint := OrderedMap.empty.insertAll (units.map (·.row))

namespace ProjectionDefinition

variable (definition : ProjectionDefinition State Data View)

def neededSeq (checkpoint : ProjectionCheckpoint State) : Int :=
  match checkpoint.get? definition.key with
  | some row => if row.ver = definition.stateVersion then max (row.seq + 1) 0 else 0
  | none => 0

def usableRow (checkpoint : ProjectionCheckpoint State) (baseSeq : Nat) (endSeq : Int) :
    Option (ProjectionCheckpointRow State) :=
  (checkpoint.get? definition.key).filter fun row =>
    decide (row.ver = definition.stateVersion) && decide ((baseSeq : Int) - 1 ≤ row.seq)
      && decide (row.seq ≤ endSeq)

def unrestorable (baseSeq : Nat) : String :=
  s!"session projection {definition.key} cannot restore from seq {baseSeq}: its checkpoint row is missing, version-mismatched, or beyond the supplied log end; re-read from seq 0"

/-- The unit's part of a restored cut: its row and, where it has one, its view. -/
def restoredUnit (state : State) (endSeq : Int) : Except String (RestoredUnit State Data View) :=
  let row := (definition.key, ⟨definition.stateVersion, endSeq, state⟩)
  match definition.view with
  | none => .ok ⟨row, none⟩
  | some view => do
    let value ← view state
    return ⟨row, some (definition, value)⟩

def restoreFrom (initial : State) (fromSeq : Int) (events : List (CommittedEvent Data))
    (endSeq : Int) (seedLength : Nat) : Except String (RestoredUnit State Data View) := do
  let state ← foldOk (definition.applyOwned seedLength) initial
    (events.filter fun event => decide (fromSeq < event.seq))
  definition.restoredUnit state endSeq

def restoreUnit (checkpoint : ProjectionCheckpoint State) (events : List (CommittedEvent Data))
    (baseSeq : Nat) (endSeq : Int) (seedLength : Nat) :
    Except String (RestoredUnit State Data View) :=
  match definition.usableRow checkpoint baseSeq endSeq with
  | some row => do
    let initial ← definition.parse row.val
    definition.restoreFrom initial row.seq events endSeq seedLength
  | none =>
    if 0 < baseSeq then .error (definition.unrestorable baseSeq)
    else definition.restoreFrom definition.init (baseSeq - 1) events endSeq seedLength

end ProjectionDefinition

/-- Where a tail read has to start: one event below the lowest usable watermark. -/
def restoreFloor (definitions : List (ProjectionDefinition State Data View))
    (checkpoint : ProjectionCheckpoint State) : Option Nat :=
  match definitions.map fun definition => definition.neededSeq checkpoint with
  | [] => none
  | need :: needs => some (max (needs.foldl min need - 1) 0).toNat

def restore (definitions : List (ProjectionDefinition State Data View))
    (checkpoint : ProjectionCheckpoint State) (events : List (CommittedEvent Data)) (baseSeq : Nat)
    (seedLength : Nat) : Except String (Restored State Data View) := do
  let endSeq := lastSeq events ((baseSeq : Int) - 1)
  let units ← definitions.mapM fun definition =>
    definition.restoreUnit checkpoint events baseSeq endSeq seedLength
  return restoredOf endSeq units

/-- The units of each key and version, each with the state its schema returns as it is. -/
structure Catalogue (State Data View : Type) where
  unit : String → Int → ProjectionDefinition State Data View
  key : ∀ name version, (unit name version).key = name
  stateVersion : ∀ name version, (unit name version).stateVersion = version
  parse : ∀ name version stored state, (unit name version).parse stored = .ok state → state = stored

/-- When the log ends below the floor, some unit has no row right below the floor. -/
def Anchored (definitions : List (ProjectionDefinition State Data View))
    (rows : ProjectionCheckpoint State) (floor : Nat) (log : List Data) : Prop :=
  log.length < floor → (definitions.any fun definition =>
    (rows.get? definition.key).all fun row =>
      decide (row.ver ≠ definition.stateVersion) || decide (row.seq ≠ (floor : Int) - 1)) = true

structure CheckpointIdentity where
  createdAt : Nat
  cwd : Option String
  deriving DecidableEq, Repr

structure CheckpointRecord (State : Type) where
  identity : CheckpointIdentity
  rows : ProjectionCheckpoint State
  epoch : Nat

/-- A checkpoint that is on its way, and how much of the log it has to wait for. -/
structure PendingWrite (State : Type) where
  rows : ProjectionCheckpoint State
  barrier : Nat

structure ColdRead (State : Type) where
  record : Option (CheckpointRecord State)
  floor : Option Nat

/-- `record?.rows ?? {}`. -/
def rowsOf (record : Option (CheckpointRecord State)) : ProjectionCheckpoint State :=
  match record with
  | some record => record.rows
  | none => .empty

def ColdRead.isRelated (read : ColdRead State) (identity : CheckpointIdentity) : Bool :=
  match read.record with
  | some record => decide (record.identity = identity)
  | none => true

inductive Residency
  | live | draining | cold
  deriving DecidableEq, Repr

structure CachedSession (State Data View : Type) where
  identity : CheckpointIdentity
  seedLength : Nat
  session : ProjectedSession State Data View
  residency : Residency
  stored : List Data
  durable : Nat
  record : Option (CheckpointRecord State)
  writes : List (PendingWrite State)
  reads : List (ColdRead State)
  epoch : Nat

namespace ProjectedSession

/-- A new Session object on a stored log: the units stay registered, their cells do not. -/
def reenter (session : ProjectedSession State Data View) (log : List Data) (seedLength : Nat) :
    ProjectedSession State Data View :=
  { session with
    log := log
    seedLength := seedLength
    registrations := session.registrations.mapValues fun registration =>
      { registration with cell := none, since := log.length }
    listeners := session.listeners.mapValues fun _ => log.length
    dispatch := .idle
    changes := []
    snapshots := [] }

def definitions (session : ProjectedSession State Data View) :
    List (ProjectionDefinition State Data View) :=
  session.registrations.values.map (·.definition)

end ProjectedSession

namespace CachedSession

/-- A stored log that no Session has been opened on, with whatever record the table holds. -/
def stored_ (identity : CheckpointIdentity) (seedLength : Nat) (log : List Data)
    (record : Option (CheckpointRecord State)) : CachedSession State Data View where
  identity := identity
  seedLength := seedLength
  session := .entered [] 0
  residency := .cold
  stored := log
  durable := log.length
  record := record
  writes := []
  reads := []
  epoch := 1

variable (state : CachedSession State Data View)

def openSession : Option (CachedSession State Data View) :=
  if state.residency = .cold then
    some { state with session := state.session.reenter state.stored state.seedLength, residency := .live }
  else none

def register (definition : ProjectionDefinition State Data View) :
    Option (CachedSession State Data View) :=
  (state.session.step (.register definition)).map fun session => { state with session }

def dispose (key : String) : CachedSession State Data View :=
  { state with session := state.session.dispose key }

def isRegister : ProjectionOp State Data View → Bool
  | .register _ => true
  | _ => false

def project (op : ProjectionOp State Data View) : Option (CachedSession State Data View) :=
  if isRegister op = false ∧ state.residency = .live then
    (state.session.step op).map fun session => { state with session }
  else none

/-- The store lets the Session go; its last events may still be on their way. -/
def detach : Option (CachedSession State Data View) :=
  if state.residency = .live ∧ state.session.dispatch = .idle then
    some { state with residency := .draining }
  else none

def drained : Option (CachedSession State Data View) :=
  if state.residency = .draining ∧ state.stored.length = state.session.log.length then
    some { state with residency := .cold }
  else none

def persist (count : Nat) : Option (CachedSession State Data View) :=
  if state.residency ≠ .cold ∧ state.stored.length ≤ count ∧ count ≤ state.session.log.length then
    some { state with stored := state.session.log.take count }
  else none

def sync (count : Nat) : Option (CachedSession State Data View) :=
  if state.durable ≤ count ∧ count ≤ state.stored.length then some { state with durable := count }
  else none

/-- The start of `write`: the cut is taken, and a Session that is still in the store is flushed
before the record is put. -/
def write : Option (CachedSession State Data View) :=
  if state.residency = .cold then none
  else
    match state.session.checkpoint with
    | (session, .error _) => some { state with session }
    | (session, .ok rows) =>
      let barrier := if state.residency = .live then state.session.log.length else 0
      some { state with session, writes := state.writes ++ [⟨rows, barrier⟩] }

def put (index : Nat) (lost : Bool) : Option (CachedSession State Data View) :=
  match state.writes[index]? with
  | none => none
  | some pending =>
    let rest := state.writes.eraseIdx index
    if lost then some { state with writes := rest }
    else if pending.barrier ≤ state.durable then
      some { state with
        writes := rest
        record := some ⟨state.identity, pending.rows, state.epoch⟩ }
    else none

def beginCold : CachedSession State Data View :=
  let floor := restoreFloor state.session.definitions (rowsOf state.record)
  { state with reads := state.reads ++ [⟨state.record, floor⟩] }

def coldAnswer (read : ColdRead State) : Except String (Restored State Data View) :=
  match read.floor with
  | none => .ok (restoredOf (lastSeq (readFrom state.stored 0) (-1)) [])
  | some floor =>
    let definitions := state.session.definitions
    let whole := restore definitions .empty (readFrom state.stored 0) 0 state.seedLength
    if read.isRelated state.identity then
      let tail := readFrom state.stored floor
      match restore definitions (rowsOf read.record) tail floor state.seedLength with
      | .ok restored => .ok restored
      | .error _ => whole
    else whole

def finishCold (index : Nat) : Option (CachedSession State Data View) :=
  match state.reads[index]? with
  | none => none
  | some read =>
    let rest := state.reads.eraseIdx index
    match read.floor, state.coldAnswer read with
    | some _, .ok restored =>
      some { state with reads := rest, writes := state.writes ++ [⟨restored.checkpoint, 0⟩] }
    | _, _ => some { state with reads := rest }

/-- The process dies: the stored log falls back to some durable end, and memory is lost. -/
def crash (count : Nat) : Option (CachedSession State Data View) :=
  if state.durable ≤ count ∧ count ≤ state.stored.length then
    some { state with
      residency := .cold
      stored := state.stored.take count
      writes := []
      reads := []
      epoch := state.epoch + 1 }
  else none

end CachedSession

inductive CacheOp (State Data View : Type)
  | register (name : String) (version : Int)
  | dispose (key : String)
  | project (op : ProjectionOp State Data View)
  | openSession
  | detach
  | drained
  | persist (count : Nat)
  | sync (count : Nat)
  | write
  | put (index : Nat) (lost : Bool)
  | beginCold
  | finishCold (index : Nat)
  | crash (count : Nat)

def CachedSession.step (units : Catalogue State Data View) (state : CachedSession State Data View) :
    CacheOp State Data View → Option (CachedSession State Data View)
  | .register name version => state.register (units.unit name version)
  | .dispose key => some (state.dispose key)
  | .project op => state.project op
  | .openSession => state.openSession
  | .detach => state.detach
  | .drained => state.drained
  | .persist count => state.persist count
  | .sync count => state.sync count
  | .write => state.write
  | .put index lost => state.put index lost
  | .beginCold => some state.beginCold
  | .finishCold index => state.finishCold index
  | .crash count => state.crash count

end Harness.Projection
