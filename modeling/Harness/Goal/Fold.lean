import Harness.Foundation.Except
import Harness.Foundation.JsonText
import Harness.Foundation.Text
import Harness.Session.Event
import Mathlib.Data.List.Sort

namespace Harness

open Harness.Foundation

abbrev GoalId := String

structure GoalRef where
  id : GoalId
  revision : Nat
  deriving DecidableEq, Repr

structure GoalBlockReason where
  code : String
  message : String
  deriving DecidableEq, Repr

inductive GoalPhase
  | active
  | paused
  | blocked
  | complete
  deriving DecidableEq, Repr

def GoalPhase.name : GoalPhase → String
  | .active => "active"
  | .paused => "paused"
  | .blocked => "blocked"
  | .complete => "complete"

def GoalPhase.ofName? : String → Option GoalPhase
  | "active" => some .active
  | "paused" => some .paused
  | "blocked" => some .blocked
  | "complete" => some .complete
  | _ => none

structure GoalSnapshot where
  id : GoalId
  revision : Nat
  objective : String
  phase : GoalPhase
  maxGoalRounds : Nat
  blockedReason : Option GoalBlockReason
  deriving DecidableEq, Repr

def GoalSnapshot.ref (goal : GoalSnapshot) : GoalRef := { id := goal.id, revision := goal.revision }

inductive GoalOperation
  | create
  | edit
  | pause
  | resume
  | complete
  | block
  deriving DecidableEq, Repr

def GoalOperation.name : GoalOperation → String
  | .create => "create"
  | .edit => "edit"
  | .pause => "pause"
  | .resume => "resume"
  | .complete => "complete"
  | .block => "block"

def GoalOperation.ofName? : String → Option GoalOperation
  | "create" => some .create
  | "edit" => some .edit
  | "pause" => some .pause
  | "resume" => some .resume
  | "complete" => some .complete
  | "block" => some .block
  | _ => none

structure GoalSnapshotChange where
  operation : GoalOperation
  goal : GoalSnapshot
  roundsStarted : Nat
  createdAt : Int
  updatedAt : Int
  deriving DecidableEq, Repr

structure GoalClearChange where
  cleared : GoalRef
  clearedAt : Int
  deriving DecidableEq, Repr

inductive GoalChange
  | snapshot (change : GoalSnapshotChange)
  | clear (change : GoalClearChange)
  deriving DecidableEq, Repr

structure GoalMessageSource where
  goalId : GoalId
  revision : Nat
  round : Nat
  deriving DecidableEq, Repr

structure GoalFoldState where
  goal : Option GoalSnapshot
  roundsStarted : Nat
  createdAt : Option Int
  updatedAt : Option Int
  lastRef : Option GoalRef
  seenGoalIds : List GoalId
  deriving DecidableEq, Repr

def emptyGoalFoldState : GoalFoldState where
  goal := none
  roundsStarted := 0
  createdAt := none
  updatedAt := none
  lastRef := none
  seenGoalIds := []

section Decoder

/-- `Object.keys(value).sort().join(',')`. -/
def sortedKeys (value : List (String × Json)) : String :=
  ",".intercalate ((value.map Prod.fst).insertionSort (· ≤ ·))

def textField (value : List (String × Json)) (key : String) : Option String :=
  match value.lookup key with
  | some (.str text) => some text
  | _ => none

def positiveInteger (value : Option Json) (field : String) : Except String Nat :=
  expect ((value.bind Json.safeNat?).filter fun n => decide (1 ≤ n))
    s!"goal change {field} must be a positive safe integer"

def nonNegativeInteger (value : Option Json) (field : String) : Except String Nat :=
  expect (value.bind Json.safeNat?) s!"goal change {field} must be a non-negative safe integer"

def decodeBlockReason (value : Option Json) : Except String GoalBlockReason := do
  let value ← expect (value.bind Json.fields?)
    "goal change goal.blockedReason must have exactly code and message fields"
  require (sortedKeys value == "code,message")
    "goal change goal.blockedReason must have exactly code and message fields"
  let code ← expect ((textField value "code").filter isLowerKebab)
    "goal change goal.blockedReason.code must be lower-kebab-case"
  let message ← expect ((textField value "message").filter isNormalized)
    "goal change goal.blockedReason.message must be non-empty and normalized"
  return { code, message }

def decodePhaseReason (phase : GoalPhase) (value : Option Json) :
    Except String (Option GoalBlockReason) :=
  if phase == .blocked then some <$> decodeBlockReason value else .ok none

def snapshotKeys (phase : GoalPhase) : String :=
  if phase == .blocked then "blockedReason,id,maxGoalRounds,objective,phase,revision"
  else "id,maxGoalRounds,objective,phase,revision"

def decodeSnapshot (value : Option Json) : Except String GoalSnapshot := do
  let value ← expect (value.bind Json.fields?) "goal change goal must be a record"
  let id ← expect ((textField value "id").filter fun id => id != "")
    "goal change goal.id must be a non-empty string"
  let objective ← expect ((textField value "objective").filter isNormalized)
    "goal change goal.objective must be non-empty and normalized"
  let phase ← expect ((textField value "phase").bind GoalPhase.ofName?)
    "goal change goal.phase is invalid"
  require (sortedKeys value == snapshotKeys phase)
    s!"goal change goal for phase {phase.name} must have exactly {snapshotKeys phase} fields"
  let revision ← positiveInteger (value.lookup "revision") "goal.revision"
  let maxGoalRounds ← positiveInteger (value.lookup "maxGoalRounds") "goal.maxGoalRounds"
  let blockedReason ← decodePhaseReason phase (value.lookup "blockedReason")
  return { id, revision, objective, phase, maxGoalRounds, blockedReason }

def decodeRef (value : Option Json) : Except String GoalRef := do
  let value ← expect (value.bind Json.fields?)
    "goal clear tombstone must have exactly id and revision fields"
  require (sortedKeys value == "id,revision")
    "goal clear tombstone must have exactly id and revision fields"
  let id ← expect ((textField value "id").filter fun id => id != "")
    "goal clear tombstone id must be a non-empty string"
  let revision ← positiveInteger (value.lookup "revision") "cleared.revision"
  return { id, revision }

def goalChangeVersion : Nat := 1

def displayField : Option Json → String
  | none => "undefined"
  | some value => value.display

def decodeClearChange (value : List (String × Json)) : Except String GoalClearChange := do
  require (sortedKeys value == "cleared,clearedAt,kind,operation,version")
    "goal clear change must have exactly cleared,clearedAt,kind,operation,version fields"
  let cleared ← decodeRef (value.lookup "cleared")
  let clearedAt ← nonNegativeInteger (value.lookup "clearedAt") "clearedAt"
  return { cleared, clearedAt }

def decodeSnapshotChange (value : List (String × Json)) : Except String GoalSnapshotChange := do
  let operation ← expect ((textField value "operation").bind GoalOperation.ofName?)
    "goal change operation is invalid"
  require
    (sortedKeys value == "createdAt,goal,kind,operation,roundsStarted,updatedAt,version")
    "goal snapshot change must have exactly createdAt,goal,kind,operation,roundsStarted,updatedAt,version fields"
  let createdAt ← nonNegativeInteger (value.lookup "createdAt") "createdAt"
  let updatedAt ← nonNegativeInteger (value.lookup "updatedAt") "updatedAt"
  require (decide (createdAt ≤ updatedAt)) "goal change updatedAt cannot precede createdAt"
  let goal ← decodeSnapshot (value.lookup "goal")
  let roundsStarted ← nonNegativeInteger (value.lookup "roundsStarted") "roundsStarted"
  return { operation, goal, roundsStarted, createdAt, updatedAt }

def decodeGoalChange (value : Json) : Except String (Option GoalChange) :=
  match value with
  | .obj value =>
    if value.lookup "kind" ≠ some (.str "goal/change") then .ok none
    else do
      let version := value.lookup "version"
      require (decide (version = some (.nat goalChangeVersion)))
        s!"unsupported goal change version {displayField version}"
      if value.lookup "operation" = some (.str "clear") then do
        let change ← decodeClearChange value
        return some (.clear change)
      else do
        let change ← decodeSnapshotChange value
        return some (.snapshot change)
  | _ => .ok none

def goalSource : MessageSource → Except String (Option GoalMessageSource)
  | .other kind fields =>
    if kind ≠ "goal" then .ok none
    else
      let positive key := ((fields.lookup key).bind Json.safeNat?).filter fun n => decide (1 ≤ n)
      match (textField fields "goalId").filter (fun id => id != ""), positive "revision",
          positive "round" with
      | some goalId, some revision, some round => .ok (some { goalId, revision, round })
      | _, _, _ => .error "goal message source is invalid"
  | _ => .ok none

end Decoder

section Transitions

def requireSameDefinition (current next : GoalSnapshot) (operation : GoalOperation) :
    Except String Unit :=
  require (decide (next.objective = current.objective ∧ next.maxGoalRounds = current.maxGoalRounds))
    s!"goal {operation.name} cannot change objective or maxGoalRounds"

def requireNextRevision (current : GoalSnapshot) (next : GoalRef) (operation : String) :
    Except String Unit :=
  require (decide (next.id = current.id ∧ next.revision = current.revision + 1))
    s!"goal {operation} must advance the current goal by one revision"

def validateOperation (state : GoalFoldState) (operation : GoalOperation)
    (current next : GoalSnapshot) : Except String Unit :=
  match operation with
  | .edit =>
    require (decide (next.phase = current.phase ∧ next.blockedReason = current.blockedReason))
      "goal edit cannot change phase or blocked reason"
  | .pause => do
    requireSameDefinition current next .pause
    require (decide (current.phase = .active ∧ next.phase = .paused))
      "goal pause has an invalid phase transition"
  | .resume => do
    requireSameDefinition current next .resume
    require (decide (current.phase ∈ [GoalPhase.active, .paused, .blocked] ∧
        next.phase = .active ∧ state.roundsStarted < next.maxGoalRounds))
      "goal resume has an invalid phase transition or exhausted round budget"
  | .complete => do
    requireSameDefinition current next .complete
    require (decide (current.phase ≠ .complete ∧ next.phase = .complete))
      "goal complete has an invalid phase transition"
  | .block => do
    requireSameDefinition current next .block
    require (decide (current.phase = .active ∧ next.phase = .blocked))
      "goal block has an invalid phase transition"
  | .create => .error "goal create cannot be validated as a current-goal transition"

def validateSnapshotTransition (state : GoalFoldState) (change : GoalSnapshotChange)
    (current : GoalSnapshot) : Except String Unit := do
  requireNextRevision current change.goal.ref change.operation.name
  let updatedAt ← expect state.updatedAt "current goal fold lacks updatedAt"
  require (decide (state.createdAt = some change.createdAt ∧ updatedAt ≤ change.updatedAt ∧
      change.roundsStarted = state.roundsStarted))
    s!"goal {change.operation.name} does not preserve the current counters and timestamps"
  validateOperation state change.operation current change.goal

def goalChangeRef : GoalChange → GoalRef
  | .clear change => change.cleared
  | .snapshot change => change.goal.ref

def applyClear (state : GoalFoldState) (change : GoalClearChange) : Except String GoalFoldState := do
  let current ← expect state.goal "goal clear requires a current goal"
  requireNextRevision current change.cleared "clear"
  let updatedAt ← expect state.updatedAt "current goal fold lacks updatedAt"
  require (decide (updatedAt ≤ change.clearedAt))
    "goal clear timestamp cannot precede the current goal update"
  return { state with
    goal := none, roundsStarted := 0, createdAt := none, updatedAt := none
    lastRef := some change.cleared }

def admitSnapshot (state : GoalFoldState) (change : GoalSnapshotChange) :
    Except String (List GoalId) :=
  if change.operation = .create then do
    require (decide (change.goal.revision = 1 ∧ change.goal.phase = .active ∧
        change.roundsStarted = 0 ∧ (∀ current ∈ state.goal, current.phase = .complete) ∧
        change.goal.id ∉ state.seenGoalIds))
      "goal create requires a fresh active revision-one goal with zero rounds"
    return change.goal.id :: state.seenGoalIds
  else do
    let current ← expect state.goal s!"goal {change.operation.name} requires a current goal"
    validateSnapshotTransition state change current
    return state.seenGoalIds

def applySnapshot (state : GoalFoldState) (change : GoalSnapshotChange) :
    Except String GoalFoldState := do
  let seenGoalIds ← admitSnapshot state change
  return {
    goal := some change.goal, roundsStarted := change.roundsStarted
    createdAt := some change.createdAt, updatedAt := some change.updatedAt
    lastRef := some change.goal.ref, seenGoalIds }

def applyGoalChange (state : GoalFoldState) : GoalChange → Except String GoalFoldState
  | .clear change => applyClear state change
  | .snapshot change => applySnapshot state change

def isNextRound (state : GoalFoldState) (source : GoalMessageSource) : Bool :=
  state.goal.any fun current =>
    decide (current.phase = .active ∧ source.goalId = current.id ∧
      source.revision = current.revision ∧ source.round = state.roundsStarted + 1 ∧
      source.round ≤ current.maxGoalRounds)

def goalChangeType : PluginType := { name := "goal/change", notCore := by decide }

def applyGoalEvent (state : GoalFoldState) (event : SessionEvent) : Except String GoalFoldState :=
  match event.data with
  | .plugin type data =>
    if type ≠ goalChangeType then .ok state
    else do
      let change ← decodeGoalChange data
      let change ← expect change s!"goal change at session event {event.seq} has an invalid kind"
      applyGoalChange state change
  | .userMessage message => do
    let source ← goalSource message.source
    match source with
    | none => return state
    | some source =>
      require (isNextRound state source)
        s!"goal round at session event {event.seq} is not the next admitted round of the active goal"
      return { state with roundsStarted := source.round }
  | _ => .ok state

end Transitions

def foldGoalState (events : List SessionEvent) : Except String GoalFoldState :=
  foldOk applyGoalEvent emptyGoalFoldState events

structure FoldedGoal where
  goal : Option GoalSnapshot
  roundsStarted : Nat
  createdAt : Option Int
  updatedAt : Option Int
  lastRef : Option GoalRef
  deriving DecidableEq, Repr

def GoalFoldState.folded (state : GoalFoldState) : FoldedGoal where
  goal := state.goal
  roundsStarted := state.roundsStarted
  createdAt := state.createdAt
  updatedAt := state.updatedAt
  lastRef := state.lastRef

def foldGoal (events : List SessionEvent) : Except String FoldedGoal :=
  GoalFoldState.folded <$> foldGoalState events

end Harness
