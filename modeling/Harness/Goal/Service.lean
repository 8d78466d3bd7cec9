import Harness.Goal.Fold
import Harness.Session.EventLog

/-! The goal service of one process: compare-and-set mutations over the session log, a cache of
the strict fold, and the activation that only this process can give. -/

namespace Harness

open Harness.Foundation

section Changes

def GoalBlockReason.json (reason : GoalBlockReason) : Json :=
  .obj [("code", .str reason.code), ("message", .str reason.message)]

def GoalRef.json (ref : GoalRef) : Json :=
  .obj [("id", .str ref.id), ("revision", .nat ref.revision)]

def GoalSnapshot.json (goal : GoalSnapshot) : Json :=
  .obj ([("id", .str goal.id), ("revision", .nat goal.revision), ("objective", .str goal.objective),
      ("phase", .str goal.phase.name), ("maxGoalRounds", .nat goal.maxGoalRounds)]
    ++ Json.optionalField "blockedReason" (goal.blockedReason.map GoalBlockReason.json))

def GoalChange.json : GoalChange → Json
  | .snapshot change =>
    .obj [("kind", .str "goal/change"), ("version", .nat goalChangeVersion),
      ("operation", .str change.operation.name), ("goal", change.goal.json),
      ("roundsStarted", .nat change.roundsStarted), ("createdAt", .int change.createdAt),
      ("updatedAt", .int change.updatedAt)]
  | .clear change =>
    .obj [("kind", .str "goal/change"), ("version", .nat goalChangeVersion),
      ("operation", .str "clear"), ("cleared", change.cleared.json),
      ("clearedAt", .int change.clearedAt)]

def goalClearChange (current : GoalSnapshot) (clearedAt : Int) : GoalClearChange where
  cleared := { id := current.id, revision := current.revision + 1 }
  clearedAt := clearedAt

/-- What `Date.now()` returns: milliseconds from the epoch, within the range of a time value. -/
structure TimeValue where
  ms : Int
  bounded : ms.natAbs ≤ 8640000000000000
  deriving DecidableEq, Repr

def clearGoalFromForkSeed (seed : List SessionEvent) (clearedAt : TimeValue) :
    Except String (List SessionEvent) := do
  let state ← foldGoalState seed
  match state.goal with
  | none => return seed
  | some current =>
    let updatedAt ← expect state.updatedAt "current fork-seed goal has no mutation time"
    let time := max clearedAt.ms updatedAt
    return seed ++ [logOnly seed.length time
      (.plugin goalChangeType (GoalChange.clear (goalClearChange current time)).json)]

end Changes

section Requests

inductive GoalErrorCode
  | agentNotLive
  | notFound
  | alreadyExists
  | staleRevision
  | invalidObjective
  | invalidMaxRounds
  | invalidBlockReason
  | invalidEdit
  | invalidTransition
  deriving DecidableEq, Repr

def GoalErrorCode.name : GoalErrorCode → String
  | .agentNotLive => "GOAL_AGENT_NOT_LIVE"
  | .notFound => "GOAL_NOT_FOUND"
  | .alreadyExists => "GOAL_ALREADY_EXISTS"
  | .staleRevision => "GOAL_STALE_REVISION"
  | .invalidObjective => "GOAL_INVALID_OBJECTIVE"
  | .invalidMaxRounds => "GOAL_INVALID_MAX_ROUNDS"
  | .invalidBlockReason => "GOAL_INVALID_BLOCK_REASON"
  | .invalidEdit => "GOAL_INVALID_EDIT"
  | .invalidTransition => "GOAL_INVALID_TRANSITION"

inductive GoalFailure
  | goal (message : String) (code : GoalErrorCode)
  | thrown (message : String)
  deriving DecidableEq, Repr

/-- A number a caller supplies; `other` is one that equals nothing a log can hold. -/
inductive SuppliedNumber
  | finite (n : JsonNumber)
  | other (text : String)
  deriving DecidableEq, Repr

def SuppliedNumber.text : SuppliedNumber → String
  | .finite n => (Json.num n).display
  | .other text => text

def SuppliedNumber.positiveInteger? : SuppliedNumber → Option Nat
  | .finite n => (Json.num n).safeNat?.filter fun n => decide (1 ≤ n)
  | .other _ => none

structure SuppliedRef where
  id : String
  revision : SuppliedNumber
  deriving DecidableEq, Repr

structure CreateGoalRequest where
  objective : String
  maxGoalRounds : Option SuppliedNumber
  deriving DecidableEq, Repr

structure EditGoalRequest where
  objective : Option String
  maxGoalRounds : Option SuppliedNumber
  deriving DecidableEq, Repr

def resolveMaxGoalRounds (value : SuppliedNumber) : Except GoalFailure Nat :=
  match value.positiveInteger? with
  | some rounds => .ok rounds
  | none => .error (.goal "maxGoalRounds must be a positive safe integer" .invalidMaxRounds)

def resolveObjective (value : String) : Except GoalFailure String :=
  if trim value = "" then
    .error (.goal "goal objective must be a non-empty string" .invalidObjective)
  else .ok (trim value)

structure GoalConfig where
  defaultMaxGoalRounds : Nat
  positive : 1 ≤ defaultMaxGoalRounds
  safe : isSafe defaultMaxGoalRounds = true
  deriving DecidableEq, Repr

structure ResolvedCreateGoal where
  objective : String
  maxGoalRounds : Nat
  deriving DecidableEq, Repr

def resolveCreateGoal (config : GoalConfig) (request : CreateGoalRequest) :
    Except GoalFailure ResolvedCreateGoal := do
  let objective ← resolveObjective request.objective
  let maxGoalRounds ← resolveMaxGoalRounds
    (request.maxGoalRounds.getD (.finite (.int config.defaultMaxGoalRounds)))
  return { objective, maxGoalRounds }

def resolveBlockReason (reason : Json) : Except GoalFailure GoalBlockReason :=
  let field key :=
    match reason.get? key with
    | some (.str text) => some text
    | _ => none
  match (field "code").filter isLowerKebab, (field "message").filter (fun text => trim text != "") with
  | some code, some message => .ok { code, message := trim message }
  | _, _ =>
    .error (.goal "goal block reason requires a lower-kebab-case code and a non-empty message"
      .invalidBlockReason)

end Requests

inductive GoalActivation
  | armed
  | disarmed
  deriving DecidableEq, Repr

structure PendingActivation where
  seq : Nat
  activation : GoalActivation
  deriving DecidableEq, Repr

structure GoalCache where
  state : GoalFoldState
  activation : GoalActivation
  observedSeq : Nat
  deriving DecidableEq, Repr

structure GoalView where
  goal : GoalSnapshot
  roundsStarted : Nat
  createdAt : Int
  updatedAt : Int
  activation : GoalActivation
  deriving DecidableEq, Repr

namespace GoalCache

def observedActivation (cache : GoalCache) (pending : Option PendingActivation)
    (event : SessionEvent) : GoalActivation :=
  if event.type = "goal/change" then
    match pending with
    | some pending => if pending.seq = event.seq then pending.activation else .disarmed
    | none => .disarmed
  else cache.activation

def syncEvents (pending : Option PendingActivation) (cache : GoalCache) :
    List SessionEvent → Except String Unit × GoalCache
  | [] => (.ok (), cache)
  | event :: rest =>
    match applyGoalEvent cache.state event with
    | .error message => (.error message, cache)
    | .ok state =>
      syncEvents pending
        { state, activation := cache.observedActivation pending event
          observedSeq := cache.observedSeq + 1 } rest

def sync (pending : Option PendingActivation) (cache : GoalCache) (log : EventLog) :
    Except String Unit × GoalCache :=
  cache.syncEvents pending (log.drop cache.observedSeq)

def view (cache : GoalCache) : Except GoalFailure (Option GoalView) :=
  match cache.state.goal, cache.state.createdAt, cache.state.updatedAt with
  | none, _, _ => .ok none
  | some goal, some createdAt, some updatedAt =>
    .ok (some
      { goal, roundsStarted := cache.state.roundsStarted, createdAt, updatedAt
        activation := cache.activation })
  | some goal, _, _ => .error (.thrown s!"goal \"{goal.id}\" cache lacks timestamps")

end GoalCache

/-- One session and the service's state for it; `committed` is the last change this process
appended. -/
structure GoalProcess where
  log : EventLog
  cache : Option GoalCache
  committed : Option PendingActivation
  deriving DecidableEq, Repr

/-- What surrounds one call: whether the agent is the registry's own, the clock, and the
publication of an event. -/
structure GoalCall where
  agentId : String
  live : Bool
  now : TimeValue
  time : Int
  dispatch : Session.Dispatch
  deriving DecidableEq, Repr

inductive GoalReply
  | none
  | view (view : Option GoalView)
  | ref (ref : GoalRef)
  deriving DecidableEq, Repr

def maxArrayLength : Nat := 4294967295

def appendWithin (log : EventLog) (candidate : Candidate) (dispatch : Session.Dispatch) :
    Except String SessionEvent × EventLog :=
  if log.length < maxArrayLength then
    ((log.append candidate dispatch).1.result, (log.append candidate dispatch).2)
  else (.error "Invalid array length", log)

namespace GoalProcess

def start (log : EventLog) : GoalProcess := { log, cache := none, committed := none }

def cached (process : GoalProcess) : Except GoalFailure GoalCache × GoalProcess :=
  match process.cache with
  | some cache => (.ok cache, process)
  | none =>
    match foldGoalState process.log with
    | .error message => (.error (.thrown message), process)
    | .ok state =>
      let cache : GoalCache := { state, activation := .disarmed, observedSeq := process.log.length }
      (.ok cache, { process with cache := some cache })

def prepareMutation (process : GoalProcess) (call : GoalCall) :
    Except GoalFailure GoalCache × GoalProcess :=
  if !call.live then
    (.error (.goal s!"agent \"{call.agentId}\" is not live in this registry" .agentNotLive), process)
  else
    match process.cached with
    | (.error failure, process) => (.error failure, process)
    | (.ok cache, process) =>
      match cache.sync none process.log with
      | (.error message, cache) => (.error (.thrown message), { process with cache := some cache })
      | (.ok (), cache) => (.ok cache, { process with cache := some cache })

def get (process : GoalProcess) (call : GoalCall) : Except GoalFailure GoalReply × GoalProcess :=
  match process.prepareMutation call with
  | (.error failure, process) => (.error failure, process)
  | (.ok cache, process) => (cache.view.map .view, process)

def disarm (process : GoalProcess) (call : GoalCall) : Except GoalFailure GoalReply × GoalProcess :=
  match process.prepareMutation call with
  | (.error failure, process) => (.error failure, process)
  | (.ok cache, process) =>
    let cache := { cache with activation := .disarmed }
    (cache.view.map .view, { process with cache := some cache })

def sessionStart (process : GoalProcess) : Except GoalFailure GoalReply × GoalProcess :=
  match process.cached with
  | (.error failure, process) => (.error failure, process)
  | (.ok cache, process) =>
    (.ok .none, { process with cache := some { cache with activation := .disarmed } })

def replyTo (change : GoalChange) (cache : GoalCache) : Except GoalFailure GoalReply := do
  let view ← cache.view
  match change, view with
  | .clear change, _ => return .ref change.cleared
  | .snapshot _, some view => return .view (some view)
  | .snapshot _, none => .error (.thrown "snapshot commit cleared the goal unexpectedly")

def commit (process : GoalProcess) (call : GoalCall) (cache : GoalCache) (change : GoalChange)
    (activation : GoalActivation) : Except GoalFailure GoalReply × GoalProcess :=
  let pending : PendingActivation := { seq := process.log.length, activation }
  match appendWithin process.log
      { data := .lossless (.plugin goalChangeType change.json), opts := none, time := call.time }
      call.dispatch with
  | (.error message, log) => (.error (.thrown message), { process with log })
  | (.ok _, log) =>
    match cache.sync (some pending) log with
    | (.error message, cache) =>
      (.error (.thrown message), { log, cache := some cache, committed := some pending })
    | (.ok (), cache) =>
      (replyTo change cache, { log, cache := some cache, committed := some pending })

def mutate (process : GoalProcess) (call : GoalCall)
    (plan : GoalCache → Except GoalFailure (GoalChange × GoalActivation)) :
    Except GoalFailure GoalReply × GoalProcess :=
  match process.prepareMutation call with
  | (.error failure, process) => (.error failure, process)
  | (.ok cache, process) =>
    match plan cache with
    | .error failure => (.error failure, process)
    | .ok (change, activation) => process.commit call cache change activation

end GoalProcess

section Operations

def goalRefMatches (current : GoalSnapshot) (ref : SuppliedRef) : Bool :=
  decide (ref.id = current.id ∧ ref.revision = .finite (.int current.revision))

def expectCurrent (cache : GoalCache) (ref : SuppliedRef) : Except GoalFailure GoalSnapshot :=
  match cache.state.goal with
  | none => .error (.goal "no current goal" .notFound)
  | some current =>
    if goalRefMatches current ref then .ok current
    else
      .error (.goal s!"stale goal ref \"{ref.id}\" revision {ref.revision.text}; current is \"{current.id}\" revision {current.revision}"
        .staleRevision)

def withPhase (current : GoalSnapshot) (phase : GoalPhase) : GoalSnapshot where
  id := current.id
  revision := current.revision + 1
  objective := current.objective
  phase := phase
  maxGoalRounds := current.maxGoalRounds
  blockedReason := none

def transitionError (current : GoalSnapshot) (operation : GoalOperation)
    (allowed : List GoalPhase) : GoalFailure :=
  let expected := " or ".intercalate (allowed.map GoalPhase.name)
  .goal s!"cannot {operation.name} goal \"{current.id}\" from phase \"{current.phase.name}\"; expected {expected}"
    .invalidTransition

def nextMutationTime (cache : GoalCache) (now : TimeValue) : Except GoalFailure Int :=
  match cache.state.updatedAt with
  | none => .error (.thrown "current goal cache lacks updatedAt")
  | some updatedAt => .ok (max now.ms updatedAt)

def currentChange (cache : GoalCache) (now : TimeValue) (operation : GoalOperation)
    (goal : GoalSnapshot) : Except GoalFailure GoalChange :=
  match cache.state.createdAt with
  | none => .error (.thrown "current goal cache lacks createdAt")
  | some createdAt => do
    let updatedAt ← nextMutationTime cache now
    return .snapshot
      { operation, goal, roundsStarted := cache.state.roundsStarted, createdAt, updatedAt }

def planCreate (spec : ResolvedCreateGoal) (uuid : String) (now : TimeValue) (cache : GoalCache) :
    Except GoalFailure (GoalChange × GoalActivation) :=
  match cache.state.goal.filter fun current => decide (current.phase ≠ .complete) with
  | some current =>
    .error (.goal s!"goal \"{current.id}\" already exists with phase \"{current.phase.name}\""
      .alreadyExists)
  | none =>
    .ok (.snapshot
      { operation := .create
        goal :=
          { id := "goal-" ++ uuid, revision := 1, objective := spec.objective, phase := .active
            maxGoalRounds := spec.maxGoalRounds, blockedReason := none }
        roundsStarted := 0, createdAt := now.ms, updatedAt := now.ms }, .armed)

def editedField {α β : Type} (resolve : α → Except GoalFailure β) (current : β) :
    Option α → Except GoalFailure β
  | none => .ok current
  | some value => resolve value

def planEdit (ref : SuppliedRef) (request : EditGoalRequest) (now : TimeValue)
    (cache : GoalCache) : Except GoalFailure (GoalChange × GoalActivation) := do
  let current ← expectCurrent cache ref
  if request.objective.isNone && request.maxGoalRounds.isNone then
    .error (.goal "goal edit requires objective and/or maxGoalRounds" .invalidEdit)
  else do
    let objective ← editedField resolveObjective current.objective request.objective
    let maxGoalRounds ←
      editedField resolveMaxGoalRounds current.maxGoalRounds request.maxGoalRounds
    let change ← currentChange cache now .edit
      { current with revision := current.revision + 1, objective, maxGoalRounds }
    return (change, cache.activation)

def planTransition (ref : SuppliedRef) (operation : GoalOperation) (allowed : List GoalPhase)
    (phase : GoalPhase) (now : TimeValue) (cache : GoalCache) :
    Except GoalFailure (GoalChange × GoalActivation) := do
  let current ← expectCurrent cache ref
  if current.phase ∉ allowed then .error (transitionError current operation allowed)
  else do
    let change ← currentChange cache now operation (withPhase current phase)
    return (change, .disarmed)

def planPause (ref : SuppliedRef) : TimeValue → GoalCache →
    Except GoalFailure (GoalChange × GoalActivation) :=
  planTransition ref .pause [.active] .paused

def planComplete (ref : SuppliedRef) : TimeValue → GoalCache →
    Except GoalFailure (GoalChange × GoalActivation) :=
  planTransition ref .complete [.active, .paused, .blocked] .complete

def planResume (ref : SuppliedRef) (now : TimeValue) (cache : GoalCache) :
    Except GoalFailure (GoalChange × GoalActivation) := do
  let current ← expectCurrent cache ref
  if current.phase ∉ [GoalPhase.active, .paused, .blocked] then
    .error (transitionError current .resume [.active, .paused, .blocked])
  else if current.phase = .active ∧ cache.activation = .armed then
    .error (.goal s!"goal \"{current.id}\" is already active and armed" .invalidTransition)
  else if current.maxGoalRounds ≤ cache.state.roundsStarted then
    .error (.goal s!"goal \"{current.id}\" exhausted {current.maxGoalRounds} goal rounds; increase maxGoalRounds before resuming"
      .invalidTransition)
  else do
    let change ← currentChange cache now .resume (withPhase current .active)
    return (change, .armed)

def planBlock (ref : SuppliedRef) (reason : Json) (now : TimeValue) (cache : GoalCache) :
    Except GoalFailure (GoalChange × GoalActivation) := do
  let current ← expectCurrent cache ref
  if current.phase ≠ .active then .error (transitionError current .block [.active])
  else do
    let blockedReason ← resolveBlockReason reason
    let change ← currentChange cache now .block
      { withPhase current .blocked with blockedReason := some blockedReason }
    return (change, .disarmed)

def planClear (ref : SuppliedRef) (now : TimeValue) (cache : GoalCache) :
    Except GoalFailure (GoalChange × GoalActivation) := do
  let current ← expectCurrent cache ref
  let clearedAt ← nextMutationTime cache now
  return (.clear (goalClearChange current clearedAt), .disarmed)

end Operations

inductive GoalOp
  | get
  | disarm
  | sessionStart
  | create (request : CreateGoalRequest) (uuid : String)
  | edit (ref : SuppliedRef) (request : EditGoalRequest)
  | pause (ref : SuppliedRef)
  | resume (ref : SuppliedRef)
  | complete (ref : SuppliedRef)
  | block (ref : SuppliedRef) (reason : Json)
  | clear (ref : SuppliedRef)
  deriving DecidableEq, Repr

/-- An event of another component; nothing but the service records goal changes. -/
structure OtherCandidate where
  candidate : Candidate
  foreign : candidate.data.type ≠ "goal/change"
  deriving DecidableEq, Repr

inductive GoalLabel
  | op (op : GoalOp) (call : GoalCall)
  | other (other : OtherCandidate) (dispatch : Session.Dispatch)
  deriving DecidableEq, Repr

namespace GoalProcess

def create (config : GoalConfig) (process : GoalProcess) (call : GoalCall)
    (request : CreateGoalRequest) (uuid : String) : Except GoalFailure GoalReply × GoalProcess :=
  match resolveCreateGoal config request with
  | .error failure => (.error failure, process)
  | .ok spec => process.mutate call (planCreate spec uuid call.now)

def perform (config : GoalConfig) (process : GoalProcess) (call : GoalCall) :
    GoalOp → Except GoalFailure GoalReply × GoalProcess
  | .get => process.get call
  | .disarm => process.disarm call
  | .sessionStart => process.sessionStart
  | .create request uuid => create config process call request uuid
  | .edit ref request => process.mutate call (planEdit ref request call.now)
  | .pause ref => process.mutate call (planPause ref call.now)
  | .resume ref => process.mutate call (planResume ref call.now)
  | .complete ref => process.mutate call (planComplete ref call.now)
  | .block ref reason => process.mutate call (planBlock ref reason call.now)
  | .clear ref => process.mutate call (planClear ref call.now)

/-- An event of another component enters the log unless the goal invariant vetoes it: a round
that is not the next one of the active goal. -/
def admitOther (process : GoalProcess) (other : OtherCandidate) (dispatch : Session.Dispatch) :
    GoalProcess :=
  let log := (appendWithin process.log other.candidate dispatch).2
  if isOk (foldGoalState log) then { process with log } else process

def step (config : GoalConfig) (process : GoalProcess) :
    GoalLabel → GoalProcess × Except GoalFailure GoalReply
  | .op op call =>
    let (reply, process) := perform config process call op
    (process, reply)
  | .other other dispatch => (process.admitOther other dispatch, .ok .none)

end GoalProcess

end Harness
