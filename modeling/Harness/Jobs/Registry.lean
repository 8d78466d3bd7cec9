import Harness.Foundation.Double
import Harness.Foundation.Except
import Harness.Foundation.Machine
import Harness.Foundation.OrderedMap
import Harness.Foundation.SafeInteger

namespace Harness.Jobs

open Harness.Foundation

/-- One agent object: its session id, and the scopes above it but the global one. -/
structure Agent where
  instanceId : Nat
  id : String
  scopes : List Nat
  nodup : scopes.Nodup
  deriving DecidableEq

inductive JobStatus
  | running | stopping | completed | killed | failed
  deriving DecidableEq, Repr

def JobStatus.isTerminal : JobStatus → Bool
  | completed | killed | failed => true
  | running | stopping => false

inductive OutcomeStatus
  | completed | killed | failed
  deriving DecidableEq, Repr

def OutcomeStatus.status : OutcomeStatus → JobStatus
  | completed => .completed
  | killed => .killed
  | failed => .failed

structure JobOutcome where
  status : OutcomeStatus
  detail : Option String
  output : Option String

structure JobId where
  kind : String
  count : Nat
  deriving DecidableEq, Repr

structure JobStart where
  kind : String
  label : String
  outputLimitBytes : Option Double
  owner : Option Agent
  deriving DecidableEq

structure TrackedTask where
  id : JobId
  kind : String
  label : String
  outputLimitBytes : Option Double
  owner : Option Agent
  /-- Whether the producer brought `readOutput`. -/
  streams : Bool
  status : JobStatus
  detail : Option String
  output : Option String
  startedAt : Nat
  finishedAt : Option Nat
  reported : Bool
  waiters : Nat
  waitResolvers : List Nat

structure JobSnapshot where
  id : JobId
  kind : String
  label : String
  outputLimitBytes : Option Double
  ownerSession : Option String
  status : JobStatus
  detail : Option String
  startedAt : Nat
  finishedAt : Option Nat
  reported : Bool
  deriving DecidableEq

def TrackedTask.snapshot (job : TrackedTask) : JobSnapshot :=
  ⟨job.id, job.kind, job.label, job.outputLimitBytes, job.owner.map (·.id), job.status, job.detail,
    job.startedAt, job.finishedAt, job.reported⟩

/-- How far a call of `wait` has come: its resolver is registered, it has been resolved or refused
and is yet to go on, or it has ended. -/
inductive WaitPhase
  | pending
  | resolved
  | aborted
  | returned (snapshot : JobSnapshot)
  | rejected
  deriving DecidableEq

def WaitPhase.isLive : WaitPhase → Bool
  | pending | resolved => true
  | _ => false

structure Wait where
  job : Nat
  phase : WaitPhase
  deriving DecidableEq

structure JobListener where
  id : Nat
  scope : Option Nat
  deriving DecidableEq

/-- The agent registry is absent, or has an agent, or none, under the owner's id. -/
abbrev AgentLookup := Option (Option Agent)

inductive Target
  | owner (agent : Agent)
  | service
  deriving DecidableEq

def Target.covers : Target → TrackedTask → Bool
  | owner agent, job => decide (job.owner = some agent)
  | service, _ => true

structure Disposal where
  target : Target
  owned : List Nat
  /-- The jobs that had ended before. -/
  finished : List Nat
  done : Bool

inductive JobEvent
  /-- A kill or a teardown takes the report of the outcome on itself. -/
  | claimed (job : Nat)
  | cancelled (job : Nat)
  /-- The waits that were counted then. -/
  | settled (job : Nat) (snapshot : JobSnapshot) (live : List Nat)
  | told (listener job : Nat) (snapshot : JobSnapshot)
  | changed (owner : Option Agent)
  | answered (job : Nat) (text : String) (snapshot : JobSnapshot)
  deriving DecidableEq

structure LocalJobRegistry where
  maxConcurrentJobsPerOwner : Nat
  jobs : List TrackedTask
  store : OrderedMap JobId Nat
  counters : String → Nat
  listeners : List JobListener
  nextListener : Nat
  listenersClosed : Bool
  waits : List Wait
  ownerCleanups : List Agent
  /-- The agents whose fiber unloads or has unloaded. -/
  unloading : List Agent
  /-- The calls of `start` that are inside `run`, innermost first. -/
  starting : List JobStart
  disposals : List Disposal
  log : List JobEvent

namespace LocalJobRegistry

def fresh (limit : Nat) : LocalJobRegistry :=
  ⟨limit, [], .empty, fun _ => 0, [], 0, false, [], [], [], [], [], []⟩

def record (state : LocalJobRegistry) (events : List JobEvent) : LocalJobRegistry :=
  { state with log := state.log ++ events }

def setJob (state : LocalJobRegistry) (job : Nat) (tracked : TrackedTask) : LocalJobRegistry :=
  { state with jobs := state.jobs.set job tracked }

def isActive (owner : Option Agent) (job : TrackedTask) : Bool :=
  decide (job.owner = owner) && !job.status.isTerminal

def activeTaskCount (state : LocalJobRegistry) (owner : Option Agent) : Nat :=
  state.store.values.countP fun job => (state.jobs[job]?).any (isActive owner)

def listenersFor (state : LocalJobRegistry) (owner : Option Agent) : List JobListener :=
  state.listeners.filter (fun listener => decide (listener.scope = none)) ++
    (owner.elim [] (·.scopes)).flatMap fun scope =>
      state.listeners.filter fun listener => decide (listener.scope = some scope)

def liveWaits (state : LocalJobRegistry) (job : Nat) : List Nat :=
  (List.range state.waits.length).filter fun wait =>
    (state.waits[wait]?).any fun record => decide (record.job = job) && record.phase.isLive

def resolveWaits (waits : List Wait) (resolvers : List Nat) : List Wait :=
  waits.mapIdx fun wait record =>
    if wait ∈ resolvers then { record with phase := .resolved } else record

def settle (state : LocalJobRegistry) (job : Nat) (outcome : JobOutcome) (now : Nat) :
    LocalJobRegistry :=
  match state.jobs[job]? with
  | none => state
  | some tracked =>
    if tracked.status.isTerminal = true then state
    else
      let settled : TrackedTask := { tracked with
        status := outcome.status.status
        detail := outcome.detail
        output := outcome.output
        finishedAt := some now
        reported := tracked.reported || decide (0 < tracked.waiters)
        waitResolvers := [] }
      let told := if state.listenersClosed = true then []
        else (state.listenersFor tracked.owner).map fun listener =>
          JobEvent.told listener.id job settled.snapshot
      { state.setJob job settled with
        waits := resolveWaits state.waits tracked.waitResolvers
        log := state.log ++
          ([.settled job settled.snapshot (state.liveWaits job), .changed tracked.owner] ++ told) }

def ensureOwnerCleanup (state : LocalJobRegistry) (owner : Agent) (agents : AgentLookup) :
    Except String LocalJobRegistry := do
  let found ← expect agents
    "background job ownership requires the agent registry (load @deepseek-ai/dsh-agent)"
  require (decide (found = some owner))
    s!"agent \"{owner.id}\" is not the registered agent instance (background job owner must be live)"
  if owner ∈ state.ownerCleanups then .ok state
  -- an unloading scope rejects new effects
  else if owner ∈ state.unloading then .error "INACTIVE_EFFECT"
  else .ok { state with ownerCleanups := state.ownerCleanups ++ [owner] }

def attach (state : LocalJobRegistry) (spec : JobStart) (agents : AgentLookup) :
    Except String LocalJobRegistry :=
  match spec.owner with
  | some owner => state.ensureOwnerCleanup owner agents
  | none => .ok state

/-- `start` up to the call of `run`; the cleanup stays where the limit is reached. -/
def enter (state : LocalJobRegistry) (spec : JobStart) (served : Bool) (agents : AgentLookup) :
    Except String (LocalJobRegistry × Except String Unit) := do
  require served
    "background jobs unavailable: no job controller serves this agent (load @deepseek-ai/dsh-tool-jobs in its composition)"
  require (decide (spec.kind ≠ "")) "invalid job kind: expected a non-empty string"
  require (decide (spec.label ≠ "")) "invalid job label: expected a non-empty string"
  require (spec.outputLimitBytes.all fun bytes =>
      bytes.isInteger && !bytes.le (.finite 0) && bytes.le (.finite 9007199254740991))
    "invalid outputLimitBytes: expected a positive safe integer"
  let attached ← state.attach spec agents
  if state.maxConcurrentJobsPerOwner ≤ attached.activeTaskCount spec.owner then
    return (attached, .error s!"background job limit reached for this owner (limit: {state.maxConcurrentJobsPerOwner}); use job_kill to stop an unneeded job, wait for it to finish, then retry")
  return ({ attached with starting := spec :: attached.starting }, .ok ())

def register (state : LocalJobRegistry) (spec : JobStart) (streams : Bool) (now : Nat) :
    LocalJobRegistry :=
  let count := state.counters spec.kind + 1
  let id : JobId := ⟨spec.kind, count⟩
  { state with
    counters := fun kind => if kind = spec.kind then count else state.counters kind
    jobs := state.jobs ++ [⟨id, spec.kind, spec.label, spec.outputLimitBytes, spec.owner, streams,
      .running, none, none, now, none, false, 0, []⟩]
    store := state.store.set id state.jobs.length
    log := state.log ++ [.changed spec.owner] }

def access (state : LocalJobRegistry) (id : JobId) (caller : Option Agent) :
    Except String (Nat × TrackedTask) := do
  let job ← expect (state.store.get? id) s!"unknown job {id.kind}-{id.count}"
  let tracked ← expect state.jobs[job]? "unreachable"
  require (tracked.owner.all fun owner => decide (some owner.id = caller.map (·.id)))
    s!"job {id.kind}-{id.count} belongs to another session"
  return (job, tracked)

def read (state : LocalJobRegistry) (id : JobId) (caller : Option Agent) (delta : String) :
    Except String LocalJobRegistry := do
  let found ← state.access id caller
  let job := found.1
  let tracked := found.2
  let text :=
    if tracked.streams = true then delta
    else if tracked.status.isTerminal = true then tracked.output.getD "" else ""
  let noted := { tracked with reported := tracked.reported || tracked.status.isTerminal }
  return (state.setJob job noted).record [.answered job text noted.snapshot]

def stop (state : LocalJobRegistry) (job : Nat) (tracked : TrackedTask) : LocalJobRegistry :=
  (state.setJob job { tracked with status := .stopping, reported := true }).record
    [.claimed job, .cancelled job, .changed tracked.owner]

def kill (state : LocalJobRegistry) (id : JobId) (caller : Option Agent) (throws : Bool) :
    Except String LocalJobRegistry := do
  let found ← state.access id caller
  let job := found.1
  let tracked := found.2
  if tracked.status.isTerminal = true then
    return state.setJob job { tracked with reported := true }
  else if throws = true then return state.record [.cancelled job]
  else return state.stop job tracked

def wait (state : LocalJobRegistry) (id : JobId) (timeoutMs : Double) (caller : Option Agent)
    (aborted : Bool) : Except String LocalJobRegistry := do
  let found ← state.access id caller
  let job := found.1
  let tracked := found.2
  require (timeoutMs.isFinite && !timeoutMs.le (.finite 0))
    "invalid wait timeout: expected a positive number of milliseconds"
  if tracked.status.isTerminal = true then
    let noted := { tracked with reported := true }
    return { state.setJob job noted with
      waits := state.waits ++ [⟨job, .returned noted.snapshot⟩] }
  else
    require (!aborted) "wait aborted"
    -- a deadline past the largest timer throws, and the waiter is counted out again
    require (timeoutMs.le (.finite 2147483647))
      "deadline timeoutMs must be a positive finite number no greater than 2147483647"
    let waiting := { tracked with
      waiters := tracked.waiters + 1
      waitResolvers := tracked.waitResolvers ++ [state.waits.length] }
    return { state.setJob job waiting with waits := state.waits ++ [⟨job, .pending⟩] }

def fire (state : LocalJobRegistry) (wait : Nat) (timedOut : Bool) : Option LocalJobRegistry := do
  let record ← state.waits[wait]?
  let tracked ← state.jobs[record.job]?
  if record.phase = .pending then
    let removed := { tracked with
      waitResolvers := tracked.waitResolvers.filter (· ≠ wait)
      waiters := if timedOut = true then tracked.waiters else tracked.waiters - 1 }
    return { state.setJob record.job removed with
      waits := state.waits.set wait
        { record with phase := if timedOut = true then .resolved else .aborted } }
  else none

def continueWait (state : LocalJobRegistry) (wait : Nat) : Option LocalJobRegistry := do
  let record ← state.waits[wait]?
  let tracked ← state.jobs[record.job]?
  match record.phase with
  | .resolved =>
    let noted := { tracked with
      waiters := tracked.waiters - 1
      reported := tracked.reported || tracked.status.isTerminal }
    return { state.setJob record.job noted with
      waits := state.waits.set wait { record with phase := .returned noted.snapshot } }
  | .aborted => return { state with waits := state.waits.set wait { record with phase := .rejected } }
  | _ => none

def tearDown (throws : Nat → Option String) (now : Nat) (state : LocalJobRegistry) (job : Nat) :
    LocalJobRegistry :=
  match state.jobs[job]? with
  | none => state
  | some tracked =>
    if tracked.status.isTerminal = true then state
    else
      match throws job with
      | none => state.stop job tracked
      | some error =>
        ((state.setJob job { tracked with reported := true }).record
          [.claimed job, .cancelled job]).settle job
            ⟨.failed, some s!"cancel threw during teardown; work may be orphaned: {error}", none⟩ now

def cancelForTeardown (state : LocalJobRegistry) (owned : List Nat) (throws : Nat → Option String)
    (now : Nat) : LocalJobRegistry :=
  owned.foldl (tearDown throws now) state

def ended (state : LocalJobRegistry) (target : Target) : List Nat :=
  (List.range state.jobs.length).filter fun job =>
    (state.jobs[job]?).any fun tracked => target.covers tracked && tracked.status.isTerminal

def beginDisposal (state : LocalJobRegistry) (target : Target) (throws : Nat → Option String)
    (now : Nat) : LocalJobRegistry :=
  let owned := state.store.values.filter fun job => (state.jobs[job]?).any target.covers
  let cancelled := state.cancelForTeardown owned throws now
  { cancelled with disposals := cancelled.disposals ++ [⟨target, owned, state.ended target, false⟩] }

def allSettled (state : LocalJobRegistry) (owned : List Nat) : Bool :=
  owned.all fun job => (state.jobs[job]?).all (·.status.isTerminal)

def finishDisposal (state : LocalJobRegistry) (index : Nat) (disposal : Disposal) :
    LocalJobRegistry :=
  let disposals := state.disposals.set index { disposal with done := true }
  match disposal.target with
  | .owner agent =>
    { state with
      disposals := disposals
      store := state.store.filter fun _ job => decide (job ∉ disposal.owned)
      log := state.log ++ if disposal.owned = [] then [] else [.changed (some agent)] }
  | .service =>
    { state with
      disposals := disposals
      store := .empty
      ownerCleanups := []
      log := state.log ++
        ((disposal.owned.filterMap fun job => (state.jobs[job]?).map (·.owner)).dedup.map .changed) }

end LocalJobRegistry

inductive JobOp
  | enter (spec : JobStart) (served : Bool) (agents : AgentLookup)
  | runReturns (streams : Bool) (now : Nat)
  | runThrows
  | read (id : JobId) (caller : Option Agent) (delta : String)
  | kill (id : JobId) (caller : Option Agent) (throws : Bool)
  | wait (id : JobId) (timeoutMs : Double) (caller : Option Agent) (aborted : Bool)
  | abort (wait : Nat)
  | timeout (wait : Nat)
  | continueWait (wait : Nat)
  | settle (job : Nat) (outcome : JobOutcome) (now : Nat)
  | listen (scope : Option Nat)
  | unlisten (listener : Nat)
  | unload (agent : Agent)
  | disposeOwner (agent : Agent) (throws : Nat → Option String) (now : Nat)
  | disposeService (throws : Nat → Option String) (now : Nat)
  | finishDisposal (index : Nat)

open LocalJobRegistry in
/-- One step: a synchronous span, or one of its parts around the call of `run`.  Continuations and
timers find no call of `run` open. -/
def LocalJobRegistry.step (state : LocalJobRegistry) : JobOp → Option LocalJobRegistry
  | .enter spec served agents =>
    match state.enter spec served agents with
    | .ok (entered, _) => some entered
    | .error _ => some state
  | .runReturns streams now =>
    match state.starting with
    | spec :: rest => some ({ state with starting := rest }.register spec streams now)
    | [] => none
  | .runThrows =>
    match state.starting with
    | _ :: rest => some { state with starting := rest }
    | [] => none
  | .read id caller delta => (state.read id caller delta).toOption
  | .kill id caller throws => (state.kill id caller throws).toOption
  | .wait id timeoutMs caller aborted => (state.wait id timeoutMs caller aborted).toOption
  | .abort wait => state.fire wait false
  | .timeout wait => if state.starting = [] then state.fire wait true else none
  | .continueWait wait => if state.starting = [] then state.continueWait wait else none
  | .settle job outcome now => if state.starting = [] then some (state.settle job outcome now) else none
  | .listen scope =>
    some { state with
      listeners := state.listeners ++ [⟨state.nextListener, scope⟩]
      nextListener := state.nextListener + 1 }
  | .unlisten listener =>
    some { state with listeners := state.listeners.filter fun entry => decide (entry.id ≠ listener) }
  | .unload agent => some { state with unloading := agent :: state.unloading }
  | .disposeOwner agent throws now =>
    if state.starting = [] ∧ agent ∈ state.unloading ∧ agent ∈ state.ownerCleanups then
      some ({ state with ownerCleanups := state.ownerCleanups.filter (· ≠ agent) }.beginDisposal
        (.owner agent) throws now)
    else none
  | .disposeService throws now =>
    if state.starting = [] ∧ state.listenersClosed = false then
      some ({ state with listenersClosed := true }.beginDisposal .service throws now)
    else none
  | .finishDisposal index =>
    match state.disposals[index]? with
    | some disposal =>
      if state.starting = [] ∧ disposal.done = false ∧ state.allSettled disposal.owned = true then
        some (state.finishDisposal index disposal)
      else none
    | none => none

end Harness.Jobs
