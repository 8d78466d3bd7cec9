import Harness.Foundation.Machine

/-! The scheduler of one assistant step's tool calls: exclusive calls as barriers, parallel ones in
a bounded rolling pool, results in the order of the model. -/

universe u v

namespace Harness.AgentLoop

variable {ρ : Type u} {κ : Type v}

inductive ExecutionMode
  | parallel
  | exclusive
  deriving DecidableEq

structure ToolExecutionResult (ρ : Type u) (κ : Type v) where
  body : ρ
  additionalContexts : List κ
  concludesTurn : Bool

/-- An entry's seq is its place.  A result without a value says that its call was aborted before
dispatch. -/
inductive LogEntry (ρ : Type u) (κ : Type v)
  | toolCall (index : Nat)
  | toolResult (index callSeq : Nat) (result : Option (ToolExecutionResult ρ κ))
  | other

/-- The Session's log, the seqs that the results will cite, and what the batch has accepted. -/
structure CallLedger (ρ : Type u) (κ : Type v) where
  log : List (LogEntry ρ κ)
  callSeqs : List Nat
  contexts : List κ
  concluded : Bool

namespace CallLedger

def initial (before : Nat) : CallLedger ρ κ where
  log := List.replicate before .other
  callSeqs := []
  contexts := []
  concluded := false

variable (ledger : CallLedger ρ κ)

def appendToolCall (index : Nat) : CallLedger ρ κ :=
  { ledger with
    log := ledger.log ++ [.toolCall index]
    callSeqs := ledger.callSeqs ++ [ledger.log.length] }

def appendToolResult (index : Nat) (result : Option (ToolExecutionResult ρ κ)) :
    CallLedger ρ κ :=
  { ledger with
    log := ledger.log ++ [.toolResult index ((ledger.callSeqs[index]?).getD 0) result] }

def accept (result : ToolExecutionResult ρ κ) : CallLedger ρ κ :=
  { ledger with
    contexts := ledger.contexts ++ result.additionalContexts
    concluded := ledger.concluded || result.concludesTurn }

def appendOther : CallLedger ρ κ := { ledger with log := ledger.log ++ [.other] }

def appendSkippedToolCall (index : Nat) : CallLedger ρ κ :=
  (ledger.appendToolCall index).appendToolResult index none

end CallLedger

inductive CallState
  | preparing
  | running
  | settled (needsPost : Bool)
  | rejected
  | committed
  deriving DecidableEq

inductive PreparedKind
  | dispatch
  | postResult
  | finalResult
  deriving DecidableEq

def PreparedKind.state : PreparedKind → CallState
  | .dispatch => .running
  | .postResult => .settled true
  | .finalResult => .settled false

/-- Where the scheduler stands: at a loop head, at an await, or past one with the check after it
still to come (`started`, `released`). -/
inductive SchedulerPhase
  | choosing
  | filling
  | preparing
  | started
  | committing
  | finalizing
  | released
  | racing
  | draining
  | done
  | failed
  deriving DecidableEq

/-- Calls are counted through all groups; `next` is where the group begins, and `modes` keeps as
what each call was started. -/
structure ToolScheduler (ρ : Type u) (κ : Type v) where
  phase : SchedulerPhase
  next : Nat
  mode : ExecutionMode
  nextToStart : Nat
  committed : Nat
  calls : List CallState
  modes : List ExecutionMode
  inFlight : List Nat
  signalAborted : Bool
  aborted : Bool
  schedulerFailure : Bool
  ledger : CallLedger ρ κ

namespace ToolScheduler

def initial (before total : Nat) (signalAborted : Bool) : ToolScheduler ρ κ where
  phase := if total = 0 then .done else .choosing
  next := 0
  mode := .exclusive
  nextToStart := 0
  committed := 0
  calls := []
  modes := []
  inFlight := []
  signalAborted
  aborted := false
  schedulerFailure := false
  ledger := .initial before

variable (total maxParallelToolCalls : Nat) (s : ToolScheduler ρ κ)

def groupEnd : Nat :=
  match s.mode with
  | .parallel => total
  | .exclusive => s.next + 1

def choose (mode : ExecutionMode) : ToolScheduler ρ κ :=
  { s with phase := .filling, mode, nextToStart := s.next, aborted := s.signalAborted }

/-- A later call of a parallel group starts only when it is classified as parallel again. -/
def startCall : ToolScheduler ρ κ :=
  { s with
    phase := .preparing
    calls := s.calls ++ [.preparing]
    modes := s.modes ++ [if s.nextToStart = s.next then s.mode else .parallel]
    ledger := s.ledger.appendToolCall s.nextToStart }

def skipped : ToolScheduler ρ κ :=
  let rest := List.range' s.calls.length (total - s.calls.length)
  { s with
    phase := .done
    committed := s.committed + rest.length
    calls := s.calls ++ rest.map fun _ => .committed
    ledger := rest.foldl .appendSkippedToolCall s.ledger }

def endGroup : ToolScheduler ρ κ :=
  if s.aborted then s.skipped total
  else if s.committed ≠ s.calls.length then { s with phase := .failed }
  else
    { s with
      next := s.calls.length
      phase := if s.calls.length < total then .choosing else .done }

def leaveFill : ToolScheduler ρ κ :=
  if s.inFlight = [] then s.endGroup total else { s with phase := .racing }

def startsNext : Prop :=
  s.aborted = false ∧ s.nextToStart < s.groupEnd total ∧ s.inFlight.length < maxParallelToolCalls

instance : Decidable (s.startsNext total maxParallelToolCalls) := by
  unfold startsNext
  infer_instance

/-- One round of `fillPool`; `mode` is what a call that is not the first of a parallel group is
classified as. -/
def fillPool (mode : ExecutionMode) : ToolScheduler ρ κ :=
  if s.startsNext total maxParallelToolCalls then
    if s.next < s.nextToStart ∧ s.mode = .parallel ∧ mode ≠ .parallel then s.leaveFill total
    else s.startCall
  else s.leaveFill total

def fail : ToolScheduler ρ κ := { s with phase := .draining, schedulerFailure := true }

def orThrow (next : ToolScheduler ρ κ) : ToolScheduler ρ κ :=
  if s.schedulerFailure then s.fail else next

def prepared (kind : PreparedKind) : ToolScheduler ρ κ :=
  s.orThrow
    { s with
      phase := .started
      calls := s.calls.set s.nextToStart kind.state
      inFlight := if kind = .dispatch then s.inFlight ++ [s.nextToStart] else s.inFlight
      nextToStart := s.nextToStart + 1 }

def commit (result : ToolExecutionResult ρ κ) : ToolScheduler ρ κ :=
  { s with
    phase := .committing
    calls := s.calls.set s.committed .committed
    committed := s.committed + 1
    ledger := (s.ledger.appendToolResult s.committed (some result)).accept result }

/-- One round of `commitReady`; `finished` is what `finish` gives for a final result. -/
def commitReady (finished : ToolExecutionResult ρ κ) : ToolScheduler ρ κ :=
  match s.calls[s.committed]? with
  | some (.settled true) => { s with phase := .finalizing }
  | some (.settled false) => s.commit finished
  | _ => { s with phase := .released }

def resumeStarted : ToolScheduler ρ κ := s.orThrow { s with phase := .committing }

def resumeReleased : ToolScheduler ρ κ :=
  s.orThrow { s with phase := .filling, aborted := s.aborted || s.signalAborted }

def hasEnded (index : Nat) : Prop := s.calls[index]? ≠ some .running

instance (index : Nat) : Decidable (s.hasEnded index) := inferInstanceAs (Decidable (_ ≠ _))

def race (index : Nat) : ToolScheduler ρ κ :=
  let s := { s with inFlight := s.inFlight.erase index }
  s.orThrow { s with phase := .committing }

def settle (index : Nat) (needsPost : Bool) : ToolScheduler ρ κ :=
  { s with calls := s.calls.set index (.settled needsPost) }

def reject (index : Nat) : ToolScheduler ρ κ :=
  { s with calls := s.calls.set index .rejected, schedulerFailure := true }

end ToolScheduler

inductive SchedulerOp (ρ : Type u) (κ : Type v)
  | choose (mode : ExecutionMode)
  | fill (mode : ExecutionMode)
  | prepared (kind : PreparedKind)
  | prepareRejected
  | resume
  | commitReady (finished : ToolExecutionResult ρ κ)
  | finalized (result : ToolExecutionResult ρ κ)
  | finalizeRejected
  | race (index : Nat)
  | drained
  | settle (index : Nat) (needsPost : Bool)
  | reject (index : Nat)
  | abort
  | other

namespace ToolScheduler

variable (total maxParallelToolCalls : Nat)

/-- A dispatch settles, the signal aborts and other events are appended whenever they will. -/
def step (s : ToolScheduler ρ κ) : SchedulerOp ρ κ → Option (ToolScheduler ρ κ)
  | .choose mode => if s.phase = .choosing then some (s.choose mode) else none
  | .fill mode =>
    if s.phase = .filling then some (s.fillPool total maxParallelToolCalls mode) else none
  | .prepared kind => if s.phase = .preparing then some (s.prepared kind) else none
  | .prepareRejected => if s.phase = .preparing then some s.fail else none
  | .resume =>
    if s.phase = .started then some s.resumeStarted
    else if s.phase = .released then some s.resumeReleased
    else none
  | .commitReady finished =>
    if s.phase = .committing then some (s.commitReady finished) else none
  | .finalized result => if s.phase = .finalizing then some (s.commit result) else none
  | .finalizeRejected => if s.phase = .finalizing then some s.fail else none
  | .race index =>
    if s.phase = .racing ∧ index ∈ s.inFlight ∧ s.hasEnded index then some (s.race index) else none
  | .drained =>
    if s.phase = .draining ∧ ∀ index ∈ s.inFlight, s.hasEnded index then
      some { s with phase := .failed }
    else none
  | .settle index needsPost =>
    if s.calls[index]? = some .running then some (s.settle index needsPost) else none
  | .reject index => if s.calls[index]? = some .running then some (s.reject index) else none
  | .abort => some { s with signalAborted := true }
  | .other => some { s with ledger := s.ledger.appendOther }

end ToolScheduler

end Harness.AgentLoop
