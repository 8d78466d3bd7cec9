import Harness.Foundation.Machine

universe u

namespace Harness.Persistence

variable {α : Type u}

/-- An active write is with the backend until it is stored there, resolved or rejected; after that
its reactions are due. -/
inductive WriteStage
  | writing
  | stored
  | resolved
  | rejected
  | restored
  deriving DecidableEq

structure ActiveWrite (α : Type u) where
  batch : List α
  background : Bool
  stage : WriteStage

inductive BarrierStage
  | overlapping
  | overlapped
  | writing
  | written
  | failed
  deriving DecidableEq

structure SessionWriteBehind (α : Type u) where
  pending : List α
  timer : Bool
  active : Option (ActiveWrite α)
  barrier : Option BarrierStage
  deadlineExpired : Bool
  automaticPaused : Bool
  continuing : Bool

namespace SessionWriteBehind

def fresh : SessionWriteBehind α where
  pending := []
  timer := false
  active := none
  barrier := none
  deadlineExpired := false
  automaticPaused := false
  continuing := false

variable (writes : SessionWriteBehind α)

def armTimer : SessionWriteBehind α := { writes with timer := true }

def cancelTimer : SessionWriteBehind α := { writes with timer := false }

def enqueue (event : α) : SessionWriteBehind α :=
  let wasEmpty := writes.pending.isEmpty
  let writes := { writes with pending := writes.pending ++ [event] }
  if writes.barrier.isSome then writes
  else if writes.automaticPaused then
    { writes with automaticPaused := false, deadlineExpired := false }.armTimer
  else if wasEmpty then writes.armTimer
  else writes

def startWrite (background : Bool) : SessionWriteBehind α :=
  { writes.cancelTimer with
    pending := []
    deadlineExpired := false
    active := some ⟨writes.pending, background, .writing⟩ }

def startBackground : SessionWriteBehind α := writes.startWrite true

/-- The loop of `drainBarrier`, and whether the callers of the barrier are resolved. -/
def drain : SessionWriteBehind α × Bool :=
  if writes.pending.isEmpty then ({ writes with barrier := none }, true)
  else ({ writes.startWrite false with barrier := some .writing }, false)

def drainBarrier : SessionWriteBehind α × Bool :=
  if writes.active.isSome then ({ writes with barrier := some .overlapping }, false)
  else writes.drain

def flush : SessionWriteBehind α × Bool :=
  if writes.barrier.isSome then (writes, false)
  else
    { writes.cancelTimer with deadlineExpired := false, automaticPaused := false }.drainBarrier

def cancelAutomaticWait : SessionWriteBehind α :=
  { writes.cancelTimer with deadlineExpired := false }

def onDeadline : SessionWriteBehind α :=
  let writes := { writes with timer := false }
  if writes.active.isSome then { writes with deadlineExpired := true } else writes.startBackground

def continueAutomatic : SessionWriteBehind α :=
  if writes.barrier.isSome || writes.pending.isEmpty then writes
  else if writes.deadlineExpired then { writes with deadlineExpired := false }.startBackground
  else writes

def restore (write : ActiveWrite α) : SessionWriteBehind α :=
  { writes.cancelTimer with
    pending := write.batch ++ writes.pending
    deadlineExpired := false
    automaticPaused := true
    active := some { write with stage := .restored } }

/-- The `finally` reaction of a write; what awaits the write is due after it. -/
def settle (write : ActiveWrite α) : SessionWriteBehind α :=
  let succeeded := write.stage == .resolved
  { writes with
    active := none
    continuing := writes.continuing || write.background && succeeded
    barrier := writes.barrier.map fun
      | .overlapping => .overlapped
      | .writing => if succeeded then .written else .failed
      | stage => stage }

def resumeBarrier (stage : BarrierStage) : SessionWriteBehind α × Bool :=
  match stage with
  | .overlapped => { writes with automaticPaused := false }.drain
  | .failed => ({ writes with barrier := none }, false)
  | _ => writes.drain

def BarrierStage.resumable : BarrierStage → Bool
  | .overlapping | .writing => false
  | .overlapped | .written | .failed => true

def quiet : Bool :=
  !writes.continuing
    && (writes.barrier.all fun stage => !BarrierStage.resumable stage)
    && (writes.active.all fun write => write.stage == .writing || write.stage == .stored)

end SessionWriteBehind

inductive WriteOp (α : Type u)
  | enqueue (event : α)
  | flush
  | cancelAutomaticWait
  | deadline
  | store
  | resolve
  | reject
  | restore
  | settle
  | continueAutomatic
  | resumeBarrier

/-- A queue with what it was given, what the backend has stored, and what had been given when each
flush was called: of those that wait for the barrier, and of those that were resolved. -/
structure WriteRun (α : Type u) where
  writes : SessionWriteBehind α
  enqueued : List α
  durable : List α
  waiting : List (List α)
  flushed : List (List α)
  waitCancelled : Bool

namespace WriteRun

def fresh : WriteRun α := ⟨.fresh, [], [], [], [], false⟩

variable (run : WriteRun α)

/-- The callers of the barrier are resolved with it, and rejected when it ends otherwise. -/
def barred (waiting : List (List α)) (result : SessionWriteBehind α × Bool) : WriteRun α :=
  { run with
    writes := result.1
    waiting := if result.1.barrier.isSome then waiting else []
    flushed := if result.2 then run.flushed ++ waiting else run.flushed
    waitCancelled := false }

def moveTo (write : ActiveWrite α) (stage : WriteStage) : WriteRun α :=
  { run with writes := { run.writes with active := some { write with stage } } }

def step (run : WriteRun α) : WriteOp α → Option (WriteRun α)
  | .enqueue event =>
    let writes := run.writes.enqueue event
    some { run with
      writes, enqueued := run.enqueued ++ [event], waitCancelled := run.waitCancelled && !writes.timer }
  | .flush => some (run.barred (run.waiting ++ [run.enqueued]) run.writes.flush)
  | .cancelAutomaticWait => some
    { run with writes := run.writes.cancelAutomaticWait, waitCancelled := true }
  | .deadline =>
    if run.writes.timer && run.writes.quiet then some { run with writes := run.writes.onDeadline }
    else none
  | .store => run.writes.active.bind fun write =>
    if write.stage = .writing then
      some { run.moveTo write .stored with durable := run.durable ++ write.batch }
    else none
  | .resolve => run.writes.active.bind fun write =>
    if write.stage = .stored then some (run.moveTo write .resolved) else none
  | .reject => run.writes.active.bind fun write =>
    if write.stage = .writing then some (run.moveTo write .rejected) else none
  | .restore => run.writes.active.bind fun write =>
    if write.stage = .rejected then some { run with writes := run.writes.restore write } else none
  | .settle => run.writes.active.bind fun write =>
    if write.stage = .resolved ∨ write.stage = .restored then
      some { run with writes := run.writes.settle write }
    else none
  | .continueAutomatic =>
    if run.writes.continuing then
      some { run with writes := { run.writes with continuing := false }.continueAutomatic }
    else none
  | .resumeBarrier => run.writes.barrier.bind fun stage =>
    if SessionWriteBehind.BarrierStage.resumable stage then
      some (run.barred run.waiting (run.writes.resumeBarrier stage))
    else none

end WriteRun

end Harness.Persistence
