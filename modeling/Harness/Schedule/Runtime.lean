import Harness.Schedule.Fold
import Harness.Foundation.Machine

namespace Harness.Schedule

open Harness.Foundation

structure TimeValue where
  ms : Int
  inRange : -8640000000000000 ≤ ms ∧ ms ≤ 8640000000000000

inductive DueDecision
  | oneShot (record : ScheduleRecord)
  | every (reminders : List (ScheduleRecord × Int)) (acceptedAt : Instant)
  | wait (target : Option Int)
  deriving DecidableEq, Repr

def byTargetThenCreate (left right : ScheduleRecord × Nat) : Bool :=
  let (leftTarget, rightTarget) := (left.1.scheduledAt.epoch, right.1.scheduledAt.epoch)
  decide (leftTarget < rightTarget) || (leftTarget == rightTarget && decide (left.2 ≤ right.2))

def dueRecords (active : List ScheduleRecord) (every : Bool) (now : Int) : List ScheduleRecord :=
  let due := active.zipIdx.filter fun entry =>
    entry.1.rule.isEvery == every && decide (entry.1.scheduledAt.epoch ≤ now)
  (due.mergeSort byTargetThenCreate).map Prod.fst

def nextTarget (active : List ScheduleRecord) (now : Int) : Option Int :=
  active.foldl
    (fun selected record =>
      let candidate := record.scheduledAt.epoch
      if now < candidate ∧ selected.all (fun target => decide (candidate < target)) then
        some candidate
      else selected)
    none

def ScheduleRule.everySeconds : ScheduleRule → Int
  | .every seconds => seconds
  | _ => 0

def remind (now : Int) (record : ScheduleRecord) : Except String (ScheduleRecord × Int) := do
  let occurrence ← resolveEveryOccurrence record.rule.everySeconds record.scheduledAt now
  return (record, occurrence.occurrenceAt)

def dueDecision (folded : FoldedSchedules) (now : Int) : Except String DueDecision :=
  match dueRecords folded.active false now with
  | record :: _ => .ok (.oneShot record)
  | [] =>
    match dueRecords folded.active true now with
    | [] => .ok (.wait (nextTarget folded.active now))
    | due => do
      let acceptedAt ← expect (instant? now)
        "every acceptedAt must be a representable four-digit-year instant"
      let reminders ← due.mapM (remind now)
      return .every reminders acceptedAt

def DueDecision.changes : DueDecision → List ScheduleChange
  | .oneShot record => [.dispatch record.id none]
  | .every reminders acceptedAt =>
    reminders.map fun reminder => .dispatch reminder.1.id (some acceptedAt)
  | .wait _ => []

def DueDecision.records : DueDecision → List ScheduleRecord
  | .oneShot record => [record]
  | .every reminders _ => reminders.map Prod.fst
  | .wait _ => []

structure Followup where
  heldAt : Nat
  records : List ScheduleRecord
  deriving DecidableEq, Repr

structure ScheduleSession (Other : Type) where
  events : List (ScheduleEvent Other)
  seedLength : Nat
  claiming : Bool
  faulted : Bool
  followups : List Followup

structure CreateArgs where
  prompt : String
  afterSeconds : Option JsonNumber
  atTarget : Option (Except ScheduleFailure Int)
  everySeconds : Option JsonNumber
  otherKeys : List String

def validateCreateArgs (args : CreateArgs) : Option ScheduleFailure :=
  if args.otherKeys ≠ []
      ∨ args.afterSeconds.isSome.toNat + args.atTarget.isSome.toNat + args.everySeconds.isSome.toNat
        ≠ 1 then
    some ⟨.invalidSelector,
      "schedule_create accepts exactly one of after_seconds, at, or every_seconds."⟩
  else if trim args.prompt = "" then some emptyPrompt
  else if args.afterSeconds.any fun seconds =>
      !(safeInt? seconds).any fun seconds => decide (0 < seconds) then
    some ⟨.invalidRule, "after_seconds must be a positive safe integer."⟩
  else if args.everySeconds.any fun seconds => (safeInt? seconds).isNone then
    some ⟨.invalidRule, "every_seconds must be a safe integer."⟩
  else if args.everySeconds.any fun seconds =>
      (safeInt? seconds).any fun seconds => decide (seconds < minEveryIntervalSeconds) then
    some ⟨.frequencyTooHigh, s!"every_seconds must be at least {minEveryIntervalSeconds}."⟩
  else none

def internalError : ScheduleFailure := ⟨.internalError, "The schedule operation failed."⟩

def createRecord (id : String) (args : CreateArgs) (now : Int) :
    Except ScheduleFailure ScheduleRecord :=
  match args.atTarget, args.afterSeconds, args.everySeconds with
  | some target, _, _ => createAtScheduleRecord id args.prompt target now
  | none, some seconds, _ => createAfterScheduleRecord id args.prompt seconds now
  | none, none, some seconds => createEveryScheduleRecord id args.prompt seconds now
  | none, none, none => .error internalError

def corruptLogError : ScheduleFailure :=
  ⟨.corruptScheduleLog, "The session schedule log is corrupt."⟩

inductive StateChange
  | pause | resume
  deriving DecidableEq, Repr

def StateChange.name : StateChange → String
  | .pause => "pause"
  | .resume => "resume"

def StateChange.change (id : String) : StateChange → ScheduleChange
  | .pause => .pause id
  | .resume => .resume id

structure Seed (Other : Type) where
  events : List (ScheduleEvent Other)
  bounded : events.length < 4294967296

variable {Other : Type}

namespace ScheduleSession

def opened (seed : Seed Other) : ScheduleSession Other where
  events := seed.events
  seedLength := seed.events.length
  claiming := false
  faulted := false
  followups := []

variable (session : ScheduleSession Other)

def append (change : ScheduleChange) : ScheduleSession Other :=
  { session with events := session.events ++ [.change change] }

def appendAll (changes : List ScheduleChange) : ScheduleSession Other :=
  { session with events := session.events ++ changes.map .change }

def fold : Except String FoldedSchedules := foldScheduleEvents session.events session.seedLength

/-- The end of a mutation: the append, unless the caller cancelled first or the log refuses. -/
def commit {α : Type} (written : Bool) (change : ScheduleChange) (value : α) :
    ScheduleSession Other × Except ScheduleFailure α :=
  if written then (session.append change, .ok value) else (session, .error internalError)

def scheduleCreate (args : CreateArgs) (now : Int) (written : Bool) :
    ScheduleSession Other × Except ScheduleFailure ScheduleRecord :=
  match validateCreateArgs args with
  | some invalid => (session, .error invalid)
  | none =>
    match session.fold with
    | .error _ => (session, .error corruptLogError)
    | .ok folded =>
      match createRecord (allocateScheduleId folded.seenIds) args now with
      | .error failure => (session, .error failure)
      | .ok record => session.commit written (.create record) record

def scheduleDelete (id : String) (written : Bool) :
    ScheduleSession Other × Except ScheduleFailure Bool :=
  if !isTrimmedText id then
    (session, .error ⟨.invalidRule,
      "schedule_delete id must be non-empty without surrounding whitespace."⟩)
  else
    match session.fold with
    | .error _ => (session, .error corruptLogError)
    | .ok folded =>
      if folded.schedules.any fun schedule => schedule.record.id = id then
        session.commit written (.delete id) true
      else (session, .ok false)

def assertId (id : String) : Except ScheduleFailure Unit :=
  if isTrimmedText id then .ok ()
  else .error ⟨.scheduleNotFound, "schedule id must be non-empty without surrounding whitespace"⟩

def foldForMutation : Except ScheduleFailure FoldedSchedules :=
  session.fold.mapError fun _ =>
    ⟨.corruptScheduleLog, "the Session Schedule log is corrupt"⟩

def notRetained (id : String) : ScheduleFailure :=
  ⟨.scheduleNotFound, s!"schedule {(Json.str id).stringify} is not retained"⟩

def retainedForDelete (id : String) : Except ScheduleFailure Unit := do
  assertId id
  let folded ← session.foldForMutation
  if folded.schedules.any fun schedule => schedule.record.id = id then return ()
  else throw (notRetained id)

def delete (id : String) (written : Bool) : ScheduleSession Other × Except ScheduleFailure Unit :=
  match session.retainedForDelete id with
  | .error failure => (session, .error failure)
  | .ok () => session.commit written (.delete id) ()

def retainedForChange (id : String) (operation : StateChange) :
    Except ScheduleFailure FoldedSchedule := do
  assertId id
  let folded ← session.foldForMutation
  match folded.schedules.find? fun schedule => schedule.record.id = id with
  | none => throw (notRetained id)
  | some retained =>
    if retained.paused ≠ decide (operation = .resume) then
      let state := if retained.paused then "paused" else "active"
      let shown := (Json.str id).stringify
      throw ⟨.invalidTransition, s!"schedule {shown} cannot {operation.name} from {state} state"⟩
    else return retained

def changeState (id : String) (operation : StateChange) (written : Bool) :
    ScheduleSession Other × Except ScheduleFailure ScheduleRecord :=
  match session.retainedForChange id operation with
  | .error failure => (session, .error failure)
  | .ok retained => session.commit written (operation.change id) retained.record

def readFolded : ScheduleSession Other × Option FoldedSchedules :=
  match session.fold with
  | .error _ => ({ session with faulted := true }, none)
  | .ok folded => (session, some folded)

def isWait : DueDecision → Bool
  | .wait _ => true
  | _ => false

def wake (now : Int) : ScheduleSession Other :=
  if session.faulted then session
  else
    match session.readFolded with
    | (session, none) => session
    | (session, some folded) =>
      match dueDecision folded now with
      | .error _ => session
      | .ok decision => { session with claiming := !isWait decision }

/-- The end of a claim: the message, and as many dispatches as the log takes. -/
def dispatch (decision : DueDecision) (sent : Bool) (refusedAt : Option Nat) :
    ScheduleSession Other :=
  if !sent then session
  else
    let followups := session.followups ++ [⟨session.events.length, decision.records⟩]
    let session := { session with followups }
    match refusedAt with
    | none => session.appendAll decision.changes
    | some count => { session.appendAll (decision.changes.take count) with faulted := true }

def claim (now : Int) (sent : Bool) (refusedAt : Option Nat) : ScheduleSession Other :=
  if !session.claiming then session
  else
    match { session with claiming := false }.readFolded with
    | (session, none) => session
    | (session, some folded) =>
      match dueDecision folded now with
      | .error _ => session
      | .ok decision =>
        if isWait decision then session else session.dispatch decision sent refusedAt

end ScheduleSession

inductive ScheduleOp (Other : Type)
  | scheduleCreate (args : CreateArgs) (now : TimeValue) (written : Bool)
  | scheduleDelete (id : String) (written : Bool)
  | delete (id : String) (written : Bool)
  | changeState (id : String) (operation : StateChange) (written : Bool)
  | wake (now : TimeValue)
  | claim (now : TimeValue) (sent : Bool) (refusedAt : Option Nat)
  | append (event : Other)
  | restart

def ScheduleSession.step (session : ScheduleSession Other) :
    ScheduleOp Other → ScheduleSession Other
  | .scheduleCreate args now written => (session.scheduleCreate args now.ms written).1
  | .scheduleDelete id written => (session.scheduleDelete id written).1
  | .delete id written => (session.delete id written).1
  | .changeState id operation written => (session.changeState id operation written).1
  | .wake now => session.wake now.ms
  | .claim now sent refusedAt => session.claim now.ms sent refusedAt
  | .append event => { session with events := session.events ++ [.other event] }
  | .restart => { session with claiming := false, faulted := false }

def ScheduleSession.after (seed : Seed Other) (ops : List (ScheduleOp Other)) :
    ScheduleSession Other :=
  ops.foldl ScheduleSession.step (.opened seed)

end Harness.Schedule
