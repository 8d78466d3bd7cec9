import Harness.Foundation.Except
import Harness.Foundation.JsonText
import Harness.Foundation.OrderedMap
import Harness.Foundation.SafeInteger
import Harness.Foundation.Text

/-! The strict replay of Schedule records.  A four-digit-year UTC instant is the epoch it
denotes, and the calendar text of an `at` selector the epoch it was read as. -/

namespace Harness.Schedule

open Harness.Foundation

def minEveryIntervalSeconds : Int := 300

/-- `0001-01-01T00:00:00.000Z`. -/
def minFourDigitYearMs : Int := -62135596800000

/-- `9999-12-31T23:59:59.999Z`. -/
def maxFourDigitYearMs : Int := 253402300799999

structure Instant where
  epoch : Int
  fourDigitYear : minFourDigitYearMs ≤ epoch ∧ epoch ≤ maxFourDigitYearMs
  deriving DecidableEq, Repr

inductive ScheduleRule
  | after (afterSeconds : Int)
  | at_
  | every (everySeconds : Int)
  deriving DecidableEq, Repr

def ScheduleRule.isEvery : ScheduleRule → Bool
  | .every _ => true
  | _ => false

structure ScheduleRecord where
  id : String
  prompt : String
  rule : ScheduleRule
  scheduledAt : Instant
  deriving DecidableEq, Repr

inductive ScheduleChange
  | create (schedule : ScheduleRecord)
  | delete (id : String)
  | pause (id : String)
  | resume (id : String)
  | dispatch (id : String) (acceptedAt : Option Instant)
  deriving DecidableEq, Repr

/-- What a Session log holds: Schedule payloads, those of another shape with what the decoder
says of them, and events of other types. -/
inductive ScheduleEvent (Other : Type)
  | change (change : ScheduleChange)
  | malformed (message : String)
  | other (event : Other)
  deriving DecidableEq, Repr

structure FoldedSchedule where
  record : ScheduleRecord
  paused : Bool
  deriving DecidableEq, Repr

def isTrimmedText (value : String) : Bool := value != "" && trim value == value

def decodeId (id : String) : Except String Unit :=
  require (isTrimmedText id) "schedule id must be a non-empty string without surrounding whitespace"

def ScheduleRule.kind : ScheduleRule → String
  | .after _ => "after"
  | .at_ => "at"
  | .every _ => "every"

def decodeRule : ScheduleRule → Except String Unit
  | .after afterSeconds =>
    require (isSafe afterSeconds && decide (0 < afterSeconds))
      "afterSeconds must be a positive safe integer"
  | .at_ => .ok ()
  | .every everySeconds =>
    require (isSafe everySeconds && decide (minEveryIntervalSeconds ≤ everySeconds)
        && isSafe (everySeconds * 1000))
      s!"everySeconds must be a safe integer of at least {minEveryIntervalSeconds}"

def decodeScheduleRecord (record : ScheduleRecord) : Except String Unit := do
  require (isTrimmedText record.prompt)
    s!"{record.rule.kind} prompt must be non-empty and already trimmed"
  decodeRule record.rule
  decodeId record.id

def decodeScheduleChange : ScheduleChange → Except String Unit
  | .create schedule => decodeScheduleRecord schedule
  | .delete id | .pause id | .resume id => decodeId id
  | .dispatch id _ => decodeId id

structure EveryOccurrence where
  occurrenceAt : Int
  nextScheduledAt : Option Instant
  deriving DecidableEq, Repr

def instant? (epoch : Int) : Option Instant :=
  if h : minFourDigitYearMs ≤ epoch ∧ epoch ≤ maxFourDigitYearMs then some ⟨epoch, h⟩ else none

def resolveEveryOccurrence (everySeconds : Int) (scheduledAt : Instant) (acceptedAt : Int) :
    Except String EveryOccurrence := do
  let target := scheduledAt.epoch
  let interval := everySeconds * 1000
  require (isSafe acceptedAt && decide (minFourDigitYearMs ≤ acceptedAt)
      && decide (acceptedAt ≤ maxFourDigitYearMs))
    "every acceptedAt must be a representable four-digit-year instant"
  require (isSafe interval && decide (0 < interval))
    "every interval milliseconds must be a positive safe integer"
  require (decide (target ≤ acceptedAt)) "every dispatch cannot precede the active scheduledAt"
  let steps := (acceptedAt - target) / interval
  let occurrence := target + steps * interval
  require (isSafe occurrence && decide (target ≤ occurrence) && decide (occurrence ≤ acceptedAt))
    "every occurrence arithmetic must stay within the accepted interval"
  let next := occurrence + interval
  if !isSafe next || decide (maxFourDigitYearMs < next) then
    return { occurrenceAt := occurrence, nextScheduledAt := none }
  return { occurrenceAt := occurrence, nextScheduledAt := instant? next }

def advanceDispatchedSchedule (record : ScheduleRecord) (acceptedAt : Option Instant) :
    Except String (Option ScheduleRecord) :=
  match record.rule with
  | .every everySeconds =>
    match acceptedAt with
    | none => .error "every dispatch must contain acceptedAt"
    | some acceptedAt => do
      let occurrence ← resolveEveryOccurrence everySeconds record.scheduledAt acceptedAt.epoch
      return occurrence.nextScheduledAt.map fun next => { record with scheduledAt := next }
  | _ =>
    if acceptedAt.isSome then .error "one-shot dispatch must not contain acceptedAt" else .ok none

structure Replay where
  retained : OrderedMap String FoldedSchedule
  seen : List String

def Replay.empty : Replay := ⟨.empty, []⟩

namespace Replay

variable (replay : Replay)

def keep (id : String) (record : ScheduleRecord) (paused : Bool) : Replay :=
  { replay with retained := replay.retained.set id ⟨record, paused⟩ }

def drop (id : String) : Replay := { replay with retained := replay.retained.delete id }

def target? (id : String) (paused : Bool) : Option ScheduleRecord :=
  match replay.retained.get? id with
  | some schedule => if schedule.paused = paused then some schedule.record else none
  | none => none

def applyCreate (schedule : ScheduleRecord) : Except String Replay :=
  if schedule.id ∈ replay.seen then
    .error s!"schedule id {(Json.str schedule.id).stringify} was reused"
  else
    .ok {
      seen := replay.seen ++ [schedule.id]
      retained := replay.retained.set schedule.id ⟨schedule, false⟩ }

def applyDelete (id : String) : Except String Replay :=
  if replay.retained.has id then .ok (replay.drop id)
  else .error s!"schedule delete targets inactive id {(Json.str id).stringify}"

def applyPause (id : String) : Except String Replay :=
  match replay.target? id false with
  | none => .error s!"schedule pause targets inactive or paused id {(Json.str id).stringify}"
  | some record => .ok (replay.keep id record true)

def applyResume (id : String) : Except String Replay :=
  match replay.target? id true with
  | none => .error s!"schedule resume targets inactive or active id {(Json.str id).stringify}"
  | some record => .ok (replay.keep id record false)

def applyDispatch (id : String) (acceptedAt : Option Instant) : Except String Replay :=
  match replay.target? id false with
  | none => .error s!"schedule dispatch targets inactive id {(Json.str id).stringify}"
  | some record => do
    match ← advanceDispatchedSchedule record acceptedAt with
    | none => return replay.drop id
    | some next => return replay.keep id next false

def applyChange : ScheduleChange → Except String Replay
  | .create schedule => replay.applyCreate schedule
  | .delete id => replay.applyDelete id
  | .pause id => replay.applyPause id
  | .resume id => replay.applyResume id
  | .dispatch id acceptedAt => replay.applyDispatch id acceptedAt

end Replay

variable {Other : Type}

def applyScheduleEvent (replay : Replay) : ScheduleEvent Other → Except String Replay
  | .other _ => .ok replay
  | .malformed message => .error message
  | .change change => do
    decodeScheduleChange change
    replay.applyChange change

structure FoldedSchedules where
  active : List ScheduleRecord
  paused : List ScheduleRecord
  schedules : List FoldedSchedule
  seenIds : List String
  deriving DecidableEq, Repr

def Replay.folded (replay : Replay) : FoldedSchedules where
  active := (replay.retained.values.filter fun schedule => !schedule.paused).map (·.record)
  paused := (replay.retained.values.filter (·.paused)).map (·.record)
  schedules := replay.retained.values
  seenIds := replay.seen

def replaySuffix (events : List (ScheduleEvent Other)) (seedLength : Nat) : Except String Replay := do
  require (isSafe seedLength && decide (seedLength ≤ events.length))
    "schedule seedLength must be within the supplied event log"
  foldOk applyScheduleEvent .empty (events.drop seedLength)

def foldScheduleEvents (events : List (ScheduleEvent Other)) (seedLength : Nat) :
    Except String FoldedSchedules :=
  Replay.folded <$> replaySuffix events seedLength

def scheduleName (sequence : Nat) : String := s!"schedule-{sequence}"

/-- Count on until a name is unused; as many names as were seen, and one more, are enough. -/
def nextUnused (seen : List String) : (tries sequence : Nat) → String
  | 0, sequence => scheduleName sequence
  | tries + 1, sequence =>
    if scheduleName sequence ∈ seen then nextUnused seen tries (sequence + 1)
    else scheduleName sequence

def allocateScheduleId (seenIds : List String) : String :=
  let seen := seenIds.dedup
  nextUnused seen seen.length (seen.length + 1)

inductive ScheduleErrorCode
  | invalidPrompt | invalidSelector | invalidRule | invalidTimeZone | notFuture | timeOutOfRange
  | frequencyTooHigh | corruptScheduleLog | internalError | scheduleNotFound | invalidTransition
  deriving DecidableEq, Repr

structure ScheduleFailure where
  code : ScheduleErrorCode
  message : String
  deriving DecidableEq, Repr

def futureInstant (epoch now : Int) : Except ScheduleFailure Instant :=
  if !isSafe now || !isSafe epoch then
    .error ⟨.timeOutOfRange, outOfRange⟩
  else
    match instant? epoch with
    | none => .error ⟨.timeOutOfRange, outOfRange⟩
    | some instant =>
      if epoch ≤ now then
        .error ⟨.notFuture, "The scheduled time must be strictly in the future."⟩
      else .ok instant
where
  outOfRange : String :=
    "The scheduled time must be representable as a four-digit-year RFC 3339 UTC instant."

def safeInt? : JsonNumber → Option Int
  | .int n => if isSafe n then some n else none
  | .frac .. => none

def emptyPrompt : ScheduleFailure := ⟨.invalidPrompt, "prompt must be non-empty after trimming."⟩

def createAfterScheduleRecord (id prompt : String) (afterSeconds : JsonNumber) (now : Int) :
    Except ScheduleFailure ScheduleRecord :=
  if trim prompt = "" then .error emptyPrompt
  else
    match (safeInt? afterSeconds).filter fun seconds => decide (0 < seconds) with
    | none => .error ⟨.invalidRule, "after_seconds must be a positive safe integer."⟩
    | some seconds => do
      let scheduledAt ← futureInstant (now + seconds * 1000) now
      return { id, prompt := trim prompt, rule := .after seconds, scheduledAt }

def createAtScheduleRecord (id prompt : String) (target : Except ScheduleFailure Int) (now : Int) :
    Except ScheduleFailure ScheduleRecord :=
  if trim prompt = "" then .error emptyPrompt
  else do
    let epoch ← target
    let scheduledAt ← futureInstant epoch now
    return { id, prompt := trim prompt, rule := .at_, scheduledAt }

def createEveryScheduleRecord (id prompt : String) (everySeconds : JsonNumber) (now : Int) :
    Except ScheduleFailure ScheduleRecord :=
  if trim prompt = "" then .error emptyPrompt
  else
    match safeInt? everySeconds with
    | none => .error ⟨.invalidRule, "every_seconds must be a safe integer."⟩
    | some seconds =>
      if seconds < minEveryIntervalSeconds then
        .error ⟨.frequencyTooHigh, s!"every_seconds must be at least {minEveryIntervalSeconds}."⟩
      else do
        let scheduledAt ← futureInstant (now + seconds * 1000) now
        return { id, prompt := trim prompt, rule := .every seconds, scheduledAt }

end Harness.Schedule
