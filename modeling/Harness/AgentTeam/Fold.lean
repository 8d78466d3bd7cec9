import Harness.AgentTeam.TaskGraph
import Harness.Foundation.SafeInteger

namespace Harness.AgentTeam

open Harness.Foundation

inductive TeamMemberPhase
  | provisioning | active | failed
  deriving DecidableEq, Repr

def TeamMemberPhase.name : TeamMemberPhase → String
  | .provisioning => "provisioning"
  | .active => "active"
  | .failed => "failed"

inductive TeamContext
  | fresh | fork
  deriving DecidableEq, Repr

structure TeamMemberSnapshot where
  id : String
  name : String
  description : String
  provider : String
  context : TeamContext
  phase : TeamMemberPhase
  error : Option String
  deriving DecidableEq, Repr

inductive TeamDelivery
  | quiet | wakeup
  deriving DecidableEq, Repr

structure TeamMessageSnapshot (Content : Type) where
  id : String
  senderId : String
  senderName : String
  targetId : String
  delivery : TeamDelivery
  content : Content
  deriving DecidableEq, Repr

inductive TeamRecord (Content : Type)
  | member (member : TeamMemberSnapshot)
  | task (task : TeamTaskSnapshot)
  | queued (message : TeamMessageSnapshot Content)
  | delivered (messageId targetId : String)
  deriving DecidableEq, Repr

def TeamRecord.type {Content : Type} : TeamRecord Content → String
  | .member _ => "team/member"
  | .task _ => "team/task"
  | .queued _ => "team/message/queued"
  | .delivered _ _ => "team/message/delivered"

structure TeamEvent (Content : Type) where
  version : Nat
  teamId : String
  record : TeamRecord Content
  deriving DecidableEq, Repr

inductive LogEvent (Content Other : Type)
  | team (event : TeamEvent Content)
  | other (event : Other)
  deriving DecidableEq, Repr

structure TeamFoldState (Content : Type) where
  id : String
  members : OrderedMap String TeamMemberSnapshot
  memberIdsByName : OrderedMap String String
  tasks : TaskMap
  messages : OrderedMap String (TeamMessageSnapshot Content)
  delivered : List String
  nextTaskNumber : Nat

variable {Content Other : Type}

def emptyTeamFoldState (rootId : String) : TeamFoldState Content where
  id := rootId
  members := .empty
  memberIdsByName := .empty
  tasks := .empty
  messages := .empty
  delivered := []
  nextTaskNumber := 1

def maxSafe : Nat := 9007199254740991

def taskNumber? (id : String) : Option Nat :=
  match id.toList with
  | 't' :: 'a' :: 's' :: 'k' :: '-' :: digits =>
    if digits ≠ [] ∧ digits.all Char.isDigit then some (Nat.ofDigitChars 10 digits 0) else none
  | _ => none

def validTaskId (id : String) : Bool :=
  decide (id ≠ "") && (taskNumber? id).all fun number => decide (number ≤ maxSafe)

def validTask (task : TeamTaskSnapshot) : Bool :=
  validTaskId task.id && decide (1 ≤ task.revision) && decide (task.revision ≤ maxSafe)
    && task.ownerId.all (fun ownerId => decide (ownerId ≠ ""))
    && task.blockedBy.all validTaskId

def TeamRecord.valid : TeamRecord Content → Bool
  | .member snapshot => decide (snapshot.id ≠ "")
  | .task snapshot => validTask snapshot
  | .queued message =>
    decide (message.id ≠ "") && decide (message.senderId ≠ "") && decide (message.targetId ≠ "")
  | .delivered messageId targetId => decide (messageId ≠ "") && decide (targetId ≠ "")

def TeamEvent.validSelector (event : TeamEvent Content) : Bool :=
  decide (event.version ≤ maxSafe) && decide (event.teamId ≠ "")

def invalidPayload (event : TeamEvent Content) : String :=
  s!"persisted Agent Teams {event.record.type} payload is invalid"

namespace TeamFoldState

variable (state : TeamFoldState Content)

def applyMember (member : TeamMemberSnapshot) : Except String (TeamFoldState Content) :=
  let named := state.memberIdsByName.get? member.name
  if named.any fun id => id ≠ member.id then
    .error s!"teammate name \"{member.name}\" is reused by another member"
  else
    match state.members.get? member.id with
    | none =>
      if member.phase ≠ .provisioning then
        .error s!"teammate \"{member.name}\" must begin provisioning"
      else
        .ok { state with
          memberIdsByName := state.memberIdsByName.set member.name member.id
          members := state.members.set member.id member }
    | some prior =>
      if prior.name ≠ member.name ∨ prior.provider ≠ member.provider
          ∨ prior.context ≠ member.context then
        .error s!"teammate \"{member.id}\" changed immutable identity fields"
      else if prior.phase ≠ .provisioning ∨ member.phase = .provisioning then
        let phases := s!"{prior.phase.name} -> {member.phase.name}"
        .error s!"teammate \"{member.name}\" has an invalid {phases} transition"
      else .ok { state with members := state.members.set member.id member }

def advanceTaskNumber (current : Nat) (id : String) : Nat :=
  match taskNumber? id with
  | some number => max current (if number = maxSafe then number else number + 1)
  | none => current

def applyTask (task : TeamTaskSnapshot) : Except String (TeamFoldState Content) :=
  let graph := (assertTaskGraphCandidate state.tasks task).mapError TeamTaskGraphError.message
  let next := { state with
    nextTaskNumber := advanceTaskNumber state.nextTaskNumber task.id
    tasks := state.tasks.set task.id task }
  match state.tasks.get? task.id with
  | none =>
    if task.revision ≠ 1 then .error s!"team task \"{task.id}\" must begin at revision 1"
    else graph.map fun _ => next
  | some prior =>
    if task.revision ≠ prior.revision + 1 then
      .error s!"team task \"{task.id}\" revision is not contiguous"
    else graph.map fun _ => next

def applyQueued (message : TeamMessageSnapshot Content) : Except String (TeamFoldState Content) :=
  if state.messages.has message.id then
    .error s!"team message \"{message.id}\" was queued twice"
  else .ok { state with messages := state.messages.set message.id message }

def applyDelivered (messageId targetId : String) : Except String (TeamFoldState Content) :=
  match state.messages.get? messageId with
  | none => .error s!"team message \"{messageId}\" was delivered before queueing"
  | some queued =>
    if queued.targetId ≠ targetId then .error s!"team message \"{messageId}\" target changed"
    else if messageId ∈ state.delivered then
      .error s!"team message \"{messageId}\" was delivered twice"
    else .ok { state with delivered := state.delivered ++ [messageId] }

def applyRecord : TeamRecord Content → Except String (TeamFoldState Content)
  | .member member => state.applyMember member
  | .task task => state.applyTask task
  | .queued message => state.applyQueued message
  | .delivered messageId targetId => state.applyDelivered messageId targetId

end TeamFoldState

def applyTeamEvent (state : TeamFoldState Content) :
    LogEvent Content Other → Except String (TeamFoldState Content)
  | .other _ => .ok state
  | .team event =>
    if !event.validSelector then .error (invalidPayload event)
    else if event.version ≠ 1 then
      if event.teamId ≠ state.id then .ok state
      else .error s!"unsupported Agent Teams event version {event.version}"
    else if !event.record.valid then .error (invalidPayload event)
    else if event.teamId ≠ state.id then .ok state
    else state.applyRecord event.record

def foldTeam (rootId : String) (events : List (LogEvent Content Other)) :
    Except String (TeamFoldState Content) :=
  foldOk applyTeamEvent (emptyTeamFoldState rootId) events

end Harness.AgentTeam
