import Harness.AgentTeam.Fold
import Harness.Foundation.Text
import Harness.Goal.Service
import Harness.Meter.TokenMeter

namespace Harness.AgentTeam

open Harness.Foundation

structure TeamError where
  message : String
  code : String
  deriving DecidableEq, Repr

abbrev SessionId := { id : String // id ≠ "" }

inductive TeamRole
  | lead | teammate
  deriving DecidableEq, Repr

structure TeamMembership where
  root : SessionId
  role : TeamRole
  deriving DecidableEq, Repr

structure CreateTeamTaskRequest where
  subject : String
  description : String
  blockedBy : Option (List String)
  writeScopes : Option (List String)
  deriving DecidableEq, Repr

inductive TeamTaskAction
  | claim | release | edit | setDependencies | complete | reopen | reassign | delete
  deriving DecidableEq, Repr

structure UpdateTeamTaskRequest where
  taskId : String
  expectedRevision : Nat
  action : TeamTaskAction
  subject : Option String
  description : Option String
  blockedBy : Option (List String)
  writeScopes : Option (List String)
  owner : Option String
  deriving DecidableEq, Repr

structure TeamTaskView where
  id : String
  revision : Nat
  subject : String
  description : String
  status : TeamTaskStatus
  blockedBy : List String
  writeScopes : List String
  ownerName : Option String
  ready : Bool
  writeScopeWarnings : List String
  deriving DecidableEq, Repr

def requiredText (value field : String) (maxLength : Nat) : Except TeamError String :=
  let text := trim value
  if text = "" then
    .error { message := s!"{field} must be non-empty", code := "TEAM_INVALID_ARGUMENT" }
  else if utf16Length text > maxLength then
    .error { message := s!"{field} exceeds {maxLength} characters", code := "TEAM_INVALID_ARGUMENT" }
  else .ok text

/-- `/^[a-z]:/iu`; folding case, the long s and the Kelvin sign are letters as well. -/
def hasDrive : List Char → Bool
  | c :: ':' :: _ => c.isAlpha || c = '\u017f' || c = '\u212a'
  | _ => false

/-- `value.replaceAll('\\', '/')`, less a leading `./` and trailing slashes. -/
def normalizeScope (value : String) : List Char :=
  let slashed := value.toList.map fun c => if c = '\\' then '/' else c
  let stripped := match slashed with
    | '.' :: '/' :: rest => rest
    | other => other
  stripped.rdropWhile (· = '/')

def writeScope (value : String) : Except TeamError String :=
  let normalized := normalizeScope value
  let segments := normalized.splitOn '/'
  if normalized = [] ∨ normalized.head? = some '/' ∨ hasDrive normalized = true
      ∨ segments.any (fun segment => segment = [] ∨ segment = ['.'] ∨ segment = ['.', '.']) then
    let shown := (Json.str value).stringify
    .error {
      message := s!"invalid workspace-relative write scope {shown}"
      code := "TEAM_INVALID_WRITE_SCOPE" }
  else .ok (String.ofList normalized)

/-- `[...new Set(values)]`. -/
def distinct (values : List String) : List String :=
  values.foldl (fun kept value => if value ∈ kept then kept else kept ++ [value]) []

def writeScopes (values : List String) : Except TeamError (List String) :=
  (values.mapM writeScope).map distinct

variable {Content Other : Type}

/-- The dependencies named from some point on, less a task that may not name itself. -/
def dependencies (state : TeamFoldState Content) (self : Option String) :
    List String → List String → Except TeamError (List String)
  | seen, [] => .ok seen
  | seen, id :: rest =>
    if self = some id then
      .error { message := "a team task cannot block itself", code := "TEAM_TASK_DEPENDENCY_CYCLE" }
    else if id ∈ seen then
      .error { message := s!"duplicate blocker \"{id}\"", code := "TEAM_INVALID_ARGUMENT" }
    else
      let missing : TeamError :=
        { message := s!"blocker task \"{id}\" not found", code := "TEAM_TASK_NOT_FOUND" }
      match state.tasks.get? id with
      | none => .error missing
      | some task =>
        if task.status = .deleted then .error missing
        else dependencies state self (seen ++ [id]) rest

def TeamTaskGraphViolation.code : TeamTaskGraphViolation → String
  | .missing => "TEAM_TASK_NOT_FOUND"
  | .duplicate => "TEAM_INVALID_ARGUMENT"
  | .cycle => "TEAM_TASK_DEPENDENCY_CYCLE"

def checkTaskGraph (state : TeamFoldState Content) (candidate : TeamTaskSnapshot) :
    Except TeamError Unit :=
  (assertTaskGraphCandidate state.tasks candidate).mapError fun error =>
    { message := error.message, code := error.violation.code }

def taskReady (state : TeamFoldState Content) (task : TeamTaskSnapshot) : Bool :=
  task.blockedBy.all fun id =>
    (state.tasks.get? id).any fun blocker => blocker.status = .completed

def withoutOwner (task : TeamTaskSnapshot) : TeamTaskSnapshot := { task with ownerId := none }

def scopesOverlap (left right : String) : Bool :=
  left = right || (right ++ "/").toList.isPrefixOf left.toList
    || (left ++ "/").toList.isPrefixOf right.toList

def taskView (root : SessionId) (state : TeamFoldState Content) (task : TeamTaskSnapshot) :
    TeamTaskView :=
  let ownerName := task.ownerId.bind fun ownerId =>
    if ownerId = root.val then some "lead"
    else (state.members.get? ownerId).map TeamMemberSnapshot.name
  let overlapping := state.tasks.values.filter fun other =>
    other.id ≠ task.id ∧ other.status = .inProgress ∧
      task.writeScopes.any fun left => other.writeScopes.any fun right => scopesOverlap left right
  { id := task.id
    revision := task.revision
    subject := task.subject
    description := task.description
    status := task.status
    blockedBy := task.blockedBy
    writeScopes := task.writeScopes
    ownerName := ownerName
    ready := task.status = .pending && taskReady state task
    writeScopeWarnings :=
      distinct (overlapping.map fun other => s!"write scopes overlap with {other.id}") }

def resolveActiveMember (root : SessionId) (state : TeamFoldState Content) (rawName : String) :
    Except TeamError (String × String) :=
  let name := trim rawName
  if name = "lead" then .ok (root.val, name)
  else
    match (state.memberIdsByName.get? name).bind state.members.get? with
    | some member =>
      if member.phase = .active then .ok (member.id, name)
      else .error {
        message := s!"active teammate \"{name}\" not found", code := "TEAM_MEMBER_NOT_FOUND" }
    | none => .error {
        message := s!"active teammate \"{name}\" not found", code := "TEAM_MEMBER_NOT_FOUND" }

namespace TeamTaskBoard

def planCreate (maxTasks : Nat) (state : TeamFoldState Content) (request : CreateTeamTaskRequest) :
    Except TeamError TeamTaskSnapshot := do
  let active := state.tasks.values.countP fun task => task.status ≠ .deleted
  if active ≥ maxTasks then
    throw { message := s!"Team task limit {maxTasks} reached", code := "TEAM_TASK_LIMIT" }
  let id := s!"task-{state.nextTaskNumber}"
  if state.tasks.has id then
    throw { message := "Team task id space exhausted", code := "TEAM_TASK_LIMIT" }
  let subject ← requiredText request.subject "subject" 200
  let description ← requiredText request.description "description" 16384
  let blockedBy ← dependencies state none [] (request.blockedBy.getD [])
  let scopes ← writeScopes (request.writeScopes.getD [])
  let task : TeamTaskSnapshot :=
    { id, revision := 1, subject, description, status := .pending, ownerId := none
      blockedBy, writeScopes := scopes }
  checkTaskGraph state task
  return task

def authorizeOwner (membership : TeamMembership) (caller : SessionId) (current : TeamTaskSnapshot) :
    Except TeamError Unit :=
  if membership.role = .lead ∨ current.ownerId = some caller.val then .ok ()
  else .error {
    message := "task mutation requires its owner or Team Lead", code := "TEAM_TASK_UNAUTHORIZED" }

def invalidTransition (message : String) : TeamError :=
  { message, code := "TEAM_TASK_INVALID_TRANSITION" }

def claim (state : TeamFoldState Content) (caller : SessionId) (current : TeamTaskSnapshot) :
    Except TeamError TeamTaskSnapshot :=
  if current.ownerId.any fun ownerId => ownerId ≠ caller.val then
    .error {
      message := s!"team task \"{current.id}\" is owned by another member"
      code := "TEAM_TASK_ALREADY_CLAIMED" }
  else if current.status ≠ .pending ∨ taskReady state current = false then
    .error {
      message := s!"team task \"{current.id}\" is not ready to claim", code := "TEAM_TASK_BLOCKED" }
  else .ok { current with status := .inProgress, ownerId := some caller.val }

def replaced {α : Type} (value : Option α) (current : α) (normalize : α → Except TeamError α) :
    Except TeamError α :=
  match value with
  | none => .ok current
  | some value => normalize value

def edit (request : UpdateTeamTaskRequest) (current : TeamTaskSnapshot) :
    Except TeamError TeamTaskSnapshot := do
  if request.subject = none ∧ request.description = none ∧ request.writeScopes = none then
    throw {
      message := "task edit requires subject, description, or write_scopes"
      code := "TEAM_INVALID_ARGUMENT" }
  let subject ← replaced request.subject current.subject fun subject =>
    requiredText subject "subject" 200
  let description ← replaced request.description current.description fun description =>
    requiredText description "description" 16384
  let scopes ← replaced request.writeScopes current.writeScopes writeScopes
  return { current with subject, description, writeScopes := scopes }

def setDependencies (state : TeamFoldState Content) (request : UpdateTeamTaskRequest)
    (current : TeamTaskSnapshot) : Except TeamError TeamTaskSnapshot :=
  match request.blockedBy with
  | none => .error {
      message := "set_dependencies requires blocked_by", code := "TEAM_INVALID_ARGUMENT" }
  | some blockedBy => (dependencies state (some current.id) [] blockedBy).map fun blockedBy =>
      { current with blockedBy }

/-- Releasing, completing and reopening differ in the status they need and the one they leave. -/
def transition (needed : TeamTaskStatus) (message : String)
    (next : TeamTaskSnapshot → TeamTaskSnapshot) (current : TeamTaskSnapshot) :
    Except TeamError TeamTaskSnapshot :=
  if current.status ≠ needed then .error (invalidTransition message) else .ok (next current)

def release : TeamTaskSnapshot → Except TeamError TeamTaskSnapshot :=
  transition .inProgress "only an in-progress task can be released" fun current =>
    withoutOwner { current with status := .pending }

def complete : TeamTaskSnapshot → Except TeamError TeamTaskSnapshot :=
  transition .inProgress "only an in-progress task can complete" fun current =>
    { current with status := .completed }

def reopen : TeamTaskSnapshot → Except TeamError TeamTaskSnapshot :=
  transition .completed "only a completed task can reopen" fun current =>
    withoutOwner { current with status := .pending }

def reassign (state : TeamFoldState Content) (membership : TeamMembership)
    (request : UpdateTeamTaskRequest) (current : TeamTaskSnapshot) :
    Except TeamError TeamTaskSnapshot :=
  if membership.role ≠ .lead then
    .error { message := "only the Team Lead can reassign tasks", code := "TEAM_LEAD_REQUIRED" }
  else if current.status ≠ .pending ∧ current.status ≠ .inProgress then
    .error (invalidTransition "only a pending or in-progress task can be reassigned")
  else
    match request.owner.filter fun owner => trim owner ≠ "" with
    | none => .ok (withoutOwner { current with status := .pending })
    | some owner =>
      if taskReady state current = false then
        .error { message := s!"team task \"{current.id}\" is blocked", code := "TEAM_TASK_BLOCKED" }
      else (resolveActiveMember membership.root state owner).map fun assignee =>
        { current with status := .inProgress, ownerId := some assignee.1 }

def delete (state : TeamFoldState Content) (current : TeamTaskSnapshot) :
    Except TeamError TeamTaskSnapshot :=
  match state.tasks.values.find? fun task =>
      task.status ≠ .deleted ∧ task.id ≠ current.id ∧ current.id ∈ task.blockedBy with
  | some dependent => .error {
      message := s!"team task \"{current.id}\" still blocks \"{dependent.id}\""
      code := "TEAM_TASK_HAS_DEPENDENTS" }
  | none => .ok { current with status := .deleted }

def act (state : TeamFoldState Content) (caller : SessionId) (membership : TeamMembership)
    (request : UpdateTeamTaskRequest) (current : TeamTaskSnapshot) :
    Except TeamError TeamTaskSnapshot :=
  let owned (next : Except TeamError TeamTaskSnapshot) := do
    authorizeOwner membership caller current
    next
  match request.action with
  | .claim => claim state caller current
  | .release => owned (release current)
  | .edit => owned (edit request current)
  | .setDependencies => owned (setDependencies state request current)
  | .complete => owned (complete current)
  | .reopen => owned (reopen current)
  | .reassign => reassign state membership request current
  | .delete => owned (delete state current)

def planUpdate (state : TeamFoldState Content) (caller : SessionId) (membership : TeamMembership)
    (request : UpdateTeamTaskRequest) : Except TeamError TeamTaskSnapshot :=
  match state.tasks.get? request.taskId with
  | none => .error {
      message := s!"team task \"{request.taskId}\" not found", code := "TEAM_TASK_NOT_FOUND" }
  | some current =>
    if current.revision ≠ request.expectedRevision then
      let revisions :=
        s!"revision {request.expectedRevision}; current revision is {current.revision}"
      .error {
        message := s!"stale team task \"{current.id}\" {revisions}"
        code := "TEAM_TASK_STALE_REVISION" }
    else if current.status = .deleted then
      .error { message := s!"team task \"{current.id}\" is deleted", code := "TEAM_TASK_DELETED" }
    else do
      let next ← act state caller membership request current
      let task := { next with revision := current.revision + 1 }
      checkTaskGraph state task
      return task

end TeamTaskBoard

inductive TeamFailure
  | team (error : TeamError)
  | thrown (message : String)
  deriving DecidableEq, Repr

structure Journaling where
  refused : Option String
  flushFailure : Option String
  deriving DecidableEq, Repr

abbrev LeadLog (Content Other : Type) := List (LogEvent Content Other)

def appendAndFlush (log : LeadLog Content Other) (rootId : SessionId) (record : TeamRecord Content)
    (journaling : Journaling) : Except TeamFailure Unit × LeadLog Content Other :=
  match journaling.refused with
  | some message => (.error (.thrown message), log)
  | none =>
    if log.length < maxArrayLength then
      let log := log ++ [.team { version := 1, teamId := rootId.val, record }]
      match journaling.flushFailure with
      | some message => (.error (.thrown message), log)
      | none => (.ok (), log)
    else (.error (.thrown "Invalid array length"), log)

def transactTask (log : LeadLog Content Other) (rootId : SessionId) (journaling : Journaling)
    (plan : TeamFoldState Content → Except TeamError TeamTaskSnapshot) :
    Except TeamFailure TeamTaskView × LeadLog Content Other :=
  match foldTeam rootId.val log with
  | .error message => (.error (.thrown message), log)
  | .ok state =>
    match plan state with
    | .error error => (.error (.team error), log)
    | .ok task =>
      match appendAndFlush log rootId (.task task) journaling with
      | (.error failure, log) => (.error failure, log)
      | (.ok (), log) => (.ok (taskView rootId state task), log)

inductive BoardOp (Content Other : Type)
  | create (role : TeamRole) (request : CreateTeamTaskRequest) (journaling : Journaling)
  | update (caller : SessionId) (role : TeamRole) (request : UpdateTeamTaskRequest)
      (journaling : Journaling)
  | append (event : LogEvent Content Other)

/-- One operation on the log of a Lead.  The roster, the mailbox and other domains append what
the fold accepts. -/
def BoardOp.step (maxTasks : Nat) (rootId : SessionId) (log : LeadLog Content Other) :
    BoardOp Content Other → LeadLog Content Other × Option (Except TeamFailure TeamTaskView)
  | .create _ request journaling =>
    let result :=
      transactTask log rootId journaling fun state => TeamTaskBoard.planCreate maxTasks state request
    (result.2, some result.1)
  | .update caller role request journaling =>
    let result := transactTask log rootId journaling fun state =>
      TeamTaskBoard.planUpdate state caller { root := rootId, role } request
    (result.2, some result.1)
  | .append event =>
    if log.length < maxArrayLength ∧ isOk (foldTeam rootId.val (log ++ [event])) = true then
      (log ++ [event], none)
    else (log, none)

end Harness.AgentTeam
