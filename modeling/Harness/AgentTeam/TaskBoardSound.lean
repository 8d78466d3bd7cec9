import Mathlib.Tactic
import Harness.AgentTeam.TaskBoard
import Harness.Foundation.Machine

namespace Harness.AgentTeam

open Harness.Foundation

variable {Content Other : Type}

def tasksOf (rootId : String) (log : LeadLog Content Other) : List TeamTaskSnapshot :=
  log.filterMap fun event =>
    match event with
    | .team { version := 1, teamId, record := .task task } =>
      if teamId = rootId then some task else none
    | _ => none

def revisionsOf (rootId : String) (log : LeadLog Content Other) (id : String) : List Nat :=
  ((tasksOf rootId log).filter fun task => task.id = id).map TeamTaskSnapshot.revision

def boardOf (tasks : List TeamTaskSnapshot) : TaskMap :=
  tasks.foldl (fun board task => board.set task.id task) .empty

theorem tasksOf_snoc (rootId : String) (log : LeadLog Content Other)
    (event : LogEvent Content Other) :
    tasksOf rootId (log ++ [event]) = tasksOf rootId log ++ tasksOf rootId [event] :=
  List.filterMap_append

theorem boardOf_snoc (tasks : List TeamTaskSnapshot) (task : TeamTaskSnapshot) :
    boardOf (tasks ++ [task]) = (boardOf tasks).set task.id task := by
  simp [boardOf]

structure Replayed (rootId : String) (log : LeadLog Content Other) (state : TeamFoldState Content) :
    Prop where
  id : state.id = rootId
  board : state.tasks = boardOf (tasksOf rootId log)
  keyed : Keyed state.tasks
  valid : ∀ id task, state.tasks.get? id = some task → validTask task = true
  blocked : WellBlocked state.tasks
  number : state.nextTaskNumber ≤ maxSafe
  named : ∀ id member, state.members.get? id = some member → member.id ≠ ""
  revisions : ∀ id, revisionsOf rootId log id =
    List.range' 1 (((state.tasks.get? id).map TeamTaskSnapshot.revision).getD 0)

theorem keyed_set {tasks : TaskMap} (h : Keyed tasks) (task : TeamTaskSnapshot) :
    Keyed (tasks.set task.id task) := by
  intro id found hfound
  rw [OrderedMap.get?_set] at hfound
  split at hfound
  · rename_i heq
    cases hfound
    exact heq.symm
  · exact h id found hfound

theorem advanceTaskNumber_le {current : Nat} {id : String} (hcurrent : current ≤ maxSafe)
    (hid : validTaskId id = true) : TeamFoldState.advanceTaskNumber current id ≤ maxSafe := by
  rw [TeamFoldState.advanceTaskNumber]
  rw [validTaskId, Bool.and_eq_true] at hid
  split
  · rename_i number hnumber
    have hle : number ≤ maxSafe := by simpa [hnumber] using hid.2
    split <;> omega
  · exact hcurrent

theorem applyTask_eq_ok {state next : TeamFoldState Content} {task : TeamTaskSnapshot} :
    state.applyTask task = .ok next ↔
      task.revision = ((state.tasks.get? task.id).map TeamTaskSnapshot.revision).getD 0 + 1 ∧
      assertTaskGraphCandidate state.tasks task = .ok () ∧
      next = { state with
        nextTaskNumber := TeamFoldState.advanceTaskNumber state.nextTaskNumber task.id
        tasks := state.tasks.set task.id task } := by
  rw [TeamFoldState.applyTask]
  cases hgraph : assertTaskGraphCandidate state.tasks task with
  | error error =>
    cases hprior : state.tasks.get? task.id with
    | none =>
      simp only [Except.mapError, Except.map]
      split <;> simp
    | some prior =>
      simp only [Except.mapError, Except.map]
      split <;> simp
  | ok =>
    cases hprior : state.tasks.get? task.id with
    | none =>
      simp only [Except.mapError, Except.map, Option.map_none, Option.getD_none]
      split
      · rename_i hne
        simp [hne]
      · rename_i heq
        simp only [not_not] at heq
        simp [heq, eq_comm]
    | some prior =>
      simp only [Except.mapError, Except.map, Option.map_some, Option.getD_some]
      split
      · rename_i hne
        simp [hne]
      · rename_i heq
        simp only [not_not] at heq
        simp [heq, eq_comm]

theorem applyTeamEvent_task {rootId : String} (hroot : rootId ≠ "")
    {state : TeamFoldState Content} (hid : state.id = rootId) {task : TeamTaskSnapshot}
    (hvalid : validTask task = true) :
    applyTeamEvent state (.team { version := 1, teamId := rootId, record := .task task } :
      LogEvent Content Other) = state.applyTask task := by
  have hselector : TeamEvent.validSelector
      ({ version := 1, teamId := rootId, record := .task task } : TeamEvent Content) = true := by
    simp [TeamEvent.validSelector, hroot, maxSafe]
  simp [applyTeamEvent, hselector, TeamRecord.valid, hvalid, hid, TeamFoldState.applyRecord]

theorem revisionsOf_snoc (rootId : String) (log : LeadLog Content Other)
    (event : LogEvent Content Other) (id : String) : revisionsOf rootId (log ++ [event]) id =
      revisionsOf rootId log id ++ revisionsOf rootId [event] id := by
  rw [revisionsOf, tasksOf_snoc, List.filter_append, List.map_append]
  rfl

theorem Replayed.snoc_other {rootId : String} {log : LeadLog Content Other}
    {state next : TeamFoldState Content} (h : Replayed rootId log state)
    {event : LogEvent Content Other} (hevent : tasksOf rootId [event] = []) (hid : next.id = state.id)
    (htasks : next.tasks = state.tasks) (hnumber : next.nextTaskNumber = state.nextTaskNumber)
    (hnamed : ∀ id member, next.members.get? id = some member → member.id ≠ "") :
    Replayed rootId (log ++ [event]) next where
  id := hid.trans h.id
  board := by rw [htasks, tasksOf_snoc, hevent, List.append_nil, h.board]
  keyed := htasks ▸ h.keyed
  valid := htasks ▸ h.valid
  blocked := htasks ▸ h.blocked
  number := hnumber ▸ h.number
  named := hnamed
  revisions id := by
    rw [revisionsOf_snoc, h.revisions, htasks]
    simp [revisionsOf, hevent]

theorem Replayed.snoc_task {rootId : String} {log : LeadLog Content Other}
    {state next : TeamFoldState Content} (h : Replayed rootId log state) {task : TeamTaskSnapshot}
    (hvalid : validTask task = true) (hstep : state.applyTask task = .ok next) :
    Replayed rootId (log ++ [.team { version := 1, teamId := rootId, record := .task task }])
      next := by
  obtain ⟨hrevision, hgraph, rfl⟩ := applyTask_eq_ok.mp hstep
  have hkeyed := keyed_set h.keyed task
  have htasks : tasksOf rootId [(.team { version := 1, teamId := rootId, record := .task task } :
      LogEvent Content Other)] = [task] := by
    simp [tasksOf]
  constructor
  · exact h.id
  · rw [tasksOf_snoc, htasks, boardOf_snoc, ← h.board]
  · exact hkeyed
  · intro id found hfound
    rw [OrderedMap.get?_set] at hfound
    split at hfound
    · cases hfound
      exact hvalid
    · exact h.valid id found hfound
  · exact (assertTaskGraph_ok_iff hkeyed).mp hgraph
  · apply advanceTaskNumber_le h.number
    simp only [validTask, Bool.and_eq_true] at hvalid
    exact hvalid.1.1.1.1
  · exact h.named
  · intro id
    rw [revisionsOf_snoc, h.revisions, OrderedMap.get?_set]
    by_cases hid : id = task.id
    · subst hid
      rw [revisionsOf, htasks, if_pos rfl]
      simp only [decide_true, List.filter_cons_of_pos, List.filter_nil, List.map_cons, List.map_nil,
        Option.map_some, Option.getD_some, hrevision]
      rw [List.range'_concat]
      simp [Nat.add_comm]
    · rw [if_neg hid, revisionsOf, htasks]
      simp [Ne.symm hid]

theorem tasksOf_version {rootId : String} {event : TeamEvent Content} (h : event.version ≠ 1) :
    tasksOf rootId [(.team event : LogEvent Content Other)] = [] := by
  obtain ⟨version, teamId, record⟩ := event
  simp only [tasksOf, List.filterMap_cons, List.filterMap_nil]
  split
  · rfl
  · rename_i task hmatch
    split at hmatch
    · rename_i heq
      cases heq
      exact absurd rfl h
    · cases hmatch

theorem tasksOf_foreign {rootId : String} {event : TeamEvent Content} (h : event.teamId ≠ rootId) :
    tasksOf rootId [(.team event : LogEvent Content Other)] = [] := by
  obtain ⟨version, teamId, record⟩ := event
  simp only [tasksOf, List.filterMap_cons, List.filterMap_nil]
  split
  · rfl
  · rename_i task hmatch
    split at hmatch
    · rename_i heq
      cases heq
      rw [if_neg h] at hmatch
      cases hmatch
    · cases hmatch

theorem tasksOf_record {rootId : String} {event : TeamEvent Content}
    (h : ∀ task, event.record ≠ .task task) :
    tasksOf rootId [(.team event : LogEvent Content Other)] = [] := by
  obtain ⟨version, teamId, record⟩ := event
  simp only [tasksOf, List.filterMap_cons, List.filterMap_nil]
  split
  · rfl
  · rename_i task hmatch
    split at hmatch
    · rename_i heq
      cases heq
      exact absurd rfl (h _)
    · cases hmatch

theorem applyMember_eq_ok {state next : TeamFoldState Content} {member : TeamMemberSnapshot}
    (h : state.applyMember member = .ok next) : next.id = state.id ∧ next.tasks = state.tasks ∧
      next.nextTaskNumber = state.nextTaskNumber ∧
      next.members = state.members.set member.id member := by
  rw [TeamFoldState.applyMember] at h
  simp only at h
  split at h
  · cases h
  · split at h
    · split at h
      · cases h
      · cases h
        exact ⟨rfl, rfl, rfl, rfl⟩
    · split at h
      · cases h
      · split at h
        · cases h
        · cases h
          exact ⟨rfl, rfl, rfl, rfl⟩

theorem Replayed.step {rootId : String} {log : LeadLog Content Other}
    {state next : TeamFoldState Content} {event : LogEvent Content Other}
    (h : Replayed rootId log state) (hstep : applyTeamEvent state event = .ok next) :
    Replayed rootId (log ++ [event]) next := by
  cases event with
  | other event =>
    cases hstep
    exact h.snoc_other rfl rfl rfl rfl h.named
  | team event =>
    rw [applyTeamEvent] at hstep
    split at hstep
    · cases hstep
    · split at hstep
      · rename_i hversion
        split at hstep
        · cases hstep
          exact h.snoc_other (tasksOf_version hversion) rfl rfl rfl h.named
        · cases hstep
      · rename_i hversion
        simp only [ne_eq, not_not] at hversion
        split at hstep
        · cases hstep
        · rename_i hvalid
          simp only [Bool.not_eq_true, Bool.not_eq_false'] at hvalid
          split at hstep
          · rename_i hforeign
            cases hstep
            exact h.snoc_other (tasksOf_foreign (h.id ▸ hforeign)) rfl rfl rfl h.named
          · rename_i hid
            simp only [ne_eq, not_not] at hid
            obtain ⟨version, teamId, record⟩ := event
            cases record with
            | member member =>
              obtain ⟨hsame, htasks, hnumber, hmembers⟩ := applyMember_eq_ok hstep
              refine h.snoc_other (tasksOf_record (by simp)) hsame htasks hnumber ?_
              intro id found hfound
              rw [hmembers, OrderedMap.get?_set] at hfound
              split at hfound
              · cases hfound
                simpa [TeamRecord.valid] using hvalid
              · exact h.named id found hfound
            | task task =>
              obtain rfl : version = 1 := hversion
              obtain rfl : teamId = rootId := hid.trans h.id
              exact h.snoc_task hvalid hstep
            | queued message =>
              change state.applyQueued message = .ok next at hstep
              rw [TeamFoldState.applyQueued] at hstep
              split at hstep
              · cases hstep
              · cases hstep
                exact h.snoc_other (tasksOf_record (by simp)) rfl rfl rfl h.named
            | delivered messageId targetId =>
              change state.applyDelivered messageId targetId = .ok next at hstep
              rw [TeamFoldState.applyDelivered] at hstep
              split at hstep
              · cases hstep
              · split at hstep
                · cases hstep
                · split at hstep
                  · cases hstep
                  · cases hstep
                    exact h.snoc_other (tasksOf_record (by simp)) rfl rfl rfl h.named

theorem wellBlocked_empty : WellBlocked (.empty : TaskMap) where
  nodup := nofun
  present := nofun
  acyclic := by
    apply acyclic_of_acc
    intro id
    exact acc_of_unknown rfl

theorem replayed_empty (rootId : String) :
    Replayed rootId ([] : LeadLog Content Other) (emptyTeamFoldState rootId) where
  id := rfl
  board := rfl
  keyed := nofun
  valid := nofun
  blocked := wellBlocked_empty
  number := by simp [emptyTeamFoldState, maxSafe]
  named := nofun
  revisions _ := rfl

theorem foldTeam_replayed {rootId : String} {log : LeadLog Content Other}
    {state : TeamFoldState Content} (h : foldTeam rootId log = .ok state) :
    Replayed rootId log state := by
  apply foldOk_invariant (fun (seen : LeadLog Content Other) (state : TeamFoldState Content) =>
    Replayed rootId seen state) _ h (replayed_empty rootId)
  intro seen state event next hseen hstep
  exact hseen.step hstep

theorem taskNumber?_task (n : Nat) : taskNumber? s!"task-{n}" = some n := by
  have hlist : (s!"task-{n}").toList = 't' :: 'a' :: 's' :: 'k' :: '-' :: Nat.toDigits 10 n := by
    simp [toString, Nat.repr]
  have hdigits : (Nat.toDigits 10 n).all Char.isDigit = true := by
    apply List.all_eq_true.mpr
    intro c hc
    exact Nat.isDigit_of_mem_toDigits (by decide) (by decide) hc
  rw [taskNumber?, hlist]
  simp only
  rw [if_pos ⟨Nat.toDigits_ne_nil, hdigits⟩, Nat.ofDigitChars_ten_toDigits]

theorem validTaskId_task {n : Nat} (h : n ≤ maxSafe) : validTaskId s!"task-{n}" = true := by
  rw [validTaskId, taskNumber?_task, Bool.and_eq_true]
  refine ⟨?_, by simpa using h⟩
  simp

theorem Replayed.valid_id {rootId : String} {log : LeadLog Content Other}
    {state : TeamFoldState Content} (h : Replayed rootId log state) {id : String}
    {task : TeamTaskSnapshot} (htask : state.tasks.get? id = some task) :
    validTaskId id = true := by
  have hvalid := h.valid id task htask
  simp only [validTask, Bool.and_eq_true] at hvalid
  rw [← h.keyed id task htask]
  exact hvalid.1.1.1.1

theorem dependencies_present {state : TeamFoldState Content} {self : Option String}
    {seen values result : List String} (h : dependencies state self seen values = .ok result) :
    ∀ id ∈ result, id ∈ seen ∨ ∃ task, state.tasks.get? id = some task := by
  induction values generalizing seen with
  | nil =>
    cases h
    intro id hid
    exact .inl hid
  | cons value values ih =>
    rw [dependencies] at h
    split at h
    · cases h
    · split at h
      · cases h
      · simp only at h
        split at h
        · cases h
        · rename_i task htask
          split at h
          · cases h
          · intro id hid
            rcases ih h id hid with hseen | hpresent
            · rcases List.mem_append.mp hseen with hseen | hnew
              · exact .inl hseen
              · rw [List.mem_singleton.mp hnew]
                exact .inr ⟨task, htask⟩
            · exact .inr hpresent

theorem checkTaskGraph_eq_ok {state : TeamFoldState Content} {candidate : TeamTaskSnapshot} :
    checkTaskGraph state candidate = .ok () ↔
      assertTaskGraphCandidate state.tasks candidate = .ok () := by
  rw [checkTaskGraph]
  cases assertTaskGraphCandidate state.tasks candidate <;> simp [Except.mapError]

theorem taskReady_iff {state : TeamFoldState Content} {task : TeamTaskSnapshot} :
    taskReady state task = true ↔ ∀ id ∈ task.blockedBy,
      ∃ blocker, state.tasks.get? id = some blocker ∧ blocker.status = .completed := by
  simp [taskReady, Option.any_eq_true]

namespace TeamTaskBoard

theorem planCreate_ok {maxTasks : Nat} {state : TeamFoldState Content}
    {request : CreateTeamTaskRequest} {task : TeamTaskSnapshot}
    (h : planCreate maxTasks state request = .ok task) :
    task.id = s!"task-{state.nextTaskNumber}" ∧ state.tasks.get? task.id = none ∧
      task.revision = 1 ∧ task.ownerId = none ∧
      (∀ id ∈ task.blockedBy, ∃ blocker, state.tasks.get? id = some blocker) ∧
      assertTaskGraphCandidate state.tasks task = .ok () := by
  rw [planCreate] at h
  simp only at h
  split at h
  · cases h
  · split at h
    · cases h
    · rename_i hfresh
      obtain ⟨subject, _, h⟩ := bind_eq_ok.mp h
      obtain ⟨description, _, h⟩ := bind_eq_ok.mp h
      obtain ⟨blockedBy, hblocked, h⟩ := bind_eq_ok.mp h
      obtain ⟨scopes, _, h⟩ := bind_eq_ok.mp h
      obtain ⟨_, hgraph, h⟩ := bind_eq_ok.mp h
      cases h
      refine ⟨rfl, ?_, rfl, rfl, ?_, checkTaskGraph_eq_ok.mp hgraph⟩
      · apply OrderedMap.get?_eq_none_of_notMem
        simpa [OrderedMap.has] using hfresh
      · intro id hid
        exact (dependencies_present hblocked id hid).resolve_left (by simp)

/-- What every action leaves: the identity of the task, its owner, its blockers and, where
somebody takes it over, the readiness checked first. -/
structure Acted (state : TeamFoldState Content) (current next : TeamTaskSnapshot) : Prop where
  id : next.id = current.id
  owner : ∀ ownerId, next.ownerId = some ownerId → current.ownerId = some ownerId ∨ ownerId ≠ ""
  blockers : ∀ id ∈ next.blockedBy,
    id ∈ current.blockedBy ∨ ∃ blocker, state.tasks.get? id = some blocker
  ready : next.status = .inProgress →
    current.status = .inProgress ∧ next.ownerId = current.ownerId ∨
      taskReady state current = true ∧ next.blockedBy = current.blockedBy

theorem owned_ok {membership : TeamMembership} {caller : SessionId} {current next : TeamTaskSnapshot}
    {plan : Except TeamError TeamTaskSnapshot}
    (h : (authorizeOwner membership caller current >>= fun _ => plan) = .ok next) :
    plan = .ok next := by
  obtain ⟨_, _, h⟩ := bind_eq_ok.mp h
  exact h

theorem transition_ok {needed : TeamTaskStatus} {message : String}
    {f : TeamTaskSnapshot → TeamTaskSnapshot} {current next : TeamTaskSnapshot}
    (h : transition needed message f current = .ok next) :
    current.status = needed ∧ next = f current := by
  rw [transition] at h
  split at h
  · cases h
  · rename_i hstatus
    cases h
    exact ⟨by simpa using hstatus, rfl⟩

theorem edit_ok {request : UpdateTeamTaskRequest} {current next : TeamTaskSnapshot}
    (h : edit request current = .ok next) : ∃ subject description scopes,
      next = { current with
        subject := subject, description := description, writeScopes := scopes } := by
  rw [edit] at h
  simp only at h
  split at h
  · cases h
  · obtain ⟨subject, _, h⟩ := bind_eq_ok.mp h
    obtain ⟨description, _, h⟩ := bind_eq_ok.mp h
    obtain ⟨scopes, _, h⟩ := bind_eq_ok.mp h
    cases h
    exact ⟨subject, description, scopes, rfl⟩

theorem resolveActiveMember_ok {root : SessionId} {state : TeamFoldState Content} {name : String}
    {assignee : String × String} (hnamed : ∀ id member, state.members.get? id = some member →
      member.id ≠ "") (h : resolveActiveMember root state name = .ok assignee) :
    assignee.1 ≠ "" := by
  rw [resolveActiveMember] at h
  split at h
  · cases h
    exact root.property
  · split at h
    · rename_i member hmember
      obtain ⟨id, _, hfound⟩ := Option.bind_eq_some_iff.mp hmember
      split at h
      · cases h
        exact hnamed id member hfound
      · cases h
    · cases h

theorem act_ok {state : TeamFoldState Content} {caller : SessionId} {membership : TeamMembership}
    {request : UpdateTeamTaskRequest} {current next : TeamTaskSnapshot}
    (hnamed : ∀ id member, state.members.get? id = some member → member.id ≠ "")
    (h : act state caller membership request current = .ok next) : Acted state current next := by
  rw [act] at h
  simp only at h
  split at h
  case h_1 =>
    rw [claim] at h
    split at h
    · cases h
    · split at h
      · cases h
      · rename_i hready
        cases h
        simp only [ne_eq, not_or, not_not, Bool.not_eq_false] at hready
        refine ⟨rfl, ?_, fun id hid => .inl hid, fun _ => .inr ⟨hready.2, rfl⟩⟩
        intro ownerId howner
        cases howner
        exact .inr caller.property
  case h_2 =>
    obtain ⟨_, rfl⟩ := transition_ok (owned_ok h)
    exact ⟨rfl, nofun, fun id hid => .inl hid, nofun⟩
  case h_3 =>
    obtain ⟨subject, description, scopes, rfl⟩ := edit_ok (owned_ok h)
    exact ⟨rfl, fun _ howner => .inl howner, fun id hid => .inl hid,
      fun hstatus => .inl ⟨hstatus, rfl⟩⟩
  case h_4 =>
    have hset := owned_ok h
    rw [setDependencies] at hset
    split at hset
    · cases hset
    · rename_i blockedBy _
      cases hdependencies : dependencies state (some current.id) [] blockedBy with
      | error error =>
        rw [hdependencies] at hset
        cases hset
      | ok result =>
        rw [hdependencies] at hset
        cases hset
        exact ⟨rfl, fun _ howner => .inl howner,
          fun id hid => .inr ((dependencies_present hdependencies id hid).resolve_left (by simp)),
          fun hstatus => .inl ⟨hstatus, rfl⟩⟩
  case h_5 =>
    obtain ⟨_, rfl⟩ := transition_ok (owned_ok h)
    exact ⟨rfl, fun _ howner => .inl howner, fun id hid => .inl hid, nofun⟩
  case h_6 =>
    obtain ⟨_, rfl⟩ := transition_ok (owned_ok h)
    exact ⟨rfl, nofun, fun id hid => .inl hid, nofun⟩
  case h_7 =>
    rw [reassign] at h
    split at h
    · cases h
    · split at h
      · cases h
      · split at h
        · cases h
          exact ⟨rfl, nofun, fun id hid => .inl hid, nofun⟩
        · rename_i owner _
          split at h
          · cases h
          · rename_i hready
            cases hresolve : resolveActiveMember membership.root state owner with
            | error error =>
              rw [hresolve] at h
              cases h
            | ok assignee =>
              rw [hresolve] at h
              cases h
              refine ⟨rfl, ?_, fun id hid => .inl hid,
                fun _ => .inr ⟨by simpa using hready, rfl⟩⟩
              intro ownerId howner
              cases howner
              exact .inr (resolveActiveMember_ok hnamed hresolve)
  case h_8 =>
    have hdelete := owned_ok h
    rw [delete] at hdelete
    split at hdelete
    · cases hdelete
    · cases hdelete
      exact ⟨rfl, fun _ howner => .inl howner, fun id hid => .inl hid, nofun⟩

theorem planUpdate_ok {state : TeamFoldState Content} {caller : SessionId}
    {membership : TeamMembership} {request : UpdateTeamTaskRequest} {task : TeamTaskSnapshot}
    (hnamed : ∀ id member, state.members.get? id = some member → member.id ≠ "")
    (h : planUpdate state caller membership request = .ok task) :
    ∃ current next, state.tasks.get? request.taskId = some current ∧
      current.revision = request.expectedRevision ∧ Acted state current next ∧
      task = { next with revision := current.revision + 1 } ∧
      assertTaskGraphCandidate state.tasks task = .ok () := by
  rw [planUpdate] at h
  split at h
  · cases h
  · rename_i current hcurrent
    split at h
    · cases h
    · rename_i hrevision
      split at h
      · cases h
      · obtain ⟨next, hnext, h⟩ := bind_eq_ok.mp h
        obtain ⟨_, hgraph, h⟩ := bind_eq_ok.mp h
        cases h
        exact ⟨current, next, hcurrent, by simpa using hrevision, act_ok hnamed hnext, rfl,
          checkTaskGraph_eq_ok.mp hgraph⟩

end TeamTaskBoard

theorem Replayed.revision_le {rootId : String} {log : LeadLog Content Other}
    {state : TeamFoldState Content} (h : Replayed rootId log state) (id : String) :
    ((state.tasks.get? id).map TeamTaskSnapshot.revision).getD 0 ≤ log.length := by
  have hlength := congrArg List.length (h.revisions id)
  rw [List.length_range'] at hlength
  rw [← hlength, revisionsOf, List.length_map]
  exact (List.length_filter_le _ _).trans (List.length_filterMap_le _ _)

theorem validTask_iff {task : TeamTaskSnapshot} : validTask task = true ↔
    validTaskId task.id = true ∧ 1 ≤ task.revision ∧ task.revision ≤ maxSafe ∧
      (∀ ownerId, task.ownerId = some ownerId → ownerId ≠ "") ∧
      ∀ id ∈ task.blockedBy, validTaskId id = true := by
  simp only [validTask, Bool.and_eq_true, decide_eq_true_eq, Option.all_eq_true, List.all_eq_true,
    and_assoc]

def taskEvent (rootId : SessionId) (task : TeamTaskSnapshot) : LogEvent Content Other :=
  .team { version := 1, teamId := rootId.val, record := .task task }

theorem appendAndFlush_cases (log : LeadLog Content Other) (rootId : SessionId)
    (journaling : Journaling) (record : TeamRecord Content) :
    (∃ failure, appendAndFlush log rootId record journaling = (.error failure, log)) ∨
      log.length < maxArrayLength ∧ (appendAndFlush log rootId record journaling).2 =
        log ++ [.team { version := 1, teamId := rootId.val, record }] := by
  rw [appendAndFlush]
  cases journaling.refused with
  | some message => exact .inl ⟨_, rfl⟩
  | none =>
    by_cases hlength : log.length < maxArrayLength
    · right
      simp only [if_pos hlength]
      cases journaling.flushFailure with
      | some message => exact ⟨hlength, rfl⟩
      | none => exact ⟨hlength, rfl⟩
    · simp only [if_neg hlength]
      exact .inl ⟨_, rfl⟩

theorem transactTask_cases (log : LeadLog Content Other) (rootId : SessionId)
    (journaling : Journaling) (plan : TeamFoldState Content → Except TeamError TeamTaskSnapshot) :
    (∃ failure, transactTask log rootId journaling plan = (.error failure, log)) ∨
      ∃ state task, foldTeam rootId.val log = .ok state ∧ plan state = .ok task ∧
        log.length < maxArrayLength ∧
        (transactTask log rootId journaling plan).2 = log ++ [taskEvent rootId task] ∧
        ∀ view, (transactTask log rootId journaling plan).1 = .ok view →
          view = taskView rootId state task := by
  rw [transactTask]
  cases hfold : foldTeam rootId.val log with
  | error message => exact .inl ⟨_, rfl⟩
  | ok state =>
    simp only
    cases hplan : plan state with
    | error error => exact .inl ⟨_, rfl⟩
    | ok task =>
      rcases appendAndFlush_cases log rootId journaling (.task task) with
        ⟨failure, hrefused⟩ | ⟨hlength, hkept⟩
      · simp only [hrefused]
        exact .inl ⟨_, rfl⟩
      · right
        refine ⟨state, task, rfl, hplan, hlength, ?_⟩
        simp only
        cases hresult : appendAndFlush log rootId (.task task) journaling with
        | mk result kept =>
          rw [hresult] at hkept
          cases result with
          | error failure => exact ⟨hkept, nofun⟩
          | ok =>
            refine ⟨hkept, ?_⟩
            intro view hview
            cases hview
            rfl

theorem Replayed.accepts {rootId : SessionId} {log : LeadLog Content Other}
    {state : TeamFoldState Content} (h : Replayed rootId.val log state)
    (hfold : foldTeam rootId.val log = .ok state) (hlength : log.length < maxArrayLength)
    {task : TeamTaskSnapshot} (hid : validTaskId task.id = true)
    (hrevision : task.revision =
      ((state.tasks.get? task.id).map TeamTaskSnapshot.revision).getD 0 + 1)
    (howner : ∀ ownerId, task.ownerId = some ownerId → ownerId ≠ "")
    (hblockers : ∀ id ∈ task.blockedBy, ∃ blocker, state.tasks.get? id = some blocker)
    (hgraph : assertTaskGraphCandidate state.tasks task = .ok ()) :
    ∃ next, foldTeam rootId.val (log ++ [taskEvent rootId task]) = .ok next := by
  have hle := h.revision_le task.id
  have hvalid : validTask task = true := by
    apply validTask_iff.mpr
    refine ⟨hid, by omega, ?_, howner, ?_⟩
    · have : maxArrayLength ≤ maxSafe := by decide
      omega
    · intro id hmem
      obtain ⟨blocker, hblocker⟩ := hblockers id hmem
      exact h.valid_id hblocker
  have hfolded : foldTeam rootId.val (log ++ [taskEvent rootId task]) = state.applyTask task := by
    rw [foldTeam, foldOk_snoc]
    change foldTeam rootId.val log >>= _ = _
    rw [hfold, ok_bind, taskEvent, applyTeamEvent_task rootId.property h.id hvalid]
  exact ⟨_, hfolded.trans (applyTask_eq_ok.mpr ⟨hrevision, hgraph, rfl⟩)⟩

theorem planCreate_accepted {maxTasks : Nat} {rootId : SessionId} {log : LeadLog Content Other}
    {state : TeamFoldState Content} (hfold : foldTeam rootId.val log = .ok state)
    (hlength : log.length < maxArrayLength) {request : CreateTeamTaskRequest}
    {task : TeamTaskSnapshot} (h : TeamTaskBoard.planCreate maxTasks state request = .ok task) :
    ∃ next, foldTeam rootId.val (log ++ [taskEvent rootId task]) = .ok next := by
  have hreplayed := foldTeam_replayed hfold
  obtain ⟨hid, hfresh, hrevision, howner, hblockers, hgraph⟩ := TeamTaskBoard.planCreate_ok h
  apply hreplayed.accepts hfold hlength _ _ _ hblockers hgraph
  · rw [hid]
    exact validTaskId_task hreplayed.number
  · rw [hfresh, hrevision]
    rfl
  · rw [howner]
    nofun

theorem planUpdate_accepted {rootId : SessionId} {log : LeadLog Content Other}
    {state : TeamFoldState Content} (hfold : foldTeam rootId.val log = .ok state)
    (hlength : log.length < maxArrayLength) {caller : SessionId} {membership : TeamMembership}
    {request : UpdateTeamTaskRequest} {task : TeamTaskSnapshot}
    (h : TeamTaskBoard.planUpdate state caller membership request = .ok task) :
    ∃ next, foldTeam rootId.val (log ++ [taskEvent rootId task]) = .ok next := by
  have hreplayed := foldTeam_replayed hfold
  obtain ⟨current, next, hcurrent, _, hacted, rfl, hgraph⟩ :=
    TeamTaskBoard.planUpdate_ok hreplayed.named h
  have hkey : next.id = request.taskId := hacted.id.trans (hreplayed.keyed _ _ hcurrent)
  have hvalid := validTask_iff.mp (hreplayed.valid _ _ hcurrent)
  apply hreplayed.accepts hfold hlength _ _ _ _ hgraph
  · change validTaskId next.id = true
    rw [hacted.id]
    exact hvalid.1
  · change current.revision + 1 = ((state.tasks.get? next.id).map _).getD 0 + 1
    rw [hkey, hcurrent]
    rfl
  · intro ownerId howner
    rcases hacted.owner ownerId howner with hsame | hne
    · exact hvalid.2.2.2.1 ownerId hsame
    · exact hne
  · intro id hmem
    rcases hacted.blockers id hmem with hsame | hpresent
    · have hactive : current.status ≠ .deleted := by
        intro hdeleted
        rw [TeamTaskBoard.planUpdate, hcurrent] at h
        simp only [hdeleted, if_true] at h
        split at h <;> cases h
      obtain ⟨_, blocker, hblocker, _⟩ := hreplayed.blocked.present _ _ hcurrent hactive id hsame
      exact ⟨blocker, hblocker⟩
    · exact hpresent

def boardLog (maxTasks : Nat) (rootId : SessionId) (ops : List (BoardOp Content Other)) :
    LeadLog Content Other :=
  (transcript (BoardOp.step maxTasks rootId) [] ops).1

theorem step_accepted {maxTasks : Nat} {rootId : SessionId} {log : LeadLog Content Other}
    (op : BoardOp Content Other) (h : ∃ state, foldTeam rootId.val log = .ok state) :
    ∃ state, foldTeam rootId.val (op.step maxTasks rootId log).1 = .ok state := by
  cases op with
  | create role request journaling =>
    rcases transactTask_cases log rootId journaling fun state =>
      TeamTaskBoard.planCreate maxTasks state request with
      ⟨failure, hsame⟩ | ⟨state, task, hfold, hplan, hlength, hlog, _⟩
    · simp only [BoardOp.step, hsame]
      exact h
    · simp only [BoardOp.step, hlog]
      exact planCreate_accepted hfold hlength hplan
  | update caller role request journaling =>
    rcases transactTask_cases log rootId journaling fun state =>
      TeamTaskBoard.planUpdate state caller { root := rootId, role } request with
      ⟨failure, hsame⟩ | ⟨state, task, hfold, hplan, hlength, hlog, _⟩
    · simp only [BoardOp.step, hsame]
      exact h
    · simp only [BoardOp.step, hlog]
      exact planUpdate_accepted hfold hlength hplan
  | append event =>
    rw [BoardOp.step]
    split
    · rename_i haccepted
      exact isOk_iff.mp haccepted.2
    · exact h

theorem boardLog_accepted (maxTasks : Nat) (rootId : SessionId)
    (ops : List (BoardOp Content Other)) :
    ∃ state, foldTeam rootId.val (boardLog maxTasks rootId ops) = .ok state :=
  transcript_invariant (fun log : LeadLog Content Other =>
      ∃ state, foldTeam rootId.val log = .ok state)
    (fun _ op h => step_accepted op h) ops ⟨_, rfl⟩

def Written (rootId : SessionId) (before after : LeadLog Content Other) (task : TeamTaskSnapshot) :
    Prop :=
  after = before ++ [taskEvent rootId task]

theorem written_unique {rootId : SessionId} {log : LeadLog Content Other}
    {task task' : TeamTaskSnapshot}
    (h : Written rootId log (log ++ [taskEvent rootId task]) task') : task' = task := by
  have heq := List.append_cancel_left h
  cases heq
  rfl

def Taken (prior : Option TeamTaskSnapshot) (task : TeamTaskSnapshot) : Prop :=
  task.status = .inProgress ∧
    ∀ current, prior = some current → ¬ (current.status = .inProgress ∧
      task.ownerId = current.ownerId)

theorem update_written {maxTasks : Nat} {rootId caller : SessionId} {role : TeamRole}
    {log : LeadLog Content Other} {state : TeamFoldState Content}
    (hfold : foldTeam rootId.val log = .ok state) {request : UpdateTeamTaskRequest}
    {journaling : Journaling} {task : TeamTaskSnapshot}
    (h : Written rootId log
      (BoardOp.step maxTasks rootId log (.update caller role request journaling)).1 task) :
    ∃ current, state.tasks.get? task.id = some current ∧
      current.revision = request.expectedRevision ∧ task.revision = current.revision + 1 ∧
      (Taken (some current) task → ∀ id ∈ task.blockedBy, ∃ blocker,
        state.tasks.get? id = some blocker ∧ blocker.status = .completed) := by
  rcases transactTask_cases log rootId journaling fun state =>
    TeamTaskBoard.planUpdate state caller { root := rootId, role } request with
    ⟨failure, hsame⟩ | ⟨state', task', hfold', hplan, _, hlog, _⟩
  · simp only [BoardOp.step, hsame] at h
    have := congrArg List.length h
    simp at this
  · simp only [BoardOp.step, hlog] at h
    obtain rfl := written_unique h
    rw [hfold] at hfold'
    obtain rfl := Except.ok.inj hfold'
    have hreplayed := foldTeam_replayed hfold
    obtain ⟨current, next, hcurrent, hexpected, hacted, rfl, _⟩ :=
      TeamTaskBoard.planUpdate_ok hreplayed.named hplan
    have hkey : next.id = request.taskId := hacted.id.trans (hreplayed.keyed _ _ hcurrent)
    refine ⟨current, by rw [hkey]; exact hcurrent, hexpected, rfl, ?_⟩
    rintro ⟨hstatus, hnew⟩ id hmem
    rcases hacted.ready hstatus with ⟨hheld, howner⟩ | ⟨hready, hsame⟩
    · exact absurd ⟨hheld, howner⟩ (hnew current rfl)
    · change id ∈ next.blockedBy at hmem
      rw [hsame] at hmem
      exact taskReady_iff.mp hready id hmem

theorem update_stale {maxTasks : Nat} {rootId caller : SessionId} {role : TeamRole}
    {log : LeadLog Content Other} {state : TeamFoldState Content}
    (hfold : foldTeam rootId.val log = .ok state) {request : UpdateTeamTaskRequest}
    {journaling : Journaling} {current : TeamTaskSnapshot}
    (hcurrent : state.tasks.get? request.taskId = some current)
    (hstale : current.revision ≠ request.expectedRevision) :
    ∃ failure, BoardOp.step maxTasks rootId log (.update caller role request journaling) =
      (log, some (.error failure)) := by
  rcases transactTask_cases log rootId journaling fun state =>
    TeamTaskBoard.planUpdate state caller { root := rootId, role } request with
    ⟨failure, hsame⟩ | ⟨state', task', hfold', hplan, _, hlog, _⟩
  · exact ⟨failure, by simp only [BoardOp.step, hsame]⟩
  · rw [hfold] at hfold'
    obtain rfl := Except.ok.inj hfold'
    obtain ⟨found, _, hfound, hexpected, _⟩ :=
      TeamTaskBoard.planUpdate_ok (foldTeam_replayed hfold).named hplan
    rw [hcurrent] at hfound
    cases hfound
    exact absurd hexpected hstale

theorem create_fresh {maxTasks : Nat} {rootId : SessionId} {role : TeamRole}
    {log : LeadLog Content Other} {state : TeamFoldState Content}
    (hfold : foldTeam rootId.val log = .ok state) {request : CreateTeamTaskRequest}
    {journaling : Journaling} {task : TeamTaskSnapshot}
    (h : Written rootId log
      (BoardOp.step maxTasks rootId log (.create role request journaling)).1 task) :
    ∀ earlier ∈ tasksOf rootId.val log, earlier.id ≠ task.id := by
  rcases transactTask_cases log rootId journaling fun state =>
    TeamTaskBoard.planCreate maxTasks state request with
    ⟨failure, hsame⟩ | ⟨state', task', hfold', hplan, _, hlog, _⟩
  · simp only [BoardOp.step, hsame] at h
    have := congrArg List.length h
    simp at this
  · simp only [BoardOp.step, hlog] at h
    obtain rfl := written_unique h
    rw [hfold] at hfold'
    obtain rfl := Except.ok.inj hfold'
    obtain ⟨_, hfresh, _⟩ := TeamTaskBoard.planCreate_ok hplan
    intro earlier hearlier hid
    have hrevisions := (foldTeam_replayed hfold).revisions task.id
    rw [hfresh] at hrevisions
    have hnone : (tasksOf rootId.val log).filter (fun task' => task'.id = task.id) = [] := by
      simpa [revisionsOf] using hrevisions
    exact List.filter_eq_nil_iff.mp hnone earlier hearlier (by simpa using hid)

theorem board_follows_log (maxTasks : Nat) (rootId : SessionId)
    (ops : List (BoardOp Content Other)) :
    ∃ state, foldTeam rootId.val (boardLog maxTasks rootId ops) = .ok state ∧
      state.tasks = boardOf (tasksOf rootId.val (boardLog maxTasks rootId ops)) ∧
      WellBlocked state.tasks ∧
      (∀ id, ∃ n, revisionsOf rootId.val (boardLog maxTasks rootId ops) id = List.range' 1 n) ∧
      (∀ role request journaling task, Written rootId (boardLog maxTasks rootId ops)
        (BoardOp.step maxTasks rootId (boardLog maxTasks rootId ops)
          (.create role request journaling)).1 task →
        ∀ earlier ∈ tasksOf rootId.val (boardLog maxTasks rootId ops), earlier.id ≠ task.id) ∧
      (∀ caller role request journaling current, state.tasks.get? request.taskId = some current →
        current.revision ≠ request.expectedRevision →
        ∃ failure, BoardOp.step maxTasks rootId (boardLog maxTasks rootId ops)
          (.update caller role request journaling) =
            (boardLog maxTasks rootId ops, some (.error failure))) ∧
      ∀ caller role request journaling task, Written rootId (boardLog maxTasks rootId ops)
        (BoardOp.step maxTasks rootId (boardLog maxTasks rootId ops)
          (.update caller role request journaling)).1 task →
        ∃ current, state.tasks.get? task.id = some current ∧
          current.revision = request.expectedRevision ∧ task.revision = current.revision + 1 ∧
          (Taken (some current) task → ∀ id ∈ task.blockedBy, ∃ blocker,
            state.tasks.get? id = some blocker ∧ blocker.status = .completed) := by
  obtain ⟨state, hfold⟩ := boardLog_accepted maxTasks rootId ops
  have hreplayed := foldTeam_replayed hfold
  refine ⟨state, hfold, hreplayed.board, hreplayed.blocked, ?_, ?_, ?_, ?_⟩
  · intro id
    exact ⟨_, hreplayed.revisions id⟩
  · intro role request journaling task hwritten
    exact create_fresh hfold hwritten
  · intro caller role request journaling current hcurrent hstale
    exact update_stale hfold hcurrent hstale
  · intro caller role request journaling task hwritten
    exact update_written hfold hwritten

end Harness.AgentTeam
