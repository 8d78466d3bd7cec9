import Harness.Foundation.DepthFirst
import Harness.Foundation.Except
import Harness.Foundation.OrderedMap

namespace Harness.AgentTeam

open Harness.Foundation

inductive TeamTaskStatus
  | pending | inProgress | completed | deleted
  deriving DecidableEq, Repr

structure TeamTaskSnapshot where
  id : String
  revision : Nat
  subject : String
  description : String
  status : TeamTaskStatus
  ownerId : Option String
  blockedBy : List String
  writeScopes : List String
  deriving DecidableEq, Repr

abbrev TaskMap := OrderedMap String TeamTaskSnapshot

inductive TeamTaskGraphViolation
  | missing | duplicate | cycle
  deriving DecidableEq, Repr

structure TeamTaskGraphError where
  message : String
  violation : TeamTaskGraphViolation
  deriving DecidableEq, Repr

/-- The blockers a task names from some point on; `seen` are those before it. -/
def assertBlockers (tasks : TaskMap) (task : TeamTaskSnapshot) :
    List String → List String → Except TeamTaskGraphError Unit
  | _, [] => .ok ()
  | seen, blockerId :: rest =>
    if blockerId = task.id then
      .error { message := s!"team task \"{task.id}\" cannot block itself", violation := .cycle }
    else if blockerId ∈ seen then
      .error {
        message := s!"team task \"{task.id}\" repeats blocker \"{blockerId}\""
        violation := .duplicate }
    else
      let missing : TeamTaskGraphError := {
        message := s!"blocker task \"{blockerId}\" for \"{task.id}\" is missing or deleted"
        violation := .missing }
      match tasks.get? blockerId with
      | none => .error missing
      | some blocker =>
        if blocker.status = .deleted then .error missing
        else assertBlockers tasks task (blockerId :: seen) rest

def assertTaskBlockers (tasks : TaskMap) (task : TeamTaskSnapshot) :
    Except TeamTaskGraphError Unit :=
  if task.status = .deleted then .ok () else assertBlockers tasks task [] task.blockedBy

def activeBlockers (tasks : TaskMap) (id : String) : Option (List String) :=
  match tasks.get? id with
  | none => none
  | some task => if task.status = .deleted then none else some task.blockedBy

def assertTaskGraph (tasks : TaskMap) : Except TeamTaskGraphError Unit := do
  forM tasks.values (assertTaskBlockers tasks)
  match visitAll (activeBlockers tasks) (tasks.values.map TeamTaskSnapshot.id) with
  | .ok _ => return ()
  | .error id =>
    .error { message := s!"task dependency cycle includes \"{id}\"", violation := .cycle }

def assertTaskGraphCandidate (current : TaskMap) (candidate : TeamTaskSnapshot) :
    Except TeamTaskGraphError Unit :=
  assertTaskGraph (current.set candidate.id candidate)

def Keyed (tasks : TaskMap) : Prop := ∀ id task, tasks.get? id = some task → task.id = id

/-- Active tasks name each blocker once, every blocker is another active task, and no task waits
for itself along any path. -/
structure WellBlocked (tasks : TaskMap) : Prop where
  nodup : ∀ id task, tasks.get? id = some task → task.status ≠ .deleted → task.blockedBy.Nodup
  present : ∀ id task, tasks.get? id = some task → task.status ≠ .deleted →
    ∀ blockerId ∈ task.blockedBy, blockerId ≠ id ∧
      ∃ blocker, tasks.get? blockerId = some blocker ∧ blocker.status ≠ .deleted
  acyclic : Acyclic (activeBlockers tasks)

theorem assertBlockers_ok_iff {tasks : TaskMap} {task : TeamTaskSnapshot}
    {seen blockers : List String} : assertBlockers tasks task seen blockers = .ok () ↔
      (∀ id ∈ blockers, id ≠ task.id ∧ id ∉ seen ∧
        ∃ blocker, tasks.get? id = some blocker ∧ blocker.status ≠ .deleted) ∧ blockers.Nodup := by
  induction blockers generalizing seen with
  | nil => simp [assertBlockers]
  | cons blockerId rest ih =>
    rw [assertBlockers]
    constructor
    · intro h
      split at h
      · cases h
      · rename_i hself
        split at h
        · cases h
        · rename_i hfresh
          simp only at h
          split at h
          · cases h
          · rename_i blocker hblocker
            split at h
            · cases h
            · rename_i hactive
              obtain ⟨hall, hnodup⟩ := ih.mp h
              refine ⟨?_, List.nodup_cons.mpr ⟨?_, hnodup⟩⟩
              · intro id hid
                rcases List.mem_cons.mp hid with rfl | hid
                · exact ⟨hself, hfresh, blocker, hblocker, hactive⟩
                · obtain ⟨hne, hseen, hpresent⟩ := hall id hid
                  exact ⟨hne, fun hbad => hseen (List.mem_cons_of_mem _ hbad), hpresent⟩
              · intro hmem
                exact (hall blockerId hmem).2.1 List.mem_cons_self
    · rintro ⟨hall, hnodup⟩
      obtain ⟨hself, hfresh, blocker, hblocker, hactive⟩ := hall blockerId List.mem_cons_self
      rw [List.nodup_cons] at hnodup
      simp only [hself, hfresh, hblocker, hactive, if_false]
      apply ih.mpr
      refine ⟨?_, hnodup.2⟩
      intro id hid
      obtain ⟨hne, hseen, hpresent⟩ := hall id (List.mem_cons_of_mem _ hid)
      refine ⟨hne, ?_, hpresent⟩
      intro hbad
      rcases List.mem_cons.mp hbad with rfl | hbad
      · exact hnodup.1 hid
      · exact hseen hbad

theorem assertTaskBlockers_ok_iff {tasks : TaskMap} {task : TeamTaskSnapshot} :
    assertTaskBlockers tasks task = .ok () ↔ (task.status ≠ .deleted → task.blockedBy.Nodup ∧
      ∀ id ∈ task.blockedBy, id ≠ task.id ∧
        ∃ blocker, tasks.get? id = some blocker ∧ blocker.status ≠ .deleted) := by
  rw [assertTaskBlockers]
  split
  case isTrue hdeleted => simp [hdeleted]
  case isFalse hactive =>
    rw [assertBlockers_ok_iff]
    simp only [List.not_mem_nil, not_false_eq_true, true_and, ne_eq, hactive, forall_const]
    exact and_comm

theorem mem_values_iff {tasks : TaskMap} {task : TeamTaskSnapshot} :
    task ∈ tasks.values ↔ ∃ id, tasks.get? id = some task := by
  constructor
  · intro h
    obtain ⟨⟨id, value⟩, hmem, rfl⟩ := List.mem_map.mp h
    exact ⟨id, OrderedMap.mem_entries_iff.mp hmem⟩
  · rintro ⟨id, h⟩
    exact List.mem_map.mpr ⟨_, OrderedMap.mem_entries_iff.mpr h, rfl⟩

theorem assertTaskGraph_ok_iff {tasks : TaskMap} (hkeyed : Keyed tasks) :
    assertTaskGraph tasks = .ok () ↔ WellBlocked tasks := by
  have hnodes : ∀ id, activeBlockers tasks id ≠ none →
      id ∈ tasks.values.map TeamTaskSnapshot.id := by
    intro id h
    cases htask : tasks.get? id with
    | none =>
      rw [activeBlockers, htask] at h
      exact absurd rfl h
    | some task =>
      rw [← hkeyed id task htask]
      exact List.mem_map_of_mem (mem_values_iff.mpr ⟨id, htask⟩)
  have hblockers : forM tasks.values (assertTaskBlockers tasks) = .ok () ↔
      ∀ id task, tasks.get? id = some task → task.status ≠ .deleted → task.blockedBy.Nodup ∧
        ∀ blockerId ∈ task.blockedBy, blockerId ≠ id ∧
          ∃ blocker, tasks.get? blockerId = some blocker ∧ blocker.status ≠ .deleted := by
    rw [forM_eq_ok]
    constructor
    · intro h id task htask
      have := assertTaskBlockers_ok_iff.mp (h task (mem_values_iff.mpr ⟨id, htask⟩))
      rw [hkeyed id task htask] at this
      exact this
    · intro h task hmem
      obtain ⟨id, htask⟩ := mem_values_iff.mp hmem
      apply assertTaskBlockers_ok_iff.mpr
      rw [hkeyed id task htask]
      exact h id task htask
  have hcycle := visitAll_ok_iff hnodes
  constructor
  · intro h
    rw [assertTaskGraph] at h
    cases hfirst : forM tasks.values (assertTaskBlockers tasks) with
    | error error =>
      rw [hfirst] at h
      cases h
    | ok =>
      rw [hfirst] at h
      have hall := hblockers.mp hfirst
      refine ⟨fun id task ht hs => (hall id task ht hs).1,
        fun id task ht hs => (hall id task ht hs).2, hcycle.mp ?_⟩
      cases hvisit : visitAll (activeBlockers tasks) (tasks.values.map TeamTaskSnapshot.id) with
      | ok visited => exact ⟨visited, rfl⟩
      | error id =>
        rw [hvisit] at h
        cases h
  · intro h
    obtain ⟨visited, hvisit⟩ := hcycle.mpr h.acyclic
    have hfirst := hblockers.mpr fun id task ht hs => ⟨h.nodup id task ht hs, h.present id task ht hs⟩
    rw [assertTaskGraph, hfirst, hvisit]
    rfl

end Harness.AgentTeam
