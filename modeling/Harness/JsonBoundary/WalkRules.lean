import Harness.JsonBoundary.Lossless
import Mathlib.Data.List.Forall2

namespace Harness.JsonBoundary

open Harness.Foundation Relation

section Runs

variable {graph : Graph} {detach : Bool} {walk next : Walk} {result : WalkResult}

def Takes (graph : Graph) (detach : Bool) (walk next : Walk) : Prop :=
  ∃ task tasks, walk.tasks = task :: tasks ∧
    { walk with tasks }.step graph detach task = some next

def Ends (graph : Graph) (detach : Bool) (walk : Walk) (result : WalkResult) : Prop :=
  ∃ fuel, ∀ enough, fuel ≤ enough → walkFrom graph detach enough walk = some result

theorem takes_push {task : Task} (h : walk.step graph detach task = some next) :
    Takes graph detach (walk.push task) next :=
  ⟨task, walk.tasks, rfl, h⟩

theorem ends_rejected {task : Task} (h : walk.step graph detach task = none) :
    Ends graph detach (walk.push task) .rejected := by
  refine ⟨1, ?_⟩
  intro enough henough
  obtain ⟨fuel, rfl⟩ := Nat.exists_eq_add_of_le' henough
  simp only [walkFrom, Walk.push, h]

theorem ends_accepted (h : walk.tasks = []) :
    Ends graph detach walk (.accepted walk.root walk.targets) := by
  refine ⟨1, ?_⟩
  intro enough henough
  obtain ⟨fuel, rfl⟩ := Nat.exists_eq_add_of_le' henough
  simp only [walkFrom, h]

theorem Ends.of_takes (h : Takes graph detach walk next) (hend : Ends graph detach next result) :
    Ends graph detach walk result := by
  obtain ⟨task, tasks, htasks, hstep⟩ := h
  obtain ⟨fuel, hfuel⟩ := hend
  refine ⟨fuel + 1, ?_⟩
  intro enough henough
  obtain ⟨more, rfl⟩ := Nat.exists_eq_add_of_le' henough
  rw [← Nat.add_assoc]
  simp only [walkFrom, htasks, hstep]
  exact hfuel _ (Nat.le_add_left fuel more)

theorem Ends.of_steps (h : ReflTransGen (Takes graph detach) walk next)
    (hend : Ends graph detach next result) : Ends graph detach walk result := by
  induction h using ReflTransGen.head_induction_on with
  | refl => exact hend
  | head htakes _ ih => exact .of_takes htakes ih

end Runs

section Targets

variable {graph : Graph} {α : Type}

theorem modify_append {items more : List α} {k : Nat} (f : α → α) (h : k < items.length) :
    (items ++ more).modify k f = items.modify k f ++ more := by
  induction items generalizing k with
  | nil => exact absurd h (Nat.not_lt_zero k)
  | cons item items ih =>
    cases k with
    | zero => rfl
    | succ k =>
      rw [List.cons_append, List.modify_succ_cons, List.modify_succ_cons, List.cons_append,
        ih (Nat.lt_of_succ_lt_succ h)]

theorem modify_length_append (items more : List α) (item : α) (f : α → α) :
    (items ++ item :: more).modify items.length f = items ++ f item :: more := by
  induction items with
  | nil => rfl
  | cons head items ih =>
    rw [List.cons_append, List.length_cons, List.modify_succ_cons, ih, List.cons_append]

def Destination.target : Destination → Option Ref
  | .root => none
  | .array target _ => some target
  | .object target _ => some target

def Placed (graph : Graph) (walk : Walk) (target : Option Ref) : Prop :=
  ∀ ref ∈ target, ref - graph.nodes.length < walk.targets.length

def Walk.grow (walk : Walk) (more : List Node) : Walk :=
  { walk with targets := walk.targets ++ more }

theorem Walk.grow_nil (walk : Walk) : walk.grow [] = walk := by
  rw [Walk.grow, List.append_nil]

theorem Walk.grow_grow (walk : Walk) (more others : List Node) :
    (walk.grow more).grow others = walk.grow (more ++ others) := by
  simp only [Walk.grow, List.append_assoc]

theorem Walk.assign_targets_length (walk : Walk) (destination : Option Destination)
    (item : Value) :
    (walk.assign graph destination item).targets.length = walk.targets.length := by
  rcases destination with _ | _ | _ | _
  · rfl
  · rfl
  · exact List.length_modify _ _ _
  · exact List.length_modify _ _ _

theorem Walk.assign_tasks (walk : Walk) (destination : Option Destination) (item : Value) :
    (walk.assign graph destination item).tasks = walk.tasks := by
  rcases destination with _ | _ | _ | _ <;> rfl

theorem Walk.assign_ancestors (walk : Walk) (destination : Option Destination) (item : Value) :
    (walk.assign graph destination item).ancestors = walk.ancestors := by
  rcases destination with _ | _ | _ | _ <;> rfl

theorem Walk.assign_grow {walk : Walk} {destination : Destination} (more : List Node)
    (item : Value) (h : Placed graph walk destination.target) :
    (walk.grow more).assign graph (some destination) item =
      (walk.assign graph (some destination) item).grow more := by
  cases destination with
  | root => rfl
  | array target index =>
    simp only [Walk.assign, Walk.grow]
    rw [modify_append _ (h target rfl)]
  | object target key =>
    simp only [Walk.assign, Walk.grow]
    rw [modify_append _ (h target rfl)]

def lookFrom (base : Ref) (nodes : List Node) (ref : Ref) : Option Node :=
  if base ≤ ref then nodes[ref - base]? else none

theorem lookFrom_append_left {base ref : Ref} {nodes : List Node} {node : Node}
    (others : List Node) (h : lookFrom base nodes ref = some node) :
    lookFrom base (nodes ++ others) ref = some node := by
  unfold lookFrom at h ⊢
  split at h
  · rw [if_pos ‹_›]
    exact List.getElem?_append_left (List.getElem?_eq_some_iff.mp h).1 ▸ h
  · cases h

theorem lookFrom_append_right {base ref : Ref} {others : List Node} {node : Node}
    (nodes : List Node) (h : lookFrom (base + nodes.length) others ref = some node) :
    lookFrom base (nodes ++ others) ref = some node := by
  unfold lookFrom at h ⊢
  by_cases hbase : base + nodes.length ≤ ref
  · have hle : base ≤ ref := Nat.le_trans (Nat.le_add_right _ _) hbase
    have hlength : nodes.length ≤ ref - base := Nat.le_sub_of_add_le' hbase
    rw [if_pos hbase] at h
    rw [if_pos hle, List.getElem?_append_right hlength, Nat.sub_sub]
    exact h
  · rw [if_neg hbase] at h
    cases h

end Targets

section Rules

variable {graph : Graph} {ancestors : List Ref} {json : JsonData} {bare copying : Task}
  {destination : Destination}

/-- With these ancestors a task ends with its value copied, or as it began when nothing is. -/
structure Walks (graph : Graph) (ancestors : List Ref) (json : JsonData) (bare copying : Task)
    (destination : Destination) : Prop where
  tests : ∀ walk : Walk, walk.ancestors = ancestors →
    ReflTransGen (Takes graph false) (walk.push bare) walk
  copies : ∀ walk : Walk, walk.ancestors = ancestors → Placed graph walk destination.target →
    ∃ item more,
      ReflTransGen (Takes graph true) (walk.push copying)
        ((walk.assign graph (some destination) item).grow more) ∧
      Denotes (lookFrom (walk.nextRef graph) more) item json

def Walk.pushAll (walk : Walk) (tasks : List Task) : Walk :=
  { walk with tasks := tasks ++ walk.tasks }

structure Rejects (graph : Graph) (ancestors : List Ref) (bare copying : List Task)
    (target : Option Ref) : Prop where
  tests : ∀ walk : Walk, walk.ancestors = ancestors →
    Ends graph false (walk.pushAll bare) .rejected
  copies : ∀ walk : Walk, walk.ancestors = ancestors → Placed graph walk target →
    Ends graph true (walk.pushAll copying) .rejected

theorem Walks.of_push {bare' copying' : Task}
    (hbare : ∀ walk : Walk, walk.step graph false bare = some (walk.push bare'))
    (hcopying : ∀ walk : Walk, walk.step graph true copying = some (walk.push copying'))
    (h : Walks graph ancestors json bare' copying' destination) :
    Walks graph ancestors json bare copying destination := by
  constructor
  · intro walk hancestors
    exact .head (takes_push (hbare walk)) (h.tests walk hancestors)
  · intro walk hancestors hplaced
    obtain ⟨item, more, hsteps, hdenotes⟩ := h.copies walk hancestors hplaced
    exact ⟨item, more, .head (takes_push (hcopying walk)) hsteps, hdenotes⟩

theorem Rejects.of_push {bare' copying' : Task} {target : Option Ref}
    (hbare : ∀ walk : Walk, walk.step graph false bare = some (walk.push bare'))
    (hcopying : ∀ walk : Walk, walk.step graph true copying = some (walk.push copying'))
    (h : Rejects graph ancestors [bare'] [copying'] target) :
    Rejects graph ancestors [bare] [copying] target := by
  constructor
  · intro walk hancestors
    exact .of_takes (takes_push (hbare walk)) (h.tests walk hancestors)
  · intro walk hancestors hplaced
    exact .of_takes (takes_push (hcopying walk)) (h.copies walk hancestors hplaced)

theorem rejects_of_step {target : Option Ref}
    (hbare : ∀ walk : Walk, walk.ancestors = ancestors → walk.step graph false bare = none)
    (hcopying : ∀ walk : Walk, walk.ancestors = ancestors → walk.step graph true copying = none) :
    Rejects graph ancestors [bare] [copying] target := by
  constructor
  · intro walk hancestors
    exact ends_rejected (hbare walk hancestors)
  · intro walk hancestors _
    exact ends_rejected (hcopying walk hancestors)

theorem walks_scalar {value : Value}
    (hvisit : ∀ (walk : Walk) (detach : Bool) (destination : Option Destination),
      walk.visit graph detach value destination = some (walk.assign graph destination value))
    (hdenotes : ∀ look, Denotes look value json) :
    Walks graph ancestors json (.visit value none) (.visit value (some destination))
      destination := by
  constructor
  · intro walk _
    exact .single (takes_push (hvisit walk false none))
  · intro walk _ _
    refine ⟨value, [], ?_, hdenotes _⟩
    rw [Walk.grow_nil]
    exact .single (takes_push (hvisit walk true (some destination)))

end Rules

inductive Slot
  | item (index : Nat)
  | field (key : Units)

namespace Slot

def task (source : Ref) (target : Option Ref) : Slot → Task
  | .item index => .arrayItem source index target
  | .field key => .objectProperty source key target

def place (target : Ref) : Slot → Destination
  | .item index => .array target index
  | .field key => .object target key

def name : Slot → Units
  | .item index => indexKey index
  | .field key => key

variable {graph : Graph}

theorem place_target (slot : Slot) (target : Ref) : (slot.place target).target = some target := by
  cases slot <;> rfl

theorem assign_place (slot : Slot) (walk : Walk) (target : Ref) (item : Value) :
    walk.assign graph (some (slot.place target)) item =
      { walk with
        targets := walk.targets.modify (target - graph.nodes.length)
          ((slot.place target).put item) } := by
  cases slot <;> rfl

end Slot

def fill (target : Ref) : List Slot → List Value → Node → Node
  | slot :: slots, item :: items, node =>
    fill target slots items ((slot.place target).put item node)
  | _, _, node => node

section Loop

variable {graph : Graph} {ancestors : List Ref} {source : Ref}

def SlotWalks (graph : Graph) (ancestors : List Ref) (source : Ref) (slot : Slot) (json : JsonData) :
    Prop :=
  ∀ target, Walks graph ancestors json (slot.task source none) (slot.task source (some target))
    (slot.place target)

theorem loop_tests {slots : List Slot} {jsons : List JsonData}
    (h : List.Forall₂ (SlotWalks graph ancestors source) slots jsons) (walk : Walk)
    (hancestors : walk.ancestors = ancestors) :
    ReflTransGen (Takes graph false) (walk.pushAll (slots.map fun slot => slot.task source none))
      walk := by
  induction h with
  | nil => exact .refl
  | @cons slot json slots jsons hslot _ ih =>
    exact ((hslot 0).tests (walk.pushAll (slots.map fun slot => slot.task source none))
      hancestors).trans ih

theorem loop_copies {slots : List Slot} {jsons : List JsonData} (target : Ref)
    (h : List.Forall₂ (SlotWalks graph ancestors source) slots jsons) (walk : Walk)
    (hancestors : walk.ancestors = ancestors) (hplaced : Placed graph walk (some target)) :
    ∃ items more,
      ReflTransGen (Takes graph true)
        (walk.pushAll (slots.map fun slot => slot.task source (some target)))
        (({ walk with
            targets := walk.targets.modify (target - graph.nodes.length)
              (fill target slots items) } : Walk).grow more) ∧
      List.Forall₂ (Denotes (lookFrom (walk.nextRef graph) more)) items jsons := by
  induction h generalizing walk with
  | nil =>
    refine ⟨[], [], ?_, .nil⟩
    rw [Walk.grow_nil]
    have hfill : fill target [] [] = id := rfl
    rw [hfill, List.modify_id]
    exact .refl
  | @cons slot json slots jsons hslot _ ih =>
    obtain ⟨item, more, hsteps, hdenotes⟩ := (hslot target).copies
      (walk.pushAll (slots.map fun slot => slot.task source (some target))) hancestors
      (by rw [slot.place_target]; exact hplaced)
    have hlength := hplaced target rfl
    rw [slot.assign_place] at hsteps
    let next : Walk :=
      { walk with
        targets := walk.targets.modify (target - graph.nodes.length)
          ((slot.place target).put item) ++ more }
    have hnext : Placed graph next (some target) := by
      intro ref href
      cases href
      rw [List.length_append, List.length_modify]
      exact Nat.lt_add_right _ hlength
    obtain ⟨items, others, hrest, hdenoteds⟩ := ih next hancestors hnext
    have htargets : next.targets.modify (target - graph.nodes.length) (fill target slots items) =
        walk.targets.modify (target - graph.nodes.length)
          (fill target (slot :: slots) (item :: items)) ++ more := by
      rw [modify_append _ (by rw [List.length_modify]; exact hlength), List.modify_modify_eq]
      rfl
    refine ⟨item :: items, more ++ others, hsteps.trans ?_, .cons ?_ ?_⟩
    · rw [htargets] at hrest
      rw [← Walk.grow_grow]
      exact hrest
    · exact hdenotes.mono fun _ _ => lookFrom_append_left others
    · apply hdenoteds.imp
      intro item json hdenotes
      apply hdenotes.mono
      intro ref node hlook
      apply lookFrom_append_right more
      have hbase : walk.nextRef graph + more.length = next.nextRef graph := by
        rw [Walk.nextRef, Walk.nextRef, List.length_append, List.length_modify, Nat.add_assoc]
      rw [hbase]
      exact hlook

theorem loop_settles {settles : Slot → JsonData → Prop} {reason : Prop}
    (hwalks : ∀ slot json, settles slot json → SlotWalks graph ancestors source slot json)
    {slots : List Slot}
    (h : ∀ slot ∈ slots, (∃ json, settles slot json) ∨ reason ∧ ∀ target,
      Rejects graph ancestors [slot.task source none] [slot.task source (some target)]
        (some target)) :
    (∀ slot ∈ slots, ∃ json, settles slot json) ∨ reason ∧ ∀ target,
      Rejects graph ancestors (slots.map fun slot => slot.task source none)
        (slots.map fun slot => slot.task source (some target)) (some target) := by
  induction slots with
  | nil => exact .inl fun slot hslot => absurd hslot List.not_mem_nil
  | cons slot slots ih =>
    rcases h slot List.mem_cons_self with ⟨json, hsettles⟩ | ⟨hreason, hrejects⟩
    · rcases ih fun other hother => h other (List.mem_cons_of_mem _ hother) with
        hrest | ⟨hreason, hrest⟩
      · left
        intro other hother
        rcases List.mem_cons.mp hother with rfl | hother
        · exact ⟨json, hsettles⟩
        · exact hrest other hother
      · refine .inr ⟨hreason, fun target => ⟨?_, ?_⟩⟩
        · intro walk hancestors
          have hsteps := (hwalks slot json hsettles target).tests
            (walk.pushAll (slots.map fun slot => slot.task source none)) hancestors
          exact .of_steps hsteps ((hrest target).tests walk hancestors)
        · intro walk hancestors hplaced
          obtain ⟨item, more, hsteps, _⟩ := (hwalks slot json hsettles target).copies
            (walk.pushAll (slots.map fun slot => slot.task source (some target))) hancestors
            (by rw [slot.place_target]; exact hplaced)
          rw [slot.assign_place] at hsteps
          let next : Walk :=
            { walk with
              targets := walk.targets.modify (target - graph.nodes.length)
                ((slot.place target).put item) ++ more }
          have hnext : Placed graph next (some target) := by
            intro ref href
            rw [List.length_append, List.length_modify]
            exact Nat.lt_add_right _ (hplaced ref href)
          exact .of_steps hsteps ((hrest target).copies next hancestors hnext)
    · refine .inr ⟨hreason, fun target => ⟨?_, ?_⟩⟩
      · intro walk hancestors
        exact (hrejects target).tests
          (walk.pushAll (slots.map fun slot => slot.task source none)) hancestors
      · intro walk hancestors hplaced
        exact (hrejects target).copies
          (walk.pushAll (slots.map fun slot => slot.task source (some target))) hancestors hplaced

end Loop

section Container

variable {graph : Graph} {ancestors : List Ref} {source : Ref} {copy : Node} {slots : List Slot}

def Enters (graph : Graph) (ancestors : List Ref) (source : Ref) (copy : Node)
    (slots : List Slot) : Prop :=
  ∀ (walk : Walk) (detach : Bool) (destination : Option Destination),
    walk.ancestors = ancestors →
      walk.visitObject graph detach source destination =
        some (walk.enter graph detach source destination copy fun target =>
          slots.map fun slot => slot.task source target)

theorem filter_ne_of_not_mem (h : source ∉ ancestors) :
    (source :: ancestors).filter (· ≠ source) = ancestors := by
  rw [List.filter_cons_of_neg (by simp), List.filter_eq_self]
  intro ref href
  exact decide_eq_true fun heq => h (heq ▸ href)

theorem takes_leave (graph : Graph) (detach : Bool) (walk : Walk) (h : source ∉ ancestors)
    (hancestors : walk.ancestors = source :: ancestors) :
    Takes graph detach (walk.push (.leave source)) { walk with ancestors } := by
  apply takes_push
  simp only [Walk.step, hancestors, filter_ne_of_not_mem h]

theorem enter_copying {walk : Walk} {destination : Destination}
    {children : Option Ref → List Task} (hplaced : Placed graph walk destination.target) :
    walk.enter graph true source (some destination) copy children =
      ((({ (walk.assign graph (some destination) (.object (walk.nextRef graph))).grow [copy] with
          ancestors := source :: walk.ancestors } : Walk).push (.leave source)).pushAll
        (children (some (walk.nextRef graph)))) := by
  have hgrow := Walk.assign_grow [copy] (.object (walk.nextRef graph)) hplaced
  rw [Walk.grow] at hgrow
  simp only [Walk.enter, if_true]
  rw [hgrow]
  simp only [Walk.push, Walk.pushAll, Walk.grow, Walk.assign_tasks]

theorem nextRef_sub (walk : Walk) (destination : Option Destination) (item : Value) :
    walk.nextRef graph - graph.nodes.length =
      (walk.assign graph destination item).targets.length := by
  rw [Walk.assign_targets_length]
  exact Nat.add_sub_cancel_left _ _

theorem placed_copy (walk : Walk) (destination : Destination) (copy : Node) :
    Placed graph
      ((walk.assign graph (some destination) (.object (walk.nextRef graph))).grow [copy])
      (some (walk.nextRef graph)) := by
  intro ref href
  cases href
  rw [nextRef_sub walk (some destination) (.object (walk.nextRef graph))]
  exact List.length_append ▸ Nat.lt_add_one _

theorem walks_container (jsons : List JsonData) {json : JsonData} (hfresh : source ∉ ancestors)
    (henters : Enters graph ancestors source copy slots)
    (hslots : List.Forall₂ (SlotWalks graph (source :: ancestors) source) slots jsons)
    (hcopy : ∀ look target items, look target = some (fill target slots items copy) →
      List.Forall₂ (Denotes look) items jsons → Denotes look (.object target) json)
    (destination : Destination) :
    Walks graph ancestors json (.visit (.object source) none)
      (.visit (.object source) (some destination)) destination := by
  constructor
  · intro walk hancestors
    let inside : Walk := { walk with ancestors := source :: ancestors }
    have hleave : Takes graph false (inside.push (.leave source)) walk := by
      have htakes := takes_leave graph false inside hfresh rfl
      rw [← hancestors] at htakes
      exact htakes
    have hloop := loop_tests hslots (inside.push (.leave source)) rfl
    refine .head (takes_push (henters walk false none hancestors)) (.trans ?_ (.single hleave))
    simp only [Walk.enter, hancestors]
    exact hloop
  · intro walk hancestors hplaced
    subst hancestors
    let target := walk.nextRef graph
    let assigned := walk.assign graph (some destination) (.object target)
    let inside : Walk := { assigned.grow [copy] with ancestors := source :: walk.ancestors }
    have htarget : target - graph.nodes.length = assigned.targets.length :=
      nextRef_sub walk (some destination) (.object target)
    have henter : walk.enter graph true source (some destination) copy
        (fun target => slots.map fun slot => slot.task source target) =
        (inside.push (.leave source)).pushAll
          (slots.map fun slot => slot.task source (some target)) :=
      enter_copying hplaced
    have hinside : Placed graph (inside.push (.leave source)) (some target) :=
      placed_copy walk destination copy
    obtain ⟨items, more, hsteps, hdenotes⟩ := loop_copies target hslots
      (inside.push (.leave source)) rfl hinside
    let node := fill target slots items copy
    have htargets : (inside.push (.leave source)).targets.modify (target - graph.nodes.length)
        (fill target slots items) = assigned.targets ++ [node] := by
      rw [htarget]
      exact modify_length_append assigned.targets [] copy _
    rw [htargets] at hsteps
    have hleave : Takes graph true
        (({ inside.push (.leave source) with
            targets := assigned.targets ++ [node] } : Walk).grow more)
        (assigned.grow (node :: more)) := by
      have htakes := takes_leave graph true
        { inside with targets := assigned.targets ++ [node] ++ more } hfresh rfl
      rw [List.append_assoc] at htakes
      rw [Walk.grow, Walk.grow, List.append_assoc, Walk.assign_ancestors]
      exact htakes
    refine ⟨.object target, node :: more, ?_, ?_⟩
    · refine .head (takes_push (henters walk true (some destination) rfl))
        (.trans ?_ (.single hleave))
      rw [henter]
      exact hsteps
    · apply hcopy _ target items
      · simp only [lookFrom, target, if_pos (Nat.le_refl _), Nat.sub_self]
        rfl
      · apply hdenotes.imp
        intro item json hdenotes
        apply hdenotes.mono
        intro ref found hlook
        apply lookFrom_append_right [node]
        have hbase : target + 1 = (inside.push (.leave source)).nextRef graph := by
          have hlength : (inside.push (.leave source)).targets.length =
              assigned.targets.length + 1 :=
            List.length_append
          rw [Walk.nextRef, hlength, Walk.assign_targets_length]
          rfl
        rw [List.length_singleton, hbase]
        exact hlook

theorem rejects_container (henters : Enters graph ancestors source copy slots)
    (hslots : ∀ target, Rejects graph (source :: ancestors)
      (slots.map fun slot => slot.task source none)
      (slots.map fun slot => slot.task source (some target)) (some target))
    (destination : Destination) :
    Rejects graph ancestors [.visit (.object source) none]
      [.visit (.object source) (some destination)] destination.target := by
  constructor
  · intro walk hancestors
    subst hancestors
    let inside : Walk := { walk with ancestors := source :: walk.ancestors }
    exact .of_takes (takes_push (henters walk false none rfl))
      ((hslots 0).tests (inside.push (.leave source)) rfl)
  · intro walk hancestors hplaced
    subst hancestors
    let target := walk.nextRef graph
    let assigned := walk.assign graph (some destination) (.object target)
    let inside : Walk := { assigned.grow [copy] with ancestors := source :: walk.ancestors }
    have hinside : Placed graph (inside.push (.leave source)) (some target) :=
      placed_copy walk destination copy
    have hstep : walk.step graph true (.visit (.object source) (some destination)) = _ :=
      henters walk true (some destination) rfl
    rw [enter_copying hplaced] at hstep
    exact .of_takes (takes_push hstep)
      ((hslots target).copies (inside.push (.leave source)) rfl hinside)

end Container

end Harness.JsonBoundary
