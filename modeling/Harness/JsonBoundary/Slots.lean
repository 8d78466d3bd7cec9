import Harness.JsonBoundary.WalkSound

namespace Harness.JsonBoundary

open Harness.Foundation Relation

def Node.forgetSlot (node : Node) : Node :=
  { node with
    kind :=
      match node.kind with
      | .slotted _ => .record
      | kind => kind }

theorem Node.forgetSlot_kind_ne (node : Node) (slot : InternalSlot) :
    node.forgetSlot.kind ≠ .slotted slot := by
  unfold forgetSlot
  cases node.kind <;> exact nofun

theorem Node.forgetSlot_eq {node : Node} (h : ∀ slot, node.kind ≠ .slotted slot) :
    node.forgetSlot = node := by
  obtain ⟨kind, prototype, properties⟩ := node
  cases kind with
  | slotted slot => exact absurd rfl (h slot)
  | _ => rfl

theorem Node.forgetSlot_ownKeys (node : Node) : node.forgetSlot.ownKeys = node.ownKeys := by
  obtain ⟨kind, prototype, properties⟩ := node
  cases kind <;> rfl

namespace Graph

variable (graph : Graph)

/-- The graph with a plain object in place of each one that has a slot. -/
def forgetSlots : Graph where
  nodes := graph.nodes.map Node.forgetSlot
  root := graph.root
  objectPrototype := graph.objectPrototype
  arrayPrototype := graph.arrayPrototype
  closed := by
    rw [List.length_map, List.forall_mem_map]
    exact graph.closed
  rooted := by
    rw [List.length_map]
    exact graph.rooted
  distinct := by
    rw [List.forall_mem_map]
    intro node hnode
    rw [node.forgetSlot_ownKeys]
    exact graph.distinct node hnode
  ordered := by
    rw [List.forall_mem_map]
    exact graph.ordered
  raw := by
    rw [List.forall_mem_map]
    exact fun node _ h => absurd h (node.forgetSlot_kind_ne _)

theorem forgetSlots_slotless : graph.forgetSlots.Slotless :=
  List.forall_mem_map.mpr fun node _ => node.forgetSlot_kind_ne

@[simp] theorem forgetSlots_root : graph.forgetSlots.root = graph.root := rfl

@[simp] theorem forgetSlots_length : graph.forgetSlots.nodes.length = graph.nodes.length :=
  List.length_map _

@[simp] theorem forgetSlots_at (ref : Ref) :
    graph.forgetSlots.nodes[ref]? = (graph.nodes[ref]?).map Node.forgetSlot :=
  List.getElem?_map

@[simp] theorem prototypeOf_forgetSlots (ref : Ref) :
    graph.forgetSlots.prototypeOf ref = graph.prototypeOf ref := by
  rw [prototypeOf, prototypeOf, forgetSlots_at]
  cases graph.nodes[ref]? <;> rfl

@[simp] theorem isObject_forgetSlots (ref : Ref) :
    graph.forgetSlots.isObject ref = graph.isObject ref := by
  rw [isObject, isObject, forgetSlots_at]
  cases graph.nodes[ref]? with
  | none => rfl
  | some node =>
    obtain ⟨kind, prototype, properties⟩ := node
    cases kind <;> rfl

@[simp] theorem isArray_forgetSlots (ref : Ref) :
    graph.forgetSlots.isArray ref = graph.isArray ref := by
  rw [isArray, isArray, forgetSlots_at]
  cases graph.nodes[ref]? with
  | none => rfl
  | some node =>
    obtain ⟨kind, prototype, properties⟩ := node
    cases kind <;> rfl

/-- Only a function is asked for its text. -/
@[simp] theorem hasIntrinsicConstructor_forgetSlots (ref : Ref) (name : String) :
    graph.forgetSlots.hasIntrinsicConstructor ref name = graph.hasIntrinsicConstructor ref name := by
  have hread : ((graph.nodes[ref]?).map Node.forgetSlot).bind
      (fun node => node.getOwn (Utf16.encode "constructor")) =
        (graph.nodes[ref]?).bind fun node => node.getOwn (Utf16.encode "constructor") := by
    cases graph.nodes[ref]? <;> rfl
  unfold hasIntrinsicConstructor
  rw [forgetSlots_at, hread]
  cases (graph.nodes[ref]?).bind fun node => node.getOwn (Utf16.encode "constructor") with
  | none => rfl
  | some descriptor =>
    obtain ⟨key, enumerable, value⟩ := descriptor
    cases value with
    | object constructor =>
      dsimp only
      rw [forgetSlots_at]
      cases graph.nodes[constructor]? with
      | none => rfl
      | some node =>
        obtain ⟨kind, prototype, properties⟩ := node
        cases kind <;> rfl
    | _ => rfl

@[simp] theorem hasPlainArrayPrototype_forgetSlots (node : Node) :
    graph.forgetSlots.hasPlainArrayPrototype node.forgetSlot = graph.hasPlainArrayPrototype node := by
  unfold hasPlainArrayPrototype isIntrinsicObjectPrototype
  rw [show node.forgetSlot.prototype = node.prototype from rfl]
  simp

@[simp] theorem hasPlainObjectPrototype_forgetSlots (node : Node) :
    graph.forgetSlots.hasPlainObjectPrototype node.forgetSlot =
      graph.hasPlainObjectPrototype node := by
  unfold hasPlainObjectPrototype isIntrinsicObjectPrototype
  rw [show node.forgetSlot.prototype = node.prototype from rfl]
  simp

end Graph

section Walks

variable (graph : Graph) (detach : Bool)

theorem assign_forgetSlots (walk : Walk) (destination : Option Destination) (item : Value) :
    walk.assign graph.forgetSlots destination item = walk.assign graph destination item := by
  unfold Walk.assign
  rw [graph.forgetSlots_length]

theorem enter_forgetSlots (walk : Walk) (source : Ref) (destination : Option Destination)
    (copy : Node) (children : Option Ref → List Task) :
    walk.enter graph.forgetSlots detach source destination copy children =
      walk.enter graph detach source destination copy children := by
  simp only [Walk.enter, Walk.nextRef, assign_forgetSlots, graph.forgetSlots_length]

theorem visitObject_forgetSlots (walk : Walk) (current : Ref) (destination : Option Destination) :
    walk.visitObject graph.forgetSlots detach current destination =
      walk.visitObject graph detach current destination := by
  unfold Walk.visitObject
  rw [graph.forgetSlots_at]
  cases graph.nodes[current]? with
  | none => rfl
  | some node =>
    have hkeys : enumerableStringKeys node.forgetSlot = enumerableStringKeys node := rfl
    simp only [Option.map_some, graph.hasPlainArrayPrototype_forgetSlots,
      graph.hasPlainObjectPrototype_forgetSlots, enter_forgetSlots, node.forgetSlot_ownKeys, hkeys]
    obtain ⟨kind, prototype, properties⟩ := node
    cases kind <;> rfl

/-- No step of the walk asks for a slot. -/
theorem step_forgetSlots (walk : Walk) (task : Task) :
    walk.step graph.forgetSlots detach task = walk.step graph detach task := by
  have hitem : ∀ (source : Ref) (key : Units),
      ((graph.nodes[source]?).map Node.forgetSlot).bind (fun node => node.getOwn key) =
        (graph.nodes[source]?).bind fun node => node.getOwn key := by
    intro source key
    cases graph.nodes[source]? <;> rfl
  have hfield : ∀ (source : Ref) (key : Units),
      ((graph.nodes[source]?).map Node.forgetSlot).map (fun node => node.read key) =
        (graph.nodes[source]?).map fun node => node.read key := by
    intro source key
    cases graph.nodes[source]? <;> rfl
  cases task with
  | leave source => rfl
  | arrayItem source index target => simp only [Walk.step, graph.forgetSlots_at, hitem]
  | objectProperty source key target => simp only [Walk.step, graph.forgetSlots_at, hfield]
  | visit current destination =>
    simp only [Walk.step]
    cases current with
    | object ref => exact visitObject_forgetSlots graph detach walk ref destination
    | number n => cases n <;> simp only [Walk.visit, assign_forgetSlots]
    | _ => simp only [Walk.visit, assign_forgetSlots]

theorem walkFrom_forgetSlots (fuel : Nat) (walk : Walk) :
    walkFrom graph.forgetSlots detach fuel walk = walkFrom graph detach fuel walk := by
  induction fuel generalizing walk with
  | zero => rfl
  | succ fuel ih =>
    unfold walkFrom
    cases walk.tasks with
    | nil => rfl
    | cons task tasks => simp only [step_forgetSlots, ih]

theorem snapshotJsonValue_forgetSlots (fuel : Nat) :
    snapshotJsonValue graph.forgetSlots fuel = snapshotJsonValue graph fuel := by
  rw [snapshotJsonValue, walkJsonValue, walkFrom_forgetSlots]
  rfl

theorem isJsonValue_forgetSlots (fuel : Nat) :
    isJsonValue graph.forgetSlots fuel = isJsonValue graph fuel := by
  rw [isJsonValue, walkJsonValue, walkFrom_forgetSlots]
  rfl

end Walks

namespace Graph

variable {graph : Graph}

def Slotted (graph : Graph) (value : Value) : Prop :=
  ∃ ref node slot, value = .object ref ∧ graph.nodes[ref]? = some node ∧ node.kind = .slotted slot

def ReachesSlot (graph : Graph) (value : Value) : Prop :=
  ∃ item, ReflTransGen graph.Child value item ∧ graph.Slotted item

theorem ReachesSlot.of_child {value item : Value} (hchild : graph.Child value item)
    (h : graph.ReachesSlot item) : graph.ReachesSlot value := by
  obtain ⟨last, hreach, hslotted⟩ := h
  exact ⟨last, .head hchild hreach, hslotted⟩

theorem child_forgetSlots : graph.forgetSlots.Child = graph.Child := by
  ext value item
  constructor
  · rintro ⟨ref, node, rfl, hnode, hitem⟩
    rw [graph.forgetSlots_at] at hnode
    obtain ⟨found, hfound, rfl⟩ := Option.map_eq_some_iff.mp hnode
    exact ⟨ref, found, rfl, hfound, hitem⟩
  · rintro ⟨ref, node, rfl, hnode, hitem⟩
    exact ⟨ref, node.forgetSlot, rfl, by rw [graph.forgetSlots_at, hnode]; rfl, hitem⟩

theorem losslessNode_forgetSlot {node : Node} (h : ∀ slot, node.kind ≠ .slotted slot) :
    graph.forgetSlots.LosslessNode node ↔ graph.LosslessNode node := by
  have harray := graph.hasPlainArrayPrototype_forgetSlots node
  have hrecord := graph.hasPlainObjectPrototype_forgetSlots node
  rw [node.forgetSlot_eq h] at harray hrecord
  unfold LosslessNode
  cases hkind : node.kind with
  | slotted slot => exact absurd hkind (h slot)
  | _ => simp only [harray, hrecord]

theorem losslessAt_forgetSlots {value : Value} (h : ¬ graph.Slotted value) :
    graph.forgetSlots.LosslessAt value ↔ graph.LosslessAt value := by
  cases value with
  | object ref =>
    simp only [LosslessAt, graph.forgetSlots_at]
    cases hnode : graph.nodes[ref]? with
    | none => simp
    | some node =>
      have hkind : ∀ slot, node.kind ≠ .slotted slot :=
        fun slot hslot => h ⟨ref, node, slot, rfl, hnode, hslot⟩
      simp only [Option.map_some, Option.some.injEq, exists_eq_left', node.forgetSlot_eq hkind,
        losslessNode_forgetSlot hkind]
  | number n => cases n <;> rfl
  | _ => rfl

theorem not_slotted_of_lossless {value : Value} (h : graph.LosslessAt value) :
    ¬ graph.Slotted value := by
  rintro ⟨ref, node, slot, rfl, hnode, hkind⟩
  obtain ⟨found, hfound, hlossless⟩ := h
  cases hnode.symm.trans hfound
  unfold LosslessNode at hlossless
  rw [hkind] at hlossless
  exact hlossless

theorem lossless_iff_forgetSlots (graph : Graph) :
    graph.Lossless ↔ ¬ graph.ReachesSlot graph.root ∧ graph.forgetSlots.Lossless := by
  constructor
  · rintro ⟨hacyclic, heverywhere⟩
    refine ⟨?_, ?_, ?_⟩
    · rintro ⟨item, hreach, hslotted⟩
      exact not_slotted_of_lossless (heverywhere item hreach) hslotted
    · rw [child_forgetSlots]
      exact hacyclic
    · rw [child_forgetSlots]
      intro item hreach
      have hlossless := heverywhere item hreach
      exact (losslessAt_forgetSlots (not_slotted_of_lossless hlossless)).mpr hlossless
  · rintro ⟨hslots, hacyclic, heverywhere⟩
    rw [child_forgetSlots] at hacyclic heverywhere
    refine ⟨hacyclic, fun item hreach => ?_⟩
    exact (losslessAt_forgetSlots fun hslotted => hslots ⟨item, hreach, hslotted⟩).mp
      (heverywhere item hreach)

theorem plain_forgetSlots {ref : Ref} (h : ¬ graph.Slotted (.object ref)) :
    graph.forgetSlots.plain ref = graph.plain ref := by
  rw [plain, plain, graph.forgetSlots_at]
  cases hnode : graph.nodes[ref]? with
  | none => rfl
  | some node =>
    have hkind : ∀ slot, node.kind ≠ .slotted slot :=
      fun slot hslot => h ⟨ref, node, slot, rfl, hnode, hslot⟩
    have harray := graph.hasPlainArrayPrototype_forgetSlots node
    have hrecord := graph.hasPlainObjectPrototype_forgetSlots node
    rw [node.forgetSlot_eq hkind] at harray hrecord
    rw [Option.map_some, node.forgetSlot_eq hkind, Option.filter_some, Option.filter_some]
    simp only [harray, hrecord]

theorem denotes_forgetSlots {value : Value} {json : JsonData} (h : ¬ graph.ReachesSlot value) :
    Denotes graph.forgetSlots.plain value json ↔ Denotes graph.plain value json := by
  have hsame : ∀ ref, ¬ graph.ReachesSlot (.object ref) →
      graph.forgetSlots.plain ref = graph.plain ref := by
    intro ref hunreached
    exact plain_forgetSlots fun hslotted => hunreached ⟨_, .refl, hslotted⟩
  have hchildren : ∀ ref node, ¬ graph.ReachesSlot (.object ref) → graph.plain ref = some node →
      ∀ property ∈ node.properties, ¬ graph.ReachesSlot property.value := by
    intro ref node hunreached hnode property hproperty hreach
    exact hunreached (hreach.of_child
      ⟨ref, node, rfl, nodes_of_plain hnode, property, hproperty, rfl⟩)
  constructor
  · intro hdenotes
    refine hdenotes.of_met (fun value => ¬ graph.ReachesSlot value) ?_ h
    intro ref node hunreached hnode
    rw [hsame ref hunreached] at hnode
    exact ⟨hnode, hchildren ref node hunreached hnode⟩
  · intro hdenotes
    refine hdenotes.of_met (fun value => ¬ graph.ReachesSlot value) ?_ h
    intro ref node hunreached hnode
    rw [hsame ref hunreached]
    exact ⟨hnode, hchildren ref node hunreached hnode⟩

end Graph

section Boundary

variable {graph : Graph}

/-- The calls end, and they take the value exactly when it is lossless but for slots. -/
theorem calls_forgetSlots (graph : Graph) :
    ∃ fuel, ∀ enough, fuel ≤ enough → ∃ snapshot accepted,
      snapshotJsonValue graph enough = some snapshot ∧ isJsonValue graph enough = some accepted ∧
      (snapshot.isSome = true ↔ graph.forgetSlots.Lossless) ∧
      (accepted = true ↔ graph.forgetSlots.Lossless) ∧
      ∀ copy ∈ snapshot, ∃ json,
        (∀ data, Denotes graph.forgetSlots.plain graph.root data ↔ data = json) ∧
        Denotes (lookFrom graph.nodes.length copy.nodes) copy.root json ∧
        JsonData.parse (JsonData.stringify json) = some json := by
  have hboundary := boundary_of_slotless graph.forgetSlots_slotless
  unfold Boundary at hboundary
  simpa only [snapshotJsonValue_forgetSlots, isJsonValue_forgetSlots, graph.forgetSlots_length,
    graph.forgetSlots_root] using hboundary

theorem boundary_of_unreached (h : ¬ graph.ReachesSlot graph.root) : Boundary graph := by
  have hlossless : graph.forgetSlots.Lossless ↔ graph.Lossless := by
    rw [graph.lossless_iff_forgetSlots, and_iff_right h]
  have hdenotes : ∀ data, Denotes graph.forgetSlots.plain graph.root data ↔
      Denotes graph.plain graph.root data := fun data =>
    Graph.denotes_forgetSlots h
  have hcalls := calls_forgetSlots graph
  simp only [hlossless, hdenotes] at hcalls
  exact hcalls

theorem boundary_of_refused (h : ¬ graph.forgetSlots.Lossless) : Boundary graph := by
  have hlossy : ¬ graph.Lossless := fun hlossless =>
    h ((Graph.lossless_iff_forgetSlots _).mp hlossless).2
  obtain ⟨fuel, hcalls⟩ := calls_forgetSlots graph
  refine ⟨fuel, fun enough henough => ?_⟩
  obtain ⟨snapshot, accepted, hsnapshot, haccepted, htaken, hpassed, -⟩ := hcalls enough henough
  refine ⟨snapshot, accepted, hsnapshot, haccepted, iff_of_false (mt htaken.mp h) hlossy,
    iff_of_false (mt hpassed.mp h) hlossy, ?_⟩
  rintro copy hcopy
  rw [Option.mem_def.mp hcopy] at htaken
  exact absurd (htaken.mp rfl) h

theorem not_boundary (hreach : graph.ReachesSlot graph.root) (h : graph.forgetSlots.Lossless) :
    ¬ Boundary graph := by
  rintro ⟨fuel, hboundary⟩
  obtain ⟨least, hcalls⟩ := calls_forgetSlots graph
  obtain ⟨snapshot, accepted, hsnapshot, -, htaken, -⟩ :=
    hboundary (max fuel least) (Nat.le_max_left _ _)
  obtain ⟨other, _, hother, -, hsome, -⟩ := hcalls (max fuel least) (Nat.le_max_right _ _)
  rw [hsnapshot, Option.some.injEq] at hother
  subst hother
  exact ((Graph.lossless_iff_forgetSlots _).mp (htaken.mp (hsome.mpr h))).1 hreach

/-- What `JSON.stringify` writes for an object with a plain prototype in place of its properties. It
throws for a `BigInt` object, and for a `Number` object that no method converts; the one of plain objects
converts it to no number. -/
def Node.slotData (node : Node) : Option JsonData :=
  match node.kind with
  | .slotted (.boolean b) => some (.bool b)
  | .slotted (.number _) =>
    if node.prototype = none ∨ (node.getOwn (Utf16.encode "toString")).isSome then none
    else some .null
  | .slotted .raw =>
    match node.read (Utf16.encode "rawJSON") with
    | .string text => (Utf16.text? text).bind JsonData.parse
    | _ => none
  | _ => none

theorem slotData_ne_object {node : Node} (hraw : node.kind = .slotted .raw → node.IsRaw)
    (fields : List (Units × JsonData)) : node.slotData ≠ some (.object fields) := by
  intro h
  unfold Node.slotData at h
  split at h
  · cases h
  · split at h
    · cases h
    · cases h
  · rename_i hkind
    obtain ⟨-, text, hproperties, htext⟩ := hraw hkind
    have hread : node.read (Utf16.encode "rawJSON") = .string text := by
      simp [Node.read, Node.getOwn, hproperties]
    rw [hread] at h
    obtain ⟨s, hs, hparse⟩ := Option.bind_eq_some_iff.mp h
    exact htext s fields (Utf16.text?_eq_some.mp hs) hparse
  · cases h

/-- The snapshot of an object with a slot is not what `JSON.stringify` writes for it. -/
theorem slot_lost {ref : Ref} {node : Node} {slot : InternalSlot} (hroot : graph.root = .object ref)
    (hnode : graph.nodes[ref]? = some node) (hkind : node.kind = .slotted slot) :
    ∃ fuel, ∀ enough, fuel ≤ enough → ∀ copy, snapshotJsonValue graph enough = some (some copy) →
      ∃ json, Denotes (lookFrom graph.nodes.length copy.nodes) copy.root json ∧
        node.slotData ≠ some json := by
  obtain ⟨fuel, hcalls⟩ := calls_forgetSlots graph
  refine ⟨fuel, fun enough henough copy hcopy => ?_⟩
  obtain ⟨snapshot, accepted, hsnapshot, -, -, -, hdata⟩ := hcalls enough henough
  rw [hcopy, Option.some.injEq] at hsnapshot
  obtain ⟨json, hdenotes, hcopied, -⟩ := hdata copy hsnapshot.symm
  refine ⟨json, hcopied, ?_⟩
  have hwhole := (hdenotes json).mpr rfl
  rw [hroot] at hwhole
  cases hwhole with
  | array entries hplain harray =>
    have hfound := Graph.nodes_of_plain hplain
    rw [graph.forgetSlots_at, hnode, Option.map_some, Option.some.injEq] at hfound
    rw [← hfound, Node.forgetSlot, hkind] at harray
    cases harray
  | object entries => exact slotData_ne_object (graph.raw node (List.mem_of_getElem? hnode)) _

/-- The calls end for every value; what is said of them holds exactly when no object with a slot is in
the value, or it is refused for another reason. -/
theorem lossless_json_boundary_iff (graph : Graph) :
    (∃ fuel, ∀ enough, fuel ≤ enough → (snapshotJsonValue graph enough).isSome = true ∧
      (isJsonValue graph enough).isSome = true) ∧
    (Boundary graph ↔ ¬ graph.ReachesSlot graph.root ∨ ¬ graph.forgetSlots.Lossless) := by
  constructor
  · obtain ⟨fuel, hcalls⟩ := calls_forgetSlots graph
    refine ⟨fuel, fun enough henough => ?_⟩
    obtain ⟨snapshot, accepted, hsnapshot, haccepted, -⟩ := hcalls enough henough
    rw [hsnapshot, haccepted]
    exact ⟨rfl, rfl⟩
  · constructor
    · intro hboundary
      rw [← not_and_or]
      exact fun ⟨hreach, hlossless⟩ => not_boundary hreach hlossless hboundary
    · rintro (hunreached | hrefused)
      · exact boundary_of_unreached hunreached
      · exact boundary_of_refused hrefused

/-- `JSON.rawJSON('1')`, beside the prototypes. -/
def rawOne : Graph where
  nodes := [
    ⟨.slotted .raw, none, [⟨.string (Utf16.encode "rawJSON"), true, .string (Utf16.encode "1")⟩]⟩,
    ⟨.record, none, []⟩, ⟨.array 0, some 1, []⟩]
  root := .object 0
  objectPrototype := 1
  arrayPrototype := 2
  closed := by simp [Value.Within]
  rooted := by simp [Value.Within]
  distinct := by decide
  ordered := by decide
  raw := by
    simp only [List.forall_mem_cons]
    refine ⟨fun _ => ⟨rfl, _, rfl, ?_⟩, nofun, nofun, nofun⟩
    intro s fields hs
    obtain rfl := Utf16.encode_injective hs
    have hparse : JsonSyntax.parse "1" = some (.number false ⟨['1'], [], none⟩) := rfl
    rw [JsonData.parse, hparse]
    nofun

theorem rawOne_outside : ¬ Boundary rawOne := by
  apply not_boundary
  · exact ⟨_, .refl, 0, _, .raw, rfl, rfl, rfl⟩
  · have hdenotes : Denotes rawOne.forgetSlots.plain rawOne.root
        (.object [(Utf16.encode "rawJSON", .text "1")]) := by
      refine .object [(Utf16.encode "rawJSON", .string (Utf16.encode "1"), .text "1")] rfl rfl rfl
        (by decide) (by decide) ?_
      exact List.forall_mem_singleton.mpr (.string _)
    rw [Graph.lossless_iff]
    exact Graph.not_flawed_of_denotes hdenotes

end Boundary

end Harness.JsonBoundary
