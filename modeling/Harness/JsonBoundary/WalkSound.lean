import Harness.JsonBoundary.WalkRules
import Mathlib.Data.List.TakeWhile

namespace Harness.JsonBoundary

open Harness.Foundation Relation

section Zip

variable {α β γ δ : Type}

theorem map_zipWith_left {f : α → β → γ} {g : γ → δ} {h : α → δ} (hfg : ∀ a b, g (f a b) = h a)
    {as : List α} {bs : List β} (hlength : as.length = bs.length) :
    (List.zipWith f as bs).map g = as.map h := by
  induction as generalizing bs with
  | nil => rfl
  | cons a as ih =>
    cases bs with
    | nil => cases hlength
    | cons b bs =>
      rw [List.zipWith_cons_cons, List.map_cons, List.map_cons, hfg,
        ih (Nat.succ.inj hlength)]

theorem forall_zipWith {p : γ → Prop} {f : α → β → γ} {as : List α} {bs : List β}
    (h : List.Forall₂ (fun a b => p (f a b)) as bs) : ∀ c ∈ List.zipWith f as bs, p c := by
  induction h with
  | nil => exact fun c hc => absurd hc List.not_mem_nil
  | cons hhead _ ih =>
    intro c hc
    rcases List.mem_cons.mp hc with rfl | hc
    · exact hhead
    · exact ih c hc

end Zip

section Fill

variable {target : Ref}

theorem defineOwn_last {properties : List Property} {key : Units} {value : Value}
    (h : ∀ property ∈ properties,
      comesBefore property.key (.string key) = true ∧ property.key ≠ .string key) :
    defineOwn properties key value = properties ++ [⟨.string key, true, value⟩] := by
  have hnew : (properties.any fun other => decide (other.key = .string key)) = false := by
    rw [List.any_eq_false]
    intro property hproperty
    rw [decide_eq_true_eq]
    exact (h property hproperty).2
  have htake : properties.takeWhile (fun other => comesBefore other.key (.string key)) =
      properties :=
    List.takeWhile_eq_self_iff.mpr fun property hproperty => (h property hproperty).1
  have hdrop : properties.dropWhile (fun other => comesBefore other.key (.string key)) = [] :=
    List.dropWhile_eq_nil_iff.mpr fun property hproperty => (h property hproperty).1
  simp only [defineOwn, hnew, htake, hdrop, Bool.false_eq_true, if_false]

theorem put_properties (slot : Slot) (item : Value) (node : Node) :
    ((slot.place target).put item node).properties =
      defineOwn node.properties slot.name item := by
  cases slot <;> rfl

theorem fill_properties {slots : List Slot} {items : List Value} {node : Node}
    (hlength : slots.length = items.length)
    (hordered : (node.keys ++ slots.map fun slot => Key.string slot.name).Pairwise
      fun a b => comesBefore a b = true ∧ a ≠ b) :
    (fill target slots items node).properties =
      node.properties ++
        List.zipWith (fun slot item => ⟨.string slot.name, true, item⟩) slots items := by
  induction slots generalizing items node with
  | nil => rw [List.zipWith_nil_left, List.append_nil, fill]; nofun
  | cons slot slots ih =>
    cases items with
    | nil => cases hlength
    | cons item items =>
      have hbefore : ∀ property ∈ node.properties,
          comesBefore property.key (.string slot.name) = true ∧
            property.key ≠ .string slot.name :=
        fun property hproperty => (List.pairwise_append.mp hordered).2.2 _
          (List.mem_map_of_mem hproperty) _ List.mem_cons_self
      have hput : ((slot.place target).put item node).properties =
          node.properties ++ [⟨.string slot.name, true, item⟩] := by
        rw [put_properties, defineOwn_last hbefore]
      have hkeys : ((slot.place target).put item node).keys =
          node.keys ++ [.string slot.name] := by
        rw [Node.keys, hput, List.map_append]
        rfl
      rw [fill, ih (Nat.succ.inj hlength), hput, List.append_assoc]
      · rfl
      · rw [hkeys, List.append_assoc]
        exact hordered

theorem fill_fields_kind {keys : List Units} {items : List Value} {node : Node} :
    (fill target (keys.map .field) items node).kind = node.kind := by
  induction keys generalizing items node with
  | nil => rw [List.map_nil, fill]; nofun
  | cons key keys ih =>
    cases items with
    | nil => rfl
    | cons item items =>
      rw [List.map_cons, fill, ih]
      rfl

theorem fill_items_kind (target : Ref) {first count : Nat} {items : List Value} (node : Node)
    (hlength : items.length = count) (hkind : node.kind = .array first) :
    (fill target ((List.range' first count).map .item) items node).kind =
      .array (first + count) := by
  induction count generalizing first items node with
  | zero =>
    rw [List.range'_zero, List.map_nil, fill]
    · exact hkind
    · nofun
  | succ count ih =>
    cases items with
    | nil => cases hlength
    | cons item items =>
      rw [List.range'_succ, List.map_cons, fill, ih _ (Nat.succ.inj hlength), Nat.add_assoc,
        Nat.add_comm 1 count]
      simp only [Slot.place, Destination.put, hkind, Kind.array.injEq]
      exact Nat.max_eq_right (Nat.le_add_right first 1)

end Fill

section Copies

variable {look : Ref → Option Node} {target : Ref}

theorem denotes_filled_array {entries : List (Value × JsonData)} {prototype : Option Ref}
    {items : List Value}
    (hnode : look target = some
      (fill target ((List.range entries.length).map .item) items ⟨.array 0, prototype, []⟩))
    (h : List.Forall₂ (Denotes look) items (entries.map Prod.snd)) :
    Denotes look (.object target) (.array (entries.map Prod.snd)) := by
  have hlength : entries.length = items.length := by
    rw [h.length_eq, List.length_map]
  have hslots : ((List.range entries.length).map Slot.item).length = items.length := by
    rw [List.length_map, List.length_range, hlength]
  let copied := List.zipWith (fun (e : Value × JsonData) item => (item, e.2)) entries items
  let node := fill target ((List.range entries.length).map .item) items ⟨.array 0, prototype, []⟩
  have hcopied : copied.length = entries.length := by
    rw [List.length_zipWith, ← hlength, Nat.min_self]
  have hitems : copied.map Prod.snd = entries.map Prod.snd := by
    apply map_zipWith_left _ hlength
    exact fun _ _ => rfl
  have hkind : node.kind = .array copied.length := by
    have hfilled := fill_items_kind target ⟨.array 0, prototype, []⟩ hlength.symm rfl
    rw [← List.range_eq_range', Nat.zero_add] at hfilled
    rw [hcopied]
    exact hfilled
  have hnames : ((List.range entries.length).map Slot.item).map
      (fun slot => Key.string slot.name) = indexKeys entries.length :=
    List.map_map
  have hproperties : node.properties =
      List.zipWith (fun slot item => ⟨.string slot.name, true, item⟩)
        ((List.range entries.length).map Slot.item) items := by
    apply fill_properties hslots
    rw [hnames]
    exact indexKeys_ordered entries.length
  have hkeys : node.keys = indexKeys entries.length := by
    rw [Node.keys, hproperties, ← hnames]
    apply map_zipWith_left _ hslots
    exact fun _ _ => rfl
  rw [← hitems]
  apply Denotes.array copied hnode hkind
  · intro i e he
    have hi : i < items.length := by
      rw [← hlength, ← hcopied]
      exact (List.getElem?_eq_some_iff.mp he).1
    have hmem : (⟨.string (indexKey i), true, items[i]⟩ : Property) ∈ node.properties := by
      rw [hproperties]
      apply List.mem_of_getElem? (i := i)
      rw [List.getElem?_zipWith_eq_some]
      exact ⟨.item i, items[i], by simp [hlength, hi], List.getElem?_eq_getElem hi, rfl⟩
    rw [Node.getOwn_eq (hkeys ▸ indexKeys_nodup _) hmem rfl, Option.map_some]
    obtain ⟨old, item, _, hitem, rfl⟩ := List.getElem?_zipWith_eq_some.mp he
    rw [List.getElem?_eq_getElem hi] at hitem
    exact hitem
  · intro property hproperty
    rw [← mem_indexKeys, hcopied, ← hkeys]
    exact List.mem_map_of_mem hproperty
  · apply forall_zipWith
    rw [List.forall₂_map_right_iff] at h
    exact h.flip

theorem denotes_filled_record {entries : List (Units × Value × JsonData)} {prototype : Option Ref}
    {items : List Value}
    (hnode : look target = some
      (fill target ((entries.map Prod.fst).map .field) items ⟨.record, prototype, []⟩))
    (hdistinct : (entries.map Prod.fst).Nodup)
    (hordered : (entries.map Prod.fst).Pairwise
      fun a b => comesBefore (.string a) (.string b) = true)
    (h : List.Forall₂ (Denotes look) items (entries.map fun e => e.2.2)) :
    Denotes look (.object target) (.object (entries.map fun e => (e.1, e.2.2))) := by
  have hlength : entries.length = items.length := by
    rw [h.length_eq, List.length_map]
  let copied :=
    List.zipWith (fun (e : Units × Value × JsonData) item => (e.1, item, e.2.2)) entries items
  have hkeys : copied.map Prod.fst = entries.map Prod.fst := by
    apply map_zipWith_left _ hlength
    exact fun _ _ => rfl
  have hfields : (copied.map fun e => (e.1, e.2.2)) = entries.map fun e => (e.1, e.2.2) := by
    apply map_zipWith_left _ hlength
    exact fun _ _ => rfl
  have hproperties : (fill target ((entries.map Prod.fst).map .field) items
      ⟨.record, prototype, []⟩).properties = copied.map fun e => ⟨.string e.1, true, e.2.1⟩ := by
    rw [fill_properties (by rw [List.length_map, List.length_map, hlength])]
    · rw [List.nil_append, List.zipWith_map_left, List.zipWith_map_left, List.map_zipWith]
      rfl
    · rw [Node.keys, List.map_nil, List.nil_append, List.map_map]
      have hboth := hordered.and hdistinct
      rw [List.pairwise_map] at hboth ⊢
      rw [List.pairwise_map]
      exact hboth.imp fun hpair => ⟨hpair.1, fun heq => hpair.2 (Key.string.inj heq)⟩
  rw [← hfields]
  apply Denotes.object copied hnode _ hproperties (hkeys ▸ hdistinct) (hkeys ▸ hordered)
  · apply forall_zipWith
    rw [List.forall₂_map_right_iff] at h
    exact h.flip
  · exact fill_fields_kind

end Copies

section Visits

variable {graph : Graph} {ancestors : List Ref} {source : Ref} {node : Node} {json : JsonData}

theorem enters_array {length : Nat} (hnode : graph.nodes[source]? = some node)
    (hkind : node.kind = .array length) (hfresh : source ∉ ancestors)
    (hplain : graph.hasPlainArrayPrototype node = true)
    (hcount : node.ownKeys.length = length + 1) :
    Enters graph ancestors source (Walk.emptyArray graph) ((List.range length).map .item) := by
  intro walk detach destination hancestors
  subst hancestors
  simp only [Walk.visitObject, hnode, hkind, if_neg hfresh, hplain, hcount, Bool.not_true,
    Bool.false_eq_true, if_false, ne_eq, not_true_eq_false, List.map_map]
  rfl

theorem enters_record {keys : List Units} (hnode : graph.nodes[source]? = some node)
    (hkind : node.kind = .record) (hfresh : source ∉ ancestors)
    (hplain : graph.hasPlainObjectPrototype node = true)
    (hkeys : enumerableStringKeys node = some keys) :
    Enters graph ancestors source (Walk.emptyObject graph) (keys.map .field) := by
  intro walk detach destination hancestors
  subst hancestors
  simp only [Walk.visitObject, hnode, hkind, if_neg hfresh, hplain, hkeys, Bool.not_true,
    Bool.false_eq_true, if_false, List.map_map]
  rfl

theorem slot_step {slot : Slot} {property : Property} (hnode : graph.nodes[source]? = some node)
    (hown : node.getOwn slot.name = some property) (walk : Walk) (detach : Bool)
    (target : Option Ref) :
    walk.step graph detach (slot.task source target) =
      some (walk.push (.visit property.value (target.map fun target => slot.place target))) := by
  cases slot with
  | item index =>
    rw [Slot.name] at hown
    simp only [Slot.task, Walk.step, hnode, Option.bind_some, hown, Slot.place]
  | field key =>
    rw [Slot.name] at hown
    simp only [Slot.task, Walk.step, hnode, Option.map_some, Option.getD_some, Node.read, hown,
      Slot.place]

theorem slotWalks_of_visit (slot : Slot) {property : Property}
    (hnode : graph.nodes[source]? = some node) (hown : node.getOwn slot.name = some property)
    (h : ∀ destination, Walks graph ancestors json (.visit property.value none)
      (.visit property.value (some destination)) destination) :
    SlotWalks graph ancestors source slot json := by
  intro target
  apply Walks.of_push _ _ (h (slot.place target))
  · exact fun walk => slot_step hnode hown walk false none
  · exact fun walk => slot_step hnode hown walk true (some target)

theorem child_of_getOwn {key : Units} {property : Property}
    (hnode : graph.nodes[source]? = some node) (hown : node.getOwn key = some property) :
    graph.Child (.object source) property.value :=
  ⟨source, node, rfl, hnode, property, (Node.mem_of_getOwn hown).1, rfl⟩

theorem map_stringKey {properties : List Property}
    (h : ∀ property ∈ properties, (stringKey property.key).isSome = true) :
    (properties.filterMap fun property => stringKey property.key).map Key.string =
      properties.map Property.key := by
  induction properties with
  | nil => rfl
  | cons property properties ih =>
    have hrest := ih fun other hother => h other (List.mem_cons_of_mem _ hother)
    have hkey := h property List.mem_cons_self
    cases hname : property.key with
    | symbol id =>
      rw [hname] at hkey
      cases hkey
    | string s =>
      rw [List.filterMap_cons_some (b := s) (by rw [hname]; rfl), List.map_cons, List.map_cons,
        hrest, hname]

theorem enumerableStringKeys_eq {keys : List Units} :
    enumerableStringKeys node = some keys ↔
      (∀ property ∈ node.properties, property.enumerable = true) ∧
        node.keys = keys.map .string := by
  unfold enumerableStringKeys
  constructor
  · intro h
    split at h
    · rename_i hall
      rw [List.all_eq_true] at hall
      cases h
      constructor
      · intro property hproperty
        exact (Bool.and_eq_true_iff.mp (hall property hproperty)).1
      · rw [map_stringKey fun property hproperty =>
          (Bool.and_eq_true_iff.mp (hall property hproperty)).2]
        rfl
    · cases h
  · rintro ⟨henumerable, hkeys⟩
    have hall : (node.properties.all fun property =>
        property.enumerable && (stringKey property.key).isSome) = true := by
      rw [List.all_eq_true]
      intro property hproperty
      have hkey : property.key ∈ keys.map Key.string :=
        hkeys ▸ List.mem_map_of_mem hproperty
      obtain ⟨s, _, hs⟩ := List.mem_map.mp hkey
      rw [henumerable property hproperty, ← hs]
      rfl
    have hfilter : (node.properties.filterMap fun property => stringKey property.key) =
        node.keys.filterMap stringKey := by
      rw [Node.keys, List.filterMap_map]
      rfl
    have hstrings : stringKey ∘ Key.string = some := rfl
    rw [if_pos hall, hfilter, hkeys, List.filterMap_map, hstrings, List.filterMap_some]

def Meets (graph : Graph) (ancestors : List Ref) (value : Value) : Prop :=
  ∃ ancestor ∈ ancestors, ReflTransGen graph.Child value (.object ancestor)

theorem meets_inside {item : Value} (hchild : graph.Child (.object source) item)
    (h : Meets graph (source :: ancestors) item) :
    TransGen graph.Child (.object source) (.object source) ∨
      Meets graph ancestors (.object source) := by
  obtain ⟨ancestor, hmem, hreach⟩ := h
  rcases List.mem_cons.mp hmem with rfl | hmem
  · exact .inl (.head' hchild hreach)
  · exact .inr ⟨ancestor, hmem, .head hchild hreach⟩

theorem not_mem_of_not_meets (h : ¬ Meets graph ancestors (.object source)) :
    source ∉ ancestors :=
  fun hmem => h ⟨source, hmem, .refl⟩

theorem not_meets_inside {item : Value} (h : Denotes graph.plain (.object source) json)
    (hmeets : ¬ Meets graph ancestors (.object source))
    (hchild : graph.Child (.object source) item) : ¬ Meets graph (source :: ancestors) item := by
  intro hitem
  rcases meets_inside hchild hitem with hcycle | hback
  · exact Graph.denotes_not_cyclic h hcycle
  · exact hmeets hback

theorem losslessNode_of_denotes (hnode : graph.nodes[source]? = some node)
    (h : Denotes graph.plain (.object source) json) : graph.LosslessNode node := by
  obtain ⟨found, hfound, hlossless⟩ := Graph.losslessAt_of_denotes h
  cases hnode.symm.trans hfound
  exact hlossless

theorem walks_of_denotes {value : Value} (h : Denotes graph.plain value json) :
    ∀ ancestors, ¬ Meets graph ancestors value → ∀ destination,
      Walks graph ancestors json (.visit value none) (.visit value (some destination))
        destination := by
  induction h with
  | null => exact fun _ _ _ => walks_scalar (fun _ _ _ => rfl) fun _ => .null
  | bool b => exact fun _ _ _ => walks_scalar (fun _ _ _ => rfl) fun _ => .bool b
  | number n => exact fun _ _ _ => walks_scalar (fun _ _ _ => rfl) fun _ => .number n
  | string s => exact fun _ _ _ => walks_scalar (fun _ _ _ => rfl) fun _ => .string s
  | @array source node entries hplain hkind hdense howned hentries ih =>
    intro ancestors hmeets destination
    have hnode := Graph.nodes_of_plain hplain
    have hself := Denotes.array entries hplain hkind hdense howned hentries
    have hlossless := losslessNode_of_denotes hnode hself
    simp only [Graph.LosslessNode, hkind] at hlossless
    have hcount : node.ownKeys.length = entries.length + 1 := by
      have hkeys := (owned_iff (Graph.keys_nodup hnode) hlossless.2.1).mpr howned
      simp only [Node.ownKeys, hkind, List.length_append, hkeys, List.length_singleton]
    apply walks_container (entries.map Prod.snd) (not_mem_of_not_meets hmeets)
      (enters_array hnode hkind (not_mem_of_not_meets hmeets) hlossless.1 hcount)
    · rw [List.forall₂_map_left_iff, List.forall₂_map_right_iff, List.forall₂_iff_get]
      refine ⟨List.length_range, ?_⟩
      intro i _ hi
      rw [List.get_eq_getElem, List.get_eq_getElem, List.getElem_range]
      obtain ⟨property, hown, hvalue⟩ := Option.map_eq_some_iff.mp
        (hdense i _ (List.getElem?_eq_getElem hi))
      apply slotWalks_of_visit (.item i) hnode hown
      rw [hvalue]
      apply ih _ (List.getElem_mem hi)
      rw [← hvalue]
      exact not_meets_inside hself hmeets (child_of_getOwn hnode hown)
    · exact fun _ _ _ hlook h => denotes_filled_array hlook h
  | @object source node entries hplain hkind hproperties hdistinct hordered hentries ih =>
    intro ancestors hmeets destination
    have hnode := Graph.nodes_of_plain hplain
    have hself := Denotes.object entries hplain hkind hproperties hdistinct hordered hentries
    have hlossless := losslessNode_of_denotes hnode hself
    simp only [Graph.LosslessNode, hkind] at hlossless
    have hkeys : enumerableStringKeys node = some (entries.map Prod.fst) := by
      rw [enumerableStringKeys_eq]
      refine ⟨fun property hproperty => (hlossless.2 property hproperty).1, ?_⟩
      rw [Node.keys, hproperties, List.map_map, List.map_map]
      rfl
    apply walks_container (entries.map fun e => e.2.2) (not_mem_of_not_meets hmeets)
      (enters_record hnode hkind (not_mem_of_not_meets hmeets) hlossless.1 hkeys)
    · rw [List.map_map, List.forall₂_map_left_iff, List.forall₂_map_right_iff,
        List.forall₂_same]
      intro e he
      have hmem : (⟨.string e.1, true, e.2.1⟩ : Property) ∈ node.properties := by
        rw [hproperties]
        exact List.mem_map_of_mem he
      have hown := Node.getOwn_eq (Graph.keys_nodup hnode) hmem rfl
      apply slotWalks_of_visit (.field e.1) hnode hown
      exact ih e he _ (not_meets_inside hself hmeets (child_of_getOwn hnode hown))
    · exact fun _ _ _ hlook h => denotes_filled_record hlook hdistinct hordered h

end Visits

section Verdict

variable {graph : Graph} {ancestors : List Ref} {source : Ref} {node : Node}

theorem exists_forall₂ {α β : Type} {r : α → β → Prop} {as : List α}
    (h : ∀ a ∈ as, ∃ b, r a b) : ∃ bs, List.Forall₂ r as bs := by
  induction as with
  | nil => exact ⟨[], .nil⟩
  | cons a as ih =>
    obtain ⟨b, hb⟩ := h a List.mem_cons_self
    obtain ⟨bs, hbs⟩ := ih fun other hother => h other (List.mem_cons_of_mem _ hother)
    exact ⟨b :: bs, .cons hb hbs⟩

def Settles (graph : Graph) (ancestors : List Ref) (node : Node) (slot : Slot) (json : JsonData) :
    Prop :=
  ∃ property, node.getOwn slot.name = some property ∧
    Denotes graph.plain property.value json ∧ ¬ Meets graph ancestors property.value

theorem Settles.walks {slot : Slot} {json : JsonData} (hnode : graph.nodes[source]? = some node)
    (h : Settles graph ancestors node slot json) : SlotWalks graph ancestors source slot json := by
  obtain ⟨property, hown, hdenotes, hmeets⟩ := h
  exact slotWalks_of_visit slot hnode hown (walks_of_denotes hdenotes _ hmeets)

theorem not_meets_container (hfresh : source ∉ ancestors)
    (h : ∀ item, graph.Child (.object source) item → ¬ Meets graph (source :: ancestors) item) :
    ¬ Meets graph ancestors (.object source) := by
  rintro ⟨ancestor, hmem, hreach⟩
  rcases ReflTransGen.cases_head hreach with heq | ⟨item, hchild, hrest⟩
  · exact hfresh (Value.object.inj heq ▸ hmem)
  · exact h item hchild ⟨ancestor, List.mem_cons_of_mem _ hmem, hrest⟩

theorem denotes_array {length : Nat} (hplain : graph.plain source = some node)
    (hkind : node.kind = .array length)
    (howned : ∀ property ∈ node.properties, ∃ i < length, property.key = .string (indexKey i))
    (h : ∀ slot ∈ (List.range length).map Slot.item,
      ∃ json, Settles graph (source :: ancestors) node slot json) :
    ∃ json, Denotes graph.plain (.object source) json := by
  have hitems : ∀ i ∈ List.range length, ∃ e : Value × JsonData,
      (node.getOwn (indexKey i)).map Property.value = some e.1 ∧
        Denotes graph.plain e.1 e.2 := by
    intro i hi
    obtain ⟨json, property, hown, hdenotes, _⟩ := h _ (List.mem_map_of_mem hi)
    exact ⟨(property.value, json), congrArg (Option.map Property.value) hown, hdenotes⟩
  obtain ⟨entries, hentries⟩ := exists_forall₂ hitems
  have hlength : length = entries.length := by
    rw [← hentries.length_eq, List.length_range]
  subst hlength
  refine ⟨_, .array entries hplain hkind ?_ howned ?_⟩
  · intro i e he
    obtain ⟨hi, rfl⟩ := List.getElem?_eq_some_iff.mp he
    have hat := (hentries.get (by rw [List.length_range]; exact hi) hi).1
    rw [List.get_eq_getElem, List.get_eq_getElem, List.getElem_range] at hat
    exact hat
  · intro e he
    obtain ⟨i, hi, rfl⟩ := List.getElem_of_mem he
    exact (hentries.get (by rw [List.length_range]; exact hi) hi).2

theorem denotes_record {keys : List Units} (hplain : graph.plain source = some node)
    (hkind : node.kind = .record)
    (henumerable : ∀ property ∈ node.properties, property.enumerable = true)
    (hkeys : node.keys = keys.map .string)
    (h : ∀ slot ∈ keys.map Slot.field,
      ∃ json, Settles graph (source :: ancestors) node slot json) :
    ∃ json, Denotes graph.plain (.object source) json := by
  have hnode := Graph.nodes_of_plain hplain
  have hfields : ∀ key ∈ keys, ∃ e : Units × Value × JsonData, e.1 = key ∧
      node.getOwn key = some ⟨.string e.1, true, e.2.1⟩ ∧ Denotes graph.plain e.2.1 e.2.2 := by
    intro key hkey
    obtain ⟨json, property, hown, hdenotes, _⟩ := h _ (List.mem_map_of_mem hkey)
    obtain ⟨hmem, hname⟩ := Node.mem_of_getOwn hown
    refine ⟨(key, property.value, json), rfl, ?_, hdenotes⟩
    have hsame : property = ⟨.string key, true, property.value⟩ := by
      rw [← henumerable property hmem]
      change property.key = .string key at hname
      rw [← hname]
    exact hsame ▸ hown
  obtain ⟨entries, hentries⟩ := exists_forall₂ hfields
  have hnames : entries.map Prod.fst = keys := by
    rw [← List.forall₂_eq_eq_eq, List.forall₂_map_left_iff]
    exact hentries.flip.imp fun _ _ hentry => hentry.1
  have hlength : node.properties.length = keys.length := by
    have hlengths := congrArg List.length hkeys
    rwa [Node.keys, List.length_map, List.length_map] at hlengths
  have hproperties : node.properties = entries.map fun e => ⟨.string e.1, true, e.2.1⟩ := by
    apply List.ext_getElem (by rw [List.length_map, hlength, hentries.length_eq])
    intro i hi hi'
    rw [List.length_map] at hi'
    have hkey : node.properties[i].key = .string keys[i] := by
      have hat := congrArg (fun names => names[i]?) hkeys
      simpa only [Node.keys, List.getElem?_map, List.getElem?_eq_getElem hi,
        List.getElem?_eq_getElem (hlength ▸ hi), Option.map_some, Option.some.injEq] using hat
    have hown := Node.getOwn_eq (Graph.keys_nodup hnode) (List.getElem_mem hi) hkey
    have hentry := (hentries.get (hlength ▸ hi) hi').2.1
    rw [List.get_eq_getElem, hown, Option.some.injEq] at hentry
    rw [List.getElem_map]
    exact hentry
  refine ⟨_, .object entries hplain hkind hproperties ?_ ?_ ?_⟩
  · have hdistinct := Graph.keys_nodup hnode
    rw [hkeys] at hdistinct
    rw [hnames]
    exact hdistinct.of_map _
  · have hordered := graph.ordered node (List.mem_of_getElem? hnode)
    rw [hkeys, List.pairwise_map] at hordered
    rw [hnames]
    exact hordered
  · intro e he
    obtain ⟨i, hi, rfl⟩ := List.getElem_of_mem he
    exact (hentries.get (hentries.length_eq ▸ hi) hi).2.2

structure Refused (graph : Graph) (ancestors : List Ref) (value : Value) : Prop where
  rejects : ∀ destination, Rejects graph ancestors [.visit value none]
    [.visit value (some destination)] destination.target
  flawed : graph.Flawed value ∨ Meets graph ancestors value

theorem flawed_of_not_lossless {value : Value} (h : ¬ graph.LosslessAt value) :
    graph.Flawed value :=
  ⟨value, .refl, .inl h⟩

theorem flawed_of_not_losslessNode (hnode : graph.nodes[source]? = some node)
    (h : ¬ graph.LosslessNode node) : graph.Flawed (.object source) := by
  apply flawed_of_not_lossless
  rintro ⟨found, hfound, hlossless⟩
  cases hnode.symm.trans hfound
  exact h hlossless

theorem refused_leaf {value : Value}
    (hvisit : ∀ (walk : Walk) (detach : Bool) (destination : Option Destination),
      walk.visit graph detach value destination = none)
    (h : ¬ graph.LosslessAt value) : Refused graph ancestors value where
  rejects _ := rejects_of_step (fun walk _ => hvisit walk false none)
    fun walk _ => hvisit walk true _
  flawed := .inl (flawed_of_not_lossless h)

theorem refused_object
    (hvisit : ∀ (walk : Walk) (detach : Bool) (destination : Option Destination),
      walk.ancestors = ancestors → walk.visitObject graph detach source destination = none)
    (h : graph.Flawed (.object source) ∨ Meets graph ancestors (.object source)) :
    Refused graph ancestors (.object source) where
  rejects _ := rejects_of_step (fun walk hancestors => hvisit walk false none hancestors)
    fun walk hancestors => hvisit walk true _ hancestors
  flawed := h

theorem denotes_leaf_not_meets {value : Value} (h : ∀ ref, value ≠ .object ref) :
    ¬ Meets graph ancestors value := by
  rintro ⟨ancestor, _, hreach⟩
  rcases ReflTransGen.cases_head hreach with heq | ⟨item, ⟨ref, _, href, _⟩, _⟩
  · exact h ancestor heq
  · exact h ref href

theorem slot_verdict {slot : Slot} {property : Property}
    (hnode : graph.nodes[source]? = some node) (hown : node.getOwn slot.name = some property)
    (h : Refused graph (source :: ancestors) property.value ∨ ∃ json,
      Denotes graph.plain property.value json ∧
        ¬ Meets graph (source :: ancestors) property.value) :
    (∃ json, Settles graph (source :: ancestors) node slot json) ∨
      (graph.Flawed (.object source) ∨ Meets graph ancestors (.object source)) ∧ ∀ target,
        Rejects graph (source :: ancestors) [slot.task source none]
          [slot.task source (some target)] (some target) := by
  have hchild := child_of_getOwn hnode hown
  rcases h with hrefused | ⟨json, hdenotes, hmeets⟩
  · right
    constructor
    · rcases hrefused.flawed with hflawed | hback
      · exact .inl (.of_child hchild hflawed)
      · rcases meets_inside hchild hback with hcycle | hback
        · exact .inl ⟨.object source, .refl, .inr hcycle⟩
        · exact .inr hback
    · intro target
      have hrejects := hrefused.rejects (slot.place target)
      rw [slot.place_target] at hrejects
      apply Rejects.of_push _ _ hrejects
      · exact fun walk => slot_step hnode hown walk false none
      · exact fun walk => slot_step hnode hown walk true (some target)
  · exact .inl ⟨json, property, hown, hdenotes, hmeets⟩

theorem container_verdict {copy : Node} {slots : List Slot} (hfresh : source ∉ ancestors)
    (hnode : graph.nodes[source]? = some node) (henters : Enters graph ancestors source copy slots)
    (hslots : ∀ slot ∈ slots,
      (∃ json, Settles graph (source :: ancestors) node slot json) ∨
        (graph.Flawed (.object source) ∨ Meets graph ancestors (.object source)) ∧ ∀ target,
          Rejects graph (source :: ancestors) [slot.task source none]
            [slot.task source (some target)] (some target))
    (hdenotes : (∀ slot ∈ slots, ∃ json, Settles graph (source :: ancestors) node slot json) →
      (∃ json, Denotes graph.plain (.object source) json) ∧
        ∀ property ∈ node.properties, ∃ slot ∈ slots, property.key = .string slot.name) :
    Refused graph ancestors (.object source) ∨ ∃ json,
      Denotes graph.plain (.object source) json ∧ ¬ Meets graph ancestors (.object source) := by
  rcases loop_settles (fun slot json hsettles => Settles.walks hnode hsettles) hslots with
    hsettled | ⟨hreason, hrejects⟩
  · obtain ⟨⟨json, hjson⟩, howned⟩ := hdenotes hsettled
    refine .inr ⟨json, hjson, not_meets_container hfresh ?_⟩
    rintro item ⟨ref, found, href, hfound, property, hproperty, rfl⟩
    cases href
    cases hnode.symm.trans hfound
    obtain ⟨slot, hslot, hkey⟩ := howned property hproperty
    obtain ⟨json, other, hown, _, hmeets⟩ := hsettled slot hslot
    rw [Node.getOwn_eq (Graph.keys_nodup hnode) hproperty hkey, Option.some.injEq] at hown
    exact hown ▸ hmeets
  · exact .inl ⟨rejects_container henters hrejects, hreason⟩

theorem array_verdict {length : Nat} (hfresh : source ∉ ancestors)
    (hnode : graph.nodes[source]? = some node) (hkind : node.kind = .array length)
    (h : ∀ value, Refused graph (source :: ancestors) value ∨ ∃ json,
      Denotes graph.plain value json ∧ ¬ Meets graph (source :: ancestors) value) :
    Refused graph ancestors (.object source) ∨ ∃ json,
      Denotes graph.plain (.object source) json ∧ ¬ Meets graph ancestors (.object source) := by
  have hloss : ¬ graph.LosslessNode node → graph.Flawed (.object source) :=
    flawed_of_not_losslessNode hnode
  simp only [Graph.LosslessNode, hkind] at hloss
  by_cases hproto : graph.hasPlainArrayPrototype node = true
  · by_cases hcount : node.ownKeys.length = length + 1
    · have hkeys : node.keys.length = length := by
        simpa only [Node.ownKeys, hkind, List.length_append, List.length_singleton,
          Nat.add_right_cancel_iff] using hcount
      apply container_verdict hfresh hnode (enters_array hnode hkind hfresh hproto hcount)
      · intro slot hslot
        obtain ⟨i, hi, rfl⟩ := List.mem_map.mp hslot
        cases hown : node.getOwn (indexKey i) with
        | some property => exact slot_verdict hnode hown (h property.value)
        | none =>
          right
          refine ⟨.inl (hloss ?_), ?_⟩
          · rintro ⟨_, hdense, _⟩
            obtain ⟨property, hproperty, hkey⟩ := hdense i (List.mem_range.mp hi)
            have hfound := Node.getOwn_eq (Graph.keys_nodup hnode) hproperty hkey
            rw [hown] at hfound
            cases hfound
          · intro target
            apply rejects_of_step
            · intro walk _
              simp only [Slot.task, Walk.step, hnode, Option.bind_some, hown]
            · intro walk _
              simp only [Slot.task, Walk.step, hnode, Option.bind_some, hown]
      · intro hsettled
        have hdense : ∀ i < length, ∃ property ∈ node.properties,
            property.key = .string (indexKey i) := by
          intro i hi
          obtain ⟨_, property, hown, _⟩ :=
            hsettled (.item i) (List.mem_map_of_mem (List.mem_range.mpr hi))
          exact ⟨property, Node.mem_of_getOwn hown⟩
        have howned := (owned_iff (Graph.keys_nodup hnode) hdense).mp hkeys
        have hplain : graph.plain source = some node := by
          rw [Graph.plain, hnode, Option.filter_some]
          simp only [hkind, hproto, if_true]
        refine ⟨denotes_array hplain hkind howned hsettled, ?_⟩
        intro property hproperty
        obtain ⟨i, hi, hkey⟩ := howned property hproperty
        exact ⟨.item i, List.mem_map_of_mem (List.mem_range.mpr hi), hkey⟩
    · left
      apply refused_object
      · intro walk detach destination hancestors
        subst hancestors
        simp only [Walk.visitObject, hnode, hkind, if_neg hfresh, hproto, hcount, Bool.not_true,
          Bool.false_eq_true, if_false, ne_eq, not_false_eq_true, if_true]
      · refine .inl (hloss ?_)
        rintro ⟨_, hdense, howned⟩
        apply hcount
        have hkeys := (owned_iff (Graph.keys_nodup hnode) hdense).mpr howned
        simp only [Node.ownKeys, hkind, List.length_append, hkeys, List.length_singleton]
  · left
    apply refused_object
    · intro walk detach destination hancestors
      subst hancestors
      simp only [Walk.visitObject, hnode, hkind, if_neg hfresh, hproto, Bool.not_false, if_true]
    · exact .inl (hloss fun hlossless => hproto hlossless.1)

theorem record_verdict (hfresh : source ∉ ancestors)
    (hnode : graph.nodes[source]? = some node) (hkind : node.kind = .record)
    (h : ∀ value, Refused graph (source :: ancestors) value ∨ ∃ json,
      Denotes graph.plain value json ∧ ¬ Meets graph (source :: ancestors) value) :
    Refused graph ancestors (.object source) ∨ ∃ json,
      Denotes graph.plain (.object source) json ∧ ¬ Meets graph ancestors (.object source) := by
  have hloss : ¬ graph.LosslessNode node → graph.Flawed (.object source) :=
    flawed_of_not_losslessNode hnode
  simp only [Graph.LosslessNode, hkind] at hloss
  by_cases hproto : graph.hasPlainObjectPrototype node = true
  · cases hkeys : enumerableStringKeys node with
    | some keys =>
      obtain ⟨henumerable, hnames⟩ := enumerableStringKeys_eq.mp hkeys
      have howned : ∀ property ∈ node.properties, ∃ slot ∈ keys.map Slot.field,
          property.key = .string slot.name := by
        intro property hproperty
        have hmem : property.key ∈ keys.map Key.string := hnames ▸ List.mem_map_of_mem hproperty
        obtain ⟨key, hkey, heq⟩ := List.mem_map.mp hmem
        exact ⟨.field key, List.mem_map_of_mem hkey, heq.symm⟩
      apply container_verdict hfresh hnode (enters_record hnode hkind hfresh hproto hkeys)
      · intro slot hslot
        obtain ⟨key, hkey, rfl⟩ := List.mem_map.mp hslot
        have hmem : Key.string key ∈ node.keys := hnames ▸ List.mem_map_of_mem hkey
        obtain ⟨property, hproperty, heq⟩ := List.mem_map.mp hmem
        exact slot_verdict hnode (Node.getOwn_eq (Graph.keys_nodup hnode) hproperty heq)
          (h property.value)
      · intro hsettled
        have hplain : graph.plain source = some node := by
          rw [Graph.plain, hnode, Option.filter_some]
          simp only [hkind, hproto, if_true]
        exact ⟨denotes_record hplain hkind henumerable hnames hsettled, howned⟩
    | none =>
      left
      apply refused_object
      · intro walk detach destination hancestors
        subst hancestors
        simp only [Walk.visitObject, hnode, hkind, if_neg hfresh, hproto, hkeys, Bool.not_true,
          Bool.false_eq_true, if_false]
      · refine .inl (hloss ?_)
        rintro ⟨_, hvisible⟩
        have hall : (node.properties.all fun property =>
            property.enumerable && (stringKey property.key).isSome) = true := by
          rw [List.all_eq_true]
          intro property hproperty
          obtain ⟨henumerable, s, hs⟩ := hvisible property hproperty
          rw [henumerable, hs]
          rfl
        rw [enumerableStringKeys, if_pos hall] at hkeys
        cases hkeys
  · left
    apply refused_object
    · intro walk detach destination hancestors
      subst hancestors
      simp only [Walk.visitObject, hnode, hkind, if_neg hfresh, hproto, Bool.not_false, if_true]
    · exact .inl (hloss fun hlossless => hproto hlossless.1)

/-- With fewer objects left than the ancestors leave room for, the walk refuses a value, or it
denotes JSON and does not lead back. -/
theorem verdict (hslotless : graph.Slotless) (room : Nat) (hdistinct : ancestors.Nodup)
    (hwithin : ∀ ancestor ∈ ancestors, ancestor < graph.nodes.length)
    (hroom : graph.nodes.length < room + ancestors.length) (value : Value) :
    Refused graph ancestors value ∨ ∃ json,
      Denotes graph.plain value json ∧ ¬ Meets graph ancestors value := by
  induction room generalizing ancestors value with
  | zero =>
    have hsub : ancestors ⊆ List.range graph.nodes.length :=
      fun ancestor hmem => List.mem_range.mpr (hwithin ancestor hmem)
    have hle := (hdistinct.subperm hsub).length_le
    rw [List.length_range] at hle
    omega
  | succ room ih =>
    cases value with
    | null => exact .inr ⟨_, .null, denotes_leaf_not_meets nofun⟩
    | bool b => exact .inr ⟨_, .bool b, denotes_leaf_not_meets nofun⟩
    | string s => exact .inr ⟨_, .string s, denotes_leaf_not_meets nofun⟩
    | undefined | bigint | symbol => exact .inl (refused_leaf (fun _ _ _ => rfl) nofun)
    | number n =>
      cases n with
      | finite n => exact .inr ⟨_, .number n, denotes_leaf_not_meets nofun⟩
      | negativeZero | nan | infinite => exact .inl (refused_leaf (fun _ _ _ => rfl) nofun)
    | object source =>
      by_cases hfresh : source ∈ ancestors
      · refine .inl (refused_object ?_ (.inr ⟨source, hfresh, .refl⟩))
        intro walk detach destination hancestors
        subst hancestors
        unfold Walk.visitObject
        split
        · rfl
        · split
          · rfl
          · rw [if_pos hfresh]
          · rw [if_pos hfresh]
          · rw [if_pos hfresh]
      · cases hnode : graph.nodes[source]? with
        | none =>
          refine .inl (refused_object ?_ (.inl (flawed_of_not_lossless ?_)))
          · intro walk detach destination _
            simp only [Walk.visitObject, hnode]
          · rintro ⟨found, hfound, _⟩
            rw [hnode] at hfound
            cases hfound
        | some node =>
          have hinside : ∀ value, Refused graph (source :: ancestors) value ∨ ∃ json,
              Denotes graph.plain value json ∧ ¬ Meets graph (source :: ancestors) value := by
            apply ih (List.nodup_cons.mpr ⟨hfresh, hdistinct⟩)
            · intro ancestor hmem
              rcases List.mem_cons.mp hmem with rfl | hmem
              · exact (List.getElem?_eq_some_iff.mp hnode).1
              · exact hwithin ancestor hmem
            · rw [List.length_cons]
              omega
          cases hkind : node.kind with
          | array length => exact array_verdict hfresh hnode hkind hinside
          | record => exact record_verdict hfresh hnode hkind hinside
          | slotted slot => exact absurd hkind (hslotless node (List.mem_of_getElem? hnode) slot)
          | function text name prototype =>
            refine .inl (refused_object ?_ (.inl (flawed_of_not_losslessNode hnode ?_)))
            · intro walk detach destination _
              simp only [Walk.visitObject, hnode, hkind]
            · simp only [Graph.LosslessNode, hkind, not_false_eq_true]

end Verdict

section Boundary

variable {graph : Graph}

/-- The walk of a whole value ends in a rejection, or in the JSON data that the value denotes. -/
theorem walk_ends (hslotless : graph.Slotless) :
    (graph.Flawed graph.root ∧ ∀ detach, Ends graph detach (.start graph detach) .rejected) ∨
    ∃ json item nodes, Denotes graph.plain graph.root json ∧
      Ends graph false (.start graph false) (.accepted none []) ∧
      Ends graph true (.start graph true) (.accepted (some item) nodes) ∧
      Denotes (lookFrom graph.nodes.length nodes) item json := by
  let idle : Walk := { tasks := [], ancestors := [], root := none, targets := [] }
  have hplaced : Placed graph idle (Destination.target .root) := by nofun
  have hverdict := verdict hslotless (graph.nodes.length + 1) (List.nodup_nil (α := Ref)) (by nofun)
    (Nat.lt_succ_self graph.nodes.length) graph.root
  rcases hverdict with ⟨hrejects, hflawed⟩ | ⟨json, hdenotes, hmeets⟩
  · refine .inl ⟨hflawed.resolve_right (by rintro ⟨_, hmem, _⟩; cases hmem), ?_⟩
    intro detach
    cases detach with
    | false => exact (hrejects .root).tests idle rfl
    | true => exact (hrejects .root).copies idle rfl hplaced
  · have hwalks := walks_of_denotes hdenotes [] hmeets .root
    obtain ⟨item, nodes, hsteps, hcopy⟩ := hwalks.copies idle rfl hplaced
    exact .inr ⟨json, item, nodes, hdenotes, .of_steps (hwalks.tests idle rfl) (ends_accepted rfl),
      .of_steps hsteps (ends_accepted rfl), hcopy⟩

/-- Both calls end, and take the value exactly when it is lossless; the snapshot is the data of the value
in objects of its own, and its text is read as it is. -/
def Boundary (graph : Graph) : Prop :=
  ∃ fuel, ∀ enough, fuel ≤ enough → ∃ snapshot accepted,
    snapshotJsonValue graph enough = some snapshot ∧ isJsonValue graph enough = some accepted ∧
    (snapshot.isSome = true ↔ graph.Lossless) ∧ (accepted = true ↔ graph.Lossless) ∧
    ∀ copy ∈ snapshot, ∃ json, (∀ data, Denotes graph.plain graph.root data ↔ data = json) ∧
      Denotes (lookFrom graph.nodes.length copy.nodes) copy.root json ∧
      JsonData.parse (JsonData.stringify json) = some json

theorem boundary_of_slotless (hslotless : graph.Slotless) : Boundary graph := by
  rcases walk_ends hslotless with ⟨hflawed, hends⟩ |
    ⟨json, item, nodes, hdenotes, ⟨testing, htests⟩, ⟨copying, hcopies⟩, hcopy⟩
  · obtain ⟨testing, htests⟩ := hends false
    obtain ⟨copying, hcopies⟩ := hends true
    have hlossy : ¬ graph.Lossless := fun h => (Graph.lossless_iff graph).mp h hflawed
    refine ⟨max testing copying, ?_⟩
    intro enough henough
    refine ⟨none, false, ?_, ?_, by simp [hlossy], by simp [hlossy], nofun⟩
    · rw [snapshotJsonValue, walkJsonValue, hcopies enough (by omega), Option.map_some]
    · rw [isJsonValue, walkJsonValue, htests enough (by omega), Option.map_some]
  · have hlossless : graph.Lossless :=
      (Graph.lossless_iff graph).mpr (Graph.not_flawed_of_denotes hdenotes)
    refine ⟨max testing copying, ?_⟩
    intro enough henough
    refine ⟨some ⟨item, nodes⟩, true, ?_, ?_, by simp [hlossless], by simp [hlossless], ?_⟩
    · rw [snapshotJsonValue, walkJsonValue, hcopies enough (by omega), Option.map_some]
      rfl
    · rw [isJsonValue, walkJsonValue, htests enough (by omega), Option.map_some]
    · rintro copy ⟨rfl⟩
      refine ⟨json, ?_, hcopy, hdenotes.round_trip⟩
      intro data
      constructor
      · exact fun h => h.unique hdenotes
      · rintro rfl
        exact hdenotes

end Boundary

end Harness.JsonBoundary
