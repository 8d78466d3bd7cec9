import Harness.Redaction.Redact
import Mathlib.Data.List.Nodup

namespace Harness.Redaction

open Harness.Foundation

inductive JsValue.Plain : JsValue → Prop
  | undefined : Plain .undefined
  | atom (a : Atom) : Plain (.atom a)
  | array {items : List JsValue} (h : ∀ item ∈ items, Plain item) : Plain (.array items)
  | record {entries : List (String × JsValue)} (hnodup : (entries.map Prod.fst).Nodup)
      (h : ∀ entry ∈ entries, Plain entry.2) : Plain (.record entries)

inductive SchemaNode.WellFormed : SchemaNode → Prop
  | leaf (role : Option String) : WellFormed (.leaf role)
  | object (role : Option String) {properties : List (String × SchemaNode)}
      (hnodup : (properties.map Prod.fst).Nodup)
      (h : ∀ property ∈ properties, WellFormed property.2) : WellFormed (.object role properties)
  | dict (role : Option String) {inner : SchemaNode} (h : WellFormed inner) :
      WellFormed (.dict role inner)
  | array (role : Option String) {inner : SchemaNode} (h : WellFormed inner) :
      WellFormed (.array role inner)

def RedactedSecret.under (path : List String) (secret : RedactedSecret) : RedactedSecret :=
  ⟨path ++ secret.path, secret.set⟩

def strip (node : SchemaNode) (value : JsValue) : JsValue := (walk node value []).1

def positions (node : SchemaNode) (value : JsValue) : List RedactedSecret := (walk node value []).2

def Places (walkInner : JsValue → List String → Walk JsValue) : Prop :=
  ∀ value path, walkInner value path =
    ((walkInner value []).1, (walkInner value []).2.map (RedactedSecret.under path))

def keepEach {β : Type} (f : String × β → JsValue) (entries : List (String × β))
    (rebuilt : Rebuilt) : Rebuilt :=
  entries.foldl (fun rebuilt entry => Rebuilt.keep rebuilt entry.1 (f entry)) rebuilt

def gather {β : Type} (f : String × β → List RedactedSecret) (entries : List (String × β)) :
    List RedactedSecret :=
  entries.flatMap fun entry => (f entry).map (RedactedSecret.under [entry.1])

def indexed (index : Nat) (items : List JsValue) : List (String × JsValue) :=
  (items.zipIdx index).map fun item => (toString item.2, item.1)

section Loops

variable {walkInner : JsValue → List String → Walk JsValue}

theorem map_under_nil (secrets : List RedactedSecret) :
    secrets.map (RedactedSecret.under []) = secrets :=
  List.map_id'' (fun _ => rfl) secrets

theorem map_under (path : List String) (key : String) (secrets : List RedactedSecret) :
    secrets.map (RedactedSecret.under (path ++ [key])) =
      (secrets.map (RedactedSecret.under [key])).map (RedactedSecret.under path) := by
  rw [List.map_map]
  apply List.map_congr_left
  intro secret _
  simp only [Function.comp_apply, RedactedSecret.under, List.append_assoc]

theorem walkEntries_eq (h : Places walkInner) (path : List String) (rebuilt : Rebuilt)
    (entries : List (String × JsValue)) :
    walkEntries walkInner path rebuilt entries =
      (keepEach (fun entry => (walkInner entry.2 []).1) entries rebuilt,
        (gather (fun entry => (walkInner entry.2 []).2) entries).map
          (RedactedSecret.under path)) := by
  induction entries generalizing rebuilt with
  | nil => rfl
  | cons entry rest ih =>
    simp only [walkEntries, keepEach, gather, List.foldl_cons, List.flatMap_cons, List.map_append]
    rw [h entry.2 (path ++ [entry.1]), ih, map_under]
    rfl

theorem walkItems_eq (h : Places walkInner) (path : List String) (index : Nat)
    (items : List JsValue) :
    walkItems walkInner path index items =
      (items.map fun item => (walkInner item []).1,
        (gather (fun entry => (walkInner entry.2 []).2) (indexed index items)).map
          (RedactedSecret.under path)) := by
  induction items generalizing index with
  | nil => rfl
  | cons item rest ih =>
    simp only [walkItems, gather, indexed, List.map_cons, List.zipIdx_cons, List.flatMap_cons,
      List.map_append]
    rw [h item (path ++ [toString index]), ih, map_under]
    rfl

theorem walkProperties_eq {properties : List (String × SchemaNode)}
    (h : ∀ property ∈ properties, Places (walk property.2)) (source : JsValue)
    (path : List String) (rebuilt : Rebuilt) :
    walkProperties properties source path rebuilt =
      (keepEach (fun property => strip property.2 (source.property property.1)) properties rebuilt,
        (gather (fun property => positions property.2 (source.property property.1))
          properties).map (RedactedSecret.under path)) := by
  induction properties generalizing rebuilt with
  | nil => rw [walkProperties]; rfl
  | cons property rest ih =>
    have hfirst := h property List.mem_cons_self
    simp only [walkProperties, keepEach, gather, List.foldl_cons, List.flatMap_cons,
      List.map_append]
    rw [hfirst _ (path ++ [property.1]), ih fun p hp => h p (List.mem_cons_of_mem _ hp), map_under]
    rfl

end Loops

section Equations

variable {role : Option String} {properties : List (String × SchemaNode)} {inner : SchemaNode}

theorem walk_secret {node : SchemaNode} (h : node.IsSecret) (value : JsValue)
    (path : List String) : walk node value path = (.undefined, [⟨path, !value.isUndefined⟩]) := by
  cases node <;> exact if_pos h

theorem walk_leaf (h : role ≠ some secretRole) (value : JsValue) (path : List String) :
    walk (.leaf role) value path = (value, []) := if_neg h

theorem walk_object (h : role ≠ some secretRole)
    (hplaces : ∀ property ∈ properties, Places (walk property.2)) (value : JsValue)
    (path : List String) :
    walk (.object role properties) value path =
      let rebuilt := keepEach (fun property => strip property.2 (value.property property.1))
        properties (copyUndeclared properties (value.entries?.getD []))
      (if value.entries?.isNone ∧ rebuilt.entries = [] then value else .record rebuilt.entries,
        (gather (fun property => positions property.2 (value.property property.1))
          properties).map (RedactedSecret.under path)) := by
  refine (if_neg h).trans ?_
  simp only [walkProperties_eq hplaces]
  split <;> rfl

theorem walk_dict (h : role ≠ some secretRole) (hplaces : Places (walk inner)) (value : JsValue)
    (path : List String) :
    walk (.dict role inner) value path =
      match value.entries? with
      | none => (value, [])
      | some entries =>
        (.record (keepEach (fun entry => strip inner entry.2) entries OrderedMap.empty).entries,
          (gather (fun entry => positions inner entry.2) entries).map
            (RedactedSecret.under path)) := by
  refine (if_neg h).trans ?_
  simp only [walkEntries_eq hplaces]
  rfl

theorem walk_array (h : role ≠ some secretRole) (hplaces : Places (walk inner))
    (items : List JsValue) (path : List String) :
    walk (.array role inner) (.array items) path =
      (.array (items.map (strip inner)),
        (gather (fun entry => positions inner entry.2) (indexed 0 items)).map
          (RedactedSecret.under path)) := by
  refine (if_neg h).trans ?_
  simp only [walkItems_eq hplaces]
  rfl

theorem Places.of_map {walkInner : JsValue → List String → Walk JsValue}
    (h : ∀ value, ∃ (stripped : JsValue) (secrets : List RedactedSecret), ∀ path,
      walkInner value path = (stripped, secrets.map (RedactedSecret.under path))) :
    Places walkInner := by
  intro value path
  obtain ⟨stripped, secrets, hwalk⟩ := h value
  rw [hwalk, hwalk, map_under_nil]

theorem places_secret {node : SchemaNode} (h : node.IsSecret) : Places (walk node) := by
  apply Places.of_map
  intro value
  refine ⟨.undefined, [⟨[], !value.isUndefined⟩], fun path => ?_⟩
  rw [walk_secret h, List.map_singleton, RedactedSecret.under, List.append_nil]

theorem places_walk {node : SchemaNode} (h : node.WellFormed) : Places (walk node) := by
  induction h with
  | leaf role =>
    by_cases hrole : role = some secretRole
    · exact places_secret hrole
    · exact Places.of_map fun value => ⟨value, [], walk_leaf hrole value⟩
  | object role hnodup h ih =>
    by_cases hrole : role = some secretRole
    · exact places_secret hrole
    · exact Places.of_map fun value => ⟨_, _, walk_object hrole ih value⟩
  | dict role h ih =>
    by_cases hrole : role = some secretRole
    · exact places_secret hrole
    · apply Places.of_map
      intro value
      simp only [walk_dict hrole ih]
      cases value.entries? with
      | none => exact ⟨value, [], fun _ => rfl⟩
      | some entries => exact ⟨_, _, fun _ => rfl⟩
  | array role h ih =>
    by_cases hrole : role = some secretRole
    · exact places_secret hrole
    · apply Places.of_map
      intro value
      cases value with
      | array items => exact ⟨_, _, walk_array hrole ih items⟩
      | undefined | atom | record | objectPrototype =>
        exact ⟨_, [], fun _ => if_neg hrole⟩

def SchemaNode.opens : SchemaNode → JsValue → Bool
  | .object _ _, .record _ => true
  | .dict _ _, .record _ => true
  | .array _ _, .array _ => true
  | _, _ => false

theorem strip_secret {node : SchemaNode} (h : node.IsSecret) (value : JsValue) :
    strip node value = .undefined := congrArg Prod.fst (walk_secret h value [])

theorem positions_secret {node : SchemaNode} (h : node.IsSecret) (value : JsValue) :
    positions node value = [⟨[], !value.isUndefined⟩] := congrArg Prod.snd (walk_secret h value [])

theorem positions_object (hrole : role ≠ some secretRole)
    (h : (SchemaNode.object role properties).WellFormed) (value : JsValue) :
    positions (.object role properties) value =
      gather (fun property => positions property.2 (value.property property.1)) properties := by
  cases h with
  | object _ _ h =>
    rw [positions, walk_object hrole fun property hp => places_walk (h property hp), map_under_nil]

theorem strip_object (hrole : role ≠ some secretRole)
    (h : (SchemaNode.object role properties).WellFormed) (entries : List (String × JsValue)) :
    strip (.object role properties) (.record entries) =
      .record (keepEach (fun property =>
        strip property.2 ((JsValue.record entries).property property.1)) properties
          (copyUndeclared properties entries)).entries := by
  cases h with
  | object _ _ h =>
    rw [strip, walk_object hrole fun property hp => places_walk (h property hp)]
    dsimp only
    rw [if_neg]
    · rfl
    · rintro ⟨hnone, -⟩
      cases hnone

theorem strip_dict (hrole : role ≠ some secretRole) (h : inner.WellFormed)
    (entries : List (String × JsValue)) :
    strip (.dict role inner) (.record entries) =
      .record (keepEach (fun entry => strip inner entry.2) entries OrderedMap.empty).entries := by
  rw [strip, walk_dict hrole (places_walk h)]
  rfl

theorem positions_dict (hrole : role ≠ some secretRole) (h : inner.WellFormed)
    (entries : List (String × JsValue)) :
    positions (.dict role inner) (.record entries) =
      gather (fun entry => positions inner entry.2) entries := by
  rw [positions, walk_dict hrole (places_walk h)]
  exact map_under_nil _

theorem strip_array (hrole : role ≠ some secretRole) (h : inner.WellFormed)
    (items : List JsValue) :
    strip (.array role inner) (.array items) = .array (items.map (strip inner)) := by
  rw [strip, walk_array hrole (places_walk h)]

theorem positions_array (hrole : role ≠ some secretRole) (h : inner.WellFormed)
    (items : List JsValue) :
    positions (.array role inner) (.array items) =
      gather (fun entry => positions inner entry.2) (indexed 0 items) := by
  rw [positions, walk_array hrole (places_walk h), map_under_nil]

end Equations

section Lookup

def own (entries : List (String × JsValue)) (key : String) : JsValue :=
  (entries.lookup key).getD .undefined

theorem own_set (rebuilt : Rebuilt) (key other : String) (value : JsValue) :
    own (OrderedMap.set rebuilt key value).entries other =
      if other = key then value else own rebuilt.entries other := by
  have hget := OrderedMap.get?_set rebuilt key value other
  rw [OrderedMap.get?, OrderedMap.get?] at hget
  rw [own, hget]
  split <;> rfl

theorem own_assign (rebuilt : Rebuilt) (key other : String) (value : JsValue) :
    own (rebuilt.assign key value).entries other =
      if other = key ∧ key ≠ proto then value else own rebuilt.entries other := by
  rw [Rebuilt.assign]
  by_cases hproto : key = proto
  · rw [if_pos hproto, if_neg fun h => h.2 hproto]
  · rw [if_neg hproto, own_set]
    exact if_congr (iff_self_and.mpr fun _ => hproto) rfl rfl

theorem JsValue.eq_undefined {value : JsValue} (h : value.isUndefined = true) :
    value = .undefined := by
  cases value with
  | undefined => rfl
  | atom | array | record | objectPrototype => cases h

theorem own_keep_of_ne (rebuilt : Rebuilt) {key other : String} (value : JsValue)
    (h : other = key → key = proto) :
    own (rebuilt.keep key value).entries other = own rebuilt.entries other := by
  rw [Rebuilt.keep]
  split
  · rfl
  · rw [own_assign, if_neg fun hkey => hkey.2 (h hkey.1)]

theorem own_keep_self {rebuilt : Rebuilt} {key : String} (value : JsValue) (hproto : key ≠ proto)
    (hnew : own rebuilt.entries key = .undefined) :
    own (rebuilt.keep key value).entries key = value := by
  rw [Rebuilt.keep]
  split
  · next hundefined => rw [hnew, JsValue.eq_undefined hundefined]
  · rw [own_assign, if_pos ⟨rfl, hproto⟩]

theorem lookup_eq_none_iff {β : Type} {entries : List (String × β)} {key : String} :
    entries.lookup key = none ↔ key ∉ entries.map Prod.fst := by
  rw [List.lookup_eq_none_iff, List.mem_map]
  constructor
  · rintro h ⟨entry, hmem, rfl⟩
    exact absurd (h entry hmem) (by rw [bne_self_eq_false]; nofun)
  · intro h entry hmem
    exact bne_iff_ne.mpr fun heq => h ⟨entry, hmem, heq.symm⟩

theorem mem_iff_lookup {β : Type} {entries : List (String × β)}
    (hnodup : (entries.map Prod.fst).Nodup) {key : String} {b : β} :
    (key, b) ∈ entries ↔ entries.lookup key = some b :=
  OrderedMap.mem_entries_iff (m := ⟨entries, hnodup⟩)

theorem own_keepEach {β : Type} (f : String × β → JsValue) {entries : List (String × β)}
    (hnodup : (entries.map Prod.fst).Nodup) {rebuilt : Rebuilt} {key : String}
    (hnew : key ∈ entries.map Prod.fst → own rebuilt.entries key = .undefined) :
    own (keepEach f entries rebuilt).entries key =
      if key = proto then own rebuilt.entries key
      else match entries.lookup key with
        | none => own rebuilt.entries key
        | some entry => f (key, entry) := by
  induction entries generalizing rebuilt with
  | nil => exact (ite_self _).symm
  | cons entry rest ih =>
    rw [List.map_cons, List.nodup_cons] at hnodup
    obtain ⟨hfresh, hnodup⟩ := hnodup
    rw [keepEach, List.foldl_cons, ← keepEach, ih hnodup]
    · by_cases hproto : key = proto
      · rw [if_pos hproto, if_pos hproto]
        exact own_keep_of_ne rebuilt _ fun heq => heq ▸ hproto
      · rw [if_neg hproto, if_neg hproto]
        obtain ⟨name, b⟩ := entry
        rw [List.lookup_cons]
        by_cases hkey : key = name
        · have hself := own_keep_self (f (key, b)) hproto (hnew (by rw [hkey]; exact .head _))
          rw [← hkey] at hfresh ⊢
          rw [lookup_eq_none_iff.mpr hfresh, beq_self_eq_true]
          exact hself
        · rw [beq_false_of_ne hkey, own_keep_of_ne rebuilt _ fun heq => absurd heq hkey]
    · intro hkey
      have hne : key ≠ entry.1 := fun heq => hfresh (heq ▸ hkey)
      rw [own_keep_of_ne rebuilt _ fun heq => absurd heq hne]
      exact hnew (List.mem_cons_of_mem _ hkey)

theorem proto_mem : proto ∈ objectMembers := by decide +kernel

theorem inProperties_proto (properties : List (String × SchemaNode)) :
    inProperties properties proto = true :=
  decide_eq_true (.inr proto_mem)

theorem own_copyFrom (properties : List (String × SchemaNode))
    {entries : List (String × JsValue)} (hnodup : (entries.map Prod.fst).Nodup) (rebuilt : Rebuilt)
    (key : String) :
    own (entries.foldl (fun rebuilt entry =>
        if inProperties properties entry.1 then rebuilt else rebuilt.assign entry.1 entry.2)
      rebuilt).entries key =
      match entries.lookup key with
      | none => own rebuilt.entries key
      | some value => if inProperties properties key then own rebuilt.entries key else value := by
  induction entries generalizing rebuilt with
  | nil => rfl
  | cons entry rest ih =>
    obtain ⟨name, value⟩ := entry
    rw [List.map_cons, List.nodup_cons] at hnodup
    obtain ⟨hfresh, hnodup⟩ := hnodup
    rw [List.foldl_cons, ih hnodup, List.lookup_cons]
    by_cases hkey : key = name
    · rw [hkey, lookup_eq_none_iff.mpr hfresh, beq_self_eq_true]
      dsimp only
      by_cases hopen : inProperties properties name = true
      · rw [if_pos hopen, if_pos hopen]
      · rw [if_neg hopen, if_neg hopen, own_assign]
        exact if_pos ⟨rfl, fun heq => hopen (heq ▸ inProperties_proto properties)⟩
    · rw [beq_false_of_ne hkey]
      have hsame : own (if inProperties properties name then rebuilt
          else rebuilt.assign name value).entries key = own rebuilt.entries key := by
        split
        · rfl
        · rw [own_assign, if_neg fun heq => hkey heq.1]
      rw [hsame]

theorem own_copyUndeclared (properties : List (String × SchemaNode))
    {entries : List (String × JsValue)} (hnodup : (entries.map Prod.fst).Nodup) (key : String) :
    own (copyUndeclared properties entries).entries key =
      if inProperties properties key then .undefined else own entries key := by
  rw [copyUndeclared, own_copyFrom properties hnodup, own, OrderedMap.entries_empty]
  cases hlookup : entries.lookup key with
  | none => rw [own, hlookup]; exact (ite_self _).symm
  | some value => rw [own, hlookup]; rfl

theorem own_strip_object {properties : List (String × SchemaNode)}
    {entries : List (String × JsValue)}
    (hproperties : (properties.map Prod.fst).Nodup) (hentries : (entries.map Prod.fst).Nodup)
    (key : String) :
    own (keepEach (fun property =>
        strip property.2 ((JsValue.record entries).property property.1)) properties
      (copyUndeclared properties entries)).entries key =
      if key = proto then .undefined
      else match properties.lookup key with
        | some child => strip child ((JsValue.record entries).property key)
        | none => if key ∈ objectMembers then .undefined else own entries key := by
  rw [own_keepEach _ hproperties, own_copyUndeclared properties hentries]
  · by_cases hproto : key = proto
    · rw [if_pos hproto, if_pos hproto, hproto, inProperties_proto, if_pos rfl]
    · rw [if_neg hproto, if_neg hproto]
      cases hlookup : properties.lookup key with
      | some child => rfl
      | none =>
        have hundeclared := lookup_eq_none_iff.mp hlookup
        refine if_congr ?_ rfl rfl
        rw [inProperties, decide_eq_true_eq]
        exact or_iff_right hundeclared
  · intro hkey
    have hdeclared : inProperties properties key = true := decide_eq_true (.inl hkey)
    rw [own_copyUndeclared properties hentries, if_pos hdeclared]

theorem own_strip_dict {inner : SchemaNode} {entries : List (String × JsValue)}
    (hentries : (entries.map Prod.fst).Nodup) (key : String) :
    own (keepEach (fun entry => strip inner entry.2) entries OrderedMap.empty).entries key =
      if key = proto then .undefined
      else match entries.lookup key with
        | none => .undefined
        | some entry => strip inner entry := by
  rw [own_keepEach (fun entry => strip inner entry.2) hentries fun _ => rfl]
  split
  · rfl
  · cases entries.lookup key <;> rfl

end Lookup

end Harness.Redaction
