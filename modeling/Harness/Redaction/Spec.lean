import Harness.Redaction.Rules

namespace Harness.Redaction

open Harness.Foundation

inductive Same : JsValue → JsValue → Prop
  | undefined : Same .undefined .undefined
  | atom (a : Atom) : Same (.atom a) (.atom a)
  | array {items others : List JsValue} (hlength : items.length = others.length)
      (h : ∀ (index : Nat) (item other : JsValue), items[index]? = some item →
        others[index]? = some other → Same item other) : Same (.array items) (.array others)
  | record {entries others : List (String × JsValue)}
      (h : ∀ key, Same (own entries key) (own others key)) : Same (.record entries) (.record others)

inductive Redacts : SchemaNode → JsValue → JsValue → Prop
  | secret {node : SchemaNode} {value : JsValue} (h : node.IsSecret) :
      Redacts node value .undefined
  | closed {node : SchemaNode} {value other : JsValue} (h : ¬ node.IsSecret)
      (hclosed : node.opens value = false) (hsame : Same value other) : Redacts node value other
  | object {role : Option String} {properties : List (String × SchemaNode)}
      {entries others : List (String × JsValue)} (h : role ≠ some secretRole)
      (hundeclared : ∀ key, properties.lookup key = none → Same (own entries key) (own others key))
      (hdeclared : ∀ key child, properties.lookup key = some child →
        Redacts child (own entries key) (own others key)) :
      Redacts (.object role properties) (.record entries) (.record others)
  | dict {role : Option String} {inner : SchemaNode} {entries others : List (String × JsValue)}
      (h : role ≠ some secretRole)
      (hentries : ∀ key, Redacts inner (own entries key) (own others key)) :
      Redacts (.dict role inner) (.record entries) (.record others)
  | array {role : Option String} {inner : SchemaNode} {items others : List JsValue}
      (h : role ≠ some secretRole) (hlength : items.length = others.length)
      (hitems : ∀ (index : Nat) (item other : JsValue), items[index]? = some item →
        others[index]? = some other → Redacts inner item other) :
      Redacts (.array role inner) (.array items) (.array others)

def JsValue.ownProperty : JsValue → String → JsValue
  | .record entries, key => own entries key
  | _, _ => .undefined

inductive SecretAt : SchemaNode → JsValue → List String → Bool → Prop
  | here {node : SchemaNode} {value : JsValue} (h : node.IsSecret) :
      SecretAt node value [] (!value.isUndefined)
  | property {role : Option String} {properties : List (String × SchemaNode)} {value : JsValue}
      {key : String} {child : SchemaNode} {path : List String} {set : Bool}
      (h : role ≠ some secretRole) (hchild : (key, child) ∈ properties)
      (hat : SecretAt child (value.ownProperty key) path set) :
      SecretAt (.object role properties) value (key :: path) set
  | entry {role : Option String} {inner : SchemaNode} {entries : List (String × JsValue)}
      {key : String} {value : JsValue} {path : List String} {set : Bool}
      (h : role ≠ some secretRole) (hentry : (key, value) ∈ entries)
      (hat : SecretAt inner value path set) :
      SecretAt (.dict role inner) (.record entries) (key :: path) set
  | item {role : Option String} {inner : SchemaNode} {items : List JsValue} {index : Nat}
      {value : JsValue} {path : List String} {set : Bool} (h : role ≠ some secretRole)
      (hitem : items[index]? = some value) (hat : SecretAt inner value path set) :
      SecretAt (.array role inner) (.array items) (toString index :: path) set

structure Lists (node : SchemaNode) (value : JsValue) (secrets : List RedactedSecret) : Prop where
  exact : ∀ secret, secret ∈ secrets ↔ SecretAt node value secret.path secret.set
  once : (secrets.map RedactedSecret.path).Nodup

inductive Agree : SchemaNode → JsValue → JsValue → Prop
  | same {node : SchemaNode} (value : JsValue) : Agree node value value
  | secret {node : SchemaNode} {value other : JsValue} (h : node.IsSecret) :
      Agree node value other
  | object {role : Option String} {properties : List (String × SchemaNode)}
      {entries others : List (String × JsValue)} (h : role ≠ some secretRole)
      (hundeclared : (entries.filter fun entry => entry.1 ∉ properties.map Prod.fst) =
        others.filter fun entry => entry.1 ∉ properties.map Prod.fst)
      (hpresent : ∀ property ∈ properties, ¬ property.2.IsSecret →
        (property.1 ∈ entries.map Prod.fst ↔ property.1 ∈ others.map Prod.fst))
      (hdeclared : ∀ property ∈ properties,
        Agree property.2 (own entries property.1) (own others property.1)) :
      Agree (.object role properties) (.record entries) (.record others)
  | tokens {role : Option String} {inner : SchemaNode} (entries others : List (String × JsValue))
      (h : role ≠ some secretRole) (hinner : inner.IsSecret) :
      Agree (.dict role inner) (.record entries) (.record others)
  | dict {role : Option String} {inner : SchemaNode} {entries others : List (String × JsValue)}
      (h : role ≠ some secretRole) (hkeys : entries.map Prod.fst = others.map Prod.fst)
      (hentries : ∀ (index : Nat) (entry other : String × JsValue), entries[index]? = some entry →
        others[index]? = some other → Agree inner entry.2 other.2) :
      Agree (.dict role inner) (.record entries) (.record others)
  | array {role : Option String} {inner : SchemaNode} {items others : List JsValue}
      (h : role ≠ some secretRole) (hlength : items.length = others.length)
      (hitems : ∀ (index : Nat) (item other : JsValue), items[index]? = some item →
        others[index]? = some other → Agree inner item other) :
      Agree (.array role inner) (.array items) (.array others)

def Harmless (node : SchemaNode) : Prop :=
  ¬ node.IsSecret ∧ ∀ role properties, node = .object role properties →
    ∀ key child, (key, child) ∈ properties → key ∈ objectMembers → ¬ child.IsSecret

inductive Safe : SchemaNode → JsValue → Prop
  | secret {node : SchemaNode} {value : JsValue} (h : node.IsSecret) : Safe node value
  | closed {node : SchemaNode} {value : JsValue} (h : node.opens value = false) : Safe node value
  | object {role : Option String} {properties : List (String × SchemaNode)}
      {entries : List (String × JsValue)} (h : role ≠ some secretRole)
      (hundeclared : ∀ key ∈ objectMembers, properties.lookup key = none →
        own entries key = .undefined)
      (hpresent : ∀ key child entry, properties.lookup key = some child →
        entries.lookup key = some entry → Safe child entry)
      (hproto : ∀ child entry, properties.lookup proto = some child →
        entries.lookup proto = some entry → child.IsSecret ∨ entry = .undefined)
      (habsent : ∀ key child, properties.lookup key = some child → entries.lookup key = none →
        key ∈ objectMembers → key = proto ∧ Harmless child) :
      Safe (.object role properties) (.record entries)
  | dict {role : Option String} {inner : SchemaNode} {entries : List (String × JsValue)}
      (h : role ≠ some secretRole)
      (hentries : ∀ key entry, entries.lookup key = some entry → Safe inner entry)
      (hproto : ∀ entry, entries.lookup proto = some entry →
        inner.IsSecret ∨ entry = .undefined) :
      Safe (.dict role inner) (.record entries)
  | array {role : Option String} {inner : SchemaNode} {items : List JsValue}
      (h : role ≠ some secretRole) (hitems : ∀ item ∈ items, Safe inner item) :
      Safe (.array role inner) (.array items)

section TwoRuns

theorem copyUndeclared_eq (properties : List (String × SchemaNode))
    (entries : List (String × JsValue)) :
    copyUndeclared properties entries =
      (entries.filter fun entry => !inProperties properties entry.1).foldl
        (fun rebuilt entry => Rebuilt.assign rebuilt entry.1 entry.2) OrderedMap.empty := by
  rw [copyUndeclared, List.foldl_filter]
  congr 1
  funext rebuilt entry
  cases inProperties properties entry.1 <;> rfl

theorem copyUndeclared_congr {properties : List (String × SchemaNode)}
    {entries others : List (String × JsValue)}
    (h : (entries.filter fun entry => entry.1 ∉ properties.map Prod.fst) =
      others.filter fun entry => entry.1 ∉ properties.map Prod.fst) :
    copyUndeclared properties entries = copyUndeclared properties others := by
  have hsplit : ∀ list : List (String × JsValue),
      (list.filter fun entry => !inProperties properties entry.1) =
        (list.filter fun entry => entry.1 ∉ properties.map Prod.fst).filter
          fun entry => entry.1 ∉ objectMembers := by
    intro list
    rw [List.filter_filter]
    apply List.filter_congr
    intro entry _
    rw [inProperties, Bool.eq_iff_iff, Bool.and_eq_true, Bool.not_eq_true', decide_eq_false_iff_not,
      decide_eq_true_eq, decide_eq_true_eq, not_or, and_comm]
  rw [copyUndeclared_eq, copyUndeclared_eq, hsplit, hsplit, h]

theorem keepEach_congr {β : Type} {f g : String × β → JsValue} {entries : List (String × β)}
    (h : ∀ entry ∈ entries, f entry = g entry) (rebuilt : Rebuilt) :
    keepEach f entries rebuilt = keepEach g entries rebuilt := by
  apply List.foldl_ext
  intro rebuilt entry hentry
  rw [h entry hentry]

theorem keepEach_undefined {β : Type} {f : String × β → JsValue} {entries : List (String × β)}
    (h : ∀ entry ∈ entries, f entry = .undefined) (rebuilt : Rebuilt) :
    keepEach f entries rebuilt = rebuilt := by
  rw [keepEach_congr h]
  induction entries with
  | nil => rfl
  | cons entry rest ih => exact ih fun e he => h e (List.mem_cons_of_mem _ he)

theorem keepEach_eq_foldl {β : Type} (f : String × β → JsValue) (entries : List (String × β))
    (rebuilt : Rebuilt) :
    keepEach f entries rebuilt = (entries.map fun entry => (entry.1, f entry)).foldl
      (fun rebuilt entry => Rebuilt.keep rebuilt entry.1 entry.2) rebuilt := by
  rw [List.foldl_map]
  rfl

theorem map_eq_map_of_getElem? {α β γ : Type} {f : α → γ} {g : β → γ} {items : List α}
    {others : List β} (hlength : items.length = others.length)
    (h : ∀ (index : Nat) (item : α) (other : β), items[index]? = some item →
      others[index]? = some other → f item = g other) : items.map f = others.map g := by
  apply List.ext_getElem
  · rw [List.length_map, List.length_map, hlength]
  · intro index hitem hother
    rw [List.length_map] at hitem hother
    rw [List.getElem_map, List.getElem_map]
    exact h index _ _ (List.getElem?_eq_getElem hitem) (List.getElem?_eq_getElem hother)

theorem property_eq_of_present {entries others : List (String × JsValue)} {key : String}
    (hpresent : key ∈ entries.map Prod.fst ↔ key ∈ others.map Prod.fst) :
    (∃ value other, entries.lookup key = some value ∧ others.lookup key = some other) ∨
      (JsValue.record entries).property key = (JsValue.record others).property key := by
  by_cases hkey : key ∈ entries.map Prod.fst
  · left
    have hsome : entries.lookup key ≠ none := fun h => lookup_eq_none_iff.mp h hkey
    have hother : others.lookup key ≠ none := fun h => lookup_eq_none_iff.mp h (hpresent.mp hkey)
    obtain ⟨value, hvalue⟩ := Option.ne_none_iff_exists'.mp hsome
    obtain ⟨other, hother⟩ := Option.ne_none_iff_exists'.mp hother
    exact ⟨value, other, hvalue, hother⟩
  · right
    rw [JsValue.property, JsValue.property, lookup_eq_none_iff.mpr hkey,
      lookup_eq_none_iff.mpr (hpresent.not.mp hkey)]

theorem strip_eq_of_agree {node : SchemaNode} {value other : JsValue} (hnode : node.WellFormed)
    (h : Agree node value other) : strip node value = strip node other := by
  induction h with
  | same value => rfl
  | secret hsecret => rw [strip_secret hsecret, strip_secret hsecret]
  | @object role properties entries others hrole hundeclared hpresent hdeclared ih =>
    rw [strip_object hrole hnode, strip_object hrole hnode, copyUndeclared_congr hundeclared]
    cases hnode with
    | object _ _ hchildren =>
      congr 2
      apply keepEach_congr
      intro property hproperty
      by_cases hsecret : property.2.IsSecret
      · rw [strip_secret hsecret, strip_secret hsecret]
      · cases property_eq_of_present (hpresent property hproperty hsecret) with
        | inl hboth =>
          obtain ⟨value, other, hvalue, hother⟩ := hboth
          have hchild := ih property hproperty (hchildren property hproperty)
          rw [own, own, hvalue, hother] at hchild
          rw [JsValue.property, JsValue.property, hvalue, hother]
          exact hchild
        | inr heq => rw [heq]
  | tokens entries others hrole hinner =>
    cases hnode with
    | dict _ hnode =>
      rw [strip_dict hrole hnode, strip_dict hrole hnode,
        keepEach_undefined fun entry _ => strip_secret hinner entry.2,
        keepEach_undefined fun entry _ => strip_secret hinner entry.2]
  | @dict role inner entries others hrole hkeys hentries ih =>
    cases hnode with
    | dict _ hnode =>
      rw [strip_dict hrole hnode, strip_dict hrole hnode, keepEach_eq_foldl, keepEach_eq_foldl]
      congr 3
      apply map_eq_map_of_getElem? (by rw [← List.length_map Prod.fst, hkeys, List.length_map])
      intro index entry other hentry hother
      have hkey : (entries.map Prod.fst)[index]? = (others.map Prod.fst)[index]? := by rw [hkeys]
      rw [List.getElem?_map, List.getElem?_map, hentry, hother] at hkey
      exact Prod.ext (Option.some.inj hkey) (ih index entry other hentry hother hnode)
  | @array role inner items others hrole hlength hitems ih =>
    cases hnode with
    | array _ hnode =>
      rw [strip_array hrole hnode, strip_array hrole hnode]
      congr 1
      apply map_eq_map_of_getElem? hlength
      intro index item other hitem hother
      exact ih index item other hitem hother hnode

end TwoRuns

end Harness.Redaction
