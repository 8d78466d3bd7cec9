import Harness.Redaction.Spec

namespace Harness.Redaction

open Harness.Foundation

section Listing

def Exact (node : SchemaNode) (value : JsValue) : Prop :=
  ∀ secret, secret ∈ positions node value ↔ SecretAt node value secret.path secret.set

theorem mem_gather {β : Type} {f : String × β → List RedactedSecret} {entries : List (String × β)}
    {secret : RedactedSecret} :
    secret ∈ gather f entries ↔
      ∃ entry ∈ entries, ∃ inner ∈ f entry, inner.under [entry.1] = secret := by
  simp only [gather, List.mem_flatMap, List.mem_map]

theorem under_injective (key : String) : (RedactedSecret.under [key]).Injective := by
  intro first second h
  cases first
  cases second
  cases h
  rfl

theorem exact_gather {β : Type} {f : String × β → List RedactedSecret}
    {entries : List (String × β)} (hnodup : (entries.map Prod.fst).Nodup)
    {inside : String × β → List String → Bool → Prop} {whole : List String → Bool → Prop}
    (hwhole : ∀ path set, whole path set ↔
      ∃ entry ∈ entries, ∃ rest, path = entry.1 :: rest ∧ inside entry rest set) :
    (∀ secret, secret ∈ gather f entries ↔ whole secret.path secret.set) ↔
      ∀ entry ∈ entries, ∀ secret, secret ∈ f entry ↔ inside entry secret.path secret.set := by
  constructor
  · intro h entry hentry secret
    constructor
    · intro hmem
      obtain ⟨other, hother, rest, hpath, hinside⟩ := (hwhole _ _).mp
        ((h _).mp (mem_gather.mpr ⟨entry, hentry, secret, hmem, rfl⟩))
      obtain ⟨hkey, hrest⟩ := List.cons.inj hpath
      rw [List.inj_on_of_nodup_map hnodup hentry hother hkey, ← List.nil_append secret.path]
      rwa [← hrest] at hinside
    · intro hinside
      obtain ⟨other, hother, inner, hinner, hunder⟩ := mem_gather.mp
        ((h (secret.under [entry.1])).mpr ((hwhole _ _).mpr ⟨entry, hentry, _, rfl, hinside⟩))
      have hkey : other.1 = entry.1 := (List.cons.inj (congrArg RedactedSecret.path hunder)).1
      rw [List.inj_on_of_nodup_map hnodup hother hentry hkey] at hinner hunder
      rwa [under_injective entry.1 hunder] at hinner
  · intro h secret
    rw [hwhole]
    constructor
    · intro hmem
      obtain ⟨entry, hentry, inner, hinner, rfl⟩ := mem_gather.mp hmem
      exact ⟨entry, hentry, inner.path, rfl, (h entry hentry inner).mp hinner⟩
    · rintro ⟨entry, hentry, rest, hpath, hinside⟩
      refine mem_gather.mpr ⟨entry, hentry, ⟨rest, secret.set⟩,
        (h entry hentry ⟨rest, secret.set⟩).mpr hinside, ?_⟩
      rw [RedactedSecret.under, List.singleton_append, ← hpath]

variable {role : Option String} {properties : List (String × SchemaNode)} {inner : SchemaNode}

theorem exact_of_secret {node : SchemaNode} (h : node.IsSecret) (value : JsValue) :
    Exact node value := by
  intro secret
  rw [positions_secret h, List.mem_singleton]
  constructor
  · intro heq
    rw [heq]
    exact .here h
  · intro hat
    obtain ⟨path, set⟩ := secret
    cases hat with
    | here => rfl
    | property hrole | entry hrole | item hrole => exact absurd h hrole

theorem exact_leaf (h : role ≠ some secretRole) (value : JsValue) : Exact (.leaf role) value := by
  intro secret
  rw [positions, walk_leaf h]
  refine iff_of_false List.not_mem_nil fun hat => ?_
  obtain ⟨path, set⟩ := secret
  cases hat with
  | here hsecret => exact h hsecret

theorem exact_object_iff (h : role ≠ some secretRole)
    (hnode : (SchemaNode.object role properties).WellFormed) (value other : JsValue) :
    (∀ secret, secret ∈ positions (.object role properties) value ↔
        SecretAt (.object role properties) other secret.path secret.set) ↔
      ∀ property ∈ properties, ∀ secret,
        secret ∈ positions property.2 (value.property property.1) ↔
          SecretAt property.2 (other.ownProperty property.1) secret.path secret.set := by
  rw [positions_object h hnode]
  cases hnode with
  | object _ hnodup _ =>
    apply exact_gather hnodup
    intro path set
    constructor
    · intro hat
      cases hat with
      | here hsecret => exact absurd hsecret h
      | property _ hchild hat => exact ⟨_, hchild, _, rfl, hat⟩
    · rintro ⟨property, hproperty, rest, rfl, hat⟩
      exact .property h hproperty hat

theorem exact_dict_iff (h : role ≠ some secretRole) (hinner : inner.WellFormed)
    {entries : List (String × JsValue)} (hnodup : (entries.map Prod.fst).Nodup) :
    Exact (.dict role inner) (.record entries) ↔ ∀ entry ∈ entries, Exact inner entry.2 := by
  rw [Exact, positions_dict h hinner]
  apply exact_gather hnodup
  intro path set
  constructor
  · intro hat
    cases hat with
    | here hsecret => exact absurd hsecret h
    | entry _ hentry hat => exact ⟨_, hentry, _, rfl, hat⟩
  · rintro ⟨entry, hentry, rest, rfl, hat⟩
    exact .entry h hentry hat

theorem mem_indexed {items : List JsValue} {entry : String × JsValue} :
    entry ∈ indexed 0 items ↔
      ∃ index : Nat, toString index = entry.1 ∧ items[index]? = some entry.2 := by
  rw [indexed, List.mem_map]
  constructor
  · rintro ⟨⟨item, index⟩, hmem, rfl⟩
    exact ⟨index, rfl, List.mem_zipIdx_iff_getElem?.mp hmem⟩
  · rintro ⟨index, hkey, hitem⟩
    exact ⟨(entry.2, index), List.mem_zipIdx_iff_getElem?.mpr hitem, Prod.ext hkey rfl⟩

theorem nodup_indexed (items : List JsValue) : ((indexed 0 items).map Prod.fst).Nodup := by
  have hkeys : (indexed 0 items).map Prod.fst = (List.range items.length).map toString := by
    rw [indexed, List.map_map, List.range_eq_range', ← List.zipIdx_map_snd 0 items, List.map_map]
    rfl
  rw [hkeys]
  exact List.nodup_range.map fun _ _ => toString_inj

theorem exact_array_iff (h : role ≠ some secretRole) (hinner : inner.WellFormed)
    (items : List JsValue) :
    Exact (.array role inner) (.array items) ↔ ∀ item ∈ items, Exact inner item := by
  have hgather : Exact (.array role inner) (.array items) ↔
      ∀ entry ∈ indexed 0 items, Exact inner entry.2 := by
    rw [Exact, positions_array h hinner]
    apply exact_gather (nodup_indexed items)
    intro path set
    constructor
    · intro hat
      cases hat with
      | here hsecret => exact absurd hsecret h
      | item _ hitem hat => exact ⟨(_, _), mem_indexed.mpr ⟨_, rfl, hitem⟩, _, rfl, hat⟩
    · rintro ⟨entry, hentry, rest, rfl, hat⟩
      obtain ⟨index, hkey, hitem⟩ := mem_indexed.mp hentry
      rw [← hkey]
      exact .item h hitem hat
  rw [hgather]
  constructor
  · intro hexact item hmem
    obtain ⟨index, hitem⟩ := List.mem_iff_getElem?.mp hmem
    exact hexact (toString index, item) (mem_indexed.mpr ⟨index, rfl, hitem⟩)
  · intro hexact entry hentry
    obtain ⟨index, -, hitem⟩ := mem_indexed.mp hentry
    exact hexact entry.2 (List.mem_of_getElem? hitem)

end Listing

section Closed

variable {role : Option String} {properties : List (String × SchemaNode)}

theorem property_of_closed {value : JsValue} (h : value.entries? = none) (key : String) :
    value.property key = .undefined ∧ value.ownProperty key = .undefined := by
  cases value with
  | undefined | atom | array => exact ⟨rfl, rfl⟩
  | record | objectPrototype => cases h

theorem strip_object_closed (h : role ≠ some secretRole)
    (hnode : (SchemaNode.object role properties).WellFormed)
    (hchildren : ∀ property ∈ properties, strip property.2 .undefined = .undefined)
    {value : JsValue} (hclosed : value.entries? = none) :
    strip (.object role properties) value = value := by
  cases hnode with
  | object _ _ hnode =>
    rw [strip, walk_object h fun property hp => places_walk (hnode property hp)]
    dsimp only
    rw [hclosed, keepEach_undefined]
    · rfl
    · intro property hproperty
      rw [(property_of_closed hclosed property.1).1]
      exact hchildren property hproperty

theorem strip_undefined {node : SchemaNode} (h : node.WellFormed) :
    strip node .undefined = .undefined := by
  by_cases hsecret : node.IsSecret
  · exact strip_secret hsecret .undefined
  · induction h with
    | leaf role => exact congrArg Prod.fst (walk_leaf hsecret .undefined [])
    | object role hnodup hnode ih =>
      apply strip_object_closed hsecret (.object role hnodup hnode) _ rfl
      intro property hproperty
      by_cases hchild : property.2.IsSecret
      · exact strip_secret hchild .undefined
      · exact ih property hproperty hchild
    | dict role hnode =>
      rw [strip, walk_dict (show role ≠ some secretRole from hsecret) (places_walk hnode)]
      rfl
    | array role hnode => exact congrArg Prod.fst (if_neg hsecret)

theorem strip_closed {node : SchemaNode} (hnode : node.WellFormed) (h : ¬ node.IsSecret)
    {value : JsValue} (hvalue : value.Plain) (hclosed : node.opens value = false) :
    strip node value = value := by
  cases hnode with
  | leaf role => exact congrArg Prod.fst (walk_leaf h value [])
  | object role hnodup hnode =>
    apply strip_object_closed h (.object role hnodup hnode)
    · exact fun property hproperty => strip_undefined (hnode property hproperty)
    · cases hvalue with
      | undefined | atom | array => rfl
      | record => cases hclosed
  | dict role hnode =>
    rw [strip, walk_dict (show role ≠ some secretRole from h) (places_walk hnode)]
    cases hvalue with
    | undefined | atom | array => rfl
    | record => cases hclosed
  | array role hnode =>
    cases hvalue with
    | undefined | atom | record => exact congrArg Prod.fst (if_neg h)
    | array => cases hclosed

theorem exact_of_closed {node : SchemaNode} (hnode : node.WellFormed) {value : JsValue}
    (hvalue : value ≠ .objectPrototype) (hclosed : node.opens value = false) :
    Exact node value := by
  by_cases h : node.IsSecret
  · exact exact_of_secret h value
  · induction hnode generalizing value with
    | leaf role => exact exact_leaf h value
    | @object role properties hnodup hnode ih =>
      have hnone : value.entries? = none := by
        cases value with
        | undefined | atom | array => rfl
        | record => cases hclosed
        | objectPrototype => exact absurd rfl hvalue
      refine (exact_object_iff h (.object role hnodup hnode) value value).mpr ?_
      intro property hproperty
      obtain ⟨hinherited, hown⟩ := property_of_closed hnone property.1
      rw [hinherited, hown]
      by_cases hchild : property.2.IsSecret
      · exact exact_of_secret hchild .undefined
      · exact ih property hproperty nofun (by cases property.2 <;> rfl) hchild
    | @dict role inner hnode =>
      intro secret
      have hnone : positions (.dict role inner) value = [] := by
        rw [positions, walk_dict (show role ≠ some secretRole from h) (places_walk hnode)]
        cases value with
        | undefined | atom | array => rfl
        | record => cases hclosed
        | objectPrototype => exact absurd rfl hvalue
      rw [hnone]
      refine iff_of_false List.not_mem_nil fun hat => ?_
      obtain ⟨path, set⟩ := secret
      cases hat with
      | here hsecret => exact h hsecret
      | entry => cases hclosed
    | @array role inner hnode =>
      intro secret
      have hnone : positions (.array role inner) value = [] := by
        cases value with
        | array => cases hclosed
        | undefined | atom | record | objectPrototype => exact congrArg Prod.snd (if_neg h)
      rw [hnone]
      refine iff_of_false List.not_mem_nil fun hat => ?_
      obtain ⟨path, set⟩ := secret
      cases hat with
      | here hsecret => exact h hsecret
      | item => cases hclosed

end Closed

section Inherited

theorem secretAt_undefined {node : SchemaNode} {value : JsValue} {path : List String} {set : Bool}
    (h : SecretAt node value path set) (hvalue : value = .undefined) : set = false := by
  induction h with
  | here =>
    rw [hvalue]
    rfl
  | property _ _ _ ih =>
    apply ih
    rw [hvalue]
    rfl
  | entry | item => cases hvalue

theorem inherited_proto : JsValue.inherited proto = .objectPrototype := if_pos rfl

theorem inherited_of_member {key : String} (h : key ∈ objectMembers) (hproto : key ≠ proto) :
    JsValue.inherited key = .atom (.function key) := by
  rw [JsValue.inherited, if_neg hproto, if_pos h]

theorem inherited_of_notMem {key : String} (h : key ∉ objectMembers) :
    JsValue.inherited key = .undefined := by
  rw [JsValue.inherited, if_neg fun hproto : key = proto => h (hproto ▸ proto_mem), if_neg h]

theorem property_objectPrototype {key : String} (h : key ∈ objectMembers) :
    ∃ a, JsValue.objectPrototype.property key = .atom a := by
  rw [JsValue.property, JsValue.inherited, if_pos h]
  split
  · exact ⟨.null, rfl⟩
  · exact ⟨.function key, rfl⟩

theorem opens_undefined (node : SchemaNode) : node.opens .undefined = false := by
  cases node <;> rfl

theorem opens_atom (node : SchemaNode) (a : Atom) : node.opens (.atom a) = false := by
  cases node <;> rfl

theorem secretAt_atom_iff {node : SchemaNode} (h : ¬ node.IsSecret) (a : Atom)
    (path : List String) (set : Bool) :
    SecretAt node (.atom a) path set ↔ SecretAt node .undefined path set := by
  constructor
  · intro hat
    cases hat with
    | here hsecret => exact absurd hsecret h
    | property hrole hchild hat => exact .property hrole hchild hat
  · intro hat
    cases hat with
    | here hsecret => exact absurd hsecret h
    | property hrole hchild hat => exact .property hrole hchild hat

theorem positions_objectPrototype_of_harmless {node : SchemaNode} (hnode : node.WellFormed)
    (h : Harmless node) (secret : RedactedSecret) :
    secret ∈ positions node .objectPrototype ↔
      SecretAt node .undefined secret.path secret.set := by
  obtain ⟨hsecret, hmembers⟩ := h
  have hexact : Exact node .undefined := exact_of_closed hnode (by rintro ⟨⟩) (opens_undefined node)
  cases hnode with
  | leaf role =>
    have hrole : role ≠ some secretRole := hsecret
    rw [← hexact, positions, positions, walk_leaf hrole, walk_leaf hrole]
  | @object role properties hnodup hnode =>
    refine (exact_object_iff hsecret (.object role hnodup hnode) _ _).mpr ?_ secret
    intro property hproperty
    by_cases hkey : property.1 ∈ objectMembers
    · obtain ⟨a, ha⟩ := property_objectPrototype hkey
      have hchild := hmembers role properties rfl property.1 property.2 hproperty hkey
      have hatom : Exact property.2 (.atom a) :=
        exact_of_closed (hnode property hproperty) (by rintro ⟨⟩) (opens_atom property.2 a)
      intro secret
      rw [ha, hatom, secretAt_atom_iff hchild]
      rfl
    · have hproto : property.1 ≠ proto := fun heq => hkey (heq ▸ proto_mem)
      have hnone : JsValue.objectPrototype.property property.1 = .undefined := by
        rw [JsValue.property, inherited_of_notMem hkey, if_neg hproto]
      rw [hnone]
      exact exact_of_closed (hnode property hproperty) (by rintro ⟨⟩) (opens_undefined property.2)
  | dict role hnode =>
    have hrole : role ≠ some secretRole := hsecret
    rw [← hexact, positions, positions, walk_dict hrole (places_walk hnode),
      walk_dict hrole (places_walk hnode)]
    rfl
  | array role hnode =>
    have hrole : role ≠ some secretRole := hsecret
    rw [← hexact, positions, positions, walk, if_neg hrole, walk, if_neg hrole]
    all_goals
      intro items heq
      cases heq

theorem positions_objectPrototype {node : SchemaNode} (hnode : node.WellFormed) :
    (∀ secret, secret ∈ positions node .objectPrototype ↔
      SecretAt node .undefined secret.path secret.set) ↔ Harmless node := by
  refine ⟨fun h => ?_, positions_objectPrototype_of_harmless hnode⟩
  have hsecret : ¬ node.IsSecret := by
    intro hsecret
    have hat := (h ⟨[], true⟩).mp (by rw [positions_secret hsecret]; exact .head _)
    exact absurd (secretAt_undefined hat rfl) Bool.false_ne_true.symm
  refine ⟨hsecret, ?_⟩
  rintro role properties rfl key child hchild hkey hmember
  obtain ⟨a, ha⟩ := property_objectPrototype hkey
  have hmem : (⟨[key], true⟩ : RedactedSecret) ∈
      positions (.object role properties) .objectPrototype := by
    rw [positions_object (show role ≠ some secretRole from hsecret) hnode]
    refine mem_gather.mpr ⟨(key, child), hchild, ⟨[], true⟩, ?_, rfl⟩
    rw [positions_secret hmember, ha]
    exact .head _
  exact absurd (secretAt_undefined ((h _).mp hmem) rfl) Bool.false_ne_true.symm

end Inherited

section Once

theorem nodup_gather {β : Type} {f : String × β → List RedactedSecret}
    {entries : List (String × β)} (hnodup : (entries.map Prod.fst).Nodup)
    (h : ∀ entry ∈ entries, ((f entry).map RedactedSecret.path).Nodup) :
    ((gather f entries).map RedactedSecret.path).Nodup := by
  induction entries with
  | nil => exact List.nodup_nil
  | cons entry rest ih =>
    rw [List.map_cons, List.nodup_cons] at hnodup
    obtain ⟨hfresh, hnodup⟩ := hnodup
    have hpaths : ((f entry).map (RedactedSecret.under [entry.1])).map RedactedSecret.path =
        ((f entry).map RedactedSecret.path).map (entry.1 :: ·) := by
      rw [List.map_map, List.map_map]
      rfl
    rw [gather, List.flatMap_cons, List.map_append, List.nodup_append, hpaths]
    refine ⟨(h entry List.mem_cons_self).map (List.cons_injective),
      ih hnodup fun e he => h e (List.mem_cons_of_mem _ he), ?_⟩
    intro path hpath other hother heq
    obtain ⟨tail, -, rfl⟩ := List.mem_map.mp hpath
    obtain ⟨secret, hsecret, rfl⟩ := List.mem_map.mp hother
    obtain ⟨second, hsecond, inner, -, rfl⟩ := mem_gather.mp hsecret
    exact hfresh ((List.cons.inj heq).1 ▸ List.mem_map_of_mem hsecond)

def Readable (value : JsValue) : Prop := value.Plain ∨ value = .objectPrototype

theorem Readable.property {value : JsValue} (h : Readable value) (key : String) :
    Readable (value.property key) := by
  have hinherited : Readable (JsValue.inherited key) := by
    rw [JsValue.inherited]
    split
    · exact .inr rfl
    · split
      · exact .inl (.atom _)
      · exact .inl .undefined
  cases h with
  | inl hplain =>
    cases hplain with
    | undefined | atom | array => exact .inl .undefined
    | @record entries hnodup hvalues =>
      rw [JsValue.property]
      cases hlookup : entries.lookup key with
      | none => exact hinherited
      | some entry => exact .inl (hvalues (key, entry) ((mem_iff_lookup hnodup).mpr hlookup))
  | inr hproto =>
    rw [hproto, JsValue.property]
    split
    · exact .inl (.atom _)
    · exact hinherited

theorem nodup_secret (node : SchemaNode) (h : node.IsSecret) (value : JsValue) :
    ((positions node value).map RedactedSecret.path).Nodup := by
  rw [positions_secret h]
  exact List.nodup_singleton _

theorem nodup_positions {node : SchemaNode} (hnode : node.WellFormed) {value : JsValue}
    (hvalue : Readable value) : ((positions node value).map RedactedSecret.path).Nodup := by
  induction hnode generalizing value with
  | leaf role =>
    by_cases hrole : role = some secretRole
    · exact nodup_secret (.leaf role) hrole value
    · rw [positions, walk_leaf hrole]
      exact List.nodup_nil
  | object role hnodup hnode ih =>
    by_cases hrole : role = some secretRole
    · exact nodup_secret (.object role _) hrole value
    · rw [positions_object hrole (.object role hnodup hnode)]
      apply nodup_gather hnodup
      intro property hproperty
      exact ih property hproperty (hvalue.property property.1)
  | dict role hnode ih =>
    by_cases hrole : role = some secretRole
    · exact nodup_secret (.dict role _) hrole value
    · cases hvalue with
      | inl hplain =>
        cases hplain with
        | undefined | atom | array =>
          rw [positions, walk_dict hrole (places_walk hnode)]
          exact List.nodup_nil
        | record hnodup hvalues =>
          rw [positions_dict hrole hnode]
          exact nodup_gather hnodup fun entry hentry => ih (.inl (hvalues entry hentry))
      | inr hproto =>
        rw [hproto, positions, walk_dict hrole (places_walk hnode)]
        exact List.nodup_nil
  | @array role inner hnode ih =>
    by_cases hrole : role = some secretRole
    · exact nodup_secret (.array role inner) hrole value
    · have hnone : ∀ other, walk (.array role inner) other [] = (other, []) →
          ((positions (.array role inner) other).map RedactedSecret.path).Nodup := by
        intro other hwalk
        rw [positions, hwalk]
        exact List.nodup_nil
      cases hvalue with
      | inl hplain =>
        cases hplain with
        | undefined | atom | record => exact hnone _ (if_neg hrole)
        | @array items hitems =>
          rw [positions_array hrole hnode]
          apply nodup_gather (nodup_indexed items)
          intro entry hentry
          obtain ⟨index, -, hitem⟩ := mem_indexed.mp hentry
          exact ih (.inl (hitems entry.2 (List.mem_of_getElem? hitem)))
      | inr hproto =>
        rw [hproto]
        exact hnone _ (if_neg hrole)

end Once

end Harness.Redaction
