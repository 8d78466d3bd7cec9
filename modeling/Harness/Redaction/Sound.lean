import Harness.Redaction.Listing

namespace Harness.Redaction

open Harness.Foundation

section Keeping

variable {role : Option String} {properties : List (String × SchemaNode)} {inner : SchemaNode}
  {entries : List (String × JsValue)}

theorem own_plain (h : (JsValue.record entries).Plain) (key : String) : (own entries key).Plain := by
  cases h with
  | record hnodup h =>
    rw [own]
    cases hlookup : entries.lookup key with
    | none => exact .undefined
    | some entry => exact h (key, entry) ((mem_iff_lookup hnodup).mpr hlookup)

theorem Same.refl {value : JsValue} (h : value.Plain) : Same value value := by
  induction h with
  | undefined => exact .undefined
  | atom a => exact .atom a
  | array h ih =>
    refine .array rfl fun index item other hitem hother => ?_
    rw [hitem] at hother
    cases hother
    exact ih item (List.mem_of_getElem? hitem)
  | @record entries hnodup h ih =>
    refine .record fun key => ?_
    rw [own]
    cases hlookup : entries.lookup key with
    | none => exact .undefined
    | some entry => exact ih (key, entry) ((mem_iff_lookup hnodup).mpr hlookup)

theorem redacts_undefined_iff {node : SchemaNode} {value : JsValue} :
    Redacts node value .undefined ↔ node.IsSecret ∨ value = .undefined := by
  constructor
  · intro h
    cases h with
    | secret h => exact .inl h
    | closed _ _ hsame =>
      cases hsame
      exact .inr rfl
  · rintro (h | rfl)
    · exact .secret h
    · by_cases h : node.IsSecret
      · exact .secret h
      · exact .closed h (by cases node <;> rfl) .undefined

theorem SchemaNode.WellFormed.nodup (h : (SchemaNode.object role properties).WellFormed) :
    (properties.map Prod.fst).Nodup := by
  cases h with
  | object _ hnodup _ => exact hnodup

theorem redacts_object_iff (h : role ≠ some secretRole)
    (hnode : (SchemaNode.object role properties).WellFormed)
    (hentries : (entries.map Prod.fst).Nodup) :
    Redacts (.object role properties) (.record entries)
        (strip (.object role properties) (.record entries)) ↔
      (∀ key, properties.lookup key = none → Same (own entries key)
        (if key ∈ objectMembers then .undefined else own entries key)) ∧
      ∀ key child, properties.lookup key = some child → Redacts child (own entries key)
        (if key = proto then .undefined
          else strip child ((JsValue.record entries).property key)) := by
  have hown := own_strip_object hnode.nodup hentries
  have hundeclared : ∀ key, properties.lookup key = none →
      own (keepEach (fun property => strip property.2
          ((JsValue.record entries).property property.1)) properties
        (copyUndeclared properties entries)).entries key =
        if key ∈ objectMembers then .undefined else own entries key := by
    intro key hlookup
    rw [hown, hlookup]
    by_cases hproto : key = proto
    · rw [if_pos hproto, if_pos (hproto ▸ proto_mem)]
    · exact if_neg hproto
  rw [strip_object h hnode]
  constructor
  · intro hredacts
    cases hredacts with
    | closed _ hclosed => cases hclosed
    | object _ hnone hsome =>
      constructor
      · intro key hlookup
        have hsame := hnone key hlookup
        rwa [hundeclared key hlookup] at hsame
      · intro key child hlookup
        have hchild := hsome key child hlookup
        rwa [hown, hlookup] at hchild
  · rintro ⟨hnone, hsome⟩
    apply Redacts.object h
    · intro key hlookup
      rw [hundeclared key hlookup]
      exact hnone key hlookup
    · intro key child hlookup
      rw [hown, hlookup]
      exact hsome key child hlookup

theorem redacts_dict_iff (h : role ≠ some secretRole) (hinner : inner.WellFormed)
    (hentries : (entries.map Prod.fst).Nodup) :
    Redacts (.dict role inner) (.record entries) (strip (.dict role inner) (.record entries)) ↔
      ∀ key entry, entries.lookup key = some entry →
        Redacts inner entry (if key = proto then .undefined else strip inner entry) := by
  have hown := @own_strip_dict inner entries hentries
  rw [strip_dict h hinner]
  constructor
  · intro hredacts key entry hlookup
    cases hredacts with
    | closed _ hclosed => cases hclosed
    | dict _ hentry =>
      have hkey := hentry key
      rwa [hown, own, hlookup] at hkey
  · intro hentry
    apply Redacts.dict h
    intro key
    rw [hown, own]
    cases hlookup : entries.lookup key with
    | none =>
      dsimp only
      rw [ite_self]
      exact redacts_undefined_iff.mpr (.inr rfl)
    | some entry => exact hentry key entry hlookup

theorem redacts_array_iff (h : role ≠ some secretRole) (hinner : inner.WellFormed)
    (items : List JsValue) :
    Redacts (.array role inner) (.array items) (strip (.array role inner) (.array items)) ↔
      ∀ item ∈ items, Redacts inner item (strip inner item) := by
  rw [strip_array h hinner]
  constructor
  · intro hredacts item hmem
    cases hredacts with
    | closed _ hclosed => cases hclosed
    | array _ _ hitems =>
      obtain ⟨index, hitem⟩ := List.mem_iff_getElem?.mp hmem
      exact hitems index item _ hitem (by rw [List.getElem?_map, hitem]; rfl)
  · intro hitems
    apply Redacts.array h (List.length_map _).symm
    intro index item other hitem hother
    rw [List.getElem?_map, hitem] at hother
    cases hother
    exact hitems item (List.mem_of_getElem? hitem)

end Keeping

section Main

theorem correct_of_secret {node : SchemaNode} (h : node.IsSecret) (value : JsValue) :
    Redacts node value (strip node value) ∧ Exact node value := by
  rw [strip_secret h]
  exact ⟨.secret h, exact_of_secret h value⟩

theorem correct_of_closed {node : SchemaNode} (hnode : node.WellFormed) {value : JsValue}
    (hvalue : value.Plain) (hclosed : node.opens value = false) :
    Redacts node value (strip node value) ∧ Exact node value := by
  by_cases h : node.IsSecret
  · exact correct_of_secret h value
  · rw [strip_closed hnode h hvalue hclosed]
    refine ⟨.closed h hclosed (Same.refl hvalue), exact_of_closed hnode ?_ hclosed⟩
    rintro rfl
    cases hvalue

theorem not_correct_atom {child : SchemaNode} (hchild : child.WellFormed) {a : Atom}
    (hredacts : Redacts child .undefined (strip child (.atom a)))
    (hat : ∀ secret, secret ∈ positions child (.atom a) ↔
      SecretAt child .undefined secret.path secret.set) : False := by
  by_cases hsecret : child.IsSecret
  · have hset := (hat ⟨[], true⟩).mp (by rw [positions_secret hsecret]; exact .head _)
    exact absurd (secretAt_undefined hset rfl) Bool.false_ne_true.symm
  · rw [strip_closed hchild hsecret (.atom a) (opens_atom child a)] at hredacts
    cases hredacts with
    | closed _ _ hsame => cases hsame

theorem correct_present {child : SchemaNode} {value : JsValue} {key : String}
    (hchild : Redacts child value (if key = proto then .undefined else strip child value))
    (hexact : Exact child value)
    (ih : Redacts child value (strip child value) ∧ Exact child value ↔ Safe child value) :
    Safe child value := by
  by_cases hproto : key = proto
  · rw [if_pos hproto, redacts_undefined_iff] at hchild
    cases hchild with
    | inl hsecret => exact .secret hsecret
    | inr hnone =>
      rw [hnone]
      exact .closed (opens_undefined child)
  · rw [if_neg hproto] at hchild
    exact ih.mp ⟨hchild, hexact⟩

theorem redacts_present {child : SchemaNode} {value : JsValue} {key : String}
    (hsafe : Redacts child value (strip child value))
    (hproto : key = proto → child.IsSecret ∨ value = .undefined) :
    Redacts child value (if key = proto then .undefined else strip child value) := by
  split
  · next heq => exact redacts_undefined_iff.mpr (hproto heq)
  · exact hsafe

theorem correct_object_iff {role : Option String} {properties : List (String × SchemaNode)}
    (h : role ≠ some secretRole) (hproperties : (properties.map Prod.fst).Nodup)
    (hnode : ∀ property ∈ properties, property.2.WellFormed)
    (ih : ∀ property ∈ properties, ∀ {value : JsValue}, value.Plain →
      (Redacts property.2 value (strip property.2 value) ∧ Exact property.2 value ↔
        Safe property.2 value))
    {entries : List (String × JsValue)} (hentries : (entries.map Prod.fst).Nodup)
    (hvalues : ∀ entry ∈ entries, entry.2.Plain) :
    Redacts (.object role properties) (.record entries)
        (strip (.object role properties) (.record entries)) ∧
      Exact (.object role properties) (.record entries) ↔
    Safe (.object role properties) (.record entries) := by
  rw [redacts_object_iff h (.object role hproperties hnode) hentries, Exact,
    exact_object_iff h (.object role hproperties hnode)]
  constructor
  · rintro ⟨⟨hundeclared, hdeclared⟩, hexact⟩
    apply Safe.object h
    · intro key hkey hlookup
      have hsame := hundeclared key hlookup
      rw [if_pos hkey] at hsame
      generalize own entries key = value at hsame
      cases hsame
      rfl
    · intro key child entry hchild hentry
      have hproperty := (mem_iff_lookup hproperties).mpr hchild
      have hredacts := hdeclared key child hchild
      have hat := hexact _ hproperty
      rw [own, JsValue.property, hentry] at hredacts
      rw [JsValue.ownProperty, own, JsValue.property, hentry] at hat
      exact correct_present hredacts hat
        (ih _ hproperty (hvalues _ ((mem_iff_lookup hentries).mpr hentry)))
    · intro child entry hchild hentry
      have hredacts := hdeclared proto child hchild
      rwa [if_pos rfl, redacts_undefined_iff, own, hentry] at hredacts
    · intro key child hchild hentry hkey
      have hproperty := (mem_iff_lookup hproperties).mpr hchild
      have hredacts := hdeclared key child hchild
      have hat := hexact _ hproperty
      rw [own, JsValue.property, hentry] at hredacts
      rw [JsValue.ownProperty, own, JsValue.property, hentry] at hat
      dsimp only [Option.getD_none] at hredacts hat
      by_cases hproto : key = proto
      · rw [hproto, inherited_proto] at hat
        exact ⟨hproto, (positions_objectPrototype (hnode _ hproperty)).mp hat⟩
      · rw [if_neg hproto, inherited_of_member hkey hproto] at hredacts
        rw [inherited_of_member hkey hproto] at hat
        exact (not_correct_atom (hnode _ hproperty) hredacts hat).elim
  · intro hsafe
    cases hsafe with
    | secret hsecret => exact absurd hsecret h
    | closed hclosed => cases hclosed
    | object _ hundeclared hpresent hproto habsent =>
      have hplain := own_plain (.record hentries hvalues)
      refine ⟨⟨?_, ?_⟩, ?_⟩
      · intro key hlookup
        split
        · next hkey =>
          rw [hundeclared key hkey hlookup]
          exact .undefined
        · exact Same.refl (hplain key)
      · intro key child hchild
        have hproperty := (mem_iff_lookup hproperties).mpr hchild
        rw [own, JsValue.property]
        cases hentry : entries.lookup key with
        | none =>
          have hnone : (if key = proto then .undefined
              else strip child (JsValue.inherited key)) = .undefined := by
            by_cases hkey : key ∈ objectMembers
            · exact if_pos (habsent key child hchild hentry hkey).1
            · rw [inherited_of_notMem hkey, strip_undefined (hnode _ hproperty), ite_self]
          dsimp only [Option.getD_none]
          rw [hnone]
          exact redacts_undefined_iff.mpr (.inr rfl)
        | some entry =>
          have hmem := (mem_iff_lookup hentries).mpr hentry
          apply redacts_present
            ((ih _ hproperty (hvalues _ hmem)).mpr (hpresent key child entry hchild hentry)).1
          rintro rfl
          exact hproto child entry hchild hentry
      · intro property hproperty
        have hchild := (mem_iff_lookup hproperties).mp hproperty
        rw [JsValue.ownProperty, own, JsValue.property]
        cases hentry : entries.lookup property.1 with
        | none =>
          dsimp only [Option.getD_none]
          by_cases hkey : property.1 ∈ objectMembers
          · obtain ⟨hproto, hharmless⟩ := habsent property.1 property.2 hchild hentry hkey
            rw [hproto, inherited_proto]
            exact positions_objectPrototype_of_harmless (hnode property hproperty) hharmless
          · rw [inherited_of_notMem hkey]
            exact exact_of_closed (hnode property hproperty) (by rintro ⟨⟩) (opens_undefined property.2)
        | some entry =>
          have hmem := (mem_iff_lookup hentries).mpr hentry
          exact ((ih _ hproperty (hvalues _ hmem)).mpr
            (hpresent property.1 property.2 entry hchild hentry)).2

theorem correct_iff_of_opens {node : SchemaNode} (hnode : node.WellFormed) {value : JsValue}
    (hvalue : value.Plain)
    (h : ¬ node.IsSecret → node.opens value = true →
      (Redacts node value (strip node value) ∧ Exact node value ↔ Safe node value)) :
    Redacts node value (strip node value) ∧ Exact node value ↔ Safe node value := by
  by_cases hsecret : node.IsSecret
  · exact iff_of_true (correct_of_secret hsecret value) (.secret hsecret)
  · cases hopens : node.opens value with
    | false => exact iff_of_true (correct_of_closed hnode hvalue hopens) (.closed hopens)
    | true => exact h hsecret hopens

theorem correct_iff_safe {node : SchemaNode} (hnode : node.WellFormed) {value : JsValue}
    (hvalue : value.Plain) :
    Redacts node value (strip node value) ∧ Exact node value ↔ Safe node value := by
  induction hnode generalizing value with
  | leaf role => exact iff_of_true (correct_of_closed (.leaf role) hvalue rfl) (.closed rfl)
  | object role hnodup hnode ih =>
    apply correct_iff_of_opens (.object role hnodup hnode) hvalue
    intro hsecret hopens
    cases hvalue with
    | undefined | atom | array => cases hopens
    | record hentries hvalues =>
      exact correct_object_iff hsecret hnodup hnode (fun p hp _ hv => ih p hp hv) hentries hvalues
  | @dict role inner hnode ih =>
    apply correct_iff_of_opens (.dict role hnode) hvalue
    intro hsecret hopens
    have hrole : role ≠ some secretRole := hsecret
    cases hvalue with
    | undefined | atom | array => cases hopens
    | @record entries hentries hvalues =>
      rw [redacts_dict_iff hrole hnode hentries, exact_dict_iff hrole hnode hentries]
      constructor
      · rintro ⟨hredacts, hexact⟩
        apply Safe.dict hrole
        · intro key entry hlookup
          have hmem := (mem_iff_lookup hentries).mpr hlookup
          exact correct_present (hredacts key entry hlookup) (hexact _ hmem) (ih (hvalues _ hmem))
        · intro entry hlookup
          have hproto := hredacts proto entry hlookup
          rwa [if_pos rfl, redacts_undefined_iff] at hproto
      · intro hsafe
        cases hsafe with
        | secret h => exact absurd h hsecret
        | closed hclosed => cases hclosed
        | dict _ hsafe hproto =>
          constructor
          · intro key entry hlookup
            have hmem := (mem_iff_lookup hentries).mpr hlookup
            apply redacts_present ((ih (hvalues _ hmem)).mpr (hsafe key entry hlookup)).1
            rintro rfl
            exact hproto entry hlookup
          · intro entry hmem
            have hlookup := (mem_iff_lookup hentries).mp hmem
            exact ((ih (hvalues _ hmem)).mpr (hsafe entry.1 entry.2 hlookup)).2
  | @array role inner hnode ih =>
    apply correct_iff_of_opens (.array role hnode) hvalue
    intro hsecret hopens
    have hrole : role ≠ some secretRole := hsecret
    cases hvalue with
    | undefined | atom | record => cases hopens
    | @array items hitems =>
      rw [redacts_array_iff hrole hnode, exact_array_iff hrole hnode]
      constructor
      · rintro ⟨hredacts, hexact⟩
        apply Safe.array hrole
        intro item hmem
        exact (ih (hitems item hmem)).mp ⟨hredacts item hmem, hexact item hmem⟩
      · intro hsafe
        cases hsafe with
        | secret h => exact absurd h hsecret
        | closed hclosed => cases hclosed
        | array _ hsafe =>
          constructor
          · exact fun item hmem => ((ih (hitems item hmem)).mpr (hsafe item hmem)).1
          · exact fun item hmem => ((ih (hitems item hmem)).mpr (hsafe item hmem)).2

end Main

structure Schema where
  node : SchemaNode
  wellFormed : node.WellFormed

structure PlainData where
  value : JsValue
  plain : value.Plain

/-- The redacted value tells nothing of the secrets and keeps the rest, and the list names their
positions. -/
structure RedactsSoundly (schema : Schema) (data : PlainData) : Prop where
  noTrace : ∀ other : PlainData, Agree schema.node data.value other.value →
    (redactSecrets schema.node data.value).value = (redactSecrets schema.node other.value).value
  keeps : Redacts schema.node data.value (redactSecrets schema.node data.value).value
  lists : Lists schema.node data.value (redactSecrets schema.node data.value).secrets

/-- Redaction is sound on exactly the values that do not meet what objects inherit. -/
theorem redactsSoundly_iff (schema : Schema) (data : PlainData) :
    RedactsSoundly schema data ↔ Safe schema.node data.value := by
  have hcorrect := correct_iff_safe schema.wellFormed data.plain
  constructor
  · intro hsound
    exact hcorrect.mp ⟨hsound.keeps, hsound.lists.exact⟩
  · intro hsafe
    obtain ⟨hredacts, hexact⟩ := hcorrect.mpr hsafe
    exact ⟨fun other hagree => strip_eq_of_agree schema.wellFormed hagree, hredacts, hexact,
      nodup_positions schema.wellFormed (.inl data.plain)⟩

def apiKeySchema : Schema where
  node := .object none [("apiKey", .leaf (some secretRole))]
  wellFormed := by
    refine .object none (List.nodup_singleton "apiKey") fun property hproperty => ?_
    rw [List.mem_singleton.mp hproperty]
    exact .leaf _

def constructorData : PlainData where
  value := .record [("constructor", .atom (.string "kept"))]
  plain := by
    refine .record (List.nodup_singleton "constructor") fun entry hentry => ?_
    rw [List.mem_singleton.mp hentry]
    exact .atom _

theorem constructor_lost : ¬ ∀ schema data, RedactsSoundly schema data := by
  intro h
  have hsound := h apiKeySchema constructorData
  have hsafe := (correct_iff_safe apiKeySchema.wellFormed constructorData.plain).mp
    ⟨hsound.keeps, hsound.lists.exact⟩
  cases hsafe with
  | secret hsecret => cases hsecret
  | closed hclosed => cases hclosed
  | object _ hundeclared =>
    exact nomatch hundeclared "constructor" (.head _) (by decide +kernel)

end Harness.Redaction
