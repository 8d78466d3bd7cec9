import Harness.Foundation.Except
import Harness.Foundation.JsonEqual
import Harness.Foundation.JsonRecord

namespace Harness.Settings

open Harness.Foundation

abbrev Value := { json : Json // json.WellFormed }

structure Section where
  fields : List (String × Json)
  wellFormed : (Json.obj fields).WellFormed

def Section.value (contents : Section) : Value := ⟨.obj contents.fields, contents.wellFormed⟩

def Section.empty : Section := ⟨[], List.nodup_nil, trivial⟩

theorem wellFormed_setField {fields : List (String × Json)} (h : (Json.obj fields).WellFormed)
    (key : String) {value : Json} (hvalue : value.WellFormed) :
    (Json.obj (Json.setField fields key value)).WellFormed := by
  obtain ⟨hnodup, hvalues⟩ := h
  rw [Json.wellFormedFields_iff] at hvalues
  unfold Json.setField Json.hasOwn
  split
  · refine ⟨?_, Json.wellFormedFields_of_mem fun field hfield => ?_⟩
    · have hkeys : (fields.map fun field => if field.1 = key then (key, value) else field).map
          Prod.fst = fields.map Prod.fst := by
        rw [List.map_map]
        apply List.map_congr_left
        intro field _
        rw [Function.comp_apply]
        split
        · exact ‹field.1 = key›.symm
        · rfl
      rwa [hkeys]
    · obtain ⟨old, hold, rfl⟩ := List.mem_map.mp hfield
      split
      · exact hvalue
      · exact hvalues old hold
  · rename_i hnone
    refine ⟨?_, Json.wellFormedFields_of_mem fun field hfield => ?_⟩
    · rw [List.map_append, List.nodup_append]
      refine ⟨hnodup, List.nodup_cons.mpr ⟨List.not_mem_nil, List.nodup_nil⟩, ?_⟩
      intro name hname last hlast heq
      cases List.mem_singleton.mp hlast
      obtain ⟨field, hfield, hkey⟩ := List.mem_map.mp hname
      have hfound := Json.lookup_of_nodup hnodup (show (field.1, field.2) ∈ fields from hfield)
      rw [hkey, heq] at hfound
      exact hnone (by rw [hfound]; rfl)
    · rcases List.mem_append.mp hfield with hold | hnew
      · exact hvalues field hold
      · cases List.mem_singleton.mp hnew
        exact hvalue

theorem wellFormed_of_lookup {fields : List (String × Json)} (h : (Json.obj fields).WellFormed)
    {key : String} {value : Json} (hvalue : fields.lookup key = some value) : value.WellFormed :=
  Json.wellFormedFields_iff.mp h.2 _ (Json.mem_of_lookup hvalue)

/-- What a caller may pass: `rejected` carries the label of a value that is not JSON. -/
inductive JsValue
  | undefined
  | null
  | bool (b : Bool)
  | number (n : JsonNumber)
  | string (s : String)
  | array (items : List JsValue)
  | object (fields : List (String × JsValue))
  | rejected (label : String)

def JsValue.isUndefined : JsValue → Bool
  | undefined => true
  | _ => false

abbrev Rejection := String × String

mutual

def cloneValue (path : String) : JsValue → Except Rejection Json
  | .undefined => .error ("undefined", path)
  | .null => .ok .null
  | .bool b => .ok (.bool b)
  | .number n => .ok (.num n)
  | .string s => .ok (.str s)
  | .array items => return .arr (← cloneItems path 0 items)
  | .object fields => return .obj (← cloneFields path [] fields)
  | .rejected label => .error (label, path)

def cloneItems (path : String) (index : Nat) : List JsValue → Except Rejection (List Json)
  | [] => .ok []
  | item :: items => do
    let first ← cloneValue s!"{path}[{index}]" item
    let rest ← cloneItems path (index + 1) items
    return first :: rest

def cloneFields (path : String) (out : List (String × Json)) :
    List (String × JsValue) → Except Rejection (List (String × Json))
  | [] => .ok out
  | (key, entry) :: fields =>
    if entry.isUndefined = true then cloneFields path out fields
    else do
      let value ← cloneValue s!"{path}.{key}" entry
      cloneFields path (Json.setField out key value) fields

end

mutual

theorem cloneValue_wellFormed : (value : JsValue) → ∀ {path : String} {json : Json},
    cloneValue path value = .ok json → json.WellFormed
  | .undefined, _, _, h => by cases h
  | .null, _, _, h => by
    cases h
    trivial
  | .bool _, _, _, h => by
    cases h
    trivial
  | .number _, _, _, h => by
    cases h
    trivial
  | .string _, _, _, h => by
    cases h
    trivial
  | .array items, _, _, h => by
    obtain ⟨cloned, hcloned, heq⟩ := bind_eq_ok.mp h
    cases heq
    exact cloneItems_wellFormed items hcloned
  | .object fields, _, _, h => by
    obtain ⟨cloned, hcloned, heq⟩ := bind_eq_ok.mp h
    cases heq
    exact cloneFields_wellFormed fields Section.empty.wellFormed hcloned
  | .rejected _, _, _, h => by cases h

theorem cloneItems_wellFormed : (items : List JsValue) → ∀ {path : String} {index : Nat}
    {cloned : List Json}, cloneItems path index items = .ok cloned → Json.WellFormedItems cloned
  | [], _, _, _, h => by
    cases h
    trivial
  | item :: items, _, _, _, h => by
    obtain ⟨first, hfirst, h⟩ := bind_eq_ok.mp h
    obtain ⟨rest, hrest, heq⟩ := bind_eq_ok.mp h
    cases heq
    exact ⟨cloneValue_wellFormed item hfirst, cloneItems_wellFormed items hrest⟩

theorem cloneFields_wellFormed : (fields : List (String × JsValue)) → ∀ {path : String}
    {out cloned : List (String × Json)}, (Json.obj out).WellFormed →
    cloneFields path out fields = .ok cloned → (Json.obj cloned).WellFormed
  | [], _, _, _, hout, h => by
    cases h
    exact hout
  | (key, entry) :: fields, _, _, _, hout, h => by
    rw [cloneFields] at h
    split at h
    · exact cloneFields_wellFormed fields hout h
    · obtain ⟨value, hvalue, h⟩ := bind_eq_ok.mp h
      exact cloneFields_wellFormed fields
        (wellFormed_setField hout key (cloneValue_wellFormed entry hvalue)) h

end

def cloneJsonShaped (path : String) (fields : List (String × JsValue)) : Except Rejection Section :=
  match h : cloneFields path [] fields with
  | .ok cloned => .ok ⟨cloned, cloneFields_wellFormed fields Section.empty.wellFormed h⟩
  | .error rejection => .error rejection

def cloneChecked (path : String) (value : JsValue) : Except Rejection Value :=
  match h : cloneValue path value with
  | .ok cloned => .ok ⟨cloned, cloneValue_wellFormed value h⟩
  | .error rejection => .error rejection

mutual

def mergeValue (under : Option Json) : Json → Json
  | .obj fields =>
    match under with
    | some (.obj merged) => .obj (mergeFields merged fields)
    | _ => .obj fields
  | value => value

def mergeFields (merged : List (String × Json)) : List (String × Json) → List (String × Json)
  | [] => merged
  | (key, value) :: fields =>
    mergeFields (Json.setField merged key (mergeValue (merged.lookup key) value)) fields

end

def mergeLayers (under upper : Option Json) : Option Json :=
  match upper with
  | none => under
  | some value => some (mergeValue under value)

mutual

theorem mergeValue_wellFormed : (value : Json) → ∀ {under : Option Json},
    (∀ base, under = some base → base.WellFormed) → value.WellFormed →
    (mergeValue under value).WellFormed
  | .null, _, _, _ | .bool _, _, _, _ | .num _, _, _, _ | .str _, _, _, _ => trivial
  | .arr _, _, _, h => h
  | .obj fields, under, hunder, h => by
    unfold mergeValue
    split
    · rename_i merged
      exact mergeFields_wellFormed fields (hunder _ rfl) h
    · exact h

theorem mergeFields_wellFormed : (fields : List (String × Json)) → ∀ {merged : List (String × Json)},
    (Json.obj merged).WellFormed → (Json.obj fields).WellFormed →
    (Json.obj (mergeFields merged fields)).WellFormed
  | [], _, hmerged, _ => hmerged
  | (key, value) :: fields, merged, hmerged, h => by
    have hrest : (Json.obj fields).WellFormed := ⟨(List.nodup_cons.mp h.1).2, h.2.2⟩
    exact mergeFields_wellFormed fields (wellFormed_setField hmerged key
      (mergeValue_wellFormed value (fun _ hbase => wellFormed_of_lookup hmerged hbase) h.2.1)) hrest

end

def Section.merge (current patch : Section) : Section :=
  ⟨mergeFields current.fields patch.fields,
    mergeFields_wellFormed patch.fields current.wellFormed patch.wellFormed⟩

inductive SettingsPathOp
  | set (path : List String) (value : Value)
  | unset (path : List String)

def Section.set (contents : Section) (key : String) (value : Value) : Section :=
  ⟨Json.setField contents.fields key value.1,
    wellFormed_setField contents.wellFormed key value.2⟩

theorem wellFormed_without {fields : List (String × Json)} (h : (Json.obj fields).WellFormed)
    (keys : List String) : (Json.obj (Json.without fields keys)).WellFormed := by
  have hvalues := Json.wellFormedFields_iff.mp h.2
  refine ⟨h.1.sublist (List.filter_sublist.map Prod.fst), ?_⟩
  exact Json.wellFormedFields_of_mem fun field hfield => hvalues field (List.mem_filter.mp hfield).1

def Section.unset (contents : Section) (key : String) : Section :=
  ⟨Json.without contents.fields [key], wellFormed_without contents.wellFormed [key]⟩

def Value.section? (value : Value) : Option Section :=
  match h : value.1 with
  | .obj fields => some ⟨fields, h ▸ value.2⟩
  | _ => none

def Section.child? (contents : Section) (key : String) : Option Section :=
  match h : contents.fields.lookup key with
  | some value => Value.section? ⟨value, wellFormed_of_lookup contents.wellFormed h⟩
  | none => none

def setPath (contents : Section) (value : Value) : List String → Except String Section
  | [] =>
    expect (Value.section? value) "settings mutate: setting the section root requires a plain object"
  | [head] => .ok (contents.set head value)
  | head :: rest => do
    let child ← setPath ((contents.child? head).getD .empty) value rest
    return contents.set head child.value

def unsetPath (contents : Section) : List String → Section
  | [] => .empty
  | [head] => contents.unset head
  | head :: rest =>
    match contents.child? head with
    | some child => contents.set head (unsetPath child rest).value
    | none => contents

def applyPathOp (contents : Section) : SettingsPathOp → Except String Section
  | .set path value => setPath contents value path
  | .unset path => .ok (unsetPath contents path)

end Harness.Settings
