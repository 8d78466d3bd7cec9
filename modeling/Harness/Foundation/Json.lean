import Mathlib.Data.List.Nodup

namespace Harness.Foundation

/-- A finite double is the decimal it prints as: an integer, or `mantissa / 10 ^ scale` in
lowest form.  Negative zero and the non-finite values are not JSON. -/
inductive JsonNumber
  | int (n : Int)
  | frac (mantissa : Int) (scale : Nat) (canonical : 0 < scale ∧ mantissa % 10 ≠ 0)
  deriving DecidableEq, Repr

inductive Json
  | null
  | bool (b : Bool)
  | num (n : JsonNumber)
  | str (s : String)
  | arr (items : List Json)
  | obj (fields : List (String × Json))
  deriving Repr

namespace Json

abbrev int (n : Int) : Json := .num (.int n)

abbrev nat (n : Nat) : Json := .num (.int n)

instance : Inhabited Json := ⟨.null⟩

def fields? : Json → Option (List (String × Json))
  | .obj fields => some fields
  | _ => none

/-- Property access; an absent property and a property of a non-object both read `none`. -/
def get? (key : String) : Json → Option Json
  | .obj fields => fields.lookup key
  | _ => none

@[simp] theorem get?_obj (key : String) (fields : List (String × Json)) :
    (Json.obj fields).get? key = fields.lookup key := rfl

def hasOwn (fields : List (String × Json)) (key : String) : Bool :=
  (fields.lookup key).isSome

def optionalField (key : String) : Option Json → List (String × Json)
  | none => []
  | some value => [(key, value)]

def presentFields : List (String × Option Json) → List (String × Json)
  | [] => []
  | (key, value) :: fields => optionalField key value ++ presentFields fields

def isString : Json → Bool
  | .str _ => true
  | _ => false

def isNumber : Json → Bool
  | .num _ => true
  | _ => false

def isArray : Json → Bool
  | .arr _ => true
  | _ => false

mutual

def decEq : (a b : Json) → Decidable (a = b)
  | .null, .null => .isTrue rfl
  | .bool a, .bool b => decidable_of_iff (a = b) (by simp)
  | .num a, .num b => decidable_of_iff (a = b) (by simp)
  | .str a, .str b => decidable_of_iff (a = b) (by simp)
  | .arr as, .arr bs =>
    match decEqItems as bs with
    | .isTrue h => .isTrue (by rw [h])
    | .isFalse h => .isFalse (by simpa using h)
  | .obj as, .obj bs =>
    match decEqFields as bs with
    | .isTrue h => .isTrue (by rw [h])
    | .isFalse h => .isFalse (by simpa using h)
  | .null, .bool _ | .null, .num _ | .null, .str _ | .null, .arr _ | .null, .obj _
  | .bool _, .null | .bool _, .num _ | .bool _, .str _ | .bool _, .arr _ | .bool _, .obj _
  | .num _, .null | .num _, .bool _ | .num _, .str _ | .num _, .arr _ | .num _, .obj _
  | .str _, .null | .str _, .bool _ | .str _, .num _ | .str _, .arr _ | .str _, .obj _
  | .arr _, .null | .arr _, .bool _ | .arr _, .num _ | .arr _, .str _ | .arr _, .obj _
  | .obj _, .null | .obj _, .bool _ | .obj _, .num _ | .obj _, .str _ | .obj _, .arr _ =>
    .isFalse (by simp)

def decEqItems : (as bs : List Json) → Decidable (as = bs)
  | [], [] => .isTrue rfl
  | [], _ :: _ | _ :: _, [] => .isFalse (by simp)
  | a :: as, b :: bs =>
    match decEq a b, decEqItems as bs with
    | .isTrue ha, .isTrue has => .isTrue (by rw [ha, has])
    | .isFalse ha, _ => .isFalse (by simp [ha])
    | _, .isFalse has => .isFalse (by simp [has])

def decEqFields : (as bs : List (String × Json)) → Decidable (as = bs)
  | [], [] => .isTrue rfl
  | [], _ :: _ | _ :: _, [] => .isFalse (by simp)
  | (k, a) :: as, (l, b) :: bs =>
    match decEq a b, decEqFields as bs with
    | .isTrue ha, .isTrue has => decidable_of_iff (k = l) (by simp [ha, has])
    | .isFalse ha, _ => .isFalse (by simp [ha])
    | _, .isFalse has => .isFalse (by simp [has])

end

instance : DecidableEq Json := decEq

mutual

def WellFormed : Json → Prop
  | .arr items => WellFormedItems items
  | .obj fields => (fields.map Prod.fst).Nodup ∧ WellFormedFields fields
  | _ => True

def WellFormedItems : List Json → Prop
  | [] => True
  | item :: items => WellFormed item ∧ WellFormedItems items

def WellFormedFields : List (String × Json) → Prop
  | [] => True
  | (_, value) :: fields => WellFormed value ∧ WellFormedFields fields

end

mutual

def deepEqual : Json → Json → Bool
  | .null, .null => true
  | .bool a, .bool b => a == b
  | .num a, .num b => a == b
  | .str a, .str b => a == b
  | .arr as, .arr bs => deepEqualItems as bs
  | .obj as, .obj bs => as.length == bs.length && deepEqualFields as bs
  | _, _ => false

def deepEqualItems : List Json → List Json → Bool
  | [], [] => true
  | a :: as, b :: bs => deepEqual a b && deepEqualItems as bs
  | _, _ => false

def deepEqualFields : List (String × Json) → List (String × Json) → Bool
  | [], _ => true
  | (key, a) :: as, bs =>
    (match bs.lookup key with
      | some b => deepEqual a b
      | none => false) && deepEqualFields as bs

end

theorem lookup_of_nodup {fields : List (String × Json)} (h : (fields.map Prod.fst).Nodup)
    {key : String} {value : Json} (hmem : (key, value) ∈ fields) :
    fields.lookup key = some value := by
  induction fields with
  | nil => simp at hmem
  | cons field fields ih =>
    obtain ⟨k, v⟩ := field
    simp only [List.map_cons, List.nodup_cons] at h
    rcases List.mem_cons.mp hmem with heq | hrest
    · obtain ⟨rfl, rfl⟩ := Prod.mk.inj heq
      simp
    · have hne : key ≠ k := by
        rintro rfl
        exact h.1 (List.mem_map.mpr ⟨_, hrest, rfl⟩)
      simp [List.lookup_cons, beq_eq_false_iff_ne.mpr hne, ih h.2 hrest]

theorem mem_presentFields {fields : List (String × Option Json)} {field : String × Json} :
    field ∈ presentFields fields ↔ (field.1, some field.2) ∈ fields := by
  induction fields with
  | nil => simp [presentFields]
  | cons head fields ih =>
    obtain ⟨key, value⟩ := head
    rw [presentFields, List.mem_append, ih, List.mem_cons]
    cases value <;> simp [optionalField, Prod.ext_iff]

theorem keys_presentFields (fields : List (String × Option Json)) :
    ((presentFields fields).map Prod.fst).Sublist (fields.map Prod.fst) := by
  induction fields with
  | nil => exact .slnil
  | cons head fields ih =>
    obtain ⟨key, value⟩ := head
    cases value with
    | none => exact ih.cons key
    | some value => exact ih.cons_cons key

theorem lookup_presentFields {fields : List (String × Option Json)}
    (h : (fields.map Prod.fst).Nodup) (key : String) :
    (presentFields fields).lookup key = (fields.lookup key).join := by
  induction fields with
  | nil => rfl
  | cons head fields ih =>
    obtain ⟨k, value⟩ := head
    simp only [List.map_cons, List.nodup_cons] at h
    rw [presentFields, List.lookup_append, ih h.2, List.lookup_cons]
    by_cases hkey : key = k
    · subst hkey
      have hnone : fields.lookup key = none := by
        rw [List.lookup_eq_none_iff]
        intro field hfield
        have hne : key ≠ field.1 := fun heq => h.1 (List.mem_map.mpr ⟨field, hfield, heq.symm⟩)
        simpa using hne
      cases value <;> simp [optionalField, hnone]
    · have hne : (key == k) = false := beq_eq_false_iff_ne.mpr hkey
      cases value <;> simp [optionalField, List.lookup_cons, hne]

theorem wellFormedFields_of_mem {fields : List (String × Json)}
    (h : ∀ field ∈ fields, field.2.WellFormed) : WellFormedFields fields := by
  induction fields with
  | nil => trivial
  | cons field fields ih =>
    exact ⟨h field List.mem_cons_self, ih fun other hother => h other (List.mem_cons_of_mem _ hother)⟩

theorem wellFormed_presentFields {fields : List (String × Option Json)}
    (h : (fields.map Prod.fst).Nodup)
    (hvalues : ∀ field ∈ fields, ∀ value ∈ field.2, value.WellFormed) :
    (Json.obj (presentFields fields)).WellFormed :=
  ⟨(keys_presentFields fields).nodup h, wellFormedFields_of_mem fun field hfield =>
    hvalues _ (mem_presentFields.mp hfield) field.2 rfl⟩

mutual

theorem deepEqual_refl : (a : Json) → a.WellFormed → a.deepEqual a = true
  | .null, _ => rfl
  | .bool _, _ => by simp [deepEqual]
  | .num _, _ => by simp [deepEqual]
  | .str _, _ => by simp [deepEqual]
  | .arr items, h => by
    simp only [deepEqual]
    exact deepEqualItems_refl items h
  | .obj fields, h => by
    simp only [deepEqual, beq_self_eq_true, Bool.true_and]
    simp only [WellFormed] at h
    exact deepEqualFields_refl fields fields h.2
      fun key value hmem => lookup_of_nodup h.1 hmem

theorem deepEqualItems_refl : (items : List Json) → WellFormedItems items →
    deepEqualItems items items = true
  | [], _ => rfl
  | item :: items, h => by
    simp only [deepEqualItems, Bool.and_eq_true]
    exact ⟨deepEqual_refl item h.1, deepEqualItems_refl items h.2⟩

theorem deepEqualFields_refl : (fields all : List (String × Json)) → WellFormedFields fields →
    (∀ key value, (key, value) ∈ fields → all.lookup key = some value) →
    deepEqualFields fields all = true
  | [], _, _, _ => rfl
  | (key, value) :: fields, all, h, hall => by
    simp only [deepEqualFields, hall key value List.mem_cons_self, Bool.and_eq_true]
    exact ⟨deepEqual_refl value h.1,
      deepEqualFields_refl fields all h.2 fun k v hmem => hall k v (List.mem_cons_of_mem _ hmem)⟩

end

@[simp] theorem deepEqualFields_nil (bs : List (String × Json)) :
    deepEqualFields [] bs = true := rfl

theorem deepEqualFields_cons {key : String} {a : Json} {as bs : List (String × Json)} :
    deepEqualFields ((key, a) :: as) bs = true ↔
      (∃ b, bs.lookup key = some b ∧ a.deepEqual b = true) ∧ deepEqualFields as bs = true := by
  rw [deepEqualFields, Bool.and_eq_true]
  cases bs.lookup key <;> simp

theorem deepEqual_obj_iff {as bs : List (String × Json)} :
    (Json.obj as).deepEqual (.obj bs) = true ↔
      as.length = bs.length ∧ deepEqualFields as bs = true := by
  simp [deepEqual]

@[simp] theorem deepEqual_num_iff {n : JsonNumber} {b : Json} :
    (Json.num n).deepEqual b = true ↔ b = .num n := by
  cases b with
  | num m =>
    simp only [deepEqual, beq_iff_eq, num.injEq]
    exact eq_comm
  | _ => simp [deepEqual]

@[simp] theorem deepEqual_str_iff {s : String} {b : Json} :
    (Json.str s).deepEqual b = true ↔ b = .str s := by
  cases b with
  | str t =>
    simp only [deepEqual, beq_iff_eq, str.injEq]
    exact eq_comm
  | _ => simp [deepEqual]

theorem deepEqualItems_map_num (ns : List JsonNumber) :
    deepEqualItems (ns.map num) (ns.map num) = true := by
  induction ns with
  | nil => rfl
  | cons n ns ih => simp [deepEqualItems, ih]

theorem deepEqualItems_map_str (ss : List String) :
    deepEqualItems (ss.map str) (ss.map str) = true := by
  induction ss with
  | nil => rfl
  | cons s ss ih => simp [deepEqualItems, ih]

end Json

end Harness.Foundation
