import Harness.Foundation.DoubleText
import Harness.Foundation.JsonSyntax
import Harness.Foundation.OrderedMap
import Harness.Foundation.SafeInteger
import Harness.Foundation.Utf16Text
import Mathlib.Data.List.Sort

/-! JSON data as the language has it: strings are code units, numbers are doubles, and the fields of an
object stand in the order of own keys. -/

namespace Harness.Foundation

inductive JsonData
  | null
  | bool (b : Bool)
  | number (n : Double)
  | string (units : Units)
  | array (items : List JsonData)
  | object (fields : List (Units × JsonData))

/-- The key of an item of an array. -/
def indexKey (index : Nat) : Units := Utf16.encode (toString index)

def arrayIndex (key : Units) : Option Nat :=
  let index := Nat.ofDigitChars 10 (Utf16.chars key) 0
  if indexKey index = key ∧ index < 4294967295 then some index else none

/-- The order of own keys: indices by size, and then the others as they came. -/
def keyBefore (a b : Units) : Bool :=
  match arrayIndex a, arrayIndex b with
  | some i, some j => decide (i ≤ j)
  | some _, none => true
  | none, some _ => false
  | none, none => true

namespace JsonData

open JsonSyntax

abbrev text (s : String) : JsonData := .string (Utf16.encode s)

abbrev int (n : Int) : JsonData := .number (.finite n)

/-- An unpaired surrogate is written by its code. -/
def spellUnit (unit : UInt16) : StringUnit :=
  if Utf16.isSurrogate unit then .code unit.toNat else .ofChar (Utf16.unitChar unit)

def spellUnits : Units → List StringUnit
  | [] => []
  | [unit] => [spellUnit unit]
  | unit :: next :: rest =>
    if Utf16.isHigh unit && Utf16.isLow next then
      .ofChar (Utf16.pairChar unit next) :: spellUnits rest
    else spellUnit unit :: spellUnits (next :: rest)

mutual

def toSyntax : JsonData → JsonSyntax
  | .null => .null
  | .bool b => .bool b
  | .number (.finite q) => .number (Double.shortest q).isNegative (Double.shortest q).literal
  | .number _ => .null
  | .string units => .string (spellUnits units)
  | .array items => .array (toSyntaxItems items)
  | .object fields => .object (toSyntaxFields fields)

def toSyntaxItems : List JsonData → List JsonSyntax
  | [] => []
  | item :: items => item.toSyntax :: toSyntaxItems items

def toSyntaxFields : List (Units × JsonData) → List (List StringUnit × JsonSyntax)
  | [] => []
  | (key, value) :: fields => (spellUnits key, value.toSyntax) :: toSyntaxFields fields

end

/-- `JSON.stringify`. -/
def stringify (value : JsonData) : String := String.ofList value.toSyntax.print

def readUnit : StringUnit → Units
  | .char c => Utf16.encodeChar c
  | .code n => [UInt16.ofNat n]

def readUnits (units : List StringUnit) : Units := units.flatMap readUnit

/-- The fields of the object that is made: a key that comes again changes its value only. -/
def objectOf (fields : List (Units × JsonData)) : List (Units × JsonData) :=
  ((OrderedMap.empty : OrderedMap Units JsonData).insertAll fields).entries.insertionSort
    fun a b => keyBefore a.1 b.1 = true

mutual

def ofSyntax : JsonSyntax → JsonData
  | .null => .null
  | .bool b => .bool b
  | .number negative literal => .number (Double.round (literal.signed negative).toRat)
  | .string units => .string (readUnits units)
  | .array items => .array (ofSyntaxItems items)
  | .object fields => .object (objectOf (ofSyntaxFields fields))

def ofSyntaxItems : List JsonSyntax → List JsonData
  | [] => []
  | item :: items => ofSyntax item :: ofSyntaxItems items

def ofSyntaxFields : List (List StringUnit × JsonSyntax) → List (Units × JsonData)
  | [] => []
  | (key, value) :: fields => (readUnits key, ofSyntax value) :: ofSyntaxFields fields

end

/-- `JSON.parse`, but for the sign of a zero. -/
def parse (text : String) : Option JsonData := (JsonSyntax.parse text).map ofSyntax

mutual

/-- Numbers are doubles, and keys are distinct and in order. -/
def WellFormed : JsonData → Prop
  | .number n => ∃ q, n = .finite q ∧ Double.Representable q
  | .array items => WellFormedItems items
  | .object fields => (fields.map Prod.fst).Nodup ∧
      (fields.map Prod.fst).Pairwise (fun a b => keyBefore a b = true) ∧ WellFormedFields fields
  | _ => True

def WellFormedItems : List JsonData → Prop
  | [] => True
  | item :: items => WellFormed item ∧ WellFormedItems items

def WellFormedFields : List (Units × JsonData) → Prop
  | [] => True
  | (_, value) :: fields => WellFormed value ∧ WellFormedFields fields

end

theorem wellFormedFields_of_mem {fields : List (Units × JsonData)}
    (h : ∀ field ∈ fields, field.2.WellFormed) : WellFormedFields fields := by
  induction fields with
  | nil => trivial
  | cons field fields ih =>
    rw [List.forall_mem_cons] at h
    exact ⟨h.1, ih h.2⟩

theorem wellFormedItems_of_mem {items : List JsonData} (h : ∀ item ∈ items, item.WellFormed) :
    WellFormedItems items := by
  induction items with
  | nil => trivial
  | cons item items ih =>
    rw [List.forall_mem_cons] at h
    exact ⟨h.1, ih h.2⟩

/-- The same data up to the order of the fields of objects. -/
inductive Same : JsonData → JsonData → Prop
  | refl (value : JsonData) : Same value value
  | array {as bs : List JsonData} (hitems : List.Forall₂ Same as bs) : Same (.array as) (.array bs)
  | object {as bs : List (Units × JsonData)}
      (hkeys : (as.map Prod.fst).Perm (bs.map Prod.fst))
      (hvalues : ∀ key a b, (key, a) ∈ as → (key, b) ∈ bs → Same a b) :
      Same (.object as) (.object bs)

theorem Same.eq_string {value : JsonData} {units : Units} (h : Same value (.string units)) :
    value = .string units := by
  cases h
  rfl

section Fields

/-- Fields whose keys are written out. -/
def named (fields : List (String × JsonData)) : List (Units × JsonData) :=
  fields.map fun field => (Utf16.encode field.1, field.2)

def property (record : List (Units × JsonData)) (key : String) : Option JsonData :=
  record.lookup (Utf16.encode key)

theorem property_named (fields : List (String × JsonData)) (key : String) :
    property (named fields) key = fields.lookup key := by
  induction fields with
  | nil => rfl
  | cons field fields ih =>
    rw [property, named] at ih
    rw [property, named, List.map_cons, List.lookup_cons, ih, List.lookup_cons]
    by_cases h : key = field.1
    · rw [h, beq_self_eq_true, beq_self_eq_true]
    · rw [beq_eq_false_iff_ne.mpr h,
        beq_eq_false_iff_ne.mpr fun heq => h (Utf16.encode_injective heq)]

theorem map_fst_named (fields : List (String × JsonData)) :
    (named fields).map Prod.fst = (fields.map Prod.fst).map Utf16.encode := by
  rw [named, List.map_map, List.map_map]
  rfl

theorem mem_of_lookup {fields : List (Units × JsonData)} {key : Units} {value : JsonData}
    (h : fields.lookup key = some value) : (key, value) ∈ fields := by
  induction fields with
  | nil => cases h
  | cons field fields ih =>
    rw [List.lookup_cons] at h
    split at h
    · rename_i heq
      cases h
      rw [beq_iff_eq.mp heq]
      exact List.mem_cons_self
    · exact List.mem_cons_of_mem _ (ih h)

theorem lookup_of_nodup {fields : List (Units × JsonData)} (h : (fields.map Prod.fst).Nodup)
    {key : Units} {value : JsonData} (hmem : (key, value) ∈ fields) :
    fields.lookup key = some value := by
  induction fields with
  | nil => cases hmem
  | cons field fields ih =>
    rw [List.map_cons, List.nodup_cons] at h
    rw [List.lookup_cons]
    rcases List.mem_cons.mp hmem with rfl | hrest
    · rw [beq_self_eq_true]
    · have hne : key ≠ field.1 := by
        rintro rfl
        exact h.1 (List.mem_map.mpr ⟨_, hrest, rfl⟩)
      rw [beq_eq_false_iff_ne.mpr hne]
      exact ih h.2 hrest

theorem Same.lookup_string {as bs : List (Units × JsonData)} {key units : Units}
    (h : Same (.object as) (.object bs)) (hdistinct : (bs.map Prod.fst).Nodup)
    (hmem : (key, .string units) ∈ bs) : as.lookup key = some (.string units) := by
  cases h with
  | refl => exact lookup_of_nodup hdistinct hmem
  | object hkeys hvalues =>
    obtain ⟨⟨_, found⟩, hfound, rfl⟩ :=
      List.mem_map.mp (hkeys.mem_iff.mpr (List.mem_map_of_mem hmem))
    rw [lookup_of_nodup (hkeys.nodup_iff.mpr hdistinct) hfound,
      (hvalues _ _ _ hfound hmem).eq_string]

theorem arrayIndex_indexKey (index : Nat) :
    arrayIndex (indexKey index) = if index < 4294967295 then some index else none := by
  simp only [arrayIndex, indexKey, Utf16.chars_encode_text, ofDigitChars_toString, true_and]

/-- A key that does not start with a digit is no index. -/
theorem arrayIndex_of_head {key : String} (h : ∀ c ∈ key.toList.head?, c.isDigit = false) :
    arrayIndex (Utf16.encode key) = none := by
  rw [arrayIndex]
  refine if_neg ?_
  rintro ⟨hkey, -⟩
  rw [indexKey, Utf16.encode_injective.eq_iff] at hkey
  rw [← hkey, Nat.toString_eq_ofList_toDigits, String.toList_ofList] at h
  generalize Nat.ofDigitChars 10 (Utf16.chars (Utf16.encode key)) 0 = n at h
  cases hdigits : Nat.toDigits 10 n with
  | nil => exact Nat.toDigits_ne_nil hdigits
  | cons c digits =>
    have hdigit := JsonNumber.isDigit_toDigits n c (hdigits ▸ List.mem_cons_self)
    rw [hdigits] at h
    rw [h c rfl] at hdigit
    cases hdigit

/-- Keys that are no indices are in any order. -/
theorem keyBefore_of_none {a b : Units} (ha : arrayIndex a = none) (hb : arrayIndex b = none) :
    keyBefore a b = true := by
  rw [keyBefore, ha, hb]

/-- Distinct names none of which starts with a digit, so that none is an index. -/
def inOrder (keys : List String) : Bool :=
  decide keys.Nodup && keys.all fun key => key.toList.head?.all fun c => !c.isDigit

theorem wellFormed_named {fields : List (String × JsonData)}
    (hkeys : inOrder (fields.map Prod.fst) = true) (h : WellFormedFields (named fields)) :
    (JsonData.object (named fields)).WellFormed := by
  rw [inOrder, Bool.and_eq_true, decide_eq_true_eq, List.all_eq_true] at hkeys
  have hnone : ∀ key ∈ fields.map Prod.fst, arrayIndex (Utf16.encode key) = none := by
    intro key hkey
    refine arrayIndex_of_head fun c hc => ?_
    have hdigit := hkeys.2 key hkey
    rw [Option.mem_def.mp hc] at hdigit
    exact Bool.not_eq_true' _ |>.mp hdigit
  rw [WellFormed, map_fst_named]
  refine ⟨hkeys.1.map Utf16.encode_injective, List.Pairwise.map _ (fun _ _ hkey => hkey) ?_, h⟩
  exact List.pairwise_of_forall_mem_list fun a ha b hb =>
    keyBefore_of_none (hnone a ha) (hnone b hb)

end Fields

section Readings

def int? : JsonData → Option Int
  | .number (.finite q) => if q.den = 1 then some q.num else none
  | _ => none

def text? : JsonData → Option String
  | .string units => Utf16.text? units
  | _ => none

theorem text?_eq_some {value : JsonData} {s : String} : value.text? = some s ↔ value = .text s := by
  unfold text?
  split
  · rw [Utf16.text?_eq_some, string.injEq]
  · rename_i hno
    exact iff_of_false nofun (hno _)

theorem bind_text?_eq_some {value : Option JsonData} {s : String} :
    value.bind text? = some s ↔ value = some (.text s) := by
  cases value with
  | none => exact iff_of_false nofun nofun
  | some value => rw [Option.bind_some, text?_eq_some, Option.some.injEq]

theorem int?_eq_some {value : JsonData} {n : Int} : value.int? = some n ↔ value = .int n := by
  unfold int?
  split
  · rename_i q
    rw [Option.ite_none_right_eq_some, Option.some.injEq, number.injEq, Double.finite.injEq]
    constructor
    · rintro ⟨hden, rfl⟩
      exact (Rat.coe_int_num_of_den_eq_one hden).symm
    · rintro rfl
      exact ⟨Rat.den_intCast n, Rat.num_intCast n⟩
  · rename_i hno
    exact iff_of_false nofun (hno n)

/-- `Number.isSafeInteger`. -/
def isSafeInteger (value : JsonData) : Bool :=
  match value.int? with
  | some n => isSafe n
  | none => false

theorem isSafeInteger_iff {value : JsonData} :
    value.isSafeInteger = true ↔ ∃ n, value = .int n ∧ isSafe n = true := by
  unfold isSafeInteger
  cases h : value.int? with
  | none =>
    refine iff_of_false nofun ?_
    rintro ⟨n, hn, -⟩
    rw [int?_eq_some.mpr hn] at h
    cases h
  | some n =>
    constructor
    · exact fun hsafe => ⟨n, int?_eq_some.mp h, hsafe⟩
    · rintro ⟨m, hm, hsafe⟩
      rw [int?_eq_some.mpr hm] at h
      cases h
      exact hsafe

end Readings

section Strings

theorem readUnit_ofChar (c : Char) : readUnit (.ofChar c) = Utf16.encodeChar c := by
  unfold StringUnit.ofChar
  split
  · rename_i h
    rw [readUnit, Utf16.encodeChar_basic (Nat.lt_trans h.1 (by decide))]
  · rfl

theorem readUnit_spellUnit (unit : UInt16) : readUnit (spellUnit unit) = [unit] := by
  unfold spellUnit
  split
  · rw [readUnit, UInt16.ofNat_toNat]
  · rename_i h
    rw [readUnit_ofChar, Utf16.encode_unitChar (eq_false_of_ne_true h)]

theorem spellUnit_lexical (unit : UInt16) : (spellUnit unit).Lexical := by
  unfold spellUnit
  split
  · exact UInt16.toNat_lt unit
  · exact StringUnit.ofChar_lexical _

theorem spellUnits_lexical (units : Units) : ∀ unit ∈ spellUnits units, unit.Lexical := by
  induction units using spellUnits.induct with
  | case1 => exact List.forall_mem_nil _
  | case2 unit => exact List.forall_mem_singleton.mpr (spellUnit_lexical unit)
  | case3 unit next rest hpair ih =>
    rw [spellUnits, if_pos hpair, List.forall_mem_cons]
    generalize Utf16.pairChar unit next = c
    exact ⟨StringUnit.ofChar_lexical c, ih⟩
  | case4 unit next rest hpair ih =>
    rw [spellUnits, if_neg hpair, List.forall_mem_cons]
    exact ⟨spellUnit_lexical unit, ih⟩

/-- Every string is read as it was, unpaired surrogates and all. -/
theorem readUnits_spellUnits (units : Units) : readUnits (spellUnits units) = units := by
  rw [readUnits]
  induction units using spellUnits.induct with
  | case1 => rfl
  | case2 unit => rw [spellUnits, List.flatMap_singleton, readUnit_spellUnit]
  | case3 unit next rest hpair ih =>
    rw [spellUnits, if_pos hpair, List.flatMap_cons, ih, readUnit_ofChar]
    rw [Bool.and_eq_true] at hpair
    rw [Utf16.encode_pairChar hpair.1 hpair.2]
    rfl
  | case4 unit next rest hpair ih =>
    rw [spellUnits, if_neg hpair, List.flatMap_cons, ih, readUnit_spellUnit]
    rfl

end Strings

section Values

mutual

theorem toSyntax_lexical : (value : JsonData) → value.toSyntax.Lexical
  | .null | .bool _ => trivial
  | .number (.finite q) => JsonNumber.literal_lexical (Double.shortest q)
  | .number (.infinite _) | .number .nan => trivial
  | .string units => spellUnits_lexical units
  | .array items => toSyntaxItems_lexical items
  | .object fields => toSyntaxFields_lexical fields

theorem toSyntaxItems_lexical : (items : List JsonData) → LexicalItems (toSyntaxItems items)
  | [] => trivial
  | item :: items => ⟨toSyntax_lexical item, toSyntaxItems_lexical items⟩

theorem toSyntaxFields_lexical : (fields : List (Units × JsonData)) →
    LexicalFields (toSyntaxFields fields)
  | [] => trivial
  | (key, value) :: fields =>
    ⟨spellUnits_lexical key, toSyntax_lexical value, toSyntaxFields_lexical fields⟩

end

theorem objectOf_wellFormed {fields : List (Units × JsonData)}
    (hdistinct : (fields.map Prod.fst).Nodup)
    (hordered : (fields.map Prod.fst).Pairwise fun a b => keyBefore a b = true) :
    objectOf fields = fields := by
  have hentries : ((OrderedMap.empty : OrderedMap Units JsonData).insertAll fields).entries =
      fields := by
    rw [OrderedMap.entries_insertAll_new (by simpa [OrderedMap.keys] using hdistinct)]
    rfl
  rw [objectOf, hentries]
  exact (List.pairwise_map.mp hordered).insertionSort_eq

mutual

theorem ofSyntax_toSyntax : (value : JsonData) → value.WellFormed → ofSyntax value.toSyntax = value
  | .null, _ => rfl
  | .bool _, _ => rfl
  | .number n, h => by
    obtain ⟨q, rfl, hq⟩ := h
    rw [toSyntax, ofSyntax, JsonNumber.signed_literal, Double.round_shortest hq]
  | .string units, _ => by rw [toSyntax, ofSyntax, readUnits_spellUnits]
  | .array items, h => by rw [toSyntax, ofSyntax, ofSyntaxItems_toSyntaxItems items h]
  | .object fields, h => by
    rw [toSyntax, ofSyntax, ofSyntaxFields_toSyntaxFields fields h.2.2,
      objectOf_wellFormed h.1 h.2.1]

theorem ofSyntaxItems_toSyntaxItems : (items : List JsonData) → WellFormedItems items →
    ofSyntaxItems (toSyntaxItems items) = items
  | [], _ => rfl
  | item :: items, h => by
    rw [toSyntaxItems, ofSyntaxItems, ofSyntax_toSyntax item h.1,
      ofSyntaxItems_toSyntaxItems items h.2]

theorem ofSyntaxFields_toSyntaxFields : (fields : List (Units × JsonData)) →
    WellFormedFields fields → ofSyntaxFields (toSyntaxFields fields) = fields
  | [], _ => rfl
  | (key, value) :: fields, h => by
    rw [toSyntaxFields, ofSyntaxFields, readUnits_spellUnits, ofSyntax_toSyntax value h.1,
      ofSyntaxFields_toSyntaxFields fields h.2]

end

theorem parse_stringify {value : JsonData} (h : value.WellFormed) :
    parse (stringify value) = some value := by
  rw [parse, stringify, parse_print (toSyntax_lexical value), Option.map_some,
    ofSyntax_toSyntax value h]

theorem stringify_head (value : JsonData) :
    ∀ c ∈ (stringify value).toList.head?, c.toNat < 128 := by
  rw [stringify, String.toList_ofList]
  exact print_head_ascii (toSyntax_lexical value)

end Values

end JsonData

end Harness.Foundation
