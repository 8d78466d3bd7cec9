import Harness.Foundation.JsonSyntax
import Harness.Foundation.OrderedMap

/-! JSON text of values whose strings are sequences of characters and whose numbers are decimals: a
lone surrogate escape is not read, and a number is the decimal it spells. -/

namespace Harness.Foundation

namespace Json

open JsonSyntax

mutual

def toSyntax : Json → JsonSyntax
  | .null => .null
  | .bool b => .bool b
  | .num n => .number n.isNegative n.literal
  | .str s => .string (s.toList.map StringUnit.ofChar)
  | .arr items => .array (toSyntaxItems items)
  | .obj fields => .object (toSyntaxFields fields)

def toSyntaxItems : List Json → List JsonSyntax
  | [] => []
  | item :: items => item.toSyntax :: toSyntaxItems items

def toSyntaxFields : List (String × Json) → List (List StringUnit × JsonSyntax)
  | [] => []
  | (key, value) :: fields => (key.toList.map StringUnit.ofChar, value.toSyntax) :: toSyntaxFields fields

end

/-- `JSON.stringify`. -/
def stringify (value : Json) : String := String.ofList value.toSyntax.print

mutual

/-- The text a value turns into inside a template. -/
def display : Json → String
  | .null => "null"
  | .bool b => if b then "true" else "false"
  | .num n => String.ofList n.print
  | .str s => s
  | .arr items => ",".intercalate (displayItems items)
  | .obj _ => "[object Object]"

def displayItems : List Json → List String
  | [] => []
  | .null :: items => "" :: displayItems items
  | item :: items => display item :: displayItems items

end

def isHighSurrogate (n : Nat) : Bool := decide (0xD800 ≤ n ∧ n < 0xDC00)

def isLowSurrogate (n : Nat) : Bool := decide (0xDC00 ≤ n ∧ n < 0xE000)

def joinUnits : List StringUnit → Option (List Char)
  | [] => some []
  | .char c :: units => (joinUnits units).map (c :: ·)
  | .code high :: .code low :: units =>
    if isHighSurrogate high && isLowSurrogate low then
      (joinUnits units).map (Char.ofNat (0x10000 + (high - 0xD800) * 0x400 + (low - 0xDC00)) :: ·)
    else if isHighSurrogate high || isLowSurrogate high then none
    else (joinUnits (.code low :: units)).map (Char.ofNat high :: ·)
  | .code n :: units =>
    if isHighSurrogate n || isLowSurrogate n then none
    else (joinUnits units).map (Char.ofNat n :: ·)

def readString (units : List StringUnit) : Option String := (joinUnits units).map String.ofList

/-- The fields as an object holds them: a repeated key keeps its first place and its last value. -/
def objectOf (fields : List (String × Json)) : Json :=
  .obj ((OrderedMap.empty : OrderedMap String Json).insertAll fields).entries

mutual

def ofSyntax : JsonSyntax → Option Json
  | .null => some .null
  | .bool b => some (.bool b)
  | .number negative literal => some (.num (literal.signed negative))
  | .string units => (readString units).map .str
  | .array items => (ofSyntaxItems items).map .arr
  | .object fields => (ofSyntaxFields fields).map objectOf

def ofSyntaxItems : List JsonSyntax → Option (List Json)
  | [] => some []
  | item :: items => do
    let item ← ofSyntax item
    let items ← ofSyntaxItems items
    return item :: items

def ofSyntaxFields : List (List StringUnit × JsonSyntax) → Option (List (String × Json))
  | [] => some []
  | (key, value) :: fields => do
    let key ← readString key
    let value ← ofSyntax value
    let fields ← ofSyntaxFields fields
    return (key, value) :: fields

end

/-- `JSON.parse`. -/
def parse (text : String) : Option Json := (JsonSyntax.parse text).bind ofSyntax

section Strings

theorem map_ofChar_lexical (cs : List Char) : ∀ unit ∈ cs.map StringUnit.ofChar, unit.Lexical := by
  rw [List.forall_mem_map]
  exact fun c _ => StringUnit.ofChar_lexical c

theorem joinUnits_ofChar (c : Char) (units : List StringUnit) :
    joinUnits (StringUnit.ofChar c :: units) = (joinUnits units).map (c :: ·) := by
  unfold StringUnit.ofChar
  split
  · rename_i h
    have hhigh : isHighSurrogate c.toNat = false := by
      simp only [isHighSurrogate, decide_eq_false_iff_not]
      omega
    have hlow : isLowSurrogate c.toNat = false := by
      simp only [isLowSurrogate, decide_eq_false_iff_not]
      omega
    cases units with
    | nil => simp [joinUnits, hhigh, hlow]
    | cons unit units =>
      cases unit with
      | char d => simp [joinUnits, hhigh, hlow]
      | code n => simp [joinUnits, hhigh, hlow]
  · rw [joinUnits]

theorem joinUnits_map (cs : List Char) : joinUnits (cs.map StringUnit.ofChar) = some cs := by
  induction cs with
  | nil => rfl
  | cons c cs ih => rw [List.map_cons, joinUnits_ofChar, ih, Option.map_some]

theorem readString_map (s : String) : readString (s.toList.map StringUnit.ofChar) = some s := by
  rw [readString, joinUnits_map, Option.map_some, String.ofList_toList]

end Strings

section Values

mutual

theorem toSyntax_lexical : (value : Json) → value.toSyntax.Lexical
  | .null | .bool _ => trivial
  | .num n => JsonNumber.literal_lexical n
  | .str s => map_ofChar_lexical s.toList
  | .arr items => toSyntaxItems_lexical items
  | .obj fields => toSyntaxFields_lexical fields

theorem toSyntaxItems_lexical : (items : List Json) → LexicalItems (toSyntaxItems items)
  | [] => trivial
  | item :: items => ⟨toSyntax_lexical item, toSyntaxItems_lexical items⟩

theorem toSyntaxFields_lexical : (fields : List (String × Json)) →
    LexicalFields (toSyntaxFields fields)
  | [] => trivial
  | (key, value) :: fields =>
    ⟨map_ofChar_lexical key.toList, toSyntax_lexical value, toSyntaxFields_lexical fields⟩

end

mutual

theorem ofSyntax_toSyntax : (value : Json) → value.WellFormed → ofSyntax value.toSyntax = some value
  | .null, _ => rfl
  | .bool _, _ => rfl
  | .num n, _ => by rw [toSyntax, ofSyntax, JsonNumber.signed_literal]
  | .str s, _ => by rw [toSyntax, ofSyntax, readString_map, Option.map_some]
  | .arr items, h => by
    rw [toSyntax, ofSyntax, ofSyntaxItems_toSyntaxItems items h, Option.map_some]
  | .obj fields, h => by
    have hobject : objectOf fields = .obj fields := by
      rw [objectOf, OrderedMap.entries_insertAll_new (by simpa [OrderedMap.keys] using h.1)]
      rfl
    rw [toSyntax, ofSyntax, ofSyntaxFields_toSyntaxFields fields h.2, Option.map_some, hobject]

theorem ofSyntaxItems_toSyntaxItems : (items : List Json) → WellFormedItems items →
    ofSyntaxItems (toSyntaxItems items) = some items
  | [], _ => rfl
  | item :: items, h => by
    rw [toSyntaxItems, ofSyntaxItems, ofSyntax_toSyntax item h.1,
      ofSyntaxItems_toSyntaxItems items h.2]
    rfl

theorem ofSyntaxFields_toSyntaxFields : (fields : List (String × Json)) →
    WellFormedFields fields → ofSyntaxFields (toSyntaxFields fields) = some fields
  | [], _ => rfl
  | (key, value) :: fields, h => by
    rw [toSyntaxFields, ofSyntaxFields, readString_map, ofSyntax_toSyntax value h.1,
      ofSyntaxFields_toSyntaxFields fields h.2]
    rfl

end

theorem parse_stringify {value : Json} (h : value.WellFormed) :
    parse (stringify value) = some value := by
  rw [parse, stringify, parse_print (toSyntax_lexical value), Option.bind_some,
    ofSyntax_toSyntax value h]

theorem stringify_head (value : Json) : ∀ c ∈ (stringify value).toList.head?, c.toNat < 128 := by
  rw [stringify, String.toList_ofList]
  exact print_head_ascii (toSyntax_lexical value)

theorem stringify_printable (value : Json) : ∀ c ∈ (stringify value).toList, 32 ≤ c.toNat := by
  rw [stringify, String.toList_ofList]
  exact print_printable _ (toSyntax_lexical value)

end Values

end Json

end Harness.Foundation
