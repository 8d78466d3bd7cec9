import Harness.Foundation.JsonData
import Harness.Foundation.Utf8

namespace Harness.Foundation.JsonData

open JsonSyntax

mutual

/-- The value itself and the values in it. -/
def count : JsonData → Nat
  | .array items => countItems items + 1
  | .object fields => countFields fields + 1
  | _ => 1

def countItems : List JsonData → Nat
  | [] => 0
  | item :: items => item.count + countItems items

def countFields : List (Units × JsonData) → Nat
  | [] => 0
  | (_, value) :: fields => value.count + countFields fields

end

@[simp] theorem count_null : JsonData.null.count = 1 := rfl

@[simp] theorem count_bool (b : Bool) : (JsonData.bool b).count = 1 := rfl

@[simp] theorem count_number (n : Double) : (JsonData.number n).count = 1 := rfl

@[simp] theorem count_string (units : Units) : (JsonData.string units).count = 1 := rfl

@[simp] theorem count_array (items : List JsonData) :
    (JsonData.array items).count = countItems items + 1 := rfl

@[simp] theorem count_object (fields : List (Units × JsonData)) :
    (JsonData.object fields).count = countFields fields + 1 := rfl

/-- A character that is written as it stands, in one byte. -/
def isPlainChar (c : Char) : Bool :=
  decide (escapeUnit (.ofChar c) = [c]) && decide (c.toNat < 128)

def isPlain (s : String) : Bool := s.toList.all isPlainChar

/-- A string whose text is plain. -/
def PlainUnits (units : Units) : Prop := ∃ s, units = Utf16.encode s ∧ isPlain s = true

mutual

def Plain : JsonData → Prop
  | .number n => ∀ c ∈ (JsonData.number n).toSyntax.print, c.toNat < 128
  | .string units => PlainUnits units
  | .array items => PlainItems items
  | .object fields => PlainFields fields
  | _ => True

def PlainItems : List JsonData → Prop
  | [] => True
  | item :: items => item.Plain ∧ PlainItems items

def PlainFields : List (Units × JsonData) → Prop
  | [] => True
  | (key, value) :: fields => PlainUnits key ∧ value.Plain ∧ PlainFields fields

end

mutual

/-- A bound on the bytes of a plain value's text. -/
def width : JsonData → Nat
  | .null => 4
  | .bool _ => 5
  | .number n => (JsonData.number n).toSyntax.print.length
  | .string units => units.length + 2
  | .array items => widthItems items + 2
  | .object fields => widthFields fields + 2

def widthItems : List JsonData → Nat
  | [] => 0
  | item :: items => item.width + 1 + widthItems items

def widthFields : List (Units × JsonData) → Nat
  | [] => 0
  | (key, value) :: fields => key.length + value.width + 4 + widthFields fields

end

/-- A text of the given length at most, in which each character is a byte. -/
def Fits (chars : List Char) (bound : Nat) : Prop :=
  chars.length ≤ bound ∧ ∀ c ∈ chars, c.toNat < 128

theorem Fits.append {first second : List Char} {m n : Nat} (hfirst : Fits first m)
    (hsecond : Fits second n) : Fits (first ++ second) (m + n) := by
  constructor
  · rw [List.length_append]
    exact Nat.add_le_add hfirst.1 hsecond.1
  · intro c hc
    exact (List.mem_append.mp hc).elim (hfirst.2 c) (hsecond.2 c)

theorem Fits.cons {chars : List Char} {c : Char} {n : Nat} (hc : c.toNat < 128)
    (h : Fits chars n) : Fits (c :: chars) (n + 1) := by
  constructor
  · exact Nat.succ_le_succ h.1
  · intro d hd
    rcases List.mem_cons.mp hd with rfl | hrest
    · exact hc
    · exact h.2 d hrest

theorem Fits.mono {chars : List Char} {m n : Nat} (h : Fits chars m) (hle : m ≤ n) :
    Fits chars n :=
  ⟨h.1.trans hle, h.2⟩

/-- A word of characters below 128. -/
theorem fits_keyword (word : List Char)
    (h : (word.all fun c => decide (c.toNat < 128)) = true) : Fits word word.length :=
  ⟨Nat.le_refl _, fun c hc => of_decide_eq_true (List.all_eq_true.mp h c hc)⟩

theorem Fits.nil : Fits [] 0 := ⟨Nat.le_refl _, nofun⟩

theorem isPlainChar_iff {c : Char} :
    isPlainChar c = true ↔ escapeUnit (.ofChar c) = [c] ∧ c.toNat < 128 := by
  rw [isPlainChar, Bool.and_eq_true, decide_eq_true_eq, decide_eq_true_eq]

/-- A unit below 128 is a character of its own. -/
theorem unit_of_small {unit : UInt16} (h : (Utf16.unitChar unit).toNat < 128) :
    Utf16.isSurrogate unit = false ∧ unit.toNat < 128 := by
  unfold Utf16.unitChar at h
  split at h
  · exact absurd h (by decide)
  · rename_i hsurrogate
    rw [Bool.not_eq_true] at hsurrogate
    refine ⟨hsurrogate, ?_⟩
    rwa [Utf16.toNat_char (Utf16.scalar_of_not_surrogate hsurrogate)] at h

theorem pairChar_large {high low : UInt16} (hhigh : Utf16.isHigh high = true)
    (hlow : Utf16.isLow low = true) : ¬(Utf16.pairChar high low).toNat < 128 := by
  rw [Utf16.isHigh_iff] at hhigh
  rw [Utf16.isLow_iff] at hlow
  rw [Utf16.pairChar, Utf16.toNat_char (by omega)]
  omega

/-- A plain string is its characters. -/
theorem spellUnits_plain {units : Units} (h : ∀ c ∈ Utf16.chars units, c.toNat < 128) :
    spellUnits units = (Utf16.chars units).map .ofChar ∧
      (Utf16.chars units).length = units.length ∧ ∀ unit ∈ units, unit.toNat < 128 := by
  have hspell : ∀ unit : UInt16, (Utf16.unitChar unit).toNat < 128 →
      spellUnit unit = .ofChar (Utf16.unitChar unit) := by
    intro unit hunit
    rw [spellUnit, (unit_of_small hunit).1, if_neg Bool.false_ne_true]
  induction units using Utf16.chars.induct with
  | case1 => exact ⟨rfl, rfl, List.forall_mem_nil _⟩
  | case2 unit =>
    rw [Utf16.chars, List.forall_mem_singleton] at h
    rw [spellUnits, hspell unit h, Utf16.chars, List.forall_mem_singleton]
    exact ⟨rfl, rfl, (unit_of_small h).2⟩
  | case3 unit next rest hpair ih =>
    rw [Bool.and_eq_true] at hpair
    rw [Utf16.chars_pair hpair.1 hpair.2, List.forall_mem_cons] at h
    exact absurd h.1 (pairChar_large hpair.1 hpair.2)
  | case4 unit next rest hpair ih =>
    rw [Utf16.chars, if_neg hpair, List.forall_mem_cons] at h
    obtain ⟨hrest, hlength, hunits⟩ := ih h.2
    rw [spellUnits, if_neg hpair, Utf16.chars, if_neg hpair, hspell unit h.1, hrest,
      List.forall_mem_cons, List.length_cons, List.length_cons, hlength]
    exact ⟨rfl, rfl, (unit_of_small h.1).2, hunits⟩

theorem plain_chars {s : String} (h : isPlain s = true) :
    ∀ c ∈ s.toList, escapeUnit (.ofChar c) = [c] ∧ c.toNat < 128 := by
  intro c hc
  exact isPlainChar_iff.mp (List.all_eq_true.mp h c hc)

theorem spellUnits_encode {s : String} (h : isPlain s = true) :
    spellUnits (Utf16.encode s) = s.toList.map .ofChar ∧
      (Utf16.encode s).length = s.length ∧ ∀ unit ∈ Utf16.encode s, unit.toNat < 128 := by
  have hspell := @spellUnits_plain (Utf16.encode s)
  rw [Utf16.chars_encode_text] at hspell
  obtain ⟨hunits, hlength, hsmall⟩ := hspell fun c hc => (plain_chars h c hc).2
  rw [String.length_toList] at hlength
  exact ⟨hunits, hlength.symm, hsmall⟩

theorem length_encode {s : String} (h : isPlain s = true) : (Utf16.encode s).length = s.length :=
  (spellUnits_encode h).2.1

theorem fits_quote {units : Units} (h : PlainUnits units) :
    Fits (quote (spellUnits units)) (units.length + 2) := by
  obtain ⟨s, rfl, hplain⟩ := h
  have hchars := plain_chars hplain
  obtain ⟨hspell, hlength, -⟩ := spellUnits_encode hplain
  have hsame : (s.toList.map .ofChar).flatMap escapeUnit = s.toList := by
    rw [List.flatMap_map, List.flatMap_congr fun c hc => (hchars c hc).1, List.flatMap_singleton']
  have hbody : Fits s.toList (Utf16.encode s).length := by
    rw [hlength]
    exact ⟨Nat.le_of_eq String.length_toList, fun c hc => (hchars c hc).2⟩
  rw [quote, hspell, hsame]
  exact (hbody.append (Fits.nil.cons (by decide))).cons (by decide)

mutual

theorem fits_print : (value : JsonData) → value.Plain → Fits value.toSyntax.print value.width
  | .null, _ => fits_keyword ['n', 'u', 'l', 'l'] rfl
  | .bool true, _ => (fits_keyword ['t', 'r', 'u', 'e'] rfl).mono (by decide)
  | .bool false, _ => fits_keyword ['f', 'a', 'l', 's', 'e'] rfl
  | .number _, h => ⟨Nat.le_refl _, h⟩
  | .string _, h => fits_quote h
  | .array items, h => by
    rw [toSyntax, print, width]
    exact ((fits_printItems items h).append (Fits.nil.cons (by decide))).cons (by decide)
  | .object fields, h => by
    rw [toSyntax, print, width]
    exact ((fits_printFields fields h).append (Fits.nil.cons (by decide))).cons (by decide)

theorem fits_printItems : (items : List JsonData) → PlainItems items →
    Fits (printItems (toSyntaxItems items)) (widthItems items)
  | [], _ => Fits.nil
  | [item], h => by
    rw [toSyntaxItems, toSyntaxItems, printItems, widthItems]
    exact (fits_print item h.1).mono (by omega)
  | item :: next :: items, h => by
    rw [toSyntaxItems, toSyntaxItems, printItems_cons, widthItems]
    exact ((fits_print item h.1).append
      ((fits_printItems (next :: items) h.2).cons (by decide))).mono (by omega)

theorem fits_printFields : (fields : List (Units × JsonData)) → PlainFields fields →
    Fits (printFields (toSyntaxFields fields)) (widthFields fields)
  | [], _ => Fits.nil
  | [(key, value)], h => by
    rw [toSyntaxFields, toSyntaxFields, printFields, widthFields]
    exact ((fits_quote h.1).append ((fits_print value h.2.1).cons (by decide))).mono (by omega)
  | (key, value) :: (name, next) :: fields, h => by
    rw [toSyntaxFields, toSyntaxFields, printFields_cons, widthFields]
    exact ((fits_quote h.1).append (((fits_print value h.2.1).append
      ((fits_printFields ((name, next) :: fields) h.2.2).cons (by decide))).cons
        (by decide))).mono (by omega)

end

/-- The bytes of a plain value. -/
theorem byteLength_stringify {value : JsonData} (h : value.Plain) :
    Utf8.byteLength value.stringify ≤ value.width := by
  obtain ⟨hlength, hascii⟩ := fits_print value h
  unfold Utf8.byteLength Utf8.encode stringify
  rw [String.toList_ofList, Utf8.length_encodeChars hascii]
  exact hlength

theorem byteLength_plain {s : String} (h : isPlain s = true) :
    Utf16.byteLength (Utf16.encode s) = s.length := by
  rw [Utf16.byteLength_ascii (spellUnits_encode h).2.2, length_encode h]

/-- A natural number of at most fifteen digits is written out. -/
theorem print_nat {n : Nat} (digits : Nat) (h : n < 10 ^ digits) (hpos : 0 < digits)
    (hle : digits ≤ 21) (hsafe : n < 2 ^ 53) : Fits (int n).toSyntax.print digits := by
  have hlength := (Nat.length_toDigits_le_iff (n := n) (by decide) hpos).mpr h
  have hprint : (int n).toSyntax.print = Nat.toDigits 10 n := by
    have hliteral : (JsonNumber.int n).literal = ⟨Nat.toDigits 10 n, [], none⟩ :=
      if_pos (hlength.trans hle)
    rw [toSyntax, print, Double.shortest_int (by omega), hliteral]
    simp [JsonNumber.isNegative, JsonNumber.Literal.print, JsonNumber.Literal.text]
  rw [hprint]
  refine ⟨hlength, ?_⟩
  intro c hc
  have hdigit := JsonNumber.isDigit_toDigits n c hc
  rw [Char.isDigit, Bool.and_eq_true, decide_eq_true_eq, decide_eq_true_eq] at hdigit
  have hval : c.val.toNat ≤ 57 := hdigit.2
  exact Nat.lt_of_le_of_lt hval (by decide)

end Harness.Foundation.JsonData
