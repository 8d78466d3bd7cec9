import Harness.Foundation.JsonDecimal
import Mathlib.Tactic.IntervalCases

namespace Harness.Foundation

/-- A character of a string literal: as it stands, or a code unit by its escape. -/
inductive StringUnit
  | char (c : Char)
  | code (n : Nat)
  deriving DecidableEq, Repr

/-- How a character is written: a control character without a short escape by its code. -/
def StringUnit.ofChar (c : Char) : StringUnit :=
  if c.toNat < 32 ∧ c.toNat ≠ 8 ∧ c.toNat ≠ 9 ∧ c.toNat ≠ 10 ∧ c.toNat ≠ 12 ∧ c.toNat ≠ 13 then
    .code c.toNat
  else .char c

/-- What a JSON text spells: literals that nothing has read yet, and the fields of an object as they
come, keys repeated or not. -/
inductive JsonSyntax
  | null
  | bool (b : Bool)
  | number (negative : Bool) (literal : JsonNumber.Literal)
  | string (units : List StringUnit)
  | array (items : List JsonSyntax)
  | object (fields : List (List StringUnit × JsonSyntax))

namespace JsonSyntax

def hexDigit (n : Nat) : Char := Nat.digitChar n

def escapeUnit : StringUnit → List Char
  | .char c =>
    if c = '\x22' then ['\x5c', '\x22']
    else if c = '\x5c' then ['\x5c', '\x5c']
    else if c.toNat = 8 then ['\x5c', 'b']
    else if c.toNat = 9 then ['\x5c', 't']
    else if c.toNat = 10 then ['\x5c', 'n']
    else if c.toNat = 12 then ['\x5c', 'f']
    else if c.toNat = 13 then ['\x5c', 'r']
    else [c]
  | .code n =>
    ['\x5c', 'u', hexDigit (n / 4096), hexDigit (n / 256 % 16), hexDigit (n / 16 % 16),
      hexDigit (n % 16)]

def quote (units : List StringUnit) : List Char := '\x22' :: (units.flatMap escapeUnit ++ ['\x22'])

mutual

def print : JsonSyntax → List Char
  | .null => ['n', 'u', 'l', 'l']
  | .bool true => ['t', 'r', 'u', 'e']
  | .bool false => ['f', 'a', 'l', 's', 'e']
  | .number negative literal => literal.print negative
  | .string units => quote units
  | .array items => '[' :: (printItems items ++ [']'])
  | .object fields => '\x7b' :: (printFields fields ++ ['\x7d'])

def printItems : List JsonSyntax → List Char
  | [] => []
  | [item] => item.print
  | item :: items => item.print ++ ',' :: printItems items

def printFields : List (List StringUnit × JsonSyntax) → List Char
  | [] => []
  | [(key, value)] => quote key ++ ':' :: value.print
  | (key, value) :: fields => quote key ++ ':' :: (value.print ++ ',' :: printFields fields)

end

def isSpace (c : Char) : Bool := c = ' ' || c = '\t' || c = '\n' || c = '\r'

def skipSpace (input : List Char) : List Char := input.dropWhile isSpace

def hexValue (c : Char) : Option Nat :=
  if '0' ≤ c ∧ c ≤ '9' then some (c.toNat - 48)
  else if 'a' ≤ c ∧ c ≤ 'f' then some (c.toNat - 87)
  else if 'A' ≤ c ∧ c ≤ 'F' then some (c.toNat - 55)
  else none

def hexCode (a b c d : Char) : Option Nat := do
  let a ← hexValue a
  let b ← hexValue b
  let c ← hexValue c
  let d ← hexValue d
  return ((a * 16 + b) * 16 + c) * 16 + d

def simpleEscape (c : Char) : Option Char :=
  if c = '\x22' ∨ c = '\x5c' ∨ c = '/' then some c
  else if c = 'b' then some (Char.ofNat 8)
  else if c = 'f' then some (Char.ofNat 12)
  else if c = 'n' then some (Char.ofNat 10)
  else if c = 'r' then some (Char.ofNat 13)
  else if c = 't' then some (Char.ofNat 9)
  else none

/-- The units up to the closing quote, and what follows it. -/
def parseUnits : List Char → Option (List StringUnit × List Char)
  | [] => none
  | '\x22' :: rest => some ([], rest)
  | '\x5c' :: 'u' :: a :: b :: c :: d :: rest => do
    let code ← hexCode a b c d
    let (units, rest) ← parseUnits rest
    return (.code code :: units, rest)
  | '\x5c' :: c :: rest => do
    let c ← simpleEscape c
    let (units, rest) ← parseUnits rest
    return (.char c :: units, rest)
  | c :: rest =>
    if c.toNat < 32 then none
    else do
      let (units, rest) ← parseUnits rest
      return (.char c :: units, rest)

def parseKeyword (keyword : List Char) (value : JsonSyntax) (input : List Char) :
    Option (JsonSyntax × List Char) :=
  (input.dropPrefix? keyword).map fun rest => (value, rest)

def parseNumber (input : List Char) : Option (JsonSyntax × List Char) :=
  (JsonNumber.parseSigned input).map fun (signed, rest) => (.number signed.1 signed.2, rest)

mutual

def parseValue : Nat → List Char → Option (JsonSyntax × List Char)
  | 0, _ => none
  | fuel + 1, input =>
    match skipSpace input with
    | 'n' :: rest => parseKeyword ['u', 'l', 'l'] .null rest
    | 't' :: rest => parseKeyword ['r', 'u', 'e'] (.bool true) rest
    | 'f' :: rest => parseKeyword ['a', 'l', 's', 'e'] (.bool false) rest
    | '\x22' :: rest => (parseUnits rest).map fun (units, rest) => (.string units, rest)
    | '[' :: rest =>
      match skipSpace rest with
      | ']' :: rest => some (.array [], rest)
      | rest => (parseItems fuel rest).map fun (items, rest) => (.array items, rest)
    | '\x7b' :: rest =>
      match skipSpace rest with
      | '\x7d' :: rest => some (.object [], rest)
      | rest => (parseFields fuel rest).map fun (fields, rest) => (.object fields, rest)
    | input => parseNumber input

/-- At least one item, up to the closing bracket. -/
def parseItems : Nat → List Char → Option (List JsonSyntax × List Char)
  | 0, _ => none
  | fuel + 1, input => do
    let (item, rest) ← parseValue fuel input
    match skipSpace rest with
    | ',' :: rest => do
      let (items, rest) ← parseItems fuel rest
      return (item :: items, rest)
    | ']' :: rest => return ([item], rest)
    | _ => none

def parseFields : Nat → List Char → Option (List (List StringUnit × JsonSyntax) × List Char)
  | 0, _ => none
  | fuel + 1, input =>
    match skipSpace input with
    | '\x22' :: rest => do
      let (key, rest) ← parseUnits rest
      match skipSpace rest with
      | ':' :: rest => do
        let (value, rest) ← parseValue fuel rest
        match skipSpace rest with
        | ',' :: rest => do
          let (fields, rest) ← parseFields fuel rest
          return ((key, value) :: fields, rest)
        | '\x7d' :: rest => return ([(key, value)], rest)
        | _ => none
      | _ => none
    | _ => none

end

/-- A text is nested no deeper than it is long. -/
def parse (text : String) : Option JsonSyntax :=
  match parseValue (text.toList.length + 1) text.toList with
  | some (value, rest) => if skipSpace rest = [] then some value else none
  | none => none

end JsonSyntax

/-- A unit that has an escape or stands for itself. -/
def StringUnit.Lexical : StringUnit → Prop
  | .char c => 32 ≤ c.toNat ∨ c.toNat = 8 ∨ c.toNat = 9 ∨ c.toNat = 10 ∨ c.toNat = 12 ∨ c.toNat = 13
  | .code n => n < 65536

theorem StringUnit.ofChar_lexical (c : Char) : (StringUnit.ofChar c).Lexical := by
  unfold StringUnit.ofChar
  split
  · rename_i h
    exact Nat.lt_trans h.1 (by decide)
  · rename_i h
    change 32 ≤ c.toNat ∨ _
    omega

namespace JsonSyntax

mutual

def Lexical : JsonSyntax → Prop
  | .number _ literal => literal.Lexical
  | .string units => ∀ unit ∈ units, unit.Lexical
  | .array items => LexicalItems items
  | .object fields => LexicalFields fields
  | _ => True

def LexicalItems : List JsonSyntax → Prop
  | [] => True
  | item :: items => item.Lexical ∧ LexicalItems items

def LexicalFields : List (List StringUnit × JsonSyntax) → Prop
  | [] => True
  | (key, value) :: fields => (∀ unit ∈ key, unit.Lexical) ∧ value.Lexical ∧ LexicalFields fields

end

section Strings

theorem hexValue_hexDigit {n : Nat} (h : n < 16) : hexValue (hexDigit n) = some n := by
  interval_cases n <;> rfl

theorem hexCode_digits {n : Nat} (h : n < 65536) :
    hexCode (hexDigit (n / 4096)) (hexDigit (n / 256 % 16)) (hexDigit (n / 16 % 16))
      (hexDigit (n % 16)) = some n := by
  simp only [hexCode, hexValue_hexDigit (show n / 4096 < 16 by omega),
    hexValue_hexDigit (show n / 256 % 16 < 16 by omega),
    hexValue_hexDigit (show n / 16 % 16 < 16 by omega),
    hexValue_hexDigit (show n % 16 < 16 by omega), Option.bind_eq_bind, Option.bind_some,
    Option.pure_def, Option.some.injEq]
  omega

theorem parseUnits_plain {c : Char} (hquote : c ≠ '\x22') (hescape : c ≠ '\x5c')
    (hcontrol : ¬c.toNat < 32) (rest : List Char) :
    parseUnits (c :: rest) = (parseUnits rest).map fun p => (.char c :: p.1, p.2) := by
  rw [parseUnits.eq_def]
  split
  · simp_all
  · simp_all
  · simp_all
  · simp_all
  · rename_i heq
    obtain ⟨rfl, rfl⟩ := List.cons.inj heq
    rw [if_neg hcontrol]
    cases parseUnits rest <;> rfl

theorem parseUnits_simple {e c : Char} (he : e ≠ 'u') (hc : simpleEscape e = some c)
    (rest : List Char) :
    parseUnits ('\x5c' :: e :: rest) = (parseUnits rest).map fun p => (.char c :: p.1, p.2) := by
  rw [parseUnits.eq_def]
  split
  · simp_all
  · simp_all
  · simp_all
  · rename_i heq
    obtain ⟨rfl, rfl⟩ := List.cons.inj (List.cons.inj heq).2
    rw [hc]
    cases parseUnits rest <;> rfl
  · rename_i hno heq
    obtain ⟨rfl, rfl⟩ := List.cons.inj heq
    exact absurd rfl (hno e rest rfl)

theorem parseUnits_code {a b c d : Char} {n : Nat} (h : hexCode a b c d = some n)
    (rest : List Char) : parseUnits ('\x5c' :: 'u' :: a :: b :: c :: d :: rest) =
      (parseUnits rest).map fun p => (.code n :: p.1, p.2) := by
  rw [parseUnits, h]
  cases parseUnits rest <;> rfl

theorem eq_ofNat {c : Char} {n : Nat} (h : c.toNat = n) : c = Char.ofNat n := by
  rw [← h, Char.ofNat_toNat]

theorem escapeUnit_char {c : Char} (h : (StringUnit.char c).Lexical) :
    (∃ e, e ≠ 'u' ∧ 32 ≤ e.toNat ∧ simpleEscape e = some c ∧ escapeUnit (.char c) = ['\x5c', e]) ∨
      c ≠ '\x22' ∧ c ≠ '\x5c' ∧ 32 ≤ c.toNat ∧ escapeUnit (.char c) = [c] := by
  by_cases hquote : c = '\x22'
  · subst hquote
    exact .inl ⟨'\x22', by decide, by decide, rfl, rfl⟩
  by_cases hescape : c = '\x5c'
  · subst hescape
    exact .inl ⟨'\x5c', by decide, by decide, rfl, rfl⟩
  rcases h with h | h | h | h | h | h
  · refine .inr ⟨hquote, hescape, h, ?_⟩
    rw [escapeUnit, if_neg hquote, if_neg hescape, if_neg (by omega), if_neg (by omega),
      if_neg (by omega), if_neg (by omega), if_neg (by omega)]
  · obtain rfl := eq_ofNat h
    exact .inl ⟨'b', by decide, by decide, rfl, rfl⟩
  · obtain rfl := eq_ofNat h
    exact .inl ⟨'t', by decide, by decide, rfl, rfl⟩
  · obtain rfl := eq_ofNat h
    exact .inl ⟨'n', by decide, by decide, rfl, rfl⟩
  · obtain rfl := eq_ofNat h
    exact .inl ⟨'f', by decide, by decide, rfl, rfl⟩
  · obtain rfl := eq_ofNat h
    exact .inl ⟨'r', by decide, by decide, rfl, rfl⟩

theorem parseUnits_escapeUnit {unit : StringUnit} (hunit : unit.Lexical) (rest : List Char) :
    parseUnits (escapeUnit unit ++ rest) =
      (parseUnits rest).map fun p => (unit :: p.1, p.2) := by
  cases unit with
  | code n => exact parseUnits_code (hexCode_digits hunit) rest
  | char c =>
    rcases escapeUnit_char hunit with ⟨e, he, -, hc, hunit⟩ | ⟨hquote, hescape, hcontrol, hunit⟩
    · rw [hunit]
      exact parseUnits_simple he hc rest
    · rw [hunit]
      exact parseUnits_plain hquote hescape (Nat.not_lt.mpr hcontrol) rest

theorem parseUnits_quoted {units : List StringUnit} (h : ∀ unit ∈ units, unit.Lexical)
    (rest : List Char) :
    parseUnits (units.flatMap escapeUnit ++ '\x22' :: rest) = some (units, rest) := by
  induction units with
  | nil => rfl
  | cons unit units ih =>
    rw [List.forall_mem_cons] at h
    rw [List.flatMap_cons, List.append_assoc, parseUnits_escapeUnit h.1, ih h.2]
    rfl

end Strings

section Values

theorem skipSpace_cons {c : Char} (h : isSpace c = false) (rest : List Char) :
    skipSpace (c :: rest) = c :: rest := by
  rw [skipSpace, List.dropWhile_cons_of_neg (by simp [h])]

theorem parseKeyword_append (keyword : List Char) (value : JsonSyntax) (rest : List Char) :
    parseKeyword keyword value (keyword ++ rest) = some (value, rest) := by
  have hdrop : (keyword ++ rest).dropPrefix? keyword = some rest :=
    List.dropPrefix?_eq_some_iff.mpr ⟨keyword, rfl, by simp⟩
  rw [parseKeyword, hdrop]
  rfl

/-- What stands behind a value inside a text: the end, a comma or a closing bracket. -/
def Follow (rest : List Char) : Prop := ∀ c ∈ rest.head?, c = ',' ∨ c = ']' ∨ c = '\x7d'

theorem Follow.stops {rest : List Char} (h : Follow rest) : JsonNumber.Stops rest := by
  intro c hc
  rcases h c hc with rfl | rfl | rfl <;> decide

theorem not_isSpace_of_number {c : Char} (h : c = '-' ∨ c.isDigit = true) : isSpace c = false := by
  rcases h with rfl | hdigit
  · decide
  · simp only [isSpace, Bool.or_eq_false_iff, decide_eq_false_iff_not]
    refine ⟨⟨⟨?_, ?_⟩, ?_⟩, ?_⟩ <;> (rintro rfl; simp at hdigit)

/-- A value starts at its first character. -/
theorem print_head {value : JsonSyntax} (h : value.Lexical) :
    ∃ c tail, value.print = c :: tail ∧ isSpace c = false ∧ c ≠ ']' ∧ c ≠ '\x7d' := by
  cases value with
  | null => exact ⟨_, _, rfl, rfl, by decide, by decide⟩
  | bool b => cases b <;> exact ⟨_, _, rfl, rfl, by decide, by decide⟩
  | number negative literal =>
    obtain ⟨c, tail, hprint, hc⟩ := JsonNumber.Literal.Lexical.print_head h negative
    refine ⟨c, tail, hprint, not_isSpace_of_number hc, ?_⟩
    rcases hc with rfl | hdigit
    · decide
    · constructor
      · rintro rfl
        simp at hdigit
      · rintro rfl
        simp at hdigit
  | string units => exact ⟨_, _, rfl, rfl, by decide, by decide⟩
  | array items => exact ⟨_, _, rfl, rfl, by decide, by decide⟩
  | object fields => exact ⟨_, _, rfl, rfl, by decide, by decide⟩

theorem printItems_cons (item next : JsonSyntax) (items : List JsonSyntax) :
    printItems (item :: next :: items) = item.print ++ ',' :: printItems (next :: items) := by
  rw [printItems]
  simp

theorem printFields_cons (key : List StringUnit) (value : JsonSyntax)
    (next : List StringUnit × JsonSyntax) (fields : List (List StringUnit × JsonSyntax)) :
    printFields ((key, value) :: next :: fields) =
      quote key ++ ':' :: (value.print ++ ',' :: printFields (next :: fields)) := by
  rw [printFields]
  simp

theorem printItems_head {item : JsonSyntax} (h : item.Lexical) (items : List JsonSyntax) :
    ∃ c tail, printItems (item :: items) = c :: tail ∧ isSpace c = false ∧ c ≠ ']' := by
  obtain ⟨c, tail, hprint, hspace, hclose, _⟩ := print_head h
  cases items with
  | nil => exact ⟨c, tail, by rw [printItems, hprint], hspace, hclose⟩
  | cons next items => exact ⟨c, _, by simp [printItems, hprint]; rfl, hspace, hclose⟩

theorem printFields_head (field : List StringUnit × JsonSyntax)
    (fields : List (List StringUnit × JsonSyntax)) :
    ∃ tail, printFields (field :: fields) = '\x22' :: tail := by
  obtain ⟨key, value⟩ := field
  cases fields with
  | nil => exact ⟨_, rfl⟩
  | cons next fields => exact ⟨_, rfl⟩

theorem parseValue_number (fuel : Nat) {c : Char} (hc : c = '-' ∨ c.isDigit = true)
    (rest : List Char) : parseValue (fuel + 1) (c :: rest) = parseNumber (c :: rest) := by
  rw [parseValue, skipSpace_cons (not_isSpace_of_number hc)]
  split
  all_goals
    first
    | rfl
    | (rename_i heq
       obtain ⟨rfl, _⟩ := List.cons.inj heq
       simp at hc)

mutual

theorem parseValue_print : (value : JsonSyntax) → value.Lexical → ∀ {fuel : Nat}
    {rest : List Char}, value.print.length ≤ fuel → Follow rest →
    parseValue fuel (value.print ++ rest) = some (value, rest)
  | value, h, 0, _, hfuel, _ => by
    obtain ⟨c, tail, hprint, _⟩ := print_head h
    simp [hprint] at hfuel
  | .null, _, fuel + 1, rest, _, _ => parseKeyword_append ['u', 'l', 'l'] .null rest
  | .bool true, _, fuel + 1, rest, _, _ => parseKeyword_append ['r', 'u', 'e'] (.bool true) rest
  | .bool false, _, fuel + 1, rest, _, _ =>
    parseKeyword_append ['a', 'l', 's', 'e'] (.bool false) rest
  | .number negative literal, h, fuel + 1, rest, _, hrest => by
    have hparse := JsonNumber.Literal.Lexical.parseSigned h negative hrest.stops
    obtain ⟨c, tail, hprint, hc⟩ := JsonNumber.Literal.Lexical.print_head h negative
    rw [hprint] at hparse
    rw [print, hprint, List.cons_append, parseValue_number fuel hc, parseNumber,
      ← List.cons_append, hparse]
    rfl
  | .string units, h, fuel + 1, rest, _, _ => by
    have hparse := parseUnits_quoted h rest
    rw [print, quote, List.cons_append, List.append_assoc, parseValue, skipSpace_cons (by decide)]
    simp [hparse]
  | .array [], _, fuel + 1, rest, _, _ => rfl
  | .array (item :: items), h, fuel + 1, rest, hfuel, _ => by
    have hparse := @parseItems_print (item :: items) (by simp) h fuel rest
      (by simp only [print, List.length_cons, List.length_append, List.length_nil] at hfuel; omega)
    obtain ⟨c, tail, hprint, hspace, hclose⟩ := printItems_head h.1 items
    rw [print, List.cons_append, List.append_assoc, parseValue, skipSpace_cons (by decide)]
    simp only [List.singleton_append]
    rw [hprint, List.cons_append] at hparse ⊢
    rw [skipSpace_cons hspace]
    split
    · rename_i heq
      exact absurd (List.cons.inj heq).1 hclose
    · rw [hparse]
      rfl
  | .object [], _, fuel + 1, rest, _, _ => rfl
  | .object (field :: fields), h, fuel + 1, rest, hfuel, _ => by
    have hparse := @parseFields_print (field :: fields) (by simp) h fuel rest
      (by simp only [print, List.length_cons, List.length_append, List.length_nil] at hfuel; omega)
    obtain ⟨tail, hprint⟩ := printFields_head field fields
    rw [print, List.cons_append, List.append_assoc, parseValue, skipSpace_cons (by decide)]
    simp only [List.singleton_append]
    rw [hprint, List.cons_append] at hparse ⊢
    rw [skipSpace_cons (by decide)]
    split
    · rename_i heq
      exact absurd (List.cons.inj heq).1 (by decide)
    · rw [hparse, Option.map_some]

theorem parseItems_print : (items : List JsonSyntax) → items ≠ [] → LexicalItems items →
    ∀ {fuel : Nat} {rest : List Char}, (printItems items).length + 1 ≤ fuel →
    parseItems fuel (printItems items ++ ']' :: rest) = some (items, rest)
  | [], hne, _, _, _, _ => absurd rfl hne
  | _ :: _, _, _, 0, _, hfuel => absurd hfuel (by omega)
  | [item], _, h, fuel + 1, rest, hfuel => by
    have hparse := @parseValue_print item h.1 fuel (']' :: rest)
      (by rw [printItems] at hfuel; omega) (by simp [Follow])
    rw [printItems, parseItems, hparse]
    simp [skipSpace_cons (show isSpace ']' = false by decide)]
  | item :: next :: items, _, h, fuel + 1, rest, hfuel => by
    rw [printItems_cons] at hfuel
    simp only [List.length_append, List.length_cons] at hfuel
    have hparse := @parseValue_print item h.1 fuel
      (',' :: (printItems (next :: items) ++ ']' :: rest)) (by omega) (by simp [Follow])
    have hrest := @parseItems_print (next :: items) (by simp) h.2 fuel rest (by omega)
    rw [printItems_cons, List.append_assoc, List.cons_append, parseItems, hparse]
    simp only [Option.bind_eq_bind, Option.bind_some,
      skipSpace_cons (show isSpace ',' = false by decide), hrest]
    rfl

theorem parseFields_print : (fields : List (List StringUnit × JsonSyntax)) → fields ≠ [] →
    LexicalFields fields → ∀ {fuel : Nat} {rest : List Char},
    (printFields fields).length + 1 ≤ fuel →
    parseFields fuel (printFields fields ++ '\x7d' :: rest) = some (fields, rest)
  | [], hne, _, _, _, _ => absurd rfl hne
  | _ :: _, _, _, 0, _, hfuel => absurd hfuel (by omega)
  | [(key, value)], _, h, fuel + 1, rest, hfuel => by
    rw [printFields] at hfuel
    simp only [List.length_append, List.length_cons] at hfuel
    have hparse := @parseValue_print value h.2.1 fuel ('\x7d' :: rest) (by omega) (by simp [Follow])
    have hkey := parseUnits_quoted h.1 (':' :: (value.print ++ '\x7d' :: rest))
    rw [printFields, quote, List.append_assoc, List.cons_append, List.append_assoc, parseFields,
      skipSpace_cons (by decide)]
    simp only [List.nil_append, List.cons_append, hkey, Option.bind_eq_bind, Option.bind_some,
      skipSpace_cons (show isSpace ':' = false by decide), hparse,
      skipSpace_cons (show isSpace '\x7d' = false by decide)]
    rfl
  | (key, value) :: next :: fields, _, h, fuel + 1, rest, hfuel => by
    rw [printFields_cons] at hfuel
    simp only [List.length_append, List.length_cons] at hfuel
    have hparse := @parseValue_print value h.2.1 fuel
      (',' :: (printFields (next :: fields) ++ '\x7d' :: rest)) (by omega) (by simp [Follow])
    have hrest := @parseFields_print (next :: fields) (by simp) h.2.2 fuel rest (by omega)
    have hkey := parseUnits_quoted h.1
      (':' :: (value.print ++ ',' :: (printFields (next :: fields) ++ '\x7d' :: rest)))
    rw [printFields_cons, quote, List.append_assoc, List.cons_append, List.append_assoc,
      parseFields, skipSpace_cons (by decide)]
    simp only [List.nil_append, List.cons_append, List.append_assoc, hkey,
      Option.bind_eq_bind, Option.bind_some, skipSpace_cons (show isSpace ':' = false by decide),
      hparse, skipSpace_cons (show isSpace ',' = false by decide), hrest]
    rfl

end

/-- What is written as JSON text is read back. -/
theorem parse_print {value : JsonSyntax} (h : value.Lexical) :
    parse (String.ofList value.print) = some value := by
  have hparse := @parseValue_print value h (value.print.length + 1) [] (by omega) (by simp [Follow])
  rw [List.append_nil] at hparse
  simp [parse, hparse, skipSpace]

theorem hexDigit_printable {n : Nat} (h : n < 16) : 32 ≤ (hexDigit n).toNat := by
  interval_cases n <;> decide

theorem escapeUnit_printable {unit : StringUnit} (hunit : unit.Lexical) :
    ∀ d ∈ escapeUnit unit, 32 ≤ d.toNat := by
  cases unit with
  | code n =>
    have hn : n < 65536 := hunit
    simp only [escapeUnit, List.forall_mem_cons]
    exact ⟨by decide, by decide, hexDigit_printable (by omega), hexDigit_printable (by omega),
      hexDigit_printable (by omega), hexDigit_printable (by omega), List.forall_mem_nil _⟩
  | char c =>
    rcases escapeUnit_char hunit with ⟨e, -, he, -, hunit⟩ | ⟨-, -, hcontrol, hunit⟩
    · rw [hunit, List.forall_mem_cons, List.forall_mem_singleton]
      exact ⟨by decide, he⟩
    · rw [hunit, List.forall_mem_singleton]
      exact hcontrol

theorem quote_printable {units : List StringUnit} (h : ∀ unit ∈ units, unit.Lexical) :
    ∀ c ∈ quote units, 32 ≤ c.toNat := by
  intro c hc
  rcases List.mem_cons.mp hc with rfl | hrest
  · decide
  · rcases List.mem_append.mp hrest with hbody | hclose
    · obtain ⟨unit, hunit, hescape⟩ := List.mem_flatMap.mp hbody
      exact escapeUnit_printable (h unit hunit) c hescape
    · rw [List.mem_singleton.mp hclose]
      decide

mutual

/-- No control character stands in a text. -/
theorem print_printable : (value : JsonSyntax) → value.Lexical → ∀ c ∈ value.print, 32 ≤ c.toNat
  | .null, _ => by simp [print]
  | .bool true, _ => by simp [print]
  | .bool false, _ => by simp [print]
  | .number negative _, h => JsonNumber.Literal.Lexical.print_printable h negative
  | .string _, h => quote_printable h
  | .array items, h => by
    have hitems := printItems_printable items h
    simp only [print, List.mem_cons, List.mem_append, List.not_mem_nil, or_false]
    rintro c (rfl | hitem | rfl)
    · decide
    · exact hitems c hitem
    · decide
  | .object fields, h => by
    have hfields := printFields_printable fields h
    simp only [print, List.mem_cons, List.mem_append, List.not_mem_nil, or_false]
    rintro c (rfl | hfield | rfl)
    · decide
    · exact hfields c hfield
    · decide

theorem printItems_printable : (items : List JsonSyntax) → LexicalItems items →
    ∀ c ∈ printItems items, 32 ≤ c.toNat
  | [], _ => by simp [printItems]
  | [item], h => by
    rw [printItems]
    exact print_printable item h.1
  | item :: next :: items, h => by
    have hitem := print_printable item h.1
    have hitems := printItems_printable (next :: items) h.2
    simp only [printItems_cons, List.mem_append, List.mem_cons]
    rintro c (hfirst | rfl | hrest)
    · exact hitem c hfirst
    · decide
    · exact hitems c hrest

theorem printFields_printable : (fields : List (List StringUnit × JsonSyntax)) →
    LexicalFields fields → ∀ c ∈ printFields fields, 32 ≤ c.toNat
  | [], _ => by simp [printFields]
  | [(key, value)], h => by
    have hvalue := print_printable value h.2.1
    simp only [printFields, List.mem_append, List.mem_cons]
    rintro c (hkey | rfl | hrest)
    · exact quote_printable h.1 c hkey
    · decide
    · exact hvalue c hrest
  | (key, value) :: next :: fields, h => by
    have hvalue := print_printable value h.2.1
    have hfields := printFields_printable (next :: fields) h.2.2
    simp only [printFields_cons, List.mem_append, List.mem_cons]
    rintro c (hkey | rfl | hfirst | rfl | hrest)
    · exact quote_printable h.1 c hkey
    · decide
    · exact hvalue c hfirst
    · decide
    · exact hfields c hrest

end

/-- A text starts with an ASCII character. -/
theorem print_head_ascii {value : JsonSyntax} (h : value.Lexical) :
    ∀ c ∈ value.print.head?, c.toNat < 128 := by
  cases value with
  | null => simp [print]
  | bool b => cases b <;> simp [print]
  | number negative literal =>
    obtain ⟨c, tail, hprint, hc⟩ := JsonNumber.Literal.Lexical.print_head h negative
    rw [print, hprint]
    rintro _ ⟨⟩
    rcases hc with rfl | hdigit
    · decide
    · simp only [Char.isDigit, Bool.and_eq_true, decide_eq_true_eq] at hdigit
      exact Nat.lt_of_le_of_lt hdigit.2 (by decide)
  | string units => simp [print, quote]
  | array items => simp [print]
  | object fields => simp [print]

end Values

end JsonSyntax

end Harness.Foundation
