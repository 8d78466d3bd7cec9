import Harness.Foundation.Utf16
import Mathlib.Tactic.Common

namespace Harness.Foundation.Utf16

def isSurrogate (unit : UInt16) : Bool := isHigh unit || isLow unit

def unitChar (unit : UInt16) : Char :=
  if isSurrogate unit then Char.ofNat 0xFFFD else Char.ofNat unit.toNat

def pairChar (high low : UInt16) : Char :=
  Char.ofNat (0x10000 + (high.toNat - 0xD800) * 1024 + (low.toNat - 0xDC00))

def chars : Units → List Char
  | [] => []
  | [unit] => [unitChar unit]
  | unit :: next :: rest =>
    if isHigh unit && isLow next then pairChar unit next :: chars rest
    else unitChar unit :: chars (next :: rest)

def toText (text : Units) : String := String.ofList (chars text)

def isWellFormed : Units → Bool
  | [] => true
  | [unit] => !isSurrogate unit
  | unit :: next :: rest =>
    if isHigh unit && isLow next then isWellFormed rest
    else !isSurrogate unit && isWellFormed (next :: rest)

def toWellFormed (text : Units) : Units := (chars text).flatMap encodeChar

theorem isHigh_iff {unit : UInt16} : isHigh unit = true ↔ 0xD800 ≤ unit.toNat ∧ unit.toNat ≤ 0xDBFF := by
  simp [isHigh, UInt16.le_iff_toNat_le]

theorem isLow_iff {unit : UInt16} : isLow unit = true ↔ 0xDC00 ≤ unit.toNat ∧ unit.toNat ≤ 0xDFFF := by
  simp [isLow, UInt16.le_iff_toNat_le]

theorem toNat_ofNat {n : Nat} (h : n < 0x10000) : (UInt16.ofNat n).toNat = n := by
  rw [UInt16.toNat_ofNat']
  exact Nat.mod_eq_of_lt h

theorem toNat_scalar (c : Char) : c.toNat < 0xD800 ∨ 0xDFFF < c.toNat ∧ c.toNat < 0x110000 := c.valid

theorem toNat_char {n : Nat} (h : n < 0xD800 ∨ 0xDFFF < n ∧ n < 0x110000) :
    (Char.ofNat n).toNat = n := by
  have hvalid : n.isValidChar := h
  rw [Char.ofNat, dif_pos hvalid]
  rfl

theorem isSurrogate_basic {c : Char} (h : c.toNat < 0x10000) :
    isSurrogate (UInt16.ofNat c.toNat) = false := by
  have hunit := toNat_ofNat h
  have hscalar := toNat_scalar c
  rw [← Bool.not_eq_true, isSurrogate, Bool.or_eq_true, isHigh_iff, isLow_iff, hunit]
  omega

theorem unitChar_basic {c : Char} (h : c.toNat < 0x10000) : unitChar (UInt16.ofNat c.toNat) = c := by
  rw [unitChar, isSurrogate_basic h, toNat_ofNat h]
  exact Char.ofNat_toNat c

theorem encodeChar_basic {c : Char} (h : c.toNat < 0x10000) :
    encodeChar c = [UInt16.ofNat c.toNat] := if_pos h

theorem encodeChar_pair {c : Char} (h : ¬c.toNat < 0x10000) :
    ∃ high low, encodeChar c = [high, low] ∧ isHigh high = true ∧ isLow low = true ∧
      pairChar high low = c := by
  have hscalar := toNat_scalar c
  refine ⟨_, _, if_neg h, ?_, ?_, ?_⟩
  · rw [isHigh_iff, toNat_ofNat (by omega)]
    omega
  · rw [isLow_iff, toNat_ofNat (by omega)]
    omega
  · rw [pairChar, toNat_ofNat (by omega), toNat_ofNat (by omega)]
    have hsum : 0x10000 + (0xD800 + (c.toNat - 0x10000) / 1024 - 0xD800) * 1024 +
        (0xDC00 + (c.toNat - 0x10000) % 1024 - 0xDC00) = c.toNat := by
      omega
    rw [hsum]
    exact Char.ofNat_toNat c

theorem chars_unit {unit : UInt16} (h : isSurrogate unit = false) (rest : Units) :
    chars (unit :: rest) = unitChar unit :: chars rest := by
  cases rest with
  | nil => rfl
  | cons next rest =>
    rw [isSurrogate, Bool.or_eq_false_iff] at h
    rw [chars, h.1, Bool.false_and, if_neg Bool.false_ne_true]

theorem chars_pair {high low : UInt16} (hhigh : isHigh high = true) (hlow : isLow low = true)
    (rest : Units) : chars (high :: low :: rest) = pairChar high low :: chars rest := by
  rw [chars, hhigh, hlow, Bool.true_and, if_pos rfl]

theorem chars_encode (text : List Char) : chars (text.flatMap encodeChar) = text := by
  induction text with
  | nil => rfl
  | cons c text ih =>
    rw [List.flatMap_cons]
    by_cases h : c.toNat < 0x10000
    · rw [encodeChar_basic h, List.singleton_append, chars_unit (isSurrogate_basic h), ih,
        unitChar_basic h]
    · obtain ⟨high, low, hencode, hhigh, hlow, hpair⟩ := encodeChar_pair h
      rw [hencode, List.cons_append, List.singleton_append, chars_pair hhigh hlow, ih, hpair]

theorem isWellFormed_unit {unit : UInt16} (h : isSurrogate unit = false) (rest : Units) :
    isWellFormed (unit :: rest) = isWellFormed rest := by
  cases rest with
  | nil => exact Bool.not_eq_true' _ |>.mpr h
  | cons next rest =>
    have hhigh := (Bool.or_eq_false_iff.mp h).1
    rw [isWellFormed, hhigh, Bool.false_and, if_neg Bool.false_ne_true, h, Bool.not_false,
      Bool.true_and]

theorem isWellFormed_encode (text : String) : isWellFormed (encode text) = true := by
  rw [encode]
  induction text.toList with
  | nil => rfl
  | cons c text ih =>
    rw [List.flatMap_cons]
    by_cases h : c.toNat < 0x10000
    · rw [encodeChar_basic h, List.singleton_append, isWellFormed_unit (isSurrogate_basic h), ih]
    · obtain ⟨high, low, hencode, hhigh, hlow, -⟩ := encodeChar_pair h
      rw [hencode, List.cons_append, List.singleton_append, isWellFormed, hhigh, hlow, Bool.true_and,
        if_pos rfl, ih]

theorem chars_encode_text (text : String) : chars (encode text) = text.toList :=
  chars_encode text.toList

theorem toText_encode (text : String) : toText (encode text) = text := by
  rw [toText, encode, chars_encode, String.ofList_toList]

theorem encode_injective : Function.Injective encode := by
  intro a b h
  rw [← toText_encode a, h, toText_encode]

theorem encode_toText (text : Units) : encode (toText text) = toWellFormed text := by
  rw [encode, toText, String.toList_ofList, toWellFormed]

theorem scalar_of_not_surrogate {unit : UInt16} (h : isSurrogate unit = false) :
    unit.toNat < 0xD800 ∨ 0xDFFF < unit.toNat ∧ unit.toNat < 0x110000 := by
  have hless : unit.toNat < 0x10000 := unit.toNat_lt
  rw [← Bool.not_eq_true, isSurrogate, Bool.or_eq_true, isHigh_iff, isLow_iff] at h
  omega

theorem encode_unitChar {unit : UInt16} (h : isSurrogate unit = false) :
    encodeChar (unitChar unit) = [unit] := by
  have hless : unit.toNat < 0x10000 := unit.toNat_lt
  rw [← Bool.not_eq_true, isSurrogate, Bool.or_eq_true, isHigh_iff, isLow_iff] at h
  have hchar : (Char.ofNat unit.toNat).toNat = unit.toNat := toNat_char (by omega)
  rw [unitChar, isSurrogate, if_neg (by rw [Bool.or_eq_true, isHigh_iff, isLow_iff]; exact h),
    encodeChar, hchar, if_pos hless, UInt16.ofNat_toNat]

theorem encode_pairChar {high low : UInt16} (hhigh : isHigh high = true) (hlow : isLow low = true) :
    encodeChar (pairChar high low) = [high, low] := by
  rw [isHigh_iff] at hhigh
  rw [isLow_iff] at hlow
  have hchar := toNat_char (n := 0x10000 + (high.toNat - 0xD800) * 1024 + (low.toNat - 0xDC00))
    (by omega)
  rw [encodeChar, pairChar, hchar, if_neg (by omega)]
  have hleft : 0xD800 + (0x10000 + (high.toNat - 0xD800) * 1024 + (low.toNat - 0xDC00) - 0x10000) /
      1024 = high.toNat := by omega
  have hright : 0xDC00 + (0x10000 + (high.toNat - 0xD800) * 1024 + (low.toNat - 0xDC00) - 0x10000) %
      1024 = low.toNat := by omega
  rw [hleft, hright, UInt16.ofNat_toNat, UInt16.ofNat_toNat]

theorem toWellFormed_eq {text : Units} (h : isWellFormed text = true) : toWellFormed text = text := by
  rw [toWellFormed]
  induction text using chars.induct with
  | case1 => rfl
  | case2 unit =>
    rw [isWellFormed, Bool.not_eq_true'] at h
    rw [chars, List.flatMap_singleton, encode_unitChar h]
  | case3 unit next rest hpair ih =>
    rw [isWellFormed, if_pos hpair] at h
    rw [Bool.and_eq_true] at hpair
    rw [chars_pair hpair.1 hpair.2, List.flatMap_cons, ih h, encode_pairChar hpair.1 hpair.2]
    rfl
  | case4 unit next rest hpair ih =>
    rw [isWellFormed, if_neg hpair, Bool.and_eq_true, Bool.not_eq_true'] at h
    rw [chars_unit h.1, List.flatMap_cons, ih h.2, encode_unitChar h.1]
    rfl

theorem toText_eq_iff {a b : Units} : toText a = toText b ↔ toWellFormed a = toWellFormed b := by
  rw [← encode_toText, ← encode_toText]
  constructor
  · exact fun h => congrArg encode h
  · intro h
    have htext := congrArg toText h
    rwa [toText_encode, toText_encode] at htext

/-- The text of a string that has one. -/
def text? (units : Units) : Option String :=
  if isWellFormed units then some (toText units) else none

theorem text?_eq_some {units : Units} {text : String} : text? units = some text ↔ units = encode text := by
  unfold text?
  rw [Option.ite_none_right_eq_some, Option.some.injEq]
  constructor
  · rintro ⟨hwell, rfl⟩
    rw [encode_toText, toWellFormed_eq hwell]
  · rintro rfl
    exact ⟨isWellFormed_encode text, toText_encode text⟩

theorem byteLengthAfter_ascii {units : Units} (h : ∀ unit ∈ units, unit.toNat < 128)
    (afterHigh : Bool) : byteLengthAfter afterHigh units = units.length := by
  induction units generalizing afterHigh with
  | nil => rfl
  | cons unit units ih =>
    rw [List.forall_mem_cons] at h
    have hbyte : unitBytes afterHigh unit = 1 := if_pos (UInt16.lt_iff_toNat_lt.mpr h.1)
    rw [byteLengthAfter, hbyte, ih h.2, List.length_cons, Nat.add_comm]

theorem byteLength_ascii {units : Units} (h : ∀ unit ∈ units, unit.toNat < 128) :
    byteLength units = units.length :=
  byteLengthAfter_ascii h false

end Harness.Foundation.Utf16
