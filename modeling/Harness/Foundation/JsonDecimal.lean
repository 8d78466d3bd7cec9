import Harness.Foundation.Json
import Mathlib.Tactic.Ring
import Mathlib.Tactic.IntervalCases

namespace Harness.Foundation

namespace JsonNumber

def ofScaled : Int → Nat → JsonNumber
  | mantissa, 0 => .int mantissa
  | mantissa, scale + 1 =>
    if h : mantissa % 10 = 0 then ofScaled (mantissa / 10) scale
    else .frac mantissa (scale + 1) ⟨Nat.succ_pos scale, h⟩

def ofDecimal (mantissa exponent : Int) : JsonNumber :=
  if 0 ≤ exponent then .int (mantissa * 10 ^ exponent.toNat)
  else ofScaled mantissa (-exponent).toNat

def isNegative : JsonNumber → Bool
  | .int n => decide (n < 0)
  | .frac mantissa _ _ => decide (mantissa < 0)

def neg : JsonNumber → JsonNumber
  | .int n => .int (-n)
  | .frac mantissa scale h => .frac (-mantissa) scale ⟨h.1, by omega⟩

/-- The digits before and after the point, and the exponent, of an unsigned literal. -/
structure Literal where
  whole : List Char
  fraction : List Char
  exponent : Option Int
  deriving DecidableEq, Repr

namespace Literal

def text (literal : Literal) : List Char :=
  literal.whole ++ (if literal.fraction = [] then [] else '.' :: literal.fraction) ++
    match literal.exponent with
    | none => []
    | some e => 'e' :: (if 0 ≤ e then '+' else '-') :: Nat.toDigits 10 e.natAbs

def mantissa (literal : Literal) : Nat :=
  Nat.ofDigitChars 10 (literal.whole ++ literal.fraction) 0

def value (literal : Literal) : JsonNumber :=
  ofDecimal literal.mantissa (literal.exponent.getD 0 - literal.fraction.length)

end Literal

def dropTrailingZeros : List Char → List Char
  | [] => []
  | c :: cs =>
    if dropTrailingZeros cs = [] ∧ c = '0' then [] else c :: dropTrailingZeros cs

def scientific (significand : List Char) (point : Int) : Literal :=
  { whole := significand.take 1, fraction := significand.drop 1, exponent := some (point - 1) }

/-- The literal of the magnitude: `point` is the place of the decimal point in the significand. -/
def literal : JsonNumber → Literal
  | .int n =>
    let digits := Nat.toDigits 10 n.natAbs
    if digits.length ≤ 21 then { whole := digits, fraction := [], exponent := none }
    else scientific (dropTrailingZeros digits) digits.length
  | .frac mantissa scale _ =>
    let digits := Nat.toDigits 10 mantissa.natAbs
    let point : Int := digits.length - scale
    if 0 < point ∧ point ≤ 21 then
      { whole := digits.take point.toNat, fraction := digits.drop point.toNat, exponent := none }
    else if -6 < point ∧ point ≤ 0 then
      { whole := ['0'], fraction := List.replicate (-point).toNat '0' ++ digits, exponent := none }
    else scientific digits point

def Literal.print (literal : Literal) (negative : Bool) : List Char :=
  (if negative then ['-'] else []) ++ literal.text

/-- The number that a literal spells behind its sign. -/
def Literal.signed (literal : Literal) (negative : Bool) : JsonNumber :=
  if negative then literal.value.neg else literal.value

def print (n : JsonNumber) : List Char := n.literal.print n.isNegative

def parseFraction : List Char → Option (List Char × List Char)
  | '.' :: rest =>
    if rest.takeWhile Char.isDigit = [] then none
    else some (rest.takeWhile Char.isDigit, rest.dropWhile Char.isDigit)
  | input => some ([], input)

def parseExponentDigits (negative : Bool) (input : List Char) : Option (Int × List Char) :=
  if input.takeWhile Char.isDigit = [] then none
  else
    let magnitude : Int := Nat.ofDigitChars 10 (input.takeWhile Char.isDigit) 0
    some (if negative then -magnitude else magnitude, input.dropWhile Char.isDigit)

def parseSignedExponent : List Char → Option (Int × List Char)
  | '+' :: rest => parseExponentDigits false rest
  | '-' :: rest => parseExponentDigits true rest
  | input => parseExponentDigits false input

def parseExponent : List Char → Option (Option Int × List Char)
  | 'e' :: rest => (parseSignedExponent rest).map fun (e, rest) => (some e, rest)
  | 'E' :: rest => (parseSignedExponent rest).map fun (e, rest) => (some e, rest)
  | input => some (none, input)

def parseLiteral (input : List Char) : Option (Literal × List Char) := do
  let whole := input.takeWhile Char.isDigit
  let (fraction, rest) ← parseFraction (input.dropWhile Char.isDigit)
  let (exponent, rest) ← parseExponent rest
  if whole = [] ∨ (whole.head? = some '0' ∧ whole ≠ ['0']) then none
  else some ({ whole, fraction, exponent }, rest)

def parseSigned : List Char → Option ((Bool × Literal) × List Char)
  | '-' :: rest => (parseLiteral rest).map fun (literal, rest) => ((true, literal), rest)
  | input => (parseLiteral input).map fun (literal, rest) => ((false, literal), rest)

def Stops (rest : List Char) : Prop :=
  ∀ c ∈ rest.head?, c.isDigit = false ∧ c ≠ '.' ∧ c ≠ 'e' ∧ c ≠ 'E'

def NoDigit (rest : List Char) : Prop := ∀ c ∈ rest.head?, c.isDigit = false

section Scan

variable {digits rest : List Char}

theorem Stops.noDigit (h : Stops rest) : NoDigit rest := fun c hc => (h c hc).1

theorem takeWhile_digits (hdigits : ∀ c ∈ digits, c.isDigit = true) (hrest : NoDigit rest) :
    (digits ++ rest).takeWhile Char.isDigit = digits ∧
      (digits ++ rest).dropWhile Char.isDigit = rest := by
  rw [List.takeWhile_append_of_pos hdigits, List.dropWhile_append_of_pos hdigits]
  cases rest with
  | nil => simp
  | cons c rest => simp [hrest c rfl]

theorem parseFraction_none (hrest : ∀ c ∈ rest.head?, c ≠ '.') :
    parseFraction rest = some ([], rest) := by
  cases rest with
  | nil => rfl
  | cons c rest =>
    unfold parseFraction
    split
    · rename_i heq
      obtain ⟨rfl, _⟩ := List.cons.inj heq
      exact absurd rfl (hrest '.' rfl)
    · rfl

theorem parseFraction_some (hne : digits ≠ []) (hdigits : ∀ c ∈ digits, c.isDigit = true)
    (hrest : NoDigit rest) : parseFraction ('.' :: (digits ++ rest)) = some (digits, rest) := by
  obtain ⟨htake, hdrop⟩ := takeWhile_digits hdigits hrest
  rw [parseFraction, htake, hdrop, if_neg hne]

theorem parseExponent_none (hrest : ∀ c ∈ rest.head?, c ≠ 'e' ∧ c ≠ 'E') :
    parseExponent rest = some (none, rest) := by
  cases rest with
  | nil => rfl
  | cons c rest =>
    unfold parseExponent
    split
    · rename_i heq
      obtain ⟨rfl, _⟩ := List.cons.inj heq
      exact absurd rfl (hrest 'e' rfl).1
    · rename_i heq
      obtain ⟨rfl, _⟩ := List.cons.inj heq
      exact absurd rfl (hrest 'E' rfl).2
    · rfl

theorem isDigit_toDigits (n : Nat) : ∀ c ∈ Nat.toDigits 10 n, c.isDigit = true :=
  fun _ hc => Nat.isDigit_of_mem_toDigits (by decide) (by decide) hc

theorem parseExponentDigits_toDigits (negative : Bool) (n : Nat) (hrest : NoDigit rest) :
    parseExponentDigits negative (Nat.toDigits 10 n ++ rest) =
      some (if negative then -(n : Int) else n, rest) := by
  obtain ⟨htake, hdrop⟩ := takeWhile_digits (isDigit_toDigits n) hrest
  rw [parseExponentDigits, htake, hdrop, if_neg Nat.toDigits_ne_nil, Nat.ofDigitChars_ten_toDigits]

theorem parseExponent_some (e : Int) (hrest : NoDigit rest) :
    parseExponent ('e' :: (if 0 ≤ e then '+' else '-') :: (Nat.toDigits 10 e.natAbs ++ rest)) =
      some (some e, rest) := by
  rw [parseExponent]
  split
  · rw [parseSignedExponent, parseExponentDigits_toDigits false _ hrest]
    simp only [Bool.false_eq_true, if_false, Option.map_some, Option.some.injEq, Prod.mk.injEq,
      and_true]
    omega
  · rw [parseSignedExponent, parseExponentDigits_toDigits true _ hrest]
    simp only [if_true, Option.map_some, Option.some.injEq, Prod.mk.injEq, and_true]
    omega

end Scan

structure Literal.Lexical (literal : Literal) : Prop where
  whole : ∀ c ∈ literal.whole, c.isDigit = true
  fraction : ∀ c ∈ literal.fraction, c.isDigit = true
  nonempty : literal.whole ≠ []
  leading : literal.whole.head? = some '0' → literal.whole = ['0']

theorem Literal.Lexical.parse {literal : Literal} (h : literal.Lexical) {rest : List Char}
    (hrest : Stops rest) : parseLiteral (literal.text ++ rest) = some (literal, rest) := by
  obtain ⟨whole, fraction, exponent⟩ := literal
  obtain ⟨hwhole, hfraction, hnonempty, hleading⟩ := h
  simp only at hwhole hfraction hnonempty hleading
  have hexponent : ∃ tail, parseExponent tail = some (exponent, rest) ∧
      (Literal.text ⟨whole, fraction, exponent⟩ ++ rest =
        whole ++ ((if fraction = [] then [] else '.' :: fraction) ++ tail)) ∧
      NoDigit tail ∧ ∀ c ∈ tail.head?, c ≠ '.' := by
    cases exponent with
    | none =>
      refine ⟨rest, parseExponent_none fun c hc => ⟨(hrest c hc).2.2.1, (hrest c hc).2.2.2⟩, ?_,
        hrest.noDigit, fun c hc => (hrest c hc).2.1⟩
      simp [Literal.text]
    | some e =>
      refine ⟨_, parseExponent_some e hrest.noDigit, ?_, ?_, ?_⟩
      · simp [Literal.text]
      · simp [NoDigit]
      · simp
  obtain ⟨tail, htail, htext, hnoDigit, hnoPoint⟩ := hexponent
  have hscan : ∃ after, whole ++ ((if fraction = [] then [] else '.' :: fraction) ++ tail) =
      whole ++ after ∧ NoDigit after ∧ parseFraction after = some (fraction, tail) := by
    split
    · rename_i hnil
      subst hnil
      exact ⟨tail, rfl, hnoDigit, parseFraction_none hnoPoint⟩
    · rename_i hne
      exact ⟨'.' :: (fraction ++ tail), rfl, by simp [NoDigit],
        parseFraction_some hne hfraction hnoDigit⟩
  obtain ⟨after, hafter, hafterDigit, hparse⟩ := hscan
  obtain ⟨htake, hdrop⟩ := takeWhile_digits hwhole hafterDigit
  have hok : ¬(whole = [] ∨ (whole.head? = some '0' ∧ whole ≠ ['0'])) := by
    rintro (hnil | ⟨hhead, hne⟩)
    · exact hnonempty hnil
    · exact hne (hleading hhead)
  rw [htext, hafter, parseLiteral, htake, hdrop, hparse]
  simp only [Option.bind_eq_bind, Option.bind_some, htail]
  rw [if_neg hok]

section Digits

theorem head?_toDigits (n : Nat) : (Nat.toDigits 10 n).head? = some '0' → n = 0 := by
  induction n using Nat.strongRecOn with
  | _ n ih =>
    intro hhead
    rcases Nat.lt_or_ge n 10 with hlt | hge
    · rw [Nat.toDigits_of_lt_base hlt] at hhead
      interval_cases n <;> simp_all [Nat.digitChar]
    · rw [Nat.toDigits_of_base_le (by decide) hge,
        List.head?_append_of_ne_nil _ Nat.toDigits_ne_nil] at hhead
      have := ih (n / 10) (by omega) hhead
      omega

theorem toDigits_leading (n : Nat) (h : (Nat.toDigits 10 n).head? = some '0') :
    Nat.toDigits 10 n = ['0'] := by
  rw [head?_toDigits n h]
  rfl

theorem dropTrailingZeros_spec (ds : List Char) :
    ∃ zeros, ds = dropTrailingZeros ds ++ List.replicate zeros '0' := by
  induction ds with
  | nil => exact ⟨0, rfl⟩
  | cons c ds ih =>
    obtain ⟨zeros, hds⟩ := ih
    rw [dropTrailingZeros]
    split
    · rename_i h
      refine ⟨zeros + 1, ?_⟩
      rw [h.2, List.nil_append, List.replicate_succ]
      rw [h.1, List.nil_append] at hds
      rw [← hds]
    · refine ⟨zeros, ?_⟩
      rw [List.cons_append, ← hds]

theorem ofDigitChars_append_zeros (ds : List Char) (zeros : Nat) :
    Nat.ofDigitChars 10 (ds ++ List.replicate zeros '0') 0 =
      Nat.ofDigitChars 10 ds 0 * 10 ^ zeros := by
  rw [Nat.ofDigitChars_append, Nat.ofDigitChars_replicate_zero, Nat.mul_comm]

theorem ofDigitChars_zeros_append (ds : List Char) (zeros : Nat) :
    Nat.ofDigitChars 10 (List.replicate zeros '0' ++ ds) 0 = Nat.ofDigitChars 10 ds 0 := by
  rw [Nat.ofDigitChars_append, Nat.ofDigitChars_replicate_zero, Nat.mul_zero]

theorem ofScaled_canonical {mantissa : Int} {scale : Nat}
    (h : 0 < scale ∧ mantissa % 10 ≠ 0) : ofScaled mantissa scale = .frac mantissa scale h := by
  cases scale with
  | zero => exact absurd h.1 (by decide)
  | succ scale => rw [ofScaled, dif_neg h.2]

end Digits

section Literal

variable {digits : List Char}

theorem scientific_lexical (point : Int) (hne : digits ≠ []) (hhead : digits.head? ≠ some '0')
    (hdigits : ∀ c ∈ digits, c.isDigit = true) : (scientific digits point).Lexical := by
  cases digits with
  | nil => exact absurd rfl hne
  | cons c ds =>
    refine ⟨?_, ?_, by simp [scientific], ?_⟩
    · intro d hd
      exact hdigits d (by simp_all [scientific])
    · intro d hd
      exact hdigits d (List.mem_cons_of_mem _ (by simpa [scientific] using hd))
    · intro hzero
      exact absurd hzero (by simpa [scientific] using hhead)

theorem scientific_mantissa (point : Int) :
    (scientific digits point).mantissa = Nat.ofDigitChars 10 digits 0 := by
  rw [Literal.mantissa, scientific, List.take_append_drop]

theorem scientific_exponent (point : Int) (hne : digits ≠ []) :
    (scientific digits point).exponent.getD 0 - (scientific digits point).fraction.length =
      point - digits.length := by
  have hpos := List.length_pos_iff.mpr hne
  simp only [scientific, Option.getD_some, List.length_drop]
  omega

theorem digits_head_ne {n : Nat} (h : n ≠ 0) : (Nat.toDigits 10 n).head? ≠ some '0' :=
  fun hhead => h (head?_toDigits n hhead)

theorem dropTrailingZeros_head (hhead : digits.head? ≠ some '0') (hne : digits ≠ []) :
    dropTrailingZeros digits ≠ [] ∧ (dropTrailingZeros digits).head? ≠ some '0' := by
  cases digits with
  | nil => exact absurd rfl hne
  | cons c ds =>
    have hc : c ≠ '0' := by simpa using hhead
    rw [dropTrailingZeros, if_neg fun h => hc h.2]
    exact ⟨by simp, by simpa using hc⟩

theorem isDigit_dropTrailingZeros (h : ∀ c ∈ digits, c.isDigit = true) :
    ∀ c ∈ dropTrailingZeros digits, c.isDigit = true := by
  obtain ⟨zeros, hds⟩ := dropTrailingZeros_spec digits
  intro c hc
  apply h c
  rw [hds]
  exact List.mem_append_left _ hc

theorem literal_lexical (n : JsonNumber) : n.literal.Lexical := by
  cases n with
  | int n =>
    have hdigits := isDigit_toDigits n.natAbs
    simp only [literal]
    split
    · exact ⟨hdigits, by simp, Nat.toDigits_ne_nil, toDigits_leading _⟩
    · rename_i hlong
      have hne : n.natAbs ≠ 0 := by
        intro hzero
        rw [hzero] at hlong
        exact hlong (by decide)
      obtain ⟨hnonempty, hhead⟩ :=
        dropTrailingZeros_head (digits_head_ne hne) Nat.toDigits_ne_nil
      exact scientific_lexical _ hnonempty hhead (isDigit_dropTrailingZeros hdigits)
  | frac mantissa scale h =>
    have hdigits := isDigit_toDigits mantissa.natAbs
    have hhead : (Nat.toDigits 10 mantissa.natAbs).head? ≠ some '0' :=
      digits_head_ne (by have := h.2; omega)
    simp only [literal]
    split
    · rename_i hpoint
      refine ⟨fun c hc => hdigits c (List.mem_of_mem_take hc),
        fun c hc => hdigits c (List.mem_of_mem_drop hc), ?_, ?_⟩
      · simp only [ne_eq, List.take_eq_nil_iff, not_or]
        exact ⟨by omega, Nat.toDigits_ne_nil⟩
      · intro hzero
        rw [List.head?_take, if_neg (by omega)] at hzero
        exact absurd hzero hhead
    · split
      · refine ⟨by simp, ?_, by simp, fun _ => rfl⟩
        intro c hc
        rcases List.mem_append.mp hc with hzero | hdigit
        · rw [List.eq_of_mem_replicate hzero]
          rfl
        · exact hdigits c hdigit
      · exact scientific_lexical _ Nat.toDigits_ne_nil hhead hdigits

def magnitude : JsonNumber → JsonNumber
  | .int n => .int n.natAbs
  | .frac mantissa scale h => .frac mantissa.natAbs scale ⟨h.1, by omega⟩

theorem ofDecimal_neg {mantissa : Int} {scale : Nat} (h : 0 < scale ∧ mantissa % 10 ≠ 0)
    {exponent : Int} (hexponent : exponent = -scale) :
    ofDecimal mantissa exponent = .frac mantissa scale h := by
  subst hexponent
  rw [ofDecimal, if_neg (by omega)]
  simp only [Int.neg_neg, Int.toNat_natCast]
  exact ofScaled_canonical h

theorem literal_value (n : JsonNumber) : n.literal.value = n.magnitude := by
  cases n with
  | int n =>
    simp only [literal, magnitude]
    split
    · simp [Literal.value, Literal.mantissa, ofDecimal]
    · rename_i hlong
      have hne : n.natAbs ≠ 0 := by
        intro hzero
        rw [hzero] at hlong
        exact hlong (by decide)
      obtain ⟨hnonempty, _⟩ := dropTrailingZeros_head (digits_head_ne hne) Nat.toDigits_ne_nil
      obtain ⟨zeros, hzeros⟩ := dropTrailingZeros_spec (Nat.toDigits 10 n.natAbs)
      have hlength := congrArg List.length hzeros
      have hvalue := congrArg (fun ds => Nat.ofDigitChars 10 ds 0) hzeros
      simp only [Nat.ofDigitChars_ten_toDigits, ofDigitChars_append_zeros] at hvalue
      simp only [List.length_append, List.length_replicate] at hlength
      have hexponent : ((Nat.toDigits 10 n.natAbs).length : Int) -
          (dropTrailingZeros (Nat.toDigits 10 n.natAbs)).length = zeros := by omega
      rw [Literal.value, scientific_mantissa, scientific_exponent _ hnonempty, hexponent, ofDecimal,
        if_pos (by omega), Int.toNat_natCast]
      congr 1
      exact_mod_cast hvalue.symm
  | frac mantissa scale h =>
    have hcanonical : 0 < scale ∧ (mantissa.natAbs : Int) % 10 ≠ 0 := ⟨h.1, by have := h.2; omega⟩
    simp only [literal, magnitude]
    split
    · rename_i hpoint
      rw [Literal.value]
      simp only [Literal.mantissa, List.take_append_drop, Nat.ofDigitChars_ten_toDigits,
        Option.getD_none, List.length_drop]
      exact ofDecimal_neg hcanonical (by omega)
    · split
      · rename_i hpoint
        rw [Literal.value]
        simp only [Literal.mantissa, Option.getD_none, List.length_append, List.length_replicate]
        have hmantissa : Nat.ofDigitChars 10 (['0'] ++ (List.replicate
            (-((Nat.toDigits 10 mantissa.natAbs).length - scale : Int)).toNat '0' ++
              Nat.toDigits 10 mantissa.natAbs)) 0 = mantissa.natAbs := by
          rw [← List.append_assoc, ← List.replicate_one, ← List.replicate_add,
            ofDigitChars_zeros_append, Nat.ofDigitChars_ten_toDigits]
        rw [hmantissa]
        exact ofDecimal_neg hcanonical (by push_cast; omega)
      · rw [Literal.value, scientific_mantissa, scientific_exponent _ Nat.toDigits_ne_nil,
          Nat.ofDigitChars_ten_toDigits]
        exact ofDecimal_neg hcanonical (by omega)

end Literal

theorem neg_magnitude {n : JsonNumber} (h : n.isNegative = true) : n.magnitude.neg = n := by
  cases n with
  | int n =>
    simp only [isNegative, decide_eq_true_eq] at h
    simp only [magnitude, neg, int.injEq]
    omega
  | frac mantissa scale hc =>
    simp only [isNegative, decide_eq_true_eq] at h
    simp only [magnitude, neg, frac.injEq, and_true]
    omega

theorem magnitude_of_nonneg {n : JsonNumber} (h : n.isNegative = false) : n.magnitude = n := by
  cases n with
  | int n =>
    simp only [isNegative, decide_eq_false_iff_not] at h
    simp only [magnitude, int.injEq]
    omega
  | frac mantissa scale hc =>
    simp only [isNegative, decide_eq_false_iff_not] at h
    simp only [magnitude, frac.injEq, and_true]
    omega

/-- A number is what its literal spells. -/
theorem signed_literal (n : JsonNumber) : n.literal.signed n.isNegative = n := by
  unfold Literal.signed
  rw [literal_value]
  split
  · rename_i hsign
    exact neg_magnitude hsign
  · rename_i hsign
    exact magnitude_of_nonneg (eq_false_of_ne_true hsign)

namespace Literal.Lexical

variable {literal : Literal}

theorem text_head (h : literal.Lexical) :
    ∃ c tail, literal.text = c :: tail ∧ c.isDigit = true := by
  cases hwhole : literal.whole with
  | nil => exact absurd hwhole h.nonempty
  | cons c whole =>
    refine ⟨c, _, by rw [Literal.text, hwhole]; rfl, ?_⟩
    exact h.whole c (by rw [hwhole]; exact List.mem_cons_self)

theorem parseSigned (h : literal.Lexical) (negative : Bool) {rest : List Char}
    (hrest : Stops rest) : parseSigned (literal.print negative ++ rest) =
      some ((negative, literal), rest) := by
  have hparse := h.parse hrest
  unfold Literal.print
  cases negative with
  | true =>
    simp only [if_true, List.cons_append, List.nil_append, JsonNumber.parseSigned, hparse,
      Option.map_some]
  | false =>
    obtain ⟨c, tail, htext, hdigit⟩ := h.text_head
    have hc : c ≠ '-' := by
      rintro rfl
      simp at hdigit
    rw [htext] at hparse
    simp only [Bool.false_eq_true, if_false, List.nil_append, htext, List.cons_append]
    unfold JsonNumber.parseSigned
    split
    · rename_i heq
      exact absurd (List.cons.inj heq).1 hc
    · rw [List.cons_append] at hparse
      simp only [hparse, Option.map_some]

theorem print_head (h : literal.Lexical) (negative : Bool) :
    ∃ c tail, literal.print negative = c :: tail ∧ (c = '-' ∨ c.isDigit = true) := by
  unfold Literal.print
  cases negative with
  | true => exact ⟨'-', _, rfl, .inl rfl⟩
  | false =>
    obtain ⟨c, tail, htext, hdigit⟩ := h.text_head
    exact ⟨c, tail, by simpa using htext, .inr hdigit⟩

end Literal.Lexical

theorem digit_printable {c : Char} (h : c.isDigit = true) : 32 ≤ c.toNat := by
  simp only [Char.isDigit, Bool.and_eq_true, decide_eq_true_eq] at h
  exact Nat.le_trans (by decide) h.1

theorem Literal.Lexical.print_printable {literal : Literal} (hlexical : literal.Lexical)
    (negative : Bool) : ∀ c ∈ literal.print negative, 32 ≤ c.toNat := by
  intro c hc
  rcases List.mem_append.mp hc with hsign | htext
  · split at hsign
    · rw [List.mem_singleton.mp hsign]
      decide
    · simp at hsign
  · rcases List.mem_append.mp htext with hfront | hexponent
    · rcases List.mem_append.mp hfront with hwhole | hfraction
      · exact digit_printable (hlexical.whole c hwhole)
      · split at hfraction
        · simp at hfraction
        · rcases List.mem_cons.mp hfraction with rfl | hdigit
          · decide
          · exact digit_printable (hlexical.fraction c hdigit)
    · split at hexponent
      · simp at hexponent
      · rcases List.mem_cons.mp hexponent with rfl | hrest
        · decide
        · rcases List.mem_cons.mp hrest with rfl | hdigit
          · split <;> decide
          · exact digit_printable (isDigit_toDigits _ c hdigit)

end JsonNumber

theorem ofDigitChars_toString (i : Nat) :
    Nat.ofDigitChars 10 (toString i).toList 0 = i := by
  rw [Nat.toString_eq_ofList_toDigits, String.toList_ofList, Nat.ofDigitChars_ten_toDigits]

theorem toString_inj {i j : Nat} (h : toString i = toString j) : i = j := by
  rw [← ofDigitChars_toString i, h, ofDigitChars_toString]

end Harness.Foundation
