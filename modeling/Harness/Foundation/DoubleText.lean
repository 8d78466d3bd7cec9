import Harness.Foundation.Double
import Harness.Foundation.JsonDecimal
import Mathlib.Algebra.Order.Field.Power
import Mathlib.Data.Nat.Prime.Basic

namespace Harness.Foundation

namespace JsonNumber

def toRat : JsonNumber → ℚ
  | .int n => n
  | .frac mantissa scale _ => mantissa / 10 ^ scale

theorem toRat_ofScaled (mantissa : Int) (scale : Nat) :
    (ofScaled mantissa scale).toRat = mantissa / 10 ^ scale := by
  induction scale generalizing mantissa with
  | zero => rw [ofScaled, toRat, pow_zero, div_one]
  | succ scale ih =>
    rw [ofScaled]
    split
    · rename_i h
      have hmantissa : ((mantissa / 10 : Int) : ℚ) * 10 = mantissa := by
        rw [← Int.cast_ofNat (R := ℚ), ← Int.cast_mul, Int.ediv_mul_cancel (Int.dvd_of_emod_eq_zero h)]
      rw [ih, ← hmantissa, pow_succ, mul_div_mul_right _ _ (by norm_num)]
    · rfl

theorem toRat_ofDecimal (mantissa exponent : Int) :
    (ofDecimal mantissa exponent).toRat = mantissa * 10 ^ exponent := by
  rw [ofDecimal]
  split
  · rename_i h
    obtain ⟨n, rfl⟩ := Int.eq_ofNat_of_zero_le h
    rw [toRat, Int.toNat_natCast, zpow_natCast]
    push_cast
    rfl
  · rename_i h
    obtain ⟨n, hn⟩ := Int.eq_ofNat_of_zero_le (show 0 ≤ -exponent by omega)
    rw [toRat_ofScaled, hn, Int.toNat_natCast, ← neg_neg exponent, hn, zpow_neg, zpow_natCast,
      div_eq_mul_inv]

end JsonNumber

namespace Double

/-- The decimals of a number of digits on either side of a value, the nearer one first. -/
def decimals (q : ℚ) (digits : Nat) : List JsonNumber :=
  let exponent : Int := Int.log 10 |q| + 1 - digits
  let nearest := roundHalfEven (q / 10 ^ exponent)
  [.ofDecimal nearest exponent, .ofDecimal (2 * ⌊q / 10 ^ exponent⌋ + 1 - nearest) exponent]

/-- All digits of a value whose denominator is a power of two. -/
def exactDecimal (q : ℚ) : JsonNumber :=
  .ofDecimal (q.num * 5 ^ Nat.log 2 q.den) (-(Nat.log 2 q.den : Int))

/-- `Number::toString` takes the fewest digits that are read as the same double, and of these the
nearest to it; seventeen are always enough. -/
def shortest (q : ℚ) : JsonNumber :=
  -- an integer below the spacing of two is its own shortest text
  if q.den = 1 ∧ q.num.natAbs < 2 ^ 53 then .int q.num
  else (((List.range 17).flatMap fun digits => decimals q (digits + 1)).find? fun decimal =>
    decide (round decimal.toRat = .finite q)).getD (exactDecimal q)

/-- A value that some double has. -/
def Representable (q : ℚ) : Prop := round q = .finite q

theorem den_of_representable {q : ℚ} (h : Representable q) : 2 ^ Nat.log 2 q.den = q.den := by
  have hvalue : (roundHalfEven (q / ulp q) : ℚ) * ulp q = q := by
    unfold Representable round at h
    split at h
    · cases h
    · exact finite.inj h
  have hdvd : ∃ n : ℕ, q.den ∣ 2 ^ n := by
    rw [ulp] at hvalue
    generalize max (Int.log 2 |q|) (-1022) - 52 = exponent at hvalue
    generalize roundHalfEven _ = mantissa at hvalue
    cases exponent with
    | ofNat n =>
      refine ⟨0, ?_⟩
      rw [Int.ofNat_eq_natCast, zpow_natCast] at hvalue
      have hint : ((mantissa * 2 ^ n : ℤ) : ℚ) = q := by
        rw [← hvalue]
        push_cast
        rfl
      rw [← hint, Rat.den_intCast, pow_zero]
    | negSucc n =>
      refine ⟨n + 1, ?_⟩
      have hquotient : ((mantissa : ℚ) / ((2 ^ (n + 1) : ℤ) : ℚ)) = q := by
        rw [← hvalue, zpow_negSucc, div_eq_mul_inv]
        push_cast
        rfl
      have hden := Rat.den_dvd mantissa (2 ^ (n + 1))
      rw [Rat.divInt_eq_div, hquotient] at hden
      exact_mod_cast hden
  obtain ⟨n, hn⟩ := hdvd
  obtain ⟨m, -, hm⟩ := (Nat.dvd_prime_pow Nat.prime_two).mp hn
  rw [hm, Nat.log_pow (by decide)]

theorem toRat_exactDecimal {q : ℚ} (h : Representable q) : (exactDecimal q).toRat = q := by
  have hden := den_of_representable h
  have hpow : ((10 : ℚ) ^ Nat.log 2 q.den) = 5 ^ Nat.log 2 q.den * q.den := by
    rw [← Nat.cast_inj (R := ℚ)] at hden
    rw [← hden, show (10 : ℚ) = 5 * 2 by norm_num, mul_pow]
    push_cast
    rfl
  rw [exactDecimal, JsonNumber.toRat_ofDecimal, zpow_neg, zpow_natCast, hpow]
  push_cast
  rw [mul_inv, mul_assoc, mul_inv_cancel_left₀ (pow_ne_zero _ (by norm_num)), ← div_eq_mul_inv,
    Rat.num_div_den]

/-- The text of a double is read as the double. -/
theorem round_shortest {q : ℚ} (h : Representable q) : round (shortest q).toRat = .finite q := by
  unfold shortest
  split
  · rename_i hint
    rw [JsonNumber.toRat, Rat.coe_int_num_of_den_eq_one hint.1, h]
  · cases hfound : ((List.range 17).flatMap fun digits => decimals q (digits + 1)).find?
        fun decimal => decide (round decimal.toRat = .finite q) with
    | none => rw [Option.getD_none, toRat_exactDecimal h, h]
    | some decimal =>
      have hread := List.find?_some hfound
      exact of_decide_eq_true hread

theorem shortest_int {n : ℤ} (h : n.natAbs < 2 ^ 53) : shortest n = .int n :=
  if_pos ⟨Rat.den_intCast n, h⟩

theorem roundHalfEven_int (n : ℤ) : roundHalfEven n = n := by
  rw [roundHalfEven, Int.floor_intCast, sub_self, if_pos (by norm_num)]

/-- Integers up to the spacing of two are doubles. -/
theorem round_int {n : ℤ} (h : n.natAbs < 2 ^ 53) : Representable n := by
  have hless : |(n : ℚ)| < 2 ^ (53 : ℤ) := by
    rw [← Int.cast_abs, Int.abs_eq_natAbs]
    exact_mod_cast h
  have hlog : Int.log 2 |(n : ℚ)| ≤ 52 := by
    rcases (abs_nonneg (n : ℚ)).eq_or_lt with hzero | hpos
    · rw [← hzero, Int.log_of_right_le_zero 2 le_rfl]
      norm_num
    · exact Int.lt_add_one_iff.mp ((Int.lt_zpow_iff_log_lt (by norm_num) hpos).mp hless)
  obtain ⟨k, hk⟩ : ∃ k : ℕ, max (Int.log 2 |(n : ℚ)|) (-1022) - 52 = -(k : ℤ) :=
    ⟨(52 - max (Int.log 2 |(n : ℚ)|) (-1022)).toNat, by omega⟩
  have hulp : ulp n = (2 ^ k)⁻¹ := by
    rw [ulp, hk, zpow_neg, zpow_natCast]
  have hscaled : (n : ℚ) / ulp n = ((n * 2 ^ k : ℤ) : ℚ) := by
    rw [hulp, div_inv_eq_mul]
    push_cast
    rfl
  have hvalue : (roundHalfEven ((n : ℚ) / ulp n) : ℚ) * ulp n = n := by
    rw [hscaled, roundHalfEven_int, ← hscaled, div_mul_cancel₀ _ (ulp_pos _).ne']
  rw [Representable, round, hvalue, if_neg (not_le.mpr (hless.trans_le ?_))]
  rw [← zpow_natCast]
  exact zpow_le_zpow_right₀ (by norm_num) (by norm_num)

end Double

end Harness.Foundation
