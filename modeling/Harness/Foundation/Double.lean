import Mathlib.Data.Int.Log
import Mathlib.Data.Rat.Floor
import Mathlib.Tactic.Linarith
import Mathlib.Tactic.NormNum

namespace Harness.Foundation

inductive Double
  | finite (value : ℚ)
  | infinite (negative : Bool)
  | nan
  deriving DecidableEq, Repr

namespace Double

def ulp (q : ℚ) : ℚ :=
  2 ^ (max (Int.log 2 |q|) (-1022) - 52)

def roundHalfEven (q : ℚ) : ℤ :=
  if q - ⌊q⌋ < 1 / 2 then ⌊q⌋
  else if 1 / 2 < q - ⌊q⌋ then ⌊q⌋ + 1
  else if ⌊q⌋ % 2 = 0 then ⌊q⌋
  else ⌊q⌋ + 1

def round (q : ℚ) : Double :=
  if 2 ^ 1024 ≤ |roundHalfEven (q / ulp q) * ulp q| then .infinite (decide (q < 0))
  else .finite (roundHalfEven (q / ulp q) * ulp q)

def neg : Double → Double
  | finite a => finite (-a)
  | infinite negative => infinite (!negative)
  | nan => nan

def add : Double → Double → Double
  | finite a, finite b => round (a + b)
  | infinite s, infinite t => if s = t then infinite s else nan
  | infinite s, finite _ => infinite s
  | finite _, infinite t => infinite t
  | _, _ => nan

def sub (a b : Double) : Double := add a (neg b)

def mul : Double → Double → Double
  | finite a, finite b => round (a * b)
  | infinite s, infinite t => infinite (s != t)
  | infinite s, finite b => if b = 0 then nan else infinite (s != decide (b < 0))
  | finite a, infinite t => if a = 0 then nan else infinite (decide (a < 0) != t)
  | _, _ => nan

def le : Double → Double → Bool
  | finite a, finite b => decide (a ≤ b)
  | infinite s, infinite t => s || !t
  | infinite s, finite _ => s
  | finite _, infinite t => !t
  | _, _ => false

/-- `Math.min`. -/
def min (a b : Double) : Double :=
  if a = nan ∨ b = nan then nan else if a.le b = true then a else b

def isFinite : Double → Bool
  | finite _ => true
  | _ => false

def isInteger : Double → Bool
  | finite value => decide (value.den = 1)
  | _ => false

/-- `2 ** n`. -/
def twoPow (n : Nat) : Double := round (2 ^ n)

def Nonneg : Double → Prop
  | finite value => 0 ≤ value
  | infinite negative => negative = false
  | nan => False

theorem ulp_pos (q : ℚ) : 0 < ulp q :=
  zpow_pos (by norm_num) _

theorem roundHalfEven_nonneg {q : ℚ} (h : 0 ≤ q) : 0 ≤ roundHalfEven q := by
  have hfloor : 0 ≤ ⌊q⌋ := Int.floor_nonneg.mpr h
  unfold roundHalfEven
  split
  · exact hfloor
  · split
    · omega
    · split <;> omega

theorem roundHalfEven_le (q : ℚ) : (roundHalfEven q : ℚ) ≤ q + 1 := by
  have hfloor : (⌊q⌋ : ℚ) ≤ q := Int.floor_le q
  have hnext : ((⌊q⌋ + 1 : ℤ) : ℚ) = (⌊q⌋ : ℚ) + 1 := by
    rw [Int.cast_add, Int.cast_one]
  unfold roundHalfEven
  split
  · linarith
  · split
    · linarith
    · split <;> linarith

theorem round_nonneg {q : ℚ} (h : 0 ≤ q) : (round q).Nonneg := by
  have hscaled : 0 ≤ q / ulp q := div_nonneg h (ulp_pos q).le
  have hvalue : (0 : ℚ) ≤ roundHalfEven (q / ulp q) * ulp q :=
    mul_nonneg (Int.cast_nonneg (roundHalfEven_nonneg hscaled)) (ulp_pos q).le
  unfold round
  split
  · exact decide_eq_false (not_lt.mpr h)
  · exact hvalue

theorem ulp_le_one {q : ℚ} (h : 0 ≤ q) (hsmall : q ≤ 8) : ulp q ≤ 1 := by
  have hlog : Int.log 2 |q| ≤ 3 := by
    rw [abs_of_nonneg h]
    rcases h.eq_or_lt with rfl | hpos
    · rw [Int.log_of_right_le_zero 2 le_rfl]
      norm_num
    · have hle : Int.log 2 q ≤ Int.log 2 (8 : ℚ) := Int.log_mono_right hpos hsmall
      have height : Int.log 2 ((2 : ℚ) ^ (3 : ℤ)) = 3 := Int.log_zpow (b := 2) (by norm_num) 3
      have heq : ((2 : ℚ) ^ (3 : ℤ)) = 8 := by norm_num
      rw [heq] at height
      exact hle.trans height.le
  unfold ulp
  apply zpow_le_one_of_nonpos₀ (by norm_num)
  omega

theorem round_small {q : ℚ} (h : 0 ≤ q) (hsmall : q ≤ 8) :
    ∃ value, round q = finite value ∧ 0 ≤ value ∧ value ≤ q + 1 := by
  have hpos := ulp_pos q
  have hscaled : 0 ≤ q / ulp q := div_nonneg h hpos.le
  have hvalue : (0 : ℚ) ≤ roundHalfEven (q / ulp q) * ulp q :=
    mul_nonneg (Int.cast_nonneg (roundHalfEven_nonneg hscaled)) hpos.le
  have hle : roundHalfEven (q / ulp q) * ulp q ≤ q + 1 := by
    calc (roundHalfEven (q / ulp q) : ℚ) * ulp q
        ≤ (q / ulp q + 1) * ulp q := mul_le_mul_of_nonneg_right (roundHalfEven_le _) hpos.le
      _ = q + ulp q := by rw [add_mul, div_mul_cancel₀ _ hpos.ne', one_mul]
      _ ≤ q + 1 := by linarith [ulp_le_one h hsmall]
  refine ⟨_, if_neg ?_, hvalue, hle⟩
  rw [abs_of_nonneg hvalue, not_le]
  calc (roundHalfEven (q / ulp q) : ℚ) * ulp q ≤ q + 1 := hle
    _ ≤ 9 := by linarith
    _ < 2 ^ 4 := by norm_num
    _ ≤ 2 ^ 1024 := pow_le_pow_right₀ (by norm_num) (by norm_num)

theorem mul_nonneg_of_pos {a : ℚ} {d : Double} (ha : 0 < a) (hd : d.Nonneg) :
    (mul (finite a) d).Nonneg := by
  cases d with
  | finite b => exact round_nonneg (mul_nonneg ha.le hd)
  | infinite t =>
    obtain rfl : t = false := hd
    rw [mul, if_neg ha.ne', decide_eq_false (not_lt.mpr ha.le)]
    rfl
  | nan => exact hd.elim

theorem min_bounded {d : Double} {m : ℚ} (hd : d.Nonneg) (hm : 0 ≤ m) :
    ∃ value, min d (finite m) = finite value ∧ 0 ≤ value ∧ value ≤ m := by
  cases d with
  | finite a =>
    by_cases hle : a ≤ m
    · exact ⟨a, by simp [min, le, hle], hd, hle⟩
    · exact ⟨m, by simp [min, le, hle], hm, le_refl m⟩
  | infinite negative =>
    cases hd
    exact ⟨m, by simp [min, le], hm, le_refl m⟩
  | nan => exact hd.elim

end Double

end Harness.Foundation
