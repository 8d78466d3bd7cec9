import Harness.Foundation.Json
import Mathlib.Tactic.Ring

namespace Harness.Foundation

def maxSafeInteger : Int := 9007199254740991

def isSafe (n : Int) : Bool :=
  decide (-maxSafeInteger ≤ n) && decide (n ≤ maxSafeInteger)

theorem isSafe_iff {n : Int} :
    isSafe n = true ↔ -9007199254740991 ≤ n ∧ n ≤ 9007199254740991 := by
  unfold isSafe maxSafeInteger
  rw [Bool.and_eq_true, decide_eq_true_iff, decide_eq_true_iff]

/-- The double nearest to an integer of magnitude at most `2 ^ 54`, which bounds every sum and
difference of two safe integers. -/
def roundDouble (n : Int) : Int :=
  if n.natAbs ≤ 9007199254740992 then n
  else if n % 2 = 0 then n
  else if n % 4 = 1 then n - 1
  else n + 1

def addDouble (a b : Int) : Int := roundDouble (a + b)

def subDouble (a b : Int) : Int := roundDouble (a - b)

theorem roundDouble_of_safe {n : Int} (h : isSafe n = true) : roundDouble n = n := by
  have := isSafe_iff.mp h
  unfold roundDouble
  rw [if_pos (by omega)]

@[simp] theorem isSafe_roundDouble (n : Int) : isSafe (roundDouble n) = isSafe n := by
  rw [Bool.eq_iff_iff, isSafe_iff, isSafe_iff]
  unfold roundDouble
  split
  · rfl
  · split
    · rfl
    · split <;> omega

theorem addDouble_of_safe {a b : Int} (h : isSafe (addDouble a b) = true) :
    addDouble a b = a + b :=
  roundDouble_of_safe (by simpa [addDouble] using h)

theorem subDouble_of_safe {a b : Int} (h : isSafe (subDouble a b) = true) :
    subDouble a b = a - b :=
  roundDouble_of_safe (by simpa [subDouble] using h)

theorem addDouble_of_le {a b : Int} (h : (a + b).natAbs ≤ 9007199254740992) :
    addDouble a b = a + b := by
  unfold addDouble roundDouble
  rw [if_pos h]

@[simp] theorem isSafe_subDouble (a b : Int) : isSafe (subDouble a b) = isSafe (a - b) :=
  isSafe_roundDouble _

@[simp] theorem isSafe_addDouble (a b : Int) : isSafe (addDouble a b) = isSafe (a + b) :=
  isSafe_roundDouble _

namespace Json

def int? : Json → Option Int
  | .num (.int n) => some n
  | _ => none

theorem int?_eq_some {value : Json} {n : Int} : value.int? = some n ↔ value = .int n := by
  unfold int?
  split <;> simp_all

def isSafeInteger (value : Json) : Bool :=
  match value.int? with
  | some n => isSafe n
  | none => false

theorem isSafeInteger_iff {value : Json} :
    value.isSafeInteger = true ↔ ∃ n, value = .int n ∧ isSafe n = true := by
  unfold isSafeInteger
  cases h : value.int? with
  | none =>
    simp only [Bool.false_eq_true, false_iff, not_exists, not_and]
    intro n hn
    rw [int?_eq_some.mpr hn] at h
    cases h
  | some n =>
    obtain rfl := int?_eq_some.mp h
    simp

def safeNat? (value : Json) : Option Nat :=
  match value.int? with
  | some n => if isSafe n ∧ 0 ≤ n then some n.toNat else none
  | none => none

theorem safeNat?_eq_some {value : Json} {n : Nat} :
    value.safeNat? = some n ↔ value = .nat n ∧ isSafe n = true := by
  unfold safeNat?
  cases h : value.int? with
  | none =>
    simp only [reduceCtorEq, false_iff, not_and]
    intro hn
    rw [int?_eq_some.mpr hn] at h
    cases h
  | some m =>
    obtain rfl := int?_eq_some.mp h
    simp only [Option.ite_none_right_eq_some, Option.some.injEq]
    constructor
    · rintro ⟨⟨hsafe, hnonneg⟩, rfl⟩
      have hcast : ((m.toNat : Nat) : Int) = m := Int.toNat_of_nonneg hnonneg
      rw [hcast]
      exact ⟨by rw [Json.nat, hcast], hsafe⟩
    · rintro ⟨heq, hsafe⟩
      have hm : m = n := by simpa using heq
      subst hm
      exact ⟨⟨hsafe, by omega⟩, by omega⟩

end Json

end Harness.Foundation
