import Mathlib.Data.List.DropRight

namespace Harness.Foundation

def isTrimmed (c : Char) : Bool :=
  let n := c.toNat
  (decide (0x09 ≤ n) && decide (n ≤ 0x0D)) || n == 0x20 || n == 0xA0 || n == 0x1680
    || (decide (0x2000 ≤ n) && decide (n ≤ 0x200A)) || n == 0x2028 || n == 0x2029 || n == 0x202F
    || n == 0x205F || n == 0x3000 || n == 0xFEFF

def trim (s : String) : String :=
  String.ofList ((s.toList.dropWhile isTrimmed).rdropWhile isTrimmed)

def isNormalized (s : String) : Bool := trim s != "" && s == trim s

theorem dropWhile_rdropWhile_dropWhile {α : Type} (p : α → Bool) (l : List α) :
    ((l.dropWhile p).rdropWhile p).dropWhile p = (l.dropWhile p).rdropWhile p := by
  cases h : (l.dropWhile p).rdropWhile p with
  | nil => rfl
  | cons a as =>
    have hfront := List.rdropWhile_prefix p (l.dropWhile p)
    rw [h] at hfront
    obtain ⟨rest, hrest⟩ := hfront
    have hhead : p a = false := by
      have := List.head?_dropWhile_not p l
      rw [← hrest] at this
      simpa using this
    rw [List.dropWhile_cons_of_neg (by simp [hhead])]

@[simp] theorem trim_trim (s : String) : trim (trim s) = trim s := by
  unfold trim
  rw [String.toList_ofList, dropWhile_rdropWhile_dropWhile, List.rdropWhile_idempotent]

theorem isNormalized_trim {s : String} (h : trim s ≠ "") : isNormalized (trim s) = true := by
  simp [isNormalized, h]

theorem trim_eq_self {s : String} (h : ∀ c ∈ s.toList, isTrimmed c = false) : trim s = s := by
  have hfront : s.toList.dropWhile isTrimmed = s.toList :=
    List.dropWhile_eq_self_iff.mpr fun hlength => by simp [h _ (List.getElem_mem hlength)]
  have hback : s.toList.rdropWhile isTrimmed = s.toList :=
    List.rdropWhile_eq_self_iff.mpr fun hne => by simp [h _ (List.getLast_mem hne)]
  rw [trim, hfront, hback, String.ofList_toList]

theorem isTrimmed_of_isDigit {c : Char} (h : c.isDigit = true) : isTrimmed c = false := by
  have hbounds : 48 ≤ c.toNat ∧ c.toNat ≤ 57 := by
    simpa [Char.isDigit, UInt32.le_iff_toNat_le] using h
  simp only [isTrimmed, Bool.or_eq_false_iff, Bool.and_eq_false_iff, decide_eq_false_iff_not,
    beq_eq_false_iff_ne]
  omega

def isLowerAlnum (c : Char) : Bool := c.isLower || c.isDigit

def kebabRest : (dash : Bool) → List Char → Bool
  | dash, [] => !dash
  | dash, c :: cs =>
    if c == '-' then !dash && kebabRest true cs else isLowerAlnum c && kebabRest false cs

/-- `/^[a-z][a-z0-9]*(?:-[a-z0-9]+)*$/`. -/
def isLowerKebab (s : String) : Bool :=
  match s.toList with
  | [] => false
  | c :: cs => c.isLower && kebabRest false cs

end Harness.Foundation
