import Harness.Foundation.Utf8
import Mathlib.Data.List.DropRight

namespace Harness.Foundation.Base64

def digit (n : Nat) : Char :=
  if n < 26 then Char.ofNat (65 + n)
  else if n < 52 then Char.ofNat (71 + n)
  else if n < 62 then Char.ofNat (n - 4)
  else if n = 62 then '+'
  else '/'

def digitValue (c : Char) : Option Nat :=
  if 'A' ≤ c ∧ c ≤ 'Z' then some (c.toNat - 65)
  else if 'a' ≤ c ∧ c ≤ 'z' then some (c.toNat - 71)
  else if '0' ≤ c ∧ c ≤ '9' then some (c.toNat + 4)
  else if c = '+' then some 62
  else if c = '/' then some 63
  else none

def digits : Bytes → List Nat
  | a :: b :: c :: rest =>
    a.toNat / 4 :: (a.toNat % 4 * 16 + b.toNat / 16) :: (b.toNat % 16 * 4 + c.toNat / 64) ::
      c.toNat % 64 :: digits rest
  | [a, b] => [a.toNat / 4, a.toNat % 4 * 16 + b.toNat / 16, b.toNat % 16 * 4]
  | [a] => [a.toNat / 4, a.toNat % 4 * 16]
  | [] => []

def bytesOf : List Nat → Option Bytes
  | a :: b :: c :: d :: rest => (bytesOf rest).map fun bytes =>
    UInt8.ofNat (a * 4 + b / 16) :: UInt8.ofNat (b % 16 * 16 + c / 4) ::
      UInt8.ofNat (c % 4 * 64 + d) :: bytes
  | [a, b, c] => some [UInt8.ofNat (a * 4 + b / 16), UInt8.ofNat (b % 16 * 16 + c / 4)]
  | [a, b] => some [UInt8.ofNat (a * 4 + b / 16)]
  | [_] => none
  | [] => some []

def btoa (bytes : Bytes) : List Char :=
  (digits bytes).map digit ++ List.replicate ((3 - bytes.length % 3) % 3) '='

def isSpace (c : Char) : Bool :=
  c = ' ' || c = '\t' || c = '\n' || c = '\r' || c.toNat = 12

def dropPadding (chars : List Char) : List Char :=
  match chars.reverse with
  | '=' :: '=' :: rest => rest.reverse
  | '=' :: rest => rest.reverse
  | _ => chars

def atob (chars : List Char) : Option Bytes :=
  let data := chars.filter (!isSpace ·)
  let data := if data.length % 4 = 0 then dropPadding data else data
  if data.length % 4 = 1 then none else (data.mapM digitValue).bind bytesOf

def urlChar (c : Char) : Char := if c = '+' then '-' else if c = '/' then '_' else c

def standardChar (c : Char) : Char := if c = '-' then '+' else if c = '_' then '/' else c

def isUrlChar (c : Char) : Bool := c.isAlphanum || c = '_' || c = '-'

def urlEncode (bytes : Bytes) : List Char :=
  ((btoa bytes).map urlChar).rdropWhile (· = '=')

def urlDecode (chars : List Char) : Option Bytes :=
  atob (chars.map standardChar ++ List.replicate ((4 - chars.length % 4) % 4) '=')

theorem digits_lt (bytes : Bytes) : ∀ n ∈ digits bytes, n < 64 := by
  induction bytes using digits.induct with
  | case1 a b c rest ih =>
    have ha := a.toNat_lt
    have hb := b.toNat_lt
    have hc := c.toNat_lt
    simp only [digits, List.forall_mem_cons]
    exact ⟨by omega, by omega, by omega, by omega, ih⟩
  | case2 a b =>
    have ha := a.toNat_lt
    have hb := b.toNat_lt
    simp only [digits, List.forall_mem_cons]
    exact ⟨by omega, by omega, by omega, nofun⟩
  | case3 a =>
    have ha := a.toNat_lt
    simp only [digits, List.forall_mem_cons]
    exact ⟨by omega, by omega, nofun⟩
  | case4 => exact nofun

theorem length_digits (bytes : Bytes) : (digits bytes).length = (bytes.length * 4 + 2) / 3 := by
  induction bytes using digits.induct with
  | case1 a b c rest ih =>
    simp only [digits, List.length_cons, ih]
    omega
  | case2 a b => simp only [digits, List.length_cons, List.length_nil]
  | case3 a => simp only [digits, List.length_cons, List.length_nil]
  | case4 => rfl

theorem bytesOf_digits (bytes : Bytes) : bytesOf (digits bytes) = some bytes := by
  have hbyte : ∀ (a : UInt8) (n : Nat), n = a.toNat → UInt8.ofNat n = a := by
    rintro a n rfl
    exact UInt8.ofNat_toNat
  induction bytes using digits.induct with
  | case1 a b c rest ih =>
    have hb := b.toNat_lt
    have hc := c.toNat_lt
    rw [digits, bytesOf, ih, Option.map_some, hbyte a _ (by omega), hbyte b _ (by omega),
      hbyte c _ (by omega)]
  | case2 a b =>
    have hb := b.toNat_lt
    rw [digits, bytesOf, hbyte a _ (by omega), hbyte b _ (by omega)]
  | case3 a => rw [digits, bytesOf, hbyte a _ (by omega)]
  | case4 => rfl

theorem digit_spec {n : Nat} (h : n < 64) : digitValue (digit n) = some n ∧
    isSpace (digit n) = false ∧ digit n ≠ '=' ∧ urlChar (digit n) ≠ '=' ∧
      isUrlChar (urlChar (digit n)) = true ∧ standardChar (urlChar (digit n)) = digit n ∧
        (urlChar (digit n)).toNat < 128 := by
  revert n
  decide

section Spelling

variable {values : List Nat} (hvalues : ∀ n ∈ values, n < 64)

include hvalues

theorem mapM_digitValue : (values.map digit).mapM digitValue = some values := by
  induction values with
  | nil => rfl
  | cons n values ih =>
    rw [List.forall_mem_cons] at hvalues
    rw [List.map_cons, List.mapM_cons, (digit_spec hvalues.1).1, ih hvalues.2]
    rfl

theorem map_standardChar :
    ((values.map digit).map urlChar).map standardChar = values.map digit := by
  rw [List.map_map, List.map_map, List.map_inj_left]
  intro n hn
  exact (digit_spec (hvalues n hn)).2.2.2.2.2.1

theorem dropPadding_digits {padding : Nat} (hpadding : padding ≤ 2) :
    dropPadding (values.map digit ++ List.replicate padding '=') = values.map digit := by
  have hlast : ∀ rest, (values.map digit).reverse ≠ '=' :: rest := by
    intro rest heq
    have hmem : '=' ∈ (values.map digit).reverse := heq ▸ List.mem_cons_self
    obtain ⟨n, hn, hdigit⟩ := List.mem_map.mp (List.mem_reverse.mp hmem)
    exact (digit_spec (hvalues n hn)).2.2.1 hdigit
  unfold dropPadding
  rw [List.reverse_append, List.reverse_replicate]
  match padding, hpadding with
  | 0, _ =>
    rw [List.replicate_zero, List.nil_append, List.append_nil]
    split
    · exact absurd ‹_› (hlast _)
    · exact absurd ‹_› (hlast _)
    · rfl
  | 1, _ =>
    rw [List.replicate_one, List.singleton_append]
    split
    · exact absurd (List.cons.inj ‹_›).2 (hlast _)
    · rename_i heq
      rw [← (List.cons.inj heq).2, List.reverse_reverse]
    · rename_i hno
      exact absurd rfl (hno _)
  | 2, _ =>
    change (match '=' :: '=' :: (values.map digit).reverse with
      | '=' :: '=' :: rest => rest.reverse
      | '=' :: rest => rest.reverse
      | _ => values.map digit ++ List.replicate 2 '=') = _
    exact List.reverse_reverse _

end Spelling

theorem urlEncode_eq (bytes : Bytes) :
    urlEncode bytes = ((digits bytes).map digit).map urlChar := by
  have hpadding : ∀ n, (List.replicate n '=').map urlChar = List.replicate n '=' := by
    intro n
    rw [List.map_replicate]
    rfl
  unfold urlEncode btoa
  rw [List.map_append, hpadding]
  generalize (3 - bytes.length % 3) % 3 = padding
  induction padding with
  | zero =>
    rw [List.replicate_zero, List.append_nil, List.rdropWhile_eq_self_iff]
    intro hne heq
    have hmem := List.getLast_mem hne
    rw [of_decide_eq_true heq, List.map_map] at hmem
    obtain ⟨n, hn, hdigit⟩ := List.mem_map.mp hmem
    exact (digit_spec (digits_lt bytes n hn)).2.2.2.1 hdigit
  | succ padding ih =>
    rw [List.replicate_succ', ← List.append_assoc, List.rdropWhile_concat_pos _ _ _ rfl]
    exact ih

theorem length_urlEncode (bytes : Bytes) :
    (urlEncode bytes).length = (bytes.length * 4 + 2) / 3 := by
  rw [urlEncode_eq, List.length_map, List.length_map, length_digits]

theorem urlChar_of_mem {bytes : Bytes} {c : Char} (h : c ∈ urlEncode bytes) :
    isUrlChar c = true := by
  rw [urlEncode_eq, List.map_map] at h
  obtain ⟨n, hn, rfl⟩ := List.mem_map.mp h
  exact (digit_spec (digits_lt bytes n hn)).2.2.2.2.1

theorem urlDecode_urlEncode (bytes : Bytes) : urlDecode (urlEncode bytes) = some bytes := by
  have hlt := digits_lt bytes
  have hlength := length_urlEncode bytes
  unfold urlDecode
  rw [hlength, urlEncode_eq, map_standardChar hlt]
  obtain ⟨padding, hpadding⟩ : ∃ padding, padding = (4 - (bytes.length * 4 + 2) / 3 % 4) % 4 :=
    ⟨_, rfl⟩
  rw [← hpadding]
  unfold atob
  have hspaces : ((digits bytes).map digit ++ List.replicate padding '=').filter (!isSpace ·) =
      (digits bytes).map digit ++ List.replicate padding '=' := by
    rw [List.filter_eq_self]
    intro c hc
    rcases List.mem_append.mp hc with hdigit | hpad
    · obtain ⟨n, hn, rfl⟩ := List.mem_map.mp hdigit
      rw [(digit_spec (hlt n hn)).2.1]
      rfl
    · rw [List.eq_of_mem_replicate hpad]
      rfl
  have hpadded : ((digits bytes).map digit ++ List.replicate padding '=').length % 4 = 0 := by
    rw [List.length_append, List.length_map, List.length_replicate, length_digits]
    omega
  have hwhole : ¬ ((digits bytes).map digit).length % 4 = 1 := by
    rw [List.length_map, length_digits]
    omega
  rw [hspaces]
  dsimp only
  rw [if_pos hpadded, dropPadding_digits hlt (by omega), if_neg hwhole, mapM_digitValue hlt,
    Option.bind_some, bytesOf_digits]

end Harness.Foundation.Base64
