import Harness.Foundation.Utf8
import Mathlib.Order.Bounds.Basic

namespace Harness.Foundation.Utf8

/-- `10xxxxxx`. -/
def isContinuation (byte : UInt8) : Bool := byte &&& 0xC0 == 0x80

def announcedLength (lead : UInt8) : Nat :=
  if lead < 0x80 then 1 else if lead < 0xE0 then 2 else if lead < 0xF0 then 3
  else if lead < 0xF8 then 4 else 0

theorem isContinuation_ofNat :
    ∀ n : Fin 256, isContinuation (UInt8.ofNat n) = decide (128 ≤ n.val ∧ n.val < 192) := by
  decide +kernel

theorem announcedLength_ofNat (n : Fin 256) :
    announcedLength (UInt8.ofNat n) = if n.val < 128 then 1 else if n.val < 224 then 2
      else if n.val < 240 then 3 else if n.val < 248 then 4 else 0 := by
  revert n
  decide +kernel

structure CharBytes (bytes : Bytes) (first : UInt8) (following : Bytes) : Prop where
  bytes_eq : bytes = first :: following
  lead : isContinuation first = false
  continuations : ∀ byte ∈ following, isContinuation byte = true
  announced : announcedLength first = following.length + 1
  short : following.length ≤ 3

theorem isContinuation_low {n : Nat} (h : n < 64) :
    isContinuation (UInt8.ofNat (n + 128)) = true := by
  rw [isContinuation_ofNat ⟨n + 128, by omega⟩]
  simp only [decide_eq_true_eq]
  omega

theorem CharBytes.ofNat {n : Nat} {following : Bytes} (hbyte : n < 256)
    (hlead : ¬(128 ≤ n ∧ n < 192))
    (hcontinuations : ∀ byte ∈ following, isContinuation byte = true)
    (hlength : (if n < 128 then 1 else if n < 224 then 2 else if n < 240 then 3
      else if n < 248 then 4 else 0) = following.length + 1) (hshort : following.length ≤ 3) :
    CharBytes (UInt8.ofNat n :: following) (UInt8.ofNat n) following where
  bytes_eq := rfl
  lead := by
    rw [isContinuation_ofNat ⟨n, hbyte⟩]
    exact decide_eq_false hlead
  continuations := hcontinuations
  announced := by
    rw [announcedLength_ofNat ⟨n, hbyte⟩]
    exact hlength
  short := hshort

theorem utf8EncodeChar_charBytes (c : Char) :
    ∃ first following, CharBytes (String.utf8EncodeChar c) first following := by
  have hvalid : c.val.toNat < 1114112 := by
    rcases c.valid with hlow | ⟨-, hhigh⟩
    · exact hlow.trans (by decide)
    · exact hhigh
  have hlow : ∀ n : Nat, isContinuation (UInt8.ofNat (n % 64 + 128)) = true :=
    fun n => isContinuation_low (Nat.mod_lt _ (by decide))
  unfold String.utf8EncodeChar
  dsimp only
  split
  · exact ⟨_, _, .ofNat (by omega) (by omega) nofun (by rw [if_pos (by omega)]; rfl) (by decide)⟩
  · split
    · refine ⟨_, _, .ofNat (by omega) (by omega) ?_ ?_ ?_⟩
      · simp only [List.forall_mem_cons, hlow, true_and, List.not_mem_nil, false_imp_iff,
          implies_true]
      · rw [if_neg (by omega), if_pos (by omega)]
        rfl
      · simp
    · split
      · refine ⟨_, _, .ofNat (by omega) (by omega) ?_ ?_ ?_⟩
        · simp only [List.forall_mem_cons, hlow, true_and, List.not_mem_nil, false_imp_iff,
          implies_true]
        · rw [if_neg (by omega), if_neg (by omega), if_pos (by omega)]
          rfl
        · simp
      · refine ⟨_, _, .ofNat (by omega) (by omega) ?_ ?_ ?_⟩
        · simp only [List.forall_mem_cons, hlow, true_and, List.not_mem_nil, false_imp_iff,
          implies_true]
        · rw [if_neg (by omega), if_neg (by omega), if_neg (by omega), if_pos (by omega)]
          rfl
        · simp

/-- A cut anywhere in a text: some characters, and the first bytes of the next one. -/
structure Cut (chars : List Char) (size : Nat) (front back : List Char) (inside : Nat) : Prop where
  chars_eq : chars = front ++ back
  size_eq : size = (encodeChars front).length + inside
  within : ∀ c rest, back = c :: rest → inside < (String.utf8EncodeChar c).length
  ended : back = [] → inside = 0

theorem encodeChars_append (front back : List Char) :
    encodeChars (front ++ back) = encodeChars front ++ encodeChars back := by
  unfold encodeChars
  rw [List.flatMap_append]

theorem encodeChars_cons (c : Char) (chars : List Char) :
    encodeChars (c :: chars) = String.utf8EncodeChar c ++ encodeChars chars := by
  unfold encodeChars
  rw [List.flatMap_cons]

theorem exists_cut {chars : List Char} {size : Nat} (h : size ≤ (encodeChars chars).length) :
    ∃ front back inside, Cut chars size front back inside := by
  induction chars generalizing size with
  | nil =>
    refine ⟨[], [], 0, rfl, ?_, nofun, fun _ => rfl⟩
    exact Nat.le_zero.mp h
  | cons c chars ih =>
    rw [encodeChars_cons, List.length_append] at h
    by_cases hinside : size < (String.utf8EncodeChar c).length
    · refine ⟨[], c :: chars, size, rfl, (Nat.zero_add size).symm, ?_, nofun⟩
      intro first rest heq
      rw [← (List.cons.inj heq).1]
      exact hinside
    · have hsize : size - (String.utf8EncodeChar c).length ≤ (encodeChars chars).length := by omega
      obtain ⟨front, back, inside, hcut⟩ := ih hsize
      refine ⟨c :: front, back, inside, congrArg _ hcut.chars_eq, ?_, hcut.within, hcut.ended⟩
      have hcutSize := hcut.size_eq
      rw [encodeChars_cons, List.length_append]
      omega

variable {chars front back : List Char} {size inside : Nat}

theorem Cut.length_back (h : Cut chars size front back inside) :
    (encodeChars chars).length = (encodeChars front).length + (encodeChars back).length := by
  rw [h.chars_eq, encodeChars_append, List.length_append]

theorem Cut.take (h : Cut chars size front back inside) :
    (encodeChars chars).take size = encodeChars front ++ (encodeChars back).take inside := by
  rw [h.chars_eq, encodeChars_append, h.size_eq, List.take_length_add_append]

theorem Cut.drop (h : Cut chars size front back inside) :
    (encodeChars chars).drop size = (encodeChars back).drop inside := by
  rw [h.chars_eq, encodeChars_append, h.size_eq, List.drop_length_add_append]

theorem Cut.inside_char (h : Cut chars size front back inside) (hinside : 0 < inside) :
    ∃ c rest first following, back = c :: rest ∧
      CharBytes (String.utf8EncodeChar c) first following ∧ inside ≤ following.length := by
  cases hback : back with
  | nil => exact absurd (h.ended hback) (Nat.ne_of_gt hinside)
  | cons c rest =>
    obtain ⟨first, following, hbytes⟩ := utf8EncodeChar_charBytes c
    have hlt := h.within c rest hback
    rw [hbytes.bytes_eq, List.length_cons] at hlt
    exact ⟨c, rest, first, following, rfl, hbytes, Nat.le_of_lt_succ hlt⟩

theorem encodeChars_dropWhile (chars : List Char) :
    (encodeChars chars).dropWhile isContinuation = encodeChars chars := by
  cases chars with
  | nil => rfl
  | cons c chars =>
    obtain ⟨first, following, hbytes⟩ := utf8EncodeChar_charBytes c
    rw [encodeChars_cons, hbytes.bytes_eq, List.cons_append,
      List.dropWhile_cons_of_neg (by rw [hbytes.lead]; exact Bool.false_ne_true)]

theorem length_take_add_drop (chars : List Char) (count : Nat) :
    (encodeChars (chars.take count)).length + (encodeChars (chars.drop count)).length =
      (encodeChars chars).length := by
  rw [← List.length_append, ← encodeChars_append, List.take_append_drop]

theorem length_take_mono (chars : List Char) {count more : Nat} (h : count ≤ more) :
    (encodeChars (chars.take count)).length ≤ (encodeChars (chars.take more)).length := by
  have htake := length_take_add_drop (chars.take more) count
  rw [List.take_take, Nat.min_eq_left h] at htake
  omega

theorem length_take_strictMono (chars : List Char) {count more : Nat} (h : count < more)
    (hcount : count < chars.length) :
    (encodeChars (chars.take count)).length < (encodeChars (chars.take more)).length := by
  apply Nat.lt_of_lt_of_le _ (length_take_mono chars (Nat.succ_le_of_lt h))
  obtain ⟨first, following, hbytes⟩ := utf8EncodeChar_charBytes chars[count]
  rw [← List.take_concat_get' chars count hcount, encodeChars_append, List.length_append,
    encodeChars_cons, hbytes.bytes_eq]
  simp only [List.length_append, List.length_cons]
  omega

theorem Cut.take_front (h : Cut chars size front back inside) :
    chars.take front.length = front := by
  rw [h.chars_eq, List.take_left]

theorem Cut.greatest (h : Cut chars size front back inside)
    (hsize : size < (encodeChars chars).length) :
    IsGreatest {count | (encodeChars (chars.take count)).length ≤ size} front.length := by
  have hsizeEq := h.size_eq
  constructor
  · change (encodeChars (chars.take front.length)).length ≤ size
    rw [h.take_front]
    omega
  · intro count hcount
    by_contra hlonger
    have hback : back ≠ [] := by
      intro hnil
      have hlength := h.length_back
      rw [hnil] at hlength
      have hended := h.ended hnil
      change (encodeChars chars).length = (encodeChars front).length + 0 at hlength
      omega
    obtain ⟨c, rest, rfl⟩ := List.exists_cons_of_ne_nil hback
    have hnext : (encodeChars (chars.take (front.length + 1))).length ≤ size :=
      (length_take_mono chars (by omega)).trans hcount
    have htake : chars.take (front.length + 1) = front ++ [c] := by
      rw [h.chars_eq, List.take_length_add_append, List.take_one, List.head?_cons,
        Option.toList_some]
    rw [htake, encodeChars_append, List.length_append, encodeChars_cons,
      List.length_append] at hnext
    have hwithin := h.within c rest rfl
    omega

theorem Cut.drop_least (h : Cut chars size front back inside) :
    chars.drop (front.length + if inside = 0 then 0 else 1) =
      if inside = 0 then back else back.tail := by
  rw [h.chars_eq, List.drop_length_add_append]
  split
  · rfl
  · exact List.drop_one

theorem Cut.least (h : Cut chars size front back inside) :
    IsLeast {count | size ≤ (encodeChars (chars.take count)).length}
      (front.length + if inside = 0 then 0 else 1) := by
  have hsizeEq := h.size_eq
  rcases Nat.eq_zero_or_pos inside with rfl | hpos
  · rw [if_pos rfl, Nat.add_zero]
    constructor
    · change size ≤ (encodeChars (chars.take front.length)).length
      rw [h.take_front]
      omega
    · intro count hcount
      by_contra hshorter
      have hlt := length_take_strictMono chars (Nat.lt_of_not_le hshorter) (by
        rw [h.chars_eq, List.length_append]
        omega)
      rw [h.take_front] at hlt
      exact absurd hcount (by change ¬size ≤ _; omega)
  · obtain ⟨c, rest, first, following, rfl, hbytes, hinside⟩ := h.inside_char hpos
    rw [if_neg (Nat.ne_of_gt hpos)]
    have htake : chars.take (front.length + 1) = front ++ [c] := by
      rw [h.chars_eq, List.take_length_add_append, List.take_one, List.head?_cons,
        Option.toList_some]
    constructor
    · change size ≤ (encodeChars (chars.take (front.length + 1))).length
      have hwithin := h.within c rest rfl
      rw [htake, encodeChars_append, List.length_append, encodeChars_cons, List.length_append]
      omega
    · intro count hcount
      by_contra hshorter
      have hle := length_take_mono chars (Nat.le_of_lt_succ (Nat.lt_of_not_le hshorter))
      rw [h.take_front] at hle
      exact absurd hcount (by change ¬size ≤ _; omega)

def dropMark : List Char → List Char
  | '\uFEFF' :: chars => chars
  | chars => chars

theorem dropMark_cons {c : Char} {chars : List Char} (h : c ≠ '\uFEFF') :
    dropMark (c :: chars) = c :: chars := by
  unfold dropMark
  split
  · rename_i heq
    exact absurd (List.cons.inj heq).1 h
  · rfl

theorem encode_mark : String.utf8EncodeChar '\uFEFF' = [0xEF, 0xBB, 0xBF] := by decide

theorem stripBom_encodeChars (chars : List Char) :
    stripBom (encodeChars chars) = encodeChars (dropMark chars) := by
  cases chars with
  | nil => rfl
  | cons c chars =>
    by_cases hmark : c = '\uFEFF'
    · subst hmark
      rw [encodeChars_cons, encode_mark]
      rfl
    · rw [dropMark_cons hmark]
      unfold stripBom
      split
      · rename_i rest heq
        have hbytes : String.utf8EncodeChar c ++ encodeChars chars =
            String.utf8EncodeChar '\uFEFF' ++ rest := by
          rw [← encodeChars_cons, heq, encode_mark]
          rfl
        have hfirst := congrArg (fun bytes => bytes.toByteArray.utf8DecodeChar? 0) hbytes
        simp only [List.toByteArray_append,
          ByteArray.utf8DecodeChar?_utf8EncodeChar_append] at hfirst
        exact absurd (Option.some.inj hfirst) hmark
      · rfl

end Harness.Foundation.Utf8
