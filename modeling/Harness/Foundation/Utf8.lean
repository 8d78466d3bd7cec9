import Harness.Foundation.JsonText

namespace Harness.Foundation

abbrev Bytes := List UInt8

def newline : UInt8 := 10

namespace Utf8

def encodeChars (chars : List Char) : Bytes := chars.flatMap String.utf8EncodeChar

def encode (s : String) : Bytes := encodeChars s.toList

def byteLength (s : String) : Nat := (encode s).length

def decode (bytes : Bytes) : Option String :=
  bytes.toByteArray.utf8Decode?.map fun chars => String.ofList chars.toList

theorem decode_encode (s : String) : decode (encode s) = some s := by
  have hdecode : (encode s).toByteArray.utf8Decode? = some s.toList.toArray :=
    List.utf8Decode?_utf8Encode
  rw [decode, hdecode]
  simp

/-- A sequence half read: how many bytes are missing, the bounds of the next one, and its bits. -/
structure Pending where
  needed : Nat
  lower : Nat
  upper : Nat
  codePoint : Nat

def replacement : Char := Char.ofNat 0xFFFD

def lead (byte : Nat) : List Char × Option Pending :=
  if byte < 0x80 then ([Char.ofNat byte], none)
  else if 0xC2 ≤ byte ∧ byte ≤ 0xDF then
    ([], some { needed := 1, lower := 0x80, upper := 0xBF, codePoint := byte % 32 })
  else if 0xE0 ≤ byte ∧ byte ≤ 0xEF then
    ([], some { needed := 2, lower := if byte = 0xE0 then 0xA0 else 0x80
                upper := if byte = 0xED then 0x9F else 0xBF, codePoint := byte % 16 })
  else if 0xF0 ≤ byte ∧ byte ≤ 0xF4 then
    ([], some { needed := 3, lower := if byte = 0xF0 then 0x90 else 0x80
                upper := if byte = 0xF4 then 0x8F else 0xBF, codePoint := byte % 8 })
  else ([replacement], none)

def decodeLossy : Option Pending → Bytes → List Char
  | none, [] => []
  | some _, [] => [replacement]
  | none, byte :: rest => (lead byte.toNat).1 ++ decodeLossy (lead byte.toNat).2 rest
  | some pending, byte :: rest =>
    if pending.lower ≤ byte.toNat ∧ byte.toNat ≤ pending.upper then
      let codePoint := pending.codePoint * 64 + byte.toNat % 64
      if pending.needed = 1 then Char.ofNat codePoint :: decodeLossy none rest
      else decodeLossy
        (some { needed := pending.needed - 1, lower := 0x80, upper := 0xBF, codePoint }) rest
    else replacement :: ((lead byte.toNat).1 ++ decodeLossy (lead byte.toNat).2 rest)

def toText (bytes : Bytes) : String :=
  (decode bytes).getD (String.ofList (decodeLossy none bytes))

@[simp] theorem toText_encode (s : String) : toText (encode s) = s := by
  rw [toText, decode_encode]
  rfl

theorem encode_append (s t : String) : encode (s ++ t) = encode s ++ encode t := by
  simp [encode, encodeChars]

theorem mem_utf8EncodeChar {c : Char} {byte : UInt8} (h : byte ∈ String.utf8EncodeChar c)
    (hbyte : byte.toNat < 128) : c.toNat = byte.toNat := by
  have hval : c.val.toNat = c.toNat := rfl
  unfold String.utf8EncodeChar at h
  simp only at h
  split at h
  · rw [List.mem_singleton.mp h, UInt8.toNat_ofNat'] at *
    omega
  · split at h
    · simp only [List.mem_cons, List.not_mem_nil, or_false] at h
      rcases h with rfl | rfl <;> (rw [UInt8.toNat_ofNat'] at hbyte; omega)
    · split at h
      · simp only [List.mem_cons, List.not_mem_nil, or_false] at h
        rcases h with rfl | rfl | rfl <;> (rw [UInt8.toNat_ofNat'] at hbyte; omega)
      · simp only [List.mem_cons, List.not_mem_nil, or_false] at h
        rcases h with rfl | rfl | rfl | rfl <;> (rw [UInt8.toNat_ofNat'] at hbyte; omega)

theorem newline_not_mem_encode {s : String} (h : ∀ c ∈ s.toList, 32 ≤ c.toNat) :
    newline ∉ encode s := by
  intro hmem
  obtain ⟨c, hc, hbyte⟩ := List.mem_flatMap.mp hmem
  have hnewline : newline.toNat = 10 := rfl
  have := h c hc
  have := mem_utf8EncodeChar hbyte (by rw [hnewline]; decide)
  omega

theorem newline_not_mem_stringify (value : Json) : newline ∉ encode value.stringify :=
  newline_not_mem_encode value.stringify_printable

def stripBom : Bytes → Bytes
  | 0xEF :: 0xBB :: 0xBF :: rest => rest
  | bytes => bytes

theorem utf8EncodeChar_ascii {c : Char} (h : c.toNat < 128) :
    String.utf8EncodeChar c = [UInt8.ofNat c.toNat] := by
  have hval : c.val.toNat = c.toNat := rfl
  unfold String.utf8EncodeChar
  simp only
  rw [if_pos (by omega), hval]

theorem length_encodeChars {chars : List Char} (h : ∀ c ∈ chars, c.toNat < 128) :
    (encodeChars chars).length = chars.length := by
  induction chars with
  | nil => rfl
  | cons c chars ih =>
    rw [List.forall_mem_cons] at h
    unfold encodeChars at ih ⊢
    rw [List.flatMap_cons, utf8EncodeChar_ascii h.1, List.singleton_append, List.length_cons,
      List.length_cons, ih h.2]

theorem stripBom_encode {s : String} (h : ∀ c ∈ s.toList.head?, c.toNat < 128) :
    stripBom (encode s) = encode s := by
  unfold encode encodeChars
  cases hchars : s.toList with
  | nil => rfl
  | cons c chars =>
    have hc := h c (by simp [hchars])
    rw [List.flatMap_cons, utf8EncodeChar_ascii hc, List.singleton_append]
    unfold stripBom
    split
    · rename_i heq
      have hbyte := congrArg UInt8.toNat (List.cons.inj heq).1
      rw [UInt8.toNat_ofNat'] at hbyte
      have : (239 : UInt8).toNat = 239 := rfl
      omega
    · rfl

end Utf8

end Harness.Foundation
