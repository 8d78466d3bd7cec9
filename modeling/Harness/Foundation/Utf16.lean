import Mathlib.Data.List.Basic

namespace Harness.Foundation

abbrev Units := List UInt16

namespace Utf16

def isHigh (unit : UInt16) : Bool := 0xD800 ≤ unit && unit ≤ 0xDBFF

def isLow (unit : UInt16) : Bool := 0xDC00 ≤ unit && unit ≤ 0xDFFF

def encodeChar (c : Char) : Units :=
  if c.toNat < 0x10000 then [UInt16.ofNat c.toNat]
  else [UInt16.ofNat (0xD800 + (c.toNat - 0x10000) / 1024),
    UInt16.ofNat (0xDC00 + (c.toNat - 0x10000) % 1024)]

def encode (text : String) : Units := text.toList.flatMap encodeChar

def unitBytes (afterHigh : Bool) (unit : UInt16) : Nat :=
  if unit < 0x80 then 1 else if unit < 0x800 then 2
  else if isLow unit && afterHigh then 1 else 3

def byteLengthAfter : Bool → Units → Nat
  | _, [] => 0
  | afterHigh, unit :: rest => unitBytes afterHigh unit + byteLengthAfter (isHigh unit) rest

def byteLength (text : Units) : Nat := byteLengthAfter false text

theorem byteLengthAfter_append_le (afterHigh : Bool) (front back : Units) :
    byteLengthAfter afterHigh front ≤ byteLengthAfter afterHigh (front ++ back) := by
  induction front generalizing afterHigh with
  | nil => exact Nat.zero_le _
  | cons unit front ih => exact Nat.add_le_add_left (ih (isHigh unit)) _

theorem byteLength_append_le (front back : Units) : byteLength front ≤ byteLength (front ++ back) :=
  byteLengthAfter_append_le false front back

def slice : Nat → List Char → List Char
  | _, [] => []
  | size, c :: rest =>
    if (encodeChar c).length ≤ size then c :: slice (size - (encodeChar c).length) rest else []

theorem slice_prefix (size : Nat) (text : List Char) : slice size text <+: text := by
  induction text generalizing size with
  | nil => exact List.prefix_rfl
  | cons c rest ih =>
    unfold slice
    split
    · exact (List.prefix_cons_inj c).mpr (ih _)
    · exact List.nil_prefix

end Utf16

end Harness.Foundation
