import Harness.Sqlite.Compression

namespace Harness.Sqlite

open Harness.Foundation

theorem toNat_ofNat_lt {n : Nat} (h : n < 256) : (UInt8.ofNat n).toNat = n := by
  rw [UInt8.toNat_ofNat']
  omega

theorem or_shiftLeft {acc n shift : Nat} (h : acc < 2 ^ shift) :
    acc ||| n <<< shift = acc + n * 2 ^ shift := by
  rw [Nat.or_comm, ← Nat.shiftLeft_add_eq_or_of_lt h, Nat.shiftLeft_eq, Nat.add_comm]

theorem readVarint_appendVarint {limit : Nat} (hlimit : limit ≤ 2 ^ 56) (value : Nat)
    {acc shift : Nat} (hacc : acc < 2 ^ shift) (hle : acc + value * 2 ^ shift ≤ limit)
    (hcanonical : 0 < shift → 0 < value) (rest : Bytes) :
    readVarint limit acc shift (appendVarint value ++ rest) =
      .ok (acc + value * 2 ^ shift, rest) := by
  induction value using Nat.strongRecOn generalizing acc shift with
  | _ value ih =>
    rw [appendVarint]
    split
    · rename_i hlt
      have hbyte := toNat_ofNat_lt (show value < 256 by omega)
      rw [List.singleton_append, readVarint]
      simp only [hbyte, Nat.mod_eq_of_lt hlt, or_shiftLeft hacc]
      rw [if_pos hlt, if_neg, if_neg (by omega)]
      rintro ⟨hshift, hzero⟩
      have := hcanonical hshift
      omega
    · rename_i hge
      have hbyte := toNat_ofNat_lt (show value % 128 + 128 < 256 by omega)
      have hmod : (value % 128 + 128) % 128 = value % 128 := by omega
      have hsplit : value * 2 ^ shift = value % 128 * 2 ^ shift + value / 128 * 2 ^ (shift + 7) := by
        rw [pow_add]
        have := Nat.div_add_mod value 128
        calc value * 2 ^ shift = (128 * (value / 128) + value % 128) * 2 ^ shift := by rw [this]
          _ = value % 128 * 2 ^ shift + value / 128 * (2 ^ shift * 2 ^ 7) := by ring
      have hnext : acc + value % 128 * 2 ^ shift < 2 ^ (shift + 7) := by
        have : value % 128 * 2 ^ shift ≤ 127 * 2 ^ shift :=
          Nat.mul_le_mul_right _ (by omega)
        rw [pow_add]
        omega
      have hshift : shift + 7 ≤ 56 := by
        by_contra hlarge
        have hpow : 2 ^ 57 ≤ 2 ^ (shift + 7) := Nat.pow_le_pow_right (by decide) (by omega)
        have hone : 1 * 2 ^ (shift + 7) ≤ value / 128 * 2 ^ (shift + 7) :=
          Nat.mul_le_mul_right _ (by omega)
        omega
      rw [List.cons_append, readVarint]
      simp only [hbyte, hmod, or_shiftLeft hacc]
      rw [if_neg (by omega), if_neg (by omega),
        ih (value / 128) (by omega) hnext (by omega) (fun _ => by omega)]
      rw [hsplit, Nat.add_assoc]

theorem appendVarint_ne_nil (value : Nat) : ∃ byte rest, appendVarint value = byte :: rest := by
  rw [appendVarint]
  split
  · exact ⟨_, _, rfl⟩
  · exact ⟨_, _, rfl⟩

theorem seqAfter_seqDelta (previous : Option Nat) (value : Nat) :
    seqAfter previous (seqDelta previous value) = value := by
  cases previous with
  | none => rfl
  | some previous =>
    simp only [seqAfter, seqDelta]
    split <;> split <;> omega

def seqLimit : Option Nat → Nat
  | none => 9007199254740991
  | some _ => maxZigzagInteger

theorem seqDelta_le {previous : Option Nat} {value : Nat}
    (hprevious : ∀ seq ∈ previous, seq ≤ 9007199254740991) (hvalue : value ≤ 9007199254740991) :
    seqDelta previous value ≤ seqLimit previous := by
  cases previous with
  | none => exact hvalue
  | some previous =>
    have := hprevious previous rfl
    simp only [seqDelta, seqLimit, maxZigzagInteger]
    split <;> omega

theorem safeNat_le {n : Nat} (h : isSafe n = true) : n ≤ 9007199254740991 := by
  have := isSafe_iff.mp h
  omega

theorem decodeSeqs_read {fuel : Nat} {previous : Option Nat} {bytes rest : Bytes} {decoded : Nat}
    (hne : bytes ≠ []) (hread : readVarint (seqLimit previous) 0 0 bytes = .ok (decoded, rest)) :
    decodeSeqs (fuel + 1) previous bytes =
      (require (decide (0 ≤ seqAfter previous decoded)
          && decide (seqAfter previous decoded ≤ maxSafeInteger))
        (malformedSeqs "decoded seq is out of range") >>= fun _ =>
      decodeSeqs fuel (some (seqAfter previous decoded).toNat) rest >>= fun values =>
        .ok ((seqAfter previous decoded).toNat :: values)) := by
  cases bytes with
  | nil => exact absurd rfl hne
  | cons byte tail =>
    cases previous with
    | none =>
      simp only [seqLimit] at hread
      simp only [decodeSeqs, hread, ok_bind]
      rfl
    | some previous =>
      simp only [seqLimit] at hread
      simp only [decodeSeqs, hread, ok_bind]
      rfl

theorem decodeSeqs_encodeSeqs {items : List Json} {previous : Option Nat} {bytes : Bytes}
    (hprevious : ∀ seq ∈ previous, seq ≤ 9007199254740991)
    (h : encodeSeqs previous items = .ok bytes) {fuel : Nat} (hfuel : bytes.length ≤ fuel) :
    ∃ seqs : List Nat, items = seqs.map Json.nat ∧ decodeSeqs fuel previous bytes = .ok seqs := by
  induction items generalizing previous bytes fuel with
  | nil =>
    obtain rfl : [] = bytes := by simpa [encodeSeqs] using h
    exact ⟨[], rfl, by cases fuel <;> rfl⟩
  | cons item items ih =>
    rw [encodeSeqs] at h
    obtain ⟨value, hvalue, hencode⟩ := bind_eq_ok.mp h
    obtain ⟨rest, hrest, hbytes⟩ := bind_eq_ok.mp hencode
    obtain ⟨rfl, hsafe⟩ := Json.safeNat?_eq_some.mp (expect_eq_ok.mp hvalue)
    have hle := safeNat_le hsafe
    obtain rfl : appendVarint (seqDelta previous value) ++ rest = bytes := by simpa using hbytes
    obtain ⟨byte, tail, hvarint⟩ := appendVarint_ne_nil (seqDelta previous value)
    cases fuel with
    | zero => simp [hvarint] at hfuel
    | succ fuel =>
      obtain ⟨seqs, rfl, hseqs⟩ := @ih (some value) rest (by simpa using hle) hrest fuel (by
        simp only [hvarint, List.length_append, List.length_cons] at hfuel
        omega)
      refine ⟨value :: seqs, rfl, ?_⟩
      have hlimit : seqLimit previous ≤ 2 ^ 56 := by
        cases previous <;> simp only [seqLimit, maxZigzagInteger] <;> omega
      have hdelta := seqDelta_le hprevious hle
      have hread := @readVarint_appendVarint _ hlimit (seqDelta previous value) 0 0 (by decide)
        (by simpa using hdelta) (by simp) rest
      simp only [Nat.zero_add, pow_zero, Nat.mul_one] at hread
      have hrange :
          (decide (0 ≤ (value : Int)) && decide ((value : Int) ≤ maxSafeInteger)) = true := by
        rw [Bool.and_eq_true, decide_eq_true_iff, decide_eq_true_iff]
        exact ⟨Int.natCast_nonneg value, by unfold maxSafeInteger; omega⟩
      have hne : appendVarint (seqDelta previous value) ++ rest ≠ [] := by simp [hvarint]
      rw [decodeSeqs_read hne hread]
      simp only [ok_bind, seqAfter_seqDelta, hrange, require_true, Int.toNat_natCast, hseqs]

theorem decodeSourceEventSeqs_encode {items : List Json} {bytes : Bytes}
    (h : encodeSourceEventSeqs items = .ok bytes) :
    ∃ seqs : List Nat, items = seqs.map Json.nat ∧ decodeSourceEventSeqs bytes = .ok seqs :=
  decodeSeqs_encodeSeqs (by simp) h (le_refl _)

end Harness.Sqlite
