import Harness.Sqlite.SourceSeqs

namespace Harness.Sqlite

open Harness.Foundation

section Varint

variable {limit acc shift value : Nat} {bytes rest : Bytes}

theorem appendVarint_split {byte : UInt8} (h : 128 ≤ byte.toNat) {n : Nat} (hn : 0 < n) :
    appendVarint (byte.toNat % 128 + 128 * n) = byte :: appendVarint n := by
  have hlt := byte.toNat_lt
  rw [appendVarint, if_neg (by omega)]
  congr 1
  · apply UInt8.toNat_inj.mp
    rw [UInt8.toNat_ofNat']
    omega
  · congr 1
    omega

theorem readVarint_eq_ok (hacc : acc < 2 ^ shift)
    (h : readVarint limit acc shift bytes = .ok (value, rest)) :
    ∃ n, value = acc + n * 2 ^ shift ∧ bytes = appendVarint n ++ rest ∧
      (0 < shift → 0 < n) ∧ value ≤ limit := by
  induction bytes generalizing acc shift with
  | nil => cases h
  | cons byte bytes ih =>
    rw [readVarint] at h
    simp only [or_shiftLeft hacc] at h
    by_cases hlast : byte.toNat < 128
    · rw [if_pos hlast] at h
      split at h
      · cases h
      · rename_i hcanonical
        split at h
        · cases h
        · rename_i hle
          cases h
          refine ⟨byte.toNat, ?_, ?_, ?_, Nat.le_of_not_lt hle⟩
          · rw [Nat.mod_eq_of_lt hlast]
          · rw [appendVarint, if_pos hlast, UInt8.ofNat_toNat]
            rfl
          · intro hshift
            rw [Nat.mod_eq_of_lt hlast] at hcanonical
            omega
    · rw [if_neg hlast] at h
      split at h
      · cases h
      · have hpow : 2 ^ (shift + 7) = 128 * 2 ^ shift := by
          rw [Nat.pow_add, Nat.mul_comm]
        have hnext : acc + byte.toNat % 128 * 2 ^ shift < 2 ^ (shift + 7) := by
          have hdigit : byte.toNat % 128 * 2 ^ shift ≤ 127 * 2 ^ shift :=
            Nat.mul_le_mul_right _ (by omega)
          omega
        obtain ⟨n, rfl, rfl, hpositive, hle⟩ := ih hnext h
        refine ⟨byte.toNat % 128 + 128 * n, ?_, ?_, ?_, hle⟩
        · rw [hpow, Nat.add_mul, Nat.add_assoc, ← Nat.mul_assoc, Nat.mul_comm n 128]
        · rw [appendVarint_split (Nat.le_of_not_lt hlast) (hpositive (Nat.succ_pos _))]
          rfl
        · have := hpositive (Nat.succ_pos _)
          omega

def Continues (group : Bytes) : Prop := ∀ byte ∈ group, 128 ≤ byte.toNat

theorem readVarint_continues (limit acc : Nat) (rest : Bytes) {group : Bytes}
    (h : Continues group) (hshift : shift ≤ 56) :
    (∃ message, readVarint limit acc shift (group ++ rest) = .error message) ∨
      shift + 7 * group.length ≤ 56 ∧ ∃ acc', readVarint limit acc shift (group ++ rest) =
        readVarint limit acc' (shift + 7 * group.length) rest := by
  induction group generalizing acc shift with
  | nil => exact .inr ⟨hshift, acc, rfl⟩
  | cons byte group ih =>
    have hbyte : ¬byte.toNat < 128 := Nat.not_lt_of_le (h byte List.mem_cons_self)
    rw [List.cons_append, readVarint]
    simp only [if_neg hbyte]
    by_cases hlong : 56 < shift + 7
    · rw [if_pos hlong]
      exact .inl ⟨_, rfl⟩
    · rw [if_neg hlong]
      have hrest := @ih (shift + 7) (acc ||| (byte.toNat % 128) <<< shift)
        (fun other hother => h other (List.mem_cons_of_mem _ hother)) (Nat.le_of_not_lt hlong)
      rw [Nat.add_assoc, Nat.add_comm 7, ← Nat.mul_succ] at hrest
      exact hrest

theorem readVarint_truncated {group : Bytes} (h : Continues group) :
    ∃ message, readVarint limit 0 0 group = .error message := by
  rcases readVarint_continues limit 0 [] h (Nat.zero_le 56) with herror | ⟨_, acc', heq⟩
  · rwa [List.append_nil] at herror
  · rw [List.append_nil] at heq
    exact ⟨_, heq⟩

theorem readVarint_overlong {group : Bytes} (h : Continues group) (hlong : 9 ≤ group.length) :
    ∃ message, readVarint limit 0 0 (group ++ rest) = .error message := by
  rcases readVarint_continues limit 0 rest h (Nat.zero_le 56) with herror | ⟨hshort, _⟩
  · exact herror
  · omega

theorem readVarint_padded {group : Bytes} (h : Continues group) (hne : group ≠ []) :
    ∃ message, readVarint limit 0 0 (group ++ 0 :: rest) = .error message := by
  rcases readVarint_continues limit 0 (0 :: rest) h (Nat.zero_le 56) with herror | ⟨_, acc', heq⟩
  · exact herror
  · have hpositive : 0 < 0 + 7 * group.length := by
      have := List.length_pos_of_ne_nil hne
      omega
    refine ⟨malformedSeqs "non-canonical varint", ?_⟩
    rw [heq, readVarint]
    have hzero : 0 < 0 + 7 * group.length ∧ (0 : UInt8).toNat % 128 = 0 := ⟨hpositive, rfl⟩
    exact if_pos hzero

theorem appendVarint_small {n : Nat} (h : n < 128) : appendVarint n = [UInt8.ofNat n] := by
  rw [appendVarint, if_pos h]

theorem appendVarint_large {n : Nat} (h : ¬n < 128) :
    appendVarint n = UInt8.ofNat (n % 128 + 128) :: appendVarint (n / 128) := by
  rw [appendVarint, if_neg h]

theorem appendVarint_inj {m n : Nat} {others : Bytes}
    (h : appendVarint m ++ rest = appendVarint n ++ others) : m = n := by
  induction m using Nat.strongRecOn generalizing n with
  | _ m ih =>
    by_cases hm : m < 128 <;> by_cases hn : n < 128
    · rw [appendVarint_small hm, appendVarint_small hn] at h
      have hbyte := congrArg UInt8.toNat (List.cons.inj h).1
      rwa [toNat_ofNat_lt (by omega), toNat_ofNat_lt (by omega)] at hbyte
    · rw [appendVarint_small hm, appendVarint_large hn] at h
      have hbyte := congrArg UInt8.toNat (List.cons.inj h).1
      rw [toNat_ofNat_lt (by omega), toNat_ofNat_lt (by omega)] at hbyte
      omega
    · rw [appendVarint_large hm, appendVarint_small hn] at h
      have hbyte := congrArg UInt8.toNat (List.cons.inj h).1
      rw [toNat_ofNat_lt (by omega), toNat_ofNat_lt (by omega)] at hbyte
      omega
    · rw [appendVarint_large hm, appendVarint_large hn] at h
      have hbyte := congrArg UInt8.toNat (List.cons.inj h).1
      rw [toNat_ofNat_lt (by omega), toNat_ofNat_lt (by omega)] at hbyte
      have hrest := ih (m / 128) (by omega) (List.cons.inj h).2
      omega

theorem readVarint_large {n : Nat} (h : limit < n) :
    ∃ message, readVarint limit 0 0 (appendVarint n ++ rest) = .error message := by
  cases hread : readVarint limit 0 0 (appendVarint n ++ rest) with
  | error message => exact ⟨message, rfl⟩
  | ok result =>
    obtain ⟨m, hvalue, hbytes, _, hle⟩ := readVarint_eq_ok (by decide) hread
    have hsame := appendVarint_inj hbytes
    rw [Nat.zero_add, Nat.pow_zero, Nat.mul_one] at hvalue
    omega

theorem readVarint_append (more : Bytes)
    (h : readVarint limit acc shift bytes = .ok (value, rest)) :
    readVarint limit acc shift (bytes ++ more) = .ok (value, rest ++ more) := by
  induction bytes generalizing acc shift with
  | nil => cases h
  | cons byte bytes ih =>
    rw [List.cons_append]
    rw [readVarint] at h ⊢
    split at h
    · rename_i hlast
      rw [if_pos hlast]
      split at h
      · cases h
      · rename_i hcanonical
        rw [if_neg hcanonical]
        split at h
        · cases h
        · rename_i hle
          cases h
          rw [if_neg hle]
    · rename_i hlast
      rw [if_neg hlast]
      split at h
      · cases h
      · rename_i hlong
        rw [if_neg hlong]
        exact ih h

end Varint

section Seqs

variable {previous : Option Nat} {fuel : Nat} {bytes front more : Bytes} {seqs : List Nat}

theorem seqDelta_seqAfter {decoded : Nat} (h : 0 ≤ seqAfter previous decoded) :
    seqDelta previous (seqAfter previous decoded).toNat = decoded := by
  cases previous with
  | none => exact Int.toNat_natCast decoded
  | some previous =>
    simp only [seqAfter, seqDelta] at h ⊢
    split at h <;> split <;> split <;> omega

theorem decodeSeqs_cons (hne : bytes ≠ []) :
    decodeSeqs (fuel + 1) previous bytes =
      readVarint (seqLimit previous) 0 0 bytes >>= fun (decoded, rest) =>
        require (decide (0 ≤ seqAfter previous decoded) &&
          decide (seqAfter previous decoded ≤ maxSafeInteger))
            (malformedSeqs "decoded seq is out of range") >>= fun _ =>
          decodeSeqs fuel (some (seqAfter previous decoded).toNat) rest >>= fun values =>
            .ok ((seqAfter previous decoded).toNat :: values) := by
  cases bytes with
  | nil => exact absurd rfl hne
  | cons byte tail => cases previous <;> rfl

def InRange (previous : Option Nat) (decoded : Nat) : Prop :=
  decoded ≤ seqLimit previous ∧
    0 ≤ seqAfter previous decoded ∧ seqAfter previous decoded ≤ maxSafeInteger

theorem decodeSeqs_eq_ok (h : decodeSeqs (fuel + 1) previous bytes = .ok seqs)
    (hne : bytes ≠ []) : ∃ decoded rest others,
      readVarint (seqLimit previous) 0 0 bytes = .ok (decoded, rest) ∧
      InRange previous decoded ∧
      decodeSeqs fuel (some (seqAfter previous decoded).toNat) rest = .ok others ∧
      seqs = (seqAfter previous decoded).toNat :: others := by
  rw [decodeSeqs_cons hne] at h
  obtain ⟨⟨decoded, rest⟩, hread, h⟩ := bind_eq_ok.mp h
  obtain ⟨_, hrange, h⟩ := bind_eq_ok.mp h
  obtain ⟨others, hothers, h⟩ := bind_eq_ok.mp h
  have hboth := require_eq_ok.mp hrange
  rw [Bool.and_eq_true, decide_eq_true_iff, decide_eq_true_iff] at hboth
  obtain ⟨_, _, _, _, hle⟩ := readVarint_eq_ok (by decide) hread
  cases h
  exact ⟨decoded, rest, others, hread, ⟨hle, hboth⟩, hothers, rfl⟩

theorem encodeSeqs_cons {value : Nat} (hsafe : isSafe value = true) {items : List Json}
    {rest : Bytes} (hrest : encodeSeqs (some value) items = .ok rest) :
    encodeSeqs previous (.nat value :: items) =
      .ok (appendVarint (seqDelta previous value) ++ rest) := by
  have hvalue := Json.safeNat?_eq_some.mpr ⟨rfl, hsafe⟩
  rw [encodeSeqs, hvalue]
  simp only [expect_some, ok_bind, hrest]
  rfl

theorem isSafe_of_inRange {decoded : Nat} (h : InRange previous decoded) :
    isSafe (seqAfter previous decoded).toNat = true := by
  obtain ⟨_, hnonneg, hle⟩ := h
  rw [isSafe_iff]
  unfold maxSafeInteger at hle
  omega

theorem encodeSeqs_decodeSeqs (h : decodeSeqs fuel previous bytes = .ok seqs) :
    (∀ seq ∈ seqs, isSafe seq = true) ∧
      encodeSeqs previous (seqs.map Json.nat) = .ok bytes := by
  induction fuel generalizing previous bytes seqs with
  | zero =>
    cases bytes with
    | nil =>
      cases h
      exact ⟨nofun, rfl⟩
    | cons byte tail => cases h
  | succ fuel ih =>
    by_cases hne : bytes = []
    · subst hne
      cases h
      exact ⟨nofun, rfl⟩
    · obtain ⟨decoded, rest, others, hread, hrange, hothers, rfl⟩ := decodeSeqs_eq_ok h hne
      obtain ⟨n, hvalue, hbytes, _, _⟩ := readVarint_eq_ok (by decide) hread
      obtain ⟨hsafe, hencode⟩ := ih hothers
      rw [Nat.zero_add, Nat.pow_zero, Nat.mul_one] at hvalue
      subst hvalue
      constructor
      · intro seq hseq
        rcases List.mem_cons.mp hseq with rfl | hseq
        · exact isSafe_of_inRange hrange
        · exact hsafe seq hseq
      · rw [List.map_cons, encodeSeqs_cons (isSafe_of_inRange hrange) hencode,
          seqDelta_seqAfter hrange.2.1, hbytes]

theorem encodeSeqs_ok (h : ∀ seq ∈ seqs, isSafe seq = true) (previous : Option Nat) :
    ∃ bytes, encodeSeqs previous (seqs.map Json.nat) = .ok bytes := by
  induction seqs generalizing previous with
  | nil => exact ⟨[], rfl⟩
  | cons seq seqs ih =>
    obtain ⟨rest, hrest⟩ := ih (fun other hother => h other (List.mem_cons_of_mem _ hother))
      (some seq)
    exact ⟨_, encodeSeqs_cons (h seq List.mem_cons_self) hrest⟩

theorem decodeSeqs_append_error (h : decodeSeqs fuel previous front = .ok seqs)
    (hmore : ∀ fuel, ∃ message, decodeSeqs fuel (seqs.getLast?.or previous) more = .error message)
    (enough : Nat) : ∃ message, decodeSeqs enough previous (front ++ more) = .error message := by
  induction fuel generalizing previous front seqs enough with
  | zero =>
    cases front with
    | nil =>
      cases h
      exact hmore enough
    | cons byte tail => cases h
  | succ fuel ih =>
    by_cases hne : front = []
    · subst hne
      cases h
      exact hmore enough
    · obtain ⟨decoded, rest, others, hread, hrange, hothers, rfl⟩ := decodeSeqs_eq_ok h hne
      have happend : front ++ more ≠ [] := fun hnil => hne (List.append_eq_nil_iff.mp hnil).1
      cases enough with
      | zero =>
        cases hbytes : front ++ more with
        | nil => exact absurd hbytes happend
        | cons byte tail => exact ⟨_, rfl⟩
      | succ enough =>
        have hlast : ((seqAfter previous decoded).toNat :: others).getLast?.or previous =
            others.getLast?.or (some (seqAfter previous decoded).toNat) := by
          rw [List.getLast?_cons]
          cases others.getLast? <;> rfl
        rw [hlast] at hmore
        obtain ⟨message, hmessage⟩ := ih hothers hmore enough
        have hboth : (decide (0 ≤ seqAfter previous decoded) &&
            decide (seqAfter previous decoded ≤ maxSafeInteger)) = true := by
          rw [Bool.and_eq_true, decide_eq_true_iff, decide_eq_true_iff]
          exact hrange.2
        refine ⟨message, ?_⟩
        rw [decodeSeqs_cons happend, readVarint_append more hread]
        simp only [ok_bind, hboth, require_true, hmessage, error_bind]

theorem decodeSeqs_error (hne : more ≠ [])
    (h : ∃ message, readVarint (seqLimit previous) 0 0 more = .error message) (fuel : Nat) :
    ∃ message, decodeSeqs fuel previous more = .error message := by
  obtain ⟨message, hmessage⟩ := h
  cases fuel with
  | zero =>
    cases more with
    | nil => exact absurd rfl hne
    | cons byte tail => exact ⟨_, rfl⟩
  | succ fuel =>
    refine ⟨message, ?_⟩
    rw [decodeSeqs_cons hne, hmessage]
    rfl

theorem decodeSeqs_out_of_range {n : Nat} (h : ¬InRange previous n) (rest : Bytes) (fuel : Nat) :
    ∃ message, decodeSeqs fuel previous (appendVarint n ++ rest) = .error message := by
  obtain ⟨byte, tail, hbytes⟩ := appendVarint_ne_nil n
  have hne : appendVarint n ++ rest ≠ [] := by
    rw [hbytes]
    exact List.cons_ne_nil byte _
  by_cases hlimit : n ≤ seqLimit previous
  · cases fuel with
    | zero =>
      rw [hbytes]
      exact ⟨_, rfl⟩
    | succ fuel =>
      have hbound : seqLimit previous ≤ 2 ^ 56 := by
        cases previous <;> simp only [seqLimit, maxZigzagInteger] <;> omega
      have hread := readVarint_appendVarint hbound n (Nat.two_pow_pos 0)
        (by rwa [Nat.zero_add, Nat.pow_zero, Nat.mul_one]) (fun hpos => absurd hpos (by decide))
        rest
      rw [Nat.zero_add, Nat.pow_zero, Nat.mul_one] at hread
      have hboth : (decide (0 ≤ seqAfter previous n) &&
          decide (seqAfter previous n ≤ maxSafeInteger)) = false := by
        rw [Bool.and_eq_false_iff, decide_eq_false_iff_not, decide_eq_false_iff_not,
          ← not_and_or]
        exact fun hrange => h ⟨hlimit, hrange⟩
      refine ⟨malformedSeqs "decoded seq is out of range", ?_⟩
      rw [decodeSeqs_cons hne, hread]
      simp only [ok_bind, hboth, require_false, error_bind]
  · exact decodeSeqs_error hne (readVarint_large (Nat.lt_of_not_le hlimit)) fuel

end Seqs

def Rejected (bytes : Bytes) : Prop := ∃ message, decodeSourceEventSeqs bytes = .error message

theorem rejected_after {front more : Bytes} {seqs : List Nat}
    (h : decodeSourceEventSeqs front = .ok seqs)
    (hmore : ∀ fuel, ∃ message, decodeSeqs fuel seqs.getLast? more = .error message) :
    Rejected (front ++ more) := by
  apply decodeSeqs_append_error h
  rw [Option.or_none]
  exact hmore

/-- The encoding and the decoder are inverse to each other between lists of safe seqs and accepted
bytes, and what goes wrong behind accepted bytes is rejected. -/
theorem sourceEventSeqs_bijection :
    (∀ seqs : List Nat, (∀ seq ∈ seqs, isSafe seq = true) →
      ∃ bytes, encodeSourceEventSeqs (seqs.map Json.nat) = .ok bytes ∧
        decodeSourceEventSeqs bytes = .ok seqs) ∧
    (∀ bytes seqs, decodeSourceEventSeqs bytes = .ok seqs →
      (∀ seq ∈ seqs, isSafe seq = true) ∧
        encodeSourceEventSeqs (seqs.map Json.nat) = .ok bytes) ∧
    ∀ front seqs, decodeSourceEventSeqs front = .ok seqs →
      (∀ group, group ≠ [] → Continues group → Rejected (front ++ group)) ∧
      (∀ group rest, 9 ≤ group.length → Continues group → Rejected (front ++ (group ++ rest))) ∧
      (∀ group rest, group ≠ [] → Continues group → Rejected (front ++ (group ++ 0 :: rest))) ∧
      ∀ n rest, ¬InRange seqs.getLast? n → Rejected (front ++ (appendVarint n ++ rest)) := by
  refine ⟨?_, fun _ _ h => encodeSeqs_decodeSeqs h, ?_⟩
  · intro seqs hsafe
    obtain ⟨bytes, hbytes⟩ := encodeSeqs_ok hsafe none
    obtain ⟨others, hothers, hdecode⟩ := decodeSourceEventSeqs_encode hbytes
    have hsame : seqs = others := by
      apply List.map_injective_iff.mpr _ hothers
      intro m n h
      rw [Json.num.injEq, JsonNumber.int.injEq] at h
      exact Int.natCast_inj.mp h
    subst hsame
    exact ⟨bytes, hbytes, hdecode⟩
  · intro front seqs h
    refine ⟨?_, ?_, ?_, ?_⟩
    · intro group hne hgroup
      exact rejected_after h (decodeSeqs_error hne (readVarint_truncated hgroup))
    · intro group rest hlong hgroup
      apply rejected_after h
      apply decodeSeqs_error _ (readVarint_overlong hgroup hlong)
      rintro hnil
      rw [(List.append_eq_nil_iff.mp hnil).1] at hlong
      exact absurd hlong (by decide)
    · intro group rest hne hgroup
      apply rejected_after h
      apply decodeSeqs_error _ (readVarint_padded hgroup hne)
      exact fun hnil => hne (List.append_eq_nil_iff.mp hnil).1
    · intro n rest hrange
      exact rejected_after h (decodeSeqs_out_of_range hrange rest)

end Harness.Sqlite
