import Harness.OutputRetention.TextRetainer
import Mathlib.Order.Bounds.Basic

namespace Harness.OutputRetention

open Harness.Foundation
open Harness.Foundation.Utf8

section Window

variable {chunks : List Bytes} {cap : Nat}

theorem drop_append_window (stream bytes : Bytes) (cap : Nat) :
    ((stream.drop (stream.length - cap)) ++ bytes).drop
        (((stream.drop (stream.length - cap)) ++ bytes).length - cap) =
      (stream ++ bytes).drop ((stream ++ bytes).length - cap) := by
  have hlength : (stream.drop (stream.length - cap)).length = min stream.length cap := by
    rw [List.length_drop]
    omega
  rw [List.length_append, List.length_append, hlength,
    ← List.drop_append_of_le_length (Nat.sub_le _ _), List.drop_drop]
  congr 1
  omega

theorem trimHead_slideOut (chunks : List Bytes) (cap : Nat) :
    (TextRetainer.trimHead cap (TextRetainer.slideOut cap chunks chunks.flatten.length)).1.flatten =
        chunks.flatten.drop (chunks.flatten.length - cap) ∧
      (TextRetainer.trimHead cap (TextRetainer.slideOut cap chunks chunks.flatten.length)).2 =
        min chunks.flatten.length cap := by
  induction chunks with
  | nil =>
    constructor
    · exact (List.drop_nil).symm
    · exact (Nat.zero_min cap).symm
  | cons head chunks ih =>
    have hlength : (head :: chunks).flatten.length = head.length + chunks.flatten.length := by
      rw [List.flatten_cons, List.length_append]
    rw [TextRetainer.slideOut, hlength, Nat.add_sub_cancel_left]
    by_cases hout : cap ≤ chunks.flatten.length
    · rw [if_pos hout, ih.1, ih.2, List.flatten_cons]
      constructor
      · rw [Nat.add_sub_assoc hout, List.drop_length_add_append]
      · rw [Nat.min_eq_right hout, Nat.min_eq_right (hout.trans (Nat.le_add_left _ _))]
    · rw [if_neg hout, TextRetainer.trimHead]
      split
      · rename_i hlarge
        constructor
        · rw [List.flatten_cons, List.flatten_cons, List.drop_append_of_le_length (by omega)]
        · exact (Nat.min_eq_right (Nat.le_of_lt hlarge)).symm
      · rename_i hsmall
        have hfits := Nat.not_lt.mp hsmall
        constructor
        · rw [Nat.sub_eq_zero_of_le hfits, List.drop_zero]
        · exact (Nat.min_eq_left hfits).symm

end Window

section Retains

variable {retainer : TextRetainer} {stream : Bytes}

structure KeepsPrefix (retainer : TextRetainer) (stream : Bytes) : Prop where
  chunks : retainer.prefixChunks.flatten = stream.take retainer.prefixCap
  held : retainer.prefixHeld = min stream.length retainer.prefixCap

structure KeepsSuffix (retainer : TextRetainer) (stream : Bytes) : Prop where
  chunks : retainer.suffixChunks.flatten = stream.drop (stream.length - retainer.suffixCap)
  held : retainer.suffixHeld = min stream.length retainer.suffixCap

structure Retains (retainer : TextRetainer) (stream : Bytes) : Prop where
  front : KeepsPrefix retainer stream
  back : KeepsSuffix retainer stream
  total : retainer.total = stream.length

@[simp] theorem withCaps_prefixCap (prefixCap suffixCap : Nat) :
    (TextRetainer.withCaps prefixCap suffixCap).prefixCap = prefixCap := rfl

@[simp] theorem withCaps_suffixCap (prefixCap suffixCap : Nat) :
    (TextRetainer.withCaps prefixCap suffixCap).suffixCap = suffixCap := rfl

theorem withCaps_retains (prefixCap suffixCap : Nat) :
    Retains (.withCaps prefixCap suffixCap) [] where
  front := ⟨(List.take_nil).symm, (Nat.zero_min _).symm⟩
  back := ⟨(List.drop_nil).symm, (Nat.zero_min _).symm⟩
  total := rfl

theorem KeepsPrefix.fill (h : KeepsPrefix retainer stream) (bytes : Bytes) :
    KeepsPrefix (retainer.fillPrefix bytes) (stream ++ bytes) := by
  unfold TextRetainer.fillPrefix
  rw [h.held]
  dsimp only
  split
  · rename_i hroom
    constructor
    · dsimp only
      rw [List.flatten_append, List.flatten_singleton, h.chunks, List.take_append,
        ← List.take_eq_take_min]
      congr 2
      omega
    · rw [List.length_append]
      dsimp only
      omega
  · rename_i hroom
    constructor
    · rw [h.chunks, List.take_append]
      by_cases hfull : retainer.prefixCap ≤ stream.length
      · rw [Nat.sub_eq_zero_of_le hfull, List.take_zero, List.append_nil]
      · have hnil : bytes = [] := List.eq_nil_of_length_eq_zero (by omega)
        rw [hnil, List.take_nil, List.append_nil]
    · rw [h.held, List.length_append]
      omega

theorem KeepsSuffix.roll (h : KeepsSuffix retainer stream) (bytes : Bytes) :
    KeepsSuffix (retainer.rollSuffix bytes) (stream ++ bytes) := by
  have hflat : (retainer.suffixChunks ++ [bytes]).flatten =
      stream.drop (stream.length - retainer.suffixCap) ++ bytes := by
    rw [List.flatten_append, List.flatten_singleton, h.chunks]
  have hheld : retainer.suffixHeld + bytes.length =
      (retainer.suffixChunks ++ [bytes]).flatten.length := by
    rw [hflat, List.length_append, List.length_drop, h.held]
    omega
  unfold TextRetainer.rollSuffix
  split
  · obtain ⟨hchunks, hsize⟩ :=
      trimHead_slideOut (retainer.suffixChunks ++ [bytes]) retainer.suffixCap
    rw [hheld]
    constructor
    · dsimp only
      rw [hchunks, hflat, drop_append_window]
    · dsimp only
      rw [hsize, hflat, List.length_append, List.length_append, List.length_drop]
      omega
  · rename_i hcap
    have hzero : retainer.suffixCap = 0 := Nat.eq_zero_of_not_pos hcap
    constructor
    · rw [h.chunks, hzero]
      simp only [Nat.sub_zero, List.drop_length]
    · rw [h.held, hzero, Nat.min_zero, Nat.min_zero]

theorem KeepsSuffix.fill (h : KeepsSuffix retainer stream) (bytes : Bytes) :
    KeepsSuffix (retainer.fillPrefix bytes) stream := by
  unfold TextRetainer.fillPrefix
  dsimp only
  split
  · exact ⟨h.chunks, h.held⟩
  · exact h

theorem KeepsPrefix.roll (h : KeepsPrefix retainer stream) (bytes : Bytes) :
    KeepsPrefix (retainer.rollSuffix bytes) stream := by
  unfold TextRetainer.rollSuffix
  split
  · exact ⟨h.chunks, h.held⟩
  · exact h

structure SameCaps (retainer after : TextRetainer) : Prop where
  prefixCap : after.prefixCap = retainer.prefixCap
  suffixCap : after.suffixCap = retainer.suffixCap
  total : after.total = retainer.total

theorem fillPrefix_caps (retainer : TextRetainer) (bytes : Bytes) :
    SameCaps retainer (retainer.fillPrefix bytes) := by
  unfold TextRetainer.fillPrefix
  dsimp only
  split
  · exact ⟨rfl, rfl, rfl⟩
  · exact ⟨rfl, rfl, rfl⟩

theorem rollSuffix_caps (retainer : TextRetainer) (bytes : Bytes) :
    SameCaps retainer (retainer.rollSuffix bytes) := by
  unfold TextRetainer.rollSuffix
  split
  · exact ⟨rfl, rfl, rfl⟩
  · exact ⟨rfl, rfl, rfl⟩

theorem push_retains (h : Retains retainer stream) (chunk : Chunk) :
    Retains (retainer.push chunk).1 (stream ++ chunk.encoded) ∧
      (retainer.push chunk).1.prefixCap = retainer.prefixCap ∧
      (retainer.push chunk).1.suffixCap = retainer.suffixCap := by
  have hpush : ∃ counted : TextRetainer, counted = { retainer with
      total := retainer.total + chunk.encoded.length } ∧
        (retainer.push chunk).1 = (counted.fillPrefix chunk.encoded).rollSuffix chunk.encoded :=
    ⟨_, rfl, rfl⟩
  obtain ⟨counted, hcounted, hpush⟩ := hpush
  have hfront : KeepsPrefix counted stream := hcounted ▸ ⟨h.front.chunks, h.front.held⟩
  have hback : KeepsSuffix counted stream := hcounted ▸ ⟨h.back.chunks, h.back.held⟩
  have hfilled := fillPrefix_caps counted chunk.encoded
  have hrolled := rollSuffix_caps (counted.fillPrefix chunk.encoded) chunk.encoded
  have htotal := hrolled.total.trans hfilled.total
  rw [hpush]
  constructor
  · constructor
    · exact (hfront.fill chunk.encoded).roll chunk.encoded
    · exact (hback.fill chunk.encoded).roll chunk.encoded
    · rw [htotal, hcounted, List.length_append, ← h.total]
  · rw [hrolled.prefixCap, hrolled.suffixCap, hfilled.prefixCap, hfilled.suffixCap, hcounted]
    exact ⟨rfl, rfl⟩

theorem pushAll_retains (chunks : List Chunk) (h : Retains retainer stream) :
    Retains (retainer.pushAll chunks) (stream ++ (chunks.map Chunk.encoded).flatten) ∧
      (retainer.pushAll chunks).prefixCap = retainer.prefixCap ∧
      (retainer.pushAll chunks).suffixCap = retainer.suffixCap := by
  induction chunks generalizing retainer stream with
  | nil =>
    rw [List.map_nil, List.flatten_nil, List.append_nil]
    exact ⟨h, rfl, rfl⟩
  | cons chunk chunks ih =>
    obtain ⟨hpush, hfront, hsuffix⟩ := push_retains h chunk
    obtain ⟨hall, hprefixAll, hsuffixAll⟩ := ih hpush
    rw [List.map_cons, List.flatten_cons, ← List.append_assoc]
    exact ⟨hall, hprefixAll.trans hfront, hsuffixAll.trans hsuffix⟩

theorem Retains.held_le (h : Retains retainer stream) :
    retainer.held ≤ retainer.prefixCap + retainer.suffixCap := by
  unfold TextRetainer.held
  rw [h.front.chunks, h.back.chunks, List.length_take, List.length_drop]
  omega

end Retains

section Finish

theorem length_trimTrailing_le (bytes : Bytes) :
    (trimTrailingPartialUtf8 bytes).length ≤ bytes.length := by
  unfold trimTrailingPartialUtf8
  split
  · exact Nat.le_refl _
  · dsimp only
    split
    · exact Nat.le_refl _
    · split
      · rw [List.length_take]
        exact Nat.min_le_right _ _
      · exact Nat.le_refl _

theorem length_trimLeading_le (bytes : Bytes) :
    (trimLeadingContinuationUtf8 bytes).length ≤ bytes.length :=
  (List.dropWhile_suffix _).length_le

def retainedOf (prefixCap suffixCap : Nat) (stream : Bytes) : RetainedText :=
  if stream.length ≤ prefixCap + suffixCap then
    { text := decodeText stream, truncated := false, omittedBytes := .none }
  else
    let keptPrefix := trimTrailingPartialUtf8 (stream.take prefixCap)
    let keptSuffix := trimLeadingContinuationUtf8 (stream.drop (stream.length - suffixCap))
    { text := decodeText keptPrefix ++ decodeText keptSuffix
      truncated := true
      omittedBytes := .exact (stream.length - (keptPrefix.length + keptSuffix.length)) }

variable {retainer : TextRetainer} {stream : Bytes}

theorem omittedAt_eq (retainer : TextRetainer) (total : Nat) :
    retainer.omittedAt total = total - (retainer.prefixCap + retainer.suffixCap) := by
  unfold TextRetainer.omittedAt
  dsimp only
  omega

theorem Retains.push_truncated (h : Retains retainer stream) (chunk : Chunk) :
    (retainer.push chunk).2.truncated =
      decide (retainer.prefixCap + retainer.suffixCap < (stream ++ chunk.encoded).length) := by
  obtain ⟨hpush, hfront, hsuffix⟩ := push_retains h chunk
  have hreport : (retainer.push chunk).2.truncated =
      decide (0 < (retainer.push chunk).1.omittedAt (retainer.push chunk).1.total) := by
    simp only [TextRetainer.push]
    exact decide_eq_decide.mpr Iff.rfl
  rw [hreport, omittedAt_eq, hfront, hsuffix, hpush.total]
  exact decide_eq_decide.mpr Nat.sub_pos_iff_lt

theorem Retains.finish (h : Retains retainer stream) :
    retainer.finish = retainedOf retainer.prefixCap retainer.suffixCap stream := by
  unfold TextRetainer.finish retainedOf
  rw [omittedAt_eq, h.total, h.front.chunks, h.back.chunks, h.back.held]
  dsimp only
  rw [List.drop_drop]
  by_cases hfits : stream.length ≤ retainer.prefixCap + retainer.suffixCap
  · have hwhole : stream.take retainer.prefixCap ++ stream.drop
        (stream.length - retainer.suffixCap + (min stream.length retainer.suffixCap
          - min (stream.length - min stream.length retainer.prefixCap) retainer.suffixCap)) =
            stream := by
      rw [List.take_eq_take_min, Nat.min_comm]
      have hfrom : stream.length - retainer.suffixCap + (min stream.length retainer.suffixCap
          - min (stream.length - min stream.length retainer.prefixCap) retainer.suffixCap) =
            min stream.length retainer.prefixCap := by omega
      rw [hfrom, List.take_append_drop]
    have hlength := congrArg List.length hwhole
    rw [List.length_append] at hlength
    have hkept : stream.length - (stream.take retainer.prefixCap).length - (stream.drop
        (stream.length - retainer.suffixCap + (min stream.length retainer.suffixCap
          - min (stream.length - min stream.length retainer.prefixCap)
            retainer.suffixCap))).length = 0 := by omega
    rw [Nat.sub_eq_zero_of_le hfits, if_pos hfits]
    simp only [Nat.lt_irrefl, if_false, hkept, hwhole, decide_false, Bool.false_eq_true]
  · have hfrom : stream.length - retainer.suffixCap + (min stream.length retainer.suffixCap
        - min (stream.length - min stream.length retainer.prefixCap) retainer.suffixCap) =
          stream.length - retainer.suffixCap := by omega
    have hgap : 0 < stream.length - (retainer.prefixCap + retainer.suffixCap) := by omega
    rw [hfrom, if_neg hfits]
    simp only [hgap, if_true]
    have hfront := length_trimTrailing_le (stream.take retainer.prefixCap)
    have hback := length_trimLeading_le (stream.drop (stream.length - retainer.suffixCap))
    rw [List.length_take] at hfront
    rw [List.length_drop] at hback
    have homitted : 0 < stream.length
        - (trimTrailingPartialUtf8 (stream.take retainer.prefixCap)).length
        - (trimLeadingContinuationUtf8
          (stream.drop (stream.length - retainer.suffixCap))).length := by omega
    simp only [homitted, decide_true, if_true]
    rw [Nat.sub_sub]

end Finish

section WellFormed

theorem leadEnd_eq {front following : Bytes} {first : UInt8}
    (hlead : isContinuation first = false)
    (hfollowing : ∀ byte ∈ following, isContinuation byte = true) (hshort : following.length ≤ 3) :
    leadEnd (front ++ first :: following) (front ++ first :: following).length =
      front.length + 1 := by
  have hscan : ∀ count ≤ following.length,
      leadEnd (front ++ first :: following) (front.length + 1 + count) = front.length + 1 := by
    intro count hcount
    induction count with
    | zero =>
      rw [Nat.add_zero, leadEnd, List.getElem?_append_right (Nat.le_refl _), Nat.sub_self,
        List.getElem?_cons_zero, Option.map_some, Option.getD_some, hlead, Bool.false_and,
        if_neg Bool.false_ne_true]
    | succ count ih =>
      have hget : (front ++ first :: following)[front.length + 1 + count]? =
          some (following.get ⟨count, hcount⟩) := by
        rw [List.getElem?_append_right (by omega)]
        have hindex : front.length + 1 + count - front.length = count + 1 := by omega
        rw [hindex, List.getElem?_cons_succ]
        exact List.getElem?_eq_getElem hcount
      have hcontinues := hfollowing _ (List.get_mem following ⟨count, hcount⟩)
      have hnear : (front ++ first :: following).length - (front.length + 1 + count) ≤ 3 := by
        rw [List.length_append, List.length_cons]
        omega
      rw [← Nat.add_assoc, leadEnd, hget, Option.map_some, Option.getD_some, hcontinues,
        decide_eq_true hnear, Bool.and_self, if_pos rfl]
      exact ih (Nat.le_of_succ_le hcount)
  have hlength : (front ++ first :: following).length = front.length + 1 + following.length := by
    rw [List.length_append, List.length_cons]
    omega
  have hall := hscan following.length (Nat.le_refl _)
  rwa [← hlength] at hall

/-- A text that ends with its last character is not trimmed; one that ends inside a character loses
what it has of it. -/
theorem trimTrailing_append {front part following : Bytes} {first : UInt8} {whole : Bytes}
    (hbytes : CharBytes whole first following) (hpart : part <+: following) :
    trimTrailingPartialUtf8 (front ++ first :: part) =
      if part.length = following.length then front ++ first :: part else front := by
  have hlength := hpart.length_le
  unfold trimTrailingPartialUtf8
  rw [leadEnd_eq hbytes.lead (fun byte hmem => hbytes.continuations byte (hpart.subset hmem))
    (hlength.trans hbytes.short)]
  dsimp only
  rw [List.getElem?_append_right (Nat.le_refl _), Nat.sub_self, List.getElem?_cons_zero,
    Option.map_some, Option.getD_some, hbytes.announced, if_neg (Nat.succ_ne_zero _),
    List.length_append, List.length_cons, Nat.add_sub_cancel_left, List.take_left]
  by_cases hwhole : part.length = following.length
  · rw [if_pos hwhole, if_neg (by omega)]
  · rw [if_neg hwhole, if_pos (by omega)]

variable {chars front back : List Char} {size inside : Nat}

theorem trimTrailing_encodeChars (chars : List Char) :
    trimTrailingPartialUtf8 (encodeChars chars) = encodeChars chars := by
  rcases List.eq_nil_or_concat chars with rfl | ⟨front, c, rfl⟩
  · rfl
  · obtain ⟨first, following, hbytes⟩ := utf8EncodeChar_charBytes c
    have hlast : encodeChars (front ++ [c]) = encodeChars front ++ first :: following := by
      rw [encodeChars_append, encodeChars_cons, hbytes.bytes_eq]
      exact congrArg _ (List.append_nil _)
    rw [List.concat_eq_append, hlast, trimTrailing_append hbytes List.prefix_rfl, if_pos rfl]

theorem trimTrailing_cut (h : Cut chars size front back inside) :
    trimTrailingPartialUtf8 ((encodeChars chars).take size) = encodeChars front := by
  rw [h.take]
  rcases Nat.eq_zero_or_pos inside with rfl | hpos
  · rw [List.take_zero, List.append_nil, trimTrailing_encodeChars]
  · obtain ⟨c, rest, first, following, rfl, hbytes, hinside⟩ := h.inside_char hpos
    obtain ⟨count, rfl⟩ := Nat.exists_eq_add_of_le' hpos
    have hpart : (encodeChars (c :: rest)).take (count + 1) = first :: following.take count := by
      rw [encodeChars_cons, hbytes.bytes_eq, List.cons_append, List.take_succ_cons,
        List.take_append_of_le_length (by omega)]
    have hshort : (following.take count).length ≠ following.length := by
      rw [List.length_take]
      omega
    rw [hpart, trimTrailing_append hbytes (List.take_prefix _ _), if_neg hshort]

theorem trimLeading_cut (h : Cut chars size front back inside) :
    trimLeadingContinuationUtf8 ((encodeChars chars).drop size) =
      encodeChars (if inside = 0 then back else back.tail) := by
  unfold trimLeadingContinuationUtf8
  rw [h.drop]
  rcases Nat.eq_zero_or_pos inside with rfl | hpos
  · rw [List.drop_zero, if_pos rfl, encodeChars_dropWhile]
  · obtain ⟨c, rest, first, following, rfl, hbytes, hinside⟩ := h.inside_char hpos
    obtain ⟨count, rfl⟩ := Nat.exists_eq_add_of_le' hpos
    have hpart : (encodeChars (c :: rest)).drop (count + 1) =
        following.drop count ++ encodeChars rest := by
      rw [encodeChars_cons, hbytes.bytes_eq, List.cons_append, List.drop_succ_cons,
        List.drop_append_of_le_length (by omega)]
    rw [hpart, List.dropWhile_append_of_pos fun byte hmem =>
      hbytes.continuations byte (List.mem_of_mem_drop hmem), encodeChars_dropWhile,
      if_neg (Nat.succ_ne_zero count), List.tail_cons]

theorem decodeText_encodeChars (chars : List Char) :
    decodeText (encodeChars chars) = String.ofList (dropMark chars) := by
  unfold decodeText
  rw [stripBom_encodeChars]
  have hencode : encodeChars (dropMark chars) = encode (String.ofList (dropMark chars)) := by
    rw [encode, String.toList_ofList]
  rw [hencode, toText_encode]

theorem retainedOf_encodeChars {prefixCap suffixCap : Nat} (chars : List Char)
    (hgap : prefixCap + suffixCap < (encodeChars chars).length) :
    ∃ i j, i < j ∧ j ≤ chars.length ∧
      IsGreatest {count | (encodeChars (chars.take count)).length ≤ prefixCap} i ∧
      IsLeast {count | (encodeChars (chars.drop count)).length ≤ suffixCap} j ∧
      retainedOf prefixCap suffixCap (encodeChars chars) = {
        text := String.ofList (dropMark (chars.take i)) ++ String.ofList (dropMark (chars.drop j))
        truncated := true
        omittedBytes := .exact ((encodeChars chars).length
          - ((encodeChars (chars.take i)).length + (encodeChars (chars.drop j)).length)) } := by
  obtain ⟨front, back, inside, hfront⟩ :=
    exists_cut (show prefixCap ≤ (encodeChars chars).length by omega)
  obtain ⟨early, late, into, hback⟩ :=
    exists_cut (Nat.sub_le (encodeChars chars).length suffixCap)
  have hfirst := hfront.greatest (by omega)
  have hlast := hback.least
  have hreach : ∀ count, (encodeChars chars).length - suffixCap ≤
      (encodeChars (chars.take count)).length ↔
        (encodeChars (chars.drop count)).length ≤ suffixCap := by
    intro count
    have hlength := length_take_add_drop chars count
    omega
  simp only [hreach] at hlast
  have horder : front.length < early.length + if into = 0 then 0 else 1 := by
    by_contra hafter
    have hmono := length_take_mono chars (Nat.le_of_not_lt hafter)
    have hkept := hfirst.1
    have hleft := (hreach _).mpr hlast.1
    change _ ≤ prefixCap at hkept
    omega
  have hinside : early.length + (if into = 0 then 0 else 1) ≤ chars.length := by
    apply hlast.2
    change (encodeChars (chars.drop chars.length)).length ≤ suffixCap
    rw [List.drop_length]
    exact Nat.zero_le _
  refine ⟨front.length, early.length + if into = 0 then 0 else 1, horder, hinside, hfirst, hlast,
    ?_⟩
  unfold retainedOf
  rw [if_neg (Nat.not_le.mpr hgap), trimTrailing_cut hfront, trimLeading_cut hback,
    hfront.take_front, hback.drop_least]
  dsimp only
  rw [decodeText_encodeChars, decodeText_encodeChars]

end WellFormed

section Runs

def TextRetentionStrategy.budgets : TextRetentionStrategy → Int × Int
  | .head maxBytes => (maxBytes, 0)
  | .tail maxBytes => (0, maxBytes)
  | .headTail headBytes tailBytes => (headBytes, tailBytes)

theorem create_eq_ok {strategy : TextRetentionStrategy} (hhead : 0 ≤ strategy.budgets.1)
    (htail : 0 ≤ strategy.budgets.2) :
    TextRetainer.create strategy =
      .ok (.withCaps strategy.budgets.1.toNat strategy.budgets.2.toNat) := by
  cases strategy with
  | head maxBytes =>
    have hmax : 0 ≤ maxBytes := hhead
    rw [TextRetainer.create, assertBudget, if_pos hmax]
    rfl
  | tail maxBytes =>
    have hmax : 0 ≤ maxBytes := htail
    rw [TextRetainer.create, assertBudget, if_pos hmax]
    rfl
  | headTail headBytes tailBytes =>
    have hfront : 0 ≤ headBytes := hhead
    have hback : 0 ≤ tailBytes := htail
    rw [TextRetainer.create, assertBudget, assertBudget, if_pos hfront, if_pos hback]
    rfl

theorem retainedOf_truncated (prefixCap suffixCap : Nat) (stream : Bytes) :
    (retainedOf prefixCap suffixCap stream).truncated =
      decide (prefixCap + suffixCap < stream.length) := by
  unfold retainedOf
  split
  · rename_i hfits
    exact (decide_eq_false (Nat.not_lt.mpr hfits)).symm
  · rename_i hgap
    exact (decide_eq_true (Nat.not_le.mp hgap)).symm

/-- A retainer keeps what its strategy keeps of the whole stream, whatever chunks it came in. -/
theorem textRetainer_retains (strategy : TextRetentionStrategy) (hhead : 0 ≤ strategy.budgets.1)
    (htail : 0 ≤ strategy.budgets.2) :
    ∃ retainer, TextRetainer.create strategy = .ok retainer ∧
      ∀ (chunks : List Chunk) (stream : Bytes), stream = (chunks.map Chunk.encoded).flatten →
        (retainer.pushAll chunks).finish =
          retainedOf strategy.budgets.1.toNat strategy.budgets.2.toNat stream ∧
        (retainer.pushAll chunks).held ≤
          strategy.budgets.1.toNat + strategy.budgets.2.toNat ∧
        (∀ before last, chunks = before ++ [last] →
          ((retainer.pushAll before).push last).2.truncated =
            (retainer.pushAll chunks).finish.truncated) ∧
        ∀ chars, stream = encodeChars chars →
          strategy.budgets.1.toNat + strategy.budgets.2.toNat < stream.length →
          ∃ i j, i < j ∧ j ≤ chars.length ∧
            IsGreatest {count | (encodeChars (chars.take count)).length ≤
              strategy.budgets.1.toNat} i ∧
            IsLeast {count | (encodeChars (chars.drop count)).length ≤
              strategy.budgets.2.toNat} j ∧
            (retainer.pushAll chunks).finish = {
              text := String.ofList (dropMark (chars.take i))
                ++ String.ofList (dropMark (chars.drop j))
              truncated := true
              omittedBytes := .exact (stream.length - ((encodeChars (chars.take i)).length
                + (encodeChars (chars.drop j)).length)) } := by
  refine ⟨_, create_eq_ok hhead htail, ?_⟩
  rintro chunks stream rfl
  obtain ⟨hretains, hfront, hsuffix⟩ := pushAll_retains chunks
    (withCaps_retains strategy.budgets.1.toNat strategy.budgets.2.toNat)
  have hfinish := hretains.finish
  have hheld := hretains.held_le
  rw [hfront, hsuffix, withCaps_prefixCap, withCaps_suffixCap] at hfinish hheld
  rw [List.nil_append] at hfinish
  refine ⟨hfinish, hheld, ?_, ?_⟩
  · rintro before last rfl
    obtain ⟨hearlier, hfront, hback⟩ := pushAll_retains before
      (withCaps_retains strategy.budgets.1.toNat strategy.budgets.2.toNat)
    rw [hfinish, retainedOf_truncated, hearlier.push_truncated, hfront, hback,
      withCaps_prefixCap, withCaps_suffixCap, List.map_append,
      List.flatten_append, List.nil_append, List.map_singleton, List.flatten_singleton]
  · rintro chars hchars hgap
    obtain ⟨i, j, horder, hj, hi, hleast, hkept⟩ := retainedOf_encodeChars chars (hchars ▸ hgap)
    rw [hfinish, hchars]
    exact ⟨i, j, horder, hj, hi, hleast, hkept⟩

theorem textRetainer_retains_cut :
    ∃ retainer, TextRetainer.create (.headTail 2 2) = .ok retainer ∧
      (retainer.pushAll [.text "aé", .raw [0xC3], .raw [0xB6, 0x7A]]).finish =
        { text := "az", truncated := true, omittedBytes := .exact 4 } := by
  obtain ⟨retainer, hcreate, hall⟩ := textRetainer_retains (.headTail 2 2) (by decide) (by decide)
  refine ⟨retainer, hcreate, ?_⟩
  rw [(hall [.text "aé", .raw [0xC3], .raw [0xB6, 0x7A]] _ rfl).1]
  decide +kernel

end Runs

end Harness.OutputRetention
