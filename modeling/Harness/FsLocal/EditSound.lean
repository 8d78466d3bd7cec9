import Harness.FsLocal.Edit
import Mathlib.Data.List.Infix

namespace Harness.FsLocal

open Harness.Foundation
open Harness.ToolFs (FsError)

section Breaks

theorem breaks_induction {motive : List Char → Prop} (nil : motive [])
    (pair : ∀ rest, motive rest → motive ('\r' :: '\n' :: rest))
    (other : ∀ c rest, ¬['\r', '\n'] <+: c :: rest → motive rest → motive (c :: rest)) :
    ∀ text, motive text := by
  intro text
  induction text using (InvImage.wf List.length Nat.lt_wfRel.wf).induction with
  | _ text ih =>
    cases text with
    | nil => exact nil
    | cons c rest =>
      by_cases hpair : ['\r', '\n'] <+: c :: rest
      · obtain ⟨rest, hrest⟩ := hpair
        rw [← hrest] at ih ⊢
        exact pair rest (ih rest (Nat.lt_add_of_pos_right Nat.two_pos : rest.length < rest.length + 2))
      · exact other c rest hpair (ih rest (Nat.lt_succ_self rest.length))

@[simp] theorem normalizeLineEndings_nil : normalizeLineEndings [] = [] :=
  Literal.replaceAll_none rfl

@[simp] theorem normalizeLineEndings_pair (rest : List Char) :
    normalizeLineEndings ('\r' :: '\n' :: rest) = '\n' :: normalizeLineEndings rest :=
  Literal.replaceAll_append rest

theorem normalizeLineEndings_cons {c : Char} {rest : List Char} (h : ¬['\r', '\n'] <+: c :: rest) :
    normalizeLineEndings (c :: rest) = c :: normalizeLineEndings rest :=
  Literal.replaceAll_cons h

theorem normalizeLineEndings_eq_nil {text : List Char} :
    normalizeLineEndings text = [] ↔ text = [] := by
  induction text using breaks_induction with
  | nil => simp only [normalizeLineEndings_nil]
  | pair rest => simp only [normalizeLineEndings_pair, reduceCtorEq]
  | other c rest h => simp only [normalizeLineEndings_cons h, reduceCtorEq]

theorem normalizeLineEndings_of_absent {text : List Char} (h : ¬['\r', '\n'] <:+: text) :
    normalizeLineEndings text = text := by
  apply Literal.replaceAll_none
  apply Literal.find_eq_none.mpr
  rintro start ⟨front, back, rfl, -⟩
  exact h ⟨front, back, rfl⟩

def breakOf : LineEndings → List Char
  | .lf => ['\n']
  | .crlf => ['\r', '\n']

def inStyle (style : LineEndings) (text : List Char) : List Char :=
  text.flatMap fun c => if c = '\n' then breakOf style else [c]

@[simp] theorem inStyle_break (style : LineEndings) (rest : List Char) :
    inStyle style ('\n' :: rest) = breakOf style ++ inStyle style rest := rfl

theorem inStyle_cons (style : LineEndings) {c : Char} (h : c ≠ '\n') (rest : List Char) :
    inStyle style (c :: rest) = c :: inStyle style rest := by
  unfold inStyle
  rw [List.flatMap_cons, if_neg h]
  rfl

@[simp] theorem inStyle_lf (text : List Char) : inStyle .lf text = text := by
  induction text with
  | nil => rfl
  | cons c rest ih =>
    by_cases h : c = '\n'
    · rw [h, inStyle_break, ih]
      rfl
    · rw [inStyle_cons .lf h, ih]

theorem inStyle_of_unbroken (style : LineEndings) {text : List Char} (h : '\n' ∉ text) :
    inStyle style text = text := by
  induction text with
  | nil => rfl
  | cons c rest ih =>
    rw [List.mem_cons, not_or] at h
    rw [inStyle_cons style (Ne.symm h.1), ih h.2]

theorem length_inStyle (text : List Char) :
    (inStyle .crlf text).length = text.length + text.count '\n' := by
  induction text with
  | nil => rfl
  | cons c rest ih =>
    by_cases h : c = '\n'
    · rw [h, inStyle_break, List.length_append, ih, List.length_cons, List.count_cons_self]
      change 2 + _ = _
      omega
    · rw [inStyle_cons .crlf h, List.length_cons, ih, List.length_cons, List.count_cons_of_ne h]
      omega

theorem count_normalizeLineEndings (text : List Char) :
    (normalizeLineEndings text).count '\n' = text.count '\n' := by
  induction text using breaks_induction with
  | nil => rw [normalizeLineEndings_nil]
  | pair rest ih =>
    rw [normalizeLineEndings_pair, List.count_cons_self, ih,
      List.count_cons_of_ne (by decide : '\r' ≠ '\n'), List.count_cons_self]
  | other c rest h ih => rw [normalizeLineEndings_cons h, List.count_cons, List.count_cons, ih]

theorem length_normalizeLineEndings (text : List Char) :
    (normalizeLineEndings text).length + carriageReturnLineFeed.countOccurrences text =
      text.length := by
  induction text using breaks_induction with
  | nil => rw [normalizeLineEndings_nil, Literal.countOccurrences_none rfl, Nat.add_zero]
  | pair rest ih =>
    have hcount : carriageReturnLineFeed.countOccurrences ('\r' :: '\n' :: rest) =
        carriageReturnLineFeed.countOccurrences rest + 1 := Literal.countOccurrences_append rest
    rw [normalizeLineEndings_pair, hcount, List.length_cons, List.length_cons, List.length_cons]
    omega
  | other c rest h ih =>
    rw [normalizeLineEndings_cons h, Literal.countOccurrences_cons h, List.length_cons,
      List.length_cons]
    omega

theorem countOccurrences_lineFeed (text : List Char) :
    lineFeed.countOccurrences text = text.count '\n' := by
  induction text with
  | nil => exact Literal.countOccurrences_none rfl
  | cons c rest ih =>
    by_cases h : c = '\n'
    · rw [h, List.count_cons_self, ← ih]
      exact Literal.countOccurrences_append rest
    · rw [List.count_cons_of_ne h, ← ih]
      apply Literal.countOccurrences_cons
      rintro ⟨back, hback⟩
      exact h (List.cons.inj hback).1.symm

theorem replaceAll_lineFeed (text : List Char) :
    lineFeed.replaceAll ['\r', '\n'] text = inStyle .crlf text := by
  induction text with
  | nil => exact Literal.replaceAll_none rfl
  | cons c rest ih =>
    by_cases h : c = '\n'
    · rw [h, inStyle_break, ← ih]
      exact Literal.replaceAll_append rest
    · rw [inStyle_cons .crlf h, ← ih]
      apply Literal.replaceAll_cons
      rintro ⟨back, hback⟩
      exact h (List.cons.inj hback).1.symm

theorem restoreLineEndings_crlf (content : List Char) :
    restoreLineEndings content .crlf = inStyle .crlf (normalizeLineEndings content) := by
  unfold restoreLineEndings
  rw [Literal.intercalate_split, replaceAll_lineFeed]

def Breaks (style : LineEndings) (text : List Char) : Prop :=
  ∀ front back, text = front ++ '\n' :: back → (front.getLast? = some '\r' ↔ style = .crlf)

theorem Breaks.of_append {style : LineEndings} {front back : List Char}
    (h : Breaks style (front ++ back)) : Breaks style front := by
  rintro before after rfl
  exact h before (after ++ back) (by simp only [List.append_assoc, List.cons_append])

theorem Breaks.pair {style : LineEndings} {rest : List Char}
    (h : Breaks style ('\r' :: '\n' :: rest)) : style = .crlf ∧ Breaks style rest := by
  have hstyle : style = .crlf := (h ['\r'] rest rfl).mp rfl
  refine ⟨hstyle, ?_⟩
  rintro front back rfl
  have hbreak := h ('\r' :: '\n' :: front) back rfl
  cases front with
  | nil => exact absurd (hbreak.mpr hstyle) (by decide)
  | cons c front =>
    rw [List.getLast?_cons_cons, List.getLast?_cons_cons] at hbreak
    exact hbreak

theorem Breaks.cons {style : LineEndings} {c : Char} {rest : List Char}
    (h : Breaks style (c :: rest)) (hpair : ¬['\r', '\n'] <+: c :: rest) : Breaks style rest := by
  rintro front back rfl
  have hbreak := h (c :: front) back rfl
  cases front with
  | nil =>
    rw [← hbreak]
    constructor
    · intro hlast
      cases hlast
    · intro hlast
      rw [List.getLast?_singleton, Option.some.injEq] at hlast
      exact absurd ⟨back, by rw [hlast]; rfl⟩ hpair
  | cons d front =>
    rw [List.getLast?_cons_cons] at hbreak
    exact hbreak

theorem Breaks.head {c : Char} {rest : List Char} (h : Breaks .crlf (c :: rest)) : c ≠ '\n' := by
  rintro rfl
  exact absurd ((h [] rest rfl).mpr rfl) (by decide)

theorem inStyle_normalizeLineEndings {text : List Char} (h : Breaks .crlf text) :
    inStyle .crlf (normalizeLineEndings text) = text := by
  induction text using breaks_induction with
  | nil => rw [normalizeLineEndings_nil, inStyle_of_unbroken _ List.not_mem_nil]
  | pair rest ih =>
    rw [normalizeLineEndings_pair, inStyle_break, ih h.pair.2]
    rfl
  | other c rest hpair ih =>
    rw [normalizeLineEndings_cons hpair, inStyle_cons .crlf h.head, ih (h.cons hpair)]

theorem countOccurrences_pair {text : List Char} (h : Breaks .crlf text) :
    carriageReturnLineFeed.countOccurrences text = text.count '\n' := by
  have hlength := length_inStyle (normalizeLineEndings text)
  have hpairs := length_normalizeLineEndings text
  rw [inStyle_normalizeLineEndings h, count_normalizeLineEndings] at hlength
  omega

theorem detectLineEndings_crlf {raw : List Char} (h : Breaks .crlf raw) :
    detectLineEndings raw = .crlf ↔ '\n' ∈ Utf16.slice sampleSize raw := by
  obtain ⟨rest, hrest⟩ := Utf16.slice_prefix sampleSize raw
  have hsample : Breaks .crlf (Utf16.slice sampleSize raw) := (hrest ▸ h).of_append
  unfold detectLineEndings
  simp only [Literal.length_split, countOccurrences_lineFeed, countOccurrences_pair hsample,
    Nat.add_sub_cancel, Nat.sub_self, ite_eq_left_iff, reduceCtorEq, imp_false, Decidable.not_not,
    List.count_pos_iff]

theorem countOccurrences_absent {text : List Char} (h : ¬['\r', '\n'] <:+: text) :
    carriageReturnLineFeed.countOccurrences text = 0 := by
  apply Literal.countOccurrences_eq_zero.mpr
  rintro start ⟨front, back, rfl, -⟩
  exact h ⟨front, back, rfl⟩

theorem detectLineEndings_lf {raw : List Char} (h : ¬['\r', '\n'] <:+: raw) :
    detectLineEndings raw = .lf := by
  have hsample : ¬['\r', '\n'] <:+: Utf16.slice sampleSize raw :=
    fun hwithin => h (hwithin.trans (Utf16.slice_prefix sampleSize raw).isInfix)
  unfold detectLineEndings
  simp only [Literal.length_split, countOccurrences_absent hsample, Nat.add_sub_cancel,
    Nat.not_lt_zero, ite_false]

theorem inStyle_normalizeLineEndings_eq {text : List Char} :
    inStyle .crlf (normalizeLineEndings text) = inStyle .crlf text ↔
      ¬['\r', '\n'] <:+: text := by
  constructor
  · rintro heq ⟨front, back, rfl⟩
    have hlength := congrArg List.length heq
    rw [length_inStyle, length_inStyle, count_normalizeLineEndings] at hlength
    have hpairs := length_normalizeLineEndings (front ++ ['\r', '\n'] ++ back)
    have hcount : carriageReturnLineFeed.countOccurrences (front ++ ['\r', '\n'] ++ back) ≠ 0 :=
      fun hzero => Literal.countOccurrences_eq_zero.mp hzero _ (OccursAt.intro _ front back)
    omega
  · intro habsent
    rw [normalizeLineEndings_of_absent habsent]

end Breaks

/-- A UTF-8 text file, whose line breaks are all line feeds or all carriage return pairs. -/
structure TextFile where
  chars : List Char
  text : '\x00' ∉ chars
  breaks : Breaks .lf (Utf8.dropMark chars) ∨ Breaks .crlf (Utf8.dropMark chars)

namespace TextFile

variable (file : TextFile)

def mark : List Char := if file.chars.head? = some '\uFEFF' then ['\uFEFF'] else []

def body : List Char := Utf8.dropMark file.chars

def style : LineEndings := if ['\r', '\n'] <:+: file.body then .crlf else .lf

def content : List Char := normalizeLineEndings file.body

variable {file}

theorem mark_append_body : file.mark ++ file.body = file.chars := by
  unfold mark body
  cases file.chars with
  | nil => rfl
  | cons c rest =>
    by_cases hmark : c = '\uFEFF'
    · rw [hmark]
      rfl
    · rw [Utf8.dropMark_cons hmark, List.head?_cons, if_neg (by simp [hmark])]
      rfl

theorem style_eq_lf (h : file.style = .lf) : ¬['\r', '\n'] <:+: file.body := by
  intro hwithin
  unfold style at h
  rw [if_pos hwithin] at h
  cases h

theorem style_eq_crlf (h : file.style = .crlf) : Breaks .crlf file.body := by
  cases file.breaks with
  | inr hbreaks => exact hbreaks
  | inl hbreaks =>
    unfold style at h
    split at h
    · rename_i hwithin
      obtain ⟨front, back, hbody⟩ := hwithin
      have hbreak := hbreaks (front ++ ['\r']) back (by
        change file.body = _
        rw [← hbody, List.append_assoc, List.append_assoc]
        rfl)
      rw [List.getLast?_concat] at hbreak
      exact absurd (hbreak.mp rfl) (by decide)
    · cases h

theorem chars_eq : file.chars = file.mark ++ inStyle file.style file.content := by
  rw [← mark_append_body]
  unfold content
  cases hstyle : file.style with
  | lf => rw [inStyle_lf, normalizeLineEndings_of_absent (style_eq_lf hstyle)]
  | crlf => rw [inStyle_normalizeLineEndings (style_eq_crlf hstyle)]

theorem detect_lf (h : file.style = .lf) : detectLineEndings file.body = .lf :=
  detectLineEndings_lf (style_eq_lf h)

def Restorable (file : TextFile) (edited : List Char) : Prop :=
  file.mark = [] ∧ (file.style = .crlf → '\n' ∉ edited ∨
    '\n' ∈ Utf16.slice sampleSize file.body ∧ ¬['\r', '\n'] <:+: edited)

theorem append_eq_self_of_length {front text : List Char} {other : List Char}
    (h : front ++ text = other) (hlength : other.length ≤ text.length) :
    front = [] ∧ text = other := by
  cases front with
  | nil => exact ⟨rfl, h⟩
  | cons c front =>
    have := congrArg List.length h
    rw [List.length_append, List.length_cons] at this
    omega

theorem restored_eq_iff (edited : List Char) :
    file.mark ++ inStyle file.style edited =
      restoreLineEndings edited (detectLineEndings file.body) ↔ file.Restorable edited := by
  unfold Restorable
  cases hstyle : file.style with
  | lf =>
    rw [detect_lf hstyle, inStyle_lf]
    simp only [restoreLineEndings, List.append_left_eq_self, reduceCtorEq, false_implies,
      and_true]
  | crlf =>
    have hdetect := detectLineEndings_crlf (style_eq_crlf hstyle)
    simp only [true_implies]
    cases hfound : detectLineEndings file.body with
    | crlf =>
      have hsampled := hdetect.mp hfound
      rw [restoreLineEndings_crlf]
      constructor
      · intro heq
        obtain ⟨hmark, heq⟩ := append_eq_self_of_length heq (by
          have hpairs := length_normalizeLineEndings edited
          rw [length_inStyle, length_inStyle, count_normalizeLineEndings]
          omega)
        exact ⟨hmark, .inr ⟨hsampled, inStyle_normalizeLineEndings_eq.mp heq.symm⟩⟩
      · rintro ⟨hmark, hrestorable⟩
        rw [hmark, List.nil_append, eq_comm, inStyle_normalizeLineEndings_eq]
        cases hrestorable with
        | inl hunbroken =>
          rintro ⟨front, back, rfl⟩
          exact hunbroken (by simp)
        | inr hkept => exact hkept.2
    | lf =>
      have hunsampled : '\n' ∉ Utf16.slice sampleSize file.body := by
        intro hsampled
        rw [hdetect.mpr hsampled] at hfound
        cases hfound
      simp only [restoreLineEndings, hunsampled, false_and, or_false]
      constructor
      · intro heq
        obtain ⟨hmark, heq⟩ := append_eq_self_of_length heq (by
          rw [length_inStyle]
          exact Nat.le_add_right _ _)
        refine ⟨hmark, ?_⟩
        have hlength := congrArg List.length heq
        rw [length_inStyle, Nat.add_eq_left, List.count_eq_zero] at hlength
        exact hlength
      · rintro ⟨hmark, hunbroken⟩
        rw [hmark, List.nil_append, inStyle_of_unbroken _ hunbroken]

end TextFile

/-- The text an edit asks for: its only occurrence replaced, or all of them from the left. -/
inductive Edited (old new content : List Char) : Bool → List Char → Prop
  | once {front back : List Char} (hparts : content = front ++ old ++ back)
      (honly : ∀ start, OccursAt old content start → start = front.length) :
      Edited old new content false (front ++ new ++ back)
  | all {start : Nat} {replaced : List Char} (hoccurs : OccursAt old content start)
      (hreplaced : Replaced old new content replaced) : Edited old new content true replaced

def Asked (file : TextFile) (edit : FsEditRequest) (edited : List Char) : Prop :=
  Edited (normalizeLineEndings edit.oldString) (normalizeLineEndings edit.newString) file.content
    edit.replaceAll edited

/-- An edit succeeds when there is a text it asks for, and then the file is that text with its own
mark and its own breaks; a failed edit leaves the file. -/
structure Faithful (file : TextFile) (edit : FsEditRequest) (target : LocalFile)
    (result : Except FsError FsEditOutcome × Option LocalFile) : Prop where
  succeeds : (∃ outcome, result.1 = .ok outcome) ↔ ∃ edited, Asked file edit edited
  written : ∀ outcome, result.1 = .ok outcome → ∃ edited, Asked file edit edited ∧
    ∃ after, result.2 = some after ∧
      after.bytes = Utf8.encodeChars (file.mark ++ inStyle file.style edited)
  unchanged : ∀ failure, result.1 = .error failure → result.2 = some target

/-- Several occurrences are not all overlapping, and the breaks of the text asked for are ones that
are restored. -/
structure HoldsWhen (file : TextFile) (edit : FsEditRequest) : Prop where
  disjoint : edit.replaceAll = false → ∀ first second,
    OccursAt (normalizeLineEndings edit.oldString) file.content first →
    OccursAt (normalizeLineEndings edit.oldString) file.content second → first < second →
    ∃ one other, OccursAt (normalizeLineEndings edit.oldString) file.content one ∧
      OccursAt (normalizeLineEndings edit.oldString) file.content other ∧
      one + (normalizeLineEndings edit.oldString).length ≤ other
  restorable : ∀ edited, Asked file edit edited → file.Restorable edited

section Run

variable {file : TextFile} {edit : FsEditRequest} {displayPath : String}

theorem zero_not_mem_encodeChars : 0 ∉ Utf8.encodeChars file.chars := by
  intro hmem
  obtain ⟨c, hc, hbyte⟩ := List.mem_flatMap.mp hmem
  have hzero := Utf8.mem_utf8EncodeChar hbyte (by decide)
  have hnul : c = '\x00' := Char.toNat_inj.mp hzero
  exact file.text (hnul ▸ hc)

theorem encodeChars_injective : Function.Injective Utf8.encodeChars := by
  intro front back h
  have hfront := Utf8.decode_encode (String.ofList front)
  have hback := Utf8.decode_encode (String.ofList back)
  unfold Utf8.encode at hfront hback
  rw [String.toList_ofList] at hfront hback
  rw [h, hback, Option.some.injEq] at hfront
  exact (String.ofList_injective hfront).symm

theorem readForEdit_eq :
    readForEdit (Utf8.encodeChars file.chars) displayPath =
      .ok { content := file.content, lineEndings := detectLineEndings file.body } := by
  have hdecode : Utf8.decode (Utf8.stripBom (Utf8.encodeChars file.chars)) =
      some (String.ofList file.body) := by
    rw [Utf8.stripBom_encodeChars, ← Utf8.decode_encode (String.ofList _)]
    unfold Utf8.encode
    rw [String.toList_ofList]
    rfl
  unfold readForEdit decodeUtf8
  rw [if_neg zero_not_mem_encodeChars, hdecode]
  simp only [String.toList_ofList]
  rfl

def oldLiteral (hold : edit.oldString ≠ []) : Literal Char where
  units := normalizeLineEndings edit.oldString
  nonempty := fun hnil => hold (normalizeLineEndings_eq_nil.mp hnil)

theorem applyLiteralEdit_cases (displayPath : String) (hold : edit.oldString ≠ [])
    (content : List Char) :
    (∃ failure, applyLiteralEdit content edit displayPath = .error failure ∧
      ((oldLiteral hold).countOccurrences content = 0 ∨
        edit.replaceAll = false ∧ 1 < (oldLiteral hold).countOccurrences content)) ∨
    (∃ applied, applyLiteralEdit content edit displayPath = .ok applied ∧
      applied.content =
        (oldLiteral hold).replaceAll (normalizeLineEndings edit.newString) content ∧
      (oldLiteral hold).countOccurrences content ≠ 0 ∧
      (edit.replaceAll = false → (oldLiteral hold).countOccurrences content = 1)) := by
  have hnonempty : normalizeLineEndings edit.oldString ≠ [] := (oldLiteral hold).nonempty
  have hneedle : (⟨_, hnonempty⟩ : Literal Char) = oldLiteral hold := rfl
  unfold applyLiteralEdit
  simp only [dif_neg hnonempty, hneedle]
  split
  · rename_i habsent
    exact .inl ⟨_, rfl, .inl habsent⟩
  · rename_i hpresent
    split
    · rename_i hambiguous
      rw [Bool.and_eq_true, Bool.not_eq_true', decide_eq_true_eq] at hambiguous
      exact .inl ⟨_, rfl, .inr hambiguous⟩
    · rename_i hclear
      rw [Bool.and_eq_true, Bool.not_eq_true', decide_eq_true_eq, not_and, Nat.not_lt] at hclear
      refine .inr ⟨_, rfl, Literal.intercalate_split _ content, hpresent, ?_⟩
      intro honce
      have hsingle := hclear honce
      exact Nat.le_antisymm hsingle (Nat.pos_of_ne_zero hpresent)

theorem Asked.eq {edited : List Char} (hold : edit.oldString ≠ [])
    (hsingle : edit.replaceAll = false →
      (oldLiteral hold).countOccurrences file.content = 1) (h : Asked file edit edited) :
    edited =
      (oldLiteral hold).replaceAll (normalizeLineEndings edit.newString) file.content := by
  unfold Asked at h
  cases hmode : edit.replaceAll with
  | true =>
    rw [hmode] at h
    cases h with
    | all _ hreplaced => exact (oldLiteral hold).eq_replaceAll hreplaced
  | false =>
    rw [hmode] at h
    cases h with
    | @once front back hparts honly =>
      obtain ⟨before, after, hcontent, hreplaced⟩ :=
        (oldLiteral hold).replaceAll_of_single (normalizeLineEndings edit.newString) (hsingle hmode)
      have hlength := honly before.length ⟨before, after, hcontent, rfl⟩
      rw [hparts, List.append_assoc, List.append_assoc] at hcontent
      obtain ⟨rfl, hrest⟩ := List.append_inj hcontent hlength.symm
      rw [hreplaced, List.append_cancel_left hrest]

theorem exists_asked (hold : edit.oldString ≠ [])
    (hpresent : (oldLiteral hold).countOccurrences file.content ≠ 0)
    (honly : edit.replaceAll = false → ∀ first second,
      OccursAt (normalizeLineEndings edit.oldString) file.content first →
      OccursAt (normalizeLineEndings edit.oldString) file.content second → ¬first < second) :
    ∃ edited, Asked file edit edited := by
  rw [Ne, Literal.countOccurrences_eq_zero] at hpresent
  push Not at hpresent
  obtain ⟨start, hoccurs⟩ := hpresent
  unfold Asked
  cases hmode : edit.replaceAll with
  | true => exact ⟨_, .all hoccurs ((oldLiteral hold).replaced_replaceAll _ _)⟩
  | false =>
    have hfirst := hoccurs
    obtain ⟨front, back, hparts, rfl⟩ := hoccurs
    refine ⟨_, .once hparts ?_⟩
    intro other hother
    apply Nat.le_antisymm
    · exact Nat.not_lt.mp (honly hmode _ _ hfirst hother)
    · exact Nat.not_lt.mp (honly hmode _ _ hother hfirst)

theorem not_asked (hold : edit.oldString ≠ [])
    (h : (oldLiteral hold).countOccurrences file.content = 0 ∨
      edit.replaceAll = false ∧ 1 < (oldLiteral hold).countOccurrences file.content)
    (edited : List Char) : ¬Asked file edit edited := by
  intro hasked
  unfold Asked at hasked
  cases h with
  | inl habsent =>
    rw [Literal.countOccurrences_eq_zero] at habsent
    cases hmode : edit.replaceAll with
    | true =>
      rw [hmode] at hasked
      cases hasked with
      | all hoccurs _ => exact habsent _ hoccurs
    | false =>
      rw [hmode] at hasked
      cases hasked with
      | once hparts _ => exact habsent _ ⟨_, _, hparts, rfl⟩
  | inr hambiguous =>
    rw [hambiguous.1] at hasked
    cases hasked with
    | once hparts honly =>
      obtain ⟨first, second, hfirst, hsecond, hdisjoint⟩ :=
        ((oldLiteral hold).one_lt_countOccurrences _).mp hambiguous.2
      have hpos := (oldLiteral hold).length_pos
      have hfirst := honly first hfirst
      have hsecond := honly second hsecond
      omega

end Run

def TextFile.stored (file : TextFile) (version : String) (mode : Nat) : LocalFile where
  version := version
  mode := mode
  type := .file
  bytes := Utf8.encodeChars file.chars

section Runs

variable (file : TextFile) (version : String) (mode : Nat) (displayPath : String)
  (edit : FsEditRequest) (expected : Option String) (written : String)

theorem editText_eq (hexpected : ∀ basis ∈ expected, version = basis) :
    editText (some (file.stored version mode)) displayPath edit expected written =
      match applyLiteralEdit file.content edit displayPath with
      | .error failure => (.error failure, some (file.stored version mode))
      | .ok edited =>
        (.ok { version := written, before := file.content, after := edited.content },
          some { file.stored version mode with
            version := written
            bytes := Utf8.encodeChars
              (restoreLineEndings edited.content (detectLineEndings file.body)) }) := by
  have hfresh : expected.any ((file.stored version mode).version != ·) = false := by
    cases expected with
    | none => rfl
    | some basis =>
      rw [Option.any_some, bne_eq_false_iff_eq]
      exact hexpected basis rfl
  unfold editText
  simp only [hfresh]
  rw [if_neg (by simp [TextFile.stored]), if_neg Bool.false_ne_true]
  have hread : readForEdit (file.stored version mode).bytes displayPath = _ := readForEdit_eq
  cases happlied : applyLiteralEdit file.content edit displayPath <;> rw [hread] <;>
    simp only [happlied]

theorem faithful_iff (hexpected : ∀ basis ∈ expected, version = basis)
    (hold : edit.oldString ≠ []) :
    Faithful file edit (file.stored version mode)
        (editText (some (file.stored version mode)) displayPath edit expected written) ↔
      HoldsWhen file edit := by
  rw [editText_eq file version mode displayPath edit expected written hexpected]
  rcases applyLiteralEdit_cases displayPath hold file.content with
    ⟨failure, hfailure, hcount⟩ | ⟨applied, happlied, hcontent, hpresent, hsingle⟩
  · have hnone := not_asked hold hcount
    rw [hfailure]
    constructor
    · intro hfaithful
      refine ⟨?_, fun edited hasked => absurd hasked (hnone edited)⟩
      intro hmode first second hfirst hsecond hless
      cases hcount with
      | inl habsent => exact absurd hfirst (Literal.countOccurrences_eq_zero.mp habsent first)
      | inr hambiguous => exact ((oldLiteral hold).one_lt_countOccurrences _).mp hambiguous.2
    · intro hholds
      refine ⟨?_, fun _ houtcome => (nomatch houtcome), fun _ _ => rfl⟩
      constructor
      · rintro ⟨outcome, houtcome⟩
        cases houtcome
      · rintro ⟨edited, hasked⟩
        exact absurd hasked (hnone edited)
  · rw [happlied]
    constructor
    · intro hfaithful
      obtain ⟨asked, hasked, after, hafter, hbytes⟩ := hfaithful.written _ rfl
      refine ⟨?_, ?_⟩
      · intro hmode first second hfirst hsecond hless
        unfold Asked at hasked
        rw [hmode] at hasked
        cases hasked with
        | once _ honly =>
          rw [honly first hfirst, honly second hsecond] at hless
          exact absurd hless (Nat.lt_irrefl _)
      · intro edited hedited
        cases hafter
        have hrestored := encodeChars_injective hbytes
        rw [hcontent, ← hasked.eq hold hsingle] at hrestored
        rw [hedited.eq hold hsingle, ← hasked.eq hold hsingle]
        exact (TextFile.restored_eq_iff asked).mp hrestored.symm
    · intro hholds
      obtain ⟨edited, hedited⟩ := exists_asked hold hpresent (by
        intro hmode first second hfirst hsecond hless
        have hmore := ((oldLiteral hold).one_lt_countOccurrences file.content).mpr
          (hholds.disjoint hmode first second hfirst hsecond hless)
        rw [hsingle hmode] at hmore
        exact absurd hmore (Nat.lt_irrefl _))
      refine ⟨⟨fun _ => ⟨edited, hedited⟩, fun _ => ⟨_, rfl⟩⟩, ?_, fun _ hfailure => (nomatch hfailure)⟩
      intro outcome _
      refine ⟨edited, hedited, _, rfl, ?_⟩
      rw [hcontent, ← hedited.eq hold hsingle,
        (TextFile.restored_eq_iff edited).mpr (hholds.restorable edited hedited)]

theorem applyLiteralEdit_empty (content : List Char) (hold : edit.oldString = []) :
    applyLiteralEdit content edit displayPath =
      .error ⟨"old_string must be a non-empty string", "FS_EDIT_NOT_FOUND"⟩ := by
  unfold applyLiteralEdit
  simp only [normalizeLineEndings_eq_nil.mpr hold, dite_true]

/-- An edit is faithful to the file just when it holds, and an empty old string is refused. -/
theorem literal_edit (hexpected : ∀ basis ∈ expected, version = basis) :
    file.chars = file.mark ++ inStyle file.style file.content ∧
    (edit.oldString ≠ [] →
      (Faithful file edit (file.stored version mode)
          (editText (some (file.stored version mode)) displayPath edit expected written) ↔
        HoldsWhen file edit)) ∧
    (edit.oldString = [] →
      editText (some (file.stored version mode)) displayPath edit expected written =
        (.error ⟨"old_string must be a non-empty string", "FS_EDIT_NOT_FOUND"⟩,
          some (file.stored version mode))) := by
  refine ⟨TextFile.chars_eq, ?_, ?_⟩
  · intro hold
    exact faithful_iff file version mode displayPath edit expected written hexpected hold
  · intro hold
    rw [editText_eq file version mode displayPath edit expected written hexpected,
      applyLiteralEdit_empty displayPath edit file.content hold]

end Runs

section LongLine

theorem Breaks.single {front back : List Char} (hfront : '\n' ∉ front) (hback : '\n' ∉ back) :
    Breaks .crlf (front ++ ['\r', '\n'] ++ back) := by
  intro before after heq
  have hsplit : front ++ ['\r'] ++ '\n' :: back = before ++ '\n' :: after := by
    rw [← heq, List.append_assoc, List.append_assoc]
    rfl
  have hinner : '\n' ∉ front ++ ['\r'] := by
    rw [List.mem_append, not_or]
    exact ⟨hfront, by decide⟩
  obtain ⟨rfl, -⟩ := (List.append_cons_inj_of_notMem hinner hback).mp hsplit
  rw [List.getLast?_concat]
  exact iff_of_true rfl rfl

theorem slice_replicate (size : Nat) (rest : List Char) :
    Utf16.slice size (List.replicate size 'a' ++ rest) = List.replicate size 'a' := by
  induction size with
  | zero =>
    cases rest with
    | nil => rfl
    | cons c rest =>
      rw [List.replicate_zero, List.nil_append, Utf16.slice, if_neg]
      unfold Utf16.encodeChar
      split
      · exact Nat.not_succ_le_zero 0
      · exact Nat.not_succ_le_zero 1
  | succ size ih =>
    have hunit : (Utf16.encodeChar 'a').length = 1 := rfl
    rw [List.replicate_succ, List.cons_append, Utf16.slice, hunit, if_pos (Nat.le_add_left 1 size),
      Nat.add_sub_cancel, ih]

theorem normalizeLineEndings_replicate (size : Nat) (rest : List Char) :
    normalizeLineEndings (List.replicate size 'a' ++ rest) =
      List.replicate size 'a' ++ normalizeLineEndings rest := by
  induction size with
  | zero => rfl
  | succ size ih =>
    rw [List.replicate_succ, List.cons_append, List.cons_append, normalizeLineEndings_cons, ih]
    rintro ⟨back, hback⟩
    cases hback

theorem not_mem_replicate {c : Char} (hc : c ≠ 'a') (size : Nat) :
    c ∉ List.replicate size 'a' := by
  intro hmem
  exact hc (List.eq_of_mem_replicate hmem)

def longLine : TextFile where
  chars := List.replicate sampleSize 'a' ++ ['\r', '\n'] ++ ['b']
  text := by
    simp [List.mem_replicate]
  breaks := .inr (Breaks.single (not_mem_replicate (by decide) sampleSize) (by decide))

theorem longLine_body :
    longLine.body = List.replicate sampleSize 'a' ++ ['\r', '\n'] ++ ['b'] := rfl

theorem longLine_style : longLine.style = .crlf := if_pos ⟨_, _, longLine_body.symm⟩

theorem longLine_content :
    longLine.content = List.replicate sampleSize 'a' ++ ['\n'] ++ ['b'] := by
  have hpair : normalizeLineEndings ['\r', '\n', 'b'] = ['\n', 'b'] := by
    rw [normalizeLineEndings_pair, normalizeLineEndings_of_absent (by decide)]
  rw [TextFile.content, longLine_body, List.append_assoc, normalizeLineEndings_replicate,
    List.append_assoc]
  exact congrArg _ hpair

theorem longLine_edit :
    ¬Faithful longLine ⟨['b'], ['c'], false⟩ (longLine.stored "1" 0o644)
      (editText (some (longLine.stored "1" 0o644)) "notes.txt" ⟨['b'], ['c'], false⟩ none "2") := by
  rw [faithful_iff longLine "1" 0o644 "notes.txt" ⟨['b'], ['c'], false⟩ none "2"
    (fun _ hbasis => (nomatch hbasis)) (List.cons_ne_nil _ _)]
  intro hholds
  have hold : normalizeLineEndings ['b'] = ['b'] := normalizeLineEndings_of_absent (by decide)
  have hnew : normalizeLineEndings ['c'] = ['c'] := normalizeLineEndings_of_absent (by decide)
  have hasked : Asked longLine ⟨['b'], ['c'], false⟩
      (List.replicate sampleSize 'a' ++ ['\n'] ++ ['c'] ++ []) := by
    unfold Asked
    simp only [hold, hnew, longLine_content]
    apply Edited.once
    · rw [List.append_nil]
    · rintro _ ⟨front, back, hparts, rfl⟩
      have hinner : 'b' ∉ List.replicate sampleSize 'a' ++ ['\n'] := by
        rw [List.mem_append, not_or]
        exact ⟨not_mem_replicate (by decide) _, by decide⟩
      rw [List.append_assoc front] at hparts
      rw [((List.append_cons_inj_of_notMem hinner List.not_mem_nil).mp hparts).1]
  obtain ⟨-, hbreaks⟩ := hholds.restorable _ hasked
  cases hbreaks longLine_style with
  | inl hunbroken => exact hunbroken (by simp)
  | inr hsampled =>
    have hsample := hsampled.1
    rw [longLine_body, List.append_assoc, slice_replicate] at hsample
    exact not_mem_replicate (by decide) _ hsample

theorem literal_edit_longLine :
    Faithful longLine ⟨['a'], ['b'], true⟩ (longLine.stored "1" 0o644)
        (editText (some (longLine.stored "1" 0o644)) "notes.txt" ⟨['a'], ['b'], true⟩
          (some "1") "2") ↔
      HoldsWhen longLine ⟨['a'], ['b'], true⟩ :=
  (literal_edit longLine "1" 0o644 "notes.txt" ⟨['a'], ['b'], true⟩ (some "1") "2"
    (fun _ hbasis => (Option.some.inj hbasis))).2.1 (List.cons_ne_nil _ _)

end LongLine

end Harness.FsLocal
