import Mathlib.Data.List.Induction

namespace Harness.Foundation

variable {α : Type} (isSpace : α → Bool)

/-- What stands between white space, empty where white space meets white space. -/
def parts (text : List α) : List (List α) := text.splitOnP isSpace

def words (text : List α) : List (List α) := (parts isSpace text).filter (!·.isEmpty)

def folded (blank : α) (text : List α) : List α := [blank].intercalate (words isSpace text)

/-- The words that are over, each with the blank behind it, and the part that may go on. -/
def unfinished (blank : α) (text : List α) : List α :=
  ((parts isSpace text).dropLast.filter (!·.isEmpty)).flatMap (· ++ [blank]) ++
    ((parts isSpace text).getLast?.getD [])

section Parts

variable {isSpace}

variable (isSpace) in
theorem parts_split (text : List α) : ∃ front last, parts isSpace text = front ++ [last] :=
  ⟨_, _, (List.dropLast_concat_getLast (List.splitOnP_ne_nil isSpace text)).symm⟩

theorem parts_space {c : α} (h : isSpace c = true) (text : List α) :
    parts isSpace (text ++ [c]) = parts isSpace text ++ [[]] :=
  List.splitOnP_append_cons text [] h

theorem parts_other {c : α} (h : isSpace c = false) {text : List α} {front : List (List α)}
    {last : List α} (hparts : parts isSpace text = front ++ [last]) :
    parts isSpace (text ++ [c]) = front ++ [last ++ [c]] := by
  induction text generalizing front last with
  | nil =>
    have hsplit : [] ++ [[]] = front ++ [last] := hparts
    obtain ⟨rfl, hlast⟩ := List.append_inj' hsplit rfl
    cases hlast
    exact List.splitOnP_eq_singleton (List.forall_mem_singleton.mpr h)
  | cons first text ih =>
    obtain ⟨front', last', hrest⟩ := parts_split isSpace text
    have hsnoc := ih hrest
    rw [parts] at hsnoc hrest hparts ⊢
    rw [List.splitOnP_cons_eq_if_modifyHead, hrest] at hparts
    rw [List.cons_append, List.splitOnP_cons_eq_if_modifyHead, hsnoc]
    cases hfirst : isSpace first with
    | true =>
      rw [if_pos hfirst, ← List.cons_append] at hparts
      obtain ⟨rfl, hlast⟩ := List.append_inj' hparts rfl
      cases hlast
      rw [if_pos rfl, List.cons_append]
    | false =>
      rw [if_neg (Bool.not_eq_true _ ▸ hfirst)] at hparts
      rw [if_neg Bool.false_ne_true]
      cases front' with
      | nil =>
        have hsplit : [] ++ [first :: last'] = front ++ [last] := hparts
        obtain ⟨rfl, hlast⟩ := List.append_inj' hsplit rfl
        cases hlast
        rfl
      | cons part front' =>
        have hsplit : ((first :: part) :: front') ++ [last'] = front ++ [last] := hparts
        obtain ⟨rfl, hlast⟩ := List.append_inj' hsplit rfl
        cases hlast
        rfl

variable {blank c : α} {text : List α}

theorem unfinished_eq {front : List (List α)} {last : List α}
    (h : parts isSpace text = front ++ [last]) :
    unfinished isSpace blank text = (front.filter (!·.isEmpty)).flatMap (· ++ [blank]) ++ last := by
  rw [unfinished, h, List.dropLast_concat, List.getLast?_concat]
  rfl

theorem unfinished_other (h : isSpace c = false) :
    unfinished isSpace blank (text ++ [c]) = unfinished isSpace blank text ++ [c] := by
  obtain ⟨front, last, hparts⟩ := parts_split isSpace text
  rw [unfinished_eq (parts_other h hparts), unfinished_eq hparts, List.append_assoc]

theorem notSpace_of_parts {part : List α} (hpart : part ∈ parts isSpace text) :
    ∀ c ∈ part, isSpace c = false := by
  induction text using List.reverseRecOn generalizing part with
  | nil =>
    cases List.mem_singleton.mp hpart
    exact nofun
  | append_singleton text c ih =>
    cases hc : isSpace c with
    | true =>
      rw [parts_space hc, List.mem_append, List.mem_singleton] at hpart
      rcases hpart with hpart | rfl
      · exact ih hpart
      · exact nofun
    | false =>
      obtain ⟨front, last, hparts⟩ := parts_split isSpace text
      rw [parts_other hc hparts, List.mem_append, List.mem_singleton] at hpart
      rcases hpart with hpart | rfl
      · exact ih (hparts ▸ List.mem_append_left _ hpart)
      · rw [List.forall_mem_append, List.forall_mem_singleton]
        exact ⟨ih (hparts ▸ List.mem_append_right _ (List.mem_singleton_self last)), hc⟩

theorem getLast?_of_parts {front : List (List α)} {last : List α} (hblank : isSpace blank = true)
    (h : parts isSpace text = front ++ [last]) (hlast : last ≠ []) :
    (unfinished isSpace blank text).getLast? ≠ some blank := by
  intro heq
  rw [unfinished_eq h, List.getLast?_append, List.getLast?_eq_some_getLast hlast,
    Option.some_or, Option.some.injEq] at heq
  have hmem : last ∈ parts isSpace text :=
    h ▸ List.mem_append_right _ (List.mem_singleton_self last)
  have hspace := notSpace_of_parts hmem blank (heq ▸ List.getLast_mem hlast)
  rw [hblank] at hspace
  cases hspace

theorem unfinished_open (blank : α) {front : List (List α)}
    (h : parts isSpace text = front ++ [[]]) :
    unfinished isSpace blank text = [] ∨
      (unfinished isSpace blank text).getLast? = some blank := by
  rw [unfinished_eq h, List.append_nil]
  rcases List.eq_nil_or_concat (front.filter (!·.isEmpty)) with hwords | ⟨words, word, hwords⟩
  · left
    rw [hwords]
    rfl
  · right
    rw [hwords, List.concat_eq_append, List.flatMap_append, List.flatMap_singleton,
      ← List.append_assoc, List.getLast?_concat]

theorem unfinished_space [DecidableEq α] (hblank : isSpace blank = true)
    (h : isSpace c = true) :
    unfinished isSpace blank (text ++ [c]) =
      if unfinished isSpace blank text ≠ [] ∧
        (unfinished isSpace blank text).getLast? ≠ some blank
      then unfinished isSpace blank text ++ [blank] else unfinished isSpace blank text := by
  obtain ⟨front, last, hparts⟩ := parts_split isSpace text
  have hnext := parts_space h text
  rw [hparts] at hnext
  by_cases hlast : last = []
  · subst hlast
    rw [if_neg]
    · rw [unfinished_eq hnext, unfinished_eq hparts, List.filter_append]
      simp only [List.isEmpty_nil, Bool.not_true, Bool.false_eq_true, not_false_eq_true,
        List.filter_cons_of_neg, List.filter_nil, List.append_nil]
    · intro hopen
      rcases unfinished_open blank hparts with hempty | hlast
      · exact hopen.1 hempty
      · exact hopen.2 hlast
  · have hword : (!last.isEmpty) = true := by
      rw [List.isEmpty_eq_false_iff.mpr hlast]
      rfl
    rw [if_pos]
    · rw [unfinished_eq hnext, unfinished_eq hparts, List.filter_append, List.filter_cons_of_pos
        (p := fun part : List α => !part.isEmpty) hword, List.filter_nil, List.flatMap_append,
        List.flatMap_singleton, List.append_nil, List.append_assoc]
    · refine ⟨?_, getLast?_of_parts hblank hparts hlast⟩
      rw [unfinished_eq hparts]
      exact List.append_ne_nil_of_right_ne_nil _ hlast

theorem intercalate_concat (words : List (List α)) (word : List α) :
    [blank].intercalate (words ++ [word]) = words.flatMap (· ++ [blank]) ++ word := by
  induction words with
  | nil => exact List.intercalate_singleton
  | cons first words ih =>
    obtain ⟨second, rest, hrest⟩ := List.exists_cons_of_ne_nil
      (List.append_ne_nil_of_right_ne_nil words (List.cons_ne_nil word []))
    rw [List.cons_append, hrest, List.intercalate_cons_cons, ← hrest, ih, List.flatMap_cons,
      List.append_assoc (first ++ [blank])]

theorem folded_eq [DecidableEq α] (hblank : isSpace blank = true) (text : List α) :
    folded isSpace blank text =
      if (unfinished isSpace blank text).getLast? = some blank
      then (unfinished isSpace blank text).dropLast else unfinished isSpace blank text := by
  obtain ⟨front, last, hparts⟩ := parts_split isSpace text
  rw [folded, words, hparts, List.filter_append]
  by_cases hlast : last = []
  · subst hlast
    simp only [List.isEmpty_nil, Bool.not_true, Bool.false_eq_true, not_false_eq_true,
      List.filter_cons_of_neg, List.filter_nil, List.append_nil]
    rw [unfinished_eq hparts, List.append_nil]
    rcases List.eq_nil_or_concat (front.filter (!·.isEmpty)) with hwords | ⟨words, word, hwords⟩
    · rw [hwords]
      rfl
    · rw [hwords, List.concat_eq_append, intercalate_concat, List.flatMap_append,
        List.flatMap_singleton, ← List.append_assoc, List.getLast?_concat, if_pos rfl,
        List.dropLast_concat]
  · have hword : (!last.isEmpty) = true := by
      rw [List.isEmpty_eq_false_iff.mpr hlast]
      rfl
    rw [if_neg (getLast?_of_parts hblank hparts hlast), List.filter_cons_of_pos
      (p := fun part : List α => !part.isEmpty) hword, List.filter_nil, intercalate_concat,
      unfinished_eq hparts]

theorem unfinished_grows [DecidableEq α] (hblank : isSpace blank = true) (text more : List α) :
    unfinished isSpace blank text <+: unfinished isSpace blank (text ++ more) := by
  induction more using List.reverseRecOn with
  | nil => exact (List.append_nil text).symm ▸ List.prefix_rfl
  | append_singleton more c ih =>
    apply ih.trans
    rw [← List.append_assoc]
    cases hc : isSpace c with
    | true =>
      rw [unfinished_space hblank hc]
      split
      · exact List.prefix_append _ _
      · exact List.prefix_refl _
    | false =>
      rw [unfinished_other hc]
      exact List.prefix_append _ _

theorem unfinished_folded [DecidableEq α] (hblank : isSpace blank = true)
    (hc : isSpace c = false) (front back : List α) :
    unfinished isSpace blank front ++ [c] <+: folded isSpace blank (front ++ c :: back) := by
  have hgrows := unfinished_grows hblank (front ++ [c]) back
  rw [unfinished_other hc, List.append_assoc, List.singleton_append] at hgrows
  rw [folded_eq hblank]
  split
  · next hlast =>
    obtain ⟨more, hmore⟩ := hgrows
    rw [← hmore] at hlast ⊢
    rcases List.eq_nil_or_concat more with rfl | ⟨more, final, rfl⟩
    · rw [List.append_nil, List.getLast?_concat] at hlast
      cases hlast
      rw [hblank] at hc
      cases hc
    · rw [List.concat_eq_append, ← List.append_assoc, List.dropLast_concat]
      exact List.prefix_append _ _
  · exact hgrows

end Parts

end Harness.Foundation
