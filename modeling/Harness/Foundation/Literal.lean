import Mathlib.Data.List.Basic
import Mathlib.Data.Nat.Find

namespace Harness.Foundation

variable {α : Type}

def OccursAt (needle text : List α) (start : Nat) : Prop :=
  ∃ front back, text = front ++ needle ++ back ∧ front.length = start

theorem OccursAt.intro (needle front back : List α) :
    OccursAt needle (front ++ needle ++ back) front.length :=
  ⟨front, back, rfl, rfl⟩

theorem OccursAt.append {needle text : List α} {start : Nat} (h : OccursAt needle text start)
    (front : List α) : OccursAt needle (front ++ text) (front.length + start) := by
  obtain ⟨before, after, rfl, rfl⟩ := h
  exact ⟨front ++ before, after, by simp only [List.append_assoc], List.length_append⟩

theorem OccursAt.of_append {needle front text : List α} {start : Nat}
    (h : OccursAt needle (front ++ text) start) (hstart : front.length ≤ start) :
    ∃ inner, OccursAt needle text inner := by
  obtain ⟨before, after, heq, rfl⟩ := h
  rw [List.append_assoc] at heq
  obtain ⟨inner, rfl⟩ := List.prefix_of_prefix_length_le (List.prefix_append front text)
    (heq ▸ List.prefix_append before (needle ++ after)) hstart
  rw [List.append_assoc, List.append_cancel_left_eq] at heq
  exact ⟨inner.length, inner, after, by rw [heq, List.append_assoc], rfl⟩

structure Literal (α : Type) where
  units : List α
  nonempty : units ≠ []

inductive Replaced (needle new : List α) : List α → List α → Prop
  | clear {text : List α} (h : ∀ start, ¬OccursAt needle text start) : Replaced needle new text text
  | next {front back rest : List α}
      (h : ∀ start, OccursAt needle (front ++ needle ++ back) start → front.length ≤ start)
      (hrest : Replaced needle new back rest) :
      Replaced needle new (front ++ needle ++ back) (front ++ new ++ rest)

namespace Literal

theorem length_pos (needle : Literal α) : 0 < needle.units.length :=
  List.length_pos_iff.mpr needle.nonempty

variable [DecidableEq α] (needle : Literal α)

def find (text : List α) : Option (List α × List α) := text.dropInfix? needle.units

variable {needle} {text front back : List α}

theorem find_eq_some : needle.find text = some (front, back) ↔
    text = front ++ needle.units ++ back ∧
      ∀ start, OccursAt needle.units text start → front.length ≤ start := by
  unfold find
  rw [List.dropInfix?_eq_some_iff]
  simp only [beq_iff_eq]
  constructor
  · rintro ⟨⟨_, rfl, rfl⟩, hleast⟩
    refine ⟨rfl, ?_⟩
    rintro start ⟨before, after, heq, rfl⟩
    exact hleast before _ after heq rfl
  · rintro ⟨rfl, hleast⟩
    refine ⟨⟨_, rfl, rfl⟩, ?_⟩
    rintro before _ after heq rfl
    exact hleast _ ⟨before, after, heq, rfl⟩

theorem find_eq_none : needle.find text = none ↔ ∀ start, ¬OccursAt needle.units text start := by
  classical
  constructor
  · intro hnone start hoccurs
    have hexists : ∃ start, OccursAt needle.units text start := ⟨start, hoccurs⟩
    obtain ⟨front, back, heq, hlength⟩ := Nat.find_spec hexists
    have hfound : needle.find text = some (front, back) :=
      find_eq_some.mpr ⟨heq, fun other hother => hlength ▸ Nat.find_min' hexists hother⟩
    rw [hnone] at hfound
    cases hfound
  · intro habsent
    cases hfound : needle.find text with
    | none => rfl
    | some parts =>
      obtain ⟨heq, -⟩ := find_eq_some.mp hfound
      exact absurd ⟨_, _, heq, rfl⟩ (habsent parts.1.length)

theorem length_back (h : needle.find text = some (front, back)) : back.length < text.length := by
  obtain ⟨rfl, -⟩ := find_eq_some.mp h
  have hpos := needle.length_pos
  simp only [List.length_append]
  omega

variable (needle)

def countOccurrences (text : List α) : Nat :=
  match _ : needle.find text with
  | none => 0
  | some (_, back) => countOccurrences back + 1
termination_by text.length
decreasing_by exact length_back ‹_›

def split (text : List α) : List (List α) :=
  match _ : needle.find text with
  | none => [text]
  | some (front, back) => front :: split back
termination_by text.length
decreasing_by exact length_back ‹_›

def replaceAll (replacement text : List α) : List α :=
  match _ : needle.find text with
  | none => text
  | some (front, back) => front ++ replacement ++ replaceAll replacement back
termination_by text.length
decreasing_by exact length_back ‹_›

variable {needle} {replacement : List α}

theorem countOccurrences_none (h : needle.find text = none) : needle.countOccurrences text = 0 := by
  rw [countOccurrences]
  split <;> simp_all

theorem countOccurrences_some (h : needle.find text = some (front, back)) :
    needle.countOccurrences text = needle.countOccurrences back + 1 := by
  rw [countOccurrences]
  split <;> simp_all

theorem split_none (h : needle.find text = none) : needle.split text = [text] := by
  rw [split]
  split <;> simp_all

theorem split_some (h : needle.find text = some (front, back)) :
    needle.split text = front :: needle.split back := by
  rw [split]
  split <;> simp_all

theorem replaceAll_none (h : needle.find text = none) :
    needle.replaceAll replacement text = text := by
  rw [replaceAll]
  split <;> simp_all

theorem replaceAll_some (h : needle.find text = some (front, back)) :
    needle.replaceAll replacement text =
      front ++ replacement ++ needle.replaceAll replacement back := by
  rw [replaceAll]
  split <;> simp_all

theorem intercalate_split (replacement text : List α) :
    List.intercalate replacement (needle.split text) = needle.replaceAll replacement text := by
  induction text using (measure List.length).wf.induction with
  | _ text ih =>
    cases hfind : needle.find text with
    | none =>
      rw [split_none hfind, replaceAll_none hfind]
      exact List.append_nil text
    | some parts =>
      obtain ⟨front, back⟩ := parts
      have hback := ih back (length_back hfind)
      rw [split_some hfind, replaceAll_some hfind, ← hback]
      cases hsplit : needle.split back with
      | nil =>
        rw [split] at hsplit
        split at hsplit <;> cases hsplit
      | cons piece pieces => simp [List.intercalate, List.intersperse]

theorem length_split (text : List α) :
    (needle.split text).length = needle.countOccurrences text + 1 := by
  induction text using (measure List.length).wf.induction with
  | _ text ih =>
    cases hfind : needle.find text with
    | none => rw [split_none hfind, countOccurrences_none hfind]; rfl
    | some parts =>
      rw [split_some hfind, countOccurrences_some hfind, List.length_cons,
        ih _ (length_back hfind)]

theorem replaced_replaceAll (replacement text : List α) :
    Replaced needle.units replacement text (needle.replaceAll replacement text) := by
  induction text using (measure List.length).wf.induction with
  | _ text ih =>
    cases hfind : needle.find text with
    | none =>
      rw [replaceAll_none hfind]
      exact .clear (find_eq_none.mp hfind)
    | some parts =>
      rw [replaceAll_some hfind]
      obtain ⟨hparts, hleast⟩ := find_eq_some.mp hfind
      have hback := ih parts.2 (length_back hfind)
      rw [hparts] at hleast ⊢
      exact .next hleast hback

theorem eq_replaceAll (needle : Literal α) {replaced : List α}
    (h : Replaced needle.units replacement text replaced) :
    replaced = needle.replaceAll replacement text := by
  induction h with
  | clear h => exact (replaceAll_none (find_eq_none.mpr h)).symm
  | next hleast _ ih => rw [replaceAll_some (find_eq_some.mpr ⟨rfl, hleast⟩), ih]

theorem countOccurrences_eq_zero :
    needle.countOccurrences text = 0 ↔ ∀ start, ¬OccursAt needle.units text start := by
  rw [← find_eq_none]
  cases hfind : needle.find text with
  | none => simp only [countOccurrences_none hfind]
  | some parts => simp only [countOccurrences_some hfind, Nat.add_one_ne_zero, reduceCtorEq]

theorem one_lt_countOccurrences (needle : Literal α) (text : List α) :
    1 < needle.countOccurrences text ↔
      ∃ first second, OccursAt needle.units text first ∧ OccursAt needle.units text second ∧
        first + needle.units.length ≤ second := by
  cases hfind : needle.find text with
  | none =>
    simp only [countOccurrences_none hfind, Nat.not_lt_zero, false_iff]
    rintro ⟨first, second, hoccurs, -⟩
    exact find_eq_none.mp hfind first hoccurs
  | some parts =>
    obtain ⟨front, back⟩ := parts
    obtain ⟨rfl, hleast⟩ := find_eq_some.mp hfind
    rw [countOccurrences_some hfind, Nat.lt_add_left_iff_pos, Nat.pos_iff_ne_zero, Ne,
      countOccurrences_eq_zero]
    push Not
    constructor
    · rintro ⟨inner, hinner⟩
      refine ⟨_, _, OccursAt.intro needle.units front back, hinner.append _, ?_⟩
      rw [List.length_append]
      exact Nat.le_add_right _ _
    · rintro ⟨first, second, hfirst, hsecond, hdisjoint⟩
      apply hsecond.of_append
      have hfront := hleast first hfirst
      rw [List.length_append]
      omega

theorem replaceAll_of_single (needle : Literal α) (replacement : List α)
    (h : needle.countOccurrences text = 1) :
    ∃ front back, text = front ++ needle.units ++ back ∧
      needle.replaceAll replacement text = front ++ replacement ++ back := by
  cases hfind : needle.find text with
  | none =>
    rw [countOccurrences_none hfind] at h
    cases h
  | some parts =>
    obtain ⟨front, back⟩ := parts
    rw [countOccurrences_some hfind, Nat.add_eq_right, countOccurrences_eq_zero,
      ← find_eq_none] at h
    refine ⟨front, back, (find_eq_some.mp hfind).1, ?_⟩
    rw [replaceAll_some hfind, replaceAll_none h]

section Cons

variable {c : α}

theorem find_append (text : List α) :
    needle.find (needle.units ++ text) = some ([], text) :=
  find_eq_some.mpr ⟨rfl, fun _ _ => Nat.zero_le _⟩

theorem find_cons (h : ¬needle.units <+: c :: text) :
    needle.find (c :: text) = (needle.find text).map fun parts => (c :: parts.1, parts.2) := by
  have hpositive : ∀ start, OccursAt needle.units (c :: text) start →
      ∃ inner, start = inner + 1 ∧ OccursAt needle.units text inner := by
    rintro _ ⟨before, after, heq, rfl⟩
    cases before with
    | nil => exact absurd ⟨after, heq.symm⟩ h
    | cons _ before =>
      rw [List.cons_append, List.cons_append, List.cons.injEq] at heq
      exact ⟨before.length, rfl, before, after, heq.2, rfl⟩
  cases hfind : needle.find text with
  | none =>
    refine find_eq_none.mpr fun start hstart => ?_
    obtain ⟨inner, -, hinner⟩ := hpositive start hstart
    exact find_eq_none.mp hfind inner hinner
  | some parts =>
    obtain ⟨htext, hleast⟩ := find_eq_some.mp hfind
    refine find_eq_some.mpr ⟨by rw [htext]; rfl, fun start hstart => ?_⟩
    obtain ⟨inner, rfl, hinner⟩ := hpositive start hstart
    exact Nat.succ_le_succ (hleast inner hinner)

theorem replaceAll_append (text : List α) :
    needle.replaceAll replacement (needle.units ++ text) =
      replacement ++ needle.replaceAll replacement text := by
  rw [replaceAll_some (find_append text), List.nil_append]

theorem replaceAll_cons (h : ¬needle.units <+: c :: text) :
    needle.replaceAll replacement (c :: text) = c :: needle.replaceAll replacement text := by
  have hfound := find_cons h
  cases hfind : needle.find text with
  | none =>
    rw [hfind] at hfound
    rw [replaceAll_none hfound, replaceAll_none hfind]
  | some parts =>
    rw [hfind] at hfound
    rw [replaceAll_some hfound, replaceAll_some hfind]
    rfl

theorem countOccurrences_append (text : List α) :
    needle.countOccurrences (needle.units ++ text) = needle.countOccurrences text + 1 :=
  countOccurrences_some (find_append text)

theorem countOccurrences_cons (h : ¬needle.units <+: c :: text) :
    needle.countOccurrences (c :: text) = needle.countOccurrences text := by
  have hfound := find_cons h
  cases hfind : needle.find text with
  | none =>
    rw [hfind] at hfound
    rw [countOccurrences_none hfound, countOccurrences_none hfind]
  | some parts =>
    rw [hfind] at hfound
    rw [countOccurrences_some hfound, countOccurrences_some hfind]

end Cons

end Literal

end Harness.Foundation
