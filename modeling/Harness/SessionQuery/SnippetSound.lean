import Harness.SessionQuery.Snippet

namespace Harness.SessionQuery

open Harness.Foundation

theorem length_ellipsis (shown : Bool) : (ellipsis shown).length = if shown then 1 else 0 := by
  cases shown <;> rfl

/-- A window as long as the budget allows, with a position in it. The ellipsis behind it is left
out of a snippet of two code points that has one before it. -/
structure SnippetWindow.Covers (window : SnippetWindow) (length maxChars position : Nat) :
    Prop where
  start_le : window.start ≤ position
  lt_stop : position < window.stop
  stop_le : window.stop ≤ length
  before_iff : window.before = true ↔ 0 < window.start
  behind_iff : window.behind = true ↔ window.stop < length ∧ (3 ≤ maxChars ∨ window.start = 0)
  full : (ellipsis window.before).length + (window.stop - window.start) +
    (ellipsis window.behind).length = maxChars

section Window

variable {length matchStart maxChars : Nat}

theorem snippetWindow_front (hbudget : 2 ≤ maxChars) (hlength : maxChars < length)
    (hstart : min matchStart (length - 1) - maxChars / 3 = 0) :
    snippetWindow length matchStart maxChars = ⟨0, maxChars - 1, false, true⟩ := by
  simp only [snippetWindow, hstart, Nat.lt_irrefl, decide_false, length_ellipsis,
    Bool.false_eq_true, ↓reduceIte, Nat.sub_zero, Nat.zero_add]
  rw [if_neg (show ¬ maxChars - 1 < 1 by omega),
    if_neg (show ¬ maxChars - 1 ≤ min matchStart (length - 1) by omega)]
  have hstop : min length (maxChars - 1) = maxChars - 1 := by omega
  simp only [Nat.zero_add, hstop]
  rw [if_neg (show ¬ maxChars - 1 = length by omega)]
  simp only [Nat.zero_add, hstop]

theorem snippetWindow_two (hlength : 2 < length) (hstart : 0 < min matchStart (length - 1)) :
    snippetWindow length matchStart 2 =
      ⟨min matchStart (length - 1), min matchStart (length - 1) + 1, true, false⟩ := by
  have hstop : min length (min matchStart (length - 1) + 1) = min matchStart (length - 1) + 1 := by
    omega
  simp only [snippetWindow, Nat.reduceDiv, Nat.sub_zero, hstart, decide_true, length_ellipsis,
    ↓reduceIte, Nat.reduceSub, Nat.lt_one_iff, hstop]
  split
  · next hend => simp only [Nat.add_sub_cancel, hstop]
  · simp only [hstop]

/-- Where a window with an ellipsis before it starts, unless it would reach the end. -/
def innerStart (matchedIndex maxChars : Nat) : Nat :=
  if maxChars = 3 then matchedIndex else matchedIndex - maxChars / 3

theorem snippetWindow_inner (hbudget : 3 ≤ maxChars)
    (hstart : 0 < min matchStart (length - 1) - maxChars / 3) :
    snippetWindow length matchStart maxChars =
      if length ≤ innerStart (min matchStart (length - 1)) maxChars + (maxChars - 2) then
        ⟨length - (maxChars - 1), min length (length - (maxChars - 1) + (maxChars - 1)), true,
          false⟩
      else ⟨innerStart (min matchStart (length - 1)) maxChars,
        innerStart (min matchStart (length - 1)) maxChars + (maxChars - 2), true, true⟩ := by
  have hcontent : maxChars - 1 - 1 = maxChars - 2 := rfl
  simp only [snippetWindow, hstart, decide_true, length_ellipsis, ↓reduceIte, hcontent]
  rw [if_neg (show ¬ maxChars - 2 < 1 by omega)]
  have hshift : (if min matchStart (length - 1) - maxChars / 3 + (maxChars - 2) ≤
        min matchStart (length - 1) then
        (min matchStart (length - 1) - (maxChars - 2) + 1, true, maxChars - 2)
      else (min matchStart (length - 1) - maxChars / 3, true, maxChars - 2)) =
      (innerStart (min matchStart (length - 1)) maxChars, true, maxChars - 2) := by
    rw [innerStart]
    by_cases hthree : maxChars = 3
    · subst hthree
      rw [if_pos (by omega), if_pos rfl]
      congr 1
      omega
    · rw [if_neg (by omega), if_neg hthree]
  rw [hshift]
  simp only []
  by_cases hend : length ≤ innerStart (min matchStart (length - 1)) maxChars + (maxChars - 2)
  · have hstop : min length (innerStart (min matchStart (length - 1)) maxChars + (maxChars - 2)) =
        length := Nat.min_eq_left hend
    rw [if_pos hend, if_pos hstop, hstop]
  · have hstop := Nat.min_eq_right (Nat.le_of_not_le hend)
    have hinside : ¬ innerStart (min matchStart (length - 1)) maxChars + (maxChars - 2) =
        length := by
      omega
    rw [if_neg hend, hstop, if_neg hinside]
    simp only [hstop]

end Window

theorem snippetWindow_covers {length maxChars : Nat} (matchStart : Nat) (hbudget : 2 ≤ maxChars)
    (hlength : maxChars < length) :
    (snippetWindow length matchStart maxChars).Covers length maxChars
      (min matchStart (length - 1)) := by
  by_cases hstart : min matchStart (length - 1) - maxChars / 3 = 0
  · rw [snippetWindow_front hbudget hlength hstart]
    constructor <;> simp only [length_ellipsis, Bool.false_eq_true, ↓reduceIte,
        eq_self, or_true, and_true, true_iff, false_iff] <;> omega
  · rcases Nat.lt_or_eq_of_le hbudget with hthree | rfl
    · rw [snippetWindow_inner hthree (Nat.pos_of_ne_zero hstart)]
      have hinner : innerStart (min matchStart (length - 1)) maxChars ≤
            min matchStart (length - 1) ∧
          0 < innerStart (min matchStart (length - 1)) maxChars ∧ min matchStart (length - 1) <
          innerStart (min matchStart (length - 1)) maxChars + (maxChars - 2) := by
        rw [innerStart]
        split <;> omega
      split <;> constructor <;> simp only [length_ellipsis, Bool.false_eq_true, ↓reduceIte,
        eq_self, true_iff, false_iff] <;> omega
    · rw [snippetWindow_two hlength (by omega)]
      constructor <;> simp only [length_ellipsis, Bool.false_eq_true, ↓reduceIte,
        eq_self, true_iff, false_iff] <;> omega

def unmarked (markedText : List Char) : List Char :=
  markedText.filter fun c => c ≠ ftsHighlightStart ∧ c ≠ ftsHighlightEnd

def normalized (markedText : List Char) : List Char := folded isSpace ' ' (unmarked markedText)

def reached (before : List Char) : Nat := (unfinished isSpace ' ' (unmarked before)).length

/-- The position of the first code point of the folded text that comes from the first highlight
on. -/
structure FirstMatched (markedText : List Char) (position : Nat) : Prop where
  highlighted : ∃ before after, markedText = before ++ ftsHighlightStart :: after ∧
    ftsHighlightStart ∉ before ∧ position = reached before
  lt_length : position < (normalized markedText).length

section Reading

theorem isSpace_blank : isSpace ' ' = true := by decide

theorem unmarked_snoc (markedText : List Char) (c : Char) :
    unmarked (markedText ++ [c]) =
      if c = ftsHighlightStart ∨ c = ftsHighlightEnd then unmarked markedText
      else unmarked markedText ++ [c] := by
  rw [unmarked, unmarked, List.filter_append]
  split
  · next hmark =>
    rw [List.filter_cons_of_neg, List.filter_nil, List.append_nil]
    rw [decide_eq_true_eq, ← not_or, not_not]
    exact hmark
  · next hmark =>
    rw [List.filter_cons_of_pos, List.filter_nil]
    rw [decide_eq_true_eq, ← not_or]
    exact hmark

theorem read_snoc (markedText : List Char) (c : Char) :
    MarkedText.read (markedText ++ [c]) = (MarkedText.read markedText).take c := by
  rw [MarkedText.read, List.foldl_append]
  rfl

theorem characters_read (markedText : List Char) :
    (MarkedText.read markedText).characters = unfinished isSpace ' ' (unmarked markedText) := by
  induction markedText using List.reverseRecOn with
  | nil => rfl
  | append_singleton markedText c ih =>
    rw [read_snoc, unmarked_snoc, MarkedText.take]
    by_cases hstart : c = ftsHighlightStart
    · rw [if_pos hstart, if_pos (Or.inl hstart)]
      exact ih
    · rw [if_neg hstart]
      by_cases hend : c = ftsHighlightEnd
      · rw [if_pos hend, if_pos (Or.inr hend)]
        exact ih
      · rw [if_neg hend, if_neg (not_or.mpr ⟨hstart, hend⟩)]
        by_cases hspace : isSpace c = true
        · rw [if_pos hspace, unfinished_space isSpace_blank hspace, ← ih]
          split <;> rfl
        · rw [if_neg hspace, unfinished_other (Bool.eq_false_iff.mpr hspace), ← ih]

theorem matchStart_take (state : MarkedText) (c : Char) :
    (state.take c).matchStart = if c = ftsHighlightStart then
      state.matchStart.or (some state.characters.length) else state.matchStart := by
  rw [MarkedText.take]
  repeat' split
  all_goals rfl

theorem matchStart_read_none {markedText : List Char} (h : ftsHighlightStart ∉ markedText) :
    (MarkedText.read markedText).matchStart = none := by
  induction markedText using List.reverseRecOn with
  | nil => rfl
  | append_singleton markedText c ih =>
    rw [List.mem_append, not_or, List.mem_singleton] at h
    rw [read_snoc, matchStart_take, if_neg (Ne.symm h.2)]
    exact ih h.1

theorem matchStart_read {before : List Char} (h : ftsHighlightStart ∉ before)
    (after : List Char) :
    (MarkedText.read (before ++ ftsHighlightStart :: after)).matchStart =
      some (reached before) := by
  induction after using List.reverseRecOn with
  | nil =>
    rw [read_snoc, matchStart_take, if_pos rfl, matchStart_read_none h, characters_read]
    rfl
  | append_singleton after c ih =>
    rw [← List.cons_append, ← List.append_assoc, read_snoc, matchStart_take, ih]
    split <;> rfl

theorem normalizeMarkedText_fst (markedText : List Char) :
    (normalizeMarkedText markedText).1 = normalized markedText := by
  rw [normalized, folded_eq isSpace_blank, ← characters_read]
  rfl

theorem FirstMatched.matchStart {markedText : List Char} {position : Nat}
    (h : FirstMatched markedText position) :
    min (normalizeMarkedText markedText).2 ((normalized markedText).length - 1) = position := by
  obtain ⟨before, after, rfl, hbefore, hposition⟩ := h.highlighted
  have hstart : (normalizeMarkedText (before ++ ftsHighlightStart :: after)).2 = position := by
    rw [normalizeMarkedText, matchStart_read hbefore, hposition]
    rfl
  rw [hstart]
  exact Nat.min_eq_left (Nat.le_sub_one_of_lt h.lt_length)

theorem firstMatched_of_other {before : List Char} (c : Char) (after : List Char)
    (hbefore : ftsHighlightStart ∉ before) (hspace : isSpace c = false)
    (hstart : c ≠ ftsHighlightStart) (hend : c ≠ ftsHighlightEnd) :
    FirstMatched (before ++ ftsHighlightStart :: c :: after) (reached before) ∧
      (normalized (before ++ ftsHighlightStart :: c :: after))[reached before]? = some c := by
  have hunmarked : unmarked (before ++ ftsHighlightStart :: c :: after) =
      unmarked before ++ c :: unmarked after := by
    rw [unmarked, List.filter_append, List.filter_cons_of_neg (by simp), List.filter_cons_of_pos]
    · rfl
    · rw [decide_eq_true_eq]
      exact ⟨hstart, hend⟩
  obtain ⟨more, hmore⟩ := unfinished_folded isSpace_blank hspace (unmarked before)
    (unmarked after)
  have hnormalized : normalized (before ++ ftsHighlightStart :: c :: after) =
      unfinished isSpace ' ' (unmarked before) ++ c :: more := by
    rw [normalized, hunmarked, ← hmore, List.append_assoc]
    rfl
  refine ⟨⟨⟨before, _, rfl, hbefore, rfl⟩, ?_⟩, ?_⟩
  · rw [hnormalized, List.length_append, List.length_cons, reached]
    omega
  · rw [hnormalized, reached, List.getElem?_append_right (Nat.le_refl _), Nat.sub_self]
    rfl

end Reading

structure Excerpt (markedText : List Char) (maxChars : Nat) (snippet : List Char)
    (window : SnippetWindow) : Prop where
  shown : snippet = ellipsis window.before ++
    ((normalized markedText).take window.stop).drop window.start ++ ellipsis window.behind
  stop_le : window.stop ≤ (normalized markedText).length
  before_iff : window.before = true ↔ 0 < window.start
  behind_iff : window.behind = true ↔
    window.stop < (normalized markedText).length ∧ (3 ≤ maxChars ∨ window.start = 0)
  full : snippet.length = maxChars
  matched : ∀ position, FirstMatched markedText position →
    window.start ≤ position ∧ position < window.stop

theorem makeSnippet_eq (markedText : List Char) (maxChars : Nat) :
    makeSnippet markedText maxChars =
      if (normalized markedText).length ≤ maxChars then normalized markedText
      else if maxChars = 1 then ['…']
      else
        let window := snippetWindow (normalized markedText).length
          (normalizeMarkedText markedText).2 maxChars
        ellipsis window.before ++ ((normalized markedText).take window.stop).drop window.start ++
          ellipsis window.behind := by
  rw [← normalizeMarkedText_fst]
  rfl

theorem makeSnippet_excerpt_of_lt {markedText : List Char} {maxChars : Nat}
    (hbudget : 2 ≤ maxChars) (hlength : maxChars < (normalized markedText).length) :
    Excerpt markedText maxChars (makeSnippet markedText maxChars)
      (snippetWindow (normalized markedText).length (normalizeMarkedText markedText).2
        maxChars) := by
  have hcovers := snippetWindow_covers (normalizeMarkedText markedText).2 hbudget hlength
  have hshown := makeSnippet_eq markedText maxChars
  rw [if_neg (Nat.not_le.mpr hlength), if_neg (by omega)] at hshown
  refine ⟨hshown, hcovers.stop_le, hcovers.before_iff, hcovers.behind_iff, ?_, ?_⟩
  · rw [hshown, List.length_append, List.length_append, List.length_drop, List.length_take,
      Nat.min_eq_left hcovers.stop_le]
    exact hcovers.full
  · intro position hposition
    rw [← hposition.matchStart]
    exact ⟨hcovers.start_le, hcovers.lt_stop⟩

theorem makeSnippet_excerpt (markedText : List Char) {maxChars : Nat} (hbudget : 1 ≤ maxChars) :
    (makeSnippet markedText maxChars).length ≤ maxChars ∧
    ((normalized markedText).length ≤ maxChars →
      makeSnippet markedText maxChars = normalized markedText) ∧
    (maxChars < (normalized markedText).length →
      if maxChars = 1 then makeSnippet markedText maxChars = ['…']
      else ∃ window, Excerpt markedText maxChars (makeSnippet markedText maxChars) window) := by
  by_cases hlength : (normalized markedText).length ≤ maxChars
  · have hwhole := makeSnippet_eq markedText maxChars
    rw [if_pos hlength] at hwhole
    rw [hwhole]
    exact ⟨hlength, fun _ => rfl, fun h => absurd hlength (Nat.not_le.mpr h)⟩
  · have hlt := Nat.lt_of_not_le hlength
    by_cases hone : maxChars = 1
    · have hsole := makeSnippet_eq markedText maxChars
      rw [if_neg hlength, if_pos hone] at hsole
      rw [hsole, if_pos hone]
      exact ⟨hbudget, fun h => absurd h hlength, fun _ => rfl⟩
    · have hexcerpt := makeSnippet_excerpt_of_lt (by omega) hlt
      rw [if_neg hone]
      exact ⟨Nat.le_of_eq hexcerpt.full, fun h => absurd h hlength, fun _ => ⟨_, hexcerpt⟩⟩

def sentence : List Char :=
  ['a', 'b', ' ', ' ', 'c', ftsHighlightStart, 'd', ftsHighlightEnd, 'e', 'f', 'g']

theorem makeSnippet_excerpt_sentence :
    makeSnippet sentence 4 = ['…', 'c', 'd', '…'] ∧
      ∃ window, Excerpt sentence 4 ['…', 'c', 'd', '…'] window := by
  have hsnippet : makeSnippet sentence 4 = ['…', 'c', 'd', '…'] := by decide +kernel
  have hlength : 4 < (normalized sentence).length := by decide +kernel
  have hexcerpt := (makeSnippet_excerpt sentence (by decide : 1 ≤ 4)).2.2 hlength
  rw [if_neg (by decide), hsnippet] at hexcerpt
  exact ⟨hsnippet, hexcerpt⟩

def letters : List Char := [ftsHighlightStart, 'a', ftsHighlightEnd, 'b']

theorem not_excerpt_letters : ¬ ∀ (markedText : List Char) (maxChars : Nat), 1 ≤ maxChars →
    maxChars < (normalized markedText).length →
      ∃ window, Excerpt markedText maxChars (makeSnippet markedText maxChars) window := by
  intro h
  obtain ⟨window, hexcerpt⟩ := h letters 1 (Nat.le_refl 1) (by decide +kernel)
  have hfirst : FirstMatched letters 0 :=
    (firstMatched_of_other 'a' [ftsHighlightEnd, 'b'] (List.not_mem_nil) (by decide) (by decide)
      (by decide)).1
  obtain ⟨hstart, hstop⟩ := hexcerpt.matched 0 hfirst
  have hshown := hexcerpt.shown
  have hletters : normalized letters = ['a', 'b'] := by decide +kernel
  have hsole : makeSnippet letters 1 = ['…'] := by decide +kernel
  rw [hsole, hletters, Nat.le_zero.mp hstart, List.drop_zero] at hshown
  obtain ⟨stop, hsucc⟩ := Nat.exists_eq_add_of_lt hstop
  have hmem : 'a' ∈ ['…'] := by
    rw [hshown, hsucc, Nat.zero_add, List.take_succ_cons]
    exact List.mem_append_left _ (List.mem_append_right _ List.mem_cons_self)
  exact absurd hmem (by decide)

end Harness.SessionQuery
