import Mathlib.Data.List.Basic
import Mathlib.Data.List.Induction

universe u

namespace Harness.Foundation

variable {α : Type u} (same : α → α → Bool)

def changes : List α → Nat
  | first :: second :: rest =>
    (if same first second = true then 0 else 1) + changes (second :: rest)
  | _ => 0

@[simp] theorem changes_nil : changes same [] = 0 := rfl

@[simp] theorem changes_singleton (entry : α) : changes same [entry] = 0 := rfl

theorem changes_snoc {entries : List α} {last entry : α} (h : entries.getLast? = some last) :
    changes same (entries ++ [entry]) =
      changes same entries + if same last entry = true then 0 else 1 := by
  induction entries with
  | nil => cases h
  | cons first rest ih =>
    cases rest with
    | nil =>
      cases h
      exact Nat.add_comm _ _
    | cons second rest =>
      have hrest := ih (by rwa [List.getLast?_cons_cons] at h)
      rw [List.cons_append, List.cons_append, changes, ← List.cons_append, hrest, changes,
        Nat.add_assoc]

theorem changes_snoc_same {entries : List α} {last entry : α} (h : entries.getLast? = some last)
    (hsame : same last entry = true) : changes same (entries ++ [entry]) = changes same entries := by
  rw [changes_snoc same h, if_pos hsame, Nat.add_zero]

theorem changes_le_snoc (entries : List α) (entry : α) :
    changes same entries ≤ changes same (entries ++ [entry]) := by
  cases hlast : entries.getLast? with
  | none =>
    rw [List.getLast?_eq_none_iff.mp hlast]
    exact Nat.zero_le _
  | some last =>
    rw [changes_snoc same hlast]
    exact Nat.le_add_right _ _

theorem changes_le_append (entries more : List α) :
    changes same entries ≤ changes same (entries ++ more) := by
  induction more using List.reverseRecOn with
  | nil => exact Nat.le_of_eq (congrArg (changes same) (List.append_nil entries).symm)
  | append_singleton more entry ih =>
    rw [← List.append_assoc]
    exact Nat.le_trans ih (changes_le_snoc same _ _)

variable {same}

theorem same_of_changes_append (hrefl : ∀ a, same a a = true)
    (htrans : ∀ a b c, same a b = true → same b c = true → same a c = true)
    {entries more : List α} {first last : α} (hfirst : entries.getLast? = some first)
    (hlast : (entries ++ more).getLast? = some last)
    (hcount : changes same (entries ++ more) = changes same entries) : same first last = true := by
  induction more using List.reverseRecOn generalizing last with
  | nil =>
    rw [List.append_nil, hfirst] at hlast
    cases hlast
    exact hrefl first
  | append_singleton more entry ih =>
    rw [← List.append_assoc] at hlast hcount
    rw [List.getLast?_append_of_ne_nil _ (List.cons_ne_nil _ _)] at hlast
    cases hlast
    obtain ⟨middle, hmiddle⟩ : ∃ middle, (entries ++ more).getLast? = some middle := by
      cases hnone : (entries ++ more).getLast? with
      | some middle => exact ⟨middle, rfl⟩
      | none =>
        rw [(List.append_eq_nil_iff.mp (List.getLast?_eq_none_iff.mp hnone)).1] at hfirst
        cases hfirst
    have hgrow := changes_le_append same entries more
    rw [changes_snoc same hmiddle] at hcount
    split at hcount
    · rename_i hstep
      exact htrans _ _ _ (ih hmiddle (by omega)) hstep
    · omega

end Harness.Foundation
