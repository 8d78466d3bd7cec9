import Mathlib.Data.List.Induction
import Mathlib.Data.List.Nodup
import Mathlib.Algebra.Ring.Nat

namespace Harness.Foundation

section Sums

variable {κ : Type} {keys : List κ} {f g : κ → Nat}

theorem sum_map_congr (h : ∀ key ∈ keys, f key = g key) : (keys.map f).sum = (keys.map g).sum := by
  rw [List.map_congr_left h]

theorem sum_map_succ {key : κ} (hkeys : keys.Nodup) (hkey : key ∈ keys) (hone : g key = f key + 1)
    (hrest : ∀ other ∈ keys, other ≠ key → g other = f other) :
    (keys.map g).sum = (keys.map f).sum + 1 := by
  induction keys with
  | nil => cases hkey
  | cons first keys ih =>
    rw [List.nodup_cons] at hkeys
    rw [List.map_cons, List.map_cons, List.sum_cons, List.sum_cons]
    by_cases hfirst : first = key
    · subst hfirst
      have hsame : (keys.map g).sum = (keys.map f).sum := sum_map_congr fun other hother =>
        hrest other (List.mem_cons_of_mem _ hother) fun heq => hkeys.1 (heq ▸ hother)
      rw [hone, hsame]
      omega
    · have hlater := ih hkeys.2 ((List.mem_cons.mp hkey).resolve_left (Ne.symm hfirst))
        fun other hother => hrest other (List.mem_cons_of_mem _ hother)
      rw [hrest first List.mem_cons_self hfirst, hlater]
      omega

end Sums

section Groups

variable {κ α : Type} [DecidableEq κ] (keyOf : α → κ)

def groupOf (items : List α) (key : κ) : List α := items.filter fun item => keyOf item = key

def groupKeys (items : List α) : List κ := (items.map keyOf).eraseDups

variable {keyOf} {items : List α} {key : κ}

theorem mem_groupKeys : key ∈ groupKeys keyOf items ↔ ∃ item ∈ items, keyOf item = key := by
  rw [groupKeys, List.mem_eraseDups, List.mem_map]

theorem eraseDups_snoc (keys : List κ) (key : κ) :
    (keys ++ [key]).eraseDups = if key ∈ keys then keys.eraseDups else keys.eraseDups ++ [key] := by
  rw [List.eraseDups_append]
  by_cases hmem : key ∈ keys
  · simp [List.removeAll, hmem]
  · simp [List.removeAll, hmem, List.eraseDups_cons]

theorem groupKeys_snoc (items : List α) (item : α) :
    groupKeys keyOf (items ++ [item]) =
      if keyOf item ∈ groupKeys keyOf items then groupKeys keyOf items
      else groupKeys keyOf items ++ [keyOf item] := by
  rw [groupKeys, List.map_append, List.map_singleton, eraseDups_snoc]
  simp only [groupKeys, List.mem_eraseDups]

theorem nodup_groupKeys (items : List α) : (groupKeys keyOf items).Nodup := by
  induction items using List.reverseRecOn with
  | nil => exact List.nodup_nil
  | append_singleton items item ih =>
    rw [groupKeys_snoc]
    split
    · exact ih
    · next hmem => exact List.nodup_append.mpr ⟨ih, List.nodup_singleton _, by
        intro key hkey other hother heq
        rw [List.mem_singleton.mp hother] at heq
        exact hmem (heq ▸ hkey)⟩

theorem mem_groupOf {item : α} :
    item ∈ groupOf keyOf items key ↔ item ∈ items ∧ keyOf item = key := by
  rw [groupOf, List.mem_filter, decide_eq_true_eq]

theorem groupOf_snoc (items : List α) (item : α) (key : κ) :
    groupOf keyOf (items ++ [item]) key =
      if keyOf item = key then groupOf keyOf items key ++ [item] else groupOf keyOf items key := by
  rw [groupOf, List.filter_append]
  split
  · next hkey => rw [List.filter_cons_of_pos (by simpa using hkey), List.filter_nil, groupOf]
  · next hkey =>
    rw [List.filter_cons_of_neg (by simpa using hkey), List.filter_nil, List.append_nil, groupOf]

theorem groupOf_pos (h : key ∈ groupKeys keyOf items) : 0 < (groupOf keyOf items key).length := by
  obtain ⟨item, hitem, hkey⟩ := mem_groupKeys.mp h
  exact List.length_pos_of_mem (mem_groupOf.mpr ⟨hitem, hkey⟩)

theorem sum_groups (items : List α) :
    ((groupKeys keyOf items).map fun key => (groupOf keyOf items key).length).sum =
      items.length := by
  induction items using List.reverseRecOn with
  | nil => rfl
  | append_singleton items item ih =>
    rw [groupKeys_snoc, List.length_append, List.length_singleton, ← ih]
    split
    · next hmem =>
      apply sum_map_succ (nodup_groupKeys items) hmem
      · rw [groupOf_snoc, if_pos rfl, List.length_append, List.length_singleton]
      · intro other _ hother
        rw [groupOf_snoc, if_neg (Ne.symm hother)]
    · next hmem =>
      have hempty : groupOf keyOf items (keyOf item) = [] := by
        rw [List.eq_nil_iff_forall_not_mem]
        intro other hother
        exact hmem (mem_groupKeys.mpr ⟨other, mem_groupOf.mp hother⟩)
      rw [List.map_append, List.sum_append, List.map_singleton, List.sum_singleton, groupOf_snoc,
        if_pos rfl, hempty]
      congr 1
      apply sum_map_congr
      intro other hother
      rw [groupOf_snoc, if_neg]
      intro heq
      exact hmem (heq ▸ hother)

end Groups

section Shares

variable {κ : Type} [DecidableEq κ] {keys front back : List κ} {size : κ → Nat} {round : Nat}
  {key : κ}

/-- What a key has of a group of some size after full rounds, and one more where the next round has
come past it. -/
def share (size : κ → Nat) (round : Nat) (front : List κ) (key : κ) : Nat :=
  if key ∈ front then round + 1 else min (size key) round

/-- How far a round is: the keys with more than it has given so far, those it came past first. -/
def InRound (keys : List κ) (size : κ → Nat) (round : Nat) (front back : List κ) : Prop :=
  keys.filter (fun key => decide (round < size key)) = front ++ back

omit [DecidableEq κ] in
theorem InRound.mem_front (h : InRound keys size round front back) (hkey : key ∈ front) :
    key ∈ keys ∧ round < size key := by
  have hmem : key ∈ keys.filter fun key => decide (round < size key) :=
    h ▸ List.mem_append_left back hkey
  rw [List.mem_filter, decide_eq_true_eq] at hmem
  exact hmem

omit [DecidableEq κ] in
theorem InRound.mem_back (h : InRound keys size round front back) (hkey : key ∈ back) :
    key ∈ keys ∧ round < size key := by
  have hmem : key ∈ keys.filter fun key => decide (round < size key) :=
    h ▸ List.mem_append_right front hkey
  rw [List.mem_filter, decide_eq_true_eq] at hmem
  exact hmem

omit [DecidableEq κ] in
theorem InRound.mem_cases (h : InRound keys size round front back) (hkey : key ∈ keys)
    (hsize : round < size key) : key ∈ front ∨ key ∈ back := by
  rw [← List.mem_append, ← h, List.mem_filter, decide_eq_true_eq]
  exact ⟨hkey, hsize⟩

theorem InRound.share_le (h : InRound keys size round front back) (key : κ) :
    share size round front key ≤ size key := by
  rw [share]
  split
  · next hfront => exact (h.mem_front hfront).2
  · exact Nat.min_le_left _ _

theorem InRound.step (hkeys : keys.Nodup) (h : InRound keys size round front (key :: back)) :
    InRound keys size round (front ++ [key]) back ∧ key ∉ front ∧
      (keys.map (share size round (front ++ [key]))).sum =
        (keys.map (share size round front)).sum + 1 := by
  have hnodup : (front ++ key :: back).Nodup := h ▸ hkeys.filter _
  have hkey := h.mem_back List.mem_cons_self
  have hfront : key ∉ front := fun hmem =>
    (List.nodup_append.mp hnodup).2.2 key hmem key List.mem_cons_self rfl
  refine ⟨?_, hfront, ?_⟩
  · rw [InRound, List.append_assoc]
    exact h
  · apply sum_map_succ hkeys hkey.1
    · rw [share, share, if_pos (List.mem_append_right _ (List.mem_singleton_self key)),
        if_neg hfront, Nat.min_eq_right (Nat.le_of_lt hkey.2)]
    · intro other _ hother
      simp only [share, List.mem_append, List.mem_singleton, hother, or_false]

theorem InRound.next (h : InRound keys size round front []) (hkey : key ∈ keys) :
    share size (round + 1) [] key = share size round front key := by
  rw [share, share, if_neg List.not_mem_nil]
  split
  · next hfront => exact Nat.min_eq_right (h.mem_front hfront).2
  · next hfront =>
    have hsize : size key ≤ round := by
      by_contra hsize
      exact (h.mem_cases hkey (Nat.lt_of_not_le hsize)).elim hfront List.not_mem_nil
    omega

theorem InRound.done (h : InRound keys size round [] []) (hkey : key ∈ keys) :
    share size round [] key = size key := by
  rw [share, if_neg List.not_mem_nil]
  apply Nat.min_eq_left
  by_contra hsize
  exact (h.mem_cases hkey (Nat.lt_of_not_le hsize)).elim List.not_mem_nil List.not_mem_nil

theorem share_fair {other : κ}
    (hless : share size round front key + 1 < share size round front other) :
    share size round front key = size key := by
  have hother : share size round front other ≤ round + 1 := by
    rw [share]
    split
    · exact Nat.le_refl _
    · exact Nat.le_succ_of_le (Nat.min_le_right _ _)
  rw [share] at hless ⊢
  split
  · next hfront =>
    rw [if_pos hfront] at hless
    omega
  · next hfront =>
    rw [if_neg hfront] at hless
    omega

theorem InRound.turns (h : InRound keys size round front back) (hkeys : keys.Nodup) :
    keys.Pairwise fun earlier later =>
      share size round front earlier < share size round front later →
        share size round front earlier = size earlier := by
  rw [List.pairwise_iff_forall_sublist]
  intro earlier later hsub hless
  have hearlier : earlier ∈ keys := hsub.subset List.mem_cons_self
  by_contra hleft
  rw [share] at hless hleft
  have hfront : earlier ∉ front := by
    intro hmem
    rw [if_pos hmem] at hless
    rw [share] at hless
    split at hless <;> omega
  rw [if_neg hfront] at hless hleft
  have hactive : round < size earlier := by omega
  have hlater : later ∈ front := by
    by_contra hlater
    rw [share, if_neg hlater] at hless
    omega
  -- Both are served in this round, the earlier one behind the later one.
  have hpair := hsub.filter fun key => decide (round < size key)
  rw [List.filter_cons_of_pos (by simpa using hactive),
    List.filter_cons_of_pos (by simpa using (h.mem_front hlater).2), List.filter_nil, h] at hpair
  have hnodup : (front ++ back).Nodup := h ▸ hkeys.filter _
  obtain ⟨served, rest, hboth, hserved, hrest⟩ := List.sublist_append_iff.mp hpair
  cases served with
  | nil =>
    rw [List.nil_append] at hboth
    have hback : later ∈ back :=
      hrest.subset (hboth ▸ List.mem_cons_of_mem _ (List.mem_singleton_self later))
    exact (List.nodup_append.mp hnodup).2.2 later hlater later hback rfl
  | cons first served =>
    rw [List.cons_append, List.cons.injEq] at hboth
    exact hfront (hserved.subset (hboth.1 ▸ List.mem_cons_self))

end Shares

end Harness.Foundation
