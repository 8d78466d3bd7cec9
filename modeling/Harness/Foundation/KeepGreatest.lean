import Harness.Foundation.OrderedMap
import Mathlib.Order.Bounds.Basic
import Mathlib.Data.List.Induction
import Mathlib.Data.List.Perm.Basic

namespace Harness.Foundation

variable {κ α ρ : Type} [DecidableEq κ] [LinearOrder ρ]

def keepGreatest (key : α → κ) (rank : α → ρ) (items : List α) : OrderedMap κ α :=
  items.foldl (fun kept item =>
    match kept.get? (key item) with
    | some selected => if rank item < rank selected then kept else kept.set (key item) item
    | none => kept.set (key item) item) .empty

variable {key : α → κ} {rank : α → ρ} {items : List α}

def sameKey (key : α → κ) (items : List α) (k : κ) : Set α := {item | item ∈ items ∧ key item = k}

/-- What is kept of some items: for each key a greatest one, and no key without an item. -/
structure KeepsGreatest (key : α → κ) (rank : α → ρ) (items : List α) (kept : OrderedMap κ α) :
    Prop where
  greatest : ∀ k item, kept.get? k = some item →
    item ∈ sameKey key items k ∧ ∀ other ∈ sameKey key items k, rank other ≤ rank item
  absent : ∀ k, kept.get? k = none → sameKey key items k = ∅

omit [DecidableEq κ] in
theorem sameKey_snoc_self (items : List α) (item : α) :
    sameKey key (items ++ [item]) (key item) = insert item (sameKey key items (key item)) := by
  ext other
  simp only [sameKey, List.mem_append, List.mem_singleton, Set.mem_ofPred_eq, Set.mem_insert_iff]
  constructor
  · rintro ⟨hmem | rfl, hkey⟩
    · exact .inr ⟨hmem, hkey⟩
    · exact .inl rfl
  · rintro (rfl | ⟨hmem, hkey⟩)
    · exact ⟨.inr rfl, rfl⟩
    · exact ⟨.inl hmem, hkey⟩

omit [DecidableEq κ] in
theorem sameKey_snoc_of_ne {k : κ} {item : α} (h : k ≠ key item) (items : List α) :
    sameKey key (items ++ [item]) k = sameKey key items k := by
  ext other
  simp only [sameKey, List.mem_append, List.mem_singleton, Set.mem_ofPred_eq]
  constructor
  · rintro ⟨hmem | rfl, hkey⟩
    · exact ⟨hmem, hkey⟩
    · exact absurd hkey.symm h
  · rintro ⟨hmem, hkey⟩
    exact ⟨.inl hmem, hkey⟩

theorem KeepsGreatest.set {kept : OrderedMap κ α} (h : KeepsGreatest key rank items kept) (item : α)
    (hgreatest : ∀ other ∈ sameKey key items (key item), rank other ≤ rank item) :
    KeepsGreatest key rank (items ++ [item]) (kept.set (key item) item) where
  greatest k found hfound := by
    rcases OrderedMap.of_get?_set hfound with ⟨rfl, rfl⟩ | ⟨hne, hold⟩
    · rw [sameKey_snoc_self]
      refine ⟨Set.mem_insert _ _, ?_⟩
      rintro other (rfl | hother)
      · exact le_rfl
      · exact hgreatest other hother
    · rw [sameKey_snoc_of_ne hne]
      exact h.greatest k found hold
  absent k hk := by
    rw [OrderedMap.get?_set] at hk
    split at hk
    · cases hk
    · rename_i hne
      rw [sameKey_snoc_of_ne hne]
      exact h.absent k hk

theorem keepGreatest_keeps (key : α → κ) (rank : α → ρ) (items : List α) :
    KeepsGreatest key rank items (keepGreatest key rank items) := by
  unfold keepGreatest
  induction items using List.reverseRecOn with
  | nil =>
    refine ⟨nofun, fun k _ => ?_⟩
    ext other
    simp [sameKey]
  | append_singleton items item ih =>
    rw [List.foldl_append, List.foldl_cons, List.foldl_nil]
    split
    · rename_i selected hselected
      obtain ⟨hmem, hbest⟩ := ih.greatest (key item) selected hselected
      split
      · rename_i hlt
        constructor
        · intro k found hfound
          by_cases hk : k = key item
          · subst hk
            cases hselected.symm.trans hfound
            rw [sameKey_snoc_self]
            refine ⟨Set.mem_insert_of_mem _ hmem, ?_⟩
            rintro other (rfl | hother)
            · exact hlt.le
            · exact hbest other hother
          · rw [sameKey_snoc_of_ne hk]
            exact ih.greatest k found hfound
        · intro k hnone
          have hk : k ≠ key item := by
            rintro rfl
            cases hselected.symm.trans hnone
          rw [sameKey_snoc_of_ne hk]
          exact ih.absent k hnone
      · rename_i hle
        exact ih.set item fun other hother => (hbest other hother).trans (not_lt.mp hle)
    · rename_i hnone
      apply ih.set item
      intro other hother
      rw [ih.absent (key item) hnone] at hother
      exact hother.elim

theorem mem_keepGreatest (hrank : ∀ a ∈ items, ∀ b ∈ items, rank a = rank b → a = b) {k : κ}
    {item : α} :
    (k, item) ∈ (keepGreatest key rank items).entries ↔
      item ∈ sameKey key items k ∧ ∀ other ∈ sameKey key items k, rank other ≤ rank item := by
  have hkeeps := keepGreatest_keeps key rank items
  rw [OrderedMap.mem_entries_iff]
  refine ⟨hkeeps.greatest k item, ?_⟩
  rintro ⟨hmem, hbest⟩
  cases hfound : (keepGreatest key rank items).get? k with
  | none =>
    rw [hkeeps.absent k hfound] at hmem
    exact hmem.elim
  | some found =>
    obtain ⟨hfoundMem, hfoundBest⟩ := hkeeps.greatest k found hfound
    have hequal := le_antisymm (hbest found hfoundMem) (hfoundBest item hmem)
    rw [hrank found hfoundMem.1 item hmem.1 hequal]

theorem keepGreatest_perm {others : List α} (h : items.Perm others)
    (hrank : ∀ a ∈ items, ∀ b ∈ items, rank a = rank b → a = b) :
    (keepGreatest key rank items).entries.Perm (keepGreatest key rank others).entries := by
  have hnodup : ∀ kept : OrderedMap κ α, kept.entries.Nodup := fun kept => kept.nodup.of_map _
  have hothers : ∀ a ∈ others, ∀ b ∈ others, rank a = rank b → a = b := fun a ha b hb =>
    hrank a (h.mem_iff.mpr ha) b (h.mem_iff.mpr hb)
  rw [List.perm_ext_iff_of_nodup (hnodup _) (hnodup _)]
  rintro ⟨k, item⟩
  rw [mem_keepGreatest hrank, mem_keepGreatest hothers]
  have hsame : sameKey key items k = sameKey key others k := by
    ext other
    simp only [sameKey, h.mem_iff]
  rw [hsame]

end Harness.Foundation
