import Harness.Foundation.OrderedMap
import Mathlib.Data.List.Induction
import Mathlib.Logic.Function.Basic

universe u v

namespace Harness.Foundation

variable {κ : Type u} {α : Type v}

namespace OrderedMap

def tabulate (keys : List κ) (h : keys.Nodup) (value : κ → α) : OrderedMap κ α where
  entries := keys.map fun key => (key, value key)
  nodup := by
    rw [List.map_map]
    exact (List.map_id keys).symm ▸ h

variable {keys others : List κ} (hkeys : keys.Nodup) (hothers : others.Nodup) {f g : κ → α}

theorem keys_tabulate : (tabulate keys hkeys f).keys = keys := by
  rw [OrderedMap.keys, tabulate, List.map_map]
  exact List.map_id keys

theorem values_tabulate : (tabulate keys hkeys f).values = keys.map f := by
  rw [values, tabulate, List.map_map]
  rfl

theorem tabulate_nil (h : keys = []) : tabulate keys hkeys f = empty := by
  apply ext
  exact (congrArg (List.map _) h).trans rfl

theorem tabulate_congr (h : ∀ key ∈ keys, f key = g key) :
    tabulate keys hkeys f = tabulate keys hkeys g := by
  apply ext
  exact List.map_congr_left fun key hkey => Prod.ext rfl (h key hkey)

end OrderedMap

variable [DecidableEq κ]

def insertLast (keys : List κ) (key : κ) : List κ := if key ∈ keys then keys else keys ++ [key]

theorem insertLast_of_mem {keys : List κ} {key : κ} (h : key ∈ keys) : insertLast keys key = keys :=
  if_pos h

theorem insertLast_of_notMem {keys : List κ} {key : κ} (h : key ∉ keys) :
    insertLast keys key = keys ++ [key] :=
  if_neg h

theorem mem_insertLast {keys : List κ} {key other : κ} :
    other ∈ insertLast keys key ↔ other ∈ keys ∨ other = key := by
  by_cases hkey : key ∈ keys
  · rw [insertLast_of_mem hkey]
    exact (or_iff_left_of_imp fun heq => heq ▸ hkey).symm
  · rw [insertLast_of_notMem hkey, List.mem_append, List.mem_singleton]

theorem nodup_insertLast {keys : List κ} (h : keys.Nodup) (key : κ) :
    (insertLast keys key).Nodup := by
  by_cases hkey : key ∈ keys
  · rwa [insertLast_of_mem hkey]
  · rw [insertLast_of_notMem hkey, ← List.concat_eq_append]
    exact h.concat hkey

namespace OrderedMap

variable {keys others : List κ} (hkeys : keys.Nodup) (hothers : others.Nodup) {f g : κ → α}

theorem get?_tabulate (key : κ) :
    (tabulate keys hkeys f).get? key = if key ∈ keys then some (f key) else none := by
  split
  · next hkey => exact mem_entries_iff.mp (List.mem_map.mpr ⟨key, hkey, rfl⟩)
  · next hkey =>
    apply get?_eq_none_of_notMem
    rwa [keys_tabulate]

theorem tabulate_eq_iff :
    tabulate keys hkeys f = tabulate others hothers g ↔
      keys = others ∧ ∀ key ∈ keys, f key = g key := by
  constructor
  · intro h
    have hsame := congrArg OrderedMap.keys h
    rw [keys_tabulate, keys_tabulate] at hsame
    refine ⟨hsame, fun key hkey => ?_⟩
    have hget : (tabulate keys hkeys f).get? key = (tabulate others hothers g).get? key := by rw [h]
    rw [get?_tabulate, get?_tabulate, if_pos hkey, if_pos (hsame ▸ hkey)] at hget
    exact Option.some.inj hget
  · rintro ⟨rfl, h⟩
    exact tabulate_congr hkeys h

theorem set_tabulate (key : κ) (value : α) :
    (tabulate keys hkeys f).set key value =
      tabulate (insertLast keys key) (nodup_insertLast hkeys key) (Function.update f key value) := by
  apply ext
  by_cases hkey : key ∈ keys
  · have hmem : key ∈ (tabulate keys hkeys f).keys := by rwa [keys_tabulate]
    simp only [tabulate, insertLast_of_mem hkey] at hmem ⊢
    rw [set, dif_pos hmem, entries_modify, List.map_map]
    apply List.map_congr_left
    intro other _
    rw [Function.comp_apply, Function.update_apply]
  · have hmem : key ∉ (tabulate keys hkeys f).keys := by rwa [keys_tabulate]
    rw [entries_set_new hmem]
    simp only [tabulate, insertLast_of_notMem hkey, List.map_append, List.map_singleton,
      Function.update_self]
    congr 1
    apply List.map_congr_left
    intro other hother
    have hne : other ≠ key := fun heq => hkey (heq ▸ hother)
    rw [Function.update_of_ne hne]

theorem modify_tabulate (key : κ) (change : α → α) :
    (tabulate keys hkeys f).modify key change =
      tabulate keys hkeys (Function.update f key (change (f key))) := by
  apply ext
  rw [entries_modify, tabulate, tabulate, List.map_map]
  apply List.map_congr_left
  intro other _
  rw [Function.comp_apply, Function.update_apply]
  by_cases heq : other = key
  · rw [heq]
  · dsimp only
    rw [if_neg heq, if_neg heq]

theorem foldl_set_tabulate (value : κ → α) :
    keys.foldl (fun m key => m.set key (value key)) empty = tabulate keys hkeys value := by
  induction keys using List.reverseRecOn with
  | nil => rfl
  | append_singleton keys key ih =>
    have hsplit := List.nodup_append.mp hkeys
    have hkey : key ∉ keys := fun hmem => hsplit.2.2 key hmem key (List.mem_singleton_self key) rfl
    rw [List.foldl_append, ih hsplit.1, List.foldl_cons, List.foldl_nil, set_tabulate,
      Function.update_eq_self, tabulate_eq_iff]
    exact ⟨insertLast_of_notMem hkey, fun _ _ => rfl⟩

end OrderedMap

end Harness.Foundation
