import Mathlib.Algebra.Order.BigOperators.Group.List
import Mathlib.Algebra.Order.Group.Nat
import Mathlib.Data.List.Nodup
import Mathlib.Algebra.Ring.Nat

universe u v

namespace Harness.Foundation

structure OrderedMap (κ : Type u) (α : Type v) where
  entries : List (κ × α)
  nodup : (entries.map Prod.fst).Nodup

namespace OrderedMap

variable {κ : Type u} {α : Type v}

def empty : OrderedMap κ α := ⟨[], List.nodup_nil⟩

def keys (m : OrderedMap κ α) : List κ := m.entries.map Prod.fst

def values (m : OrderedMap κ α) : List α := m.entries.map Prod.snd

def size (m : OrderedMap κ α) : Nat := m.entries.length

@[ext] theorem ext {m n : OrderedMap κ α} (h : m.entries = n.entries) : m = n := by
  cases m; cases n; simpa using h

@[simp] theorem entries_empty : (empty : OrderedMap κ α).entries = [] := rfl

variable [DecidableEq κ]

def get? (m : OrderedMap κ α) (key : κ) : Option α := m.entries.lookup key

def has (m : OrderedMap κ α) (key : κ) : Bool := decide (key ∈ m.keys)

def modify (m : OrderedMap κ α) (key : κ) (f : α → α) : OrderedMap κ α where
  entries := m.entries.map fun (k, a) => (k, if k = key then f a else a)
  nodup := by
    have : (Prod.fst ∘ fun x : κ × α => (x.1, if x.1 = key then f x.2 else x.2)) = Prod.fst := by
      funext x; rfl
    simpa [List.map_map, this] using m.nodup

def set (m : OrderedMap κ α) (key : κ) (value : α) : OrderedMap κ α :=
  if h : key ∈ m.keys then m.modify key fun _ => value
  else
    { entries := m.entries ++ [(key, value)]
      nodup := by
        rw [List.map_append, List.nodup_append]
        refine ⟨m.nodup, by simp, ?_⟩
        intro a ha b hb
        simp only [List.map_cons, List.map_nil, List.mem_singleton] at hb
        subst hb
        rintro rfl
        exact h ha }

def delete (m : OrderedMap κ α) (key : κ) : OrderedMap κ α where
  entries := m.entries.filter fun entry => entry.1 ≠ key
  nodup := (List.filter_sublist.map _).nodup m.nodup

def mapValues (m : OrderedMap κ α) (f : α → α) : OrderedMap κ α where
  entries := m.entries.map fun entry => (entry.1, f entry.2)
  nodup := by
    rw [List.map_map]
    exact m.nodup

def filter (m : OrderedMap κ α) (p : κ → α → Bool) : OrderedMap κ α where
  entries := m.entries.filter fun entry => p entry.1 entry.2
  nodup := (List.filter_sublist.map _).nodup m.nodup

@[simp] theorem entries_delete (m : OrderedMap κ α) (key : κ) :
    (m.delete key).entries = m.entries.filter fun entry => entry.1 ≠ key := rfl

theorem entries_modify (m : OrderedMap κ α) (key : κ) (f : α → α) :
    (m.modify key f).entries =
      m.entries.map fun entry => (entry.1, if entry.1 = key then f entry.2 else entry.2) := rfl

theorem entries_set_new {m : OrderedMap κ α} {key : κ} (h : key ∉ m.keys) (value : α) :
    (m.set key value).entries = m.entries ++ [(key, value)] := by
  simp [set, h]

theorem has_iff {m : OrderedMap κ α} {key : κ} : m.has key = true ↔ key ∈ m.keys := by
  simp [has]

theorem modify_of_absent {m : OrderedMap κ α} {key : κ} (h : key ∉ m.keys) (f : α → α) :
    m.modify key f = m := by
  apply ext
  rw [entries_modify]
  conv_rhs => rw [← List.map_id m.entries]
  apply List.map_congr_left
  rintro ⟨k, a⟩ hmem
  have hne : k ≠ key := by
    rintro rfl
    exact h (List.mem_map.mpr ⟨_, hmem, rfl⟩)
  simp [hne]

theorem mem_entries_modify {m : OrderedMap κ α} {key : κ} {f : α → α} {entry : κ × α}
    (h : entry ∈ (m.modify key f).entries) :
    entry ∈ m.entries ∧ entry.1 ≠ key ∨
      ∃ value, (key, value) ∈ m.entries ∧ entry = (key, f value) := by
  rw [entries_modify] at h
  obtain ⟨⟨k, value⟩, hmem, rfl⟩ := List.mem_map.mp h
  by_cases hkey : k = key
  · subst hkey
    exact .inr ⟨value, hmem, by simp⟩
  · exact .inl ⟨by simpa [hkey] using hmem, hkey⟩

theorem mem_entries_set {m : OrderedMap κ α} {key : κ} {value : α} {entry : κ × α}
    (h : entry ∈ (m.set key value).entries) : entry = (key, value) ∨ entry ∈ m.entries := by
  by_cases hkey : key ∈ m.keys
  · rw [set, dif_pos hkey] at h
    rcases mem_entries_modify h with ⟨hold, _⟩ | ⟨_, _, rfl⟩
    · exact .inr hold
    · exact .inl rfl
  · rw [entries_set_new hkey] at h
    rcases List.mem_append.mp h with hold | hnew
    · exact .inr hold
    · exact .inl (List.mem_singleton.mp hnew)

theorem mem_entries_iff {m : OrderedMap κ α} {key : κ} {value : α} :
    (key, value) ∈ m.entries ↔ m.get? key = some value := by
  obtain ⟨entries, hnodup⟩ := m
  simp only [get?]
  induction entries with
  | nil => simp
  | cons entry entries ih =>
    obtain ⟨k, a⟩ := entry
    rw [List.map_cons, List.nodup_cons] at hnodup
    rw [List.mem_cons, List.lookup_cons, ih hnodup.2]
    by_cases hkey : key = k
    · subst hkey
      have habsent : entries.lookup key ≠ some value := fun h =>
        hnodup.1 (List.mem_map.mpr ⟨_, (ih hnodup.2).mpr h, rfl⟩)
      simp [habsent, eq_comm]
    · simp [hkey, beq_false_of_ne hkey]

theorem get?_delete (m : OrderedMap κ α) (key other : κ) :
    (m.delete key).get? other = if other = key then none else m.get? other := by
  apply Option.ext
  intro value
  rw [← mem_entries_iff, entries_delete, List.mem_filter, mem_entries_iff]
  split <;> simp_all

theorem keys_delete (m : OrderedMap κ α) (key : κ) : key ∉ (m.delete key).keys := by
  intro h
  obtain ⟨⟨k, a⟩, hmem, rfl⟩ := List.mem_map.mp h
  simp at hmem

theorem keys_delete_eq (m : OrderedMap κ α) (key : κ) :
    (m.delete key).keys = m.keys.filter (· ≠ key) := by
  rw [keys, entries_delete, keys, List.filter_map]
  rfl

theorem mem_keys_of_get? {m : OrderedMap κ α} {key : κ} {value : α} (h : m.get? key = some value) :
    key ∈ m.keys :=
  List.mem_map.mpr ⟨_, mem_entries_iff.mpr h, rfl⟩

theorem get?_of_mem_keys {m : OrderedMap κ α} {key : κ} (h : key ∈ m.keys) :
    ∃ value, m.get? key = some value := by
  obtain ⟨⟨key, value⟩, hentry, rfl⟩ := List.mem_map.mp h
  exact ⟨value, mem_entries_iff.mp hentry⟩

theorem keys_set_of_mem {m : OrderedMap κ α} {key : κ} (h : key ∈ m.keys) (value : α) :
    (m.set key value).keys = m.keys := by
  rw [set, dif_pos h, keys, entries_modify, List.map_map, keys]
  apply List.map_congr_left
  intro entry _
  by_cases hentry : entry.1 = key <;> simp [hentry]

theorem keys_set_new {m : OrderedMap κ α} {key : κ} (h : key ∉ m.keys) (value : α) :
    (m.set key value).keys = m.keys ++ [key] := by
  rw [keys, entries_set_new h, List.map_append]
  rfl

theorem get?_eq_none_of_notMem {m : OrderedMap κ α} {key : κ} (h : key ∉ m.keys) :
    m.get? key = none := by
  apply Option.eq_none_iff_forall_ne_some.mpr
  intro value hvalue
  exact h (List.mem_map.mpr ⟨_, mem_entries_iff.mpr hvalue, rfl⟩)

theorem notMem_keys_of_get? {m : OrderedMap κ α} {key : κ} (h : m.get? key = none) :
    key ∉ m.keys := by
  intro hmem
  obtain ⟨⟨k, a⟩, hentry, rfl⟩ := List.mem_map.mp hmem
  rw [mem_entries_iff, h] at hentry
  cases hentry

theorem get?_set_new {m : OrderedMap κ α} {key : κ} (h : key ∉ m.keys) (value : α) (other : κ) :
    (m.set key value).get? other = if other = key then some value else m.get? other := by
  apply Option.ext
  intro a
  rw [← mem_entries_iff, entries_set_new h, List.mem_append, mem_entries_iff, List.mem_singleton,
    Prod.mk.injEq]
  split
  · rename_i hkey
    subst hkey
    simp [get?_eq_none_of_notMem h, eq_comm]
  · rename_i hkey
    simp [hkey]

theorem get?_modify (m : OrderedMap κ α) (key : κ) (f : α → α) (other : κ) :
    (m.modify key f).get? other = if other = key then (m.get? other).map f else m.get? other := by
  apply Option.ext
  intro a
  rw [← mem_entries_iff, entries_modify, List.mem_map]
  constructor
  · rintro ⟨⟨k, value⟩, hmem, heq⟩
    rw [mem_entries_iff] at hmem
    simp only [Prod.mk.injEq] at heq
    obtain ⟨rfl, rfl⟩ := heq
    split <;> simp [hmem]
  · intro h
    split at h
    · rename_i hkey
      obtain ⟨value, hvalue, rfl⟩ := Option.map_eq_some_iff.mp h
      exact ⟨(other, value), mem_entries_iff.mpr hvalue, by simp [hkey]⟩
    · rename_i hkey
      exact ⟨(other, a), mem_entries_iff.mpr h, by simp [hkey]⟩

theorem get?_set (m : OrderedMap κ α) (key : κ) (value : α) (other : κ) :
    (m.set key value).get? other = if other = key then some value else m.get? other := by
  by_cases hkey : key ∈ m.keys
  · rw [set, dif_pos hkey, get?_modify]
    split
    · rename_i heq
      subst heq
      obtain ⟨⟨k, a⟩, hmem, rfl⟩ := List.mem_map.mp hkey
      rw [mem_entries_iff.mp hmem]
      rfl
    · rfl
  · exact get?_set_new hkey value other

@[simp] theorem get?_set_self (m : OrderedMap κ α) (key : κ) (value : α) :
    (m.set key value).get? key = some value := by
  rw [get?_set, if_pos rfl]

theorem of_get?_set {m : OrderedMap κ α} {key other : κ} {value found : α}
    (h : (m.set key value).get? other = some found) :
    other = key ∧ found = value ∨ other ≠ key ∧ m.get? other = some found := by
  rw [get?_set] at h
  split at h
  · rename_i heq
    exact .inl ⟨heq, (Option.some.inj h).symm⟩
  · rename_i hne
    exact .inr ⟨hne, h⟩

theorem get?_mapValues (m : OrderedMap κ α) (f : α → α) (key : κ) :
    (m.mapValues f).get? key = (m.get? key).map f := by
  apply Option.ext
  intro a
  rw [← mem_entries_iff, Option.map_eq_some_iff]
  constructor
  · intro h
    obtain ⟨⟨k, value⟩, hmem, heq⟩ := List.mem_map.mp h
    cases heq
    exact ⟨value, mem_entries_iff.mp hmem, rfl⟩
  · rintro ⟨value, hvalue, rfl⟩
    exact List.mem_map.mpr ⟨(key, value), mem_entries_iff.mpr hvalue, rfl⟩

theorem get?_filter (m : OrderedMap κ α) (p : κ → α → Bool) (key : κ) :
    (m.filter p).get? key = (m.get? key).filter (p key) := by
  apply Option.ext
  intro a
  rw [← mem_entries_iff, Option.filter_eq_some_iff, ← mem_entries_iff]
  exact List.mem_filter

theorem mem_values_iff {m : OrderedMap κ α} {value : α} :
    value ∈ m.values ↔ ∃ key, m.get? key = some value := by
  constructor
  · intro h
    obtain ⟨⟨key, a⟩, hmem, rfl⟩ := List.mem_map.mp h
    exact ⟨key, mem_entries_iff.mp hmem⟩
  · rintro ⟨key, hvalue⟩
    exact List.mem_map.mpr ⟨(key, value), mem_entries_iff.mpr hvalue, rfl⟩

theorem set_same {m : OrderedMap κ α} {key : κ} {value : α} (h : m.get? key = some value) :
    m.set key value = m := by
  have hmem := mem_entries_iff.mpr h
  have hkey : key ∈ m.keys := List.mem_map.mpr ⟨_, hmem, rfl⟩
  rw [set, dif_pos hkey]
  apply ext
  rw [entries_modify]
  conv_rhs => rw [← List.map_id m.entries]
  apply List.map_congr_left
  rintro ⟨k, a⟩ hentry
  by_cases hk : k = key
  · subst hk
    have : a = value := by
      rw [mem_entries_iff, h] at hentry
      exact (Option.some.inj hentry).symm
    simp [this]
  · simp [hk]

theorem set_set (m : OrderedMap κ α) (key : κ) (first second : α) :
    (m.set key first).set key second = m.set key second := by
  have hkey : key ∈ (m.set key first).keys := mem_keys_of_get? (by rw [get?_set, if_pos rfl])
  apply ext
  rw [set, dif_pos hkey, entries_modify]
  by_cases hold : key ∈ m.keys
  · rw [set, dif_pos hold, set, dif_pos hold, entries_modify, entries_modify, List.map_map]
    apply List.map_congr_left
    intro entry _
    by_cases hentry : entry.1 = key <;> simp [hentry]
  · rw [entries_set_new hold, entries_set_new hold, List.map_append, List.map_singleton, if_pos rfl]
    congr 1
    exact congrArg entries (modify_of_absent hold fun _ => second)

theorem filter_key (m : OrderedMap κ α) (key : κ) :
    (m.entries.filter fun entry => entry.1 = key) = (m.get? key).toList.map (Prod.mk key) := by
  obtain ⟨entries, hnodup⟩ := m
  simp only [get?]
  induction entries with
  | nil => rfl
  | cons entry entries ih =>
    obtain ⟨k, a⟩ := entry
    rw [List.map_cons, List.nodup_cons] at hnodup
    rw [List.lookup_cons]
    by_cases hkey : k = key
    · subst hkey
      have hrest : (entries.filter fun entry => entry.1 = k) = [] := by
        apply List.filter_eq_nil_iff.mpr
        rintro ⟨k', a'⟩ hmem heq
        exact hnodup.1 (List.mem_map.mpr ⟨_, hmem, of_decide_eq_true heq⟩)
      simp [hrest]
    · rw [List.filter_cons_of_neg (by simpa using hkey), ih hnodup.2]
      simp [beq_false_of_ne (Ne.symm hkey)]

theorem countP_values_delete (m : OrderedMap κ α) (key : κ) (p : α → Bool) :
    (m.delete key).values.countP p + (m.get? key).toList.countP p = m.values.countP p := by
  have hsplit := List.countP_eq_countP_filter_add m.entries (p ∘ Prod.snd)
    (fun entry => decide (entry.1 ≠ key))
  have hrest : (m.entries.filter fun entry => !decide (entry.1 ≠ key)) =
      (m.get? key).toList.map (Prod.mk key) := by
    rw [← filter_key]
    apply List.filter_congr
    intro entry _
    simp
  rw [hrest, List.countP_map] at hsplit
  rw [values, values, List.countP_map, List.countP_map, hsplit]
  rfl

def sum (m : OrderedMap κ α) (f : κ → α → Nat) : Nat :=
  (m.entries.map fun entry => f entry.1 entry.2).sum

theorem sum_le_sum {m : OrderedMap κ α} {f g : κ → α → Nat}
    (h : ∀ key value, m.get? key = some value → f key value ≤ g key value) : m.sum f ≤ m.sum g := by
  apply List.sum_le_sum
  intro entry hmem
  exact h entry.1 entry.2 (mem_entries_iff.mp hmem)

omit [DecidableEq κ] in
theorem sum_filter_add (entries : List (κ × α)) (p : κ × α → Bool) (f : κ × α → Nat) :
    ((entries.filter p).map f).sum + ((entries.filter fun entry => !p entry).map f).sum =
      (entries.map f).sum := by
  induction entries with
  | nil => rfl
  | cons entry entries ih =>
    rw [List.filter_cons, List.filter_cons]
    cases p entry with
    | true =>
      simp only [if_true, Bool.not_true, Bool.false_eq_true, if_false, List.map_cons, List.sum_cons]
      omega
    | false =>
      simp only [Bool.false_eq_true, if_false, Bool.not_false, if_true, List.map_cons,
        List.sum_cons]
      omega

theorem sum_delete (m : OrderedMap κ α) (key : κ) (f : κ → α → Nat) :
    (m.delete key).sum f + ((m.get? key).map (f key)).getD 0 = m.sum f := by
  have hsplit := sum_filter_add m.entries (fun entry => decide (entry.1 ≠ key))
    (fun entry => f entry.1 entry.2)
  have hrest : (m.entries.filter fun entry => !decide (entry.1 ≠ key)) =
      (m.get? key).toList.map (Prod.mk key) := by
    rw [← filter_key]
    apply List.filter_congr
    intro entry _
    simp
  rw [hrest] at hsplit
  rw [sum, sum, ← hsplit]
  cases m.get? key <;> simp

theorem delete_set (m : OrderedMap κ α) (key : κ) (value : α) :
    (m.set key value).delete key = m.delete key := by
  apply ext
  by_cases hkey : key ∈ m.keys
  · rw [set, dif_pos hkey, entries_delete, entries_modify, entries_delete, List.filter_map]
    rw [List.map_congr_left (g := id), List.map_id]
    · rfl
    · intro entry hentry
      have hne : entry.1 ≠ key := by simpa using (List.mem_filter.mp hentry).2
      simp [hne]
  · rw [entries_delete, entries_set_new hkey, List.filter_append, entries_delete]
    simp

theorem sum_set (m : OrderedMap κ α) (key : κ) (value : α) (f : κ → α → Nat) :
    (m.set key value).sum f + ((m.get? key).map (f key)).getD 0 = m.sum f + f key value := by
  have hold := sum_delete m key f
  have hnew := sum_delete (m.set key value) key f
  rw [delete_set, get?_set, if_pos rfl, Option.map_some, Option.getD_some] at hnew
  omega

theorem countP_values_set (m : OrderedMap κ α) (key : κ) (value : α) (p : α → Bool) :
    (m.set key value).values.countP p + (m.get? key).toList.countP p =
      m.values.countP p + [value].countP p := by
  have hold := countP_values_delete m key p
  have hnew := countP_values_delete (m.set key value) key p
  rw [delete_set, get?_set, if_pos rfl, Option.toList_some] at hnew
  omega

def setAll (m : OrderedMap κ α) (keys : List κ) (value : α) : OrderedMap κ α :=
  keys.foldl (fun m key => m.set key value) m

theorem mem_entries_setAll {keys : List κ} {value : α} {m : OrderedMap κ α} {entry : κ × α}
    (h : entry ∈ (m.setAll keys value).entries) :
    entry.1 ∈ keys ∧ entry.2 = value ∨ entry ∈ m.entries := by
  induction keys generalizing m with
  | nil => exact .inr h
  | cons key keys ih =>
    rcases ih h with ⟨hkey, hvalue⟩ | hset
    · exact .inl ⟨List.mem_cons_of_mem _ hkey, hvalue⟩
    · rcases mem_entries_set hset with rfl | hold
      · exact .inl ⟨List.mem_cons_self, rfl⟩
      · exact .inr hold

theorem entries_setAll_new {keys : List κ} (hnodup : keys.Nodup) (value : α)
    {m : OrderedMap κ α} (hnew : ∀ key ∈ keys, key ∉ m.keys) :
    (m.setAll keys value).entries = m.entries ++ keys.map fun key => (key, value) := by
  induction keys generalizing m with
  | nil => simp [setAll]
  | cons key keys ih =>
    rw [List.nodup_cons] at hnodup
    have hentries := entries_set_new (hnew key List.mem_cons_self) value
    have hrest : ∀ other ∈ keys, other ∉ (m.set key value).keys := by
      intro other hother
      simp only [OrderedMap.keys, hentries, List.map_append, List.mem_append, not_or]
      refine ⟨hnew other (List.mem_cons_of_mem _ hother), ?_⟩
      rw [List.map_singleton, List.mem_singleton]
      rintro rfl
      exact hnodup.1 hother
    have := ih hnodup.2 hrest
    rw [hentries] at this
    simpa [setAll] using this

def insertAll (m : OrderedMap κ α) (entries : List (κ × α)) : OrderedMap κ α :=
  entries.foldl (fun m entry => m.set entry.1 entry.2) m

theorem mem_entries_insertAll {entries : List (κ × α)} {m : OrderedMap κ α} {entry : κ × α}
    (h : entry ∈ (m.insertAll entries).entries) : entry ∈ m.entries ∨ entry ∈ entries := by
  induction entries generalizing m with
  | nil => exact .inl h
  | cons first rest ih =>
    rcases @ih (m.set first.1 first.2) h with hset | hrest
    · rcases mem_entries_set hset with hnew | hold
      · exact .inr (hnew ▸ List.mem_cons_self)
      · exact .inl hold
    · exact .inr (List.mem_cons_of_mem first hrest)

theorem entries_insertAll_new {entries : List (κ × α)} {m : OrderedMap κ α}
    (h : (m.keys ++ entries.map Prod.fst).Nodup) :
    (m.insertAll entries).entries = m.entries ++ entries := by
  induction entries generalizing m with
  | nil => simp [insertAll]
  | cons entry entries ih =>
    have hnew : entry.1 ∉ m.keys := by
      intro hmem
      rw [List.nodup_append] at h
      exact h.2.2 entry.1 hmem entry.1 (by simp) rfl
    have hentries := entries_set_new hnew entry.2
    have hkeys : (m.set entry.1 entry.2).keys = m.keys ++ [entry.1] := by
      simp [OrderedMap.keys, hentries]
    have := @ih (m.set entry.1 entry.2) (by rw [hkeys]; simpa using h)
    rw [hentries] at this
    simpa [insertAll] using this

end OrderedMap

end Harness.Foundation
