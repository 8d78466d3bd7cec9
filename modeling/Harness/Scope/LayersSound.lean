import Harness.Scope.Layers

namespace Harness.Scope

open Harness.Foundation

variable {Slot V : Type} [DecidableEq Slot]

def Undo.entry (undo : Undo Slot V) : EntryKey × V := (undo.key, undo.value)

def inTable (undos : List (Undo Slot V)) (layer : Nat) (slot : Slot) : List (Undo Slot V) :=
  undos.filter fun undo =>
    undo.active && decide (undo.effect.layer = layer) && decide (undo.slot = slot)

namespace ScopedLayers

variable (state : ScopedLayers Slot V)

def liveEntries (scope : Option ScopeKey) (slot : Slot) : List (EntryKey × V) :=
  (state.undos.filter fun undo =>
    undo.active && decide (undo.effect.scope = scope) && decide (undo.slot = slot)).map Undo.entry

/-- What a scope should see: the live registrations alone, the nearest scope last. -/
def liveMerge (scope : Option ScopeKey) (pick : Slot) : OrderedMap EntryKey V :=
  (state.scopeChainOf scope).reverse.foldl
    (fun merged key => merged.insertAll (state.liveEntries (some key) pick))
    (OrderedMap.empty.insertAll (state.liveEntries none pick))

variable [Fintype Slot]

def Kept (effect : Effect) (rest : List Frame) : Prop :=
  ∀ key ∈ effect.scope, state.scopedMap.get? key = some effect.layer →
    (state.layers effect.layer).isEmpty = true →
      ∃ frame ∈ rest, frame.effect.layer = effect.layer

/-- A call that reclaims an empty layer finds no other one in its place, and no action under way. -/
def Reclaimable (effect : Effect) (rest : List Frame) : Prop :=
  ∀ key ∈ effect.scope, (state.layers effect.layer).isEmpty = true →
    (∀ layer ∈ state.scopedMap.get? key, layer = effect.layer) ∧
      ∀ frame ∈ rest, frame = .acting frame.effect → frame.effect.scope ≠ some key

instance decidableKept (effect : Effect) (rest : List Frame) :
    Decidable (state.Kept effect rest) :=
  inferInstanceAs (Decidable (∀ key ∈ effect.scope, _ → _ → _))

instance decidableReclaimable (effect : Effect) (rest : List Frame) :
    Decidable (state.Reclaimable effect rest) :=
  inferInstanceAs (Decidable (∀ key ∈ effect.scope, _ → _))

end ScopedLayers

/-- No empty layer is left in the map, and none is reclaimed in place of another. -/
def Orderly [Fintype Slot] (state : ScopedLayers Slot V) (op : LayerOp Slot V) : Prop :=
  match op, state.stack with
  | .returns, frame :: rest => state.Kept frame.effect rest
  | .throws, frame :: rest =>
    if frame.effect.created then state.Reclaimable frame.effect rest
    else state.Kept frame.effect rest
  | .reclaim, frame :: rest => state.Reclaimable frame.effect rest
  | _, _ => True

instance decidableOrderly [Fintype Slot] (state : ScopedLayers Slot V) (op : LayerOp Slot V) :
    Decidable (Orderly state op) := by
  unfold Orderly
  split <;> infer_instance

namespace ScopedLayers

variable {state after : ScopedLayers Slot V}

theorem linked_keys {m : OrderedMap ScopeKey ScopeKey} (key : ScopeKey) (h : m.get? key ≠ none) :
    key ∈ m.keys := by
  obtain ⟨value, hvalue⟩ := Option.ne_none_iff_exists'.mp h
  exact OrderedMap.mem_keys_of_get? hvalue

omit [DecidableEq Slot] in
theorem scopeChain_ends (h : Ends state.parents.get?) (key : ScopeKey) :
    ∃ nodes, state.scopeChain key = some nodes ∧ Chain state.parents.get? key nodes := by
  obtain ⟨nodes, hchain⟩ := h key
  have hlength := hchain.length_le linked_keys
  rw [OrderedMap.keys, List.length_map] at hlength
  exact ⟨nodes, hchain.chain_eq hlength, hchain⟩

omit [DecidableEq Slot] in
theorem linkScopeParent_ends (h : Ends state.parents.get?) {key parent : ScopeKey}
    (hlink : state.linkScopeParent key parent = some after) : Ends after.parents.get? := by
  obtain ⟨ancestors, hancestors, hafter⟩ := Option.bind_eq_some_iff.mp hlink
  split at hafter
  · cases hafter
  · rename_i hmem
    cases hafter
    apply h.relink (chain_sound hancestors) hmem
    · rw [OrderedMap.get?_set, if_pos rfl]
    · intro other hne
      rw [OrderedMap.get?_set, if_neg hne]

omit [DecidableEq Slot] in
theorem linkOrKeep_ends (h : Ends state.parents.get?) (key parent : ScopeKey) :
    Ends ((state.linkScopeParent key parent).getD state).parents.get? := by
  cases hlink : state.linkScopeParent key parent with
  | none => exact h
  | some linked => exact linkScopeParent_ends h hlink

omit [DecidableEq Slot] in
@[simp] theorem parents_effectAt (scope : Option ScopeKey) :
    (state.effectAt scope).parents = state.parents := by
  unfold effectAt
  split
  · rfl
  · split <;> rfl

@[simp] theorem parents_insert (effect : Effect) (slot : Slot) (name : String) (value : V) :
    (state.insert effect slot name value).parents = state.parents := by
  unfold insert
  split <;> rfl

omit [DecidableEq Slot] in
@[simp] theorem parents_reclaim [Fintype Slot] (effect : Effect) :
    (state.reclaim effect).parents = state.parents := by
  unfold reclaim
  split
  · split <;> rfl
  · rfl

theorem parents_callUndo {effect : Effect} {index : Nat}
    (h : state.callUndo effect index = some after) : after.parents = state.parents := by
  unfold callUndo at h
  split at h
  · cases h
  · split at h
    · cases h
    · split at h <;> cases h <;> rfl

theorem step_ends [Fintype Slot] {op : LayerOp Slot V} (h : Ends state.parents.get?)
    (hstep : state.step op = some after) : Ends after.parents.get? := by
  cases op with
  | effectAt scope =>
    cases hstep
    rwa [parents_effectAt]
  | insert slot name value =>
    simp only [step] at hstep
    split at hstep
    · cases hstep
      rwa [parents_insert]
    · cases hstep
  | append slot value =>
    simp only [step] at hstep
    split at hstep <;> cases hstep
    exact h
  | undo index =>
    simp only [step] at hstep
    split at hstep
    · rwa [parents_callUndo hstep]
    · cases hstep
  | returns =>
    simp only [step] at hstep
    split at hstep <;> cases hstep
    exact h
  | throws =>
    simp only [step] at hstep
    split at hstep
    · cases hstep
      split
      · rwa [parents_reclaim]
      · exact h
    · cases hstep
  | dispose id =>
    simp only [step] at hstep
    split at hstep <;> cases hstep <;> exact h
  | reclaim =>
    simp only [step] at hstep
    split at hstep
    · cases hstep
      rwa [parents_reclaim]
    · cases hstep
  | bindScopeParent key parent =>
    simp only [step] at hstep
    split at hstep
    · cases hstep
      exact h
    · cases hstep
      exact linkOrKeep_ends h key parent
  | rebind key parent =>
    simp only [step] at hstep
    split at hstep
    · cases hstep
      exact linkOrKeep_ends h key parent
    · cases hstep

end ScopedLayers

def Captured (state : ScopedLayers Slot V) (effect : Effect) : Prop :=
  effect.layer < state.made ∧ (state.layers effect.layer).scope = effect.scope

structure Owned [Fintype Slot] (state : ScopedLayers Slot V) : Prop where
  tables : ∀ layer slot, ((state.layers layer).tables slot).data.entries =
    (inTable state.undos layer slot).map Undo.entry
  generations : ∀ undo ∈ state.undos, undo.active = true →
    undo.generation = ((state.layers undo.effect.layer).tables undo.slot).generation
  symbols : ∀ undo ∈ state.undos, ∀ symbol, undo.key = .anonymous symbol →
    symbol < state.undos.length
  unmade : ∀ layer, state.made ≤ layer → ∀ undo ∈ state.undos, undo.effect.layer ≠ layer
  root : 0 < state.made ∧ (state.layers 0).scope = none
  roots : ∀ layer, layer < state.made → (state.layers layer).scope = none → layer = 0
  overlays : ∀ key layer, state.scopedMap.get? key = some layer →
    layer < state.made ∧ (state.layers layer).scope = some key
  holders : ∀ undo ∈ state.undos, Captured state undo.effect
  captured : ∀ effect ∈ state.live, Captured state effect
  frames : ∀ frame ∈ state.stack, Captured state frame.effect
  placed : ∀ undo ∈ state.undos, undo.active = true → ∀ key, undo.effect.scope = some key →
    state.scopedMap.get? key = some undo.effect.layer
  acting : ∀ effect, Frame.acting effect ∈ state.stack → ∀ key, effect.scope = some key →
    state.scopedMap.get? key = some effect.layer
  occupied : ∀ key layer, state.scopedMap.get? key = some layer →
    (state.layers layer).isEmpty = false ∨ ∃ frame ∈ state.stack, frame.effect.layer = layer

theorem mem_inTable {undos : List (Undo Slot V)} {layer : Nat} {slot : Slot} {undo : Undo Slot V} :
    undo ∈ inTable undos layer slot ↔
      undo ∈ undos ∧ undo.active = true ∧ undo.effect.layer = layer ∧ undo.slot = slot := by
  simp only [inTable, List.mem_filter, Bool.and_eq_true, decide_eq_true_eq, and_assoc]

theorem inTable_append (undos : List (Undo Slot V)) (undo : Undo Slot V) (layer : Nat) (slot : Slot)
    (hactive : undo.active = true) :
    inTable (undos ++ [undo]) layer slot = inTable undos layer slot ++
      if undo.effect.layer = layer ∧ undo.slot = slot then [undo] else [] := by
  unfold inTable
  rw [List.filter_append]
  congr 1
  by_cases hat : undo.effect.layer = layer ∧ undo.slot = slot
  · rw [if_pos hat]
    simp [hactive, hat.1, hat.2]
  · rw [if_neg hat]
    by_cases hlayer : undo.effect.layer = layer
    · have hslot : undo.slot ≠ slot := fun hslot => hat ⟨hlayer, hslot⟩
      simp [hslot]
    · simp [hlayer]

omit [DecidableEq Slot] in
theorem split_undos {undos : List (Undo Slot V)} {index : Nat} {undo : Undo Slot V}
    (h : undos[index]? = some undo) (called : Undo Slot V) : ∃ front back,
      undos = front ++ undo :: back ∧ undos.set index called = front ++ called :: back := by
  obtain ⟨hlt, heq⟩ := List.getElem?_eq_some_iff.mp h
  refine ⟨undos.take index, undos.drop (index + 1), ?_, ?_⟩
  · rw [← heq, ← List.drop_eq_getElem_cons hlt, List.take_append_drop]
  · rw [List.set_eq_take_append_cons_drop, if_pos hlt]

theorem inTable_set_other {undos : List (Undo Slot V)} {index : Nat} {undo : Undo Slot V}
    (h : undos[index]? = some undo) {layer : Nat} {slot : Slot}
    (hother : ¬ (undo.effect.layer = layer ∧ undo.slot = slot)) :
    inTable (undos.set index { undo with active := false }) layer slot =
      inTable undos layer slot := by
  obtain ⟨front, back, hundos, hset⟩ := split_undos h { undo with active := false }
  rw [hset, hundos]
  unfold inTable
  rw [List.filter_append, List.filter_append, List.filter_cons_of_neg (by simp)]
  rw [List.filter_cons_of_neg]
  simp only [Bool.and_eq_true, decide_eq_true_eq, and_assoc]
  exact fun hat => hother hat.2

theorem inTable_set {undos : List (Undo Slot V)} {index : Nat} {undo : Undo Slot V}
    (h : undos[index]? = some undo) (hactive : undo.active = true)
    (hnodup : (((inTable undos undo.effect.layer undo.slot).map Undo.entry).map Prod.fst).Nodup) :
    (inTable (undos.set index { undo with active := false }) undo.effect.layer undo.slot).map
        Undo.entry =
      ((inTable undos undo.effect.layer undo.slot).map Undo.entry).filter
        fun entry => decide (entry.1 ≠ undo.key) := by
  obtain ⟨front, back, hundos, hset⟩ := split_undos h { undo with active := false }
  have hlive : inTable undos undo.effect.layer undo.slot =
      inTable front undo.effect.layer undo.slot ++
        undo :: inTable back undo.effect.layer undo.slot := by
    rw [hundos, inTable, List.filter_append, List.filter_cons_of_pos (by simp [hactive])]
    rfl
  have hcalled : inTable (undos.set index { undo with active := false }) undo.effect.layer
      undo.slot = inTable front undo.effect.layer undo.slot ++
        inTable back undo.effect.layer undo.slot := by
    rw [hset, inTable, List.filter_append, List.filter_cons_of_neg (by simp)]
    rfl
  rw [hlive] at hnodup ⊢
  rw [hcalled]
  simp only [List.map_append, List.map_cons, List.nodup_append, List.nodup_cons] at hnodup
  obtain ⟨-, ⟨hback, -⟩, hfront⟩ := hnodup
  rw [List.map_append, List.map_append, List.map_cons, List.filter_append,
    List.filter_cons_of_neg (by simp [Undo.entry])]
  congr 1
  · apply Eq.symm
    apply List.filter_eq_self.mpr
    intro entry hmem
    have hne := hfront entry.1 (List.mem_map_of_mem hmem) undo.key List.mem_cons_self
    exact decide_eq_true hne
  · apply Eq.symm
    apply List.filter_eq_self.mpr
    intro entry hmem
    apply decide_eq_true
    intro heq
    have hkey := @List.mem_map_of_mem _ _ _ _ Prod.fst hmem
    rw [heq] at hkey
    exact hback hkey

namespace Owned

variable [Fintype Slot] {state after : ScopedLayers Slot V}

theorem isEmpty_iff (h : Owned state) (layer : Nat) :
    (state.layers layer).isEmpty = true ↔
      ∀ undo ∈ state.undos, undo.active = true → undo.effect.layer ≠ layer := by
  simp only [ScopeLayer.isEmpty, EntryTable.isEmpty, decide_eq_true_eq, OrderedMap.size, h.tables,
    List.length_eq_zero_iff, List.map_eq_nil_iff]
  constructor
  · intro hempty undo hmem hactive hlayer
    exact List.not_mem_nil (hempty undo.slot ▸ mem_inTable.mpr ⟨hmem, hactive, hlayer, rfl⟩)
  · intro hnone slot
    apply List.eq_nil_iff_forall_not_mem.mpr
    intro undo hmem
    obtain ⟨hundo, hactive, hlayer, -⟩ := mem_inTable.mp hmem
    exact hnone undo hundo hactive hlayer

theorem nonempty_of_active (h : Owned state) {undo : Undo Slot V} (hmem : undo ∈ state.undos)
    (hactive : undo.active = true) : (state.layers undo.effect.layer).isEmpty = false := by
  apply Bool.eq_false_iff.mpr
  exact fun hempty => (h.isEmpty_iff _).mp hempty undo hmem hactive rfl

theorem overlay_entries (h : Owned state) {key : ScopeKey} {layer : Nat}
    (hlayer : state.scopedMap.get? key = some layer) (slot : Slot) :
    ((state.layers layer).tables slot).data.entries = state.liveEntries (some key) slot := by
  rw [h.tables, inTable, ScopedLayers.liveEntries]
  congr 1
  apply List.filter_congr
  intro undo hmem
  cases hactive : undo.active with
  | false => rfl
  | true =>
    have hiff : undo.effect.layer = layer ↔ undo.effect.scope = some key := by
      constructor
      · intro heq
        rw [← (h.holders undo hmem).2, heq]
        exact (h.overlays key layer hlayer).2
      · intro heq
        have := h.placed undo hmem hactive key heq
        rw [hlayer] at this
        exact (Option.some.inj this).symm
    simp only [hiff]

theorem root_entries (h : Owned state) (slot : Slot) :
    ((state.layers 0).tables slot).data.entries = state.liveEntries none slot := by
  rw [h.tables, inTable, ScopedLayers.liveEntries]
  congr 1
  apply List.filter_congr
  intro undo hmem
  have hiff : undo.effect.layer = 0 ↔ undo.effect.scope = none := by
    obtain ⟨hlt, hscope⟩ := h.holders undo hmem
    rw [← hscope]
    constructor
    · intro heq
      rw [heq]
      exact h.root.2
    · exact h.roots _ hlt
  simp only [hiff]

theorem no_entries (h : Owned state) {key : ScopeKey} (hnone : state.scopedMap.get? key = none)
    (slot : Slot) : state.liveEntries (some key) slot = [] := by
  rw [ScopedLayers.liveEntries, List.map_eq_nil_iff]
  apply List.filter_eq_nil_iff.mpr
  intro undo hmem
  simp only [Bool.and_eq_true, decide_eq_true_eq, and_assoc]
  rintro ⟨hactive, hscope, -⟩
  have hplaced := h.placed undo hmem hactive key hscope
  rw [hnone] at hplaced
  cases hplaced

theorem merge_eq (h : Owned state) (scope : Option ScopeKey) (pick : Slot) :
    state.merge scope pick = state.liveMerge scope pick := by
  unfold ScopedLayers.merge ScopedLayers.liveMerge ScopedLayers.chainLayers
  rw [List.foldl_filterMap]
  have hroot : ((state.layers 0).tables pick).data =
      OrderedMap.empty.insertAll (state.liveEntries none pick) := by
    apply OrderedMap.ext
    rw [← h.root_entries, OrderedMap.entries_insertAll_new]
    · exact (List.nil_append _).symm
    · exact ((state.layers 0).tables pick).data.nodup
  rw [hroot]
  apply List.foldl_ext
  intro merged key _
  cases hlayer : state.scopedMap.get? key with
  | none =>
    rw [h.no_entries hlayer]
    rfl
  | some layer =>
    exact congrArg merged.insertAll (h.overlay_entries hlayer pick)

/-- Where no call on a scope is under way, it has a layer exactly when something is registered. -/
theorem overlay_iff (h : Owned state) {key : ScopeKey}
    (hquiet : ∀ frame ∈ state.stack, frame.effect.scope ≠ some key) :
    (∃ layer, state.scopedMap.get? key = some layer) ↔
      ∃ undo ∈ state.undos, undo.active = true ∧ undo.effect.scope = some key := by
  constructor
  · rintro ⟨layer, hlayer⟩
    obtain ⟨-, hscope⟩ := h.overlays key layer hlayer
    rcases h.occupied key layer hlayer with hsome | ⟨frame, hframe, heq⟩
    · by_contra hnone
      refine absurd ((h.isEmpty_iff layer).mpr fun undo hmem hactive heq => ?_) (by rw [hsome]; nofun)
      exact hnone ⟨undo, hmem, hactive, by rw [← (h.holders undo hmem).2, heq, hscope]⟩
    · refine absurd ?_ (hquiet frame hframe)
      rw [← (h.frames frame hframe).2, heq, hscope]
  · rintro ⟨undo, hmem, hactive, hscope⟩
    exact ⟨_, h.placed undo hmem hactive key hscope⟩

theorem of_calls (h : Owned state) {stack : List Frame} {live : List Effect} {effects : Nat}
    (hlive : ∀ effect ∈ live, Captured state effect)
    (hframes : ∀ frame ∈ stack, Captured state frame.effect)
    (hacting : ∀ effect, Frame.acting effect ∈ stack → ∀ key, effect.scope = some key →
      state.scopedMap.get? key = some effect.layer)
    (hoccupied : ∀ key layer, state.scopedMap.get? key = some layer →
      (state.layers layer).isEmpty = false ∨ ∃ frame ∈ stack, frame.effect.layer = layer) :
    Owned { state with stack, live, effects } where
  tables := h.tables
  generations := h.generations
  symbols := h.symbols
  unmade := h.unmade
  root := h.root
  roots := h.roots
  overlays := h.overlays
  holders := h.holders
  captured := hlive
  frames := hframes
  placed := h.placed
  acting := hacting
  occupied := hoccupied

theorem push (h : Owned state) {frame : Frame} {live : List Effect} {effects : Nat}
    (hlive : ∀ effect ∈ live, effect ∈ state.live) (hframe : Captured state frame.effect)
    (hacting : ∀ effect, frame = .acting effect → ∀ key, effect.scope = some key →
      state.scopedMap.get? key = some effect.layer) :
    Owned { state with stack := frame :: state.stack, live, effects } := by
  apply h.of_calls (fun effect hmem => h.captured effect (hlive effect hmem))
  · intro other hmem
    rcases List.mem_cons.mp hmem with rfl | hmem
    · exact hframe
    · exact h.frames other hmem
  · intro effect hmem
    rcases List.mem_cons.mp hmem with heq | hmem
    · exact hacting effect heq.symm
    · exact h.acting effect hmem
  · intro key layer hlayer
    rcases h.occupied key layer hlayer with hsome | ⟨other, hmem, heq⟩
    · exact .inl hsome
    · exact .inr ⟨other, List.mem_cons_of_mem _ hmem, heq⟩

theorem pop (h : Owned state) {frame : Frame} {rest : List Frame} {live : List Effect}
    (hstack : state.stack = frame :: rest) (hlive : ∀ effect ∈ live, Captured state effect)
    (hkept : state.Kept frame.effect rest) : Owned { state with stack := rest, live } := by
  apply h.of_calls hlive
  · exact fun other hmem => h.frames other (hstack ▸ List.mem_cons_of_mem _ hmem)
  · exact fun effect hmem => h.acting effect (hstack ▸ List.mem_cons_of_mem _ hmem)
  · intro key layer hlayer
    rcases h.occupied key layer hlayer with hsome | ⟨other, hmem, rfl⟩
    · exact .inl hsome
    · rcases List.mem_cons.mp (hstack ▸ hmem) with rfl | hmem
      · have hscope : other.effect.scope = some key := by
          rw [← (h.frames other (hstack ▸ List.mem_cons_self)).2]
          exact (h.overlays key _ hlayer).2
        cases hempty : (state.layers other.effect.layer).isEmpty with
        | false => exact .inl rfl
        | true => exact .inr (hkept key hscope hlayer hempty)
      · exact .inr ⟨other, hmem, rfl⟩

theorem reclaim (h : Owned state) {frame : Frame} {rest : List Frame}
    (hstack : state.stack = frame :: rest) (hguard : state.Reclaimable frame.effect rest) :
    Owned ({ state with stack := rest }.reclaim frame.effect) := by
  have hcaptured := h.frames frame (hstack ▸ List.mem_cons_self)
  have hkept : (state.layers frame.effect.layer).isEmpty = false ∨ frame.effect.scope = none →
      Owned { state with stack := rest } := by
    intro hcase
    apply h.pop hstack h.captured
    intro key hkey _ hempty
    rcases hcase with hsome | hnone
    · rw [hsome] at hempty
      cases hempty
    · rw [hnone] at hkey
      cases hkey
  unfold ScopedLayers.reclaim
  split
  · rename_i key hscope
    dsimp only
    split
    · rename_i hempty
      obtain ⟨hplace, hactions⟩ := hguard key hscope hempty
      have hdelete : ∀ other, other ≠ key →
          (state.scopedMap.delete key).get? other = state.scopedMap.get? other := fun other hne => by
        rw [OrderedMap.get?_delete, if_neg hne]
      have hkept' : ∀ other layer, (state.scopedMap.delete key).get? other = some layer →
          other ≠ key ∧ state.scopedMap.get? other = some layer := by
        intro other layer hlayer
        rw [OrderedMap.get?_delete] at hlayer
        split at hlayer
        · cases hlayer
        · exact ⟨‹_›, hlayer⟩
      refine ⟨h.tables, h.generations, h.symbols, h.unmade, h.root, h.roots, ?_, h.holders,
        h.captured, ?_, ?_, ?_, ?_⟩
      · exact fun other layer hlayer => h.overlays other layer (hkept' other layer hlayer).2
      · exact fun other hmem => h.frames other (hstack ▸ List.mem_cons_of_mem _ hmem)
      · intro undo hmem hactive other hother
        have hplaced := h.placed undo hmem hactive other hother
        have hne : other ≠ key := by
          rintro rfl
          have hsame := hplace _ hplaced
          have hsome := h.nonempty_of_active hmem hactive
          rw [hsame, hempty] at hsome
          cases hsome
        rw [← hplaced]
        exact hdelete other hne
      · intro effect hmem other hother
        have hne : other ≠ key := by
          rintro rfl
          exact hactions _ hmem rfl hother
        rw [← h.acting effect (hstack ▸ List.mem_cons_of_mem _ hmem) other hother]
        exact hdelete other hne
      · intro other layer hlayer
        obtain ⟨hne, hlayer⟩ := hkept' other layer hlayer
        rcases h.occupied other layer hlayer with hsome | ⟨call, hmem, heq⟩
        · exact .inl hsome
        · rcases List.mem_cons.mp (hstack ▸ hmem) with rfl | hmem
          · have hother := (h.overlays other layer hlayer).2
            rw [← heq, hcaptured.2, hscope] at hother
            exact absurd (Option.some.inj hother).symm hne
          · exact .inr ⟨call, hmem, heq⟩
    · rename_i hempty
      exact hkept (.inl (Bool.eq_false_iff.mpr hempty))
  · exact hkept (.inr ‹_›)

theorem effectAt (h : Owned state) (scope : Option ScopeKey) : Owned (state.effectAt scope) := by
  cases scope with
  | none =>
    exact h.push (fun _ hmem => hmem) h.root fun effect heq key hkey => by
      cases heq
      cases hkey
  | some key =>
    simp only [ScopedLayers.effectAt]
    split
    · rename_i layer hlayer
      exact h.push (fun _ hmem => hmem) (h.overlays key layer hlayer) fun effect heq other hother => by
        cases heq
        cases hother
        exact hlayer
    · rename_i hnone
      have hfresh : key ∉ state.scopedMap.keys := OrderedMap.notMem_keys_of_get? hnone
      have hnew : ∀ other layer, (state.scopedMap.set key state.made).get? other = some layer →
          (other = key ∧ layer = state.made) ∨ other ≠ key ∧
            state.scopedMap.get? other = some layer := by
        intro other layer hlayer
        exact OrderedMap.of_get?_set hlayer
      have hold : ∀ other layer, state.scopedMap.get? other = some layer →
          (state.scopedMap.set key state.made).get? other = some layer := by
        intro other layer hlayer
        rw [OrderedMap.get?_set, if_neg, hlayer]
        rintro rfl
        rw [hnone] at hlayer
        cases hlayer
      have hsame : ∀ layer, layer < state.made →
          (if layer = state.made then (⟨some key, fun _ => .empty⟩ : ScopeLayer Slot V)
            else state.layers layer) = state.layers layer :=
        fun layer hlt => if_neg (Nat.ne_of_lt hlt)
      have hcaptured : ∀ {effect : Effect}, Captured state effect →
          effect.layer < state.made + 1 ∧
            (if effect.layer = state.made then (⟨some key, fun _ => .empty⟩ : ScopeLayer Slot V)
              else state.layers effect.layer).scope = effect.scope := by
        rintro effect ⟨hlt, hscope⟩
        rw [hsame _ hlt]
        exact ⟨Nat.lt_succ_of_lt hlt, hscope⟩
      constructor
      · intro layer slot
        dsimp only
        split
        · rename_i heq
          have hnone : inTable state.undos layer slot = [] := by
            apply List.filter_eq_nil_iff.mpr
            intro undo hmem
            simp only [Bool.and_eq_true, decide_eq_true_eq, and_assoc]
            exact fun hat => h.unmade layer (Nat.le_of_eq heq.symm) undo hmem hat.2.1
          rw [hnone]
          rfl
        · exact h.tables layer slot
      · intro undo hmem hactive
        dsimp only
        rw [hsame _ (h.holders undo hmem).1]
        exact h.generations undo hmem hactive
      · exact h.symbols
      · exact fun layer hle undo hmem => h.unmade layer (Nat.le_of_succ_le hle) undo hmem
      · dsimp only
        rw [hsame 0 h.root.1]
        exact ⟨Nat.succ_pos _, h.root.2⟩
      · intro layer hlt hscope
        dsimp only at hlt hscope
        split at hscope
        · cases hscope
        · exact h.roots layer (Nat.lt_of_le_of_ne (Nat.le_of_lt_succ hlt) ‹_›) hscope
      · intro other layer hlayer
        rcases hnew other layer hlayer with ⟨rfl, rfl⟩ | ⟨-, hlayer⟩
        · exact ⟨Nat.lt_succ_self _, by dsimp only; rw [if_pos rfl]⟩
        · exact @hcaptured ⟨0, some other, layer, false⟩ (h.overlays other layer hlayer)
      · exact fun undo hmem => hcaptured (h.holders undo hmem)
      · exact fun effect hmem => hcaptured (h.captured effect hmem)
      · intro frame hmem
        rcases List.mem_cons.mp hmem with rfl | hmem
        · exact ⟨Nat.lt_succ_self _, by dsimp only [Frame.effect]; rw [if_pos rfl]⟩
        · exact hcaptured (h.frames frame hmem)
      · exact fun undo hmem hactive other hother => hold _ _ (h.placed undo hmem hactive other hother)
      · intro effect hmem other hother
        rcases List.mem_cons.mp hmem with heq | hmem
        · cases heq
          cases hother
          dsimp only
          rw [OrderedMap.get?_set, if_pos rfl]
        · exact hold _ _ (h.acting effect hmem other hother)
      · intro other layer hlayer
        rcases hnew other layer hlayer with ⟨rfl, rfl⟩ | ⟨-, hlayer⟩
        · exact .inr ⟨_, List.mem_cons_self, rfl⟩
        · rcases h.occupied other layer hlayer with hsome | ⟨call, hmem, heq⟩
          · left
            dsimp only
            rwa [hsame _ (h.overlays other layer hlayer).1]
          · exact .inr ⟨call, List.mem_cons_of_mem _ hmem, heq⟩

omit [Fintype Slot] in
theorem setTable_scope (layer other : Nat) (slot : Slot) (table : EntryTable V) :
    ((state.setTable layer slot table).layers other).scope = (state.layers other).scope := by
  simp only [ScopedLayers.setTable]
  split
  · rename_i heq
    rw [heq]
  · rfl

omit [Fintype Slot] in
theorem setTable_tables (layer other : Nat) (slot pick : Slot) (table : EntryTable V) :
    ((state.setTable layer slot table).layers other).tables pick =
      if other = layer ∧ pick = slot then table else (state.layers other).tables pick := by
  simp only [ScopedLayers.setTable]
  by_cases hlayer : other = layer
  · rw [if_pos hlayer, hlayer]
    dsimp only
    by_cases hslot : pick = slot
    · rw [if_pos hslot, if_pos ⟨rfl, hslot⟩]
    · rw [if_neg hslot, if_neg fun hat => hslot hat.2]
  · rw [if_neg hlayer, if_neg fun hat => hlayer hat.1]

theorem of_table (h : Owned state) {effect : Effect} {slot : Slot} {table : EntryTable V}
    {undos : List (Undo Slot V)}
    (htables : ∀ layer pick,
      (if layer = effect.layer ∧ pick = slot then table
        else (state.layers layer).tables pick).data.entries = (inTable undos layer pick).map Undo.entry)
    (hgenerations : ∀ undo ∈ undos, undo.active = true → undo.generation =
      (if undo.effect.layer = effect.layer ∧ undo.slot = slot then table
        else (state.layers undo.effect.layer).tables undo.slot).generation)
    (hsymbols : ∀ undo ∈ undos, ∀ symbol, undo.key = .anonymous symbol → symbol < undos.length)
    (hholders : ∀ undo ∈ undos, Captured state undo.effect)
    (hplaced : ∀ undo ∈ undos, undo.active = true → ∀ key, undo.effect.scope = some key →
      state.scopedMap.get? key = some undo.effect.layer)
    (hoccupied : ∀ layer, (state.layers layer).isEmpty = false →
      (∃ undo ∈ undos, undo.active = true ∧ undo.effect.layer = layer) ∨
        ∃ frame ∈ state.stack, frame.effect.layer = layer) :
    Owned { state.setTable effect.layer slot table with undos } := by
  have hcaptured : ∀ {other : Effect}, Captured state other →
      Captured { state.setTable effect.layer slot table with undos } other := by
    rintro other ⟨hlt, hscope⟩
    exact ⟨hlt, (setTable_scope effect.layer other.layer slot table).trans hscope⟩
  refine ⟨?_, ?_, hsymbols, ?_, ?_, ?_, ?_, ?_, ?_, ?_, hplaced, h.acting, ?_⟩
  · intro layer pick
    dsimp only
    rw [setTable_tables]
    exact htables layer pick
  · intro undo hmem hactive
    dsimp only
    rw [setTable_tables]
    exact hgenerations undo hmem hactive
  · intro layer hle undo hmem heq
    exact absurd (heq ▸ (hholders undo hmem).1) (Nat.not_lt.mpr hle)
  · exact ⟨h.root.1, (setTable_scope _ _ _ _).trans h.root.2⟩
  · exact fun layer hlt hscope => h.roots layer hlt ((setTable_scope _ _ _ _).symm.trans hscope)
  · intro key layer hlayer
    obtain ⟨hlt, hscope⟩ := h.overlays key layer hlayer
    exact ⟨hlt, (setTable_scope _ _ _ _).trans hscope⟩
  · exact fun undo hmem => hcaptured (hholders undo hmem)
  · exact fun effect hmem => hcaptured (h.captured effect hmem)
  · exact fun frame hmem => hcaptured (h.frames frame hmem)
  · intro key layer hlayer
    rcases h.occupied key layer hlayer with hsome | hframe
    · rcases hoccupied layer hsome with ⟨undo, hmem, hactive, rfl⟩ | hframe
      · left
        apply Bool.eq_false_iff.mpr
        intro hempty
        simp only [ScopeLayer.isEmpty, EntryTable.isEmpty, decide_eq_true_eq, OrderedMap.size,
          setTable_tables, htables, List.length_eq_zero_iff, List.map_eq_nil_iff] at hempty
        exact List.not_mem_nil (hempty undo.slot ▸ mem_inTable.mpr ⟨hmem, hactive, rfl, rfl⟩)
      · exact .inr hframe
    · exact .inr hframe

theorem record (h : Owned state) {effect : Effect} {rest : List Frame} {slot : Slot}
    {key : EntryKey} {value : V} (hstack : state.stack = .acting effect :: rest)
    (hnew : key ∉ ((state.layers effect.layer).tables slot).data.keys)
    (hsymbol : ∀ symbol, key = .anonymous symbol → symbol = state.undos.length) :
    Owned (state.record effect slot key value
      { (state.layers effect.layer).tables slot with
        data := ((state.layers effect.layer).tables slot).data.set key value }) := by
  have hcaptured : Captured state effect :=
    h.frames (.acting effect) (hstack ▸ List.mem_cons_self)
  have hlength : (state.undos ++ [(⟨effect, slot,
      ((state.layers effect.layer).tables slot).generation, key, value, true⟩ : Undo Slot V)]).length =
        state.undos.length + 1 := by
    rw [List.length_append]
    rfl
  apply h.of_table
  · intro layer pick
    rw [inTable_append _ _ _ _ rfl, List.map_append, ← h.tables]
    dsimp only
    by_cases hat : layer = effect.layer ∧ pick = slot
    · obtain ⟨rfl, rfl⟩ := hat
      rw [if_pos ⟨rfl, rfl⟩, if_pos ⟨rfl, rfl⟩]
      exact OrderedMap.entries_set_new hnew value
    · rw [if_neg hat, if_neg fun hat' => hat ⟨hat'.1.symm, hat'.2.symm⟩]
      exact (List.append_nil _).symm
  · intro undo hmem hactive
    rcases List.mem_append.mp hmem with hold | hlast
    · rw [h.generations undo hold hactive]
      split
      · rename_i hat
        rw [hat.1, hat.2]
      · rfl
    · cases List.mem_singleton.mp hlast
      rw [if_pos ⟨rfl, rfl⟩]
  · intro undo hmem symbol heq
    rw [hlength]
    rcases List.mem_append.mp hmem with hold | hlast
    · exact Nat.lt_succ_of_lt (h.symbols undo hold symbol heq)
    · cases List.mem_singleton.mp hlast
      rw [hsymbol symbol heq]
      exact Nat.lt_succ_self _
  · intro undo hmem
    rcases List.mem_append.mp hmem with hold | hlast
    · exact h.holders undo hold
    · cases List.mem_singleton.mp hlast
      exact hcaptured
  · intro undo hmem hactive other hother
    rcases List.mem_append.mp hmem with hold | hlast
    · exact h.placed undo hold hactive other hother
    · cases List.mem_singleton.mp hlast
      exact h.acting effect (hstack ▸ List.mem_cons_self) other hother
  · intro layer hsome
    left
    by_contra hnone
    apply Bool.eq_false_iff.mp hsome
    apply (h.isEmpty_iff layer).mpr
    intro undo hmem hactive heq
    exact hnone ⟨undo, List.mem_append_left _ hmem, hactive, heq⟩

theorem insert (h : Owned state) {effect : Effect} {rest : List Frame} {slot : Slot}
    {name : String} {value : V} (hstack : state.stack = .acting effect :: rest) :
    Owned (state.insert effect slot name value) := by
  unfold ScopedLayers.insert
  split
  · rename_i table htable
    unfold EntryTable.insert at htable
    split at htable
    · cases htable
    · rename_i hnew
      cases htable
      exact h.record hstack (fun hmem => hnew (OrderedMap.has_iff.mpr hmem)) nofun
  · exact h

theorem symbol_new (h : Owned state) (layer : Nat) (slot : Slot) :
    EntryKey.anonymous state.undos.length ∉ ((state.layers layer).tables slot).data.keys := by
  intro hmem
  rw [OrderedMap.keys, h.tables, List.map_map] at hmem
  obtain ⟨undo, hundo, heq⟩ := List.mem_map.mp hmem
  exact Nat.lt_irrefl _ (h.symbols undo (mem_inTable.mp hundo).1 _ heq)

theorem append (h : Owned state) {effect : Effect} {rest : List Frame} {slot : Slot} {value : V}
    (hstack : state.stack = .acting effect :: rest) : Owned (state.append effect slot value) :=
  h.record hstack (h.symbol_new effect.layer slot) fun _ heq => (EntryKey.anonymous.inj heq).symm

theorem undo_entries {table : EntryTable V} {generation : Nat} (hcurrent : generation = table.generation)
    (key : EntryKey) : (table.undo generation key).data.entries =
      table.data.entries.filter fun entry => decide (entry.1 ≠ key) := by
  unfold EntryTable.undo
  rw [if_pos hcurrent.symm]
  dsimp only
  rw [← OrderedMap.entries_delete]
  split
  · rename_i hzero
    exact (List.eq_nil_of_length_eq_zero hzero).symm
  · rfl

theorem undo_generation {table : EntryTable V} {generation : Nat} {key : EntryKey}
    (hsome : (table.undo generation key).data.entries ≠ []) :
    (table.undo generation key).generation = table.generation := by
  unfold EntryTable.undo at hsome ⊢
  split
  · rename_i hcurrent
    rw [if_pos hcurrent] at hsome
    dsimp only at hsome ⊢
    split
    · rename_i hzero
      rw [if_pos hzero] at hsome
      exact absurd rfl hsome
    · rfl
  · rfl

theorem callUndo (h : Owned state) {frame : Frame} {rest : List Frame} {index : Nat}
    (hstack : state.stack = frame :: rest)
    (hstep : state.callUndo frame.effect index = some after) : Owned after := by
  unfold ScopedLayers.callUndo at hstep
  split at hstep
  · cases hstep
  · rename_i undo hundo
    split at hstep
    · cases hstep
    · rename_i howner
      have howner : undo.effect = frame.effect := not_not.mp howner
      split at hstep
      · cases hstep
        exact h
      · rename_i hactive
        have hactive : undo.active = true := Bool.not_eq_false _ ▸ hactive
        cases hstep
        rw [← howner]
        have hmem := List.mem_of_getElem? hundo
        have hcurrent := h.generations undo hmem hactive
        have hkeys : (((inTable state.undos undo.effect.layer undo.slot).map Undo.entry).map
            Prod.fst).Nodup := by
          rw [← h.tables]
          exact ((state.layers undo.effect.layer).tables undo.slot).data.nodup
        have hentries : ((((state.layers undo.effect.layer).tables undo.slot).undo undo.generation
            undo.key).data.entries) = (inTable (state.undos.set index { undo with active := false })
              undo.effect.layer undo.slot).map Undo.entry := by
          rw [undo_entries hcurrent, inTable_set hundo hactive hkeys, ← h.tables]
        have hset : ∀ other ∈ state.undos.set index { undo with active := false },
            other.active = true → other ∈ state.undos := by
          intro other hother hlive
          rcases List.mem_or_eq_of_mem_set hother with hold | rfl
          · exact hold
          · cases hlive
        apply h.of_table
        · intro layer pick
          split
          · rename_i hat
            rw [hat.1, hat.2]
            exact hentries
          · rename_i hat
            rw [inTable_set_other hundo fun hat' => hat ⟨hat'.1.symm, hat'.2.symm⟩]
            exact h.tables layer pick
        · intro other hother hlive
          rw [h.generations other (hset other hother hlive) hlive]
          split
          · rename_i hat
            rw [hat.1, hat.2]
            refine (undo_generation ?_).symm
            rw [hentries]
            exact List.ne_nil_of_mem (List.mem_map_of_mem (mem_inTable.mpr
              ⟨hother, hlive, hat.1, hat.2⟩))
          · rfl
        · intro other hother symbol heq
          rw [List.length_set]
          rcases List.mem_or_eq_of_mem_set hother with hold | rfl
          · exact h.symbols other hold symbol heq
          · exact h.symbols undo hmem symbol heq
        · intro other hother
          rcases List.mem_or_eq_of_mem_set hother with hold | rfl
          · exact h.holders other hold
          · exact h.holders undo hmem
        · exact fun other hother hlive => h.placed other (hset other hother hlive) hlive
        · intro layer hsome
          by_cases hlayer : undo.effect.layer = layer
          · exact .inr ⟨frame, hstack ▸ List.mem_cons_self, howner ▸ hlayer⟩
          · left
            by_contra hnone
            apply Bool.eq_false_iff.mp hsome
            apply (h.isEmpty_iff layer).mpr
            intro other hother hlive heq
            refine hnone ⟨other, ?_, hlive, heq⟩
            obtain ⟨place, hplace⟩ := List.mem_iff_getElem?.mp hother
            apply List.mem_iff_getElem?.mpr
            refine ⟨place, ?_⟩
            rw [List.getElem?_set_ne, hplace]
            rintro rfl
            rw [hundo] at hplace
            exact hlayer (Option.some.inj hplace ▸ heq)

theorem dispose (h : Owned state) {effect : Effect} (hmem : effect ∈ state.live) (id : Nat) :
    Owned { state with
      live := state.live.filter (·.id ≠ id)
      stack := .disposing effect :: state.stack } :=
  h.push (fun _ hkept => (List.mem_filter.mp hkept).1) (h.captured effect hmem) nofun

theorem relink (h : Owned state) (parents : OrderedMap ScopeKey ScopeKey) :
    Owned { state with parents } :=
  ⟨h.tables, h.generations, h.symbols, h.unmade, h.root, h.roots, h.overlays, h.holders, h.captured,
    h.frames, h.placed, h.acting, h.occupied⟩

theorem linkOrKeep (h : Owned state) (key parent : ScopeKey) :
    Owned ((state.linkScopeParent key parent).getD state) := by
  cases hlink : state.linkScopeParent key parent with
  | none => exact h
  | some linked =>
    obtain ⟨ancestors, -, hlinked⟩ := Option.bind_eq_some_iff.mp hlink
    split at hlinked
    · cases hlinked
    · cases hlinked
      exact h.relink _

theorem step (h : Owned state) (op : LayerOp Slot V) (hguard : Orderly state op)
    (hstep : state.step op = some after) : Owned after := by
  cases op with
  | effectAt scope =>
    cases hstep
    exact h.effectAt scope
  | insert slot name value =>
    simp only [ScopedLayers.step] at hstep
    split at hstep
    · cases hstep
      exact h.insert ‹_›
    · cases hstep
  | append slot value =>
    simp only [ScopedLayers.step] at hstep
    split at hstep
    · cases hstep
      exact h.append ‹_›
    · cases hstep
  | undo index =>
    simp only [ScopedLayers.step] at hstep
    split at hstep
    · exact h.callUndo ‹_› hstep
    · cases hstep
  | returns =>
    simp only [ScopedLayers.step] at hstep
    split at hstep
    · rename_i effect rest hstack
      cases hstep
      simp only [Orderly, hstack] at hguard
      refine h.pop hstack (fun other hmem => ?_) hguard
      rcases List.mem_append.mp hmem with hold | hlast
      · exact h.captured other hold
      · cases List.mem_singleton.mp hlast
        exact h.frames _ (hstack ▸ List.mem_cons_self)
    · cases hstep
  | throws =>
    simp only [ScopedLayers.step] at hstep
    split at hstep
    · rename_i effect rest hstack
      cases hstep
      simp only [Orderly, hstack] at hguard
      split
      · rename_i hcreated
        rw [if_pos (show (Frame.acting effect).effect.created = true from hcreated)] at hguard
        exact h.reclaim hstack hguard
      · rename_i hcreated
        rw [if_neg (show ¬ (Frame.acting effect).effect.created = true from hcreated)] at hguard
        exact h.pop hstack h.captured hguard
    · cases hstep
  | dispose id =>
    simp only [ScopedLayers.step] at hstep
    split at hstep
    · cases hstep
      exact h.dispose (List.mem_of_find?_eq_some ‹_›) id
    · cases hstep
      exact h
  | reclaim =>
    simp only [ScopedLayers.step] at hstep
    split at hstep
    · rename_i effect rest hstack
      cases hstep
      simp only [Orderly, hstack] at hguard
      exact h.reclaim hstack hguard
    · cases hstep
  | bindScopeParent key parent =>
    simp only [ScopedLayers.step] at hstep
    split at hstep
    · cases hstep
      exact h
    · cases hstep
      exact h.linkOrKeep key parent
  | rebind key parent =>
    simp only [ScopedLayers.step] at hstep
    split at hstep
    · cases hstep
      exact h.linkOrKeep key parent
    · cases hstep

theorem initial : Owned (ScopedLayers.initial : ScopedLayers Slot V) where
  tables := fun _ _ => rfl
  generations := fun _ hmem => absurd hmem List.not_mem_nil
  symbols := fun _ hmem => absurd hmem List.not_mem_nil
  unmade := fun _ _ _ hmem => absurd hmem List.not_mem_nil
  root := ⟨Nat.one_pos, rfl⟩
  roots := fun _ hlt _ => Nat.lt_one_iff.mp hlt
  overlays := fun _ _ hget => nomatch hget
  holders := fun _ hmem => absurd hmem List.not_mem_nil
  captured := fun _ hmem => absurd hmem List.not_mem_nil
  frames := fun _ hmem => absurd hmem List.not_mem_nil
  placed := fun _ hmem => absurd hmem List.not_mem_nil
  acting := fun _ hmem => absurd hmem List.not_mem_nil
  occupied := fun _ _ hget => nomatch hget

end Owned

namespace ScopedLayers

variable [Fintype Slot] {state after : ScopedLayers Slot V}

def layerOf (state : ScopedLayers Slot V) (scope : Option ScopeKey) : Option Nat :=
  match scope with
  | none => some 0
  | some key => state.scopedMap.get? key

omit [DecidableEq Slot] [Fintype Slot] in
theorem undos_effectAt (scope : Option ScopeKey) : (state.effectAt scope).undos = state.undos := by
  unfold effectAt
  split
  · rfl
  · split <;> rfl

omit [DecidableEq Slot] in
theorem undos_reclaim (effect : Effect) : (state.reclaim effect).undos = state.undos := by
  unfold reclaim
  split
  · split <;> rfl
  · rfl

omit [DecidableEq Slot] [Fintype Slot] in
theorem undos_linkOrKeep (key parent : ScopeKey) :
    ((state.linkScopeParent key parent).getD state).undos = state.undos := by
  cases hlink : state.linkScopeParent key parent with
  | none => rfl
  | some linked =>
    obtain ⟨ancestors, -, hlinked⟩ := Option.bind_eq_some_iff.mp hlink
    split at hlinked <;> cases hlinked
    rfl

omit [Fintype Slot] in
theorem prefix_insert (effect : Effect) (slot : Slot) (name : String) (value : V) :
    state.undos <+: (state.insert effect slot name value).undos := by
  unfold insert
  split
  · exact List.prefix_append _ _
  · exact List.prefix_rfl

theorem step_undos {op : LayerOp Slot V} (hstep : state.step op = some after) {index : Nat}
    {undo : Undo Slot V} (hundo : state.undos[index]? = some undo) (hop : op ≠ .undo index) :
    after.undos[index]? = some undo := by
  have hgrown : ∀ {undos : List (Undo Slot V)}, state.undos <+: undos →
      undos[index]? = some undo := by
    rintro undos ⟨added, rfl⟩
    rw [List.getElem?_append_left (List.getElem?_eq_some_iff.mp hundo).1, hundo]
  cases op with
  | effectAt scope =>
    cases hstep
    rwa [undos_effectAt]
  | insert slot name value =>
    simp only [step] at hstep
    split at hstep <;> cases hstep
    exact hgrown (prefix_insert _ _ _ _)
  | append slot value =>
    simp only [step] at hstep
    split at hstep <;> cases hstep
    exact hgrown (List.prefix_append _ _)
  | undo place =>
    simp only [step] at hstep
    split at hstep
    · unfold callUndo at hstep
      split at hstep
      · cases hstep
      · split at hstep
        · cases hstep
        · split at hstep <;> cases hstep
          · exact hundo
          · dsimp only
            rw [List.getElem?_set_ne, hundo]
            rintro rfl
            exact hop rfl
    · cases hstep
  | returns =>
    simp only [step] at hstep
    split at hstep <;> cases hstep
    exact hundo
  | throws =>
    simp only [step] at hstep
    split at hstep
    · cases hstep
      split
      · rwa [undos_reclaim]
      · exact hundo
    · cases hstep
  | dispose id =>
    simp only [step] at hstep
    split at hstep <;> cases hstep <;> exact hundo
  | reclaim =>
    simp only [step] at hstep
    split at hstep
    · cases hstep
      rwa [undos_reclaim]
    · cases hstep
  | bindScopeParent key parent =>
    simp only [step] at hstep
    split at hstep
    · cases hstep
      exact hundo
    · cases hstep
      rwa [undos_linkOrKeep]
  | rebind key parent =>
    simp only [step] at hstep
    split at hstep
    · cases hstep
      rwa [undos_linkOrKeep]
    · cases hstep

end ScopedLayers

variable [Fintype Slot]

/-- Scopes see what is registered for them, layers come and go with their entries, and a
registration ends with its own undo alone. -/
structure Layered (state : ScopedLayers Slot V) : Prop where
  merges : ∀ scope pick, state.merge scope pick = state.liveMerge scope pick
  held : ∀ undo ∈ state.undos, undo.active = true →
    ∃ layer, state.layerOf undo.effect.scope = some layer ∧
      undo.entry ∈ ((state.layers layer).tables undo.slot).data.entries
  overlays : ∀ key, (∀ frame ∈ state.stack, frame.effect.scope ≠ some key) →
    ((∃ layer, state.scopedMap.get? key = some layer) ↔
      ∃ undo ∈ state.undos, undo.active = true ∧ undo.effect.scope = some key)
  ends : ∀ op after index undo, state.step op = some after → state.undos[index]? = some undo →
    op ≠ .undo index → after.undos[index]? = some undo

theorem Owned.layered {state : ScopedLayers Slot V} (h : Owned state) : Layered state where
  merges := h.merge_eq
  held := by
    intro undo hmem hactive
    have hentry : undo.entry ∈
        ((state.layers undo.effect.layer).tables undo.slot).data.entries := by
      rw [h.tables]
      exact List.mem_map_of_mem (mem_inTable.mpr ⟨hmem, hactive, rfl, rfl⟩)
    refine ⟨undo.effect.layer, ?_, hentry⟩
    cases hscope : undo.effect.scope with
    | none =>
      obtain ⟨hlt, heq⟩ := h.holders undo hmem
      rw [h.roots undo.effect.layer hlt (heq.trans hscope)]
      rfl
    | some key => exact h.placed undo hmem hactive key hscope
  overlays := fun _ hquiet => h.overlay_iff hquiet
  ends := fun _ _ _ _ hstep hundo hop => ScopedLayers.step_undos hstep hundo hop

def Rooted (state : ScopedLayers Slot V) : Prop :=
  ∀ key, ¬ Relation.TransGen (fun child parent => state.parents.get? child = some parent) key key ∧
    ∃ nodes, state.scopeChain key = some nodes ∧ Chain state.parents.get? key nodes

/-- Scope parents form no cycle in any run, and in every orderly run scopes see exactly what is
registered for them. -/
theorem layers_owned {ops : List (LayerOp Slot V)} {state : ScopedLayers Slot V}
    (hrun : run ScopedLayers.step .initial ops = some state) :
    Rooted state ∧ (Along ScopedLayers.step Orderly .initial ops → Layered state) := by
  constructor
  · have hends : Ends state.parents.get? :=
      run_invariant (fun state : ScopedLayers Slot V => Ends state.parents.get?)
        (fun _ _ _ hinv hstep => ScopedLayers.step_ends hinv hstep) hrun fun key => ⟨[key], .last rfl⟩
    exact fun key => ⟨hends.acyclic key, ScopedLayers.scopeChain_ends hends key⟩
  · intro hguard
    exact (run_invariant_along Owned (fun _ op _ hinv horderly hstep => hinv.step op horderly hstep)
      hrun hguard Owned.initial).layered

/-- Two registrations share a scope's layer, and the first one is disposed of twice. -/
def sharedRun : List (LayerOp Unit Nat) :=
  [.bindScopeParent 1 2, .effectAt (some 1), .insert () "a" 7, .returns, .effectAt (some 1),
    .append () 8, .returns, .effectAt none, .insert () "a" 9, .throws, .dispose 0, .undo 0, .reclaim,
    .dispose 0, .rebind 1 3]

def sharedEnd : ScopedLayers Unit Nat :=
  (run ScopedLayers.step .initial sharedRun).get (by decide +kernel)

theorem sharedRun_layered : Layered sharedEnd :=
  (layers_owned (Option.some_get _).symm).2 (by decide +kernel :
    Along ScopedLayers.step Orderly (.initial : ScopedLayers Unit Nat) sharedRun)

/-- A registration that contributes nothing outlives its layer, and is disposed of over another. -/
def staleRun : List (LayerOp Unit Nat) :=
  [.effectAt (some 1), .insert () "a" 7, .returns, .effectAt (some 1), .returns, .dispose 0, .undo 0,
    .reclaim, .effectAt (some 1), .insert () "b" 8, .returns, .dispose 1, .reclaim]

def staleEnd : ScopedLayers Unit Nat :=
  (run ScopedLayers.step .initial staleRun).get (by decide +kernel)

theorem staleRun_loses : ¬ ∀ state : ScopedLayers Unit Nat,
    run ScopedLayers.step .initial staleRun = some state → Layered state := by
  intro h
  have hmerges := (h staleEnd (Option.some_get _).symm).merges (some 1) ()
  have hseen : (staleEnd.merge (some 1) ()).entries = [] := by decide +kernel
  have hlive : (staleEnd.liveMerge (some 1) ()).entries = [(.named "b", 8)] := by decide +kernel
  rw [hmerges, hlive] at hseen
  cases hseen

end Harness.Scope
