import Harness.JsonBoundary.Walk
import Mathlib.Logic.Relation
import Mathlib.Data.List.Perm.Subperm

namespace Harness.JsonBoundary

open Harness.Foundation Relation

inductive Denotes (look : Ref → Option Node) : Value → JsonData → Prop
  | null : Denotes look .null .null
  | bool (b : Bool) : Denotes look (.bool b) (.bool b)
  | number (n : FiniteDouble) : Denotes look (.number (.finite n)) (.number (.finite n.1))
  | string (s : Units) : Denotes look (.string s) (.string s)
  | array {ref : Ref} {node : Node} (entries : List (Value × JsonData))
      (hnode : look ref = some node) (hkind : node.kind = .array entries.length)
      (hdense : ∀ (i : Nat) (e : Value × JsonData), entries[i]? = some e →
        (node.getOwn (indexKey i)).map Property.value = some e.1)
      (howned : ∀ property ∈ node.properties,
        ∃ i < entries.length, property.key = .string (indexKey i))
      (hentries : ∀ e ∈ entries, Denotes look e.1 e.2) :
      Denotes look (.object ref) (.array (entries.map Prod.snd))
  | object {ref : Ref} {node : Node} (entries : List (Units × Value × JsonData))
      (hnode : look ref = some node) (hkind : node.kind = .record)
      (hproperties : node.properties = entries.map fun e => ⟨.string e.1, true, e.2.1⟩)
      (hdistinct : (entries.map Prod.fst).Nodup)
      (hordered : (entries.map Prod.fst).Pairwise
        fun a b => comesBefore (.string a) (.string b) = true)
      (hentries : ∀ e ∈ entries, Denotes look e.2.1 e.2.2) :
      Denotes look (.object ref) (.object (entries.map fun e => (e.1, e.2.2)))

/-- Only the objects that are met are looked up. -/
theorem Denotes.of_met {look look' : Ref → Option Node} {value : Value} {json : JsonData}
    (h : Denotes look value json) (met : Value → Prop)
    (hlook : ∀ ref node, met (.object ref) → look ref = some node →
      look' ref = some node ∧ ∀ property ∈ node.properties, met property.value)
    (hmet : met value) : Denotes look' value json := by
  induction h with
  | null => exact .null
  | bool b => exact .bool b
  | number n => exact .number n
  | string s => exact .string s
  | array entries hnode hkind hdense howned _ ih =>
    obtain ⟨hnode, hchildren⟩ := hlook _ _ hmet hnode
    refine .array entries hnode hkind hdense howned fun e he => ih e he ?_
    obtain ⟨i, hi⟩ := List.mem_iff_getElem?.mp he
    obtain ⟨property, hown, hvalue⟩ := Option.map_eq_some_iff.mp (hdense i e hi)
    exact hvalue ▸ hchildren property (List.mem_of_find?_eq_some hown)
  | object entries hnode hkind hproperties hdistinct hordered _ ih =>
    obtain ⟨hnode, hchildren⟩ := hlook _ _ hmet hnode
    refine .object entries hnode hkind hproperties hdistinct hordered fun e he => ih e he ?_
    rw [hproperties, List.forall_mem_map] at hchildren
    exact hchildren e he

theorem Denotes.mono {look look' : Ref → Option Node} {value : Value} {json : JsonData}
    (h : Denotes look value json)
    (hlook : ∀ ref node, look ref = some node → look' ref = some node) :
    Denotes look' value json :=
  h.of_met (fun _ => True) (fun ref node _ hnode => ⟨hlook ref node hnode, fun _ _ => trivial⟩) trivial

theorem Denotes.wellFormed {look : Ref → Option Node} {value : Value} {json : JsonData}
    (h : Denotes look value json) : json.WellFormed := by
  induction h with
  | null | bool | string => trivial
  | number n => exact ⟨n.1, rfl, n.2⟩
  | array entries _ _ _ _ _ ih =>
    simp only [JsonData.WellFormed]
    apply JsonData.wellFormedItems_of_mem
    intro item hitem
    obtain ⟨e, he, rfl⟩ := List.mem_map.mp hitem
    exact ih e he
  | object entries _ _ _ hdistinct hordered _ ih =>
    simp only [JsonData.WellFormed]
    rw [List.map_map]
    refine ⟨hdistinct, hordered, ?_⟩
    · apply JsonData.wellFormedFields_of_mem
      intro field hfield
      obtain ⟨e, he, rfl⟩ := List.mem_map.mp hfield
      exact ih e he

theorem Denotes.unique {look : Ref → Option Node} {value : Value} {json json' : JsonData}
    (h : Denotes look value json) (h' : Denotes look value json') : json = json' := by
  induction h generalizing json' with
  | null | bool | number | string =>
    cases h'
    rfl
  | array entries hnode hkind hdense _ _ ih =>
    cases h' with
    | array entries' hnode' hkind' hdense' _ hentries' =>
      rw [hnode, Option.some.injEq] at hnode'
      subst hnode'
      rw [hkind, Kind.array.injEq] at hkind'
      congr 1
      apply List.ext_getElem (by rw [List.length_map, List.length_map, hkind'])
      intro i hi hi'
      rw [List.length_map] at hi hi'
      rw [List.getElem_map, List.getElem_map]
      have hvalue := (hdense i _ (List.getElem?_eq_getElem hi)).symm.trans
        (hdense' i _ (List.getElem?_eq_getElem hi'))
      rw [Option.some.injEq] at hvalue
      apply ih _ (List.getElem_mem hi)
      rw [hvalue]
      exact hentries' _ (List.getElem_mem hi')
    | object _ hnode' hkind' _ _ _ _ =>
      rw [hnode, Option.some.injEq] at hnode'
      subst hnode'
      rw [hkind] at hkind'
      cases hkind'
  | object entries hnode hkind hproperties _ _ _ ih =>
    cases h' with
    | array _ hnode' hkind' _ _ _ =>
      rw [hnode, Option.some.injEq] at hnode'
      subst hnode'
      rw [hkind] at hkind'
      cases hkind'
    | object entries' hnode' _ hproperties' _ _ hentries' =>
      rw [hnode, Option.some.injEq] at hnode'
      subst hnode'
      have hsame := hproperties.symm.trans hproperties'
      have hlength : entries.length = entries'.length := by
        simpa only [List.length_map] using congrArg List.length hsame
      congr 1
      apply List.ext_getElem (by rw [List.length_map, List.length_map, hlength])
      intro i hi hi'
      rw [List.length_map] at hi hi'
      rw [List.getElem_map, List.getElem_map]
      have hproperty : (⟨.string entries[i].1, true, entries[i].2.1⟩ : Property)
          = ⟨.string entries'[i].1, true, entries'[i].2.1⟩ := by
        have hat := congrArg (fun properties => properties[i]?) hsame
        simpa only [List.getElem?_map, List.getElem?_eq_getElem hi, List.getElem?_eq_getElem hi',
          Option.map_some, Option.some.injEq] using hat
      simp only [Property.mk.injEq, Key.string.injEq, true_and] at hproperty
      rw [hproperty.1]
      congr 1
      apply ih _ (List.getElem_mem hi)
      rw [hproperty.2]
      exact hentries' _ (List.getElem_mem hi')

theorem Denotes.round_trip {look : Ref → Option Node} {value : Value} {json : JsonData}
    (h : Denotes look value json) : JsonData.parse (JsonData.stringify json) = some json :=
  JsonData.parse_stringify h.wellFormed

theorem Node.mem_of_getOwn {node : Node} {property : Property} {key : Units}
    (h : node.getOwn key = some property) :
    property ∈ node.properties ∧ property.key = .string key :=
  ⟨List.mem_of_find?_eq_some h, of_decide_eq_true (List.find?_eq_some_iff_append.mp h).1⟩

theorem Node.getOwn_eq {node : Node} {property : Property} {key : Units}
    (hdistinct : node.keys.Nodup) (hmem : property ∈ node.properties)
    (hkey : property.key = .string key) : node.getOwn key = some property := by
  unfold Node.getOwn
  unfold Node.keys at hdistinct
  generalize node.properties = properties at hdistinct hmem
  induction properties with
  | nil => exact absurd hmem List.not_mem_nil
  | cons other properties ih =>
    rw [List.map_cons, List.nodup_cons] at hdistinct
    rcases List.mem_cons.mp hmem with rfl | hmem
    · exact List.find?_cons_of_pos (decide_eq_true hkey)
    · rw [List.find?_cons_of_neg]
      · exact ih hdistinct.2 hmem
      · rw [decide_eq_true_eq]
        intro hother
        apply hdistinct.1
        rw [hother, ← hkey]
        exact List.mem_map_of_mem hmem

namespace Graph

variable (graph : Graph)

def plain (ref : Ref) : Option Node :=
  (graph.nodes[ref]?).filter fun node =>
    match node.kind with
    | .array _ => graph.hasPlainArrayPrototype node
    | .record => graph.hasPlainObjectPrototype node
    | .slotted _ | .function _ _ _ => false

def Child (value item : Value) : Prop :=
  ∃ ref node, value = .object ref ∧ graph.nodes[ref]? = some node ∧
    ∃ property ∈ node.properties, property.value = item

/-- A dense array with nothing beside its items, or a record of enumerable string keys, with
plain prototypes. -/
def LosslessNode (node : Node) : Prop :=
  match node.kind with
  | .array length =>
    graph.hasPlainArrayPrototype node = true ∧
    (∀ i < length, ∃ property ∈ node.properties, property.key = .string (indexKey i)) ∧
    ∀ property ∈ node.properties, ∃ i < length, property.key = .string (indexKey i)
  | .record =>
    graph.hasPlainObjectPrototype node = true ∧
    ∀ property ∈ node.properties, property.enumerable = true ∧ ∃ s, property.key = .string s
  | .slotted _ | .function _ _ _ => False

def LosslessAt : Value → Prop
  | .null | .bool _ | .string _ | .number (.finite _) => True
  | .object ref => ∃ node, graph.nodes[ref]? = some node ∧ graph.LosslessNode node
  | _ => False

def Slotless : Prop := ∀ node ∈ graph.nodes, ∀ slot, node.kind ≠ .slotted slot

structure Lossless : Prop where
  acyclic : ∀ item, ReflTransGen graph.Child graph.root item → ¬ TransGen graph.Child item item
  everywhere : ∀ item, ReflTransGen graph.Child graph.root item → graph.LosslessAt item

def Flawed (value : Value) : Prop :=
  ∃ item, ReflTransGen graph.Child value item ∧
    (¬ graph.LosslessAt item ∨ TransGen graph.Child item item)

theorem lossless_iff : graph.Lossless ↔ ¬ graph.Flawed graph.root := by
  constructor
  · rintro h ⟨item, hreach, hloss | hcycle⟩
    · exact hloss (h.everywhere item hreach)
    · exact h.acyclic item hreach hcycle
  · intro h
    constructor
    · intro item hreach hcycle
      exact h ⟨item, hreach, .inr hcycle⟩
    · intro item hreach
      by_contra hloss
      exact h ⟨item, hreach, .inl hloss⟩

variable {graph}

theorem Flawed.of_child {value item : Value} (hchild : graph.Child value item)
    (h : graph.Flawed item) : graph.Flawed value := by
  obtain ⟨last, hreach, hflaw⟩ := h
  exact ⟨last, .head hchild hreach, hflaw⟩

theorem nodes_of_plain {ref : Ref} {node : Node} (h : graph.plain ref = some node) :
    graph.nodes[ref]? = some node :=
  (Option.filter_eq_some_iff.mp h).1

theorem losslessAt_of_denotes {value : Value} {json : JsonData}
    (h : Denotes graph.plain value json) : graph.LosslessAt value := by
  cases h with
  | null | bool | number | string => trivial
  | array entries hnode hkind hdense howned _ =>
    obtain ⟨hnode, hplain⟩ := Option.filter_eq_some_iff.mp hnode
    refine ⟨_, hnode, ?_⟩
    simp only [LosslessNode, hkind] at hplain ⊢
    refine ⟨hplain, ?_, howned⟩
    intro i hi
    have hat := hdense i _ (List.getElem?_eq_getElem hi)
    obtain ⟨property, hown, _⟩ := Option.map_eq_some_iff.mp hat
    exact ⟨property, Node.mem_of_getOwn hown⟩
  | object entries hnode hkind hproperties _ _ _ =>
    obtain ⟨hnode, hplain⟩ := Option.filter_eq_some_iff.mp hnode
    refine ⟨_, hnode, ?_⟩
    simp only [LosslessNode, hkind] at hplain ⊢
    refine ⟨hplain, ?_⟩
    intro property hproperty
    rw [hproperties] at hproperty
    obtain ⟨e, _, rfl⟩ := List.mem_map.mp hproperty
    exact ⟨rfl, e.1, rfl⟩

theorem keys_nodup {ref : Ref} {node : Node} (h : graph.nodes[ref]? = some node) :
    node.keys.Nodup := by
  have hown := graph.distinct node (List.mem_of_getElem? h)
  unfold Node.ownKeys at hown
  split at hown
  · exact (List.nodup_append.mp hown).1
  · exact hown

end Graph

theorem comesBefore_of_lt {i j : Nat} (h : i < j) :
    comesBefore (.string (indexKey i)) (.string (indexKey j)) = true := by
  simp only [comesBefore, keyBefore, JsonData.arrayIndex_indexKey]
  by_cases hj : j < 4294967295
  · rw [if_pos hj, if_pos (Nat.lt_trans h hj)]
    exact decide_eq_true (Nat.le_of_lt h)
  · rw [if_neg hj]
    by_cases hi : i < 4294967295
    · rw [if_pos hi]
    · rw [if_neg hi]

def indexKeys (length : Nat) : List Key := (List.range length).map fun i => .string (indexKey i)

theorem mem_indexKeys {length : Nat} {key : Key} :
    key ∈ indexKeys length ↔ ∃ i < length, key = .string (indexKey i) := by
  simp only [indexKeys, List.mem_map, List.mem_range, eq_comm]

theorem indexKeys_nodup (length : Nat) : (indexKeys length).Nodup := by
  apply List.Nodup.map _ List.nodup_range
  intro i j h
  exact toString_inj (Utf16.encode_injective (Key.string.inj h))

theorem indexKeys_ordered (length : Nat) :
    (indexKeys length).Pairwise fun a b => comesBefore a b = true ∧ a ≠ b := by
  apply List.Pairwise.and
  · apply List.Pairwise.map
    · exact fun i j => comesBefore_of_lt
    · exact List.pairwise_lt_range
  · exact indexKeys_nodup length

/-- An array that has each of its items has nothing beside them as it has no more keys than
items. -/
theorem owned_iff {node : Node} {length : Nat} (hdistinct : node.keys.Nodup)
    (hdense : ∀ i < length, ∃ property ∈ node.properties, property.key = .string (indexKey i)) :
    node.keys.length = length ↔
      ∀ property ∈ node.properties, ∃ i < length, property.key = .string (indexKey i) := by
  have hlength : (indexKeys length).length = length := by
    rw [indexKeys, List.length_map, List.length_range]
  have hsub : indexKeys length ⊆ node.keys := by
    intro key hkey
    obtain ⟨i, hi, rfl⟩ := mem_indexKeys.mp hkey
    obtain ⟨property, hproperty, hkey⟩ := hdense i hi
    exact hkey ▸ List.mem_map_of_mem hproperty
  have hperm := (indexKeys_nodup length).subperm hsub
  constructor
  · intro hcount property hproperty
    rw [← mem_indexKeys]
    apply (hperm.perm_of_length_le (by rw [hcount, hlength])).mem_iff.mpr
    exact List.mem_map_of_mem hproperty
  · intro howned
    apply Nat.le_antisymm
    · have hback : node.keys ⊆ indexKeys length := by
        intro key hkey
        obtain ⟨property, hproperty, rfl⟩ := List.mem_map.mp hkey
        exact mem_indexKeys.mpr (howned property hproperty)
      exact hlength ▸ (hdistinct.subperm hback).length_le
    · exact hlength ▸ hperm.length_le

namespace Graph

variable {graph : Graph}

theorem denotes_child {value item : Value} {json : JsonData} (h : Denotes graph.plain value json)
    (hchild : graph.Child value item) :
    ∃ part, Denotes graph.plain item part ∧ sizeOf part < sizeOf json := by
  obtain ⟨ref, node, rfl, hfound, property, hproperty, rfl⟩ := hchild
  cases h with
  | array entries hnode _ hdense howned hentries =>
    cases hfound.symm.trans (nodes_of_plain hnode)
    obtain ⟨i, hi, hkey⟩ := howned property hproperty
    have hat := hdense i _ (List.getElem?_eq_getElem hi)
    rw [Node.getOwn_eq (keys_nodup hfound) hproperty hkey, Option.map_some,
      Option.some.injEq] at hat
    refine ⟨entries[i].2, hat ▸ hentries _ (List.getElem_mem hi), ?_⟩
    have hmem : entries[i].2 ∈ entries.map Prod.snd := List.mem_map_of_mem (List.getElem_mem hi)
    have hlt := List.sizeOf_lt_of_mem hmem
    rw [JsonData.array.sizeOf_spec]
    omega
  | object entries hnode _ hproperties _ _ hentries =>
    cases hfound.symm.trans (nodes_of_plain hnode)
    rw [hproperties] at hproperty
    obtain ⟨e, he, rfl⟩ := List.mem_map.mp hproperty
    refine ⟨e.2.2, hentries e he, ?_⟩
    have hmem : (e.1, e.2.2) ∈ entries.map fun e => (e.1, e.2.2) := List.mem_map_of_mem he
    have hlt := List.sizeOf_lt_of_mem hmem
    rw [Prod.mk.sizeOf_spec] at hlt
    rw [JsonData.object.sizeOf_spec]
    omega

theorem denotes_reached {value item : Value} {json : JsonData} (h : Denotes graph.plain value json)
    (hreach : ReflTransGen graph.Child value item) :
    ∃ part, Denotes graph.plain item part ∧ sizeOf part ≤ sizeOf json := by
  induction hreach with
  | refl => exact ⟨json, h, Nat.le_refl _⟩
  | tail _ hchild ih =>
    obtain ⟨part, hpart, hle⟩ := ih
    obtain ⟨smaller, hsmaller, hlt⟩ := denotes_child hpart hchild
    exact ⟨smaller, hsmaller, by omega⟩

theorem denotes_not_cyclic {value : Value} {json : JsonData} (h : Denotes graph.plain value json) :
    ¬ TransGen graph.Child value value := by
  intro hcycle
  obtain ⟨item, hchild, hback⟩ := TransGen.head'_iff.mp hcycle
  obtain ⟨part, hpart, hlt⟩ := denotes_child h hchild
  obtain ⟨again, hagain, hle⟩ := denotes_reached hpart hback
  have hsame := hagain.unique h
  subst hsame
  omega

theorem not_flawed_of_denotes {value : Value} {json : JsonData}
    (h : Denotes graph.plain value json) : ¬ graph.Flawed value := by
  rintro ⟨item, hreach, hflaw⟩
  obtain ⟨part, hpart, _⟩ := denotes_reached h hreach
  rcases hflaw with hloss | hcycle
  · exact hloss (losslessAt_of_denotes hpart)
  · exact denotes_not_cyclic hpart hcycle

end Graph

end Harness.JsonBoundary
