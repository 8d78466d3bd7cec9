import Harness.Session.ChunkRowsSound

/-! A packed event comes back with its keys in the order the expander writes them, so it comes
back as it was exactly when they stood in that order. -/

namespace Harness.Persistence

open Harness.Foundation
open Harness.ChunkRows (RunKind Delta Shows ShowsChunk dataOf chunkOf rowTag buildRow Segment)

def keysOf (value : Json) : List String := (value.fields?.getD []).map Prod.fst

def chunkOrders : List (List String) :=
  [["type", "index", "text"], ["type", "index", "id", "argumentsDelta"],
    ["type", "index", "id", "name", "argumentsDelta"]]

/-- The keys of an event, its data and its chunk in the order of `expandRow`. -/
def inRowOrder (event : Json) : Bool :=
  keysOf event == ["type", "seq", "time", "data"]
    && keysOf (dataOf event) == ["turn", "step", "chunk"]
    && decide (keysOf (chunkOf event) ∈ chunkOrders)

section Order

variable {as bs : List (String × Json)}

theorem forall₂_of_deepEqualFields (hkeys : as.map Prod.fst = bs.map Prod.fst)
    (hnodup : (as.map Prod.fst).Nodup) (h : Json.deepEqualFields as bs = true) :
    List.Forall₂ (fun a b => a.1 = b.1 ∧ a.2.deepEqual b.2 = true) as bs := by
  suffices general : ∀ (as bs all : List (String × Json)), as.map Prod.fst = bs.map Prod.fst →
      (∀ field ∈ bs, all.lookup field.1 = some field.2) → Json.deepEqualFields as all = true →
      List.Forall₂ (fun a b => a.1 = b.1 ∧ a.2.deepEqual b.2 = true) as bs by
    refine general as bs bs hkeys (fun field hfield => ?_) h
    exact Json.lookup_of_nodup (hkeys ▸ hnodup) hfield
  intro as
  induction as with
  | nil =>
    intro bs all hkeys _ _
    rw [List.map_nil, eq_comm, List.map_eq_nil_iff] at hkeys
    rw [hkeys]
    exact .nil
  | cons a as ih =>
    intro bs all hkeys hall h
    cases bs with
    | nil => simp at hkeys
    | cons b bs =>
      rw [List.map_cons, List.map_cons, List.cons.injEq] at hkeys
      obtain ⟨⟨found, hfound, hequal⟩, hrest⟩ := Json.deepEqualFields_cons.mp h
      have hb := hall b List.mem_cons_self
      rw [← hkeys.1, hfound] at hb
      obtain rfl := Option.some.inj hb
      exact .cons ⟨hkeys.1, hequal⟩
        (ih bs all hkeys.2 (fun field hfield => hall field (List.mem_cons_of_mem _ hfield)) hrest)

theorem deepEqual_keys {fields : List (String × Json)} {value : Json}
    (h : (Json.obj fields).deepEqual value = true)
    (hkeys : keysOf value = fields.map Prod.fst) (hnodup : (fields.map Prod.fst).Nodup) :
    ∃ found, value = .obj found ∧
      List.Forall₂ (fun a b => a.1 = b.1 ∧ a.2.deepEqual b.2 = true) fields found := by
  cases value with
  | obj found =>
    refine ⟨found, rfl, forall₂_of_deepEqualFields hkeys.symm hnodup ?_⟩
    exact (Json.deepEqual_obj_iff.mp h).2
  | _ => simp [Json.deepEqual] at h

end Order

def IsLeaf (value : Json) : Prop := (∃ n, value = .num n) ∨ ∃ text, value = .str text

theorem IsLeaf.eq {a b : Json} (hleaf : IsLeaf a) (h : a.deepEqual b = true) : b = a := by
  obtain ⟨n, rfl⟩ | ⟨text, rfl⟩ := hleaf
  · exact Json.deepEqual_num_iff.mp h
  · exact Json.deepEqual_str_iff.mp h

theorem eq_of_leaves {fields found : List (String × Json)}
    (h : List.Forall₂ (fun a b : String × Json => a.1 = b.1 ∧ a.2.deepEqual b.2 = true) fields found)
    (hleaves : ∀ field ∈ fields, IsLeaf field.2) : found = fields := by
  induction h with
  | nil => rfl
  | cons hhead _ ih =>
    rw [List.forall_mem_cons] at hleaves
    rw [ih hleaves.2, Prod.ext hhead.1.symm (hleaves.1.eq hhead.2)]

section Chunk

variable {chunk event : Json} {kind : RunKind} {index : JsonNumber} {payload : String}
  {delta : Delta}

def chunkFields (kind : RunKind) (index : JsonNumber) (payload : String) : List (String × Json) :=
  (kind.chunk index payload).fields?.getD []

theorem chunk_obj (kind : RunKind) (index : JsonNumber) (payload : String) :
    kind.chunk index payload = .obj (chunkFields kind index payload) := by
  cases kind <;> rfl

theorem chunk_leaves (kind : RunKind) (index : JsonNumber) (payload : String) :
    ∀ field ∈ chunkFields kind index payload, IsLeaf field.2 := by
  cases kind with
  | text => simp [chunkFields, RunKind.chunk, Json.fields?, IsLeaf]
  | reasoning => simp [chunkFields, RunKind.chunk, Json.fields?, IsLeaf]
  | toolCall id name =>
    cases name <;> simp [chunkFields, RunKind.chunk, Json.fields?, Json.optionalField, IsLeaf]

theorem chunk_keys (kind : RunKind) (index : JsonNumber) (payload : String) :
    (chunkFields kind index payload).map Prod.fst ∈ chunkOrders := by
  cases kind with
  | text => simp [chunkFields, RunKind.chunk, Json.fields?, chunkOrders]
  | reasoning => simp [chunkFields, RunKind.chunk, Json.fields?, chunkOrders]
  | toolCall id name =>
    cases name <;>
      simp [chunkFields, RunKind.chunk, Json.fields?, chunkOrders, Json.optionalField]

theorem chunkOrders_length {order other : List String} (h : order ∈ chunkOrders)
    (hother : other ∈ chunkOrders) (hlength : order.length = other.length) : order = other := by
  simp only [chunkOrders, List.mem_cons, List.not_mem_nil, or_false] at h hother
  obtain rfl | rfl | rfl := h <;> obtain rfl | rfl | rfl := hother <;> simp_all

theorem chunkOrders_nodup {order : List String} (h : order ∈ chunkOrders) : order.Nodup := by
  simp only [chunkOrders, List.mem_cons, List.not_mem_nil, or_false] at h
  obtain rfl | rfl | rfl := h <;> decide

theorem keysOf_obj (fields : List (String × Json)) : keysOf (.obj fields) = fields.map Prod.fst := rfl

theorem chunk_eq (h : ShowsChunk chunk kind index payload) (hkeys : keysOf chunk ∈ chunkOrders) :
    chunk = kind.chunk index payload := by
  have hsame := h.same
  rw [chunk_obj] at hsame ⊢
  have hlength : (keysOf chunk).length = ((chunkFields kind index payload).map Prod.fst).length := by
    cases chunk with
    | obj fields =>
      rw [keysOf_obj, List.length_map, List.length_map, (Json.deepEqual_obj_iff.mp hsame).1]
    | _ => simp [Json.deepEqual] at hsame
  have horder := chunkOrders_length hkeys (chunk_keys kind index payload) hlength
  obtain ⟨found, rfl, hfields⟩ :=
    deepEqual_keys hsame horder (chunkOrders_nodup (chunk_keys kind index payload))
  rw [eq_of_leaves hfields (chunk_leaves kind index payload)]

theorem inRowOrder_event (delta : Delta) : inRowOrder delta.event = true := by
  have hchunk : keysOf (chunkOf delta.event) ∈ chunkOrders := by
    have hfields : chunkOf delta.event = .obj (chunkFields delta.kind delta.index delta.payload) :=
      chunk_obj delta.kind delta.index delta.payload
    rw [hfields, keysOf_obj]
    exact chunk_keys delta.kind delta.index delta.payload
  rw [inRowOrder, decide_eq_true hchunk, Bool.and_true]
  rfl

theorem data_eq (h : Shows event delta) (hequal : delta.data.deepEqual (dataOf event) = true)
    (hdata : keysOf (dataOf event) = ["turn", "step", "chunk"])
    (hchunk : keysOf (chunkOf event) ∈ chunkOrders) : dataOf event = delta.data := by
  obtain ⟨found, hfound, hfields⟩ := deepEqual_keys hequal hdata (by simp)
  obtain ⟨⟨_, turn⟩, _, ⟨rfl, hturn⟩, hsteps, rfl⟩ := List.forall₂_cons_left_iff.mp hfields
  obtain ⟨⟨_, step⟩, _, ⟨rfl, hstep⟩, hchunks, rfl⟩ := List.forall₂_cons_left_iff.mp hsteps
  obtain ⟨⟨_, chunk⟩, _, ⟨rfl, _⟩, hnone, rfl⟩ := List.forall₂_cons_left_iff.mp hchunks
  obtain rfl := List.forall₂_nil_left_iff.mp hnone
  have hchunkOf : chunkOf event = chunk := by
    rw [chunkOf, ChunkRows.fieldOf, hfound]
    rfl
  have hchunkEq := chunk_eq h.chunk hchunk
  rw [hchunkOf] at hchunkEq
  have hturnEq : turn = .num delta.turn := Json.deepEqual_num_iff.mp hturn
  have hstepEq : step = .num delta.step := Json.deepEqual_num_iff.mp hstep
  rw [hfound, hturnEq, hstepEq, hchunkEq]
  rfl

theorem eq_event_iff (h : Shows event delta) : event = delta.event ↔ inRowOrder event = true := by
  constructor
  · intro heq
    rw [heq]
    exact inRowOrder_event delta
  · intro horder
    simp only [inRowOrder, Bool.and_eq_true, beq_iff_eq, decide_eq_true_eq] at horder
    obtain ⟨⟨hevent, hdata⟩, hchunk⟩ := horder
    have hsame : (Json.obj [("type", .str "assistant/chunk"), ("seq", .int delta.seq),
        ("time", .int delta.time), ("data", delta.data)]).deepEqual event = true := h.same
    obtain ⟨found, rfl, hfields⟩ := deepEqual_keys hsame hevent (by simp)
    obtain ⟨⟨_, type⟩, _, ⟨rfl, htype⟩, hseqs, rfl⟩ := List.forall₂_cons_left_iff.mp hfields
    obtain ⟨⟨_, seq⟩, _, ⟨rfl, hseq⟩, htimes, rfl⟩ := List.forall₂_cons_left_iff.mp hseqs
    obtain ⟨⟨_, time⟩, _, ⟨rfl, htime⟩, hdatas, rfl⟩ := List.forall₂_cons_left_iff.mp htimes
    obtain ⟨⟨_, last⟩, _, ⟨rfl, hlast⟩, hnone, rfl⟩ := List.forall₂_cons_left_iff.mp hdatas
    obtain rfl := List.forall₂_nil_left_iff.mp hnone
    have htypeEq : type = .str "assistant/chunk" := Json.deepEqual_str_iff.mp htype
    have hseqEq : seq = .int delta.seq := Json.deepEqual_num_iff.mp hseq
    have htimeEq : time = .int delta.time := Json.deepEqual_num_iff.mp htime
    have hlastEq : last = delta.data := data_eq h hlast hdata hchunk
    rw [htypeEq, hseqEq, htimeEq, hlastEq]
    rfl

end Chunk

end Harness.Persistence
