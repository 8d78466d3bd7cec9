import Harness.Foundation.Except
import Harness.Foundation.SafeInteger
import Mathlib.Data.List.Perm.Basic

namespace Harness

open Harness.Foundation

def envelopeKeys : List String :=
  ["type", "seq", "time", "data", "surfaceOp", "sourceEventSeqs", "ignorable"]

def invalidEnvelope (index : Nat) : String :=
  s!"seed event at index {index} has an invalid event envelope"

def ignorableOk : Option Json → Bool
  | none => true
  | some value => value = .bool true

def Envelope.assertSessionEventEnvelope (event : Json) (index : Nat) : Except String Unit := do
  require (event.get? "type" ≠ some (.str "request/header-delta"))
    s!"seed event at index {index} uses unsupported legacy request/header-delta format"
  require ((event.fields?.getD []).all fun field => decide (field.1 ∈ envelopeKeys))
    (invalidEnvelope index)
  require ((event.get? "type").any Json.isString
      && (event.get? "seq").any (fun seq => seq.safeNat?.isSome)
      && (event.get? "time").any Json.isSafeInteger
      && (event.get? "data").isSome
      && ignorableOk (event.get? "ignorable"))
    (invalidEnvelope index)

structure Envelope (event : Json) : Prop where
  object : ∃ fields, event = .obj fields
  lossless : event.WellFormed
  accepted : ∃ index, Envelope.assertSessionEventEnvelope event index = .ok ()
  seqs : ∀ values, event.get? "sourceEventSeqs" = some values → ∃ items, values = .arr items

theorem wellFormed_lookup {fields : List (String × Json)} (h : Json.WellFormedFields fields)
    {key : String} {value : Json} (hlookup : fields.lookup key = some value) :
    value.WellFormed := by
  induction fields with
  | nil => simp at hlookup
  | cons field fields ih =>
    obtain ⟨k, v⟩ := field
    rw [List.lookup_cons] at hlookup
    split at hlookup
    · obtain rfl := Option.some.inj hlookup
      exact h.1
    · exact ih h.2 hlookup

theorem mem_keys_iff {fields : List (String × Json)} {key : String} :
    key ∈ fields.map Prod.fst ↔ (fields.lookup key).isSome = true := by
  induction fields with
  | nil => simp
  | cons field fields ih =>
    obtain ⟨k, v⟩ := field
    rw [List.map_cons, List.mem_cons, ih, List.lookup_cons]
    by_cases hkey : key = k
    · simp [hkey]
    · simp [hkey, beq_eq_false_iff_ne.mpr hkey]

theorem deepEqualFields_append {as bs cs : List (String × Json)} :
    Json.deepEqualFields (as ++ bs) cs = true ↔
      Json.deepEqualFields as cs = true ∧ Json.deepEqualFields bs cs = true := by
  induction as with
  | nil => simp
  | cons field as ih =>
    obtain ⟨key, value⟩ := field
    rw [List.cons_append, Json.deepEqualFields_cons, Json.deepEqualFields_cons, ih, and_assoc]

theorem length_optionalField (key : String) (value : Option Json) :
    (Json.optionalField key value).length = if value.isSome then 1 else 0 := by
  cases value <;> rfl

namespace Envelope

variable {event : Json}

theorem read (h : Envelope event) : ∃ (type : String) (seq : Nat) (time : Int) (data : Json),
    event.get? "type" = some (.str type) ∧ (event.get? "seq" = some (.nat seq) ∧ isSafe seq = true) ∧
      (event.get? "time" = some (.int time) ∧ isSafe time = true) ∧
      event.get? "data" = some data ∧
      (event.get? "ignorable" = none ∨ event.get? "ignorable" = some (.bool true)) := by
  obtain ⟨index, haccepted⟩ := h.accepted
  obtain ⟨_, _, hrest⟩ := bind_eq_ok.mp haccepted
  obtain ⟨_, _, hfields⟩ := bind_eq_ok.mp hrest
  simp only [require_eq_ok, Bool.and_eq_true] at hfields
  obtain ⟨⟨⟨⟨htype, hseq⟩, htime⟩, hdata⟩, hignorable⟩ := hfields
  obtain ⟨data, hdata⟩ := Option.isSome_iff_exists.mp hdata
  cases hfoundType : event.get? "type" with
  | none => simp [hfoundType] at htype
  | some type =>
    cases hfoundSeq : event.get? "seq" with
    | none => simp [hfoundSeq] at hseq
    | some seq =>
      cases hfoundTime : event.get? "time" with
      | none => simp [hfoundTime] at htime
      | some time =>
        simp only [hfoundType, hfoundSeq, hfoundTime, Option.any_some] at htype hseq htime
        obtain ⟨seq, hseq⟩ := Option.isSome_iff_exists.mp hseq
        obtain ⟨rfl, hseqSafe⟩ := Json.safeNat?_eq_some.mp hseq
        obtain ⟨time, rfl, htimeSafe⟩ := Json.isSafeInteger_iff.mp htime
        cases type <;> simp only [Json.isString, Bool.false_eq_true] at htype
        refine ⟨_, seq, time, data, rfl, ⟨rfl, hseqSafe⟩, ⟨rfl, htimeSafe⟩, hdata, ?_⟩
        cases hfoundIgnorable : event.get? "ignorable" with
        | none => exact .inl rfl
        | some value =>
          rw [hfoundIgnorable] at hignorable
          exact .inr (by simpa [ignorableOk] using hignorable)

theorem keys (h : Envelope event) {fields : List (String × Json)} (hfields : event = .obj fields) :
    ∀ key ∈ fields.map Prod.fst, key ∈ envelopeKeys := by
  subst hfields
  obtain ⟨index, haccepted⟩ := h.accepted
  obtain ⟨_, _, hrest⟩ := bind_eq_ok.mp haccepted
  obtain ⟨_, hkeys, _⟩ := bind_eq_ok.mp hrest
  simp only [require_eq_ok, Json.fields?, Option.getD_some, List.all_eq_true,
    decide_eq_true_eq] at hkeys
  intro key hkey
  obtain ⟨field, hfield, rfl⟩ := List.mem_map.mp hkey
  exact hkeys field hfield

theorem length_fields (h : Envelope event) {fields : List (String × Json)}
    (hfields : event = .obj fields) :
    fields.length = (envelopeKeys.filter fun key => (fields.lookup key).isSome).length := by
  have hkeys := h.keys hfields
  have hnodup : (fields.map Prod.fst).Nodup := by
    have := h.lossless
    rw [hfields] at this
    exact this.1
  have hperm : (fields.map Prod.fst).Perm
      (envelopeKeys.filter fun key => (fields.lookup key).isSome) := by
    rw [List.perm_ext_iff_of_nodup hnodup (List.Nodup.filter _ (by decide))]
    intro key
    rw [List.mem_filter, ← mem_keys_iff]
    exact ⟨fun hkey => ⟨hkeys key hkey, hkey⟩, fun hkey => hkey.2⟩
  rw [← hperm.length_eq, List.length_map]

theorem rebuild (h : Envelope event) {type : String} {seq time : Int} {data : Json}
    (htype : event.get? "type" = some (.str type)) (hseq : event.get? "seq" = some (.int seq))
    (htime : event.get? "time" = some (.int time)) (hdata : event.get? "data" = some data) :
    (Json.obj ([("type", .str type), ("seq", .int seq), ("time", .int time), ("data", data)]
      ++ Json.optionalField "sourceEventSeqs" (event.get? "sourceEventSeqs")
      ++ Json.optionalField "surfaceOp" (event.get? "surfaceOp")
      ++ Json.optionalField "ignorable" (event.get? "ignorable"))).deepEqual event = true := by
  obtain ⟨fields, rfl⟩ := h.object
  have hlength := h.length_fields rfl
  have hwellFormed := h.lossless.2
  simp only [Json.get?_obj] at htype hseq htime hdata ⊢
  have hself : ∀ key value, fields.lookup key = some value → value.deepEqual value = true :=
    fun key value hvalue => Json.deepEqual_refl value (wellFormed_lookup hwellFormed hvalue)
  rw [Json.deepEqual_obj_iff]
  have hoptional : ∀ key, Json.deepEqualFields
      (Json.optionalField key (fields.lookup key)) fields = true := by
    intro key
    cases hfound : fields.lookup key with
    | none => rfl
    | some value =>
      exact Json.deepEqualFields_cons.mpr ⟨⟨value, hfound, hself key value hfound⟩, rfl⟩
  constructor
  · rw [hlength]
    simp only [List.length_append, length_optionalField, envelopeKeys, List.filter_cons, htype,
      hseq, htime, hdata]
    cases fields.lookup "sourceEventSeqs" <;> cases fields.lookup "surfaceOp" <;>
      cases fields.lookup "ignorable" <;> rfl
  · simp only [deepEqualFields_append, hoptional, and_true]
    simp [Json.deepEqualFields_cons, htype, hseq, htime, hdata, hself _ _ hdata]

end Envelope

end Harness
