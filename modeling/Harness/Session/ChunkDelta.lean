import Harness.Session.ChunkRows
import Mathlib.Data.List.Perm.Subperm

namespace Harness

open Harness.Foundation

namespace ChunkRows

theorem hasExactKeys_obj {value : Json} {keys : List String} (h : hasExactKeys value keys = true) :
    ∃ fields, value = .obj fields ∧ fields.length = keys.length ∧
      ∀ key ∈ keys, ∃ found, fields.lookup key = some found := by
  unfold hasExactKeys at h
  split at h
  · rename_i fields
    simp only [Bool.and_eq_true, beq_iff_eq, List.all_eq_true] at h
    refine ⟨fields, rfl, h.1, ?_⟩
    intro key hkey
    exact Option.isSome_iff_exists.mp (h.2 key hkey)
  · simp at h

theorem any_eq_true_iff {α : Type} {o : Option α} {p : α → Bool} :
    o.any p = true ↔ ∃ a, o = some a ∧ p a = true := by
  cases o <;> simp

theorem hasNumber_iff {value : Json} {key : String} :
    hasNumber value key = true ↔ ∃ n, value.get? key = some (.num n) := by
  unfold hasNumber
  cases value.get? key with
  | none => simp
  | some found => cases found <;> simp [Json.isNumber]

theorem hasString_iff {value : Json} {key : String} :
    hasString value key = true ↔ ∃ s, value.get? key = some (.str s) := by
  unfold hasString
  cases value.get? key with
  | none => simp
  | some found => cases found <;> simp [Json.isString]

def payloadKey : DeltaKind → String
  | .text => "text"
  | .reasoning => "text"
  | .toolCall => "argumentsDelta"

structure ShowsChunk (chunk : Json) (kind : RunKind) (index : JsonNumber) (payload : String) :
    Prop where
  indexField : chunk.get? "index" = some (.num index)
  call : ∀ id name, kind = .toolCall id name →
    chunk.get? "id" = some (.str id) ∧ chunk.get? "name" = name.map Json.str
  payloadField : chunk.get? (payloadKey kind.delta) = some (.str payload)
  same : (kind.chunk index payload).deepEqual chunk = true

theorem showsChunk_text {chunk : Json} {kind : RunKind} {index : JsonNumber} {payload : String}
    (hkind : kind = .text ∨ kind = .reasoning)
    (htype : chunk.get? "type" = some (.str kind.delta.delta))
    (hkeys : hasExactKeys chunk ["type", "index", "text"] = true)
    (hindex : chunk.get? "index" = some (.num index))
    (hpayload : chunk.get? "text" = some (.str payload)) :
    ShowsChunk chunk kind index payload := by
  obtain ⟨fields, rfl, hlength, _⟩ := hasExactKeys_obj hkeys
  simp only [Json.get?_obj] at htype hindex hpayload
  refine ⟨hindex, ?_, ?_, ?_⟩
  · rcases hkind with rfl | rfl <;> simp
  · rcases hkind with rfl | rfl <;> exact hpayload
  · rcases hkind with rfl | rfl
    · have htext : fields.lookup "type" = some (.str "text-delta") := htype
      rw [RunKind.chunk, Json.deepEqual_obj_iff]
      exact ⟨hlength.symm, by simp [Json.deepEqualFields_cons, htext, hindex, hpayload]⟩
    · have hreasoning : fields.lookup "type" = some (.str "reasoning-delta") := htype
      rw [RunKind.chunk, Json.deepEqual_obj_iff]
      exact ⟨hlength.symm, by simp [Json.deepEqualFields_cons, hreasoning, hindex, hpayload]⟩

theorem showsChunk_toolCall {chunk : Json} {index : JsonNumber} {id payload : String}
    {name : Option String} (htype : chunk.get? "type" = some (.str "tool-call-delta"))
    (hkeys : ∃ fields, chunk = .obj fields ∧
      fields.length = 4 + (name.map fun _ => 1).getD 0)
    (hindex : chunk.get? "index" = some (.num index))
    (hid : chunk.get? "id" = some (.str id)) (hname : chunk.get? "name" = name.map Json.str)
    (hpayload : chunk.get? "argumentsDelta" = some (.str payload)) :
    ShowsChunk chunk (.toolCall id name) index payload := by
  obtain ⟨fields, rfl, hlength⟩ := hkeys
  simp only [Json.get?_obj] at htype hindex hid hname hpayload
  refine ⟨hindex, ?_, hpayload, ?_⟩
  · rintro _ _ heq
    obtain ⟨rfl, rfl⟩ := RunKind.toolCall.inj heq
    exact ⟨hid, hname⟩
  · rw [RunKind.chunk, Json.deepEqual_obj_iff]
    cases name with
    | none =>
      refine ⟨by simpa [Json.optionalField] using hlength.symm, ?_⟩
      simp [Json.optionalField, Json.deepEqualFields_cons, htype, hindex, hid, hpayload]
    | some name =>
      refine ⟨by simpa [Json.optionalField] using hlength.symm, ?_⟩
      simp [Json.optionalField, Json.deepEqualFields_cons, htype, hindex, hid, hname, hpayload]

theorem lookup_eq_none_of_exactKeys {fields : List (String × Json)} {keys : List String}
    (hnodup : keys.Nodup) (hlength : fields.length = keys.length)
    (hkeys : ∀ key ∈ keys, ∃ found, fields.lookup key = some found) {key : String}
    (hkey : key ∉ keys) : fields.lookup key = none := by
  have hsub : keys ⊆ fields.map Prod.fst := by
    intro present hpresent
    obtain ⟨found, hfound⟩ := hkeys present hpresent
    obtain ⟨front, back, rfl, _⟩ := List.lookup_eq_some_iff.mp hfound
    simp
  have hperm := (List.subperm_of_subset hnodup hsub).perm_of_length_le (by simp [hlength])
  rw [List.lookup_eq_none_iff]
  intro field hfield
  rw [bne_iff_ne]
  rintro rfl
  exact hkey (hperm.mem_iff.mpr (List.mem_map.mpr ⟨field, hfield, rfl⟩))

theorem classifyChunk_shows {chunk : Json} {kind : DeltaKind}
    (hclassify : classifyChunk chunk = some kind) (hindex : hasNumber chunk "index" = true) :
    ∃ run index payload, run.delta = kind ∧ ShowsChunk chunk run index payload := by
  obtain ⟨index, hindex⟩ := hasNumber_iff.mp hindex
  unfold classifyChunk at hclassify
  split at hclassify
  · rename_i htype
    obtain ⟨hshape, hkind⟩ := Option.ite_none_right_eq_some.mp hclassify
    obtain ⟨hkeys, htext⟩ := Bool.and_eq_true_iff.mp hshape
    obtain ⟨payload, hpayload⟩ := hasString_iff.mp htext
    exact ⟨.text, index, payload, Option.some.inj hkind,
      showsChunk_text (.inl rfl) htype hkeys hindex hpayload⟩
  · rename_i htype
    obtain ⟨hshape, hkind⟩ := Option.ite_none_right_eq_some.mp hclassify
    obtain ⟨hkeys, htext⟩ := Bool.and_eq_true_iff.mp hshape
    obtain ⟨payload, hpayload⟩ := hasString_iff.mp htext
    exact ⟨.reasoning, index, payload, Option.some.inj hkind,
      showsChunk_text (.inr rfl) htype hkeys hindex hpayload⟩
  · rename_i htype
    obtain ⟨hshape, hkind⟩ := Option.ite_none_right_eq_some.mp hclassify
    simp only [Bool.and_eq_true, Bool.or_eq_true] at hshape
    obtain ⟨⟨hkeys, hid⟩, harguments⟩ := hshape
    obtain ⟨id, hid⟩ := hasString_iff.mp hid
    obtain ⟨payload, hpayload⟩ := hasString_iff.mp harguments
    rcases hkeys with hkeys | ⟨hkeys, hname⟩
    · obtain ⟨fields, rfl, hlength, hpresent⟩ := hasExactKeys_obj hkeys
      have hname : fields.lookup "name" = none :=
        lookup_eq_none_of_exactKeys (by decide) hlength hpresent (by decide)
      exact ⟨.toolCall id none, index, payload, Option.some.inj hkind,
        showsChunk_toolCall htype ⟨fields, rfl, hlength⟩ hindex hid hname hpayload⟩
    · obtain ⟨fields, rfl, hlength, _⟩ := hasExactKeys_obj hkeys
      obtain ⟨name, hname⟩ := hasString_iff.mp hname
      exact ⟨.toolCall id (some name), index, payload, Option.some.inj hkind,
        showsChunk_toolCall htype ⟨fields, rfl, hlength⟩ hindex hid hname hpayload⟩
  · simp at hclassify

structure Delta where
  kind : RunKind
  turn : JsonNumber
  step : JsonNumber
  index : JsonNumber
  seq : Int
  time : Int
  payload : String
  deriving DecidableEq, Repr

def Delta.event (delta : Delta) : Json :=
  delta.kind.event delta.turn delta.step delta.index delta.seq delta.time delta.payload

structure Delta.Packable (delta : Delta) : Prop where
  seqNonneg : 0 ≤ delta.seq
  seqSafe : isSafe delta.seq = true
  timeSafe : isSafe delta.time = true

structure Shows (event : Json) (delta : Delta) : Prop where
  packable : delta.Packable
  seq : seqOf event = delta.seq
  time : timeOf event = delta.time
  turn : (dataOf event).get? "turn" = some (.num delta.turn)
  step : (dataOf event).get? "step" = some (.num delta.step)
  chunk : ShowsChunk (chunkOf event) delta.kind delta.index delta.payload
  same : delta.event.deepEqual event = true

theorem classify_fields {event : Json} {kind : DeltaKind} (h : classify event = some kind) :
    ∃ data chunk, event.get? "type" = some (.str "assistant/chunk") ∧
      hasExactKeys event ["type", "seq", "time", "data"] = true ∧
      (∃ seq : Nat, event.get? "seq" = some (.nat seq) ∧ isSafe seq = true) ∧
      (∃ time, event.get? "time" = some (.int time) ∧ isSafe time = true) ∧
      event.get? "data" = some data ∧ hasExactKeys data ["turn", "step", "chunk"] = true ∧
      hasNumber data "turn" = true ∧ hasNumber data "step" = true ∧
      data.get? "chunk" = some chunk ∧ hasNumber chunk "index" = true ∧
      classifyChunk chunk = some kind := by
  unfold classify at h
  obtain ⟨htype, h⟩ := Option.ite_none_left_eq_some.mp h
  obtain ⟨hkeys, h⟩ := Option.ite_none_left_eq_some.mp h
  obtain ⟨hranges, h⟩ := Option.ite_none_left_eq_some.mp h
  cases hdata : event.get? "data" with
  | none => simp [hdata] at h
  | some data =>
    simp only [hdata] at h
    obtain ⟨hdataKeys, h⟩ := Option.ite_none_left_eq_some.mp h
    obtain ⟨hnumbers, h⟩ := Option.ite_none_left_eq_some.mp h
    cases hchunk : data.get? "chunk" with
    | none => simp [hchunk] at h
    | some chunk =>
      simp only [hchunk] at h
      obtain ⟨hindex, h⟩ := Option.ite_none_left_eq_some.mp h
      simp only [Bool.or_eq_true, Bool.not_eq_true', not_or, Bool.not_eq_false, ne_eq, not_not]
        at htype hkeys hranges hdataKeys hnumbers hindex
      refine ⟨data, chunk, htype, hkeys, ?_, ?_, rfl, hdataKeys, hnumbers.1, hnumbers.2, hchunk,
        hindex, h⟩
      · obtain ⟨found, hfound, hsome⟩ := any_eq_true_iff.mp hranges.1
        obtain ⟨seq, hseq⟩ := Option.isSome_iff_exists.mp hsome
        obtain ⟨rfl, hsafe⟩ := Json.safeNat?_eq_some.mp hseq
        exact ⟨seq, hfound, hsafe⟩
      · obtain ⟨found, hfound, hsafe⟩ := any_eq_true_iff.mp hranges.2
        obtain ⟨time, rfl, hsafe⟩ := Json.isSafeInteger_iff.mp hsafe
        exact ⟨time, hfound, hsafe⟩

theorem classify_shows {event : Json} {kind : DeltaKind} (h : classify event = some kind) :
    ∃ delta, delta.kind.delta = kind ∧ Shows event delta := by
  obtain ⟨data, chunk, htype, hkeys, ⟨seq, hseq, hseqSafe⟩, ⟨time, htime, htimeSafe⟩, hdata,
    hdataKeys, hturn, hstep, hchunk, hindex, hclassify⟩ := classify_fields h
  obtain ⟨turn, hturn⟩ := hasNumber_iff.mp hturn
  obtain ⟨step, hstep⟩ := hasNumber_iff.mp hstep
  obtain ⟨run, index, payload, hrun, hshows⟩ := classifyChunk_shows hclassify hindex
  have hdataOf : dataOf event = data := by simp [dataOf, fieldOf, hdata]
  have hchunkOf : chunkOf event = chunk := by simp [chunkOf, fieldOf, hdataOf, hchunk]
  refine ⟨{ kind := run, turn, step, index, seq, time, payload }, hrun, ?_⟩
  refine
    { packable := ⟨Int.natCast_nonneg seq, hseqSafe, htimeSafe⟩
      seq := by simp [seqOf, intField, hseq, Json.int?]
      time := by simp [timeOf, intField, htime, Json.int?]
      turn := by rwa [hdataOf]
      step := by rwa [hdataOf]
      chunk := by rwa [hchunkOf]
      same := ?_ }
  obtain ⟨fields, rfl, hlength, _⟩ := hasExactKeys_obj hkeys
  obtain ⟨dataFields, rfl, hdataLength, _⟩ := hasExactKeys_obj hdataKeys
  simp only [Json.get?_obj] at htype hseq htime hdata hturn hstep hchunk
  have hinner : (Json.obj [("turn", .num turn), ("step", .num step),
      ("chunk", run.chunk index payload)]).deepEqual (.obj dataFields) = true := by
    rw [Json.deepEqual_obj_iff]
    exact ⟨hdataLength.symm, by
      simp [Json.deepEqualFields_cons, hturn, hstep, hchunk, hshows.same]⟩
  rw [Delta.event, RunKind.event, Json.deepEqual_obj_iff]
  refine ⟨hlength.symm, ?_⟩
  simp [Json.deepEqualFields_cons, htype, hseq, htime, hdata, hinner]

theorem showsChunk_chunk (kind : RunKind) (index : JsonNumber) (payload : String) :
    ShowsChunk (kind.chunk index payload) kind index payload ∧
      classifyChunk (kind.chunk index payload) = some kind.delta ∧
      hasNumber (kind.chunk index payload) "index" = true := by
  cases kind with
  | text =>
    refine ⟨showsChunk_text (.inl rfl) rfl rfl rfl rfl, ?_, rfl⟩
    rfl
  | reasoning =>
    refine ⟨showsChunk_text (.inr rfl) rfl rfl rfl rfl, ?_, rfl⟩
    rfl
  | toolCall id name =>
    cases name with
    | none => exact ⟨showsChunk_toolCall rfl ⟨_, rfl, rfl⟩ rfl rfl rfl rfl, rfl, rfl⟩
    | some name => exact ⟨showsChunk_toolCall rfl ⟨_, rfl, rfl⟩ rfl rfl rfl rfl, rfl, rfl⟩

section DeltaEvent

variable (delta : Delta)

theorem event_type : delta.event.get? "type" = some (.str "assistant/chunk") := rfl

def Delta.data : Json :=
  .obj [("turn", .num delta.turn), ("step", .num delta.step),
    ("chunk", delta.kind.chunk delta.index delta.payload)]

theorem safeNat?_isSome_iff {n : Int} :
    (Json.int n).safeNat?.isSome = true ↔ isSafe n = true ∧ 0 ≤ n := by
  unfold Json.safeNat?
  have hint : (Json.int n).int? = some n := rfl
  simp only [hint]
  split <;> simp_all

theorem classify_event :
    classify delta.event = if (Json.int delta.seq).safeNat?.isSome && isSafe delta.time then
      some delta.kind.delta else none := by
  obtain ⟨_, hclassify, hindex⟩ := showsChunk_chunk delta.kind delta.index delta.payload
  have hseq : delta.event.get? "seq" = some (.int delta.seq) := rfl
  have htimeField : delta.event.get? "time" = some (.int delta.time) := rfl
  have hkeys : hasExactKeys delta.event ["type", "seq", "time", "data"] = true := rfl
  have hdata : delta.event.get? "data" = some delta.data := rfl
  have hdataKeys : hasExactKeys delta.data ["turn", "step", "chunk"] = true := rfl
  have hchunk : delta.data.get? "chunk" = some (delta.kind.chunk delta.index delta.payload) := rfl
  have hturn : hasNumber delta.data "turn" = true := rfl
  have hstep : hasNumber delta.data "step" = true := rfl
  have htime : (Json.int delta.time).isSafeInteger = isSafe delta.time := rfl
  unfold classify
  simp only [event_type, hseq, htimeField, hkeys, hdata, hdataKeys, hchunk, hturn,
    hstep, hindex, hclassify, htime, Option.any_some]
  cases (Json.int delta.seq).safeNat?.isSome <;> cases isSafe delta.time <;> simp

end DeltaEvent

theorem Delta.Packable.classify {delta : Delta} (h : delta.Packable) :
    classify delta.event = some delta.kind.delta := by
  rw [classify_event, safeNat?_isSome_iff.mpr ⟨h.seqSafe, h.seqNonneg⟩, h.timeSafe]
  rfl

theorem Delta.Packable.shows {delta : Delta} (h : delta.Packable) : Shows delta.event delta := by
  obtain ⟨hchunk, _, _⟩ := showsChunk_chunk delta.kind delta.index delta.payload
  refine ⟨h, rfl, rfl, rfl, rfl, hchunk, ?_⟩
  have hinner : delta.data.deepEqual delta.data = true := by
    rw [Delta.data, Json.deepEqual_obj_iff]
    simp [Json.deepEqualFields_cons, List.lookup_cons, hchunk.same]
  rw [Delta.event, RunKind.event, Json.deepEqual_obj_iff]
  rw [Delta.data] at hinner
  simp [Json.deepEqualFields_cons, List.lookup_cons, hinner]

structure Follows (prev next : Delta) : Prop where
  kind : next.kind = prev.kind
  turn : next.turn = prev.turn
  step : next.step = prev.step
  index : next.index = prev.index
  seq : next.seq = prev.seq + 1
  gap : isSafe (next.time - prev.time) = true

theorem addDouble_one {n : Int} (hsafe : isSafe n = true) (hnonneg : 0 ≤ n) :
    addDouble n 1 = n + 1 := by
  have := isSafe_iff.mp hsafe
  exact addDouble_of_le (by omega)

theorem sameCall_iff {prev next : Json} {d e : Delta}
    (hprev : ShowsChunk prev d.kind d.index d.payload)
    (hnext : ShowsChunk next e.kind e.index e.payload) {kind : DeltaKind}
    (hd : d.kind.delta = kind) (he : e.kind.delta = kind) :
    (kind != .toolCall || (prev.get? "id" == next.get? "id"
        && (prev.get? "name").isSome == (next.get? "name").isSome
        && prev.get? "name" == next.get? "name")) = true ↔ e.kind = d.kind := by
  subst hd
  cases hdk : d.kind with
  | text => cases hek : e.kind <;> simp_all [RunKind.delta]
  | reasoning => cases hek : e.kind <;> simp_all [RunKind.delta]
  | toolCall id name =>
    cases hek : e.kind with
    | text => simp [hdk, hek, RunKind.delta] at he
    | reasoning => simp [hdk, hek, RunKind.delta] at he
    | toolCall id' name' =>
      obtain ⟨hid, hname⟩ := hprev.call id name hdk
      obtain ⟨hid', hname'⟩ := hnext.call id' name' hek
      have hinj : Function.Injective (Option.map Json.str) :=
        Option.map_injective fun _ _ h => Json.str.inj h
      simp only [hid, hname, hid', hname', RunKind.delta, bne_self_eq_false, Bool.false_or,
        Bool.and_eq_true, beq_iff_eq, Option.some.injEq, Json.str.injEq, hinj.eq_iff,
        RunKind.toolCall.injEq]
      constructor
      · rintro ⟨⟨rfl, _⟩, rfl⟩
        exact ⟨rfl, rfl⟩
      · rintro ⟨rfl, rfl⟩
        exact ⟨⟨rfl, rfl⟩, rfl⟩

theorem continues_iff {prev next : Json} {d e : Delta} (hprev : Shows prev d)
    (hnext : Shows next e) {kind : DeltaKind} (hd : d.kind.delta = kind)
    (he : e.kind.delta = kind) : continues prev next kind = true ↔ Follows d e := by
  have hsucc := addDouble_one hprev.packable.seqSafe hprev.packable.seqNonneg
  have hcall := sameCall_iff hprev.chunk hnext.chunk hd he
  unfold continues
  rw [Bool.and_eq_true, hcall]
  simp only [hprev.seq, hnext.seq, hprev.time, hnext.time, hprev.turn, hnext.turn, hprev.step,
    hnext.step, hprev.chunk.indexField, hnext.chunk.indexField, hsucc, isSafe_subDouble,
    Bool.and_eq_true, beq_iff_eq, Option.some.injEq, Json.num.injEq]
  constructor
  · rintro ⟨⟨⟨⟨⟨hseq, hgap⟩, hturn⟩, hstep⟩, hindex⟩, hkind⟩
    exact ⟨hkind, hturn, hstep, hindex, hseq, hgap⟩
  · rintro ⟨hkind, hturn, hstep, hindex, hseq, hgap⟩
    exact ⟨⟨⟨⟨⟨hseq, hgap⟩, hturn⟩, hstep⟩, hindex⟩, hkind⟩

end ChunkRows

end Harness
