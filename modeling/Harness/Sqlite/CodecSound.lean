import Harness.Sqlite.SourceSeqs
import Harness.Session.ChunkRowsSound
import Harness.Session.Envelope

namespace Harness.Sqlite

open Harness.Foundation
open Harness.ChunkRows (DeltaKind RunKind ChunkRow RunDataBase buildRow expandRow Delta Shows Follows
  Run Segment SameEvents rowOf HoldsRow HoldsData HoldsRunData rowTag Restored)

/-- How a run is cut into records: events as they are, and rows within the bounds. -/
inductive Cut (kind : DeltaKind) : List Json → List Json → Prop
  | nil : Cut kind [] []
  | plain {event : Json} {run records : List Json} :
    Cut kind run records → Cut kind (event :: run) (event :: records)
  | packed {front back records : List Json} : minPackedRowMembers ≤ front.length →
    front.length ≤ maxPackedRowMembers →
    packedDataBytes (buildRow kind front) ≤ maxPackedDataBytes → Cut kind back records →
    Cut kind (front ++ back) (buildRow kind front :: records)

theorem Cut.refl (kind : DeltaKind) (run : List Json) : Cut kind run run := by
  induction run with
  | nil => exact .nil
  | cons event run ih => exact .plain ih

theorem Cut.take_drop {kind : DeltaKind} {run records : List Json} {n : Nat}
    (hmin : minPackedRowMembers ≤ n) (hmax : n ≤ maxPackedRowMembers) (hlength : n ≤ run.length)
    (hbytes : packedDataBytes (buildRow kind (run.take n)) ≤ maxPackedDataBytes)
    (h : Cut kind (run.drop n) records) : Cut kind run (buildRow kind (run.take n) :: records) := by
  have htake : (run.take n).length = n := by rw [List.length_take]; omega
  have := Cut.packed (by rwa [htake]) (by rwa [htake]) hbytes h
  rwa [List.take_append_drop] at this

theorem emitBoundedRun_cut (kind : DeltaKind) (run : List Json) :
    Cut kind run (emitBoundedRun kind run) := by
  induction run using emitBoundedRun.induct kind with
  | case1 =>
    rw [emitBoundedRun]
    exact .nil
  | case2 event rest run hshort =>
    rw [emitBoundedRun]
    simp only
    rw [if_pos hshort]
    exact .refl kind _
  | case3 event rest run hlong high largest hbytes ih =>
    rw [emitBoundedRun]
    simp only
    rw [if_neg hlong, if_pos hbytes]
    exact Cut.take_drop (Nat.le_min.mpr ⟨Nat.not_lt.mp hlong, by decide⟩) (Nat.min_le_right _ _)
      (Nat.min_le_left _ _) hbytes ih
  | case4 event rest run hlong high largest hbytes accepted row hfound ih =>
    rw [emitBoundedRun]
    simp only
    rw [if_neg hlong, if_neg hbytes]
    have haccepted := largestRow_accepted hfound
    split
    · rename_i accepted' row' hfound'
      obtain ⟨rfl, rfl⟩ := Prod.mk.inj (Option.some.inj (hfound.symm.trans hfound'))
      have hrow : row = buildRow kind (run.take accepted) := haccepted.row
      have hbound : accepted ≤ min run.length maxPackedRowMembers :=
        Nat.le_trans haccepted.high (Nat.sub_le _ _)
      have hrowBytes := haccepted.bytes
      simp only [hrow] at hrowBytes ⊢
      exact Cut.take_drop haccepted.low (Nat.le_trans hbound (Nat.min_le_right _ _))
        (Nat.le_trans hbound (Nat.min_le_left _ _)) hrowBytes ih
    · rename_i hnone
      exact absurd (hfound.symm.trans hnone) (by simp)
  | case5 event rest run hlong high largest hbytes hfound ih =>
    rw [emitBoundedRun]
    simp only
    rw [if_neg hlong, if_neg hbytes]
    split
    · rename_i accepted row hsome
      exact absurd (hfound.symm.trans hsome) (by simp)
    · exact .plain ih

def IsRun (kind : DeltaKind) (events : List Json) : Prop :=
  ∃ deltas : List Delta, List.Forall₂ Shows events deltas ∧ deltas.IsChain Follows ∧
    ∀ delta ∈ deltas, delta.kind.delta = kind

section Runs

variable {kind : DeltaKind} {events front back : List Json}

theorem isRun_of_whole (h : (Segment.run kind events).Whole) : IsRun kind events := by
  obtain ⟨first, rest, hrun, hkind, hshows⟩ := h
  refine ⟨first :: rest, hshows, hrun, ?_⟩
  intro delta hmem
  rcases List.mem_cons.mp hmem with rfl | hrest
  · exact hkind
  · rw [hrun.kind_eq delta hrest, hkind]

theorem IsRun.append (h : IsRun kind (front ++ back)) : IsRun kind front ∧ IsRun kind back := by
  obtain ⟨deltas, hshows, hchain, hkind⟩ := h
  obtain ⟨frontDeltas, backDeltas, hfront, hback, rfl⟩ : ∃ frontDeltas backDeltas,
      List.Forall₂ Shows front frontDeltas ∧ List.Forall₂ Shows back backDeltas ∧
        deltas = frontDeltas ++ backDeltas := by
    refine ⟨deltas.take front.length, deltas.drop front.length, ?_, ?_,
      (List.take_append_drop _ _).symm⟩
    · have := List.forall₂_take front.length hshows
      rwa [List.take_left'] at this
      rfl
    · have := List.forall₂_drop front.length hshows
      rwa [List.drop_left'] at this
      rfl
  exact ⟨⟨frontDeltas, hfront, hchain.left_of_append,
      fun delta hmem => hkind delta (List.mem_append_left _ hmem)⟩,
    ⟨backDeltas, hback, hchain.right_of_append,
      fun delta hmem => hkind delta (List.mem_append_right _ hmem)⟩⟩

theorem IsRun.row (h : IsRun kind events) (hne : events ≠ []) :
    ∃ first rest, Run first rest ∧ first.kind.delta = kind ∧
      List.Forall₂ Shows events (first :: rest) ∧
      buildRow kind events = (rowOf first rest).toJson := by
  obtain ⟨deltas, hshows, hchain, hkind⟩ := h
  cases deltas with
  | nil => exact absurd (List.forall₂_nil_right_iff.mp hshows) hne
  | cons first rest =>
    obtain rfl := hkind first List.mem_cons_self
    exact ⟨first, rest, hchain, rfl, hshows, ChunkRows.buildRow_eq hchain hshows⟩

end Runs

section Validate

variable {data value : Json} {serializedBytes : Option Nat}

structure Within (data : Json) (serializedBytes : Option Nat) (payload : List String) : Prop where
  members : payloadWithin payload = true
  bytes : serializedBytes.getD (Utf8.byteLength data.stringify) ≤ maxPackedDataBytes

theorem validateRunData_ok {tag key : String} {base : RunDataBase} (h : HoldsRunData data key base)
    (hwithin : Within data serializedBytes base.payload) :
    validateRunData tag data key serializedBytes = .ok base := by
  unfold validateRunData
  simp only [bind_eq_ok, expect_eq_ok, ChunkRows.numberField_eq_some,
    ChunkRows.safeIntItems_eq_some, require_eq_ok, Option.filter_eq_some_iff,
    ChunkRows.stringItems_eq_some, pure_eq_ok, Except.ok.injEq, beq_iff_eq, decide_eq_true_eq]
  exact ⟨_, h.turn, _, h.step, _, h.index, _, ⟨h.payload, hwithin.members⟩, _, ⟨h.dt, h.gapsSafe⟩,
    (), h.arity, (), hwithin.bytes, rfl⟩

theorem validateTextData_ok {tag : String} {kind : RunKind} {base : RunDataBase}
    (hkeys : ChunkRows.hasExactKeys data ["turn", "step", "index", "dt", "texts"] = true)
    (h : HoldsRunData data "texts" base) (hwithin : Within data serializedBytes base.payload) :
    validateTextData tag kind data serializedBytes = .ok (kind, base) := by
  rw [validateTextData, hkeys, validateRunData_ok h hwithin]
  rfl

theorem validateToolCallData_ok {tag id : String} {name : Option String} {base : RunDataBase}
    (h : HoldsData data (.toolCall id name) base)
    (hwithin : Within data serializedBytes base.payload) :
    validateToolCallData tag data serializedBytes = .ok (.toolCall id name, base) := by
  obtain ⟨hkeys, hcall, hbase⟩ := h
  obtain ⟨hid, hname⟩ := hcall id name rfl
  have hreadBase : validateRunData tag data "args" serializedBytes = .ok base :=
    validateRunData_ok hbase hwithin
  have hreadId : ChunkRows.stringField data "id" = some id := ChunkRows.stringField_eq_some.mpr hid
  cases name with
  | some name =>
    have hwith : ChunkRows.hasExactKeys data
        ["turn", "step", "index", "id", "name", "dt", "args"] = true := hkeys
    have hreadName : ChunkRows.stringField data "name" = some name :=
      ChunkRows.stringField_eq_some.mpr hname
    simp [validateToolCallData, hwith, hreadId, ChunkRows.nameField, hreadName, hreadBase,
      Except.map]
  | none =>
    have hwithout : ChunkRows.hasExactKeys data
        ["turn", "step", "index", "id", "dt", "args"] = true := hkeys
    have hwith : ChunkRows.hasExactKeys data
        ["turn", "step", "index", "id", "name", "dt", "args"] = false := by
      obtain ⟨fields, rfl, hlength, _⟩ := ChunkRows.hasExactKeys_obj hwithout
      simp [ChunkRows.hasExactKeys, hlength]
    simp [validateToolCallData, hwith, hwithout, hreadId, ChunkRows.nameField, hreadBase]

theorem validateData_ok {kind : RunKind} {base : RunDataBase} (h : HoldsData data kind base)
    (hwithin : Within data serializedBytes base.payload) :
    validateData kind.delta data serializedBytes = .ok (kind, base) := by
  cases kind with
  | text => exact validateTextData_ok h.keys h.base hwithin
  | reasoning => exact validateTextData_ok h.keys h.base hwithin
  | toolCall id name => exact validateToolCallData_ok h hwithin

theorem validateRow_ok {row : ChunkRow} (hholds : HoldsRow value row) (hvalid : row.Valid)
    (hdata : value.get? "data" = some data)
    (hwithin : Within data serializedBytes row.members) :
    validateRow value row.kind.delta serializedBytes = .ok row := by
  obtain ⟨hkeys, hseq, htime, found, hfound, hrun⟩ := hholds
  obtain rfl := Option.some.inj (hdata.symm.trans hfound)
  have hread := validateData_ok hrun hwithin
  obtain ⟨fields, rfl, _⟩ := ChunkRows.hasExactKeys_obj hrun.keys
  unfold validateRow
  simp only [bind_eq_ok, require_eq_ok, expect_eq_ok, Option.filter_eq_some_iff,
    ChunkRows.safeIntField_eq_some, pure_eq_ok, Except.ok.injEq, Prod.exists, decide_eq_true_eq]
  exact ⟨(), hkeys, row.seq0, ⟨⟨hseq, hvalid.seqSafe⟩, hvalid.seqNonneg⟩, row.time0,
    ⟨htime, hvalid.timeSafe⟩, .obj fields, ⟨hdata, rfl⟩, row.kind, _, hread, (), hvalid.lastSeq, (),
    hvalid.times, rfl⟩

end Validate

section Decode

variable {zstd : Zstd} {kind : DeltaKind} {events : List Json}

theorem decodeData_encodeData (hlossless : zstd.Lossless) (value : Json) {limit : Option Nat}
    (hlimit : ∀ max ∈ limit, Utf8.byteLength value.stringify ≤ max) :
    decodeData zstd (encodeData zstd value.stringify) limit = .ok value.stringify := by
  unfold encodeData
  simp only
  split
  · rfl
  · split
    · rw [decodeData, hlossless.decompress_compress _ _ hlimit, ok_bind, decodeText,
        Utf8.stripBom_encode value.stringify_head, Utf8.decode_encode, expect_some]
    · rfl

theorem chunkTag?_tag (kind : DeltaKind) : chunkTag? kind.tag = some kind := by
  cases kind <;> rfl

theorem tag_ne_empty (kind : DeltaKind) : kind.tag ≠ "" := by
  cases kind <;> decide

theorem bindRecord_row (row : ChunkRow) : bindRecord zstd row.toJson = .ok
    { seq := row.seq0, type := row.kind.delta.tag, time := row.time0
      data := encodeData zstd (Json.obj row.data).stringify, sourceEventSeqs := none
      surfaceOp := none, ignorable := some packedRowSentinel } := by
  have htag := ChunkRows.rowTag_toJson row
  have hseq0 : row.toJson.get? "seq0" = some (.int row.seq0) := rfl
  have hseq : row.toJson.get? "seq" = none := rfl
  have hchunk : isChunkRow row.toJson = true := by
    rw [isChunkRow, htag, hseq0, hseq]
    rfl
  rw [bindRecord, if_pos hchunk]
  rfl

theorem packed_within {first : Delta} {rest : List Delta}
    (hshows : List.Forall₂ Shows events (first :: rest)) (hmin : minPackedRowMembers ≤ events.length) (hmax : events.length ≤ maxPackedRowMembers) :
    payloadWithin (rowOf first rest).members = true := by
  have hlength := hshows.length_eq
  have hmembers : (rowOf first rest).members.length = events.length := by
    simp [rowOf, hlength]
  rw [payloadWithin, hmembers, Bool.and_eq_true, decide_eq_true_iff, decide_eq_true_iff]
  exact ⟨hmin, hmax⟩

structure RowHolds (zstd : Zstd) (row : EventRow) (events : List Json) : Prop where
  decoded : ∃ decoded, decodeRow zstd row = .ok decoded ∧ List.Forall₂ Restored decoded events
  seq : events.head?.map ChunkRows.seqOf = some row.seq
  seqSafe : 0 ≤ row.seq ∧ isSafe row.seq = true
  timeSafe : isSafe row.time = true
  length : events.length ≤ maxPackedRowMembers
  packed : 1 < events.length → row.ignorable = some packedRowSentinel ∧
    (chunkTag? row.type).isSome = true
  type : (∀ event ∈ events, typeOf event ≠ "") → row.type ≠ ""
  ignorable : row.ignorable = none ∨ row.ignorable = some 0 ∨ row.ignorable = some 1

theorem decodeRow_run (hlossless : zstd.Lossless) {first : Delta} {rest : List Delta}
    (hrun : Run first rest) (hshows : List.Forall₂ Shows events (first :: rest))
    (hmin : minPackedRowMembers ≤ events.length) (hmax : events.length ≤ maxPackedRowMembers)
    (hbytes : packedDataBytes (rowOf first rest).toJson ≤ maxPackedDataBytes) {row : EventRow}
    (hbind : bindRecord zstd (rowOf first rest).toJson = .ok row) :
    decodeRow zstd row = .ok ((first :: rest).map Delta.event) := by
  have hvalid := (hrun.packed (ChunkRows.packable_of_shows hshows)).valid
  have hholds := ChunkRows.holdsRow_toJson _ hvalid.arity hvalid.gapsSafe
  rw [bindRecord_row] at hbind
  obtain rfl := Except.ok.inj hbind
  have hsize : Utf8.byteLength (Json.obj (rowOf first rest).data).stringify ≤ maxPackedDataBytes :=
    hbytes
  have hwithin : Within (.obj (rowOf first rest).data)
      (some (Utf8.byteLength (Json.obj (rowOf first rest).data).stringify))
      (rowOf first rest).members := ⟨packed_within hshows hmin hmax, hsize⟩
  have hread := validateRow_ok hholds hvalid rfl hwithin
  have hvalue : rowValue (rowOf first rest).kind.delta (rowOf first rest).seq0
      (rowOf first rest).time0 (.obj (rowOf first rest).data) = (rowOf first rest).toJson := rfl
  rw [decodeRow, if_neg (by simp)]
  simp only [chunkTag?_tag, expect_some, ok_bind, Option.isNone_none, Bool.and_self, require_true]
  rw [decodeData_encodeData hlossless _ (by simpa using hsize), ok_bind, decodeSerializedChunkRow]
  simp only [decide_eq_true hsize, require_true, ok_bind,
    Json.parse_stringify (ChunkRows.wellFormed_rowData _), expect_some, hvalue, hread]
  rw [Except.map, ChunkRows.expandRow_eq hvalid, hrun.deltas_eq]

theorem decodeRow_packed (hlossless : zstd.Lossless) (h : IsRun kind events)
    (hmin : minPackedRowMembers ≤ events.length) (hmax : events.length ≤ maxPackedRowMembers)
    (hbytes : packedDataBytes (buildRow kind events) ≤ maxPackedDataBytes) {row : EventRow}
    (hbind : bindRecord zstd (buildRow kind events) = .ok row) : RowHolds zstd row events := by
  have hne : events ≠ [] := by
    rintro rfl
    exact absurd hmin (by decide)
  obtain ⟨first, rest, hrun, rfl, hshows, hrow⟩ := h.row hne
  have hvalid := (hrun.packed (ChunkRows.packable_of_shows hshows)).valid
  rw [hrow] at hbytes hbind
  have hread := decodeRow_run hlossless hrun hshows hmin hmax hbytes hbind
  rw [bindRecord_row] at hbind
  obtain rfl := Except.ok.inj hbind
  have hheadSeq : events.head?.map ChunkRows.seqOf = some first.seq := by
    obtain ⟨event, tail, hevent, _, rfl⟩ := List.forall₂_cons_right_iff.mp hshows
    rw [List.head?_cons, Option.map_some, hevent.seq]
  exact
    { decoded := ⟨(first :: rest).map Delta.event, hread,
        ChunkRows.forall₂_shown (fun _ _ hevent => hevent.restored) hshows⟩
      seq := hheadSeq
      seqSafe := ⟨hvalid.seqNonneg, hvalid.seqSafe⟩
      timeSafe := hvalid.timeSafe
      length := hmax
      packed := fun _ => ⟨rfl, by rw [chunkTag?_tag]; rfl⟩
      type := fun _ => tag_ne_empty _
      ignorable := .inr (.inl rfl) }

theorem decodeStorageRecord_packed (h : IsRun kind events)
    (hmin : minPackedRowMembers ≤ events.length) (hmax : events.length ≤ maxPackedRowMembers)
    (hbytes : packedDataBytes (buildRow kind events) ≤ maxPackedDataBytes) :
    ∃ decoded, decodeStorageRecord (buildRow kind events) = .ok decoded ∧
      SameEvents decoded events := by
  have hne : events ≠ [] := by
    rintro rfl
    exact absurd hmin (by decide)
  obtain ⟨first, rest, hrun, rfl, hshows, hrow⟩ := h.row hne
  have hvalid := (hrun.packed (ChunkRows.packable_of_shows hshows)).valid
  have hholds := ChunkRows.holdsRow_toJson _ hvalid.arity hvalid.gapsSafe
  rw [hrow] at hbytes ⊢
  have hread : validateRow (rowOf first rest).toJson (rowOf first rest).kind.delta none =
      .ok (rowOf first rest) :=
    validateRow_ok hholds hvalid rfl ⟨packed_within hshows hmin hmax, hbytes⟩
  refine ⟨(first :: rest).map Delta.event, ?_, ChunkRows.sameEvents_of_shows hshows⟩
  simp only [decodeStorageRecord, ChunkRows.rowTag_toJson]
  rw [hread, Except.map, ChunkRows.expandRow_eq hvalid, hrun.deltas_eq]

theorem rowTag_of_shows {event : Json} {delta : Delta} (h : Shows event delta) :
    rowTag event = none := by
  have hsame := h.same
  cases event with
  | obj fields =>
    rw [Delta.event, RunKind.event, Json.deepEqual_obj_iff, Json.deepEqualFields_cons] at hsame
    obtain ⟨_, ⟨found, hfound, hequal⟩, _⟩ := hsame
    obtain rfl := Json.deepEqual_str_iff.mp hequal
    rw [rowTag, Json.get?_obj, hfound]
    rfl
  | _ => simp [Delta.event, RunKind.event, Json.deepEqual] at hsame

def columnForm (event : Json) : Json :=
  .obj ([("type", .str (typeOf event)), ("seq", .int (ChunkRows.seqOf event)),
      ("time", .int (ChunkRows.timeOf event)), ("data", ChunkRows.fieldOf event "data")]
    ++ Json.optionalField "sourceEventSeqs" (event.get? "sourceEventSeqs")
    ++ Json.optionalField "surfaceOp" (event.get? "surfaceOp")
    ++ Json.optionalField "ignorable" (event.get? "ignorable"))

section Scalar

variable {event : Json} {row : EventRow}

theorem bindRecord_event (h : Envelope event) (hbind : bindRecord zstd event = .ok row) :
    ∃ bytes, bindSeqs (event.get? "sourceEventSeqs") = .ok bytes ∧ row =
      { seq := ChunkRows.seqOf event
        type := typeOf event
        time := ChunkRows.timeOf event
        data := encodeData zstd (ChunkRows.fieldOf event "data").stringify
        sourceEventSeqs := bytes
        surfaceOp := (event.get? "surfaceOp").map Json.stringify
        ignorable := if event.get? "ignorable" = some (.bool true) then some 1 else none } := by
  obtain ⟨_, seq, _, _, _, ⟨hseq, _⟩, _⟩ := h.read
  have hchunk : isChunkRow event = false := by
    rw [isChunkRow, hseq]
    simp
  rw [bindRecord, hchunk] at hbind
  simp only [Bool.false_eq_true, if_false] at hbind
  obtain ⟨bytes, hbytes, hrow⟩ := bind_eq_ok.mp hbind
  exact ⟨bytes, hbytes, (Except.ok.inj hrow).symm⟩

theorem decodeRow_columnForm (hlossless : zstd.Lossless) (h : Envelope event)
    (hbind : bindRecord zstd event = .ok row) : decodeRow zstd row = .ok [columnForm event] := by
  obtain ⟨_, _, _, data, _, _, _, hdata, hignorable⟩ := h.read
  obtain ⟨bytes, hbytes, rfl⟩ := bindRecord_event h hbind
  have hwellFormed : ∀ key value, event.get? key = some value → value.WellFormed := by
    obtain ⟨fields, rfl⟩ := h.object
    intro key value hvalue
    exact wellFormed_lookup h.lossless.2 hvalue
  have hseqs : decodeSeqsColumn bytes =
      .ok (Json.optionalField "sourceEventSeqs" (event.get? "sourceEventSeqs")) := by
    cases hfound : event.get? "sourceEventSeqs" with
    | none =>
      rw [hfound] at hbytes
      obtain rfl := Except.ok.inj hbytes
      rfl
    | some values =>
      obtain ⟨items, rfl⟩ := h.seqs values hfound
      rw [hfound, bindSeqs] at hbytes
      obtain ⟨encoded, hencoded, rfl⟩ := map_eq_ok.mp hbytes
      obtain ⟨seqs, rfl, hdecoded⟩ := decodeSourceEventSeqs_encode hencoded
      rw [decodeSeqsColumn, hdecoded]
      rfl
  have hop : decodeOpColumn ((event.get? "surfaceOp").map Json.stringify) =
      .ok (Json.optionalField "surfaceOp" (event.get? "surfaceOp")) := by
    cases hfound : event.get? "surfaceOp" with
    | none => rfl
    | some op =>
      rw [Option.map_some, decodeOpColumn, parseJson,
        Json.parse_stringify (hwellFormed _ _ hfound)]
      rfl
  have hfieldOf : ChunkRows.fieldOf event "data" = data := by
    rw [ChunkRows.fieldOf, hdata]
    rfl
  have hsentinel : (if event.get? "ignorable" = some (.bool true) then some (1 : Int) else none) ≠
      some packedRowSentinel := by
    split <;> simp [packedRowSentinel]
  have htext : decodeData zstd (encodeData zstd data.stringify) none = .ok data.stringify :=
    decodeData_encodeData hlossless data (by simp)
  rw [decodeRow, if_pos hsentinel, decodeScalarRow, columnForm]
  simp only [hseqs, hop, ok_bind, hfieldOf, htext, parseJson,
    Json.parse_stringify (hwellFormed _ _ hdata), expect_some, pure_eq_ok, Except.map]
  rcases hignorable with hnone | hsome
  · simp [hnone, Json.optionalField]
  · simp [hsome, Json.optionalField]

theorem columnForm_restored (h : Envelope event) : Restored (columnForm event) event := by
  obtain ⟨type, seq, time, data, htype, ⟨hseq, _⟩, ⟨htime, _⟩, hdata, _⟩ := h.read
  have hfieldOf : ChunkRows.fieldOf event "data" = data := by
    rw [ChunkRows.fieldOf, hdata]
    rfl
  have htypeOf : typeOf event = type := by
    rw [typeOf, ChunkRows.stringField_eq_some.mpr htype]
    rfl
  have hseqOf : ChunkRows.seqOf event = seq := by
    rw [ChunkRows.seqOf, ChunkRows.intField, hseq]
    rfl
  have htimeOf : ChunkRows.timeOf event = time := by
    rw [ChunkRows.timeOf, ChunkRows.intField, htime]
    rfl
  refine ⟨?_, rfl⟩
  rw [columnForm, hfieldOf, htypeOf, hseqOf, htimeOf]
  exact h.rebuild htype hseq htime hdata

theorem decodeRow_event (hlossless : zstd.Lossless) (h : Envelope event)
    (hbind : bindRecord zstd event = .ok row) : RowHolds zstd row [event] := by
  have hread := decodeRow_columnForm hlossless h hbind
  obtain ⟨_, seq, time, _, _, ⟨hseq, hseqSafe⟩, ⟨htime, htimeSafe⟩, _⟩ := h.read
  obtain ⟨bytes, _, rfl⟩ := bindRecord_event h hbind
  have hseqOf : ChunkRows.seqOf event = seq := by
    rw [ChunkRows.seqOf, ChunkRows.intField, hseq]
    rfl
  have htimeOf : ChunkRows.timeOf event = time := by
    rw [ChunkRows.timeOf, ChunkRows.intField, htime]
    rfl
  exact
    { decoded := ⟨[columnForm event], hread, .cons (columnForm_restored h) .nil⟩
      seq := rfl
      seqSafe := by simp only [hseqOf]; exact ⟨Int.natCast_nonneg seq, hseqSafe⟩
      timeSafe := by simp only [htimeOf]; exact htimeSafe
      length := Nat.succ_le_of_lt (Nat.succ_pos 1023)
      packed := fun hmany => absurd hmany (Nat.lt_irrefl 1)
      type := fun htypes => htypes event List.mem_cons_self
      ignorable := by simp only; split <;> simp }

end Scalar

end Decode

end Harness.Sqlite
