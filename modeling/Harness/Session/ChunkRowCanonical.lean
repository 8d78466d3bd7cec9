import Harness.Session.ChunkRowsSound

namespace Harness

open Harness.Foundation

namespace ChunkRows

structure RowSound (value : Json) (kind : DeltaKind) : Prop where
  whole : ∀ row, row.kind.delta = kind → HoldsRow value row → row.Packed →
    decodeStorageRecord value = .ok (row.deltas.map Delta.event)
  malformed : (¬∃ row, row.kind.delta = kind ∧ HoldsRow value row ∧ row.Packed) →
    ∃ message, decodeStorageRecord value = .error message
  canonical : ∀ events, decodeStorageRecord value = .ok events → minRun ≤ events.length →
    ∃ row, packChunkRuns events = [row] ∧ row.deepEqual value = true

section Pack

variable {out : List Json} {first : Delta} {rest : List Delta}

theorem foldl_pack_run (h : Run first rest) (hpackable : ∀ delta ∈ first :: rest, delta.Packable)
    (before : List Json) :
    (rest.map Delta.event).foldl (PackState.pack emitRun)
        { out, kind := some first.kind.delta, run := before ++ [first.event] } =
      { out, kind := some first.kind.delta, run := before ++ (first :: rest).map Delta.event } := by
  induction rest generalizing first before with
  | nil => rfl
  | cons next rest ih =>
    have hfirst := hpackable first List.mem_cons_self
    have hnext := hpackable next (by simp)
    have hkind : next.kind.delta = first.kind.delta := by rw [h.next.kind]
    have hextends : PackState.extends?
        { out, kind := some first.kind.delta, run := before ++ [first.event] } next.event
        next.kind.delta = true := by
      rw [extends?_iff]
      refine ⟨by rw [hkind], first.event, by simp, ?_⟩
      exact (continues_iff hfirst.shows hnext.shows hkind.symm rfl).mpr h.next
    have hstep : PackState.pack emitRun
        { out, kind := some first.kind.delta, run := before ++ [first.event] } next.event =
        { out, kind := some next.kind.delta, run := (before ++ [first.event]) ++ [next.event] } := by
      rw [PackState.pack, hnext.classify]
      simp only
      rw [if_pos hextends, hkind]
    rw [List.map_cons, List.foldl_cons, hstep,
      ih h.tail (fun delta hmem => hpackable delta (List.mem_cons_of_mem _ hmem)), hkind]
    simp

theorem packChunkRuns_run (h : Run first rest)
    (hpackable : ∀ delta ∈ first :: rest, delta.Packable) (hmin : minRun ≤ (first :: rest).length) :
    packChunkRuns ((first :: rest).map Delta.event) = [(rowOf first rest).toJson] := by
  have hstart : PackState.start.pack emitRun first.event =
      { out := [], kind := some first.kind.delta, run := [] ++ [first.event] } := by
    rw [PackState.pack, (hpackable first List.mem_cons_self).classify]
    rfl
  have hshows : List.Forall₂ Shows ((first :: rest).map Delta.event) (first :: rest) := by
    rw [List.forall₂_map_left_iff, List.forall₂_same]
    exact fun delta hmem => (hpackable delta hmem).shows
  rw [packChunkRuns, packRuns, List.map_cons, List.foldl_cons, hstart,
    foldl_pack_run h hpackable [], PackState.flush]
  simp only [List.nil_append]
  rw [emitRun, if_pos (by simpa using hmin), buildRow_eq h hshows]

end Pack

section Decode

variable {row : ChunkRow}

theorem deltasFrom_packable (members : List String) {seq time : Int} {gaps : List Int}
    (hnonneg : 0 ≤ seq) (hlast : seq + members.length ≤ 9007199254740992)
    (harity : gaps.length + 1 = members.length) (htime : isSafe time = true)
    (htimes : TimesSafe time gaps) :
    ∀ delta ∈ row.deltasFrom seq time members gaps, delta.Packable := by
  induction members generalizing seq time gaps with
  | nil => simp [ChunkRow.deltasFrom]
  | cons payload members ih =>
    simp only [List.length_cons] at hlast harity
    have hsafe : isSafe seq = true := isSafe_iff.mpr (by omega)
    rw [ChunkRow.deltasFrom, List.forall_mem_cons]
    refine ⟨⟨hnonneg, hsafe, htime⟩, ?_⟩
    cases gaps with
    | nil =>
      obtain rfl : members = [] := List.eq_nil_of_length_eq_zero (by simpa using harity.symm)
      simp [ChunkRow.deltasFrom]
    | cons gap gaps =>
      simp only [List.length_cons] at harity
      rw [List.headD_cons, List.tail_cons]
      exact ih (by omega) (by push_cast at hlast; omega) (by omega) htimes.1 htimes.2

theorem ChunkRow.Packed.packable (h : row.Packed) : ∀ delta ∈ row.deltas, delta.Packable :=
  deltasFrom_packable row.members h.seqNonneg h.lastSeq h.arity h.timeSafe h.times

variable {value : Json} {kind : DeltaKind}

theorem decodeStorageRecord_eq_ok (htag : rowTag value = some kind) {events : List Json} :
    decodeStorageRecord value = .ok events ↔ ∃ row, row.kind.delta = kind ∧ HoldsRow value row ∧
      row.Valid ∧ events = row.deltas.map Delta.event := by
  simp only [decodeStorageRecord, htag]
  constructor
  · intro h
    obtain ⟨row, hrow, rfl⟩ := map_eq_ok.mp h
    obtain ⟨hkind, hholds, hvalid⟩ := validateRow_eq_ok.mp hrow
    exact ⟨row, hkind, hholds, hvalid, expandRow_eq hvalid⟩
  · rintro ⟨row, hkind, hholds, hvalid, rfl⟩
    rw [validateRow_eq_ok.mpr ⟨hkind, hholds, hvalid⟩, Except.map, expandRow_eq hvalid]

theorem rowTag_eq_some : rowTag value = some kind ↔ value.get? "type" = some (.str kind.tag) := by
  unfold rowTag
  constructor
  · intro h
    split at h
    all_goals
      cases h <;> assumption
  · intro h
    rw [h]
    cases kind <;> rfl

theorem HoldsRow.unique {row' : ChunkRow} (hkind : row.kind.delta = kind)
    (hkind' : row'.kind.delta = kind) (h : HoldsRow value row) (h' : HoldsRow value row')
    (hvalid : row.Valid) (hvalid' : row'.Valid) : row = row' := by
  have hread := validateRow_eq_ok.mpr ⟨hkind, h, hvalid⟩
  rw [validateRow_eq_ok.mpr ⟨hkind', h', hvalid'⟩] at hread
  exact (Except.ok.inj hread).symm

theorem packed_canonical (htag : rowTag value = some kind) (hkind : row.kind.delta = kind)
    (hholds : HoldsRow value row) (hpacked : row.Packed) (hmin : minRun ≤ row.deltas.length) :
    ∃ packed, packChunkRuns (row.deltas.map Delta.event) = [packed] ∧
      packed.deepEqual value = true := by
  obtain ⟨first, rest, hdeltas, hrun, hrow⟩ := ChunkRow.deltas_run hpacked.toTimed
  have hpackable := hpacked.packable
  rw [hdeltas] at hpackable hmin
  refine ⟨row.toJson, ?_, hholds.same ?_⟩
  · rw [hdeltas, packChunkRuns_run hrun hpackable hmin, hrow]
  · rw [hkind]
    exact rowTag_eq_some.mp htag

/-- The tagged values that are sound: all but those whose last member is one past the last safe
seq, which the decoder lets through and the encoder does not take back. -/
theorem rowSound_of_tag (htag : rowTag value = some kind) :
    RowSound value kind ↔ ¬∃ row, row.kind.delta = kind ∧ HoldsRow value row ∧ row.Timed ∧
      row.seq0 + row.members.length = 9007199254740993 := by
  constructor
  · rintro hsound ⟨row, hkind, hholds, htimed, hlast⟩
    have hvalid := ChunkRow.valid_iff.mpr ⟨htimed, le_of_eq hlast⟩
    have hnone : ¬∃ row, row.kind.delta = kind ∧ HoldsRow value row ∧ row.Packed := by
      rintro ⟨other, hother, hotherHolds, hpacked⟩
      obtain rfl := hholds.unique hkind hother hotherHolds hvalid hpacked.valid
      have := hpacked.lastSeq
      omega
    obtain ⟨message, hmessage⟩ := hsound.malformed hnone
    rw [(decodeStorageRecord_eq_ok htag).mpr ⟨row, hkind, hholds, hvalid, rfl⟩] at hmessage
    simp at hmessage
  · intro hnone
    have hpacked : ∀ row, row.kind.delta = kind → HoldsRow value row → row.Valid → row.Packed := by
      intro row hkind hholds hvalid
      obtain ⟨htimed, hle⟩ := ChunkRow.valid_iff.mp hvalid
      refine ⟨htimed, ?_⟩
      by_contra hlast
      exact hnone ⟨row, hkind, hholds, htimed, by omega⟩
    refine ⟨?_, ?_, ?_⟩
    · intro row hkind hholds hrow
      exact (decodeStorageRecord_eq_ok htag).mpr ⟨row, hkind, hholds, hrow.valid, rfl⟩
    · intro hmalformed
      cases hdecode : decodeStorageRecord value with
      | error message => exact ⟨message, rfl⟩
      | ok events =>
        obtain ⟨row, hkind, hholds, hvalid, _⟩ := (decodeStorageRecord_eq_ok htag).mp hdecode
        exact absurd ⟨row, hkind, hholds, hpacked row hkind hholds hvalid⟩ hmalformed
    · intro events hdecode hmin
      obtain ⟨row, hkind, hholds, hvalid, rfl⟩ := (decodeStorageRecord_eq_ok htag).mp hdecode
      exact packed_canonical htag hkind hholds (hpacked row hkind hholds hvalid)
        (by simpa using hmin)

end Decode

/-- Packing loses no event over any split into batches, and a tagged row is canonical exactly
when its members do not end one past the last safe seq. -/
theorem chunkRows_lossless_and_canonical (batches : List (List Json))
    (hevents : ∀ event ∈ batches.flatten, IsEvent event) {value : Json} {kind : DeltaKind}
    (htag : rowTag value = some kind) :
    (∃ decoded, decodeRecords (batches.flatMap packChunkRuns) = .ok decoded ∧
      SameEvents decoded batches.flatten) ∧
    (RowSound value kind ↔ ¬∃ row, row.kind.delta = kind ∧ HoldsRow value row ∧ row.Timed ∧
      row.seq0 + row.members.length = 9007199254740993) :=
  ⟨decode_batches hevents, rowSound_of_tag htag⟩

def textEvent (k : Int) (text : String) : Json :=
  RunKind.text.event (.int 1) (.int 1) (.int 0) k k text

def textRow : Json :=
  .obj [("type", .str "text-chunks"), ("seq0", .int 0), ("time0", .int 0),
    ("data", .obj [("turn", .int 1), ("step", .int 1), ("index", .int 0),
      ("dt", .arr [.int 1, .int 1]), ("texts", .arr [.str "a", .str "b", .str "c"])])]

theorem isEvent_textEvent (k : Int) (text : String) : IsEvent (textEvent k text) := by
  refine ⟨⟨_, rfl⟩, ?_, rfl⟩
  simp [textEvent, RunKind.event, RunKind.chunk, Json.WellFormed, Json.WellFormedFields]

theorem textRow_lossless_and_canonical :
    (∃ decoded, decodeRecords
        ([[textEvent 0 "a", textEvent 1 "b"], [textEvent 2 "c"]].flatMap packChunkRuns) =
          .ok decoded ∧
        SameEvents decoded [textEvent 0 "a", textEvent 1 "b", textEvent 2 "c"]) ∧
      RowSound textRow .text := by
  have hevents : ∀ event ∈ [[textEvent 0 "a", textEvent 1 "b"], [textEvent 2 "c"]].flatten,
      IsEvent event := by
    simp [isEvent_textEvent]
  have htag : rowTag textRow = some .text := rfl
  obtain ⟨hdecoded, hsound⟩ := chunkRows_lossless_and_canonical _ hevents htag
  refine ⟨hdecoded, hsound.mpr ?_⟩
  · rintro ⟨row, hkind, hholds, htimed, hlast⟩
    obtain ⟨data, hdata, hrun⟩ := hholds.data
    have hseq : (0 : Int) = row.seq0 := by
      simpa [textRow, List.lookup_cons] using hholds.seq0
    have hpayload := hrun.base.payload
    obtain rfl := Option.some.inj (hdata.symm.trans rfl)
    rw [hkind] at hpayload
    have hmembers : [Json.str "a", .str "b", .str "c"] = row.members.map Json.str := by
      simpa [payloadsKey, List.lookup_cons] using hpayload
    have hlength := congrArg List.length hmembers
    simp only [List.length_cons, List.length_nil, List.length_map] at hlength
    omega

def unsafeRow : Json :=
  .obj [("type", .str "text-chunks"), ("seq0", .int 9007199254740990), ("time0", .int 0),
    ("data", .obj [("turn", .int 1), ("step", .int 1), ("index", .int 0),
      ("dt", .arr [.int 0, .int 0]), ("texts", .arr [.str "a", .str "b", .str "c"])])]

theorem unsafeRow_not_sound : rowTag unsafeRow = some .text ∧ ¬RowSound unsafeRow .text := by
  refine ⟨rfl, ?_⟩
  intro hsound
  have hdecode : decodeStorageRecord unsafeRow = .ok
      ([(9007199254740990, "a"), (9007199254740991, "b"), (9007199254740992, "c")].map
        fun member => RunKind.text.event (.int 1) (.int 1) (.int 0) member.1 0 member.2) := by
    decide
  obtain ⟨row, hpack, _⟩ := hsound.canonical _ hdecode (by decide)
  have hone : (packChunkRuns _).length = 1 := congrArg List.length hpack
  exact absurd hone (by decide)

end ChunkRows

end Harness
