import Harness.Sqlite.CodecSound

namespace Harness.Sqlite

open Harness.Foundation
open Harness.ChunkRows (DeltaKind RunKind ChunkRow Delta Shows buildRow rowOf Segment SameEvents Restored)

section Rows

variable {zstd : Zstd}

theorem bindRecords_append {front back : List Json} {rows : List EventRow}
    (h : bindRecords zstd (front ++ back) = .ok rows) :
    ∃ frontRows backRows, bindRecords zstd front = .ok frontRows ∧
      bindRecords zstd back = .ok backRows ∧ rows = frontRows ++ backRows := by
  induction front generalizing rows with
  | nil => exact ⟨[], rows, rfl, h, rfl⟩
  | cons record front ih =>
    obtain ⟨row, hrow, hrest⟩ := bind_eq_ok.mp h
    obtain ⟨rest, hbound, hcons⟩ := bind_eq_ok.mp hrest
    obtain rfl := Except.ok.inj hcons
    obtain ⟨frontRows, backRows, hfront, hback, rfl⟩ := ih hbound
    exact ⟨row :: frontRows, backRows, by rw [bindRecords, hrow, ok_bind, hfront]; rfl, hback, rfl⟩

theorem decodeRows_append (front back : List EventRow) :
    decodeRows zstd (front ++ back) = do
      let events ← decodeRows zstd front
      let rest ← decodeRows zstd back
      return events ++ rest := by
  induction front with
  | nil =>
    simp only [List.nil_append, decodeRows, ok_bind, pure_eq_ok]
    cases decodeRows zstd back <;> rfl
  | cons row front ih =>
    simp only [List.cons_append, decodeRows, ih]
    cases decodeRow zstd row with
    | error message => rfl
    | ok events =>
      cases decodeRows zstd front with
      | error message => rfl
      | ok rest =>
        cases decodeRows zstd back with
        | error message => rfl
        | ok more => simp

def RowsHold (zstd : Zstd) (rows : List EventRow) (events : List Json) : Prop :=
  ∃ pieces, List.Forall₂ (RowHolds zstd) rows pieces ∧ pieces.flatten = events

theorem RowsHold.nil : RowsHold zstd [] [] := ⟨[], .nil, rfl⟩

theorem RowsHold.cons {row : EventRow} {rows : List EventRow} {piece events : List Json}
    (hrow : RowHolds zstd row piece) (h : RowsHold zstd rows events) :
    RowsHold zstd (row :: rows) (piece ++ events) := by
  obtain ⟨pieces, hpieces, rfl⟩ := h
  exact ⟨piece :: pieces, .cons hrow hpieces, rfl⟩

theorem RowsHold.append {rows rows' : List EventRow} {events events' : List Json}
    (h : RowsHold zstd rows events) (h' : RowsHold zstd rows' events') :
    RowsHold zstd (rows ++ rows') (events ++ events') := by
  obtain ⟨pieces, hpieces, rfl⟩ := h
  obtain ⟨pieces', hpieces', rfl⟩ := h'
  exact ⟨pieces ++ pieces', List.rel_append hpieces hpieces', List.flatten_append⟩

theorem rowsHold_cut (hlossless : zstd.Lossless) {kind : DeltaKind} {run records : List Json}
    (hcut : Cut kind run records) (hrun : IsRun kind run) (hevents : ∀ event ∈ run, Envelope event)
    {rows : List EventRow} (hbind : bindRecords zstd records = .ok rows) :
    RowsHold zstd rows run := by
  induction hcut generalizing rows with
  | nil =>
    obtain rfl := Except.ok.inj hbind
    exact .nil
  | plain hcut ih =>
    rename_i event run records
    obtain ⟨row, hrow, hrest⟩ := bind_eq_ok.mp hbind
    obtain ⟨rest, hbound, hcons⟩ := bind_eq_ok.mp hrest
    obtain rfl := Except.ok.inj hcons
    have hrun : IsRun kind ([event] ++ run) := hrun
    exact .cons (decodeRow_event hlossless (hevents event List.mem_cons_self) hrow)
      (ih hrun.append.2 (fun other hother => hevents other (List.mem_cons_of_mem _ hother)) hbound)
  | packed hmin hmax hbytes hcut ih =>
    rename_i front back records
    obtain ⟨row, hrow, hrest⟩ := bind_eq_ok.mp hbind
    obtain ⟨rest, hbound, hcons⟩ := bind_eq_ok.mp hrest
    obtain rfl := Except.ok.inj hcons
    obtain ⟨hfront, hback⟩ := hrun.append
    exact .cons (decodeRow_packed hlossless hfront hmin hmax hbytes hrow)
      (ih hback (fun other hother => hevents other (List.mem_append_right _ hother)) hbound)

theorem rowsHold_segment (hlossless : zstd.Lossless) {segment : Segment} (h : segment.Whole)
    (hevents : ∀ event ∈ segment.events, Envelope event) {rows : List EventRow}
    (hbind : bindRecords zstd (segment.rows emitBoundedRun) = .ok rows) :
    RowsHold zstd rows segment.events := by
  cases segment with
  | verbatim event =>
    obtain ⟨row, hrow, hrest⟩ := bind_eq_ok.mp hbind
    obtain ⟨rest, hbound, hcons⟩ := bind_eq_ok.mp hrest
    obtain rfl := Except.ok.inj hcons
    obtain rfl := Except.ok.inj hbound
    exact .cons (decodeRow_event hlossless (hevents event List.mem_cons_self) hrow) .nil
  | run kind events =>
    exact rowsHold_cut hlossless (emitBoundedRun_cut kind events) (isRun_of_whole h) hevents hbind

theorem rowsHold_segments (hlossless : zstd.Lossless) {segments : List Segment}
    (h : ∀ segment ∈ segments, segment.Whole)
    (hevents : ∀ event ∈ segments.flatMap Segment.events, Envelope event) {rows : List EventRow}
    (hbind : bindRecords zstd (segments.flatMap (Segment.rows emitBoundedRun)) = .ok rows) :
    RowsHold zstd rows (segments.flatMap Segment.events) := by
  induction segments generalizing rows with
  | nil =>
    obtain rfl := Except.ok.inj hbind
    exact .nil
  | cons segment segments ih =>
    simp only [List.flatMap_cons, List.mem_append] at hevents
    rw [List.flatMap_cons] at hbind
    obtain ⟨frontRows, backRows, hfrontBind, hbackBind, rfl⟩ := bindRecords_append hbind
    have hfront := rowsHold_segment hlossless (h segment List.mem_cons_self)
      (fun event hevent => hevents event (.inl hevent)) hfrontBind
    exact hfront.append (ih (fun other hother => h other (List.mem_cons_of_mem _ hother))
      (fun event hevent => hevents event (.inr hevent)) hbackBind)

theorem rowsHold_packChunkRuns (hlossless : zstd.Lossless) {events : List Json}
    (hevents : ∀ event ∈ events, Envelope event) {rows : List EventRow}
    (hbind : bindRecords zstd (packChunkRuns events) = .ok rows) : RowsHold zstd rows events := by
  obtain ⟨segments, hwhole, hout, rfl⟩ := ChunkRows.packRuns_segments emitBoundedRun events
  rw [packChunkRuns, hout] at hbind
  exact rowsHold_segments hlossless hwhole hevents hbind

theorem RowsHold.decode {rows : List EventRow} {events : List Json}
    (h : RowsHold zstd rows events) :
    ∃ decoded, decodeRows zstd rows = .ok decoded ∧ List.Forall₂ Restored decoded events := by
  obtain ⟨pieces, hpieces, rfl⟩ := h
  induction hpieces with
  | nil => exact ⟨[], rfl, .nil⟩
  | cons hrow _ ih =>
    obtain ⟨front, hfront, hfrontSame⟩ := hrow.decoded
    obtain ⟨back, hback, hbackSame⟩ := ih
    refine ⟨front ++ back, ?_, List.rel_append hfrontSame hbackSame⟩
    rw [decodeRows, hfront, ok_bind, hback]
    rfl

theorem sameEvents_of_restored {decoded events : List Json}
    (h : List.Forall₂ Restored decoded events) : SameEvents decoded events :=
  h.imp fun _ _ hrestored => hrestored.same

end Rows

structure Bounded (record : Json) (row : ChunkRow) : Prop where
  built : record = row.toJson
  minMembers : 3 ≤ row.members.length
  maxMembers : row.members.length ≤ 1024
  dataBytes : packedDataBytes record ≤ 1048576

theorem bounded_of_cut {kind : DeltaKind} {run records : List Json} (hcut : Cut kind run records)
    (hrun : IsRun kind run) :
    ∀ record ∈ records, record ∈ run ∨ ∃ row, Bounded record row := by
  induction hcut with
  | nil => simp
  | plain hcut ih =>
    rename_i event run records
    have hrun : IsRun kind ([event] ++ run) := hrun
    intro record hmem
    rcases List.mem_cons.mp hmem with rfl | hrest
    · exact .inl List.mem_cons_self
    · exact (ih hrun.append.2 record hrest).imp_left (List.mem_cons_of_mem _)
  | packed hmin hmax hbytes hcut ih =>
    rename_i front back records
    obtain ⟨hfront, hback⟩ := hrun.append
    intro record hmem
    rcases List.mem_cons.mp hmem with rfl | hrest
    · have hne : front ≠ [] := by
        rintro rfl
        exact absurd hmin (by decide)
      obtain ⟨first, rest, _, _, hshows, hrow⟩ := hfront.row hne
      have hlength := hshows.length_eq
      have hmembers : (ChunkRows.rowOf first rest).members.length = front.length := by
        simp [ChunkRows.rowOf, hlength]
      exact .inr ⟨_, hrow, by rw [hmembers]; exact hmin, by rw [hmembers]; exact hmax, hbytes⟩
    · exact (ih hback record hrest).imp_left (List.mem_append_right _)

theorem decodeRecords_cut {kind : DeltaKind} {run records : List Json} (hcut : Cut kind run records)
    (hrun : IsRun kind run) (hevents : ∀ event ∈ run, event.WellFormed) :
    ∃ decoded, decodeRecords records = .ok decoded ∧ SameEvents decoded run := by
  induction hcut with
  | nil => exact ⟨[], rfl, .nil⟩
  | plain hcut ih =>
    rename_i event run records
    have hrun : IsRun kind ([event] ++ run) := hrun
    obtain ⟨hfront, hback⟩ := hrun.append
    obtain ⟨deltas, hshows, _⟩ := hfront
    obtain ⟨delta, _, hevent, _, _⟩ := List.forall₂_cons_left_iff.mp hshows
    obtain ⟨decoded, hdecoded, hsame⟩ :=
      ih hback fun other hother => hevents other (List.mem_cons_of_mem _ hother)
    refine ⟨event :: decoded, ?_,
      .cons (Json.deepEqual_refl event (hevents event List.mem_cons_self)) hsame⟩
    rw [decodeRecords, decodeStorageRecord, rowTag_of_shows hevent, ok_bind, hdecoded]
    rfl
  | packed hmin hmax hbytes hcut ih =>
    rename_i front back records
    obtain ⟨hfront, hback⟩ := hrun.append
    obtain ⟨decoded, hdecoded, hsame⟩ := decodeStorageRecord_packed hfront hmin hmax hbytes
    obtain ⟨others, hothers, hothersSame⟩ :=
      ih hback fun other hother => hevents other (List.mem_append_right _ hother)
    refine ⟨decoded ++ others, ?_, hsame.append hothersSame⟩
    rw [decodeRecords, hdecoded, ok_bind, hothers]
    rfl

/-- Whatever batch the store accepts is read back from its rows, and the splitter of a run keeps
to its bounds without losing a member. -/
theorem batch_restored_within_bounds (zstd : Zstd) (hlossless : zstd.Lossless) :
    (∀ events rows, (∀ event ∈ events, Envelope event) →
      bindRecords zstd (packChunkRuns events) = .ok rows →
      ∃ decoded, decodeRows zstd rows = .ok decoded ∧ SameEvents decoded events) ∧
    ∀ kind run, (Segment.run kind run).Whole → (∀ event ∈ run, event.WellFormed) →
      (∀ record ∈ emitBoundedRun kind run, record ∈ run ∨ ∃ row, Bounded record row) ∧
      ∃ decoded, decodeRecords (emitBoundedRun kind run) = .ok decoded ∧ SameEvents decoded run := by
  constructor
  · intro events rows hevents hbind
    obtain ⟨decoded, hdecoded, hrestored⟩ := (rowsHold_packChunkRuns hlossless hevents hbind).decode
    exact ⟨decoded, hdecoded, sameEvents_of_restored hrestored⟩
  intro kind run hwhole hevents
  have hrun := isRun_of_whole hwhole
  have hcut := emitBoundedRun_cut kind run
  exact ⟨bounded_of_cut hcut hrun, decodeRecords_cut hcut hrun hevents⟩

def storedFrames : Zstd where
  compress bytes := 0x28 :: bytes
  decompress frame limit :=
    match frame with
    | 0x28 :: bytes =>
      if limit.any fun max => max < bytes.length then .error "Cannot create a Buffer larger than"
      else .ok bytes
    | _ => .error "Unknown frame descriptor"

theorem storedFrames_lossless : storedFrames.Lossless := by
  refine ⟨?_⟩
  intro bytes limit hlimit
  have hfits : (limit.any fun max => max < bytes.length) = false := by
    cases limit with
    | none => rfl
    | some max =>
      have := hlimit max rfl
      simpa using this
  simp only [storedFrames]
  rw [hfits]
  rfl

def streamedDelta (seq : Nat) (text : String) : Delta :=
  { kind := .text, turn := .int 1, step := .int 1, index := .int 0, seq, time := seq
    payload := text }

def streamedDeltas : List Delta := [streamedDelta 0 "a", streamedDelta 1 "b", streamedDelta 2 "c"]

def streamedBatch : List Json := streamedDeltas.map Delta.event

theorem streamedDeltas_packable : ∀ delta ∈ streamedDeltas, delta.Packable := by
  intro delta hmem
  simp only [streamedDeltas, List.mem_cons, List.not_mem_nil, or_false] at hmem
  rcases hmem with rfl | rfl | rfl <;> exact ⟨by decide, by decide, by decide⟩

theorem streamedBatch_whole : (Segment.run .text streamedBatch).Whole := by
  refine ⟨streamedDelta 0 "a", [streamedDelta 1 "b", streamedDelta 2 "c"], ?_, rfl, ?_⟩
  · exact ChunkRows.run_cons.mpr ⟨⟨rfl, rfl, rfl, rfl, rfl, by decide⟩,
      ChunkRows.run_cons.mpr ⟨⟨rfl, rfl, rfl, rfl, rfl, by decide⟩, .single _⟩⟩
  · show List.Forall₂ Shows (streamedDeltas.map Delta.event) streamedDeltas
    rw [List.forall₂_map_left_iff, List.forall₂_same]
    exact fun delta hmem => (streamedDeltas_packable delta hmem).shows

theorem streamedBatch_envelopes : ∀ event ∈ streamedBatch, Envelope event := by
  intro event hmem
  simp only [streamedBatch, streamedDeltas, List.map_cons, List.map_nil, List.mem_cons,
    List.not_mem_nil, or_false] at hmem
  have henvelope : ∀ seq text, Envelope.assertSessionEventEnvelope
      (streamedDelta seq text).event 0 = .ok () → Envelope (streamedDelta seq text).event := by
    intro seq text haccepted
    refine ⟨⟨_, rfl⟩, ?_, ⟨0, haccepted⟩, ?_⟩
    · simp [streamedDelta, Delta.event, RunKind.event, RunKind.chunk, Json.WellFormed,
        Json.WellFormedFields]
    · intro values hvalues
      have hnone : (streamedDelta seq text).event.get? "sourceEventSeqs" = none := rfl
      simp [hnone] at hvalues
  rcases hmem with rfl | rfl | rfl <;> exact henvelope _ _ (by decide)

theorem streamedBatch_records : packChunkRuns streamedBatch =
    [(rowOf (streamedDelta 0 "a") [streamedDelta 1 "b", streamedDelta 2 "c"]).toJson] := by
  have hrun : packChunkRuns streamedBatch = [] ++ emitBoundedRun .text streamedBatch := rfl
  have hdone : emitBoundedRun .text [] = [] := by rw [emitBoundedRun]
  rw [hrun, streamedBatch, streamedDeltas, List.map_cons, emitBoundedRun]
  simp only
  rw [if_neg (by decide), if_pos (by decide)]
  exact congrArg (List.cons _) hdone

theorem streamedBatch_binds :
    ∃ rows, bindRecords storedFrames (packChunkRuns streamedBatch) = .ok rows := by
  rw [streamedBatch_records, bindRecords, bindRecord_row]
  exact ⟨_, rfl⟩

theorem streamedBatch_restored :
    (∃ rows decoded, bindRecords storedFrames (packChunkRuns streamedBatch) = .ok rows ∧
      decodeRows storedFrames rows = .ok decoded ∧ SameEvents decoded streamedBatch) ∧
    ∃ decoded, decodeRecords (emitBoundedRun .text streamedBatch) = .ok decoded ∧
      SameEvents decoded streamedBatch := by
  obtain ⟨rows, hbind⟩ := streamedBatch_binds
  have hall := batch_restored_within_bounds storedFrames storedFrames_lossless
  obtain ⟨decoded, hdecoded, hsame⟩ := hall.1 streamedBatch rows streamedBatch_envelopes hbind
  exact ⟨⟨rows, decoded, hbind, hdecoded, hsame⟩,
    (hall.2 .text streamedBatch streamedBatch_whole
      fun event hmem => (streamedBatch_envelopes event hmem).lossless).2⟩

end Harness.Sqlite
