import Harness.Foundation.Lines
import Harness.Jsonl.ScanBytes
import Harness.Session.ChunkRowsSound

namespace Harness.Jsonl

open Harness.Foundation
open Harness.ChunkRows (decodeStorageRecord decodeRecords packChunkRuns seqOf IsEvent Restored
  SameEvents)

section Header

structure SessionHeader.Valid (header : SessionHeader) : Prop where
  version : header.version = sessionFormatVersion
  createdAt : isSafe header.createdAt = true
  delegationDepth : ∀ depth ∈ header.delegationDepth, isSafe (depth : Nat) = true
  origin : ∀ origin ∈ header.origin, origin = "subagent"
  cwd : ∀ cwd ∈ header.cwd, cwd.WellFormed
  parentSession : ∀ parent ∈ header.parentSession, parent.WellFormed
  seedLength : ∀ length ∈ header.seedLength, length.WellFormed

def SessionHeader.stored (header : SessionHeader) : SessionHeader :=
  { header with delegationDepth := some (header.delegationDepth.getD 0) }

def headerRecord (header : SessionHeader) : Bytes :=
  Utf8.encode (toHeaderLine header).stringify ++ [newline]

theorem nodup_headerFields (header : SessionHeader) :
    ((headerFields header).map Prod.fst).Nodup := by
  have hkeys : (headerFields header).map Prod.fst = ["type", "version", "id", "createdAt", "cwd",
      "parentSession", "seedLength", "origin", "delegationDepth", "agentPreset"] := rfl
  rw [hkeys]
  decide

theorem get?_toHeaderLine (header : SessionHeader) (key : String) :
    (toHeaderLine header).get? key = ((headerFields header).lookup key).join :=
  Json.lookup_presentFields (nodup_headerFields header) key

theorem get?_of_headerFields {header : SessionHeader} {key : String} {value : Option Json}
    (h : (headerFields header).lookup key = some value) :
    (toHeaderLine header).get? key = value := by
  rw [get?_toHeaderLine, h]
  rfl

theorem wellFormed_toHeaderLine {header : SessionHeader} (h : header.Valid) :
    (toHeaderLine header).WellFormed := by
  apply Json.wellFormed_presentFields (nodup_headerFields header)
  intro field hfield value hvalue
  simp only [headerFields, List.mem_cons, List.not_mem_nil, or_false] at hfield
  rcases hfield with rfl | rfl | rfl | rfl | rfl | rfl | rfl | rfl | rfl | rfl
  case inr.inr.inr.inr.inl => exact h.cwd value hvalue
  case inr.inr.inr.inr.inr.inl => exact h.parentSession value hvalue
  case inr.inr.inr.inr.inr.inr.inl => exact h.seedLength value hvalue
  all_goals
    simp only [Option.mem_def, Option.some.injEq, Option.map_eq_some_iff] at hvalue
    first
    | (obtain rfl := hvalue; trivial)
    | (obtain ⟨_, _, rfl⟩ := hvalue; trivial)

theorem stringField_toHeaderLine (header : SessionHeader) (key : String) (value : Option String)
    (h : (headerFields header).lookup key = some (value.map Json.str)) :
    ChunkRows.stringField (toHeaderLine header) key = value := by
  rw [ChunkRows.stringField, get?_toHeaderLine, h]
  cases value <;> rfl

theorem countOf_toHeaderLine (header : SessionHeader) (key : String) (count : Nat)
    (h : (headerFields header).lookup key = some (some (.nat count)))
    (hsafe : isSafe count = true) :
    isCount (toHeaderLine header) key = true ∧ countOf (toHeaderLine header) key = count := by
  have hcount : (Json.nat count).safeNat? = some count := Json.safeNat?_eq_some.mpr ⟨rfl, hsafe⟩
  rw [isCount, countOf, get?_toHeaderLine, h]
  simp [hcount]

theorem parseHeaderRecord_headerRecord {header : SessionHeader} (h : header.Valid) :
    parseHeaderRecord (headerRecord header) = .ok header.stored := by
  have hnewline := Utf8.newline_not_mem_stringify (toHeaderLine header)
  have hdepth : isSafe (header.delegationDepth.getD 0 : Nat) = true := by
    cases hfound : header.delegationDepth with
    | none => rfl
    | some depth => exact h.delegationDepth depth hfound
  obtain ⟨hcreated, hcreatedAt⟩ :=
    countOf_toHeaderLine header "createdAt" header.createdAt rfl h.createdAt
  obtain ⟨hdelegated, hdelegation⟩ :=
    countOf_toHeaderLine header "delegationDepth" (header.delegationDepth.getD 0) rfl hdepth
  have hversion : versionOf (toHeaderLine header) = some sessionFormatVersion := by
    rw [versionOf, get?_toHeaderLine, ← h.version]
    rfl
  have hshape : ((headerRecord header).getLast? == some newline &&
      (headerRecord header).idxOf newline == (headerRecord header).length - 1) = true := by
    simp [headerRecord, List.idxOf_append, hnewline]
  have horigin : (toHeaderLine header).get? "origin" = header.origin.map Json.str :=
    get?_of_headerFields rfl
  have hpreset : (toHeaderLine header).get? "agentPreset" = header.agentPreset.map Json.str :=
    get?_of_headerFields rfl
  have hsubagent : (header.origin.map Json.str).all (fun origin => origin == .str "subagent") =
      true := by
    cases hfound : header.origin with
    | none => rfl
    | some origin =>
      rw [h.origin origin hfound]
      rfl
  have hheader : isHeaderLine (toHeaderLine header) = true := by
    rw [isHeaderLine, hcreated, hdelegated, horigin, hpreset, hsubagent]
    cases header.agentPreset <;> rfl
  rw [parseHeaderRecord, hshape, require_true, ok_bind]
  simp only [headerRecord, List.dropLast_concat, Utf8.toText_encode,
    Json.parse_stringify (wellFormed_toHeaderLine h), expect_some, ok_bind]
  rw [refuseForeignFormatVersion, hversion]
  simp only [beq_self_eq_true, require_true, ok_bind, hheader]
  have hsandbox : (toHeaderLine header).get? "sandboxMode" = none := by
    rw [get?_toHeaderLine]
    rfl
  have happroval : (toHeaderLine header).get? "approvalPolicy" = none := by
    rw [get?_toHeaderLine]
    rfl
  have hcwd : (toHeaderLine header).get? "cwd" = header.cwd := get?_of_headerFields rfl
  have hparent : (toHeaderLine header).get? "parentSession" = header.parentSession :=
    get?_of_headerFields rfl
  have hseed : (toHeaderLine header).get? "seedLength" = header.seedLength :=
    get?_of_headerFields rfl
  have hid : ChunkRows.stringField (toHeaderLine header) "id" = some header.id :=
    stringField_toHeaderLine header "id" (some header.id) rfl
  have horiginField : ChunkRows.stringField (toHeaderLine header) "origin" = header.origin :=
    stringField_toHeaderLine header "origin" header.origin rfl
  have hpresetField :
      ChunkRows.stringField (toHeaderLine header) "agentPreset" = header.agentPreset :=
    stringField_toHeaderLine header "agentPreset" header.agentPreset rfl
  rw [fromHeaderLine, hsandbox, happroval, hversion, hid, hcreatedAt, hcwd, hparent, hseed,
    horiginField, hdelegation, hpresetField, SessionHeader.stored, ← h.version]
  rfl

end Header

def Numbered : Nat → List Json → Prop
  | _, [] => True
  | start, event :: events => event.get? "seq" = some (.nat start) ∧ Numbered (start + 1) events

theorem numbered_append {start : Nat} {front back : List Json} : Numbered start (front ++ back) ↔
    Numbered start front ∧ Numbered (start + front.length) back := by
  induction front generalizing start with
  | nil => simp [Numbered]
  | cons event front ih =>
    rw [List.cons_append, Numbered, Numbered, ih, and_assoc, List.length_cons]
    simp only [Nat.add_comm, Nat.add_left_comm]

theorem numbered_restored {start : Nat} {decoded events : List Json}
    (h : List.Forall₂ Restored decoded events) (hnumbered : Numbered start events) :
    Numbered start decoded := by
  induction h generalizing start with
  | nil => trivial
  | cons hrestored _ ih =>
    obtain ⟨hseq, hrest⟩ := hnumbered
    refine ⟨?_, ih hrest⟩
    rw [hrestored.seq, seqOf, ChunkRows.intField, hseq]
    rfl

theorem get?_of_numbered {start : Nat} {events : List Json} (h : Numbered start events) :
    ∀ event ∈ events, ∃ seq, event.get? "seq" = some (.int seq) := by
  induction events generalizing start with
  | nil => simp
  | cons event events ih =>
    intro other hother
    rcases List.mem_cons.mp hother with rfl | hmem
    · exact ⟨start, h.1⟩
    · exact ih h.2 other hmem

inductive Logged : Nat → List Json → List Json → Prop
  | nil (start : Nat) : Logged start [] []
  | cons {start : Nat} {record : Json} {records piece events : List Json} :
    record.WellFormed → decodeStorageRecord record = .ok piece → Numbered start piece →
      Logged (start + piece.length) records events →
        Logged start (record :: records) (piece ++ events)

namespace Logged

variable {start : Nat} {records events : List Json}

theorem of_decodeRecords (hrecords : ∀ record ∈ records, record.WellFormed)
    (hdecoded : decodeRecords records = .ok events) (hnumbered : Numbered start events) :
    Logged start records events := by
  induction records generalizing start events with
  | nil =>
    obtain rfl := Except.ok.inj hdecoded
    exact .nil start
  | cons record records ih =>
    obtain ⟨piece, hpiece, hrest⟩ := bind_eq_ok.mp hdecoded
    obtain ⟨others, hothers, hdone⟩ := bind_eq_ok.mp hrest
    obtain rfl := Except.ok.inj hdone
    obtain ⟨hfront, hback⟩ := numbered_append.mp hnumbered
    exact .cons (hrecords record List.mem_cons_self) hpiece hfront
      (ih (fun other hother => hrecords other (List.mem_cons_of_mem _ hother)) hothers hback)

theorem decodeRecords_eq (h : Logged start records events) :
    decodeRecords records = .ok events := by
  induction h with
  | nil start => rfl
  | cons _ hpiece _ _ ih =>
    rw [decodeRecords, hpiece, ok_bind, ih]
    rfl

theorem append {later back : List Json} (h : Logged start records events)
    (hback : Logged (start + events.length) later back) :
    Logged start (records ++ later) (events ++ back) := by
  induction h with
  | nil start => simpa using hback
  | cons hrecord hpiece hnumbered _ ih =>
    rw [List.cons_append, List.append_assoc]
    rw [List.length_append, ← Nat.add_assoc] at hback
    exact .cons hrecord hpiece hnumbered (ih hback)

theorem split {front back : List Json} (h : Logged start (front ++ back) events) :
    ∃ earlier later, events = earlier ++ later ∧ Logged start front earlier ∧
      Logged (start + earlier.length) back later := by
  induction front generalizing start events with
  | nil => exact ⟨[], events, rfl, .nil start, by simpa using h⟩
  | cons record front ih =>
    cases h with
    | cons hrecord hpiece hnumbered hrest =>
      rename_i piece events
      obtain ⟨earlier, later, rfl, hfront, hback⟩ := ih hrest
      refine ⟨piece ++ earlier, later, (List.append_assoc ..).symm,
        .cons hrecord hpiece hnumbered hfront, ?_⟩
      rw [List.length_append, ← Nat.add_assoc]
      exact hback

end Logged

section Scan

theorem pushEvents_numbered {log piece : List Json} (h : Numbered log.length piece) :
    pushEvents log piece = .ok (.inl (log ++ piece)) := by
  induction piece generalizing log with
  | nil => simp [pushEvents]
  | cons event piece ih =>
    obtain ⟨hseq, hrest⟩ := h
    have hproperty : property event "seq" = .ok (some (.nat log.length)) := by
      cases event <;> simp_all [property, Json.get?]
    have hlength : (log ++ [event]).length = log.length + 1 := by simp
    rw [pushEvents, hproperty, ok_bind, beq_self_eq_true, if_pos rfl,
      ih (by rw [hlength]; exact hrest), List.append_assoc]
    rfl

theorem decodeLine_record {record : Json} {piece : List Json} (h : record.WellFormed)
    (hpiece : decodeStorageRecord record = .ok piece) :
    decodeLine (Utf8.encode record.stringify) = some piece := by
  rw [decodeLine, Utf8.toText_encode, Json.parse_stringify h]
  simp only [hpiece]

def scanned (events : List Json) (eventLine position : Nat) : ByteScan :=
  { progress := { events, committedBytes := position, eventLine, issue := none }
    pending := [], position }

def recordLines (records : List Json) : List Bytes :=
  records.map fun record => Utf8.encode record.stringify

@[irreducible] def rowsEnd (header : SessionHeader) (records : List Json) : Nat :=
  (headerRecord header ++ frame (recordLines records)).length

theorem newline_not_mem_recordLines (records : List Json) :
    ∀ line ∈ recordLines records, newline ∉ line := by
  intro line hline
  obtain ⟨record, _, rfl⟩ := List.mem_map.mp hline
  exact Utf8.newline_not_mem_stringify record

theorem fold_logged {log records events : List Json} {eventLine position : Nat}
    (h : Logged log.length records events) :
    foldOk ByteScan.scanByte (scanned log eventLine position) (frame (recordLines records)) =
      .ok (scanned (log ++ events) (eventLine + records.length)
        (position + (frame (recordLines records)).length)) := by
  induction records generalizing log events eventLine position with
  | nil =>
    cases h
    simp [recordLines]
  | cons record records ih =>
    cases h with
    | cons hrecord hpiece hnumbered hrest =>
      rename_i piece events
      have hconsume : consumeEventLine (scanned log eventLine position).progress
          ((scanned log eventLine position).pending ++ Utf8.encode record.stringify)
          (position + (Utf8.encode record.stringify).length + 1) = .ok
            { events := log ++ piece
              committedBytes := position + (Utf8.encode record.stringify).length + 1
              eventLine := eventLine + 1, issue := none } := by
        rw [consumeEventLine]
        simp only [scanned, List.nil_append, decodeLine_record hrecord hpiece,
          pushEvents_numbered hnumbered, ok_bind]
        rfl
      have hnext : Logged (log ++ piece).length records events := by
        rw [List.length_append]
        exact hrest
      have hframe : frame (recordLines (record :: records)) =
          Utf8.encode record.stringify ++ newline :: frame (recordLines records) := by
        rw [recordLines, List.map_cons, frame_cons]
        rfl
      have hlines : eventLine + 1 + records.length = eventLine + (record :: records).length := by
        rw [List.length_cons]
        omega
      have hbytes : position + (Utf8.encode record.stringify).length + 1
          + (frame (recordLines records)).length =
            position + (frame (recordLines (record :: records))).length := by
        rw [hframe, List.length_append, List.length_cons]
        omega
      have hposition : (scanned log eventLine position).position = position := rfl
      rw [hframe, ByteScan.fold_line _ (Utf8.newline_not_mem_stringify record), hposition, hconsume,
        ok_bind, ← hframe, ← hbytes, ← hlines, ← List.append_assoc]
      exact ih hnext

theorem idxOf_newline {line rest : Bytes} (h : newline ∉ line) :
    (line ++ newline :: rest).idxOf newline = line.length := by
  rw [List.idxOf_append_of_notMem h, List.idxOf_cons_self, Nat.add_zero]

theorem scanLog_rows {header : SessionHeader} (hheader : header.Valid) {records events : List Json}
    (h : Logged 0 records events) {torn : Bytes} (htorn : newline ∉ torn) :
    scanLog (headerRecord header ++ frame (recordLines records) ++ torn) = .ok
      { header := header.stored, events, committedBytes := rowsEnd header records } := by
  have hline := Utf8.newline_not_mem_stringify (toHeaderLine header)
  have hfile : headerRecord header ++ frame (recordLines records) ++ torn =
      Utf8.encode (toHeaderLine header).stringify ++
        newline :: (frame (recordLines records) ++ torn) := by
    simp [headerRecord]
  have hindex : (headerRecord header ++ frame (recordLines records) ++ torn).idxOf newline + 1 =
      (headerRecord header).length := by
    rw [hfile, idxOf_newline hline]
    simp [headerRecord]
  have hmem : newline ∈ headerRecord header ++ frame (recordLines records) ++ torn := by
    rw [hfile]
    simp
  rw [scanLog, if_pos hmem]
  simp only [hindex]
  rw [List.append_assoc, List.take_left' rfl, List.drop_left' rfl, scanChunks_eq, parseHeaderRecord_headerRecord hheader, ok_bind, List.flatten_cons,
    List.flatten_nil, List.append_nil, foldOk_append]
  have hrows := @fold_logged [] records events 0 (headerRecord header).length h
  have hstart : ByteScan.start (headerRecord header).length =
      scanned [] 0 (headerRecord header).length := rfl
  rw [hstart, hrows, ok_bind, ByteScan.fold_fragment _ htorn, ok_bind]
  rw [List.nil_append, rowsEnd, List.length_append]
  rfl

end Scan

/-- A batch a session appends; the packing is whatever the store was configured with. -/
structure Batch where
  events : List Json
  packChunks : Bool
  nonempty : events ≠ []
  lossless : ∀ event ∈ events, IsEvent event

namespace Batch

def records (batch : Batch) : List Json :=
  if batch.packChunks then packChunkRuns batch.events else batch.events

theorem logged {start : Nat} (batch : Batch) (hnumbered : Numbered start batch.events) :
    ∃ events, Logged start batch.records events ∧ SameEvents events batch.events := by
  have huntagged : ∀ event ∈ batch.events, ChunkRows.rowTag event = none :=
    fun event hevent => (batch.lossless event hevent).untagged
  have hself : ∀ event ∈ batch.events, Restored event event := by
    intro event hevent
    obtain ⟨seq, hseq⟩ := get?_of_numbered hnumbered event hevent
    refine ⟨Json.deepEqual_refl event (batch.lossless event hevent).lossless, ?_⟩
    rw [hseq, seqOf, ChunkRows.intField, hseq]
    rfl
  have hdecoded : ∃ events, decodeRecords batch.records = .ok events ∧
      List.Forall₂ Restored events batch.events := by
    unfold records
    split
    · exact ChunkRows.decode_packChunkRuns (fun _ _ hevent => hevent.restored) huntagged hself
    · exact ⟨batch.events, ChunkRows.decodeRecords_events huntagged, List.forall₂_same.mpr hself⟩
  have hrecords : ∀ record ∈ batch.records, record.WellFormed := by
    have hevents : ∀ event ∈ batch.events, event.WellFormed :=
      fun event hevent => (batch.lossless event hevent).lossless
    unfold records
    split
    · exact ChunkRows.wellFormed_packChunkRuns hevents
    · exact hevents
  obtain ⟨events, hevents, hrestored⟩ := hdecoded
  exact ⟨events, .of_decodeRecords hrecords hevents (numbered_restored hrestored hnumbered),
    hrestored.imp fun _ _ hevent => hevent.same⟩

theorem records_ne_nil {start : Nat} (batch : Batch) (hnumbered : Numbered start batch.events) :
    batch.records ≠ [] := by
  intro hnil
  obtain ⟨events, hlogged, hsame⟩ := batch.logged hnumbered
  rw [hnil] at hlogged
  cases hlogged
  exact batch.nonempty (List.forall₂_nil_left_iff.mp hsame)

theorem encode {start : Nat} (batch : Batch) (hnumbered : Numbered start batch.events) :
    encodeEventBatch batch.events batch.packChunks = frame (recordLines batch.records) := by
  have hne : batch.records.map Json.stringify ≠ [] := by
    simpa using batch.records_ne_nil hnumbered
  have hlines := encode_joined hne
  rw [List.map_map] at hlines
  exact hlines

end Batch

def logFile (header : SessionHeader) : List Batch → Bytes
  | [] => []
  | first :: rest =>
    rest.foldl (fun file batch => appendBatch file header batch.events true batch.packChunks)
      (appendBatch [] header first.events false first.packChunks)

section Files

variable {header : SessionHeader} {start : Nat}

theorem recordLines_append (front back : List Json) :
    recordLines (front ++ back) = recordLines front ++ recordLines back := List.map_append

theorem encodeMaterialization_eq (events : List Json) (packChunks : Bool) :
    encodeMaterialization header events packChunks =
      headerRecord header ++ encodeEventBatch events packChunks := by
  have hnewline : Utf8.encode "\n" = [newline] := by decide
  rw [encodeMaterialization, Utf8.encode_append, Utf8.encode_append, hnewline]
  rfl

theorem foldl_appendBatch {batches : List Batch}
    (hnumbered : Numbered start (batches.flatMap Batch.events)) (file : Bytes) :
    batches.foldl (fun file batch => appendBatch file header batch.events true batch.packChunks)
      file = file ++ frame (recordLines (batches.flatMap Batch.records)) := by
  induction batches generalizing start file with
  | nil => simp [recordLines]
  | cons batch batches ih =>
    rw [List.flatMap_cons] at hnumbered
    obtain ⟨hfront, hback⟩ := numbered_append.mp hnumbered
    rw [List.foldl_cons, ih hback, appendBatch, if_pos rfl, batch.encode hfront, List.flatMap_cons,
      recordLines_append, frame_append, List.append_assoc]

theorem logFile_eq {batches : List Batch} (hne : batches ≠ [])
    (hnumbered : Numbered 0 (batches.flatMap Batch.events)) : logFile header batches =
      headerRecord header ++ frame (recordLines (batches.flatMap Batch.records)) := by
  cases batches with
  | nil => exact absurd rfl hne
  | cons first rest =>
    rw [List.flatMap_cons] at hnumbered
    obtain ⟨hfront, hback⟩ := numbered_append.mp hnumbered
    rw [logFile, foldl_appendBatch hback, appendBatch, if_neg (by simp), encodeMaterialization_eq,
      first.encode hfront, List.flatMap_cons, recordLines_append, frame_append, List.append_assoc]

theorem logged_batches {batches : List Batch}
    (hnumbered : Numbered start (batches.flatMap Batch.events)) :
    ∃ events, Logged start (batches.flatMap Batch.records) events ∧
      SameEvents events (batches.flatMap Batch.events) := by
  induction batches generalizing start with
  | nil => exact ⟨[], .nil start, .nil⟩
  | cons batch batches ih =>
    rw [List.flatMap_cons] at hnumbered
    obtain ⟨hfront, hback⟩ := numbered_append.mp hnumbered
    obtain ⟨front, hlogged, hsame⟩ := batch.logged hfront
    rw [← hsame.length_eq] at hback
    obtain ⟨back, hloggedBack, hsameBack⟩ := ih hback
    exact ⟨front ++ back, hlogged.append hloggedBack, hsame.append hsameBack⟩

end Files

def tornMarker (scan : SessionLogScan) (buffer : Bytes) : Option Nat :=
  if scan.committedBytes < buffer.length then some scan.committedBytes else none

theorem commitRepair_eq {scan : SessionLogScan} {file : Bytes} (batch : Batch)
    (hcommitted : scan.committedBytes ≤ file.length) :
    commitRepair file (tornMarker scan file) batch.events batch.packChunks =
      file.take scan.committedBytes ++ encodeEventBatch batch.events batch.packChunks := by
  have hempty : batch.events.isEmpty = false := by
    simpa using batch.nonempty
  unfold commitRepair tornMarker
  simp only [hempty, Bool.false_eq_true, if_false]
  by_cases htorn : scan.committedBytes < file.length
  · rw [if_pos htorn]
  · rw [if_neg htorn, List.take_of_length_le (by omega)]

theorem append_continues {header : SessionHeader} (hheader : header.Valid)
    {records events : List Json} (h : Logged 0 records events) (torn : Bytes)
    {scan : SessionLogScan} (hscanHeader : scan.header = header.stored)
    (hevents : scan.events = events) (hcommitted : scan.committedBytes = rowsEnd header records)
    (batch : Batch) (hnumbered : Numbered events.length batch.events) :
    ∃ appended repaired, SameEvents appended batch.events ∧
      repaired = (headerRecord header ++ frame (recordLines records) ++ torn).take
        scan.committedBytes ++ encodeEventBatch batch.events batch.packChunks ∧
      commitRepair (headerRecord header ++ frame (recordLines records) ++ torn)
        (tornMarker scan (headerRecord header ++ frame (recordLines records) ++ torn))
        batch.events batch.packChunks = repaired ∧
      scanLog repaired = .ok
        { header := scan.header, events := scan.events ++ appended
          committedBytes := repaired.length } := by
  obtain ⟨appended, hbatch, hbatchSame⟩ := batch.logged hnumbered
  have hwhole : Logged 0 (records ++ batch.records) (events ++ appended) :=
    h.append (by rwa [Nat.zero_add])
  have hnil : newline ∉ ([] : Bytes) := by simp
  have hrepaired := scanLog_rows hheader hwhole hnil
  have hfits : scan.committedBytes ≤
      (headerRecord header ++ frame (recordLines records) ++ torn).length := by
    rw [hcommitted, rowsEnd]
    simp only [List.length_append]
    omega
  have htruncated : (headerRecord header ++ frame (recordLines records) ++ torn).take
      scan.committedBytes = headerRecord header ++ frame (recordLines records) := by
    rw [hcommitted, rowsEnd, List.take_left]
  have hwritten : headerRecord header ++ frame (recordLines (records ++ batch.records)) =
      headerRecord header ++ frame (recordLines records)
        ++ encodeEventBatch batch.events batch.packChunks := by
    rw [batch.encode hnumbered, recordLines_append, frame_append, List.append_assoc]
  refine ⟨appended, headerRecord header ++ frame (recordLines records)
    ++ encodeEventBatch batch.events batch.packChunks, hbatchSame, ?_, ?_, ?_⟩
  · rw [htruncated]
  · rw [commitRepair_eq batch hfits, htruncated]
  · rw [List.append_nil, hwritten] at hrepaired
    rw [hrepaired, hscanHeader, hevents, rowsEnd, hwritten]

/-- A truncated log scans to the rows it still holds, appending there continues them, and the
scanner does not see how its input is split. -/
theorem log_recovers_whole_rows (header : SessionHeader) (hheader : header.Valid)
    (batches : List Batch) (hne : batches ≠ [])
    (hnumbered : Numbered 0 (batches.flatMap Batch.events)) :
    (∀ n, (headerRecord header).length ≤ n → ∃ k scan,
      k ≤ (batches.flatMap Batch.records).length ∧
      rowsEnd header ((batches.flatMap Batch.records).take k) ≤ n ∧
      (k = (batches.flatMap Batch.records).length ∨
        n < rowsEnd header ((batches.flatMap Batch.records).take (k + 1))) ∧
      scanLog ((logFile header batches).take n) = .ok scan ∧ scan.header = header.stored ∧
      decodeRecords ((batches.flatMap Batch.records).take k) = .ok scan.events ∧
      SameEvents scan.events ((batches.flatMap Batch.events).take scan.events.length) ∧
      scan.committedBytes = rowsEnd header ((batches.flatMap Batch.records).take k) ∧
      ∀ batch : Batch, Numbered scan.events.length batch.events → ∃ appended repaired,
        SameEvents appended batch.events ∧
        repaired = ((logFile header batches).take n).take scan.committedBytes
          ++ encodeEventBatch batch.events batch.packChunks ∧
        commitRepair ((logFile header batches).take n)
          (tornMarker scan ((logFile header batches).take n)) batch.events batch.packChunks =
            repaired ∧
        scanLog repaired = .ok
          { header := scan.header, events := scan.events ++ appended
            committedBytes := repaired.length }) ∧
    ∀ (headerRecord : Bytes) (chunks chunks' : List Bytes), chunks.flatten = chunks'.flatten →
      scanChunks headerRecord chunks = scanChunks headerRecord chunks' := by
  refine ⟨?_, fun headerRecord chunks chunks' hflatten => by
    rw [scanChunks_eq, scanChunks_eq, hflatten]⟩
  intro n hn
  obtain ⟨events, hlogged, hsame⟩ := logged_batches hnumbered
  rw [logFile_eq hne hnumbered]
  generalize batches.flatMap Batch.records = records at hlogged
  generalize batches.flatMap Batch.events = logEvents at hsame
  obtain ⟨k, torn, hk, htake, htorn, hle, hlast⟩ :=
    take_frame (newline_not_mem_recordLines records) (n - (headerRecord header).length)
  have hlines : (recordLines records).length = records.length := List.length_map ..
  have htakeLines : ∀ m, (recordLines records).take m = recordLines (records.take m) :=
    fun m => List.map_take.symm
  rw [hlines] at hk hlast
  simp only [htakeLines] at htake hle hlast
  have hfile : (headerRecord header ++ frame (recordLines records)).take n =
      headerRecord header ++ frame (recordLines (records.take k)) ++ torn := by
    rw [List.take_append, List.take_of_length_le hn, htake, List.append_assoc]
  rw [← List.take_append_drop k records] at hlogged
  obtain ⟨earlier, later, rfl, hearlier, _⟩ := hlogged.split
  obtain ⟨scan, hscan, hscanHeader, hevents, hcommitted⟩ : ∃ scan,
      scanLog (headerRecord header ++ frame (recordLines (records.take k)) ++ torn) = .ok scan ∧
        scan.header = header.stored ∧ scan.events = earlier ∧
        scan.committedBytes = rowsEnd header (records.take k) :=
    ⟨{ header := header.stored
       events := earlier
       committedBytes := rowsEnd header (records.take k) },
      scanLog_rows hheader hearlier htorn, rfl, rfl, rfl⟩
  rw [hfile]
  refine ⟨k, scan, hk, ?_, ?_, hscan, hscanHeader, ?_, ?_, hcommitted, ?_⟩
  · rw [rowsEnd, List.length_append]
    omega
  · refine hlast.imp id fun hlt => ?_
    rw [rowsEnd, List.length_append]
    omega
  · rw [hevents]
    exact hearlier.decodeRecords_eq
  · have := List.forall₂_take earlier.length hsame
    rwa [List.take_left' rfl, ← hevents] at this
  · intro batch hcontinues
    rw [hevents] at hcontinues
    exact append_continues hheader hearlier torn hscanHeader hevents hcommitted batch hcontinues

def plainHeader : SessionHeader where
  version := sessionFormatVersion
  id := "session"
  createdAt := 0
  cwd := none
  parentSession := none
  seedLength := none
  origin := none
  delegationDepth := none
  agentPreset := none

theorem plainHeader_valid : plainHeader.Valid := by
  refine ⟨rfl, rfl, ?_, ?_, ?_, ?_, ?_⟩ <;> simp [plainHeader]

def turnBatch : Batch where
  events := [.obj [("type", .str "turn/start"), ("seq", .nat 0), ("time", .nat 0),
    ("data", .obj [("turn", .nat 1)])]]
  packChunks := true
  nonempty := by simp
  lossless := by
    intro event hevent
    rw [List.mem_singleton] at hevent
    subst hevent
    exact ⟨⟨_, rfl⟩, by simp [Json.WellFormed, Json.WellFormedFields], rfl⟩

theorem turnLog_recovers : ∃ k scan,
    rowsEnd plainHeader ([turnBatch].flatMap Batch.records |>.take k) ≤
      (headerRecord plainHeader).length + 3 ∧
    scanLog ((logFile plainHeader [turnBatch]).take ((headerRecord plainHeader).length + 3)) =
      .ok scan ∧
    scan.committedBytes = rowsEnd plainHeader ([turnBatch].flatMap Batch.records |>.take k) := by
  obtain ⟨k, scan, _, hle, _, hscan, _, _, _, hcommitted, _⟩ :=
    (log_recovers_whole_rows plainHeader plainHeader_valid [turnBatch] (by simp)
      ⟨rfl, trivial⟩).1 ((headerRecord plainHeader).length + 3) (by omega)
  exact ⟨k, scan, hle, hscan, hcommitted⟩

end Harness.Jsonl
