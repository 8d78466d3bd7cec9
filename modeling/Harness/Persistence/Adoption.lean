import Harness.Persistence.KeyOrder
import Harness.Persistence.MigrationSound
import Harness.Sqlite.StoreSound
import Harness.Jsonl.LogSound

namespace Harness.Persistence

open Harness.Foundation
open Harness.ChunkRows (DeltaKind Delta Shows rowTag buildRow emitRun Segment IsEvent decodeRecords)

def seedCoversPrefix (seed stored : List Json) : Bool :=
  decide (stored.length ≤ seed.length) && stored.zipIdx.all fun entry =>
    seed[entry.2]?.any fun seedEvent => seedEvent.stringify == entry.1.stringify

theorem seedCoversPrefix_iff {seed stored : List Json} : seedCoversPrefix seed stored = true ↔
    stored.map Json.stringify <+: seed.map Json.stringify := by
  rw [seedCoversPrefix, Bool.and_eq_true, decide_eq_true_iff, List.all_eq_true,
    List.prefix_iff_getElem?]
  constructor
  · intro h i hi
    rw [List.length_map] at hi
    have hall := h.2 (stored[i], i) (List.mem_zipIdx_iff_getElem?.mpr (by simp [hi]))
    rw [List.getElem?_map, List.getElem_map]
    cases hseed : seed[i]? with
    | none => simp [hseed] at hall
    | some seedEvent => simpa [hseed] using hall
  · intro h
    constructor
    · by_contra hlt
      have hi : seed.length < (stored.map Json.stringify).length := by simpa using hlt
      have hget := h seed.length hi
      simp at hget
    · intro entry hentry
      obtain ⟨event, i⟩ := entry
      have hevent := List.mem_zipIdx_iff_getElem?.mp hentry
      obtain ⟨hi, hfound⟩ := List.getElem?_eq_some_iff.mp hevent
      have hget := h i (by simpa using hi)
      rw [List.getElem?_map, List.getElem_map] at hget
      cases hseed : seed[i]? with
      | none => simp [hseed] at hget
      | some seedEvent =>
        rw [hseed] at hget
        have hsame : stored[i] = event := hfound
        simpa [hseed, hsame] using hget

theorem stringify_injective {a b : Json} (ha : a.WellFormed) (hb : b.WellFormed)
    (h : a.stringify = b.stringify) : a = b := by
  have hparse := Json.parse_stringify ha
  rw [h, Json.parse_stringify hb] at hparse
  exact (Option.some.inj hparse).symm

theorem map_stringify_injective {as bs : List Json} (has : ∀ a ∈ as, a.WellFormed)
    (hbs : ∀ b ∈ bs, b.WellFormed) (h : as.map Json.stringify = bs.map Json.stringify) :
    as = bs := by
  induction as generalizing bs with
  | nil =>
    rw [List.map_nil, eq_comm, List.map_eq_nil_iff] at h
    exact h.symm
  | cons a as ih =>
    cases bs with
    | nil => simp at h
    | cons b bs =>
      rw [List.map_cons, List.map_cons, List.cons.injEq] at h
      rw [List.forall_mem_cons] at has hbs
      rw [stringify_injective has.1 hbs.1 h.1, ih has.2 hbs.2 h.2]

theorem seedCoversPrefix_eq {live tail stored : List Json} (hlength : stored.length = live.length)
    (hlive : ∀ event ∈ live, event.WellFormed) (hstored : ∀ event ∈ stored, event.WellFormed) :
    seedCoversPrefix (live ++ tail) stored = true ↔ stored = live := by
  rw [seedCoversPrefix_iff, List.map_append]
  constructor
  · intro h
    have htexts : (live.map Json.stringify).length = (stored.map Json.stringify).length := by
      simp [hlength]
    have htake := List.prefix_iff_eq_take.mp h
    rw [List.take_left' htexts] at htake
    exact map_stringify_injective hstored hlive htake
  · intro h
    rw [h]
    exact List.prefix_append _ _

section Kept

/-- What a store gives back for an event: what it reads off a record of its own, or what the
expansion of a row makes of it. -/
def Kept (verbatim : Json → Json) (records : List Json) (stored event : Json) : Prop :=
  event ∈ records ∧ stored = verbatim event ∨
    event ∉ records ∧ ∃ delta, Shows event delta ∧ stored = delta.event

def KeepsOrder (verbatim : Json → Json) (records : List Json) (event : Json) : Prop :=
  if event ∈ records then verbatim event = event else inRowOrder event = true

variable {verbatim : Json → Json} {records records' events events' stored stored' : List Json}

theorem Kept.eq_iff {restored event : Json} (h : Kept verbatim records restored event) :
    restored = event ↔ KeepsOrder verbatim records event := by
  unfold KeepsOrder
  cases h with
  | inl hplain => rw [if_pos hplain.1, hplain.2]
  | inr hpacked =>
    obtain ⟨hnot, delta, hshows, rfl⟩ := hpacked
    rw [if_neg hnot, ← eq_event_iff hshows, eq_comm]

theorem kept_eq_iff (h : List.Forall₂ (Kept verbatim records) stored events) :
    stored = events ↔ ∀ event ∈ events, KeepsOrder verbatim records event := by
  induction h with
  | nil => simp
  | cons hhead _ ih => rw [List.cons.injEq, List.forall_mem_cons, hhead.eq_iff, ih]

/-- A list of records written for a list of events, and what is read back of it. -/
structure Holds (verbatim : Json → Json) (records stored events : List Json) : Prop where
  kept : List.Forall₂ (Kept verbatim records) stored events
  drawn : ∀ record ∈ records, record ∈ events ∨ (rowTag record).isSome = true
  untagged : ∀ event ∈ events, rowTag event = none

theorem Holds.nil : Holds verbatim [] [] [] := ⟨.nil, by simp, by simp⟩

theorem Kept.extend {restored event : Json} (h : Kept verbatim records restored event)
    (hsub : ∀ record ∈ records, record ∈ records') (hnew : event ∈ records' → event ∈ records) :
    Kept verbatim records' restored event :=
  h.imp (fun hplain => ⟨hsub event hplain.1, hplain.2⟩)
    fun hpacked => ⟨fun hmem => hpacked.1 (hnew hmem), hpacked.2⟩

theorem Holds.not_drawn (h : Holds verbatim records stored events) {event : Json}
    (huntagged : rowTag event = none) (hnot : event ∉ events) : event ∉ records := by
  intro hmem
  cases h.drawn event hmem with
  | inl hevent => exact hnot hevent
  | inr htagged => simp [huntagged] at htagged

theorem forall₂_kept_extend {events : List Json}
    (h : List.Forall₂ (Kept verbatim records) stored events)
    (hsub : ∀ record ∈ records, record ∈ records')
    (hnew : ∀ event ∈ events, event ∈ records' → event ∈ records) :
    List.Forall₂ (Kept verbatim records') stored events := by
  induction h with
  | nil => exact .nil
  | cons hhead _ ih =>
    rw [List.forall_mem_cons] at hnew
    exact .cons (hhead.extend hsub hnew.1) (ih hnew.2)

theorem Holds.append (h : Holds verbatim records stored events)
    (h' : Holds verbatim records' stored' events') (hnodup : (events ++ events').Nodup) :
    Holds verbatim (records ++ records') (stored ++ stored') (events ++ events') := by
  have hdisjoint := List.disjoint_of_nodup_append hnodup
  refine ⟨List.rel_append ?_ ?_, ?_, ?_⟩
  · refine forall₂_kept_extend h.kept (fun record hmem => List.mem_append_left _ hmem) ?_
    intro event hevent hmem
    exact (List.mem_append.mp hmem).resolve_right
      (h'.not_drawn (h.untagged event hevent) (hdisjoint hevent))
  · refine forall₂_kept_extend h'.kept (fun record hmem => List.mem_append_right _ hmem) ?_
    intro event hevent hmem
    exact (List.mem_append.mp hmem).resolve_left
      (h.not_drawn (h'.untagged event hevent) fun hfront => hdisjoint hfront hevent)
  · intro record hmem
    cases List.mem_append.mp hmem with
    | inl hfront => exact (h.drawn record hfront).imp_left (List.mem_append_left _)
    | inr hback => exact (h'.drawn record hback).imp_left (List.mem_append_right _)
  · intro event hmem
    cases List.mem_append.mp hmem with
    | inl hfront => exact h.untagged event hfront
    | inr hback => exact h'.untagged event hback

theorem Holds.plain (huntagged : ∀ event ∈ events, rowTag event = none) :
    Holds verbatim events (events.map verbatim) events := by
  refine ⟨?_, fun record hmem => .inl hmem, huntagged⟩
  rw [List.forall₂_map_left_iff, List.forall₂_same]
  exact fun event hmem => .inl ⟨hmem, rfl⟩

theorem not_mem_row {kind : DeltaKind} {row : Json} (htag : rowTag row = some kind) {event : Json}
    (huntagged : rowTag event = none) : event ∉ [row] := by
  rw [List.mem_singleton]
  intro heq
  rw [heq, htag] at huntagged
  simp at huntagged

theorem Holds.row {kind : DeltaKind} {row : Json} (htag : rowTag row = some kind)
    {deltas : List Delta} (hshows : List.Forall₂ Shows events deltas) :
    Holds verbatim [row] (deltas.map Delta.event) events := by
  have huntagged : ∀ event ∈ events, rowTag event = none := by
    intro event hmem
    obtain ⟨i, hi, rfl⟩ := List.mem_iff_getElem.mp hmem
    exact Sqlite.rowTag_of_shows (hshows.get hi (hshows.length_eq ▸ hi))
  refine ⟨?_, ?_, huntagged⟩
  · clear huntagged
    induction hshows with
    | nil => exact .nil
    | cons hhead _ ih =>
      exact .cons (.inr ⟨not_mem_row htag (Sqlite.rowTag_of_shows hhead), _, hhead, rfl⟩) ih
  · intro record hmem
    rw [List.mem_singleton] at hmem
    rw [hmem, htag]
    exact .inr rfl

end Kept

section Current

variable {event : Json} {events : List Json} {id : String}

structure Current (event : Json) : Prop where
  untagged : rowTag event = none
  headerDelta : hasType event "request/header-delta" = false
  modeSet : hasType event "mode/set" = false
  steering : hasType event "steering/message" = false
  header : isFallback event = .ok false
  turnStart : hasType event "turn/start" = true → ∀ data, dataRecord event = some data →
    Json.hasOwn data "trigger" = false
  turnEnd : hasType event "turn/end" = true → ∃ data, dataRecord event = some data ∧ IsCurrentEnd data
  message : ∀ subject, assertMessageEventShape event subject = .ok ()

theorem Current.supported (h : Current event) : Supported event :=
  ⟨h.headerDelta, h.modeSet, h.header⟩

theorem Current.settled (h : Current event) : Settled event id := by
  intro messageIds
  cases hstart : hasType event "turn/start" with
  | true =>
    rw [migrateLegacyEvent_turnStart hstart]
    cases hdata : dataRecord event with
    | none => simp [migrateLegacyTurnStartEvent, hdata]
    | some data => exact migrateLegacyTurnStartEvent_of_fields hdata (h.turnStart hstart data hdata)
  | false =>
    cases hend : hasType event "turn/end" with
    | true =>
      obtain ⟨data, hdata, hcurrent⟩ := h.turnEnd hend
      rw [migrateLegacyEvent_turnEnd hend, migrateLegacyTurnEndEvent_of_current hdata hcurrent]
    | false =>
      rw [migrateLegacyEvent_other hstart hend h.steering,
        migrateLegacyMessageEvent_of_shape (h.message "")]

theorem Current.adopted (h : Current event) : adoptSessionEvent event = .ok event :=
  adoptSessionEvent_eq_ok.mpr ⟨h.message _, rfl⟩

theorem current_chunk (htype : event.get? "type" = some (.str "assistant/chunk")) :
    Current event := by
  have hne : ∀ type, "assistant/chunk" ≠ type → hasType event type = false :=
    fun type hne => hasType_ne (hasType_iff.mpr htype) hne
  have hmessage : isMessageType event = false :=
    isMessageType_ne (hasType_iff.mpr htype) (by decide)
  refine
    { untagged := by rw [rowTag, htype]; rfl
      headerDelta := hne _ (by decide)
      modeSet := hne _ (by decide)
      steering := hne _ (by decide)
      header := by simp [isFallback, hne "request/header" (by decide)]
      turnStart := fun hstart => ?_
      turnEnd := fun hend => ?_
      message := fun subject => by simp [assertMessageEventShape, hmessage] }
  · rw [hne "turn/start" (by decide)] at hstart
    simp at hstart
  · rw [hne "turn/end" (by decide)] at hend
    simp at hend

theorem Current.congr {other : Json} (h : Current event)
    (htype : other.get? "type" = event.get? "type") (hdata : other.get? "data" = event.get? "data") :
    Current other := by
  have htypes : ∀ type, hasType other type = hasType event type := fun type => by
    rw [hasType, hasType, htype]
  have hrecord : dataRecord other = dataRecord event := by rw [dataRecord, dataRecord, hdata]
  refine
    { untagged := by rw [rowTag, htype]; exact h.untagged
      headerDelta := by rw [htypes]; exact h.headerDelta
      modeSet := by rw [htypes]; exact h.modeSet
      steering := by rw [htypes]; exact h.steering
      header := by rw [isFallback, htypes, hdata]; exact h.header
      turnStart := by rw [htypes, hrecord]; exact h.turnStart
      turnEnd := by rw [htypes, hrecord]; exact h.turnEnd
      message := fun subject => ?_ }
  have hmessage := h.message subject
  simp only [assertMessageEventShape, isMessageType, messageOf, htypes, hdata] at hmessage ⊢
  exact hmessage

theorem snapshotStoredEvents_current (h : ∀ event ∈ events, Current event) :
    snapshotStoredEvents events id = .ok events :=
  snapshotStoredEvents_of_settled (fun event hevent => (h event hevent).supported)
    (fun event hevent => (h event hevent).settled) fun event hevent => (h event hevent).adopted

def coversStored (seed stored : List Json) (id : String) : Except String Bool :=
  (snapshotStoredEvents stored id).map (seedCoversPrefix seed)

theorem coversStored_iff {live tail stored : List Json} (hlength : stored.length = live.length)
    (hlive : ∀ event ∈ live, event.WellFormed) (hstored : ∀ event ∈ stored, event.WellFormed)
    (hcurrent : ∀ event ∈ stored, Current event) :
    coversStored (live ++ tail) stored id = .ok true ↔ stored = live := by
  rw [coversStored, snapshotStoredEvents_current hcurrent, Except.map,
    ← @seedCoversPrefix_eq live tail stored hlength hlive hstored]
  simp

end Current

section Files

open Harness.Jsonl (Batch Numbered numbered_append logFile logFile_eq scanLog scanLog_rows
  logged_batches)

variable {events : List Json} {batches : List Batch} {start : Nat}

theorem wellFormed_event (delta : Delta) : delta.event.WellFormed := by
  have hchunk : (delta.kind.chunk delta.index delta.payload).WellFormed := by
    cases delta.kind with
    | text => simp [ChunkRows.RunKind.chunk, Json.WellFormed, Json.WellFormedFields]
    | reasoning => simp [ChunkRows.RunKind.chunk, Json.WellFormed, Json.WellFormedFields]
    | toolCall id name =>
      cases name <;>
        simp [ChunkRows.RunKind.chunk, Json.WellFormed, Json.WellFormedFields, Json.optionalField]
  simp [Delta.event, ChunkRows.RunKind.event, Json.WellFormed, Json.WellFormedFields, hchunk]

/-- What holds of the stored form of every event and of every expanded delta holds of all that
is given back. -/
theorem forall_kept {P : Json → Prop} {verbatim : Json → Json} {records stored : List Json}
    (h : List.Forall₂ (Kept verbatim records) stored events)
    (hverbatim : ∀ event ∈ events, P (verbatim event)) (hdelta : ∀ delta : Delta, P delta.event) :
    ∀ event ∈ stored, P event := by
  induction h with
  | nil => simp
  | cons hhead _ ih =>
    rw [List.forall_mem_cons] at hverbatim ⊢
    refine ⟨?_, ih hverbatim.2⟩
    cases hhead with
    | inl hplain => rw [hplain.2]; exact hverbatim.1
    | inr hpacked =>
      obtain ⟨_, delta, _, rfl⟩ := hpacked
      exact hdelta delta

theorem current_delta (delta : Delta) : Current delta.event := current_chunk (ChunkRows.event_type delta)

theorem holds_segment {segment : Segment} (h : segment.Whole)
    (huntagged : ∀ event ∈ segment.events, rowTag event = none) : ∃ stored,
      decodeRecords (segment.rows emitRun) = .ok stored ∧
        Holds id (segment.rows emitRun) stored segment.events := by
  have hplain : ∀ events : List Json, (∀ event ∈ events, rowTag event = none) →
      ∃ stored, decodeRecords events = .ok stored ∧ Holds id events stored events := by
    intro events huntagged
    refine ⟨events, ChunkRows.decodeRecords_events huntagged, ?_⟩
    have hplain := @Holds.plain id events huntagged
    rwa [List.map_id] at hplain
  cases segment with
  | verbatim event => exact hplain [event] huntagged
  | run kind events =>
    simp only [Segment.rows, Segment.events, emitRun] at huntagged ⊢
    split
    · obtain ⟨first, rest, hrun, rfl, hshows⟩ := h
      rw [ChunkRows.buildRow_eq hrun hshows]
      refine ⟨(first :: rest).map Delta.event, ?_, .row (ChunkRows.rowTag_toJson _) hshows⟩
      rw [decodeRecords, hrun.decode (ChunkRows.packable_of_shows hshows)]
      simp [decodeRecords]
    · exact hplain events huntagged

theorem holds_segments {segments : List Segment} (h : ∀ segment ∈ segments, segment.Whole)
    (huntagged : ∀ event ∈ segments.flatMap Segment.events, rowTag event = none)
    (hnodup : (segments.flatMap Segment.events).Nodup) : ∃ stored,
      decodeRecords (segments.flatMap (Segment.rows emitRun)) = .ok stored ∧
        Holds id (segments.flatMap (Segment.rows emitRun)) stored
          (segments.flatMap Segment.events) := by
  induction segments with
  | nil => exact ⟨[], rfl, .nil⟩
  | cons segment segments ih =>
    rw [List.flatMap_cons, List.forall_mem_append] at huntagged
    rw [List.flatMap_cons] at hnodup
    rw [List.forall_mem_cons] at h
    obtain ⟨front, hfront, hfrontHolds⟩ := holds_segment h.1 huntagged.1
    obtain ⟨back, hback, hbackHolds⟩ := ih h.2 huntagged.2 hnodup.of_append_right
    refine ⟨front ++ back, ?_, hfrontHolds.append hbackHolds hnodup⟩
    rw [List.flatMap_cons, ChunkRows.decodeRecords_append, hfront, hback]
    rfl

theorem numbered_seq (h : Numbered start events) :
    ∀ event ∈ events, ∃ seq, start ≤ seq ∧ event.get? "seq" = some (.nat seq) := by
  induction events generalizing start with
  | nil => simp
  | cons event events ih =>
    rw [List.forall_mem_cons]
    refine ⟨⟨start, Nat.le_refl start, h.1⟩, fun other hother => ?_⟩
    obtain ⟨seq, hle, hseq⟩ := ih h.2 other hother
    exact ⟨seq, Nat.le_of_succ_le hle, hseq⟩

theorem numbered_nodup (h : Numbered start events) : events.Nodup := by
  induction events generalizing start with
  | nil => exact .nil
  | cons event events ih =>
    rw [List.nodup_cons]
    refine ⟨fun hmem => ?_, ih h.2⟩
    obtain ⟨seq, hle, hseq⟩ := numbered_seq h.2 event hmem
    rw [h.1] at hseq
    injection hseq with hseq
    injection hseq with hseq
    injection hseq with hseq
    omega

theorem holds_batch (batch : Batch) (hnumbered : Numbered start batch.events) : ∃ stored,
    decodeRecords batch.records = .ok stored ∧
      List.Forall₂ (Kept id batch.records) stored batch.events := by
  have huntagged : ∀ event ∈ batch.events, rowTag event = none :=
    fun event hevent => (batch.lossless event hevent).untagged
  unfold Batch.records
  split
  · obtain ⟨segments, hwhole, hout, hevents⟩ :=
      ChunkRows.packRuns_segments emitRun batch.events
    rw [ChunkRows.packChunkRuns, hout]
    rw [← hevents] at huntagged ⊢
    have hnodup := numbered_nodup hnumbered
    rw [← hevents] at hnodup
    obtain ⟨stored, hstored, hholds⟩ := holds_segments hwhole huntagged hnodup
    exact ⟨stored, hstored, hholds.kept⟩
  · refine ⟨batch.events, ChunkRows.decodeRecords_events huntagged, ?_⟩
    have hplain := @Holds.plain id batch.events huntagged
    rw [List.map_id] at hplain
    exact hplain.kept

def KeepsKeys (batches : List Batch) : Prop :=
  ∀ batch ∈ batches, ∀ event ∈ batch.events, event ∉ batch.records → inRowOrder event = true

theorem keepsOrder_id {records : List Json} {event : Json} :
    KeepsOrder id records event ↔ (event ∉ records → inRowOrder event = true) := by
  unfold KeepsOrder
  by_cases hmem : event ∈ records <;> simp [hmem]

structure GivenBack (stored events : List Json) (unchanged : Prop) : Prop where
  length : stored.length = events.length
  lossless : ∀ event ∈ stored, event.WellFormed
  current : ∀ event ∈ stored, Current event
  unchanged : stored = events ↔ unchanged

theorem stored_batches (hnumbered : Numbered start (batches.flatMap Batch.events))
    (hcurrent : ∀ event ∈ batches.flatMap Batch.events, Current event) : ∃ stored,
    decodeRecords (batches.flatMap Batch.records) = .ok stored ∧
      GivenBack stored (batches.flatMap Batch.events) (KeepsKeys batches) := by
  induction batches generalizing start with
  | nil => exact ⟨[], rfl, rfl, by simp, by simp, by simp [KeepsKeys]⟩
  | cons batch batches ih =>
    rw [List.flatMap_cons] at hnumbered
    rw [List.flatMap_cons, List.forall_mem_append] at hcurrent
    obtain ⟨hfront, hback⟩ := numbered_append.mp hnumbered
    obtain ⟨front, hdecodeFront, hkept⟩ := holds_batch batch hfront
    obtain ⟨back, hdecodeBack, hlength, hwellFormed, hcurrentBack, hiff⟩ := ih hback hcurrent.2
    refine ⟨front ++ back, ?_, ?_, ?_, ?_, ?_⟩
    · rw [List.flatMap_cons, ChunkRows.decodeRecords_append, hdecodeFront, hdecodeBack]
      rfl
    · rw [List.flatMap_cons, List.length_append, List.length_append, hkept.length_eq, hlength]
    · rw [List.forall_mem_append]
      exact ⟨forall_kept hkept (fun event hevent => (batch.lossless event hevent).lossless)
        wellFormed_event, hwellFormed⟩
    · rw [List.forall_mem_append]
      exact ⟨forall_kept hkept hcurrent.1 current_delta, hcurrentBack⟩
    · have hbatch : front = batch.events ↔ ∀ event ∈ batch.events, event ∉ batch.records →
          inRowOrder event = true := by
        rw [kept_eq_iff hkept]
        simp only [keepsOrder_id]
      rw [List.flatMap_cons, KeepsKeys, List.forall_mem_cons, ← hbatch]
      constructor
      · intro heq
        obtain ⟨hfrontEq, hbackEq⟩ := List.append_inj heq hkept.length_eq
        exact ⟨hfrontEq, hiff.mp hbackEq⟩
      · intro heq
        rw [heq.1, hiff.mpr heq.2]

theorem file_covers_iff {header : Jsonl.SessionHeader} (hheader : header.Valid) (hne : batches ≠ [])
    (hnumbered : Numbered 0 (batches.flatMap Batch.events))
    (hcurrent : ∀ event ∈ batches.flatMap Batch.events, Current event) (id : String)
    (tail : List Json) : ∃ scan, scanLog (logFile header batches) = .ok scan ∧
      (coversStored (batches.flatMap Batch.events ++ tail) scan.events id = .ok true ↔
        KeepsKeys batches) := by
  obtain ⟨stored, hdecode, hgiven⟩ := stored_batches hnumbered hcurrent
  obtain ⟨logged, hlogged, _⟩ := logged_batches hnumbered
  obtain rfl : stored = logged := Except.ok.inj (hdecode.symm.trans hlogged.decodeRecords_eq)
  have hscan := scanLog_rows hheader hlogged (@List.not_mem_nil _ newline)
  rw [List.append_nil, ← logFile_eq hne hnumbered] at hscan
  refine ⟨_, hscan, ?_⟩
  rw [← hgiven.unchanged]
  refine coversStored_iff hgiven.length ?_ hgiven.lossless hgiven.current
  intro event hevent
  obtain ⟨batch, _, hmem⟩ := List.mem_flatMap.mp hevent
  exact (batch.lossless event hmem).lossless

end Files

section Rows

open Harness.Sqlite (Zstd Database Batch EventRow Cut IsRun Laid columnForm typeOf bindRecord
  bindRecords decodeRow decodeRows packChunkRuns emitBoundedRun prepared extended)

def columnOrder : List String :=
  ["type", "seq", "time", "data", "sourceEventSeqs", "surfaceOp", "ignorable"]

def inColumnOrder (event : Json) : Bool :=
  keysOf event == columnOrder.filter fun key => (event.get? key).isSome

theorem fields_ext {as bs : List (String × Json)} (hkeys : as.map Prod.fst = bs.map Prod.fst)
    (hnodup : (bs.map Prod.fst).Nodup) (h : ∀ field ∈ as, bs.lookup field.1 = some field.2) :
    as = bs := by
  apply List.ext_getElem (by simpa using congrArg List.length hkeys)
  intro i hi hj
  have hkey : as[i].1 = bs[i].1 := by
    have hget := List.getElem_of_eq hkeys (by simpa using hi)
    simpa using hget
  have hvalue := h as[i] (List.getElem_mem hi)
  have hfound : bs.lookup bs[i].1 = some bs[i].2 := Json.lookup_of_nodup hnodup (List.getElem_mem hj)
  rw [hkey, hfound] at hvalue
  exact Prod.ext hkey (Option.some.inj hvalue).symm

variable {zstd : Zstd} {kind : DeltaKind} {event : Json} {events run records : List Json}
  {rows : List EventRow}

theorem columnForm_fields (h : Envelope event) : ∃ fields, columnForm event = .obj fields ∧
    fields.map Prod.fst = columnOrder.filter (fun key => (event.get? key).isSome) ∧
    ∀ field ∈ fields, event.get? field.1 = some field.2 := by
  obtain ⟨type, seq, time, data, htype, ⟨hseq, _⟩, ⟨htime, _⟩, hdata, _⟩ := h.read
  have htypeOf : typeOf event = type := by
    rw [typeOf, ChunkRows.stringField_eq_some.mpr htype]
    rfl
  have hseqOf : ChunkRows.seqOf event = seq := by
    rw [ChunkRows.seqOf, ChunkRows.intField, hseq]
    rfl
  have htimeOf : ChunkRows.timeOf event = time := by
    rw [ChunkRows.timeOf, ChunkRows.intField, htime]
    rfl
  have hfieldOf : ChunkRows.fieldOf event "data" = data := by
    rw [ChunkRows.fieldOf, hdata]
    rfl
  refine ⟨_, rfl, ?_, ?_⟩
  · simp only [columnOrder, List.filter_cons, htype, hseq, htime, hdata]
    cases event.get? "sourceEventSeqs" <;> cases event.get? "surfaceOp" <;>
      cases event.get? "ignorable" <;> rfl
  · have hoptional : ∀ key, ∀ field ∈ Json.optionalField key (event.get? key),
        event.get? field.1 = some field.2 := by
      intro key field hfield
      cases hfound : event.get? key with
      | none => simp [hfound, Json.optionalField] at hfield
      | some value =>
        rw [hfound, Json.optionalField, List.mem_singleton] at hfield
        rw [hfield, hfound]
    simp only [List.forall_mem_append]
    refine ⟨⟨⟨?_, hoptional _⟩, hoptional _⟩, hoptional _⟩
    simp [htypeOf, hseqOf, htimeOf, hfieldOf, htype, hseq, htime, hdata]

theorem columnForm_eq_iff (h : Envelope event) :
    columnForm event = event ↔ inColumnOrder event = true := by
  obtain ⟨fields, hform, hkeys, hfields⟩ := columnForm_fields h
  rw [inColumnOrder, beq_iff_eq, ← hkeys, hform]
  constructor
  · intro heq
    rw [← heq]
    rfl
  · intro horder
    obtain ⟨found, rfl⟩ := h.object
    exact congrArg Json.obj (fields_ext horder.symm h.lossless.1 hfields)

theorem wellFormed_columnForm (h : Envelope event) : (columnForm event).WellFormed := by
  obtain ⟨fields, hform, hkeys, hfields⟩ := columnForm_fields h
  rw [hform]
  refine ⟨by rw [hkeys]; exact List.Nodup.filter _ (by decide), ?_⟩
  refine Json.wellFormedFields_of_mem fun field hfield => ?_
  obtain ⟨found, rfl⟩ := h.object
  exact wellFormed_lookup h.lossless.2 (hfields field hfield)

theorem Holds.cut (hlossless : zstd.Lossless) (hcut : Cut kind run records) (hrun : IsRun kind run)
    (henvelopes : ∀ event ∈ run, Envelope event) (huntagged : ∀ event ∈ run, rowTag event = none)
    (hnodup : run.Nodup) (hbind : bindRecords zstd records = .ok rows) :
    ∃ stored, decodeRows zstd rows = .ok stored ∧ Holds columnForm records stored run := by
  induction hcut generalizing rows with
  | nil =>
    obtain rfl := Except.ok.inj hbind
    exact ⟨[], rfl, .nil⟩
  | @plain event run records hcut ih =>
    obtain ⟨row, hrow, hrest⟩ := bind_eq_ok.mp hbind
    obtain ⟨rest, hbound, hcons⟩ := bind_eq_ok.mp hrest
    obtain rfl := Except.ok.inj hcons
    have hsplit : IsRun kind ([event] ++ run) := hrun
    rw [List.forall_mem_cons] at henvelopes huntagged
    obtain ⟨stored, hstored, hholds⟩ :=
      ih hsplit.append.2 henvelopes.2 huntagged.2 hnodup.of_cons hbound
    have hhead : Holds columnForm [event] [columnForm event] [event] :=
      .plain (by simpa using huntagged.1)
    refine ⟨columnForm event :: stored, ?_, hhead.append hholds hnodup⟩
    rw [decodeRows, Sqlite.decodeRow_columnForm hlossless henvelopes.1 hrow, ok_bind, hstored]
    rfl
  | @packed front back records hmin hmax hbytes hcut ih =>
    obtain ⟨row, hrow, hrest⟩ := bind_eq_ok.mp hbind
    obtain ⟨rest, hbound, hcons⟩ := bind_eq_ok.mp hrest
    obtain rfl := Except.ok.inj hcons
    obtain ⟨hfront, hback⟩ := hrun.append
    have hne : front ≠ [] := by
      intro hnil
      rw [hnil] at hmin
      exact absurd hmin (by decide)
    obtain ⟨first, others, hfirst, rfl, hshows, hbuilt⟩ := hfront.row hne
    rw [List.forall_mem_append] at henvelopes huntagged
    obtain ⟨stored, hstored, hholds⟩ :=
      ih hback henvelopes.2 huntagged.2 hnodup.of_append_right hbound
    rw [hbuilt] at hrow hbytes ⊢
    have hread := Sqlite.decodeRow_run hlossless hfirst hshows hmin hmax hbytes hrow
    have hhead : Holds columnForm [(ChunkRows.rowOf first others).toJson]
        ((first :: others).map Delta.event) front := .row (ChunkRows.rowTag_toJson _) hshows
    refine ⟨(first :: others).map Delta.event ++ stored, ?_, hhead.append hholds hnodup⟩
    rw [decodeRows, hread, ok_bind, hstored]
    rfl

theorem Holds.segments (hlossless : zstd.Lossless) {segments : List Segment}
    (h : ∀ segment ∈ segments, segment.Whole)
    (henvelopes : ∀ event ∈ segments.flatMap Segment.events, Envelope event)
    (huntagged : ∀ event ∈ segments.flatMap Segment.events, rowTag event = none)
    (hnodup : (segments.flatMap Segment.events).Nodup)
    (hbind : bindRecords zstd (segments.flatMap (Segment.rows emitBoundedRun)) = .ok rows) :
    ∃ stored, decodeRows zstd rows = .ok stored ∧
      Holds columnForm (segments.flatMap (Segment.rows emitBoundedRun)) stored
        (segments.flatMap Segment.events) := by
  induction segments generalizing rows with
  | nil =>
    obtain rfl := Except.ok.inj hbind
    exact ⟨[], rfl, .nil⟩
  | cons segment segments ih =>
    rw [List.flatMap_cons, List.forall_mem_append] at henvelopes huntagged
    rw [List.flatMap_cons] at hbind hnodup
    rw [List.forall_mem_cons] at h
    obtain ⟨frontRows, backRows, hfrontBind, hbackBind, rfl⟩ := Sqlite.bindRecords_append hbind
    obtain ⟨back, hback, hbackHolds⟩ :=
      ih h.2 henvelopes.2 huntagged.2 hnodup.of_append_right hbackBind
    have hfront : ∃ stored, decodeRows zstd frontRows = .ok stored ∧
        Holds columnForm (segment.rows emitBoundedRun) stored segment.events := by
      cases segment with
      | verbatim event =>
        obtain ⟨row, hrow, hrest⟩ := bind_eq_ok.mp hfrontBind
        obtain ⟨rest, hbound, hcons⟩ := bind_eq_ok.mp hrest
        obtain rfl := Except.ok.inj hcons
        obtain rfl := Except.ok.inj hbound
        refine ⟨[columnForm event], ?_, .plain huntagged.1⟩
        rw [decodeRows, Sqlite.decodeRow_columnForm hlossless
          (henvelopes.1 event List.mem_cons_self) hrow]
        rfl
      | run kind events =>
        exact Holds.cut hlossless (Sqlite.emitBoundedRun_cut kind events)
          (Sqlite.isRun_of_whole h.1) henvelopes.1 huntagged.1 hnodup.of_append_left hfrontBind
    obtain ⟨front, hfront, hfrontHolds⟩ := hfront
    refine ⟨front ++ back, ?_, hfrontHolds.append hbackHolds hnodup⟩
    rw [Sqlite.decodeRows_append, hfront, hback]
    rfl

theorem seq_nodup {start : Int} (h : Sqlite.Numbered start events) : events.Nodup := by
  have hbounds : ∀ (events : List Json) (start : Int), Sqlite.Numbered start events →
      ∀ event ∈ events, start ≤ ChunkRows.seqOf event := by
    intro events
    induction events with
    | nil => simp
    | cons event events ih =>
      intro start h
      rw [List.forall_mem_cons]
      refine ⟨Int.le_of_eq h.1.symm, fun other hother => ?_⟩
      have := ih (start + 1) h.2 other hother
      omega
  induction events generalizing start with
  | nil => exact .nil
  | cons event events ih =>
    rw [List.nodup_cons]
    refine ⟨fun hmem => ?_, ih h.2⟩
    have hle := hbounds events (start + 1) h.2 event hmem
    rw [h.1] at hle
    omega

theorem append_holds (hlossless : zstd.Lossless) {db db' : Database}
    {header : Sqlite.SessionHeader} {batch : Batch} {isMaterialized : Bool} {earlier : List Json}
    (hlaid : Laid zstd 0 (db.events header.id) earlier) (hne : batch.events ≠ [])
    (huntagged : ∀ event ∈ batch.events, rowTag event = none)
    (happend : Sqlite.appendBatch zstd db header batch.events isMaterialized = .ok db') :
    ∃ stored, Laid zstd 0 (db'.events header.id) (earlier ++ stored) ∧
      (db'.sessions header.id).isSome = true ∧
      List.Forall₂ (Kept columnForm (packChunkRuns batch.events)) stored batch.events := by
  obtain ⟨first, rest, hbatch⟩ := List.exists_cons_of_ne_nil hne
  obtain ⟨hseq, rows, row, hbind, _, rfl⟩ :=
    (Sqlite.appendBatch_iff hlossless hlaid hbatch).mp happend
  obtain ⟨segments, hwhole, hout, hevents⟩ :=
    ChunkRows.packRuns_segments emitBoundedRun batch.events
  have hrecords : packChunkRuns batch.events = segments.flatMap (Segment.rows emitBoundedRun) := hout
  obtain ⟨start, hnumbered⟩ := batch.numbered
  obtain ⟨stored, hstored, hholds⟩ := Holds.segments hlossless hwhole
    (by rw [hevents]; exact batch.envelopes) (by rw [hevents]; exact huntagged)
    (by rw [hevents]; exact seq_nodup hnumbered) (hrecords ▸ hbind)
  obtain ⟨decoded, hmore⟩ := batch.laid_append hlossless hbatch hbind
  obtain rfl : stored = decoded := Except.ok.inj (hstored.symm.trans hmore.decodeRows_eq)
  refine ⟨stored, ?_, ?_, ?_⟩
  · rw [Sqlite.extended_events, Function.update_self, Sqlite.prepared_events]
    rw [hseq] at hmore
    exact hlaid.append (by simpa using hmore)
  · rw [Sqlite.extended_sessions, Function.update_self]
    rfl
  · rw [hrecords, ← hevents]
    exact hholds.kept

/-- The batches a session has appended to the store, with whatever other sessions did between
them. -/
inductive Persisted (zstd : Zstd) (header : Sqlite.SessionHeader) : List Batch → Database → Prop
  | fresh {db : Database} : db.events header.id = [] → Persisted zstd header [] db
  | others {batches : List Batch} {db db' : Database} : Persisted zstd header batches db →
    db'.events header.id = db.events header.id → db'.sessions header.id = db.sessions header.id →
    Persisted zstd header batches db'
  | append {batches : List Batch} {batch : Batch} {db db' : Database} {isMaterialized : Bool} :
    Persisted zstd header batches db → batch.events ≠ [] →
    Sqlite.appendBatch zstd db header batch.events isMaterialized = .ok db' →
    Persisted zstd header (batches ++ [batch]) db'

def KeepsColumns (batches : List Batch) : Prop :=
  ∀ batch ∈ batches, ∀ event ∈ batch.events,
    (event ∈ packChunkRuns batch.events → inColumnOrder event = true) ∧
    (event ∉ packChunkRuns batch.events → inRowOrder event = true)

theorem keepsOrder_columns (h : Envelope event) : KeepsOrder columnForm records event ↔
    (event ∈ records → inColumnOrder event = true) ∧
      (event ∉ records → inRowOrder event = true) := by
  unfold KeepsOrder
  by_cases hmem : event ∈ records <;> simp [hmem, columnForm_eq_iff h]

theorem current_columnForm (h : Envelope event) (hcurrent : Current event) :
    Current (columnForm event) := by
  obtain ⟨type, _, _, data, htype, _, _, hdata, _⟩ := h.read
  have htypeOf : typeOf event = type := by
    rw [typeOf, ChunkRows.stringField_eq_some.mpr htype]
    rfl
  have hfieldOf : ChunkRows.fieldOf event "data" = data := by
    rw [ChunkRows.fieldOf, hdata]
    rfl
  refine hcurrent.congr ?_ ?_
  · rw [htype, ← htypeOf]
    rfl
  · rw [hdata, ← hfieldOf]
    rfl

theorem Persisted.holds (hlossless : zstd.Lossless) {header : Sqlite.SessionHeader}
    {batches : List Batch} {db : Database} (h : Persisted zstd header batches db)
    (hcurrent : ∀ event ∈ batches.flatMap Batch.events, Current event) :
    ∃ stored, Laid zstd 0 (db.events header.id) stored ∧
      (batches ≠ [] → (db.sessions header.id).isSome = true) ∧
      GivenBack stored (batches.flatMap Batch.events) (KeepsColumns batches) := by
  induction h with
  | fresh hempty =>
    rw [hempty]
    exact ⟨[], .nil 0, by simp, rfl, by simp, by simp, by simp [KeepsColumns]⟩
  | others _ hevents hsessions ih =>
    rw [hevents, hsessions]
    exact ih hcurrent
  | @append batches batch db db' isMaterialized _ hne happend ih =>
    rw [List.flatMap_append, List.flatMap_singleton, List.forall_mem_append] at hcurrent
    obtain ⟨earlier, hlaid, _, hgiven⟩ := ih hcurrent.1
    obtain ⟨stored, hmore, hsome, hkept⟩ := append_holds hlossless hlaid hne
      (fun event hevent => (hcurrent.2 event hevent).untagged) happend
    refine ⟨earlier ++ stored, hmore, fun _ => hsome, ?_⟩
    rw [List.flatMap_append, List.flatMap_singleton]
    refine ⟨?_, ?_, ?_, ?_⟩
    · rw [List.length_append, List.length_append, hgiven.length, hkept.length_eq]
    · rw [List.forall_mem_append]
      exact ⟨hgiven.lossless, forall_kept hkept
        (fun event hevent => wellFormed_columnForm (batch.envelopes event hevent)) wellFormed_event⟩
    · rw [List.forall_mem_append]
      exact ⟨hgiven.current, forall_kept hkept (fun event hevent =>
        current_columnForm (batch.envelopes event hevent) (hcurrent.2 event hevent)) current_delta⟩
    · have hbatch : stored = batch.events ↔ ∀ event ∈ batch.events,
          (event ∈ packChunkRuns batch.events → inColumnOrder event = true) ∧
            (event ∉ packChunkRuns batch.events → inRowOrder event = true) := by
        rw [kept_eq_iff hkept]
        exact forall₂_congr fun event hevent => keepsOrder_columns (batch.envelopes event hevent)
      rw [KeepsColumns, List.forall_mem_append, List.forall_mem_singleton, ← hbatch]
      constructor
      · intro heq
        obtain ⟨hfront, hback⟩ := List.append_inj heq hgiven.length
        exact ⟨hgiven.unchanged.mp hfront, hback⟩
      · intro heq
        rw [hgiven.unchanged.mpr heq.1, heq.2]

theorem Persisted.covers_iff (hlossless : zstd.Lossless) {header : Sqlite.SessionHeader}
    {batches : List Batch} {db : Database} (h : Persisted zstd header batches db) (hne : batches ≠ [])
    (hcurrent : ∀ event ∈ batches.flatMap Batch.events, Current event) (tail : List Json) :
    ∃ stored, Sqlite.loadStored zstd db header.id = .ok (some stored) ∧
      (coversStored (batches.flatMap Batch.events ++ tail) stored.events header.id = .ok true ↔
        KeepsColumns batches) := by
  obtain ⟨stored, hlaid, hsome, hgiven⟩ := h.holds hlossless hcurrent
  obtain ⟨row, hrow⟩ := Option.isSome_iff_exists.mp (hsome hne)
  refine ⟨_, Sqlite.loadStored_laid hlaid hrow, ?_⟩
  rw [← hgiven.unchanged]
  refine coversStored_iff hgiven.length ?_ hgiven.lossless hgiven.current
  intro event hevent
  obtain ⟨batch, _, hmem⟩ := List.mem_flatMap.mp hevent
  exact (batch.envelopes event hmem).lossless

end Rows

/-- A live session over its own stored log is recognized exactly when every event comes back with
its keys where they stood: of a file those of packed chunks may move, of a database those of the
envelope as well. -/
theorem own_log_covered_iff (tail : List Json) :
    (∀ (header : Jsonl.SessionHeader), header.Valid → ∀ (batches : List Jsonl.Batch), batches ≠ [] →
      Jsonl.Numbered 0 (batches.flatMap Jsonl.Batch.events) →
      (∀ event ∈ batches.flatMap Jsonl.Batch.events, Current event) →
      ∀ id : String,
        ∃ scan, Jsonl.scanLog (Jsonl.logFile header batches) = .ok scan ∧
          (coversStored (batches.flatMap Jsonl.Batch.events ++ tail) scan.events id = .ok true ↔
            KeepsKeys batches)) ∧
    ∀ (zstd : Sqlite.Zstd), zstd.Lossless → ∀ (header : Sqlite.SessionHeader)
      (batches : List Sqlite.Batch) (db : Sqlite.Database), Persisted zstd header batches db →
      batches ≠ [] → (∀ event ∈ batches.flatMap Sqlite.Batch.events, Current event) →
        ∃ stored, Sqlite.loadStored zstd db header.id = .ok (some stored) ∧
          (coversStored (batches.flatMap Sqlite.Batch.events ++ tail) stored.events header.id =
            .ok true ↔ KeepsColumns batches) :=
  ⟨fun _ hheader _ hne hnumbered hcurrent id =>
    file_covers_iff hheader hne hnumbered hcurrent id tail,
    fun _ hlossless _ _ _ hpersisted hne hcurrent =>
      hpersisted.covers_iff hlossless hne hcurrent tail⟩

def reorderedDelta (seq : Nat) (text : String) : Json :=
  .obj [("type", .str "assistant/chunk"), ("seq", .nat seq), ("time", .nat 0),
    ("data", .obj [("turn", .nat 1), ("step", .nat 0),
      ("chunk", .obj [("type", .str "text-delta"), ("text", .str text), ("index", .nat 0)])])]

def reorderedBatch : Jsonl.Batch where
  events := [reorderedDelta 0 "a", reorderedDelta 1 "b", reorderedDelta 2 "c"]
  packChunks := true
  nonempty := by simp
  lossless := by
    have hdelta : ∀ seq text, IsEvent (reorderedDelta seq text) := fun seq text =>
      ⟨⟨_, rfl⟩, by simp [reorderedDelta, Json.WellFormed, Json.WellFormedFields], rfl⟩
    simp [hdelta]

theorem reordered_not_covered : (∀ event ∈ reorderedBatch.events, Current event) ∧
    Jsonl.Numbered 0 reorderedBatch.events ∧
    ∃ scan, Jsonl.scanLog (Jsonl.logFile Jsonl.plainHeader [reorderedBatch]) = .ok scan ∧
      coversStored reorderedBatch.events scan.events "session" ≠ .ok true := by
  have hcurrent : ∀ event ∈ reorderedBatch.events, Current event := by
    have hdelta : ∀ seq text, Current (reorderedDelta seq text) := fun _ _ => current_chunk rfl
    simp [reorderedBatch, hdelta]
  have hnumbered : Jsonl.Numbered 0 reorderedBatch.events := ⟨rfl, rfl, rfl, trivial⟩
  refine ⟨hcurrent, hnumbered, ?_⟩
  obtain ⟨scan, hscan, hiff⟩ := @file_covers_iff [reorderedBatch] _ Jsonl.plainHeader_valid
    (by simp) (by simpa using hnumbered) (by simpa using hcurrent) "session" []
  refine ⟨scan, hscan, fun hcovers => ?_⟩
  have hkeeps := hiff.mp (by simpa using hcovers)
  have horder := hkeeps reorderedBatch List.mem_cons_self (reorderedDelta 0 "a")
    List.mem_cons_self (by decide)
  exact absurd horder (by decide)

def orderedBatch : Jsonl.Batch where
  events := Sqlite.streamedBatch
  packChunks := true
  nonempty := by simp [Sqlite.streamedBatch, Sqlite.streamedDeltas]
  lossless := by
    intro event hevent
    obtain ⟨delta, _, rfl⟩ := List.mem_map.mp hevent
    exact ⟨⟨_, rfl⟩, wellFormed_event delta, (current_delta delta).untagged⟩

theorem ordered_covered :
    ∃ scan, Jsonl.scanLog (Jsonl.logFile Jsonl.plainHeader [orderedBatch]) = .ok scan ∧
      coversStored (([orderedBatch].flatMap Jsonl.Batch.events) ++ []) scan.events "session" =
        .ok true := by
  have hdeltas : ∀ event ∈ [orderedBatch].flatMap Jsonl.Batch.events, ∃ delta : Delta,
      delta.event = event := by
    intro event hevent
    rw [List.flatMap_singleton] at hevent
    obtain ⟨delta, _, heq⟩ := List.mem_map.mp hevent
    exact ⟨delta, heq⟩
  obtain ⟨scan, hscan, hiff⟩ := (own_log_covered_iff []).1 Jsonl.plainHeader Jsonl.plainHeader_valid
    [orderedBatch] (by simp) ⟨rfl, rfl, rfl, trivial⟩ (fun event hevent => by
      obtain ⟨delta, rfl⟩ := hdeltas event hevent
      exact current_delta delta) "session"
  refine ⟨scan, hscan, hiff.mpr ?_⟩
  intro batch hbatch event hevent _
  obtain ⟨delta, rfl⟩ := hdeltas event (List.mem_flatMap.mpr ⟨batch, hbatch, hevent⟩)
  exact inRowOrder_event delta

end Harness.Persistence
