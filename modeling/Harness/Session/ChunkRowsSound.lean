import Harness.Session.ChunkRowShape
import Mathlib.Data.List.Induction

namespace Harness

open Harness.Foundation

namespace ChunkRows

def ChunkRow.deltasFrom (row : ChunkRow) (seq time : Int) : List String → List Int → List Delta
  | [], _ => []
  | payload :: rest, gaps =>
    { kind := row.kind, turn := row.turn, step := row.step, index := row.index, seq, time, payload }
      :: row.deltasFrom (seq + 1) (time + gaps.headD 0) rest gaps.tail

def ChunkRow.deltas (row : ChunkRow) : List Delta :=
  row.deltasFrom row.seq0 row.time0 row.members row.dt

def TimesSafe : Int → List Int → Prop
  | _, [] => True
  | time, gap :: gaps => isSafe (time + gap) = true ∧ TimesSafe (time + gap) gaps

theorem timesStaySafe_iff {time : Int} {gaps : List Int} :
    timesStaySafe time gaps = true ↔ TimesSafe time gaps := by
  induction gaps generalizing time with
  | nil => simp [timesStaySafe, TimesSafe]
  | cons gap gaps ih =>
    simp only [timesStaySafe, TimesSafe, isSafe_addDouble, Bool.and_eq_true, ih]
    refine and_congr_right fun hsafe => ?_
    rw [addDouble_of_safe (by rwa [isSafe_addDouble])]

theorem lastSeq_iff {seq0 : Int} {n : Nat} (hnonneg : 0 ≤ seq0) :
    isSafe (subDouble (addDouble seq0 n) 1) = true ↔ seq0 + n ≤ 9007199254740993 := by
  rw [isSafe_subDouble, isSafe_iff]
  unfold addDouble roundDouble
  split
  · omega
  · split
    · omega
    · split <;> omega

structure ChunkRow.Timed (row : ChunkRow) : Prop where
  seqNonneg : 0 ≤ row.seq0
  seqSafe : isSafe row.seq0 = true
  timeSafe : isSafe row.time0 = true
  arity : row.dt.length + 1 = row.members.length
  gapsSafe : ∀ gap ∈ row.dt, isSafe gap = true
  times : TimesSafe row.time0 row.dt

structure ChunkRow.Packed (row : ChunkRow) : Prop extends row.Timed where
  lastSeq : row.seq0 + row.members.length ≤ 9007199254740992

theorem ChunkRow.valid_iff {row : ChunkRow} :
    row.Valid ↔ row.Timed ∧ row.seq0 + row.members.length ≤ 9007199254740993 := by
  constructor
  · intro h
    exact ⟨⟨h.seqNonneg, h.seqSafe, h.timeSafe, h.arity, h.gapsSafe, timesStaySafe_iff.mp h.times⟩,
      (lastSeq_iff h.seqNonneg).mp h.lastSeq⟩
  · rintro ⟨h, hlast⟩
    exact ⟨h.seqNonneg, h.seqSafe, h.timeSafe, h.arity, h.gapsSafe,
      (lastSeq_iff h.seqNonneg).mpr hlast, timesStaySafe_iff.mpr h.times⟩

section Expand

variable {row : ChunkRow}

theorem expandFrom_eq (members : List String) {k : Nat} {time : Int} {gaps : List Int}
    (hnonneg : 0 ≤ row.seq0) (hlast : row.seq0 + k + members.length ≤ 9007199254740993)
    (harity : gaps.length + 1 = members.length) (htimes : TimesSafe time gaps) :
    expandFrom row k time members gaps =
      (row.deltasFrom (row.seq0 + k) time members gaps).map Delta.event := by
  induction members generalizing k time gaps with
  | nil => rfl
  | cons payload members ih =>
    simp only [List.length_cons] at hlast harity
    have hseq : addDouble row.seq0 k = row.seq0 + k := addDouble_of_le (by omega)
    rw [expandFrom, ChunkRow.deltasFrom, List.map_cons, hseq]
    refine congrArg (List.cons _) ?_
    cases gaps with
    | nil =>
      obtain rfl : members = [] := List.eq_nil_of_length_eq_zero (by simpa using harity.symm)
      rfl
    | cons gap gaps =>
      simp only [List.length_cons] at harity
      have htime : addDouble time gap = time + gap :=
        addDouble_of_safe (by rw [isSafe_addDouble]; exact htimes.1)
      rw [List.headD_cons, List.tail_cons, htime, ih (by push_cast; omega) (by omega) htimes.2]
      push_cast
      rw [Int.add_assoc]

theorem expandRow_eq (h : row.Valid) : expandRow row = row.deltas.map Delta.event := by
  obtain ⟨htimed, hlast⟩ := ChunkRow.valid_iff.mp h
  have := @expandFrom_eq row row.members 0 row.time0 row.dt htimed.seqNonneg (by simpa using hlast)
    htimed.arity htimed.times
  simpa [expandRow, ChunkRow.deltas] using this

theorem deltasFrom_run {payload : String} (members : List String) {seq time : Int}
    {dt : List Int} (harity : dt.length = members.length)
    (hgaps : ∀ gap ∈ dt, isSafe gap = true) :
    ∃ first rest, row.deltasFrom seq time (payload :: members) dt = first :: rest ∧
      Run first rest ∧ gaps first rest = dt ∧ rest.map Delta.payload = members ∧
      first = { kind := row.kind, turn := row.turn, step := row.step, index := row.index
                seq, time, payload } := by
  induction members generalizing seq time dt payload with
  | nil =>
    obtain rfl : dt = [] := List.eq_nil_of_length_eq_zero harity
    exact ⟨_, _, rfl, .single _, rfl, rfl, rfl⟩
  | cons next members ih =>
    cases dt with
    | nil => simp at harity
    | cons gap dt =>
      simp only [List.length_cons, Nat.add_right_cancel_iff] at harity
      obtain ⟨second, rest, hdeltas, hrun, hgapsOf, hpayloads, hsecond⟩ :=
        @ih next (seq + 1) (time + gap) dt harity fun g hg => hgaps g (List.mem_cons_of_mem _ hg)
      refine ⟨_, second :: rest, ?_, run_cons.mpr ⟨?_, hrun⟩, ?_, ?_, rfl⟩
      · rw [ChunkRow.deltasFrom, List.headD_cons, List.tail_cons, hdeltas]
      · have hgap := hgaps gap List.mem_cons_self
        subst hsecond
        exact ⟨rfl, rfl, rfl, rfl, rfl, by simpa using hgap⟩
      · rw [gaps, hgapsOf, hsecond]
        simp
      · rw [List.map_cons, hpayloads, hsecond]

theorem ChunkRow.deltas_run (h : row.Timed) : ∃ first rest, row.deltas = first :: rest ∧
    Run first rest ∧ rowOf first rest = row := by
  obtain ⟨kind, seq0, time0, turn, step, index, dt, members⟩ := row
  cases members with
  | nil => simpa using h.arity
  | cons payload members =>
    obtain ⟨first, rest, hdeltas, hrun, hgaps, hpayloads, rfl⟩ :=
      deltasFrom_run members (by simpa using h.arity) h.gapsSafe
    refine ⟨_, rest, hdeltas, hrun, ?_⟩
    simp [rowOf, hgaps, hpayloads]

end Expand

section RowOf

variable {first : Delta} {rest : List Delta}

theorem Run.gaps_safe (h : Run first rest) : ∀ gap ∈ gaps first rest, isSafe gap = true := by
  induction rest generalizing first with
  | nil => simp [gaps]
  | cons next rest ih =>
    intro gap hgap
    rcases List.mem_cons.mp hgap with rfl | hrest
    · exact h.next.gap
    · exact ih h.tail gap hrest

theorem timesSafe_gaps (h : ∀ delta ∈ rest, delta.Packable) :
    TimesSafe first.time (gaps first rest) := by
  induction rest generalizing first with
  | nil => trivial
  | cons next rest ih =>
    have htime : first.time + (next.time - first.time) = next.time := by omega
    rw [gaps, TimesSafe, htime]
    exact ⟨(h next List.mem_cons_self).timeSafe,
      ih fun delta hmem => h delta (List.mem_cons_of_mem _ hmem)⟩

theorem Run.last_le (h : Run first rest) (hpackable : ∀ delta ∈ first :: rest, delta.Packable) :
    first.seq + rest.length ≤ 9007199254740991 := by
  induction rest generalizing first with
  | nil =>
    have := isSafe_iff.mp (hpackable first List.mem_cons_self).seqSafe
    simp only [List.length_nil]
    omega
  | cons next rest ih =>
    have hrest := ih h.tail fun delta hmem => hpackable delta (List.mem_cons_of_mem _ hmem)
    have hseq := h.next.seq
    simp only [List.length_cons]
    push_cast
    omega

theorem Run.packed (h : Run first rest) (hpackable : ∀ delta ∈ first :: rest, delta.Packable) :
    (rowOf first rest).Packed := by
  have hfirst := hpackable first List.mem_cons_self
  have hlast := h.last_le hpackable
  refine ⟨⟨hfirst.seqNonneg, hfirst.seqSafe, hfirst.timeSafe, ?_, h.gaps_safe, ?_⟩, ?_⟩
  · simp [rowOf, gaps_length]
  · exact timesSafe_gaps fun delta hmem => hpackable delta (List.mem_cons_of_mem _ hmem)
  · simp only [rowOf, List.length_cons, List.length_map]
    push_cast
    omega

theorem Run.deltasFrom_eq {row : ChunkRow} (h : Run first rest) (hkind : row.kind = first.kind)
    (hturn : row.turn = first.turn) (hstep : row.step = first.step)
    (hindex : row.index = first.index) :
    row.deltasFrom first.seq first.time (first.payload :: rest.map Delta.payload)
      (gaps first rest) = first :: rest := by
  induction rest generalizing first with
  | nil =>
    simp only [List.map_nil, ChunkRow.deltasFrom, hkind, hturn, hstep, hindex]
  | cons next rest ih =>
    have hnext := h.next
    have htail := @ih next h.tail (hkind.trans hnext.kind.symm) (hturn.trans hnext.turn.symm)
      (hstep.trans hnext.step.symm) (hindex.trans hnext.index.symm)
    have htime : first.time + (next.time - first.time) = next.time := by omega
    rw [List.map_cons, gaps, ChunkRow.deltasFrom, List.headD_cons, List.tail_cons, htime,
      ← hnext.seq, htail, hkind, hturn, hstep, hindex]

theorem Run.deltas_eq (h : Run first rest) : (rowOf first rest).deltas = first :: rest :=
  h.deltasFrom_eq rfl rfl rfl rfl

theorem ChunkRow.Packed.valid {row : ChunkRow} (h : row.Packed) : row.Valid :=
  ChunkRow.valid_iff.mpr ⟨h.toTimed, by have := h.lastSeq; omega⟩

theorem rowTag_toJson (row : ChunkRow) : rowTag row.toJson = some row.kind.delta := by
  unfold rowTag ChunkRow.toJson
  cases row.kind <;> rfl

theorem Run.decode (h : Run first rest) (hpackable : ∀ delta ∈ first :: rest, delta.Packable) :
    decodeStorageRecord (rowOf first rest).toJson = .ok ((first :: rest).map Delta.event) := by
  have hvalid := (h.packed hpackable).valid
  have hrow : validateRow (rowOf first rest).toJson (rowOf first rest).kind.delta =
      .ok (rowOf first rest) :=
    validateRow_eq_ok.mpr ⟨rfl, holdsRow_toJson _ hvalid.arity hvalid.gapsSafe, hvalid⟩
  simp only [decodeStorageRecord, rowTag_toJson]
  rw [hrow, Except.map, expandRow_eq hvalid, h.deltas_eq]

end RowOf

def SameEvents (decoded events : List Json) : Prop :=
  List.Forall₂ (fun a b => a.deepEqual b = true) decoded events

/-- A lossless session event: a JSON object that names no field twice and is not tagged as a
packed row. -/
structure IsEvent (event : Json) : Prop where
  fields : ∃ fields, event = .obj fields
  lossless : event.WellFormed
  untagged : rowTag event = none

theorem decodeRecords_append (front back : List Json) :
    decodeRecords (front ++ back) = do
      let events ← decodeRecords front
      let rest ← decodeRecords back
      return events ++ rest := by
  induction front with
  | nil =>
    simp only [List.nil_append, decodeRecords, ok_bind, pure_eq_ok]
    cases decodeRecords back <;> rfl
  | cons record front ih =>
    simp only [List.cons_append, decodeRecords, ih]
    cases decodeStorageRecord record with
    | error message => rfl
    | ok events =>
      cases decodeRecords front with
      | error message => rfl
      | ok rest =>
        cases decodeRecords back with
        | error message => rfl
        | ok more => simp

theorem decodeRecords_events {events : List Json} (h : ∀ event ∈ events, rowTag event = none) :
    decodeRecords events = .ok events := by
  induction events with
  | nil => rfl
  | cons event events ih =>
    rw [decodeRecords, decodeStorageRecord, h event List.mem_cons_self,
      ih fun other hother => h other (List.mem_cons_of_mem _ hother)]
    rfl

theorem forall₂_shown {R : Json → Json → Prop}
    (hshown : ∀ event delta, Shows event delta → R delta.event event) {run : List Json}
    {deltas : List Delta} (h : List.Forall₂ Shows run deltas) :
    List.Forall₂ R (deltas.map Delta.event) run := by
  induction h with
  | nil => exact .nil
  | cons hevent _ ih => exact .cons (hshown _ _ hevent) ih

theorem sameEvents_of_shows {run : List Json} {deltas : List Delta}
    (h : List.Forall₂ Shows run deltas) : SameEvents (deltas.map Delta.event) run :=
  forall₂_shown (fun _ _ hevent => hevent.same) h

structure Restored (decoded event : Json) : Prop where
  same : decoded.deepEqual event = true
  seq : decoded.get? "seq" = some (.int (seqOf event))

theorem Shows.restored {event : Json} {delta : Delta} (h : Shows event delta) :
    Restored delta.event event := ⟨h.same, by rw [h.seq]; rfl⟩

theorem packable_of_shows {run : List Json} {deltas : List Delta}
    (h : List.Forall₂ Shows run deltas) : ∀ delta ∈ deltas, delta.Packable := by
  induction h with
  | nil => simp
  | cons hevent _ ih => simpa using ⟨hevent.packable, ih⟩

theorem SameEvents.append {a b c d : List Json} (h : SameEvents a b) (h' : SameEvents c d) :
    SameEvents (a ++ c) (b ++ d) := List.rel_append h h'

inductive Segment
  | verbatim (event : Json)
  | run (kind : DeltaKind) (events : List Json)

namespace Segment

def events : Segment → List Json
  | .verbatim event => [event]
  | .run _ events => events

def rows (emit : DeltaKind → List Json → List Json) : Segment → List Json
  | .verbatim event => [event]
  | .run kind events => emit kind events

def Whole : Segment → Prop
  | .verbatim event => classify event = none
  | .run kind events => ∃ first rest, Run first rest ∧ first.kind.delta = kind ∧
    List.Forall₂ Shows events (first :: rest)

end Segment

theorem Run.snoc {first last next : Delta} {rest : List Delta} (h : Run first rest)
    (hlast : (first :: rest).getLast? = some last) (hnext : Follows last next) :
    Run first (rest ++ [next]) := by
  refine @List.IsChain.append _ _ (first :: rest) _ h (.singleton next) ?_
  intro x hx y hy
  obtain rfl : last = x := Option.some.inj (hlast.symm.trans hx)
  obtain rfl : next = y := by simpa using hy
  exact hnext

theorem forall₂_getLast? {α β : Type} {R : α → β → Prop} {as : List α} {bs : List β}
    (h : List.Forall₂ R as bs) {a : α} (hlast : as.getLast? = some a) :
    ∃ b, bs.getLast? = some b ∧ R a b := by
  induction h with
  | nil => simp at hlast
  | cons hab hrest ih =>
    cases hrest with
    | nil =>
      obtain rfl := Option.some.inj hlast
      exact ⟨_, rfl, hab⟩
    | cons hcd htail =>
      obtain ⟨b, hb, hR⟩ := ih (by simpa using hlast)
      exact ⟨b, by simpa using hb, hR⟩

theorem extends?_iff {state : PackState} {event : Json} {kind : DeltaKind} :
    state.extends? event kind = true ↔ state.kind = some kind ∧
      ∃ last, state.run.getLast? = some last ∧ continues last event kind = true := by
  rw [PackState.extends?, Bool.and_eq_true, beq_iff_eq, any_eq_true_iff]

section Loop

variable (emit : DeltaKind → List Json → List Json)

/-- The loop invariant of the packers: what is written is whole pieces, and the open run can
become one. -/
structure Packs (done : List Json) (state : PackState) : Prop where
  written : ∃ segments : List Segment, (∀ segment ∈ segments, segment.Whole) ∧
    state.out = segments.flatMap (Segment.rows emit) ∧
    segments.flatMap Segment.events ++ state.run = done
  openRun : state.kind = none ∧ state.run = [] ∨
    ∃ kind, state.kind = some kind ∧ (Segment.run kind state.run).Whole

variable {emit} {done : List Json} {state : PackState}

theorem Packs.flush (h : Packs emit done state) : Packs emit done (state.flush emit) := by
  obtain ⟨segments, hwhole, hout, hdone⟩ := h.written
  refine ⟨?_, .inl ⟨rfl, rfl⟩⟩
  unfold PackState.flush
  rcases h.openRun with ⟨hkind, hrun⟩ | ⟨kind, hkind, hrun⟩
  · exact ⟨segments, hwhole, by simp [hkind, hrun, hout], by simp [← hdone, hrun]⟩
  · refine ⟨segments ++ [.run kind state.run], ?_, ?_, ?_⟩
    · intro segment hmem
      rcases List.mem_append.mp hmem with hold | hnew
      · exact hwhole segment hold
      · rwa [List.mem_singleton.mp hnew]
    · simp [hkind, hout, Segment.rows]
    · simpa [Segment.events] using hdone

theorem Packs.pack (h : Packs emit done state) (event : Json) :
    Packs emit (done ++ [event]) (state.pack emit event) := by
  unfold PackState.pack
  cases hclassify : classify event with
  | none =>
    obtain ⟨segments, hwhole, hout, hdone⟩ := h.flush.written
    have hrun : (state.flush emit).run = [] := rfl
    refine ⟨⟨segments ++ [.verbatim event], ?_, ?_, ?_⟩, .inl ⟨rfl, rfl⟩⟩
    · intro segment hmem
      rcases List.mem_append.mp hmem with hold | hnew
      · exact hwhole segment hold
      · rwa [List.mem_singleton.mp hnew]
    · simp [hout, Segment.rows]
    · simp only [hrun, List.append_nil] at hdone
      simp [hrun, hdone, Segment.events]
  | some kind =>
    obtain ⟨delta, hdelta, hshows⟩ := classify_shows hclassify
    simp only
    split
    · rename_i hextends
      obtain ⟨hkind, last, hlast, hcontinues⟩ := extends?_iff.mp hextends
      obtain ⟨segments, hwhole, hout, hdone⟩ := h.written
      refine ⟨⟨segments, hwhole, hout, by simp [← hdone]⟩, .inr ⟨kind, hkind, ?_⟩⟩
      rcases h.openRun with ⟨hnone, _⟩ | ⟨other, hother, first, rest, hrun, hfirst, hrunShows⟩
      · simp [hnone] at hkind
      · obtain rfl := Option.some.inj (hkind.symm.trans hother)
        obtain ⟨lastDelta, hlastDelta, hlastShows⟩ := forall₂_getLast? hrunShows hlast
        have hlastKind : lastDelta.kind.delta = kind := by
          rcases List.mem_cons.mp (List.mem_of_getLast? hlastDelta) with heq | hmem
          · rw [heq, hfirst]
          · rw [hrun.kind_eq lastDelta hmem, hfirst]
        have hfollows := (continues_iff hlastShows hshows hlastKind hdelta).mp hcontinues
        exact ⟨first, rest ++ [delta], hrun.snoc hlastDelta hfollows, hfirst,
          List.rel_append hrunShows (.cons hshows .nil)⟩
    · obtain ⟨segments, hwhole, hout, hdone⟩ := h.flush.written
      have hrun : (state.flush emit).run = [] := rfl
      simp only [hrun, List.append_nil] at hdone
      exact ⟨⟨segments, hwhole, hout, by rw [hdone]⟩,
        .inr ⟨kind, rfl, delta, [], .single delta, hdelta, .cons hshows .nil⟩⟩

theorem packs_run (events : List Json) :
    Packs emit events (events.foldl (PackState.pack emit) .start) := by
  induction events using List.reverseRecOn with
  | nil => exact ⟨⟨[], by simp, rfl, rfl⟩, .inl ⟨rfl, rfl⟩⟩
  | append_singleton events event ih =>
    rw [List.foldl_append]
    exact ih.pack event

theorem packRuns_segments (emit : DeltaKind → List Json → List Json) (events : List Json) :
    ∃ segments : List Segment, (∀ segment ∈ segments, segment.Whole) ∧
      packRuns emit events = segments.flatMap (Segment.rows emit) ∧
      segments.flatMap Segment.events = events := by
  obtain ⟨segments, hwhole, hout, hdone⟩ := (@packs_run emit events).flush.written
  refine ⟨segments, hwhole, hout, ?_⟩
  have hrun : ((events.foldl (PackState.pack emit) .start).flush emit).run = [] := rfl
  rwa [hrun, List.append_nil] at hdone

end Loop

theorem wellFormedItems_map {α : Type} {f : α → Json} (hf : ∀ a, (f a).WellFormed) (as : List α) :
    Json.WellFormedItems (as.map f) := by
  induction as with
  | nil => trivial
  | cons a as ih => exact ⟨hf a, ih⟩

theorem wellFormed_rowData (row : ChunkRow) : (Json.obj row.data).WellFormed := by
  have hints : Json.WellFormedItems (row.dt.map Json.int) :=
    wellFormedItems_map (by simp [Json.WellFormed]) row.dt
  have hstrings : Json.WellFormedItems (row.members.map Json.str) :=
    wellFormedItems_map (by simp [Json.WellFormed]) row.members
  unfold ChunkRow.data
  cases row.kind with
  | text => simp [Json.WellFormed, Json.WellFormedFields, hints, hstrings]
  | reasoning => simp [Json.WellFormed, Json.WellFormedFields, hints, hstrings]
  | toolCall id name =>
    cases name <;>
      simp [Json.WellFormed, Json.WellFormedFields, Json.optionalField, hints, hstrings]

theorem wellFormed_toJson (row : ChunkRow) : row.toJson.WellFormed := by
  have hdata := wellFormed_rowData row
  simpa [ChunkRow.toJson, Json.WellFormed, Json.WellFormedFields] using hdata

theorem wellFormed_segment {segment : Segment} (h : segment.Whole)
    (hevents : ∀ event ∈ segment.events, event.WellFormed) :
    ∀ record ∈ segment.rows emitRun, record.WellFormed := by
  cases segment with
  | verbatim event => exact hevents
  | run kind events =>
    simp only [Segment.rows, emitRun]
    split
    · obtain ⟨first, rest, hrun, rfl, hshows⟩ := h
      rw [buildRow_eq hrun hshows]
      simpa using wellFormed_toJson (rowOf first rest)
    · exact hevents

theorem wellFormed_packChunkRuns {events : List Json} (hevents : ∀ event ∈ events, event.WellFormed) :
    ∀ record ∈ packChunkRuns events, record.WellFormed := by
  obtain ⟨segments, hwhole, hout, rfl⟩ := packRuns_segments emitRun events
  rw [packChunkRuns, hout]
  intro record hrecord
  obtain ⟨segment, hsegment, hrow⟩ := List.mem_flatMap.mp hrecord
  exact wellFormed_segment (hwhole segment hsegment) (fun event hevent =>
    hevents event (List.mem_flatMap.mpr ⟨segment, hsegment, hevent⟩)) record hrow

section Decode

variable {R : Json → Json → Prop} (hshown : ∀ event delta, Shows event delta → R delta.event event)

include hshown

theorem decode_segment {segment : Segment} (h : segment.Whole)
    (huntagged : ∀ event ∈ segment.events, rowTag event = none)
    (hself : ∀ event ∈ segment.events, R event event) : ∃ decoded,
      decodeRecords (segment.rows emitRun) = .ok decoded ∧
        List.Forall₂ R decoded segment.events := by
  cases segment with
  | verbatim event => exact ⟨[event], decodeRecords_events huntagged, List.forall₂_same.mpr hself⟩
  | run kind events =>
    simp only [Segment.rows, Segment.events, emitRun]
    split
    · obtain ⟨first, rest, hrun, rfl, hshows⟩ := h
      refine ⟨(first :: rest).map Delta.event, ?_, forall₂_shown hshown hshows⟩
      rw [buildRow_eq hrun hshows, decodeRecords, hrun.decode (packable_of_shows hshows)]
      simp [decodeRecords]
    · exact ⟨events, decodeRecords_events huntagged, List.forall₂_same.mpr hself⟩

theorem decode_segments {segments : List Segment} (h : ∀ segment ∈ segments, segment.Whole)
    (huntagged : ∀ event ∈ segments.flatMap Segment.events, rowTag event = none)
    (hself : ∀ event ∈ segments.flatMap Segment.events, R event event) : ∃ decoded,
      decodeRecords (segments.flatMap (Segment.rows emitRun)) = .ok decoded ∧
        List.Forall₂ R decoded (segments.flatMap Segment.events) := by
  induction segments with
  | nil => exact ⟨[], rfl, .nil⟩
  | cons segment segments ih =>
    simp only [List.flatMap_cons, List.mem_append] at huntagged hself
    obtain ⟨front, hfront, hfrontHeld⟩ := decode_segment hshown (h segment List.mem_cons_self)
      (fun event hevent => huntagged event (.inl hevent)) fun event hevent => hself event (.inl hevent)
    obtain ⟨back, hback, hbackHeld⟩ :=
      ih (fun other hother => h other (List.mem_cons_of_mem _ hother))
        (fun event hevent => huntagged event (.inr hevent))
        fun event hevent => hself event (.inr hevent)
    refine ⟨front ++ back, ?_, List.rel_append hfrontHeld hbackHeld⟩
    rw [List.flatMap_cons, decodeRecords_append, hfront, hback]
    rfl

theorem decode_packChunkRuns {events : List Json}
    (huntagged : ∀ event ∈ events, rowTag event = none)
    (hself : ∀ event ∈ events, R event event) :
    ∃ decoded, decodeRecords (packChunkRuns events) = .ok decoded ∧
      List.Forall₂ R decoded events := by
  obtain ⟨segments, hwhole, hout, rfl⟩ := packRuns_segments emitRun events
  rw [packChunkRuns, hout]
  exact decode_segments hshown hwhole huntagged hself

end Decode

theorem decode_batches {batches : List (List Json)}
    (hevents : ∀ event ∈ batches.flatten, IsEvent event) :
    ∃ decoded, decodeRecords (batches.flatMap packChunkRuns) = .ok decoded ∧
      SameEvents decoded batches.flatten := by
  induction batches with
  | nil => exact ⟨[], rfl, .nil⟩
  | cons batch batches ih =>
    simp only [List.flatten_cons, List.mem_append] at hevents
    have hbatch : ∃ decoded, decodeRecords (packChunkRuns batch) = .ok decoded ∧
        List.Forall₂ (fun a b => a.deepEqual b = true) decoded batch :=
      decode_packChunkRuns (fun _ _ hevent => hevent.same)
        (fun event hevent => (hevents event (.inl hevent)).untagged)
        fun event hevent => Json.deepEqual_refl event (hevents event (.inl hevent)).lossless
    obtain ⟨front, hfront, hsameFront⟩ := hbatch
    obtain ⟨back, hback, hsameBack⟩ := ih fun event hevent => hevents event (.inr hevent)
    refine ⟨front ++ back, ?_, List.rel_append hsameFront hsameBack⟩
    rw [List.flatMap_cons, decodeRecords_append, hfront, hback]
    rfl

end ChunkRows

end Harness
