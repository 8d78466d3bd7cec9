import Harness.Foundation.Machine
import Harness.Sqlite.Laid

/-! Every database a sequence of appends and repairs leads to holds laid rows, so a suffix read
and a tail read see the log that a whole read sees. -/

namespace Harness.Sqlite

open Harness.Foundation
open Harness.ChunkRows (seqOf Restored)

def Numbered : Int → List Json → Prop
  | _, [] => True
  | start, event :: events => seqOf event = start ∧ Numbered (start + 1) events

structure Batch where
  events : List Json
  envelopes : ∀ event ∈ events, Envelope event
  typed : ∀ event ∈ events, typeOf event ≠ ""
  numbered : ∃ start, Numbered start events

inductive Call
  | appendBatch (header : SessionHeader) (batch : Batch) (isMaterialized : Bool)
  | commitRepair (header : SessionHeader) (tornMarker : Option Int) (closers : Batch)

def Call.perform (zstd : Zstd) (db : Database) : Call → Except String Database
  | appendBatch header batch isMaterialized =>
    Sqlite.appendBatch zstd db header batch.events isMaterialized
  | commitRepair header tornMarker closers =>
    Sqlite.commitRepair zstd db header tornMarker closers.events

def transact (zstd : Zstd) (db : Database) (call : Call) : Database × Except String Unit :=
  match call.perform zstd db with
  | .ok db' => (db', .ok ())
  | .error message => (db, .error message)

def databaseAfter (zstd : Zstd) (calls : List Call) : Database :=
  (transcript (transact zstd) Database.empty calls).1

section Batches

variable {zstd : Zstd} {start : Int}

theorem numbered_append {front back : List Json} : Numbered start (front ++ back) ↔
    Numbered start front ∧ Numbered (start + front.length) back := by
  induction front generalizing start with
  | nil => simp [Numbered]
  | cons event front ih =>
    have hlength : start + 1 + (front.length : Int) = start + ((event :: front).length : Nat) := by
      rw [List.length_cons]
      omega
    rw [List.cons_append, Numbered, Numbered, ih, and_assoc, hlength]

theorem contiguousFrom_restored {decoded events : List Json}
    (h : List.Forall₂ Restored decoded events) (hnumbered : Numbered start events) :
    contiguousFrom start decoded = true := by
  induction h generalizing start with
  | nil => rfl
  | cons hrestored _ ih =>
    obtain ⟨hseq, hrest⟩ := hnumbered
    exact contiguousFrom_cons.mpr ⟨by rw [hrestored.seq, hseq], ih hrest⟩

theorem safe_restored {decoded events : List Json} (h : List.Forall₂ Restored decoded events)
    (hevents : ∀ event ∈ events, Envelope event) :
    ∀ event ∈ decoded, isSafe (seqOf event) = true := by
  induction h with
  | nil => simp
  | @cons event original decoded events hrestored _ ih =>
    intro other hother
    rcases List.mem_cons.mp hother with rfl | hmem
    · obtain ⟨_, seq, _, _, _, ⟨hseq, hsafe⟩, _⟩ := (hevents original List.mem_cons_self).read
      rw [seqOf_of_get hrestored.seq, seqOf_of_get hseq]
      exact hsafe
    · exact ih (fun later hlater => hevents later (List.mem_cons_of_mem _ hlater)) other hmem

theorem decodeEventRow_eq {row : EventRow} {events : List Json} (h : RowHolds zstd row events)
    (htyped : ∀ event ∈ events, typeOf event ≠ "") : decodeEventRow row = .ok row := by
  have hignorable : (row.ignorable.isNone || row.ignorable = some 0 || row.ignorable = some 1) =
      true := by
    rcases h.ignorable with hvalue | hvalue | hvalue <;> simp [hvalue]
  rw [decodeEventRow, hignorable, h.seqSafe.2, h.timeSafe, decide_eq_true h.seqSafe.1,
    decide_eq_true (h.type htyped)]
  rfl

theorem RowHolds.piece {row : EventRow} {events : List Json} (h : RowHolds zstd row events)
    (hnumbered : Numbered start events) (hevents : ∀ event ∈ events, Envelope event)
    (htyped : ∀ event ∈ events, typeOf event ≠ "") :
    ∃ decoded, Piece zstd start row decoded ∧ decoded.length = events.length := by
  obtain ⟨decoded, hread, hrestored⟩ := h.decoded
  have hlength := hrestored.length_eq
  refine ⟨decoded, ?_, hlength⟩
  obtain ⟨first, rest, rfl⟩ : ∃ first rest, events = first :: rest := by
    cases events with
    | nil => simpa using h.seq
    | cons first rest => exact ⟨first, rest, rfl⟩
  exact
    { read := hread
      seq := by rw [← Option.some.inj h.seq, ← hnumbered.1]
      contiguous := contiguousFrom_restored hrestored hnumbered
      nonempty := by rw [hlength]; exact Nat.succ_pos _
      bounded := by rw [hlength]; exact h.length
      safe := safe_restored hrestored hevents
      packed := by rw [hlength]; exact h.packed
      columns := decodeEventRow_eq h htyped }

theorem RowsHold.laid {rows : List EventRow} {events : List Json} (h : RowsHold zstd rows events)
    (hnumbered : Numbered start events) (hevents : ∀ event ∈ events, Envelope event)
    (htyped : ∀ event ∈ events, typeOf event ≠ "") : ∃ decoded, Laid zstd start rows decoded := by
  obtain ⟨pieces, hpieces, rfl⟩ := h
  induction hpieces generalizing start with
  | nil => exact ⟨[], .nil start⟩
  | @cons row piece rows pieces hrow _ ih =>
    rw [List.flatten_cons] at hnumbered
    obtain ⟨hfront, hback⟩ := numbered_append.mp hnumbered
    simp only [List.flatten_cons, List.mem_append] at hevents htyped
    obtain ⟨decoded, hpiece, hlength⟩ := hrow.piece hfront
      (fun event hevent => hevents event (.inl hevent))
      fun event hevent => htyped event (.inl hevent)
    rw [← hlength] at hback
    obtain ⟨others, hothers⟩ := ih hback (fun event hevent => hevents event (.inr hevent))
      fun event hevent => htyped event (.inr hevent)
    exact ⟨decoded ++ others, .cons hpiece hothers⟩

theorem rowsHold_bindRecords (hlossless : zstd.Lossless) {events : List Json}
    (hevents : ∀ event ∈ events, Envelope event) {rows : List EventRow}
    (hbind : bindRecords zstd events = .ok rows) : RowsHold zstd rows events := by
  induction events generalizing rows with
  | nil =>
    obtain rfl := Except.ok.inj hbind
    exact .nil
  | cons event events ih =>
    obtain ⟨row, hrow, hrest⟩ := bind_eq_ok.mp hbind
    obtain ⟨rest, hbound, hcons⟩ := bind_eq_ok.mp hrest
    obtain rfl := Except.ok.inj hcons
    exact .cons (decodeRow_event hlossless (hevents event List.mem_cons_self) hrow)
      (ih (fun other hother => hevents other (List.mem_cons_of_mem _ hother)) hbound)

variable {first : Json} {rest : List Json} {rows : List EventRow}

theorem Batch.numbered_head (batch : Batch) (h : batch.events = first :: rest) :
    Numbered (seqOf first) batch.events := by
  obtain ⟨start, hnumbered⟩ := batch.numbered
  have hhead := hnumbered
  rw [h] at hhead
  rw [hhead.1]
  exact hnumbered

theorem Batch.laid_append (hlossless : zstd.Lossless) (batch : Batch)
    (h : batch.events = first :: rest)
    (hbind : bindRecords zstd (packChunkRuns batch.events) = .ok rows) :
    ∃ decoded, Laid zstd (seqOf first) rows decoded :=
  (rowsHold_packChunkRuns hlossless batch.envelopes hbind).laid (batch.numbered_head h)
    batch.envelopes batch.typed

theorem Batch.laid_closers (hlossless : zstd.Lossless) (batch : Batch)
    (h : batch.events = first :: rest) (hbind : bindRecords zstd batch.events = .ok rows) :
    ∃ decoded, Laid zstd (seqOf first) rows decoded :=
  (rowsHold_bindRecords hlossless batch.envelopes hbind).laid (batch.numbered_head h)
    batch.envelopes batch.typed

end Batches

section Reads

variable {zstd : Zstd} {db : Database} {id : String} {events : List Json}

theorem loadStored_laid (h : Laid zstd 0 (db.events id) events) {row : SessionRow}
    (hrow : db.sessions id = some row) : loadStored zstd db id = .ok (some
      { header := row.header, events, revision := row.revision, tornMarker := none }) := by
  rw [loadStored, hrow]
  simp only [decodeEventRows_eq h.columns, h.scanRows_eq, ok_bind]
  rfl

theorem physicalSpanFrom_laid (h : Laid zstd 0 (db.events id) events) (fromSeq : Nat) :
    ∃ base back later, physicalSpanFrom zstd db id fromSeq = .ok { base, eventRows := back } ∧
      Laid zstd base back later ∧
      later.filter (fun event => decide ((fromSeq : Int) ≤ seqOf event)) =
        events.filter fun event => decide ((fromSeq : Int) ≤ seqOf event) := by
  obtain ⟨front, back, earlier, later, hrows, rfl, hfront, hbefore, hback⟩ :=
    h.cover (Int.natCast_nonneg fromSeq)
  have hfilter : later.filter (fun event => decide ((fromSeq : Int) ≤ seqOf event)) =
      (earlier ++ later).filter fun event => decide ((fromSeq : Int) ≤ seqOf event) := by
    have hnone : earlier.filter (fun event => decide ((fromSeq : Int) ≤ seqOf event)) = [] := by
      rw [List.filter_eq_nil_iff]
      intro event hevent
      have := seqOf_bounds hfront.contiguous event hevent
      simp only [decide_eq_true_eq]
      omega
    rw [List.filter_append, hnone, List.nil_append]
  rcases hback with hback | ⟨row, rest, piece, others, rfl, rfl, hpiece, hseq, hlt, hinside, hrest⟩
  · exact ⟨fromSeq, back, later, physicalSpanFrom_start hrows h hfront hbefore hback, hback, hfilter⟩
  · exact ⟨row.seq, row :: rest, piece ++ others, physicalSpanFrom_inside hrows h (Int.le_refl 0)
      hfront hpiece hseq hlt hinside hrest, .cons hpiece hrest, hfilter⟩

theorem loadStoredFrom_laid (h : Laid zstd 0 (db.events id) events) {row : SessionRow}
    (hrow : db.sessions id = some row) (fromSeq : Nat) :
    loadStoredFrom zstd db id fromSeq = .ok (some
      { header := row.header
        events := events.filter fun event => decide ((fromSeq : Int) ≤ seqOf event) }) := by
  obtain ⟨base, back, later, hspan, hback, hfilter⟩ := physicalSpanFrom_laid h fromSeq
  rw [loadStoredFrom, hrow]
  simp only [hspan, hback.scanRows_eq, hfilter, ok_bind]
  rfl

theorem selectTail_eq (rows : List EventRow) (limit : Nat) :
    selectTail rows limit = rows.drop (rows.length - limit) := by
  rw [selectTail, List.take_reverse, List.reverse_reverse]

theorem logicalLastEvent_laid (h : Laid zstd 0 (db.events id) events) :
    ∃ tail, tailRows zstd db id = .ok tail ∧
      logicalLastEvent zstd id tail = .ok events.getLast? := by
  have hsplit := (List.take_append_drop ((db.events id).length - 2) (db.events id)).symm
  have hlaid := h
  rw [hsplit] at hlaid
  obtain ⟨earlier, later, rfl, hfront, hback⟩ := hlaid.split
  rw [tailRows, selectTail_eq, decodeEventRows_eq hback.columns, ok_bind]
  cases hdrop : (db.events id).drop ((db.events id).length - 2) with
  | nil =>
    have hempty : db.events id = [] := by
      have := congrArg List.length hdrop
      rw [List.length_drop, List.length_nil] at this
      exact List.length_eq_zero_iff.mp (by omega)
    rw [h.events_eq_nil_iff.mpr hempty]
    exact ⟨[], rfl, rfl⟩
  | cons first rest =>
    rw [hdrop] at hback hsplit
    have hseq : first.seq = 0 + (earlier.length : Int) := by
      cases hback with
      | cons hpiece _ => exact hpiece.seq
    rw [← hseq] at hback
    have hspan := physicalSpanFrom_start hsplit h hfront (Int.le_of_eq hseq.symm) hback
    have hnonempty : later ≠ [] := fun hnil => by simpa using hback.events_eq_nil_iff.mp hnil
    refine ⟨first :: rest, by simp only [hspan, ok_bind]; rfl, ?_⟩
    rw [logicalLastEvent, hback.scanRows_eq, ok_bind, List.getLast?_append_of_ne_nil _ hnonempty]
    rfl

theorem seqAfterLast_laid (h : Laid zstd 0 (db.events id) events) :
    seqAfterLast events.getLast? = events.length := by
  cases hlast : events.getLast? with
  | none =>
    obtain rfl := List.getLast?_eq_none_iff.mp hlast
    rfl
  | some last =>
    have hmem := List.mem_of_getLast? hlast
    have hseq := seqOf_getLast? h.contiguous hlast
    have hsafe := isSafe_iff.mp (h.safe last hmem)
    have hpositive := List.length_pos_of_mem hmem
    rw [seqAfterLast, addDouble_of_le (by omega)]
    omega

end Reads

section Writes

variable {zstd : Zstd} {db db' : Database} {id : String} {start : Int} {events : List Json}
  {records : List Json} {rows : List EventRow}

theorem insertRow_append {row : EventRow} (hsession : (db.sessions id).isSome = true)
    (hlast : ∀ other ∈ db.events id, other.seq < row.seq) :
    insertRow db id row = .ok (db.setEvents id (db.events id ++ [row])) := by
  have hfresh : ((db.events id).any fun other => other.seq == row.seq) = false := by
    rw [List.any_eq_false]
    intro other hother
    have := hlast other hother
    simp only [beq_iff_eq]
    omega
  have hbefore : (db.events id).filter (fun other => decide (other.seq < row.seq)) =
      db.events id := List.filter_eq_self.mpr fun other hother => decide_eq_true (hlast other hother)
  have hafter : (db.events id).filter (fun other => decide (row.seq < other.seq)) = [] := by
    rw [List.filter_eq_nil_iff]
    intro other hother
    have := hlast other hother
    simp only [decide_eq_true_eq]
    omega
  rw [insertRow, hsession, hfresh, hbefore, hafter]
  rfl

@[simp] theorem setEvents_sessions (rows : List EventRow) :
    (db.setEvents id rows).sessions = db.sessions := rfl

@[simp] theorem setEvents_events (rows : List EventRow) :
    (db.setEvents id rows).events id = rows := by
  simp [Database.setEvents]

@[simp] theorem setEvents_setEvents (rows later : List EventRow) :
    (db.setEvents id rows).setEvents id later = db.setEvents id later := by
  simp [Database.setEvents]

theorem insertRecords_append {decoded : List Json} (hbind : bindRecords zstd records = .ok rows)
    (hlaid : Laid zstd start rows decoded) (hsession : (db.sessions id).isSome = true)
    (hlast : ∀ other ∈ db.events id, other.seq < start) :
    insertRecords zstd id db records = .ok (db.setEvents id (db.events id ++ rows)) := by
  induction records generalizing db start rows decoded with
  | nil =>
    obtain rfl := Except.ok.inj hbind
    rw [insertRecords, List.append_nil, Database.setEvents, Function.update_eq_self]
  | cons record records ih =>
    obtain ⟨row, hrow, hrest⟩ := bind_eq_ok.mp hbind
    obtain ⟨rest, hbound, hcons⟩ := bind_eq_ok.mp hrest
    obtain rfl := Except.ok.inj hcons
    cases hlaid with
    | cons hpiece hrows =>
      rename_i piece others
      have hpositive := hpiece.nonempty
      have hinsert : insertRow db id row = .ok (db.setEvents id (db.events id ++ [row])) :=
        insertRow_append hsession fun other hother => by
          rw [hpiece.seq]
          exact hlast other hother
      have hlater : ∀ other ∈ (db.setEvents id (db.events id ++ [row])).events id,
          other.seq < start + piece.length := by
        intro other hother
        rw [setEvents_events, List.mem_append, List.mem_singleton] at hother
        rcases hother with hold | rfl
        · have := hlast other hold
          omega
        · rw [hpiece.seq]
          omega
      have hkept : ((db.setEvents id (db.events id ++ [row])).sessions id).isSome = true := hsession
      rw [insertRecords, hrow, ok_bind, hinsert, ok_bind, ih hbound hrows hkept hlater,
        setEvents_events, setEvents_setEvents, List.append_assoc]
      rfl

theorem insertRecords_ok (h : insertRecords zstd id db records = .ok db') :
    db'.sessions = db.sessions ∧ ∃ rows, bindRecords zstd records = .ok rows := by
  induction records generalizing db with
  | nil =>
    obtain rfl := Except.ok.inj h
    exact ⟨rfl, [], rfl⟩
  | cons record records ih =>
    obtain ⟨row, hrow, hinserted⟩ := bind_eq_ok.mp h
    obtain ⟨next, hnext, hrest⟩ := bind_eq_ok.mp hinserted
    obtain ⟨hsessions, rows, hbound⟩ := ih hrest
    obtain ⟨_, _, hinsert⟩ := bind_eq_ok.mp hnext
    obtain ⟨_, _, hset⟩ := bind_eq_ok.mp hinsert
    obtain rfl := Except.ok.inj hset
    exact ⟨hsessions, row :: rows, by rw [bindRecords, hrow, ok_bind, hbound]; rfl⟩

def extended (db : Database) (id : String) (rows : List EventRow) (row : SessionRow) : Database :=
  (db.setEvents id (db.events id ++ rows)).setSession id { row with revision := row.revision + 1 }

theorem extend_iff (hlaid : ∀ rows, bindRecords zstd records = .ok rows →
      ∃ decoded, Laid zstd start rows decoded)
    (hlast : ∀ other ∈ db.events id, other.seq < start) :
    (insertRecords zstd id db records >>= fun next => incrementRevision next id) = .ok db' ↔
      ∃ rows row, bindRecords zstd records = .ok rows ∧ db.sessions id = some row ∧
        db' = extended db id rows row := by
  constructor
  · intro h
    obtain ⟨next, hinsert, hincrement⟩ := bind_eq_ok.mp h
    obtain ⟨hsessions, rows, hbind⟩ := insertRecords_ok hinsert
    obtain ⟨row, hrow, hdone⟩ := bind_eq_ok.mp hincrement
    rw [expect_eq_ok, hsessions] at hrow
    obtain ⟨decoded, hrows⟩ := hlaid rows hbind
    rw [insertRecords_append hbind hrows (Option.isSome_iff_exists.mpr ⟨row, hrow⟩) hlast] at hinsert
    obtain rfl := Except.ok.inj hinsert
    exact ⟨rows, row, hbind, hrow, (Except.ok.inj hdone).symm⟩
  · rintro ⟨rows, row, hbind, hrow, rfl⟩
    obtain ⟨decoded, hrows⟩ := hlaid rows hbind
    rw [insertRecords_append hbind hrows (Option.isSome_iff_exists.mpr ⟨row, hrow⟩) hlast, ok_bind,
      incrementRevision, setEvents_sessions, hrow]
    rfl

@[simp] theorem extended_events (id : String) (rows : List EventRow) (row : SessionRow) :
    (extended db id rows row).events = Function.update db.events id (db.events id ++ rows) := rfl

@[simp] theorem extended_sessions (id : String) (rows : List EventRow) (row : SessionRow) :
    (extended db id rows row).sessions =
      Function.update db.sessions id (some { row with revision := row.revision + 1 }) := rfl

def prepared (db : Database) (header : SessionHeader) (isMaterialized : Bool) : Database :=
  if isMaterialized then db else writeRow db header

@[simp] theorem prepared_events (header : SessionHeader) (isMaterialized : Bool) :
    (prepared db header isMaterialized).events = db.events := by
  unfold prepared
  split <;> rfl

theorem prepared_sessions {header : SessionHeader} {isMaterialized : Bool} {other : String}
    (hother : other ≠ header.id) :
    (prepared db header isMaterialized).sessions other = db.sessions other := by
  unfold prepared writeRow Database.setSession
  split
  · rfl
  · exact Function.update_of_ne hother _ _

theorem prepared_session_iff {header : SessionHeader} {isMaterialized : Bool} :
    (∃ row, (prepared db header isMaterialized).sessions header.id = some row) ↔
      (isMaterialized = true → ∃ row, db.sessions header.id = some row) := by
  cases isMaterialized with
  | true => simp [prepared]
  | false => simp [prepared, writeRow, Database.setSession]

theorem appendBatch_iff (hlossless : zstd.Lossless) {header : SessionHeader} {batch : Batch}
    {isMaterialized : Bool} {first : Json} {rest : List Json}
    (hlaid : Laid zstd 0 (db.events header.id) events) (hbatch : batch.events = first :: rest) :
    appendBatch zstd db header batch.events isMaterialized = .ok db' ↔
      seqOf first = events.length ∧ ∃ rows row,
        bindRecords zstd (packChunkRuns batch.events) = .ok rows ∧
        (prepared db header isMaterialized).sessions header.id = some row ∧
        db' = extended (prepared db header isMaterialized) header.id rows row := by
  obtain ⟨tail, htail, hlast⟩ := logicalLastEvent_laid hlaid
  have hrows : ∀ rows, bindRecords zstd (packChunkRuns batch.events) = .ok rows →
      ∃ decoded, Laid zstd (seqOf first) rows decoded :=
    fun _ => batch.laid_append hlossless hbatch
  rw [hbatch] at hrows ⊢
  rw [appendBatch]
  simp only [htail, hlast, ok_bind, seqAfterLast_laid hlaid]
  by_cases hseq : seqOf first = events.length
  · have hbefore : ∀ other ∈ (prepared db header isMaterialized).events header.id,
        other.seq < seqOf first := by
      intro other hother
      rw [prepared_events] at hother
      have := (hlaid.rowSeq_bounds other hother).2
      omega
    rw [beq_iff_eq.mpr hseq, require_true, ok_bind, and_iff_right hseq]
    exact extend_iff hrows hbefore
  · rw [beq_eq_false_iff_ne.mpr hseq, require_false, error_bind]
    simp [hseq]

theorem commitRepair_ok (hlossless : zstd.Lossless) {header : SessionHeader} {batch : Batch}
    {tornMarker : Option Int} (hlaid : Laid zstd 0 (db.events header.id) events)
    (h : commitRepair zstd db header tornMarker batch.events = .ok db') :
    db' = db ∨ ∃ first rest rows row, batch.events = first :: rest ∧
      seqOf first = events.length ∧ bindRecords zstd batch.events = .ok rows ∧
      db.sessions header.id = some row ∧ db' = extended db header.id rows row := by
  rw [commitRepair] at h
  by_cases hnothing : (tornMarker.isNone && batch.events.isEmpty) = true
  · rw [if_pos hnothing] at h
    exact .inl (Except.ok.inj h).symm
  rw [if_neg hnothing] at h
  obtain ⟨_, _, hread⟩ := bind_eq_ok.mp h
  simp only [decodeEventRows_eq hlaid.columns, hlaid.scanRows_eq, ok_bind] at hread
  obtain ⟨kept, hkept, hrest⟩ := bind_eq_ok.mp hread
  cases tornMarker with
  | some tornMarker => simp [deleteTorn] at hkept
  | none =>
    obtain rfl := Except.ok.inj hkept
    cases hevents : batch.events with
    | nil => simp [hevents] at hnothing
    | cons first rest =>
      have hrows : ∀ rows, bindRecords zstd batch.events = .ok rows →
          ∃ decoded, Laid zstd (seqOf first) rows decoded :=
        fun _ => batch.laid_closers hlossless hevents
      rw [hevents] at hrest hrows
      rw [insertClosers] at hrest
      simp only [seqAfterLast_laid hlaid] at hrest
      by_cases hseq : seqOf first = events.length
      · rw [beq_iff_eq.mpr hseq, require_true, ok_bind] at hrest
        have hbefore : ∀ other ∈ db.events header.id, other.seq < seqOf first := by
          intro other hother
          have := (hlaid.rowSeq_bounds other hother).2
          omega
        obtain ⟨rows, row, hbind, hrow, hdone⟩ := (extend_iff hrows hbefore).mp hrest
        exact .inr ⟨first, rest, rows, row, rfl, hseq, hbind, hrow, hdone⟩
      · rw [beq_eq_false_iff_ne.mpr hseq, require_false, error_bind] at hrest
        simp at hrest

/-- Every session's rows are laid from seq zero, and only sessions the store knows have rows. -/
structure Stored (zstd : Zstd) (db : Database) : Prop where
  laid : ∀ id, ∃ events, Laid zstd 0 (db.events id) events
  owned : ∀ id, db.sessions id = none → db.events id = []

theorem Stored.empty : Stored zstd Database.empty :=
  ⟨fun _ => ⟨[], .nil 0⟩, fun _ _ => rfl⟩

theorem Stored.extended {row : SessionRow} {decoded : List Json} (h : Stored zstd db)
    (hlaid : Laid zstd 0 (db.events id) events) (hrows : Laid zstd events.length rows decoded)
    {base : Database} (hevents : base.events = db.events)
    (hsessions : ∀ other, other ≠ id → base.sessions other = db.sessions other) :
    Stored zstd (extended base id rows row) := by
  constructor
  · intro other
    rw [extended_events, hevents]
    by_cases hother : other = id
    · subst hother
      rw [Function.update_self]
      exact ⟨events ++ decoded, hlaid.append (by simpa using hrows)⟩
    · rw [Function.update_of_ne hother]
      exact h.laid other
  · intro other hnone
    by_cases hother : other = id
    · subst hother
      simp at hnone
    · rw [extended_sessions, Function.update_of_ne hother, hsessions other hother] at hnone
      rw [extended_events, hevents, Function.update_of_ne hother]
      exact h.owned other hnone

theorem Stored.perform (hlossless : zstd.Lossless) (h : Stored zstd db) {call : Call}
    (hcall : call.perform zstd db = .ok db') : Stored zstd db' := by
  cases call with
  | appendBatch header batch isMaterialized =>
    rw [Call.perform] at hcall
    obtain ⟨events, hlaid⟩ := h.laid header.id
    cases hbatch : batch.events with
    | nil =>
      rw [hbatch] at hcall
      obtain rfl := Except.ok.inj hcall
      exact h
    | cons first rest =>
      obtain ⟨hseq, rows, row, hbind, hrow, rfl⟩ :=
        (appendBatch_iff hlossless hlaid hbatch).mp hcall
      obtain ⟨decoded, hrows⟩ := batch.laid_append hlossless hbatch hbind
      rw [hseq] at hrows
      exact h.extended hlaid hrows (prepared_events header isMaterialized)
        fun other hother => prepared_sessions hother
  | commitRepair header tornMarker closers =>
    rw [Call.perform] at hcall
    obtain ⟨events, hlaid⟩ := h.laid header.id
    rcases commitRepair_ok hlossless hlaid hcall with
      rfl | ⟨first, rest, rows, row, hclosers, hseq, hbind, hrow, rfl⟩
    · exact h
    · obtain ⟨decoded, hrows⟩ := closers.laid_closers hlossless hclosers hbind
      rw [hseq] at hrows
      exact h.extended hlaid hrows rfl fun other _ => rfl

theorem Stored.transact (hlossless : zstd.Lossless) (h : Stored zstd db) (call : Call) :
    Stored zstd (transact zstd db call).1 := by
  unfold Sqlite.transact
  cases hcall : call.perform zstd db with
  | error message => exact h
  | ok db' => exact h.perform hlossless hcall

theorem stored_databaseAfter (hlossless : zstd.Lossless) (calls : List Call) :
    Stored zstd (databaseAfter zstd calls) :=
  transcript_invariant (Stored zstd) (fun _ call h => h.transact hlossless call) calls .empty

end Writes

/-- In every database a sequence of appends and repairs leads to, a read from any seq on is the
whole read without the earlier events, the tail rows end in its last event, and an append is
accepted exactly when it continues it. -/
theorem suffix_and_tail_follow_log (zstd : Zstd) (hlossless : zstd.Lossless) (calls : List Call)
    (id : String) : ∃ loaded, loadStored zstd (databaseAfter zstd calls) id = .ok loaded ∧
      (∀ fromSeq : Nat, loadStoredFrom zstd (databaseAfter zstd calls) id fromSeq =
        .ok (loaded.map fun stored =>
          { header := stored.header
            events := stored.events.filter fun event => (fromSeq : Int) ≤ seqOf event })) ∧
      ∀ events, events = (loaded.map StoredPrefix.events).getD [] →
        (∃ tail, tailRows zstd (databaseAfter zstd calls) id = .ok tail ∧
          logicalLastEvent zstd id tail = .ok events.getLast?) ∧
        ∀ (header : SessionHeader) (batch : Batch) (isMaterialized : Bool) (first : Json),
          header.id = id → batch.events.head? = some first →
          ((∃ db, appendBatch zstd (databaseAfter zstd calls) header batch.events isMaterialized =
              .ok db) ↔
            seqOf first = events.length ∧ (isMaterialized = true → loaded.isSome = true) ∧
              ∃ rows, bindRecords zstd (packChunkRuns batch.events) = .ok rows) := by
  have hstored := stored_databaseAfter hlossless calls
  generalize databaseAfter zstd calls = db at hstored
  obtain ⟨events, hlaid⟩ := hstored.laid id
  have haccept : ∀ (header : SessionHeader) (batch : Batch) (isMaterialized : Bool) (first : Json),
      header.id = id → batch.events.head? = some first →
        ((∃ db', appendBatch zstd db header batch.events isMaterialized = .ok db') ↔
          seqOf first = events.length ∧
            (isMaterialized = true → ∃ row, db.sessions id = some row) ∧
            ∃ rows, bindRecords zstd (packChunkRuns batch.events) = .ok rows) := by
    rintro header batch isMaterialized first rfl hhead
    obtain ⟨rest, hbatch⟩ := List.head?_eq_some_iff.mp hhead
    rw [← prepared_session_iff]
    constructor
    · rintro ⟨db', happend⟩
      obtain ⟨hseq, rows, row, hbind, hrow, _⟩ := (appendBatch_iff hlossless hlaid hbatch).mp happend
      exact ⟨hseq, ⟨row, hrow⟩, rows, hbind⟩
    · rintro ⟨hseq, ⟨row, hrow⟩, rows, hbind⟩
      exact ⟨_, (appendBatch_iff hlossless hlaid hbatch).mpr ⟨hseq, rows, row, hbind, hrow, rfl⟩⟩
  cases hsession : db.sessions id with
  | none =>
    have hempty := hstored.owned id hsession
    obtain rfl := hlaid.events_eq_nil_iff.mpr hempty
    refine ⟨none, by rw [loadStored, hsession], ?_, ?_⟩
    · intro fromSeq
      rw [loadStoredFrom, hsession]
      rfl
    · rintro _ rfl
      refine ⟨logicalLastEvent_laid hlaid, ?_⟩
      intro header batch isMaterialized first hid hhead
      rw [haccept header batch isMaterialized first hid hhead, hsession]
      simp
  | some row =>
    refine ⟨_, loadStored_laid hlaid hsession, fun fromSeq => loadStoredFrom_laid hlaid hsession
      fromSeq, ?_⟩
    rintro _ rfl
    refine ⟨logicalLastEvent_laid hlaid, ?_⟩
    intro header batch isMaterialized first hid hhead
    rw [haccept header batch isMaterialized first hid hhead, hsession]
    simp

def streamedHeader : SessionHeader := { id := "session", columns := .null }

def streamedAppend : Batch where
  events := streamedBatch
  envelopes := streamedBatch_envelopes
  typed := by
    intro event hevent
    simp only [streamedBatch, streamedDeltas, List.map_cons, List.map_nil, List.mem_cons,
      List.not_mem_nil, or_false] at hevent
    rcases hevent with rfl | rfl | rfl <;> decide
  numbered := ⟨0, by decide, by decide, by decide, trivial⟩

def streamedCall : Call := .appendBatch streamedHeader streamedAppend false

theorem streamedBatch_suffix : ∃ stored,
    loadStored storedFrames (databaseAfter storedFrames [streamedCall]) "session" =
      .ok (some stored) ∧
    loadStoredFrom storedFrames (databaseAfter storedFrames [streamedCall]) "session" 1 =
      .ok (some
        { header := stored.header
          events := stored.events.filter fun event => (1 : Int) ≤ seqOf event }) := by
  obtain ⟨loaded, hloaded, hsuffix, _⟩ :=
    suffix_and_tail_follow_log storedFrames storedFrames_lossless [streamedCall] "session"
  obtain ⟨rows, hbind⟩ := streamedBatch_binds
  have happend : appendBatch storedFrames Database.empty streamedHeader streamedAppend.events
      false = .ok (extended (prepared Database.empty streamedHeader false) "session" rows
        { header := streamedHeader, revision := 0 }) :=
    (@appendBatch_iff _ _ _ _ storedFrames_lossless streamedHeader streamedAppend _ _ _
      (.nil 0) rfl).mpr ⟨by decide, rows, _, hbind, rfl, rfl⟩
  cases loaded with
  | none =>
    have hafter : databaseAfter storedFrames [streamedCall] =
        extended (prepared Database.empty streamedHeader false) "session" rows
          { header := streamedHeader, revision := 0 } := by
      simp only [databaseAfter, transcript_cons, transcript_nil, transact, streamedCall,
        Call.perform, happend]
    rw [hafter, loadStored] at hloaded
    simp only [extended_sessions, Function.update_self] at hloaded
    obtain ⟨_, _, hread⟩ := bind_eq_ok.mp hloaded
    obtain ⟨_, _, hnone⟩ := bind_eq_ok.mp hread
    exact absurd (Except.ok.inj hnone) (by simp)
  | some stored => exact ⟨stored, hloaded, hsuffix 1⟩

end Harness.Sqlite
