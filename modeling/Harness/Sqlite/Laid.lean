import Harness.Sqlite.Store
import Harness.Sqlite.BatchSound

namespace Harness.Sqlite

open Harness.Foundation
open Harness.ChunkRows (seqOf)

theorem seqOf_of_get {event : Json} {seq : Int} (h : event.get? "seq" = some (.int seq)) :
    seqOf event = seq := by
  rw [seqOf, ChunkRows.intField, h]
  rfl

section Contiguous

variable {start : Int} {event : Json} {front back events : List Json}

theorem contiguousFrom_cons : contiguousFrom start (event :: events) = true ↔
    event.get? "seq" = some (.int start) ∧ contiguousFrom (start + 1) events = true := by
  rw [contiguousFrom, Bool.and_eq_true, beq_iff_eq]

theorem contiguousFrom_append : contiguousFrom start (front ++ back) = true ↔
    contiguousFrom start front = true ∧ contiguousFrom (start + front.length) back = true := by
  induction front generalizing start with
  | nil => simp [contiguousFrom]
  | cons event front ih =>
    have hlength : start + 1 + (front.length : Int) = start + ((event :: front).length : Nat) := by
      rw [List.length_cons]
      omega
    rw [List.cons_append, contiguousFrom_cons, contiguousFrom_cons, ih, and_assoc, hlength]

theorem seqOf_bounds (h : contiguousFrom start events = true) :
    ∀ event ∈ events, start ≤ seqOf event ∧ seqOf event < start + events.length := by
  induction events generalizing start with
  | nil => simp
  | cons event events ih =>
    obtain ⟨hseq, hrest⟩ := contiguousFrom_cons.mp h
    intro other hother
    rw [List.length_cons]
    rcases List.mem_cons.mp hother with rfl | hmem
    · rw [seqOf_of_get hseq]
      omega
    · have := ih hrest other hmem
      omega

theorem seqOf_getLast? (h : contiguousFrom start events = true) {last : Json}
    (hlast : events.getLast? = some last) : seqOf last = start + events.length - 1 := by
  obtain ⟨front, rfl⟩ := List.getLast?_eq_some_iff.mp hlast
  obtain ⟨_, hsingle⟩ := contiguousFrom_append.mp h
  rw [seqOf_of_get (contiguousFrom_cons.mp hsingle).1, List.length_append, List.length_singleton]
  omega

end Contiguous

structure Piece (zstd : Zstd) (start : Int) (row : EventRow) (events : List Json) : Prop where
  read : decodeRow zstd row = .ok events
  seq : row.seq = start
  contiguous : contiguousFrom start events = true
  nonempty : 0 < events.length
  bounded : events.length ≤ maxPackedRowMembers
  safe : ∀ event ∈ events, isSafe (seqOf event) = true
  packed : 1 < events.length → row.ignorable = some packedRowSentinel ∧
    (chunkTag? row.type).isSome = true
  columns : decodeEventRow row = .ok row

inductive Laid (zstd : Zstd) : Int → List EventRow → List Json → Prop
  | nil (start : Int) : Laid zstd start [] []
  | cons {start : Int} {row : EventRow} {rows : List EventRow} {piece events : List Json} :
    Piece zstd start row piece → Laid zstd (start + piece.length) rows events →
      Laid zstd start (row :: rows) (piece ++ events)

namespace Laid

variable {zstd : Zstd} {start : Int} {rows front back : List EventRow} {events : List Json}

theorem append {later : List Json} (h : Laid zstd start front events)
    (hback : Laid zstd (start + events.length) back later) :
    Laid zstd start (front ++ back) (events ++ later) := by
  induction h with
  | nil start => simpa using hback
  | cons hpiece _ ih =>
    rename_i piece events _
    rw [List.cons_append, List.append_assoc]
    refine .cons hpiece (ih ?_)
    rw [List.length_append, Nat.cast_add, ← Int.add_assoc] at hback
    exact hback

theorem split (h : Laid zstd start (front ++ back) events) :
    ∃ earlier later, events = earlier ++ later ∧ Laid zstd start front earlier ∧
      Laid zstd (start + earlier.length) back later := by
  induction front generalizing start events with
  | nil => exact ⟨[], events, rfl, .nil start, by simpa using h⟩
  | cons row front ih =>
    cases h with
    | cons hpiece hrest =>
      rename_i piece events
      obtain ⟨earlier, later, rfl, hfront, hback⟩ := ih hrest
      refine ⟨piece ++ earlier, later, (List.append_assoc ..).symm, .cons hpiece hfront, ?_⟩
      rw [List.length_append, Nat.cast_add, ← Int.add_assoc]
      exact hback

theorem contiguous (h : Laid zstd start rows events) : contiguousFrom start events = true := by
  induction h with
  | nil start => rfl
  | cons hpiece _ ih => exact contiguousFrom_append.mpr ⟨hpiece.contiguous, ih⟩

theorem safe (h : Laid zstd start rows events) : ∀ event ∈ events, isSafe (seqOf event) = true := by
  induction h with
  | nil start => simp
  | cons hpiece _ ih =>
    intro event hevent
    rcases List.mem_append.mp hevent with hmem | hmem
    · exact hpiece.safe event hmem
    · exact ih event hmem

theorem rowSeq_bounds (h : Laid zstd start rows events) :
    ∀ row ∈ rows, start ≤ row.seq ∧ row.seq < start + events.length := by
  induction h with
  | nil start => simp
  | cons hpiece _ ih =>
    intro row hrow
    have hpositive := hpiece.nonempty
    rw [List.length_append, Nat.cast_add]
    rcases List.mem_cons.mp hrow with rfl | hmem
    · rw [hpiece.seq]
      omega
    · have := ih row hmem
      omega

theorem columns (h : Laid zstd start rows events) :
    ∀ row ∈ rows, decodeEventRow row = .ok row := by
  induction h with
  | nil start => simp
  | cons hpiece _ ih =>
    intro row hrow
    rcases List.mem_cons.mp hrow with rfl | hmem
    · exact hpiece.columns
    · exact ih row hmem

theorem events_eq_nil_iff (h : Laid zstd start rows events) : events = [] ↔ rows = [] := by
  cases h with
  | nil start => simp
  | cons hpiece _ =>
    have := hpiece.nonempty
    simp [List.append_eq_nil_iff, List.ne_nil_of_length_pos this]

theorem decodeRows_eq (h : Laid zstd start rows events) : decodeRows zstd rows = .ok events := by
  induction h with
  | nil start => rfl
  | cons hpiece _ ih =>
    rw [decodeRows, hpiece.read, ok_bind, ih]
    rfl

theorem scanFrom_eq (h : Laid zstd start rows events) (committed : Nat) :
    scanFrom zstd committed start rows = .ok { preserved := events, tornFrom := none } := by
  induction h generalizing committed with
  | nil start => rfl
  | cons hpiece _ ih =>
    rw [scanFrom]
    simp only [hpiece.read, hpiece.contiguous, if_true, ih, ok_bind]
    rfl

theorem scanRows_eq (h : Laid zstd start rows events) :
    scanRows zstd rows start = .ok { preserved := events, tornFrom := none } :=
  h.scanFrom_eq _

theorem cover (h : Laid zstd start rows events) {fromSeq : Int} (hfrom : start ≤ fromSeq) :
    ∃ front back earlier later, rows = front ++ back ∧ events = earlier ++ later ∧
      Laid zstd start front earlier ∧ start + earlier.length ≤ fromSeq ∧
        (Laid zstd fromSeq back later ∨ ∃ row rest piece others, back = row :: rest ∧
          later = piece ++ others ∧ Piece zstd row.seq row piece ∧
          row.seq = start + earlier.length ∧ row.seq < fromSeq ∧
          fromSeq < row.seq + piece.length ∧ Laid zstd (row.seq + piece.length) rest others) := by
  induction h with
  | nil start => exact ⟨[], [], [], [], rfl, rfl, .nil start, by simpa using hfrom, .inl (.nil _)⟩
  | cons hpiece hrest ih =>
    rename_i start row rows piece events
    by_cases hreach : start + piece.length ≤ fromSeq
    · obtain ⟨front, back, earlier, later, rfl, rfl, hfront, hle, hback⟩ := ih hreach
      have hlength : start + ((piece ++ earlier).length : Nat) =
          start + piece.length + earlier.length := by
        rw [List.length_append, Nat.cast_add, Int.add_assoc]
      refine ⟨row :: front, back, piece ++ earlier, later, rfl, (List.append_assoc ..).symm,
        .cons hpiece hfront, by rw [hlength]; exact hle, ?_⟩
      rw [hlength]
      exact hback
    · refine ⟨[], row :: rows, [], piece ++ events, rfl, rfl, .nil start, by simpa using hfrom, ?_⟩
      by_cases hstart : start = fromSeq
      · exact .inl (hstart ▸ .cons hpiece hrest)
      · obtain rfl := hpiece.seq
        exact .inr ⟨row, rows, piece, events, rfl, rfl, hpiece, by simp, by omega, by omega, hrest⟩

end Laid

theorem decodeEventRows_eq {rows : List EventRow}
    (h : ∀ row ∈ rows, decodeEventRow row = .ok row) : decodeEventRows rows = .ok rows := by
  induction rows with
  | nil => rfl
  | cons row rows ih =>
    rw [decodeEventRows, h row List.mem_cons_self, ok_bind,
      ih fun other hother => h other (List.mem_cons_of_mem _ hother)]
    rfl

section Span

variable {zstd : Zstd} {start fromSeq base : Int} {row : EventRow} {piece : List Json}

theorem coverBase_piece (h : Piece zstd row.seq row piece) : coverBase zstd fromSeq base row =
    if fromSeq < row.seq + piece.length then min base row.seq else base := by
  obtain ⟨last, hlast⟩ : ∃ last, piece.getLast? = some last :=
    Option.isSome_iff_exists.mp (List.getLast?_isSome.mpr (List.ne_nil_of_length_pos h.nonempty))
  have hseq := seqOf_getLast? h.contiguous hlast
  rw [coverBase, h.read]
  simp only [hlast, hseq]
  congr 1
  exact propext ⟨fun _ => by omega, fun _ => by omega⟩

theorem foldl_coverBase {rows : List EventRow} {events : List Json}
    (h : Laid zstd start rows events) (hbefore : start + events.length ≤ fromSeq)
    (keep : EventRow → Bool) :
    (rows.filter keep).foldl (coverBase zstd fromSeq) base = base := by
  induction h with
  | nil start => rfl
  | @cons start row piece rows events hpiece _ ih =>
    rw [List.length_append, Nat.cast_add, ← Int.add_assoc] at hbefore
    obtain rfl := hpiece.seq
    have hkeep : coverBase zstd fromSeq base row = base := by
      rw [coverBase_piece hpiece, if_neg (by omega)]
    rw [List.filter_cons]
    split
    · rw [List.foldl_cons, hkeep]
      exact ih hbefore
    · exact ih hbefore

theorem decodeEventRows_filter {rows : List EventRow}
    (h : ∀ row ∈ rows, decodeEventRow row = .ok row) (keep : EventRow → Bool) :
    decodeEventRows (rows.filter keep) = .ok (rows.filter keep) :=
  decodeEventRows_eq fun row hrow => h row (List.mem_filter.mp hrow).1

variable {front back : List EventRow} {earlier later : List Json}

theorem filter_from (hfront : Laid zstd start front earlier)
    (hbase : start + earlier.length ≤ base) (hback : ∀ row ∈ back, base ≤ row.seq) :
    (front ++ back).filter (fun row => decide (base ≤ row.seq)) = back := by
  rw [List.filter_append, List.filter_eq_nil_iff.mpr, List.nil_append, List.filter_eq_self.mpr]
  · exact fun row hrow => decide_eq_true (hback row hrow)
  · intro row hrow
    have := hfront.rowSeq_bounds row hrow
    simp only [decide_eq_true_eq]
    omega

theorem filter_predecessors {floor : Int} (h : Laid zstd base back later)
    (hbase : fromSeq ≤ base) : back.filter (isPackedPredecessor floor fromSeq) = [] := by
  rw [List.filter_eq_nil_iff]
  intro row hrow
  have hseq := (h.rowSeq_bounds row hrow).1
  have hlate : ¬row.seq < fromSeq := by omega
  simp [isPackedPredecessor, hlate]

variable {db : Database} {id : String}

theorem physicalSpanFrom_eq (h : Laid zstd start (db.events id) (earlier ++ later))
    (hrows : db.events id = front ++ back)
    (hbase : ((front ++ back).filter (isPackedPredecessor
      (max 0 (fromSeq - maxPackedRowMembers + 1)) fromSeq)).foldl
        (coverBase zstd fromSeq) fromSeq = base)
    (hfrom : (front ++ back).filter (fun row => decide (base ≤ row.seq)) = back) :
    physicalSpanFrom zstd db id fromSeq = .ok { base, eventRows := back } := by
  rw [physicalSpanFrom, decodeEventRows_filter h.columns, ok_bind]
  simp only [decodeEventRows_filter h.columns, ok_bind]
  rw [hrows, hbase, hfrom]
  rfl

theorem physicalSpanFrom_start (hrows : db.events id = front ++ back)
    (h : Laid zstd start (db.events id) (earlier ++ later))
    (hfront : Laid zstd start front earlier) (hbefore : start + earlier.length ≤ fromSeq)
    (hback : Laid zstd fromSeq back later) :
    physicalSpanFrom zstd db id fromSeq = .ok { base := fromSeq, eventRows := back } := by
  apply physicalSpanFrom_eq h hrows
  · rw [List.filter_append, filter_predecessors hback (Int.le_refl _), List.append_nil]
    exact foldl_coverBase hfront hbefore _
  · exact filter_from hfront hbefore fun row hrow => (hback.rowSeq_bounds row hrow).1

theorem physicalSpanFrom_inside {rest : List EventRow} {others : List Json}
    (hrows : db.events id = front ++ row :: rest)
    (h : Laid zstd start (db.events id) (earlier ++ (piece ++ others)))
    (hstart : 0 ≤ start) (hfront : Laid zstd start front earlier)
    (hpiece : Piece zstd row.seq row piece) (hseq : row.seq = start + earlier.length)
    (hbefore : row.seq < fromSeq) (hinside : fromSeq < row.seq + piece.length)
    (hrest : Laid zstd (row.seq + piece.length) rest others) :
    physicalSpanFrom zstd db id fromSeq = .ok { base := row.seq, eventRows := row :: rest } := by
  have hback : Laid zstd row.seq (row :: rest) (piece ++ others) := .cons hpiece hrest
  apply physicalSpanFrom_eq h hrows
  · have hfloor : max 0 (fromSeq - maxPackedRowMembers + 1) ≤ row.seq := by
      have := hpiece.bounded
      omega
    obtain ⟨hignorable, htag⟩ := hpiece.packed (by omega)
    have hkept : isPackedPredecessor (max 0 (fromSeq - maxPackedRowMembers + 1)) fromSeq row =
        true := by
      simp [isPackedPredecessor, hbefore, htag, hignorable, packedRowSentinel]
      omega
    rw [List.filter_append, List.filter_cons_of_pos hkept,
      filter_predecessors hrest (Int.le_of_lt hinside), List.foldl_append,
      foldl_coverBase hfront (by omega), List.foldl_cons, List.foldl_nil, coverBase_piece hpiece,
      if_pos hinside, min_eq_right (Int.le_of_lt hbefore)]
  · exact filter_from hfront (Int.le_of_eq hseq.symm)
      fun other hother => (hback.rowSeq_bounds other hother).1

end Span

end Harness.Sqlite
