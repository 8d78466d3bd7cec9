import Harness.Sqlite.Compression

/-! The SQLite store: append batches, repairs and reads over the rows of every session.  A call
that throws rolls its transaction back, so only a call that returns has a new database. -/

namespace Harness.Sqlite

open Harness.Foundation
open Harness.ChunkRows (seqOf)

structure SessionHeader where
  id : String
  columns : Json
  deriving DecidableEq, Repr

structure SessionRow where
  header : SessionHeader
  revision : Nat
  deriving DecidableEq, Repr

structure Database where
  sessions : String → Option SessionRow
  events : String → List EventRow

namespace Database

def empty : Database := { sessions := fun _ => none, events := fun _ => [] }

def setSession (db : Database) (id : String) (row : SessionRow) : Database :=
  { db with sessions := Function.update db.sessions id (some row) }

def setEvents (db : Database) (id : String) (rows : List EventRow) : Database :=
  { db with events := Function.update db.events id rows }

end Database

def decodeEventRow (row : EventRow) : Except String EventRow := do
  require (row.ignorable.isNone || row.ignorable = some 0 || row.ignorable = some 1)
    "stored event ignorable must be 0, 1, or null"
  require (isSafe row.seq) "stored seq must be a safe integer"
  require (decide (0 ≤ row.seq)) "stored seq must be non-negative"
  require (row.type ≠ "") "stored type must not be empty"
  require (isSafe row.time) "stored time must be a safe integer"
  return row

def decodeEventRows : List EventRow → Except String (List EventRow)
  | [] => .ok []
  | row :: rows => do
    let row ← decodeEventRow row
    let rows ← decodeEventRows rows
    return row :: rows

structure Scan where
  preserved : List Json
  tornFrom : Option Int
  deriving DecidableEq, Repr

def endsTurn (zstd : Zstd) (row : EventRow) : Bool :=
  match decodeRow zstd row with
  | .ok events => events.any fun event => typeOf event == "turn/end"
  | .error _ => false

def committedRows (zstd : Zstd) : List EventRow → Nat
  | [] => 0
  | row :: rows =>
    if 0 < committedRows zstd rows then committedRows zstd rows + 1
    else if endsTurn zstd row then 1 else 0

def contiguousFrom : Int → List Json → Bool
  | _, [] => true
  | expected, event :: events =>
    event.get? "seq" == some (.int expected) && contiguousFrom (expected + 1) events

def corruptRow (seq : Int) : String :=
  s!"corrupt session log: invalid committed physical row at seq {seq}"

/-- The second loop of `scanRows`, with `committed` rows still up to the last turn end. -/
def scanFrom (zstd : Zstd) : Nat → Int → List EventRow → Except String Scan
  | _, _, [] => .ok { preserved := [], tornFrom := none }
  | committed, expected, physical :: rows =>
    let torn : Except String Scan :=
      if 0 < committed then .error (corruptRow physical.seq)
      else .ok { preserved := [], tornFrom := some physical.seq }
    match decodeRow zstd physical with
    | .error _ => torn
    | .ok logicalEvents =>
      if contiguousFrom expected logicalEvents then do
        let scan ← scanFrom zstd (committed - 1) (expected + logicalEvents.length) rows
        return { scan with preserved := logicalEvents ++ scan.preserved }
      else torn

def scanRows (zstd : Zstd) (rows : List EventRow) (base : Int) : Except String Scan :=
  scanFrom zstd (committedRows zstd rows) base rows

structure StoredPrefix where
  header : SessionHeader
  events : List Json
  revision : Nat
  tornMarker : Option Int
  deriving DecidableEq, Repr

structure StoredSuffix where
  header : SessionHeader
  events : List Json
  deriving DecidableEq, Repr

def loadStored (zstd : Zstd) (db : Database) (id : String) : Except String (Option StoredPrefix) :=
  match db.sessions id with
  | none => .ok none
  | some row => do
    let eventRows ← decodeEventRows (db.events id)
    let scanned ← scanRows zstd eventRows 0
    return some
      { header := row.header, events := scanned.preserved, revision := row.revision
        tornMarker := scanned.tornFrom }

def isPackedPredecessor (packedFloor fromSeq : Int) (row : EventRow) : Bool :=
  decide (packedFloor ≤ row.seq) && decide (row.seq < fromSeq) && (chunkTag? row.type).isSome
    && row.ignorable == some 0

/-- The first row a suffix needs: `base`, or the predecessor when it may cover `fromSeq`. -/
def coverBase (zstd : Zstd) (fromSeq base : Int) (predecessor : EventRow) : Int :=
  match decodeRow zstd predecessor with
  | .ok events =>
    match events.getLast? with
    | some last => if fromSeq ≤ seqOf last then min base predecessor.seq else base
    | none => base
  | .error _ => min base predecessor.seq

structure PhysicalSpan where
  base : Int
  eventRows : List EventRow
  deriving DecidableEq, Repr

def physicalSpanFrom (zstd : Zstd) (db : Database) (id : String) (fromSeq : Int) :
    Except String PhysicalSpan := do
  let packedFloor := max 0 (fromSeq - maxPackedRowMembers + 1)
  let packedPredecessors ←
    decodeEventRows ((db.events id).filter (isPackedPredecessor packedFloor fromSeq))
  let base := packedPredecessors.foldl (coverBase zstd fromSeq) fromSeq
  let eventRows ← decodeEventRows ((db.events id).filter fun row => base ≤ row.seq)
  return { base, eventRows }

def loadStoredFrom (zstd : Zstd) (db : Database) (id : String) (fromSeq : Int) :
    Except String (Option StoredSuffix) :=
  match db.sessions id with
  | none => .ok none
  | some row => do
    let span ← physicalSpanFrom zstd db id fromSeq
    let scanned ← scanRows zstd span.eventRows span.base
    return some
      { header := row.header, events := scanned.preserved.filter fun event => fromSeq ≤ seqOf event }

def selectTail (rows : List EventRow) (limit : Nat) : List EventRow :=
  (rows.reverse.take limit).reverse

def tailRows (zstd : Zstd) (db : Database) (id : String) : Except String (List EventRow) := do
  let tail ← decodeEventRows (selectTail (db.events id) 2)
  match tail with
  | [] => return []
  | first :: _ =>
    let span ← physicalSpanFrom zstd db id first.seq
    return span.eventRows

def logicalLastEvent (zstd : Zstd) (id : String) (tailRows : List EventRow) :
    Except String (Option Json) :=
  match tailRows with
  | [] => .ok none
  | first :: _ => do
    let scanned ← scanRows zstd tailRows first.seq
    match scanned.tornFrom with
    | some tornFrom => throw s!"session {id} has an invalid physical tail at seq {tornFrom}"
    | none => return scanned.preserved.getLast?

def seqAfterLast : Option Json → Int
  | none => 0
  | some last => addDouble (seqOf last) 1

/-- One insert: the session must exist, and no row may have the seq already. -/
def insertRow (db : Database) (id : String) (row : EventRow) : Except String Database := do
  require (db.sessions id).isSome "FOREIGN KEY constraint failed"
  require (!(db.events id).any fun other => other.seq == row.seq)
    "UNIQUE constraint failed: events.session_id, events.seq"
  return db.setEvents id ((db.events id).filter (fun other => other.seq < row.seq)
    ++ row :: (db.events id).filter (fun other => row.seq < other.seq))

def insertRecords (zstd : Zstd) (id : String) : Database → List Json → Except String Database
  | db, [] => .ok db
  | db, record :: records => do
    let row ← bindRecord zstd record
    let db ← insertRow db id row
    insertRecords zstd id db records

def writeRow (db : Database) (header : SessionHeader) : Database :=
  let revision := ((db.sessions header.id).map SessionRow.revision).getD 0
  db.setSession header.id { header, revision }

def incrementRevision (db : Database) (id : String) : Except String Database := do
  let row ← expect (db.sessions id) s!"session {id} metadata row is missing"
  return db.setSession id { row with revision := row.revision + 1 }

def appendBatch (zstd : Zstd) (db : Database) (header : SessionHeader) (events : List Json)
    (isMaterialized : Bool) : Except String Database :=
  match events with
  | [] => .ok db
  | first :: _ => do
    let tail ← tailRows zstd db header.id
    let currentLast ← logicalLastEvent zstd header.id tail
    let expected := seqAfterLast currentLast
    require (seqOf first == expected)
      s!"session {header.id} append starts at seq {seqOf first}, stored next seq is {expected}"
    let db := if isMaterialized then db else writeRow db header
    let db ← insertRecords zstd header.id db (packChunkRuns events)
    incrementRevision db header.id

def insertClosers (zstd : Zstd) (db : Database) (id : String) (preserved closers : List Json) :
    Except String Database :=
  match closers with
  | [] => .ok db
  | first :: _ => do
    let expected := seqAfterLast preserved.getLast?
    require (seqOf first == expected)
      s!"session {id} repair is stale: closer starts at seq {seqOf first}, stored next seq is {expected}"
    insertRecords zstd id db closers

def deleteTorn (db : Database) (id : String) (tornMarker : Option Int) (current : Scan) :
    Except String Database :=
  match tornMarker with
  | some tornMarker => do
    require (current.tornFrom == some tornMarker)
      s!"session {id} repair is stale: physical tail no longer starts at seq {tornMarker}"
    return db.setEvents id ((db.events id).filter fun row => row.seq < tornMarker)
  | none =>
    match current.tornFrom with
    | some tornFrom =>
      .error s!"session {id} repair omitted current torn tail at seq {tornFrom}"
    | none => .ok db

def commitRepair (zstd : Zstd) (db : Database) (header : SessionHeader) (tornMarker : Option Int)
    (closers : List Json) : Except String Database :=
  if tornMarker.isNone && closers.isEmpty then .ok db
  else do
    let _ ← expect (db.sessions header.id) s!"session {header.id} metadata row is missing"
    let currentRows ← decodeEventRows (db.events header.id)
    let current ← scanRows zstd currentRows 0
    let db ← deleteTorn db header.id tornMarker current
    let db ← insertClosers zstd db header.id current.preserved closers
    incrementRevision db header.id

end Harness.Sqlite
