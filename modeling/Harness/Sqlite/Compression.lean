import Harness.Sqlite.Codec

namespace Harness.Sqlite

open Harness.Foundation
open Harness.ChunkRows (DeltaKind stringField seqOf timeOf fieldOf rowTag)

structure Zstd where
  compress : Bytes → Bytes
  decompress : Bytes → Option Nat → Except String Bytes

structure Zstd.Lossless (zstd : Zstd) : Prop where
  decompress_compress : ∀ (bytes : Bytes) (limit : Option Nat),
    (∀ max ∈ limit, bytes.length ≤ max) → zstd.decompress (zstd.compress bytes) limit = .ok bytes

inductive StoredData
  | text (text : String)
  | blob (bytes : Bytes)
  deriving DecidableEq, Repr

structure EventRow where
  seq : Int
  type : String
  time : Int
  data : StoredData
  sourceEventSeqs : Option Bytes
  surfaceOp : Option String
  ignorable : Option Int
  deriving DecidableEq, Repr

def zstdDataThresholdBytes : Nat := 4096

def maxZigzagInteger : Nat := 9007199254740991 * 2

def packedRowSentinel : Int := 0

def encodeData (zstd : Zstd) (serialized : String) : StoredData :=
  let bytes := Utf8.encode serialized
  if bytes.length < zstdDataThresholdBytes then .text serialized
  else
    let compressed := zstd.compress bytes
    if compressed.length < bytes.length then .blob compressed else .text serialized

def decodeText (bytes : Bytes) : Except String String :=
  expect (Utf8.decode (Utf8.stripBom bytes)) "The encoded data was not valid for encoding utf-8"

def decodeData (zstd : Zstd) (value : StoredData) (maxOutputLength : Option Nat) :
    Except String String :=
  match value with
  | .text text => .ok text
  | .blob bytes => do
    let decoded ← zstd.decompress bytes maxOutputLength
    decodeText decoded

def appendVarint (value : Nat) : Bytes :=
  if value < 128 then [UInt8.ofNat value]
  else UInt8.ofNat (value % 128 + 128) :: appendVarint (value / 128)

def seqDelta (previous : Option Nat) (value : Nat) : Nat :=
  match previous with
  | none => value
  | some previous => if previous ≤ value then (value - previous) * 2 else (previous - value) * 2 - 1

def encodeSeqs : Option Nat → List Json → Except String Bytes
  | _, [] => .ok []
  | previous, item :: items => do
    let value ← expect item.safeNat? "sourceEventSeqs must contain non-negative safe integers"
    let rest ← encodeSeqs (some value) items
    return appendVarint (seqDelta previous value) ++ rest

def encodeSourceEventSeqs (values : List Json) : Except String Bytes := encodeSeqs none values

def malformedSeqs (why : String) : String := s!"malformed source_event_seqs storage value: {why}"

def readVarint (limit : Nat) : Nat → Nat → Bytes → Except String (Nat × Bytes)
  | _, _, [] => .error (malformedSeqs "truncated varint")
  | value, shift, byte :: rest =>
    let value := value ||| (byte.toNat % 128) <<< shift
    if byte.toNat < 128 then
      if 0 < shift ∧ byte.toNat % 128 = 0 then .error (malformedSeqs "non-canonical varint")
      else if limit < value then .error (malformedSeqs "varint is out of range")
      else .ok (value, rest)
    else if 56 < shift + 7 then .error (malformedSeqs "varint is out of range")
    else readVarint limit value (shift + 7) rest

def seqAfter (previous : Option Nat) (decoded : Nat) : Int :=
  match previous with
  | none => decoded
  | some previous =>
    if decoded % 2 = 0 then previous + (decoded / 2 : Nat) else previous - ((decoded + 1) / 2 : Nat)

/-- Every varint takes at least one byte, so there are no more of them than bytes. -/
def decodeSeqs : Nat → Option Nat → Bytes → Except String (List Nat)
  | _, _, [] => .ok []
  | 0, _, _ :: _ => .error (malformedSeqs "truncated varint")
  | fuel + 1, previous, bytes => do
    let limit := match previous with
      | none => 9007199254740991
      | some _ => maxZigzagInteger
    let (decoded, rest) ← readVarint limit 0 0 bytes
    let value := seqAfter previous decoded
    require (decide (0 ≤ value) && decide (value ≤ maxSafeInteger))
      (malformedSeqs "decoded seq is out of range")
    let values ← decodeSeqs fuel (some value.toNat) rest
    return value.toNat :: values

def decodeSourceEventSeqs (bytes : Bytes) : Except String (List Nat) :=
  decodeSeqs bytes.length none bytes

def itemsOf : Json → List Json
  | .arr items => items
  | _ => []

def isChunkRow (record : Json) : Bool :=
  (rowTag record).isSome && (record.get? "seq0").isSome && !(record.get? "seq").isSome

def typeOf (record : Json) : String := (stringField record "type").getD ""

def bindSeqs : Option Json → Except String (Option Bytes)
  | none => .ok none
  | some values => (encodeSourceEventSeqs (itemsOf values)).map some

def bindRecord (zstd : Zstd) (record : Json) : Except String EventRow :=
  if isChunkRow record then
    .ok
      { seq := ChunkRows.intField record "seq0"
        type := typeOf record
        time := ChunkRows.intField record "time0"
        data := encodeData zstd (fieldOf record "data").stringify
        sourceEventSeqs := none
        surfaceOp := none
        ignorable := some packedRowSentinel }
  else do
    let sourceEventSeqs ← bindSeqs (record.get? "sourceEventSeqs")
    return {
      seq := seqOf record
      type := typeOf record
      time := timeOf record
      data := encodeData zstd (fieldOf record "data").stringify
      sourceEventSeqs
      surfaceOp := (record.get? "surfaceOp").map Json.stringify
      ignorable := if record.get? "ignorable" = some (.bool true) then some 1 else none }

def bindRecords (zstd : Zstd) : List Json → Except String (List EventRow)
  | [] => .ok []
  | record :: records => do
    let row ← bindRecord zstd record
    let rows ← bindRecords zstd records
    return row :: rows

def chunkTag? (type : String) : Option DeltaKind := rowTag (.obj [("type", .str type)])

def parseJson (text : String) : Except String Json :=
  expect (Json.parse text) "Unexpected token in JSON"

def decodeSeqsColumn : Option Bytes → Except String (List (String × Json))
  | none => .ok []
  | some bytes => (decodeSourceEventSeqs bytes).map fun seqs =>
    [("sourceEventSeqs", .arr (seqs.map Json.nat))]

def decodeOpColumn : Option String → Except String (List (String × Json))
  | none => .ok []
  | some text => (parseJson text).map fun op => [("surfaceOp", op)]

def decodeScalarRow (zstd : Zstd) (row : EventRow) : Except String Json := do
  let seqs ← decodeSeqsColumn row.sourceEventSeqs
  let op ← decodeOpColumn row.surfaceOp
  let text ← decodeData zstd row.data none
  let data ← parseJson text
  return .obj ([("type", .str row.type), ("seq", .int row.seq), ("time", .int row.time),
    ("data", data)] ++ seqs ++ op ++
      if row.ignorable = some 1 then [("ignorable", .bool true)] else [])

def decodeRow (zstd : Zstd) (row : EventRow) : Except String (List Json) :=
  if row.ignorable ≠ some packedRowSentinel then (decodeScalarRow zstd row).map fun event => [event]
  else do
    let kind ← expect (chunkTag? row.type)
      s!"malformed {row.type} storage row: packed discriminator requires a chunk tag"
    require (row.sourceEventSeqs.isNone && row.surfaceOp.isNone)
      s!"malformed {row.type} storage row: packed surface fields must be null"
    let text ← decodeData zstd row.data (some maxPackedDataBytes)
    decodeSerializedChunkRow kind row.seq row.time text

def decodeRows (zstd : Zstd) : List EventRow → Except String (List Json)
  | [] => .ok []
  | row :: rows => do
    let events ← decodeRow zstd row
    let rest ← decodeRows zstd rows
    return events ++ rest

end Harness.Sqlite
