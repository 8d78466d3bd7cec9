import Harness.Foundation.Utf8
import Harness.Session.ChunkRows

/-! The physical chunk rows of the SQLite store: runs are cut to a member bound and a byte bound.
The shape checks, the run detection and the expansion are those of the session's own packer. -/

namespace Harness.Sqlite

open Harness.Foundation
open Harness.ChunkRows (DeltaKind RunKind ChunkRow RunDataBase buildRow expandRow hasExactKeys
  malformed numberField stringField stringItems safeIntItems safeIntField timesStaySafe nameField
  rowTag)

def minPackedRowMembers : Nat := 3

def maxPackedRowMembers : Nat := 1024

def maxPackedDataBytes : Nat := 1048576

def packedDataBytes (row : Json) : Nat :=
  Utf8.byteLength (ChunkRows.fieldOf row "data").stringify

/-- The binary search of `emitBoundedRun`, with the accepted length and its row. -/
def searchRow (kind : DeltaKind) (run : List Json) (low high : Nat) (accepted : Option (Nat × Json)) :
    Option (Nat × Json) :=
  if low ≤ high then
    let middle := (low + high) / 2
    let candidate := buildRow kind (run.take middle)
    if packedDataBytes candidate ≤ maxPackedDataBytes then
      searchRow kind run (middle + 1) high (some (middle, candidate))
    else if middle = 0 then accepted
    else searchRow kind run low (middle - 1) accepted
  else accepted
termination_by high + 1 - low

/-- What the search can accept: a length between its bounds, with the row of that length. -/
structure Accepted (kind : DeltaKind) (run : List Json) (low high : Nat) (found : Nat × Json) :
    Prop where
  low : low ≤ found.1
  high : found.1 ≤ high
  row : found.2 = buildRow kind (run.take found.1)
  bytes : packedDataBytes found.2 ≤ maxPackedDataBytes

theorem searchRow_accepted {kind : DeltaKind} {run : List Json} {first last low high : Nat}
    {accepted : Option (Nat × Json)} (hlow : first ≤ low) (hhigh : high ≤ last)
    (haccepted : ∀ found ∈ accepted, Accepted kind run first last found) :
    ∀ found ∈ searchRow kind run low high accepted, Accepted kind run first last found := by
  induction low, high, accepted using searchRow.induct kind run with
  | case1 low high accepted hle middle candidate hbytes ih =>
    rw [searchRow, if_pos hle]
    simp only
    rw [if_pos hbytes]
    refine ih (by omega) hhigh ?_
    intro found hfound
    obtain rfl := Option.some.inj hfound
    exact ⟨by simp only; omega, by simp only; omega, rfl, hbytes⟩
  | case2 low high accepted hle middle candidate hbytes hzero =>
    rw [searchRow, if_pos hle]
    simp only
    rwa [if_neg hbytes, if_pos hzero]
  | case3 low high accepted hle middle candidate hbytes hzero ih =>
    rw [searchRow, if_pos hle]
    simp only
    rw [if_neg hbytes, if_neg hzero]
    exact ih hlow (by omega) haccepted
  | case4 low high accepted hle =>
    rwa [searchRow, if_neg hle]

def largestRow (kind : DeltaKind) (run : List Json) (high : Nat) : Option (Nat × Json) :=
  searchRow kind run minPackedRowMembers (high - 1) none

theorem largestRow_accepted {kind : DeltaKind} {run : List Json} {high : Nat} {found : Nat × Json}
    (h : largestRow kind run high = some found) :
    Accepted kind run minPackedRowMembers (high - 1) found :=
  searchRow_accepted (le_refl _) (le_refl _) (by simp) found h

def emitBoundedRun (kind : DeltaKind) : List Json → List Json
  | [] => []
  | event :: rest =>
    let run := event :: rest
    if run.length < minPackedRowMembers then run
    else
      let high := min run.length maxPackedRowMembers
      let largest := buildRow kind (run.take high)
      if packedDataBytes largest ≤ maxPackedDataBytes then
        largest :: emitBoundedRun kind (run.drop high)
      else
        match _h : largestRow kind run high with
        | some (accepted, row) => row :: emitBoundedRun kind (run.drop accepted)
        | none => event :: emitBoundedRun kind rest
termination_by run => run.length
decreasing_by
  · simp only [List.length_drop, List.length_cons, maxPackedRowMembers]
    omega
  · have := (largestRow_accepted _h).low
    simp only [minPackedRowMembers] at this
    simp only [List.length_drop, List.length_cons]
    omega
  · simp

def packChunkRuns (events : List Json) : List Json := ChunkRows.packRuns emitBoundedRun events

def payloadWithin (payload : List String) : Bool :=
  decide (minPackedRowMembers ≤ payload.length) && decide (payload.length ≤ maxPackedRowMembers)

def validateRunData (tag : String) (data : Json) (payloadKey : String)
    (serializedBytes : Option Nat) : Except String RunDataBase := do
  let numbers := malformed tag "turn/step/index must be numbers"
  let turn ← expect (numberField data "turn") numbers
  let step ← expect (numberField data "step") numbers
  let index ← expect (numberField data "index") numbers
  let payload ← expect ((stringItems data payloadKey).filter payloadWithin)
    (malformed tag
      s!"{payloadKey} must contain {minPackedRowMembers}..{maxPackedRowMembers} strings")
  let dt ← expect (safeIntItems data "dt") (malformed tag "dt must be an array of safe integers")
  require (dt.length + 1 == payload.length)
    (malformed tag "dt length must match the member count")
  require (decide (serializedBytes.getD (Utf8.byteLength data.stringify) ≤ maxPackedDataBytes))
    (malformed tag s!"data exceeds {maxPackedDataBytes} UTF-8 bytes")
  return { turn, step, index, dt, payload }

def validateToolCallData (tag : String) (data : Json) (serializedBytes : Option Nat) :
    Except String (RunKind × RunDataBase) := do
  let withName := hasExactKeys data ["turn", "step", "index", "id", "name", "dt", "args"]
  require (withName || hasExactKeys data ["turn", "step", "index", "id", "dt", "args"])
    (malformed tag "invalid tool-call data fields")
  let strings := malformed tag "id and optional name must be strings"
  let id ← expect (stringField data "id") strings
  let name ← nameField data withName strings
  let base ← validateRunData tag data "args" serializedBytes
  return (.toolCall id name, base)

def validateTextData (tag : String) (kind : RunKind) (data : Json) (serializedBytes : Option Nat) :
    Except String (RunKind × RunDataBase) := do
  require (hasExactKeys data ["turn", "step", "index", "dt", "texts"])
    (malformed tag "invalid text data fields")
  let base ← validateRunData tag data "texts" serializedBytes
  return (kind, base)

def validateData (kind : DeltaKind) (data : Json) (serializedBytes : Option Nat) :
    Except String (RunKind × RunDataBase) :=
  match kind with
  | .toolCall => validateToolCallData kind.tag data serializedBytes
  | .text => validateTextData kind.tag .text data serializedBytes
  | .reasoning => validateTextData kind.tag .reasoning data serializedBytes

def validateRow (value : Json) (kind : DeltaKind) (serializedBytes : Option Nat) :
    Except String ChunkRow := do
  let tag := kind.tag
  require (hasExactKeys value ["type", "seq0", "time0", "data"])
    (malformed tag "invalid envelope fields")
  let seq0 ← expect ((safeIntField value "seq0").filter fun seq0 => decide (0 ≤ seq0))
    (malformed tag "seq0 must be non-negative")
  let time0 ← expect (safeIntField value "time0") (malformed tag "time0 must be a safe integer")
  let data ← expect ((value.get? "data").filter fun data => data.fields?.isSome || data.isArray)
    (malformed tag "data must be an object")
  let (kind, base) ← validateData kind data serializedBytes
  require (isSafe (subDouble (addDouble seq0 base.payload.length) 1))
    (malformed tag "member seqs exceed safe integers")
  require (timesStaySafe time0 base.dt) (malformed tag "member times exceed safe integers")
  return { kind, seq0, time0, turn := base.turn, step := base.step, index := base.index
           dt := base.dt, members := base.payload }

def decodeStorageRecord (value : Json) : Except String (List Json) :=
  match rowTag value with
  | none => .ok [value]
  | some kind => (validateRow value kind none).map expandRow

def decodeRecords : List Json → Except String (List Json)
  | [] => .ok []
  | record :: records => do
    let events ← decodeStorageRecord record
    let rest ← decodeRecords records
    return events ++ rest

/-- The parsed data column and the envelope columns as the one value that is validated. -/
def rowValue (kind : DeltaKind) (seq0 time0 : Int) (data : Json) : Json :=
  .obj [("type", .str kind.tag), ("seq0", .int seq0), ("time0", .int time0), ("data", data)]

def decodeSerializedChunkRow (kind : DeltaKind) (seq0 time0 : Int) (serializedData : String) :
    Except String (List Json) := do
  let bytes := Utf8.byteLength serializedData
  require (decide (bytes ≤ maxPackedDataBytes))
    (malformed kind.tag s!"data exceeds {maxPackedDataBytes} UTF-8 bytes")
  let data ← expect (Json.parse serializedData) "Unexpected token in JSON"
  (validateRow (rowValue kind seq0 time0 data) kind (some bytes)).map expandRow

end Harness.Sqlite
