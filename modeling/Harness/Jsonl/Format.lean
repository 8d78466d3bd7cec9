import Harness.Foundation.Utf8
import Harness.Foundation.Except
import Harness.Session.ChunkRows

namespace Harness.Jsonl

open Harness.Foundation
open Harness.ChunkRows (decodeStorageRecord packChunkRuns)

def sessionFormatVersion : JsonNumber := .int 0

/-- The header of a session; a reader takes `cwd`, `parentSession` and `seedLength` as they are. -/
structure SessionHeader where
  version : JsonNumber
  id : String
  createdAt : Nat
  cwd : Option Json
  parentSession : Option Json
  seedLength : Option Json
  origin : Option String
  delegationDepth : Option Nat
  agentPreset : Option String
  deriving DecidableEq, Repr

def headerFields (header : SessionHeader) : List (String × Option Json) :=
  [("type", some (.str "session")), ("version", some (.num header.version)),
    ("id", some (.str header.id)), ("createdAt", some (.nat header.createdAt)),
    ("cwd", header.cwd), ("parentSession", header.parentSession),
    ("seedLength", header.seedLength), ("origin", header.origin.map Json.str),
    ("delegationDepth", some (.nat (header.delegationDepth.getD 0))),
    ("agentPreset", header.agentPreset.map Json.str)]

def toHeaderLine (header : SessionHeader) : Json := .obj (Json.presentFields (headerFields header))

def isCount (value : Json) (key : String) : Bool :=
  (value.get? key).any fun count => count.safeNat?.isSome

def isHeaderLine (value : Json) : Bool :=
  value.get? "type" == some (.str "session")
    && (value.get? "version").any Json.isNumber
    && (value.get? "id").any Json.isString
    && isCount value "createdAt"
    && isCount value "delegationDepth"
    && (value.get? "origin").all (fun origin => origin == .str "subagent")
    && (value.get? "agentPreset").all Json.isString

def countOf (value : Json) (key : String) : Nat := ((value.get? key).bind Json.safeNat?).getD 0

def versionOf (value : Json) : Option JsonNumber :=
  match value.get? "version" with
  | some (.num version) => some version
  | _ => none

def fromHeaderLine (line : Json) : Except String SessionHeader := do
  require (!((line.get? "sandboxMode").isSome || (line.get? "approvalPolicy").isSome))
    "session header uses retired policy baseline fields"
  return {
    version := (versionOf line).getD sessionFormatVersion
    id := (ChunkRows.stringField line "id").getD ""
    createdAt := countOf line "createdAt"
    cwd := line.get? "cwd"
    parentSession := line.get? "parentSession"
    seedLength := line.get? "seedLength"
    origin := ChunkRows.stringField line "origin"
    delegationDepth := some (countOf line "delegationDepth")
    agentPreset := ChunkRows.stringField line "agentPreset" }

def displayField (value : Json) (key : String) : String :=
  match value.get? key with
  | some field => field.display
  | none => "undefined"

def sessionFormatVersionRefusal (id : String) (version : JsonNumber) : String :=
  let written := String.ofList version.print
  let supported := String.ofList sessionFormatVersion.print
  if version.isNegative then
    s!"session \"{id}\" uses log format v{written}, older than the supported v{supported}, and this build ships no upgrade path for it"
  else
    s!"session \"{id}\" uses log format v{written}, but this harness reads only v{supported}: the log was written by a newer harness — upgrade the harness to open it"

def refuseForeignFormatVersion (parsed : Json) : Except String Unit :=
  match versionOf parsed with
  | some version =>
    require (version == sessionFormatVersion)
      (sessionFormatVersionRefusal (displayField parsed "id") version)
  | none => .ok ()

def parseHeaderRecord (record : Bytes) : Except String SessionHeader := do
  require (record.getLast? == some newline && record.idxOf newline == record.length - 1)
    "empty or header-less session log"
  let parsed ← expect (Json.parse (Utf8.toText record.dropLast))
    "corrupt session log: header line is not valid JSON"
  refuseForeignFormatVersion parsed
  require (isHeaderLine parsed) "corrupt session log: first line is not a session header"
  fromHeaderLine parsed

def eventLines (events : List Json) (packChunks : Bool) : String :=
  let records := if packChunks then packChunkRuns events else events
  "\n".intercalate (records.map Json.stringify)

def encodeEventBatch (events : List Json) (packChunks : Bool) : Bytes :=
  Utf8.encode (eventLines events packChunks ++ "\n")

def encodeMaterialization (header : SessionHeader) (events : List Json) (packChunks : Bool) :
    Bytes :=
  Utf8.encode ((toHeaderLine header).stringify ++ "\n" ++ (eventLines events packChunks ++ "\n"))

structure Progress where
  events : List Json
  committedBytes : Nat
  eventLine : Nat
  issue : Option String
  deriving DecidableEq, Repr

structure SessionLogScanner where
  header : SessionHeader
  progress : Progress
  fragments : List Bytes
  fragmentBytes : Nat
  inputBytes : Nat
  finished : Bool
  deriving DecidableEq, Repr

structure SessionLogScan where
  header : SessionHeader
  events : List Json
  committedBytes : Nat
  deriving DecidableEq, Repr

def concat (list : List Bytes) (totalLength : Nat) : Bytes :=
  (list.flatten ++ List.replicate totalLength 0).take totalLength

def property (value : Json) (key : String) : Except String (Option Json) :=
  match value with
  | .null => .error s!"Cannot read properties of null (reading '{key}')"
  | value => .ok (value.get? key)

def endsTurn : List Json → Except String Bool
  | [] => .ok false
  | event :: events => do
    let type ← property event "type"
    if type == some (.str "turn/end") then return true else endsTurn events

/-- Push the events of one row; the first that does not continue the log drops the row and is
reported. -/
def pushEvents (events : List Json) : List Json → Except String (List Json ⊕ (Nat × String))
  | [] => .ok (.inl events)
  | event :: rest => do
    let seq ← property event "seq"
    if seq == some (.nat events.length) then pushEvents (events ++ [event]) rest
    else return .inr (events.length, displayField event "seq")

def unparsable (line : Nat) : String :=
  s!"corrupt session log: unparsable committed event at line {line}"

def seqGap (line expected : Nat) (got : String) : String :=
  s!"corrupt session log: seq gap in committed region at line {line} (expected {expected}, got {got})"

def decodeLine (line : Bytes) : Option (List Json) :=
  match Json.parse (Utf8.toText line) with
  | none => none
  | some value =>
    match decodeStorageRecord value with
    | .ok events => some events
    | .error _ => none

def consumeEventLine (progress : Progress) (line : Bytes) (endByte : Nat) :
    Except String Progress :=
  let progress := { progress with eventLine := progress.eventLine + 1 }
  match decodeLine line with
  | none =>
    .ok { progress with issue := some (progress.issue.getD (unparsable progress.eventLine)) }
  | some decoded =>
    match progress.issue with
    | some issue => do
      let ends ← endsTurn decoded
      if ends then throw issue else return progress
    | none => do
      match ← pushEvents progress.events decoded with
      | .inl events => return { progress with events, committedBytes := endByte }
      | .inr (expected, got) =>
        let issue := seqGap progress.eventLine expected got
        let ends ← endsTurn decoded
        if ends then throw issue else return { progress with issue := some issue }

namespace SessionLogScanner

def create (headerRecord : Bytes) : Except String SessionLogScanner := do
  let header ← parseHeaderRecord headerRecord
  return {
    header
    progress :=
      { events := [], committedBytes := headerRecord.length, eventLine := 0, issue := none }
    fragments := []
    fragmentBytes := 0
    inputBytes := headerRecord.length
    finished := false }

def lineOf (scanner : SessionLogScanner) (fragment : Bytes) : Bytes :=
  if scanner.fragments.isEmpty then fragment
  else
    let fragments :=
      if fragment.isEmpty then scanner.fragments else scanner.fragments ++ [fragment]
    concat fragments (scanner.fragmentBytes + fragment.length)

def retain (scanner : SessionLogScanner) (fragment : Bytes) : SessionLogScanner :=
  if fragment.isEmpty then scanner
  else
    { scanner with
      fragments := scanner.fragments ++ [fragment]
      fragmentBytes := scanner.fragmentBytes + fragment.length }

/-- The loop over the newlines of a chunk: `rest` is what follows `lineStart`, which lies `start`
bytes into the input. -/
def writeFrom (scanner : SessionLogScanner) (start : Nat) (rest : Bytes) :
    Except String SessionLogScanner :=
  if h : newline ∈ rest then do
    let fragment := rest.take (rest.idxOf newline)
    let endByte := start + fragment.length + 1
    let progress ← consumeEventLine scanner.progress (scanner.lineOf fragment) endByte
    writeFrom { scanner with progress, fragments := [], fragmentBytes := 0 } endByte
      (rest.drop (rest.idxOf newline + 1))
  else .ok (scanner.retain rest)
termination_by rest.length
decreasing_by
  have := List.length_pos_of_mem h
  rw [List.length_drop]
  omega

def write (scanner : SessionLogScanner) (chunk : Bytes) : Except String SessionLogScanner := do
  require (!scanner.finished) "cannot write to a finished session log scanner"
  writeFrom { scanner with inputBytes := scanner.inputBytes + chunk.length } scanner.inputBytes chunk

def finish (scanner : SessionLogScanner) : SessionLogScan :=
  { header := scanner.header, events := scanner.progress.events
    committedBytes := scanner.progress.committedBytes }

end SessionLogScanner

def scanChunks (headerRecord : Bytes) (chunks : List Bytes) : Except String SessionLogScan := do
  let scanner ← SessionLogScanner.create headerRecord
  let scanner ← foldOk SessionLogScanner.write scanner chunks
  return scanner.finish

def scanLog (buffer : Bytes) : Except String SessionLogScan :=
  if newline ∈ buffer then
    let headerEnd := buffer.idxOf newline
    scanChunks (buffer.take (headerEnd + 1)) [buffer.drop (headerEnd + 1)]
  else .error "empty or header-less session log"

def appendBatch (file : Bytes) (header : SessionHeader) (events : List Json)
    (isMaterialized packChunks : Bool) : Bytes :=
  if isMaterialized then file ++ encodeEventBatch events packChunks
  else encodeMaterialization header events packChunks

def commitRepair (file : Bytes) (tornMarker : Option Nat) (closers : List Json)
    (packChunks : Bool) : Bytes :=
  let repaired := match tornMarker with
    | some truncateTo => file.take truncateTo
    | none => file
  if closers.isEmpty then repaired else repaired ++ encodeEventBatch closers packChunks

end Harness.Jsonl
