import Harness.Foundation.Except
import Harness.Foundation.SafeInteger

/-! Storage packing of delta-chunk runs.  Events and rows are parsed JSON here, as they are to
the encoder, which stores verbatim whatever it does not recognize. -/

namespace Harness

open Harness.Foundation

namespace ChunkRows

inductive DeltaKind
  | text
  | reasoning
  | toolCall
  deriving DecidableEq, Repr

def DeltaKind.delta : DeltaKind → String
  | .text => "text-delta"
  | .reasoning => "reasoning-delta"
  | .toolCall => "tool-call-delta"

def DeltaKind.tag : DeltaKind → String
  | .text => "text-chunks"
  | .reasoning => "reasoning-chunks"
  | .toolCall => "tool-call-chunks"

/-- What every member of a run shares besides its block: the kind, and the call it streams. -/
inductive RunKind
  | text
  | reasoning
  | toolCall (id : String) (name : Option String)
  deriving DecidableEq, Repr

def RunKind.delta : RunKind → DeltaKind
  | .text => .text
  | .reasoning => .reasoning
  | .toolCall _ _ => .toolCall

structure ChunkRow where
  kind : RunKind
  seq0 : Int
  time0 : Int
  turn : JsonNumber
  step : JsonNumber
  index : JsonNumber
  dt : List Int
  members : List String
  deriving DecidableEq, Repr

def minRun : Nat := 3

def hasExactKeys (value : Json) (keys : List String) : Bool :=
  match value with
  | .obj fields => fields.length == keys.length && keys.all fun key => Json.hasOwn fields key
  | _ => false

def hasNumber (value : Json) (key : String) : Bool := (value.get? key).any Json.isNumber

def hasString (value : Json) (key : String) : Bool := (value.get? key).any Json.isString

def classifyChunk (chunk : Json) : Option DeltaKind :=
  match chunk.get? "type" with
  | some (.str "text-delta") =>
    if hasExactKeys chunk ["type", "index", "text"] && hasString chunk "text" then some .text
    else none
  | some (.str "reasoning-delta") =>
    if hasExactKeys chunk ["type", "index", "text"] && hasString chunk "text" then some .reasoning
    else none
  | some (.str "tool-call-delta") =>
    let shapeOk := hasExactKeys chunk ["type", "index", "id", "argumentsDelta"]
      || (hasExactKeys chunk ["type", "index", "id", "name", "argumentsDelta"]
        && hasString chunk "name")
    if shapeOk && hasString chunk "id" && hasString chunk "argumentsDelta" then some .toolCall
    else none
  | _ => none

def classify (event : Json) : Option DeltaKind :=
  if event.get? "type" ≠ some (.str "assistant/chunk") then none
  else if !hasExactKeys event ["type", "seq", "time", "data"] then none
  else if !((event.get? "seq").any fun seq => seq.safeNat?.isSome)
      || !((event.get? "time").any Json.isSafeInteger) then none
  else
    match event.get? "data" with
    | none => none
    | some data =>
      if !hasExactKeys data ["turn", "step", "chunk"] then none
      else if !hasNumber data "turn" || !hasNumber data "step" then none
      else
        match data.get? "chunk" with
        | none => none
        | some chunk => if !hasNumber chunk "index" then none else classifyChunk chunk

def intField (value : Json) (key : String) : Int := ((value.get? key).bind Json.int?).getD 0

def fieldOf (value : Json) (key : String) : Json := (value.get? key).getD .null

def seqOf (event : Json) : Int := intField event "seq"

def timeOf (event : Json) : Int := intField event "time"

def dataOf (event : Json) : Json := fieldOf event "data"

def chunkOf (event : Json) : Json := fieldOf (dataOf event) "chunk"

def continues (prev next : Json) (kind : DeltaKind) : Bool :=
  seqOf next == addDouble (seqOf prev) 1
    && isSafe (subDouble (timeOf next) (timeOf prev))
    && (dataOf next).get? "turn" == (dataOf prev).get? "turn"
    && (dataOf next).get? "step" == (dataOf prev).get? "step"
    && (chunkOf next).get? "index" == (chunkOf prev).get? "index"
    && (kind != .toolCall
      || ((chunkOf prev).get? "id" == (chunkOf next).get? "id"
        && ((chunkOf prev).get? "name").isSome == ((chunkOf next).get? "name").isSome
        && (chunkOf prev).get? "name" == (chunkOf next).get? "name"))

def timeGaps : List Json → List Int
  | first :: second :: rest => subDouble (timeOf second) (timeOf first) :: timeGaps (second :: rest)
  | _ => []

def buildRow (kind : DeltaKind) (run : List Json) : Json :=
  match run with
  | [] => .null
  | first :: _ =>
    let base : List (String × Json) :=
      [("turn", fieldOf (dataOf first) "turn"), ("step", fieldOf (dataOf first) "step"),
        ("index", fieldOf (chunkOf first) "index"), ("dt", .arr ((timeGaps run).map Json.int))]
    let data :=
      match kind with
      | .toolCall =>
        base ++ [("id", fieldOf (chunkOf first) "id")]
          ++ Json.optionalField "name" ((chunkOf first).get? "name")
          ++ [("args", .arr (run.map fun event => fieldOf (chunkOf event) "argumentsDelta"))]
      | _ => base ++ [("texts", .arr (run.map fun event => fieldOf (chunkOf event) "text"))]
    .obj [("type", .str kind.tag), ("seq0", .int (seqOf first)), ("time0", .int (timeOf first)),
      ("data", .obj data)]

def emitRun (kind : DeltaKind) (run : List Json) : List Json :=
  if minRun ≤ run.length then [buildRow kind run] else run

structure PackState where
  out : List Json
  kind : Option DeltaKind
  run : List Json
  deriving DecidableEq, Repr

namespace PackState

def start : PackState := { out := [], kind := none, run := [] }

def extends? (state : PackState) (event : Json) (kind : DeltaKind) : Bool :=
  state.kind == some kind && (state.run.getLast?).any fun last => continues last event kind

variable (emit : DeltaKind → List Json → List Json)

def flush (state : PackState) : PackState :=
  { out := state.out ++
      match state.kind with
      | some kind => emit kind state.run
      | none => state.run
    kind := none
    run := [] }

def pack (state : PackState) (event : Json) : PackState :=
  match classify event with
  | none =>
    let state := state.flush emit
    { state with out := state.out ++ [event] }
  | some kind =>
    if state.extends? event kind then { state with run := state.run ++ [event] }
    else { state.flush emit with kind := some kind, run := [event] }

end PackState

def packRuns (emit : DeltaKind → List Json → List Json) (events : List Json) : List Json :=
  ((events.foldl (PackState.pack emit) .start).flush emit).out

def packChunkRuns (events : List Json) : List Json := packRuns emitRun events

def malformed (tag why : String) : String := s!"malformed {tag} storage row: {why}"

def numberField (value : Json) (key : String) : Option JsonNumber :=
  match value.get? key with
  | some (.num n) => some n
  | _ => none

def string? : Json → Option String
  | .str s => some s
  | _ => none

def stringField (value : Json) (key : String) : Option String := (value.get? key).bind string?

def safeIntField (value : Json) (key : String) : Option Int :=
  ((value.get? key).bind Json.int?).filter isSafe

def stringItems (value : Json) (key : String) : Option (List String) :=
  match value.get? key with
  | some (.arr items) => items.mapM string?
  | _ => none

def safeIntItems (value : Json) (key : String) : Option (List Int) :=
  match value.get? key with
  | some (.arr items) => items.mapM fun item => item.int?.filter isSafe
  | _ => none

structure RunDataBase where
  turn : JsonNumber
  step : JsonNumber
  index : JsonNumber
  dt : List Int
  payload : List String
  deriving DecidableEq, Repr

def validateRunData (tag : String) (data : Json) (payloadKey : String) :
    Except String RunDataBase := do
  let numbers := malformed tag "turn/step/index must be numbers"
  let turn ← expect (numberField data "turn") numbers
  let step ← expect (numberField data "step") numbers
  let index ← expect (numberField data "index") numbers
  let payload ← expect ((stringItems data payloadKey).filter fun payload => !payload.isEmpty)
    (malformed tag s!"{payloadKey} must be a non-empty string array")
  let dt ← expect (safeIntItems data "dt") (malformed tag "dt must be an array of safe integers")
  require (dt.length + 1 == payload.length)
    (malformed tag s!"dt length {dt.length} does not match {payload.length} members")
  return { turn, step, index, dt, payload }

def timesStaySafe : Int → List Int → Bool
  | _, [] => true
  | time, gap :: gaps => isSafe (addDouble time gap) && timesStaySafe (addDouble time gap) gaps

def nameField (data : Json) (withName : Bool) (message : String) :
    Except String (Option String) :=
  if withName then (expect (stringField data "name") message).map some else .ok none

def validateToolCallData (tag : String) (data : Json) : Except String (RunKind × RunDataBase) := do
  let withName := hasExactKeys data ["turn", "step", "index", "id", "name", "dt", "args"]
  require (withName || hasExactKeys data ["turn", "step", "index", "id", "dt", "args"])
    (malformed tag "data must be exactly \x7bturn, step, index, id, name?, dt, args\x7d")
  let strings := malformed tag "id (and name when present) must be strings"
  let id ← expect (stringField data "id") strings
  let name ← nameField data withName strings
  let base ← validateRunData tag data "args"
  return (.toolCall id name, base)

def validateTextData (tag : String) (kind : RunKind) (data : Json) :
    Except String (RunKind × RunDataBase) := do
  require (hasExactKeys data ["turn", "step", "index", "dt", "texts"])
    (malformed tag "data must be exactly \x7bturn, step, index, dt, texts\x7d")
  let base ← validateRunData tag data "texts"
  return (kind, base)

def validateData (kind : DeltaKind) (data : Json) : Except String (RunKind × RunDataBase) :=
  match kind with
  | .toolCall => validateToolCallData kind.tag data
  | .text => validateTextData kind.tag .text data
  | .reasoning => validateTextData kind.tag .reasoning data

def validateRow (value : Json) (kind : DeltaKind) : Except String ChunkRow := do
  let tag := kind.tag
  require (hasExactKeys value ["type", "seq0", "time0", "data"])
    (malformed tag "envelope must be exactly \x7btype, seq0, time0, data\x7d")
  let seq0 ← expect ((safeIntField value "seq0").filter fun seq0 => decide (0 ≤ seq0))
    (malformed tag "seq0 must be a non-negative safe integer")
  let time0 ← expect (safeIntField value "time0") (malformed tag "time0 must be a safe integer")
  let data ← expect ((value.get? "data").filter fun data => data.fields?.isSome || data.isArray)
    (malformed tag "data must be an object")
  let (kind, base) ← validateData kind data
  require (isSafe (subDouble (addDouble seq0 base.payload.length) 1))
    (malformed tag "member seqs must stay safe integers")
  require (timesStaySafe time0 base.dt) (malformed tag "member times must stay safe integers")
  return { kind, seq0, time0, turn := base.turn, step := base.step, index := base.index
           dt := base.dt, members := base.payload }

def RunKind.chunk (kind : RunKind) (index : JsonNumber) (payload : String) : Json :=
  match kind with
  | .text => .obj [("type", .str "text-delta"), ("index", .num index), ("text", .str payload)]
  | .reasoning =>
    .obj [("type", .str "reasoning-delta"), ("index", .num index), ("text", .str payload)]
  | .toolCall id name =>
    .obj ([("type", .str "tool-call-delta"), ("index", .num index), ("id", .str id)]
      ++ Json.optionalField "name" (name.map Json.str) ++ [("argumentsDelta", .str payload)])

def RunKind.event (kind : RunKind) (turn step index : JsonNumber) (seq time : Int)
    (payload : String) : Json :=
  .obj [("type", .str "assistant/chunk"), ("seq", .int seq), ("time", .int time),
    ("data", .obj [("turn", .num turn), ("step", .num step),
      ("chunk", kind.chunk index payload)])]

def expandFrom (row : ChunkRow) (k : Nat) (time : Int) : List String → List Int → List Json
  | [], _ => []
  | payload :: rest, gaps =>
    row.kind.event row.turn row.step row.index (addDouble row.seq0 k) time payload
      :: expandFrom row (k + 1) (addDouble time (gaps.headD 0)) rest gaps.tail

def expandRow (row : ChunkRow) : List Json := expandFrom row 0 row.time0 row.members row.dt

def rowTag (value : Json) : Option DeltaKind :=
  match value.get? "type" with
  | some (.str "text-chunks") => some .text
  | some (.str "reasoning-chunks") => some .reasoning
  | some (.str "tool-call-chunks") => some .toolCall
  | _ => none

def decodeStorageRecord (value : Json) : Except String (List Json) :=
  match rowTag value with
  | none => .ok [value]
  | some kind => (validateRow value kind).map expandRow

def decodeRecords : List Json → Except String (List Json)
  | [] => .ok []
  | record :: records => do
    let events ← decodeStorageRecord record
    let rest ← decodeRecords records
    return events ++ rest

end ChunkRows

end Harness
