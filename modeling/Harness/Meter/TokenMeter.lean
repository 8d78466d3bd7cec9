import Harness.Foundation.JsonText
import Harness.Session.Surface

/-! The token meter: the fixed heuristic price of a message, the positional fold that prices
every surface node, and the running total that trusts the logged shadow prices. -/

namespace Harness

open Harness.Foundation

/-- `String.prototype.length`. -/
def utf16Length (text : String) : Nat :=
  (text.toList.map fun c => if c.toNat < 0x10000 then 1 else 2).sum

def charsPerToken : Nat := 4

def blockOverhead : Nat := 4

def roleOverhead : Nat := 4

/-- `Math.ceil(length / CHARS_PER_TOKEN)`. -/
def textTokens (text : String) : Nat := (utf16Length text + (charsPerToken - 1)) / charsPerToken

def blockField (fields : List (String × Json)) (key : String) : String :=
  match fields.lookup key with
  | some (.str text) => text
  | _ => ""

mutual

def estimateJsonBlock : Json → Nat
  | .obj fields =>
    match fields.lookup "type" with
    | some (.str "text") => textTokens (blockField fields "text") + blockOverhead
    | some (.str "reasoning") => textTokens (blockField fields "text") + blockOverhead
    | some (.str "tool-call") =>
      textTokens (blockField fields "name") + textTokens (blockField fields "arguments")
        + blockOverhead
    | some (.str "tool-result") => estimateContentField fields + blockOverhead
    | _ => blockOverhead + textTokens (Json.obj fields).stringify
  | value => blockOverhead + textTokens value.stringify

def estimateContentField : List (String × Json) → Nat
  | [] => 0
  | (key, value) :: fields =>
    if key = "content" then estimateJsonContent value else estimateContentField fields

def estimateJsonContent : Json → Nat
  | .arr blocks => estimateJsonBlocks blocks
  | _ => 0

def estimateJsonBlocks : List Json → Nat
  | [] => 0
  | block :: blocks => estimateJsonBlock block + estimateJsonBlocks blocks

end

def estimateBlock : ContentBlock → Nat
  | .text text => textTokens text + blockOverhead
  | .reasoning text => textTokens text + blockOverhead
  | .toolCall block => textTokens block.name + textTokens block.arguments + blockOverhead
  | .other _ value => estimateJsonBlock value

def estimateContent (blocks : List ContentBlock) : Nat := (blocks.map estimateBlock).sum

def estimateMessage : Message → Nat
  | .user message => estimateContent message.content + roleOverhead
  | .assistant message => estimateContent message.content + roleOverhead
  | .toolResult message =>
    estimateContent message.content.content + blockOverhead + roleOverhead

def eventTokens (event : SessionEvent) : Nat :=
  ((deriveEventMessage event).map estimateMessage).getD 0

def committedOp (event : SessionEvent) : Option SurfaceOp :=
  match surfaceOpOf event with
  | .ok op => op
  | .error _ => none

structure TokenSurfaceNode where
  seq : Nat
  tokens : Nat
  deriving DecidableEq, Repr

structure SurfaceTokenFold where
  tokens : Nat
  nodes : List TokenSurfaceNode
  deltaTokens : Int
  deriving DecidableEq, Repr

def nodeTokens (nodes : List TokenSurfaceNode) : Nat := (nodes.map TokenSurfaceNode.tokens).sum

def nodeSlice {α : Type} (nodes : List α) (startIdx endIdx : Nat) : List α :=
  (nodes.drop startIdx).take (endIdx + 1 - startIdx)

def foldSurfaceTokens (nodes : List TokenSurfaceNode) (event : SessionEvent) (op : SurfaceOp) :
    Except String SurfaceTokenFold :=
  let tokens := eventTokens event
  match op with
  | .append =>
    .ok { tokens, nodes := nodes ++ [{ seq := event.seq, tokens }], deltaTokens := tokens }
  | .replace start endSeq =>
    let invalid :=
      s!"token surface: replace at seq {event.seq} has invalid current range {start}-{endSeq}"
    match nodes.findIdx? (fun node => node.seq == start),
        nodes.findIdx? (fun node => node.seq == endSeq) with
    | some startIdx, some endIdx =>
      if startIdx ≤ endIdx then
        .ok
          { tokens
            nodes := nodes.take startIdx ++ [{ seq := event.seq, tokens }]
              ++ nodes.drop (endIdx + 1)
            deltaTokens := tokens - (nodeTokens (nodeSlice nodes startIdx endIdx) : Int) }
      else .error invalid
    | _, _ => .error invalid

structure ShadowPriceClaim where
  start : Nat
  endSeq : Nat
  tokens : Nat
  deriving DecidableEq, Repr

structure SurfaceTokensFold where
  deltaTokens : Int
  claim : Option ShadowPriceClaim
  deriving DecidableEq, Repr

def meteringTypes : List String := ["compaction/summary", "compaction/prune"]

def natField (value : Json) (key : String) : Option Nat :=
  match (value.get? key).bind Json.int? with
  | some (.ofNat n) => some n
  | _ => none

def shadowPrice (data : Json) : Except String ShadowPriceClaim := do
  let range ← expect (data.get? "shadowedRange") "metering event lacks its shadowed range"
  let start ← expect (natField range "start") "metering event lacks its range start"
  let endSeq ← expect (natField range "end") "metering event lacks its range end"
  let tokens ← expect (natField data "shadowedTokenCount") "metering event lacks its price"
  return { start, endSeq, tokens }

def meteringData (event : SessionEvent) : Option Json :=
  match event.data with
  | .plugin type data => if type.name ∈ meteringTypes then some data else none
  | _ => none

def foldSurfaceProjection (claim : Option ShadowPriceClaim) (event : SessionEvent) :
    Except String SurfaceTokensFold :=
  match meteringData event with
  | some data => do
    let armed ← shadowPrice data
    return { deltaTokens := 0, claim := some armed }
  | none =>
    match committedOp event with
    | none => .ok { deltaTokens := 0, claim := none }
    | some .append => .ok { deltaTokens := eventTokens event, claim := none }
    | some (.replace start endSeq) =>
      match claim with
      | none => .ok { deltaTokens := 0, claim := none }
      | some claim =>
        if claim.start = start ∧ claim.endSeq = endSeq then
          .ok { deltaTokens := (eventTokens event : Int) - claim.tokens, claim := none }
        else
          .error (s!"token surface: replace at seq {event.seq} over range {start}-{endSeq} has no adjacent shadow price" ++ s!" (armed claim covers {claim.start}-{claim.endSeq})")

structure ReplayState where
  surface : List TokenSurfaceNode
  surfaceTokens : Int
  deriving DecidableEq, Repr

def ReplayState.foldEvent (state : ReplayState) (event : SessionEvent) :
    Except String ReplayState :=
  match committedOp event with
  | none => .ok state
  | some op => do
    let surface ← foldSurfaceTokens state.surface event op
    return { surface := surface.nodes, surfaceTokens := state.surfaceTokens + surface.deltaTokens }

def measure (events : List SessionEvent) : Except String ReplayState :=
  foldOk ReplayState.foldEvent { surface := [], surfaceTokens := 0 } events

/-- The message figure of the context breakdown, with the claim it carries along. -/
structure BreakdownState where
  messageTokens : Int
  claim : Option ShadowPriceClaim
  deriving DecidableEq, Repr

def BreakdownState.apply (state : BreakdownState) (event : SessionEvent) :
    Except String BreakdownState := do
  let fold ← foldSurfaceProjection state.claim event
  return { messageTokens := state.messageTokens + fold.deltaTokens, claim := fold.claim }

def breakdown (events : List SessionEvent) : Except String BreakdownState :=
  foldOk BreakdownState.apply { messageTokens := 0, claim := none } events

end Harness
