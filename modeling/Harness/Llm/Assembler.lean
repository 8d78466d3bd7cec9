import Harness.Foundation.Machine
import Harness.Foundation.OrderedMap
import Harness.Session.Event

namespace Harness.Llm

open Harness.Foundation

structure PartialBlock where
  blockType : String
  text : String
  toolCallId : Option CallId
  toolCallName : Option String
  toolCallArguments : String
  block : Option ContentBlock
  deriving DecidableEq, Repr

def PartialBlock.fresh (blockType : String) : PartialBlock where
  blockType := blockType
  text := ""
  toolCallId := none
  toolCallName := none
  toolCallArguments := ""
  block := none

def blockType : ContentBlock → String
  | .text _ => "text"
  | .reasoning _ => "reasoning"
  | .toolCall _ => "tool-call"
  | .other type _ => type

structure BlockAssembler where
  partials : OrderedMap Nat PartialBlock
  order : List Nat
  usage : Option TokenUsage
  finishReason : Option FinishReason
  replayEnvelope : Option ReplayEnvelope

namespace BlockAssembler

def empty : BlockAssembler where
  partials := .empty
  order := []
  usage := none
  finishReason := none
  replayEnvelope := none

variable (assembler : BlockAssembler)

def ensure (index : Nat) (blockType : String) : BlockAssembler :=
  match assembler.partials.get? index with
  | some _ => assembler
  | none =>
    { assembler with
      partials := assembler.partials.set index (.fresh blockType)
      order := assembler.order ++ [index] }

def update (index : Nat) (blockType : String) (f : PartialBlock → PartialBlock) : BlockAssembler :=
  let assembler := assembler.ensure index blockType
  { assembler with
    partials := assembler.partials.modify index fun entry =>
      if entry.block.isSome then entry else f entry }

def push : StreamChunk → BlockAssembler
  | .blockStart index blockType => assembler.ensure index blockType
  | .textDelta index text =>
    assembler.update index "text" fun entry => { entry with text := entry.text ++ text }
  | .reasoningDelta index text =>
    assembler.update index "reasoning" fun entry => { entry with text := entry.text ++ text }
  | .toolCallDelta index id name argumentsDelta =>
    assembler.update index "tool-call" fun entry =>
      { entry with
        toolCallId := some id
        toolCallName :=
          match name with
          | some name => if name = "" then entry.toolCallName else some name
          | none => entry.toolCallName
        toolCallArguments := entry.toolCallArguments ++ argumentsDelta }
  | .blockEnd index block =>
    assembler.update index (blockType block) fun entry => { entry with block := some block }
  | .usage usage => { assembler with usage := some usage }
  | .finish reason replayState =>
    { assembler with finishReason := some reason, replayEnvelope := replayState }

def pushAll (chunks : List StreamChunk) : BlockAssembler := chunks.foldl push assembler

def assemble (entry : PartialBlock) (index : Nat) : Except String ContentBlock :=
  match entry.block with
  | some block => .ok block
  | none =>
    match entry.blockType with
    | "text" => .ok (.text entry.text)
    | "reasoning" => .ok (.reasoning entry.text)
    | "tool-call" =>
      .ok (.toolCall {
        id := entry.toolCallId.getD s!"call-{index}"
        name := entry.toolCallName.getD ""
        arguments := entry.toolCallArguments })
    | unknown => .error s!"cannot assemble incomplete block of type \"{unknown}\""

def mustGet (index : Nat) : Except String PartialBlock :=
  match assembler.partials.get? index with
  | some entry => .ok entry
  | none => .error s!"BlockAssembler invariant violated: no partial for index {index}"

def finish : FinishReason := assembler.finishReason.getD .stop

def keepPositions {α : Type} (kept : List Bool) (items : List α) : List α :=
  ((items.zip kept).filter Prod.snd).map Prod.fst

def allBlocks : Except String (List ContentBlock) :=
  assembler.order.mapM fun index => do assemble (← assembler.mustGet index) index

def keptPositions (all : List ContentBlock) : Option (List Bool) :=
  if assembler.finish = .maxTokens then some (all.map fun block => blockType block != "tool-call")
  else none

def keptBlocks (kept : Option (List Bool)) (all : List ContentBlock) : List ContentBlock :=
  match kept with
  | none => all
  | some kept => keepPositions kept all

/-- The envelope, less the entries of the blocks that are dropped; none if its entries do not
match the blocks. -/
def replayFor (kept : Option (List Bool)) (all : List ContentBlock) : Option ReplayEnvelope :=
  match assembler.replayEnvelope with
  | none => none
  | some envelope =>
    match envelope.blocks with
    | none => some envelope
    | some entries =>
      if entries.length ≠ all.length then none
      else
        match kept with
        | none => some envelope
        | some kept =>
          if (keepPositions kept all).length = all.length then some envelope
          else some { response := envelope.response, blocks := some (keepPositions kept entries) }

structure Assembled where
  blocks : List ContentBlock
  replay : Option ReplayEnvelope
  deriving DecidableEq, Repr

def assembled : Except String Assembled := do
  let all ← assembler.allBlocks
  let kept := assembler.keptPositions all
  return { blocks := keptBlocks kept all, replay := assembler.replayFor kept all }

def blocks : Except String (List ContentBlock) := do return (← assembler.assembled).blocks

def replayState : Except String (Option ReplayEnvelope) := do return (← assembler.assembled).replay

end BlockAssembler

end Harness.Llm
