import Harness.Foundation.Utf16
import Harness.Llm.Assembler

namespace Harness.Llm

open Harness.Foundation

structure WireUsage where
  promptTokens : Nat
  completionTokens : Nat
  promptCacheHitTokens : Option Nat
  cachedTokens : Option Nat
  reasoningTokens : Option Nat
  included : ∀ cached ∈ cachedTokens.or promptCacheHitTokens, cached ≤ promptTokens
  deriving DecidableEq, Repr

structure WireFunction where
  name : Option String
  arguments : Option String
  deriving DecidableEq, Repr

structure WireToolCallDelta where
  index : Int
  id : Option String
  function : Option WireFunction
  deriving DecidableEq, Repr

structure WireDelta where
  content : Option String
  reasoningContent : Option String
  toolCalls : List WireToolCallDelta
  deriving DecidableEq, Repr

structure WireChoice where
  delta : Option WireDelta
  finishReason : Option String
  deriving DecidableEq, Repr

structure WireChunk where
  choices : List WireChoice
  usage : Option WireUsage
  deriving DecidableEq, Repr

/-- A payload as it is read: the terminal marker, a chunk, or text that is no JSON. -/
inductive Payload
  | done
  | chunk (chunk : WireChunk)
  | malformed (text : List Char)
  deriving DecidableEq, Repr

inductive BlockKind
  | text
  | reasoning
  | toolCall
  deriving DecidableEq, Repr

def BlockKind.tag : BlockKind → String
  | .text => "text"
  | .reasoning => "reasoning"
  | .toolCall => "tool-call"

structure OpenBlock where
  index : Nat
  kind : BlockKind
  text : String
  callId : Option String
  name : Option String
  deriving DecidableEq, Repr

structure LlmError where
  message : String
  code : String
  deriving DecidableEq, Repr

section Maps

variable (toUpperCase : String → String)

def failureOf (message code : String) : LlmFailure where
  message := message
  code := code
  status := none
  providerRetryAfterMs := none
  requestId := none

def mapFinishReason (reason : String) : FinishReason :=
  match reason with
  | "stop" => .stop
  | "tool_calls" => .toolCalls
  | "length" => .maxTokens
  | other => .error (failureOf s!"model stopped: {other}" (toUpperCase other))

def mapUsage (usage : WireUsage) : TokenUsage :=
  let cacheRead := usage.cachedTokens.or usage.promptCacheHitTokens
  { inputTokens := usage.promptTokens - cacheRead.getD 0
    outputTokens := usage.completionTokens
    cacheReadTokens := cacheRead
    cacheWriteTokens := none
    reasoningTokens := usage.reasoningTokens }

end Maps

def closeBlock (block : OpenBlock) : ContentBlock :=
  match block.kind with
  | .text => .text block.text
  | .reasoning => .reasoning block.text
  | .toolCall =>
    .toolCall { id := block.callId.getD "", name := block.name.getD "", arguments := block.text }

/-- The open blocks are held once, in `order`; the other fields name them by their index. -/
structure Translator where
  nextIndex : Nat
  textBlock : Option Nat
  reasoningBlock : Option Nat
  toolBlocks : OrderedMap Int Nat
  order : List OpenBlock
  pendingFinish : Option FinishReason
  pendingUsage : Option TokenUsage

namespace Translator

def initial : Translator where
  nextIndex := 0
  textBlock := none
  reasoningBlock := none
  toolBlocks := .empty
  order := []
  pendingFinish := none
  pendingUsage := none

variable (state : Translator)

def openBlock (kind : BlockKind) : Translator :=
  { state with
    nextIndex := state.nextIndex + 1
    order := state.order ++
      [{ index := state.nextIndex, kind, text := "", callId := none, name := none }] }

def updateBlock (index : Nat) (f : OpenBlock → OpenBlock) : Translator :=
  { state with
    order := state.order.map fun block => if block.index = index then f block else block }

def blockAt (index : Nat) : Option OpenBlock := state.order.find? fun block => block.index = index

def addText (text : String) (block : OpenBlock) : OpenBlock :=
  { block with text := block.text ++ text }

/-- A text goes to the current block of its kind, which it opens when there is none. -/
def textDelta (kind : BlockKind) (current : Option Nat) (pointTo : Translator → Nat → Translator)
    (delta : Nat → String → StreamChunk) (text : Option String) : Translator × List StreamChunk :=
  match text with
  | none => (state, [])
  | some text =>
    if text = "" then (state, [])
    else
      match current with
      | some index => (state.updateBlock index (addText text), [delta index text])
      | none =>
        let index := state.nextIndex
        let opened := pointTo (state.openBlock kind) index
        (opened.updateBlock index (addText text),
          [.blockStart index kind.tag, delta index text])

def reasoningDelta (reasoning : Option String) : Translator × List StreamChunk :=
  state.textDelta .reasoning state.reasoningBlock
    (fun opened index => { opened with reasoningBlock := some index }) .reasoningDelta reasoning

def contentDelta (content : Option String) : Translator × List StreamChunk :=
  state.textDelta .text state.textBlock
    (fun opened index => { opened with textBlock := some index }) .textDelta content

def fragment (call : WireToolCallDelta) : String :=
  (call.function.bind WireFunction.arguments).getD ""

def reportedName (call : WireToolCallDelta) : Option String := call.function.bind WireFunction.name

def addCall (call : WireToolCallDelta) (block : OpenBlock) : OpenBlock :=
  { block with
    callId := call.id.or block.callId
    name := (reportedName call).or block.name
    text := block.text ++ fragment call }

def callDelta (index : Nat) (call : WireToolCallDelta) (block : OpenBlock) : StreamChunk :=
  .toolCallDelta index (block.callId.getD "") block.name (fragment call)

def toolCallDelta (call : WireToolCallDelta) : Translator × List StreamChunk :=
  let index := (state.toolBlocks.get? call.index).getD state.nextIndex
  let (opened, started) :=
    match state.toolBlocks.get? call.index with
    | some _ => (state, [])
    | none =>
      ({ state.openBlock .toolCall with toolBlocks := state.toolBlocks.set call.index index },
        [StreamChunk.blockStart index BlockKind.toolCall.tag])
  let updated := opened.updateBlock index (addCall call)
  (updated, started ++ (updated.blockAt index).toList.map (callDelta index call))

def choiceStep (toUpperCase : String → String) (choice : WireChoice) : Translator × List StreamChunk :=
  let (state, reasoning) := state.reasoningDelta (choice.delta.bind WireDelta.reasoningContent)
  let (state, content) := state.contentDelta (choice.delta.bind WireDelta.content)
  let (state, calls) := emit toolCallDelta state ((choice.delta.map WireDelta.toolCalls).getD [])
  let finished := choice.finishReason.map (mapFinishReason toUpperCase)
  ({ state with pendingFinish := finished.or state.pendingFinish }, reasoning ++ content ++ calls)

def chunkStep (toUpperCase : String → String) (chunk : WireChunk) : Translator × List StreamChunk :=
  let (state, chunks) := emit (fun state => state.choiceStep toUpperCase) state chunk.choices
  ({ state with pendingUsage := (chunk.usage.map mapUsage).or state.pendingUsage }, chunks)

def emptyResponse : FinishReason :=
  .error (failureOf "model returned a completed response with no content" "EMPTY_RESPONSE")

def finishReason : FinishReason :=
  let reason := state.pendingFinish.getD .stop
  if reason = .stop ∧ state.order.length = 0 then emptyResponse else reason

def doneChunks : List StreamChunk :=
  (state.order.map fun block => .blockEnd block.index (closeBlock block)) ++
    (state.pendingUsage.toList.map .usage ++ [.finish state.finishReason none])

def payloads (toUpperCase : String → String) :
    Translator → List Payload → List StreamChunk × Option LlmError
  | _, [] => ([], some ⟨"SSE payload stream ended without [DONE]", "STREAM_CLOSED"⟩)
  | state, .done :: _ => (state.doneChunks, none)
  | _, .malformed text :: _ =>
    ([], some ⟨s!"malformed SSE payload: {String.ofList (Utf16.slice 120 text)}",
      "MALFORMED_RESPONSE"⟩)
  | state, .chunk chunk :: rest =>
    let (state, chunks) := state.chunkStep toUpperCase chunk
    let (more, failure) := payloads toUpperCase state rest
    (chunks ++ more, failure)

end Translator

def translate (toUpperCase : String → String) (payloads : List Payload) :
    List StreamChunk × Option LlmError :=
  Translator.payloads toUpperCase Translator.initial payloads

end Harness.Llm
