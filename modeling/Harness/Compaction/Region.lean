import Harness.Meter.TokenMeter
import Harness.Session.Session

/-! The parts of a compaction: a balanced span of the surface, its priced snapshot, the checks
that it is still the same after the summary, and the events that record the replacement. -/

namespace Harness

open Harness.Foundation

def compactionStartType : PluginType := { name := "compaction/start", notCore := by decide }

def compactionSummaryType : PluginType := { name := "compaction/summary", notCore := by decide }

def compactionEndType : PluginType := { name := "compaction/end", notCore := by decide }

def compactionPruneType : PluginType := { name := "compaction/prune", notCore := by decide }

section ToolPairing

def eventDelta (event : SessionEvent) : Int :=
  match event.data with
  | .assistantMessage _ _ message _ _ => (toolCallBlocks message.content).length
  | .toolResult _ => -1
  | _ => 0

def eventForSeq (events : List SessionEvent) (seq : Nat) : Except String SessionEvent := do
  let event ← expect (events[seq]?.filter fun event => event.seq == seq)
    s!"tool-pairing balance: surface seq {seq} has no matching session event (corrupt surface)"
  return event

def cutsAfter (events : List SessionEvent) : Int → List Nat → Except String (List Bool)
  | _, [] => .ok []
  | inProgress, seq :: seqs => do
    let event ← eventForSeq events seq
    let inProgress := inProgress + eventDelta event
    require (decide (0 ≤ inProgress))
      s!"tool-pairing balance: tool/result at surface seq {seq} has no matching tool-call (corrupt surface)"
    let cuts ← cutsAfter events inProgress seqs
    return decide (inProgress = 0) :: cuts

def cutBalance (events : List SessionEvent) (nodes : List Nat) (seq offset : Nat) :
    Except String Bool := do
  let cuts ← cutsAfter events 0 nodes
  expect ((nodes.idxOf? seq).bind fun index => (true :: cuts)[index + offset]?)
    s!"tool-pairing balance: surface seq {seq} not found"

def toolPairingBalancedBefore (events : List SessionEvent) (nodes : List Nat) (seq : Nat) :
    Except String Bool :=
  cutBalance events nodes seq 0

def toolPairingBalancedAfter (events : List SessionEvent) (nodes : List Nat) (seq : Nat) :
    Except String Bool :=
  cutBalance events nodes seq 1

end ToolPairing

structure SurfaceSelection where
  start : Nat
  endSeq : Nat
  startIdx : Nat
  endIdx : Nat
  shadowedSeqs : List Nat
  deriving DecidableEq, Repr

def validateSurfaceRegion (events : List SessionEvent) (start endSeq : Nat) :
    Except String SurfaceSelection := do
  let surface ← foldSurface events
  let nodes := surface.nodes
  let startIdx ← expect (nodes.idxOf? start)
    s!"compactRegion: start seq {start} not found in surface"
  let endIdx ← expect (nodes.idxOf? endSeq)
    s!"compactRegion: end seq {endSeq} not found in surface"
  require (decide (startIdx ≤ endIdx))
    s!"compactRegion: start seq {start} (position {startIdx}) is after end seq {endSeq} (position {endIdx}) on the surface"
  let before ← toolPairingBalancedBefore events nodes start
  require before
    s!"compactRegion: start seq {start} is not a balanced boundary (would split a step's tool-call/result pair)"
  let after ← toolPairingBalancedAfter events nodes endSeq
  require after
    s!"compactRegion: end seq {endSeq} is not a balanced boundary (would split a step, or the step is still open)"
  return { start, endSeq, startIdx, endIdx, shadowedSeqs := nodeSlice nodes startIdx endIdx }

section Selection

def keepFromIdx (pricedNodes : List TokenSurfaceNode) (retainTokens : Nat) : Nat → Nat → Nat
  | _, 0 => 0
  | accumulated, index + 1 =>
    let accumulated := accumulated + (pricedNodes[index]?.map TokenSurfaceNode.tokens).getD 0
    if retainTokens ≤ accumulated then index
    else keepFromIdx pricedNodes retainTokens accumulated index

def lowerToBalanced (events : List SessionEvent) (nodes : List Nat) : Nat → Except String Nat
  | 0 => .ok 0
  | index + 1 => do
    let seq ← expect nodes[index + 1]? "tool-pairing balance: surface seq undefined not found"
    let balanced ← toolPairingBalancedBefore events nodes seq
    if balanced then return index + 1 else lowerToBalanced events nodes index

def selectCompactableRange (events : List SessionEvent) (pricedNodes : List TokenSurfaceNode)
    (retainTokens : Nat) : Except String (Option (Nat × Nat)) := do
  if pricedNodes.length = 0 then
    return none
  let surface ← foldSurface events
  let surfaceNodes := surface.nodes
  require (decide (surfaceNodes = pricedNodes.map TokenSurfaceNode.seq))
    "compaction: token-meter surface does not match the current session surface"
  let keepFrom ← lowerToBalanced events surfaceNodes
    (keepFromIdx pricedNodes retainTokens 0 pricedNodes.length)
  match keepFrom with
  | 0 => return none
  | index + 1 => return Option.map₂ Prod.mk surfaceNodes[0]? surfaceNodes[index]?

end Selection

structure SummarizationInput where
  system : Option String
  tools : Option (List Json)
  messages : List Message
  deriving DecidableEq, Repr

structure PreparedCompaction where
  selection : SurfaceSelection
  nodes : List TokenSurfaceNode
  selectedNodes : List TokenSurfaceNode
  shadowedTokenCount : Nat
  input : SummarizationInput
  deriving DecidableEq, Repr

/-- `changed` is the error of a surface that is no longer the one a summary was built from. -/
inductive CompactionFailure
  | changed (message : String)
  | thrown (message : String)
  deriving DecidableEq, Repr

def raised {α : Type} (result : Except String α) : Except CompactionFailure α :=
  result.mapError .thrown

def unchangedOr (condition : Bool) (message : String) : Except CompactionFailure Unit :=
  if condition then .ok () else .error (.changed message)

def buildSummarizationInput (events : List SessionEvent) (shadowedSeqs : List Nat) :
    SummarizationInput :=
  let header := foldRequestHeader events none
  { system := header.bind EpochHeader.system
    tools := header.bind EpochHeader.tools
    messages := shadowedSeqs.filterMap (Session.deriveAt events) }

def prepareCompaction (events : List SessionEvent) (selection : SurfaceSelection) :
    Except CompactionFailure PreparedCompaction := do
  let measurement ← raised (measure events)
  let selectedNodes := nodeSlice measurement.surface selection.startIdx selection.endIdx
  unchangedOr (decide (selectedNodes.map TokenSurfaceNode.seq = selection.shadowedSeqs))
    "compaction: selected surface changed before summarization began"
  return {
    selection, nodes := measurement.surface, selectedNodes
    shadowedTokenCount := nodeTokens selectedNodes
    input := buildSummarizationInput events selection.shadowedSeqs }

inductive Stability
  | wholeSurface
  | selectedSpan
  deriving DecidableEq, Repr

def assertWholeSurfaceUnchanged (events : List SessionEvent) (prepared : PreparedCompaction) :
    Except CompactionFailure Unit := do
  let current ← raised (measure events)
  unchangedOr (decide (current.surface = prepared.nodes))
    "compaction: session surface changed during summarization"

def assertSelectedSpanStable (events : List SessionEvent) (prepared : PreparedCompaction) :
    Except CompactionFailure Unit := do
  let current ← (validateSurfaceRegion events prepared.selection.start
    prepared.selection.endSeq).mapError fun _ =>
      .changed "compaction: the selected span is no longer a valid replacement target"
  unchangedOr (decide (current.shadowedSeqs = prepared.selection.shadowedSeqs))
    "compaction: the selected span changed during summarization"
  let measured ← raised (measure events)
  unchangedOr
    (decide (nodeSlice measured.surface current.startIdx current.endIdx = prepared.selectedNodes))
    "compaction: the selected span was rewritten during summarization"

def assertStable (stability : Stability) (events : List SessionEvent)
    (prepared : PreparedCompaction) : Except CompactionFailure Unit :=
  match stability with
  | .wholeSurface => assertWholeSurfaceUnchanged events prepared
  | .selectedSpan => assertSelectedSpanStable events prepared

structure SummaryResult where
  summary : List ContentBlock
  rawOutput : Option (List ContentBlock)
  llmStreamCall : Bool
  provider : String
  model : String
  maxTokens : Option Nat
  usage : Option TokenUsage
  deriving DecidableEq, Repr

def checkpointPreamble : String :=
  "This is an automatically generated checkpoint condensing an earlier span of the conversation to free up context. Treat the captured context as established background and build on it without restating it. Continue the task directly from the messages that follow, without acknowledging this checkpoint."

def frameSummary (summary : List ContentBlock) : List ContentBlock :=
  [.text (checkpointPreamble ++ "\n\n<compacted-summary>")] ++ summary
    ++ [.text "</compacted-summary>"]

def compactCheckpointSource (compactionId : String) (sourceCommandId : Option String) :
    MessageSource :=
  .plugin "compact" (Json.presentFields
    [("compactionId", some (.str compactionId)), ("sourceCommandId", sourceCommandId.map .str)])

structure SummarizedCompaction where
  prepared : PreparedCompaction
  result : SummaryResult
  checkpointMessage : UserMessage
  deriving DecidableEq, Repr

/-- The summary framed as a checkpoint, refused unless it is smaller than what it shadows. -/
def frameCheckpoint (prepared : PreparedCompaction) (result : SummaryResult)
    (messageId : MessageId) (compactionId : String) (sourceCommandId : Option String) :
    Except CompactionFailure SummarizedCompaction :=
  let checkpointMessage : UserMessage :=
    { id := messageId, content := frameSummary result.summary
      source := compactCheckpointSource compactionId sourceCommandId }
  let framedSummaryTokenCount := estimateMessage (.user checkpointMessage)
  if prepared.shadowedTokenCount ≤ framedSummaryTokenCount then
    .error (.thrown s!"summary is not smaller than the shadowed content ({framedSummaryTokenCount} estimated framed tokens >= {prepared.shadowedTokenCount})")
  else .ok { prepared, result, checkpointMessage }

section Events

def blockJson : ContentBlock → Json
  | .text text => .obj [("type", .str "text"), ("text", .str text)]
  | .reasoning text => .obj [("type", .str "reasoning"), ("text", .str text)]
  | .toolCall block =>
    .obj [("type", .str "tool-call"), ("id", .str block.id), ("name", .str block.name),
      ("arguments", .str block.arguments)]
  | .other _ value => value

def blocksJson (blocks : List ContentBlock) : Json := .arr (blocks.map blockJson)

def usageJson (usage : TokenUsage) : Json :=
  .obj (Json.presentFields
    [("inputTokens", some (.nat usage.inputTokens)),
      ("outputTokens", some (.nat usage.outputTokens)),
      ("cacheReadTokens", usage.cacheReadTokens.map .nat),
      ("cacheWriteTokens", usage.cacheWriteTokens.map .nat),
      ("reasoningTokens", usage.reasoningTokens.map .nat)])

structure CompactionLifecycle where
  compactionId : String
  sourceCommandId : Option String
  turn : Option Nat
  deriving DecidableEq, Repr

def lifecycleFields (lifecycle : CompactionLifecycle) : List (String × Option Json) :=
  [("compactionId", some (.str lifecycle.compactionId)),
    ("sourceCommandId", lifecycle.sourceCommandId.map .str),
    ("turn", some ((lifecycle.turn.map Json.nat).getD .null))]

def startData (lifecycle : CompactionLifecycle) : EventData :=
  .plugin compactionStartType (.obj (Json.presentFields (lifecycleFields lifecycle)))

def endData (lifecycle : CompactionLifecycle) (error : Option String) : EventData :=
  .plugin compactionEndType
    (.obj (Json.presentFields (lifecycleFields lifecycle ++ [("error", error.map .str)])))

def shadowedFields (start endSeq : Nat) (shadowedSeqs : List Nat) (tokens : Nat) :
    List (String × Option Json) :=
  [("shadowedRange", some (.obj [("start", .nat start), ("end", .nat endSeq)])),
    ("shadowedSeqs", some (.arr (shadowedSeqs.map .nat))),
    ("shadowedTokenCount", some (.nat tokens))]

def summaryData (lifecycle : CompactionLifecycle) (summarized : SummarizedCompaction) :
    EventData :=
  let prepared := summarized.prepared
  let selection := prepared.selection
  let result := summarized.result
  .plugin compactionSummaryType (.obj (Json.presentFields
    ([("compactionId", some (.str lifecycle.compactionId)),
      ("sourceCommandId", lifecycle.sourceCommandId.map .str),
      ("summary", some (blocksJson result.summary)),
      ("rawOutput", result.rawOutput.map blocksJson),
      ("llmStreamCall", if result.llmStreamCall then some (.bool true) else none)]
      ++ shadowedFields selection.start selection.endSeq selection.shadowedSeqs
        prepared.shadowedTokenCount
      ++ [("provider", some (.str result.provider)), ("model", some (.str result.model)),
        ("maxTokens", result.maxTokens.map .nat), ("usage", result.usage.map usageJson)])))

def pruneData (seq : Nat) (original : ToolResultMessage) : EventData :=
  .plugin compactionPruneType (.obj (Json.presentFields
    (shadowedFields seq seq [seq] (estimateMessage (.toolResult original)))))

def replaceOp (start endSeq : Nat) : Json :=
  .obj [("op", .str "replace"), ("start", .nat start), ("end", .nat endSeq)]

def replaceIntent (start endSeq : Nat) (sources : List Nat) : AppendOpts where
  surfaceOp := some (some (.lossless (replaceOp start endSeq)))
  sourceEventSeqs := some (some (.lossless (.arr (sources.map .nat))))
  ignorable := false

end Events

end Harness
