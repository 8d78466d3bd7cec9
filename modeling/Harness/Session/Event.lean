import Harness.Foundation.SafeInteger

namespace Harness

open Harness.Foundation

abbrev CallId := String

abbrev MessageId := String

structure LlmFailure where
  message : String
  code : String
  status : Option Nat
  providerRetryAfterMs : Option Nat
  requestId : Option String
  deriving DecidableEq, Repr

inductive TurnEndCancelCause
  | user
  | parent
  | hook (reason : String)
  | disposed
  | legacy
  deriving DecidableEq, Repr

inductive TurnEndReason
  | completed
  | aborted (reason : TurnEndCancelCause)
  | blocked
  | error (error : LlmFailure)
  | maxTokens
  | interrupted
  deriving DecidableEq, Repr

structure TokenUsage where
  inputTokens : Nat
  outputTokens : Nat
  cacheReadTokens : Option Nat
  cacheWriteTokens : Option Nat
  reasoningTokens : Option Nat
  deriving DecidableEq, Repr

structure ToolCallBlock where
  id : CallId
  name : String
  arguments : String
  deriving DecidableEq, Repr

/-- `other` holds the blocks no function below looks into: images, results nested in other
content, and the blocks of plugins. -/
inductive ContentBlock
  | text (text : String)
  | reasoning (text : String)
  | toolCall (block : ToolCallBlock)
  | other (type : String) (value : Json)
  deriving DecidableEq, Repr

def ContentBlock.toolCall? : ContentBlock → Option ToolCallBlock
  | .toolCall block => some block
  | _ => none

def toolCallBlocks (content : List ContentBlock) : List ToolCallBlock :=
  content.filterMap ContentBlock.toolCall?

structure ReplayEnvelope where
  response : Json
  blocks : Option (List Json)
  deriving DecidableEq, Repr

structure ModelMessageSource where
  provider : String
  model : String
  replayState : Option ReplayEnvelope
  deriving DecidableEq, Repr

structure ToolMessageSource where
  callId : CallId
  deriving DecidableEq, Repr

inductive MessageSource
  | user
  | plugin (plugin : String) (form : List (String × Json))
  | model (source : ModelMessageSource)
  | tool (source : ToolMessageSource)
  | other (kind : String) (fields : List (String × Json))
  deriving DecidableEq, Repr

def MessageSource.kind : MessageSource → String
  | .user => "user"
  | .plugin _ _ => "plugin"
  | .model _ => "model"
  | .tool _ => "tool"
  | .other kind _ => kind

structure UserMessage where
  id : MessageId
  content : List ContentBlock
  source : MessageSource
  deriving DecidableEq, Repr

structure AssistantMessage where
  id : MessageId
  content : List ContentBlock
  source : ModelMessageSource
  deriving DecidableEq, Repr

structure ToolResultBlock where
  toolCallId : CallId
  content : List ContentBlock
  isError : Option Bool
  loadedTools : Option (List Json)
  deriving DecidableEq, Repr

structure ToolResultMessage where
  id : MessageId
  source : ToolMessageSource
  content : ToolResultBlock
  deriving DecidableEq, Repr

inductive Message
  | user (message : UserMessage)
  | assistant (message : AssistantMessage)
  | toolResult (message : ToolResultMessage)
  deriving DecidableEq, Repr

inductive FinishReason
  | stop
  | toolCalls
  | maxTokens
  | aborted (failure : LlmFailure)
  | error (failure : LlmFailure)
  deriving DecidableEq, Repr

inductive StreamChunk
  | blockStart (index : Nat) (blockType : String)
  | textDelta (index : Nat) (text : String)
  | reasoningDelta (index : Nat) (text : String)
  | toolCallDelta (index : Nat) (id : CallId) (name : Option String) (argumentsDelta : String)
  | blockEnd (index : Nat) (block : ContentBlock)
  | usage (usage : TokenUsage)
  | finish (reason : FinishReason) (replayState : Option ReplayEnvelope)
  deriving DecidableEq, Repr

structure LlmCallConfig where
  provider : String
  model : String
  reasoningEffort : Option String
  temperature : Option JsonNumber
  maxTokens : Option Nat
  stop : Option (List String)
  deriving DecidableEq, Repr

structure LlmCallConfigAdapterDefaults where
  reasoningEffort : Bool
  maxTokens : Bool
  deriving DecidableEq, Repr

structure EpochHeader where
  config : LlmCallConfig
  adapterDefaults : Option LlmCallConfigAdapterDefaults
  system : Option String
  tools : Option (List Json)
  deriving DecidableEq, Repr

/-- `fallback` is the reason of the retired delta codec, which the log refuses. -/
inductive RequestHeaderReason
  | initial
  | resume
  | change
  | fallback
  deriving DecidableEq, Repr

structure RequestContext where
  provider : String
  model : String
  contextWindow : Option Nat
  deriving DecidableEq, Repr

inductive TodoStatus
  | pending
  | inProgress
  | completed
  deriving DecidableEq, Repr

structure TodoItem where
  content : String
  status : TodoStatus
  deriving DecidableEq, Repr

structure ToolError where
  name : String
  code : String
  deriving DecidableEq, Repr

structure ToolResultData where
  turn : Nat
  step : Nat
  message : ToolResultMessage
  error : Option ToolError
  metadata : Option Json
  deriving DecidableEq, Repr

def coreEventTypes : List String :=
  ["turn/start", "turn/end", "step/start", "step/end", "user/message", "assistant/chunk",
    "assistant/message", "tool/call", "tool/result", "todo/write", "request/header",
    "request/context", "session/end-seed"]

structure PluginType where
  name : String
  notCore : name ∉ coreEventTypes
  deriving DecidableEq, Repr

inductive EventData
  | turnStart (turn : Nat)
  | turnEnd (turn : Nat) (reason : TurnEndReason)
  | stepStart (turn step : Nat)
  | stepEnd (turn step : Nat)
  | userMessage (message : UserMessage)
  | assistantChunk (turn step : Nat) (chunk : StreamChunk)
  | assistantMessage (turn step : Nat) (message : AssistantMessage) (usage : Option TokenUsage)
      (interrupted : Bool)
  | toolCall (turn step : Nat) (callId : CallId) (name arguments : String)
  | toolResult (data : ToolResultData)
  | todoWrite (todos : List TodoItem)
  | requestHeader (header : EpochHeader) (reason : RequestHeaderReason)
  | requestContext (context : RequestContext)
  | endSeed
  | plugin (type : PluginType) (data : Json)
  deriving DecidableEq, Repr

def EventData.type : EventData → String
  | .turnStart _ => "turn/start"
  | .turnEnd _ _ => "turn/end"
  | .stepStart _ _ => "step/start"
  | .stepEnd _ _ => "step/end"
  | .userMessage _ => "user/message"
  | .assistantChunk _ _ _ => "assistant/chunk"
  | .assistantMessage _ _ _ _ _ => "assistant/message"
  | .toolCall _ _ _ _ _ => "tool/call"
  | .toolResult _ => "tool/result"
  | .todoWrite _ => "todo/write"
  | .requestHeader _ _ => "request/header"
  | .requestContext _ => "request/context"
  | .endSeed => "session/end-seed"
  | .plugin type _ => type.name

/-- `surfaceOp` and `sourceEventSeqs` are the raw fields: the surface fold checks their shape. -/
structure SessionEvent where
  seq : Nat
  time : Int
  data : EventData
  surfaceOp : Option Json
  sourceEventSeqs : Option Json
  ignorable : Bool
  deriving DecidableEq, Repr

def SessionEvent.type (event : SessionEvent) : String := event.data.type

def logOnly (seq : Nat) (time : Int) (data : EventData) : SessionEvent :=
  { seq, time, data, surfaceOp := none, sourceEventSeqs := none, ignorable := false }

end Harness
