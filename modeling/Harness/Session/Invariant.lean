import Harness.Foundation.Except
import Harness.Session.Event

namespace Harness

open Harness.Foundation

def toolNotStarted : String := "TOOL_NOT_STARTED"

def toolOutcomeUnknown : String := "TOOL_OUTCOME_UNKNOWN"

structure SessionTrace where
  lastSeq : Int
  openTurn : Option Nat
  openStep : Option Nat
  nextTurn : Nat
  nextStep : Nat
  pendingCalls : List CallId
  deriving DecidableEq, Repr

inductive PendingCallsChange
  | none
  | add (callId : CallId)
  | delete (callId : CallId)
  | clear
  deriving DecidableEq, Repr

structure SessionTraceTransition where
  lastSeq : Int
  openTurn : Option Nat
  openStep : Option Nat
  nextTurn : Nat
  nextStep : Nat
  pendingCalls : PendingCallsChange
  deriving DecidableEq, Repr

def freshTrace : SessionTrace where
  lastSeq := -1
  openTurn := none
  openStep := none
  nextTurn := 1
  nextStep := 1
  pendingCalls := []

def nullable : Option Nat → String
  | none => "null"
  | some n => toString n

namespace SessionTrace

def requireOpenStep (trace : SessionTrace) (kind : String) (turn step : Nat) :
    Except String Unit :=
  require (trace.openTurn == some turn && trace.openStep == some step)
    s!"{kind} names turn {turn}/step {step} but open is turn {nullable trace.openTurn}/step {nullable trace.openStep}"

def keep (trace : SessionTrace) (event : SessionEvent) (change : PendingCallsChange) :
    SessionTraceTransition where
  lastSeq := event.seq
  openTurn := trace.openTurn
  openStep := trace.openStep
  nextTurn := trace.nextTurn
  nextStep := trace.nextStep
  pendingCalls := change

def requireOpenTurn (trace : SessionTrace) (event : SessionEvent) : Except String Unit :=
  require trace.openTurn.isSome
    s!"{event.type} appended outside any open turn (core execution events must be turn-enclosed)"

def isAppend (event : SessionEvent) : Bool := event.surfaceOp == some (.str "append")

def syntheticNotStarted (data : ToolResultData) : Bool :=
  data.message.content.isError == some true
    && (data.error.map ToolError.code) == some toolNotStarted

def validateEvent (trace : SessionTrace) (event : SessionEvent) :
    Except String SessionTraceTransition := do
  require (decide (trace.lastSeq < event.seq))
    s!"seq must strictly increase: saw {event.seq} after {trace.lastSeq}"
  match event.data with
  | .turnStart turn =>
    require trace.openTurn.isNone
      s!"turn/start {turn} while turn {nullable trace.openTurn} is still open"
    require (turn == trace.nextTurn) s!"turn/start expected turn {trace.nextTurn}, got {turn}"
    return { trace.keep event .none with openTurn := some turn, nextStep := 1 }
  | .turnEnd turn _ =>
    require (trace.openTurn == some turn)
      s!"turn/end {turn} does not match open turn {nullable trace.openTurn}"
    require trace.openStep.isNone
      s!"turn/end {turn} while step {nullable trace.openStep} is still open"
    return { trace.keep event .none with openTurn := none, nextTurn := trace.nextTurn + 1 }
  | .stepStart turn step =>
    require (trace.openTurn == some turn)
      s!"step/start in turn {turn} but open turn is {nullable trace.openTurn}"
    require trace.openStep.isNone
      s!"step/start {step} while step {nullable trace.openStep} is still open"
    require (step == trace.nextStep)
      s!"step/start expected step {trace.nextStep} in turn {turn}, got {step}"
    return { trace.keep event .none with openStep := some step }
  | .stepEnd turn step =>
    trace.requireOpenStep "step/end" turn step
    return { trace.keep event .clear with openStep := none, nextStep := trace.nextStep + 1 }
  | .assistantChunk turn step _ =>
    trace.requireOpenStep "assistant/chunk" turn step
    return trace.keep event .none
  | .assistantMessage turn step _ _ _ =>
    trace.requireOpenStep "assistant/message" turn step
    return trace.keep event .none
  | .toolCall turn step callId _ _ =>
    trace.requireOpenStep "tool/call" turn step
    return trace.keep event (.add callId)
  | .toolResult data =>
    if isAppend event then
      trace.requireOpenStep "tool/result" data.turn data.step
      let callId := data.message.source.callId
      require (trace.pendingCalls.contains callId || syntheticNotStarted data)
        s!"tool/result for {callId} with no prior tool/call in this step"
      return trace.keep event (.delete callId)
    else
      -- a rewrite of an earlier result is turn work, not a second execution
      require trace.openTurn.isSome "tool/result surface replacement appended outside any open turn"
      return trace.keep event .none
  | .userMessage _ => return trace.keep event .none
  | .endSeed => return trace.keep event .none
  | .todoWrite _ | .requestHeader _ _ | .requestContext _ =>
    trace.requireOpenTurn event
    return trace.keep event .none
  | .plugin _ _ => return trace.keep event .none

def changePending (calls : List CallId) : PendingCallsChange → List CallId
  | .none => calls
  | .add callId => if calls.contains callId then calls else calls ++ [callId]
  | .delete callId => calls.filter fun call => call ≠ callId
  | .clear => []

def applyTransition (trace : SessionTrace) (transition : SessionTraceTransition) : SessionTrace where
  lastSeq := transition.lastSeq
  openTurn := transition.openTurn
  openStep := transition.openStep
  nextTurn := transition.nextTurn
  nextStep := transition.nextStep
  pendingCalls := changePending trace.pendingCalls transition.pendingCalls

def advance (trace : SessionTrace) (event : SessionEvent) : Except String SessionTrace := do
  let transition ← trace.validateEvent event
  return trace.applyTransition transition

end SessionTrace

def seedSession (events : List SessionEvent) : Except String SessionTrace :=
  foldOk SessionTrace.advance freshTrace events

def isTurnEnclosed : EventData → Bool
  | .todoWrite _ | .requestHeader _ _ | .requestContext _ => true
  | _ => false

def isUnconstrained : EventData → Bool
  | .userMessage _ | .endSeed | .plugin _ _ => true
  | _ => false

inductive TraceStep (trace : SessionTrace) (event : SessionEvent) : SessionTrace → Prop
  | turnStart : event.data = .turnStart trace.nextTurn → trace.openTurn = none →
      TraceStep trace event { trace with
        lastSeq := event.seq, openTurn := some trace.nextTurn, nextStep := 1 }
  | turnEnd (turn : Nat) (reason : TurnEndReason) : event.data = .turnEnd turn reason →
      trace.openTurn = some turn → trace.openStep = none →
      TraceStep trace event { trace with
        lastSeq := event.seq, openTurn := none, nextTurn := trace.nextTurn + 1 }
  | stepStart (turn : Nat) : event.data = .stepStart turn trace.nextStep →
      trace.openTurn = some turn → trace.openStep = none →
      TraceStep trace event { trace with lastSeq := event.seq, openStep := some trace.nextStep }
  | stepEnd (turn step : Nat) : event.data = .stepEnd turn step →
      trace.openTurn = some turn → trace.openStep = some step →
      TraceStep trace event { trace with
        lastSeq := event.seq, openStep := none, nextStep := trace.nextStep + 1
        pendingCalls := [] }
  | assistantChunk (turn step : Nat) (chunk : StreamChunk) :
      event.data = .assistantChunk turn step chunk →
      trace.openTurn = some turn → trace.openStep = some step →
      TraceStep trace event { trace with lastSeq := event.seq }
  | assistantMessage (turn step : Nat) (message : AssistantMessage) (usage : Option TokenUsage)
      (interrupted : Bool) : event.data = .assistantMessage turn step message usage interrupted →
      trace.openTurn = some turn → trace.openStep = some step →
      TraceStep trace event { trace with lastSeq := event.seq }
  | toolCall (turn step : Nat) (callId : CallId) (name arguments : String) :
      event.data = .toolCall turn step callId name arguments →
      trace.openTurn = some turn → trace.openStep = some step →
      TraceStep trace event { trace with
        lastSeq := event.seq
        pendingCalls := SessionTrace.changePending trace.pendingCalls (.add callId) }
  | toolResult (data : ToolResultData) : event.data = .toolResult data →
      SessionTrace.isAppend event = true →
      trace.openTurn = some data.turn → trace.openStep = some data.step →
      (data.message.source.callId ∈ trace.pendingCalls ∨
        SessionTrace.syntheticNotStarted data = true) →
      TraceStep trace event { trace with
        lastSeq := event.seq
        pendingCalls :=
          SessionTrace.changePending trace.pendingCalls (.delete data.message.source.callId) }
  | rewrite (data : ToolResultData) (turn : Nat) : event.data = .toolResult data →
      SessionTrace.isAppend event = false → trace.openTurn = some turn →
      TraceStep trace event { trace with lastSeq := event.seq }
  | enclosed (turn : Nat) : isTurnEnclosed event.data = true → trace.openTurn = some turn →
      TraceStep trace event { trace with lastSeq := event.seq }
  | free : isUnconstrained event.data = true →
      TraceStep trace event { trace with lastSeq := event.seq }

namespace SessionTrace

variable {trace trace' : SessionTrace} {event : SessionEvent}

@[simp] theorem requireOpenStep_eq_ok {kind : String} {turn step : Nat} {u : Unit} :
    trace.requireOpenStep kind turn step = .ok u ↔
      trace.openTurn = some turn ∧ trace.openStep = some step := by
  simp [requireOpenStep]

theorem requireOpenTurn_eq_ok {u : Unit} :
    trace.requireOpenTurn event = .ok u ↔ ∃ turn, trace.openTurn = some turn := by
  simp [requireOpenTurn, Option.isSome_iff_exists]

theorem advance_step (h : trace.advance event = .ok trace') :
    trace.lastSeq < event.seq ∧ TraceStep trace event trace' := by
  obtain ⟨transition, htransition, h⟩ := bind_eq_ok.mp h
  obtain rfl := (Except.ok.inj h).symm
  obtain ⟨_, hseq, h⟩ := bind_eq_ok.mp htransition
  refine ⟨by simpa using hseq, ?_⟩
  cases hdata : event.data with
  | turnStart turn =>
    simp only [hdata] at h
    obtain ⟨_, hopen, h⟩ := bind_eq_ok.mp h
    obtain ⟨_, hturn, h⟩ := bind_eq_ok.mp h
    obtain rfl := (Except.ok.inj h).symm
    obtain rfl : turn = trace.nextTurn := by simpa using hturn
    exact .turnStart hdata (by simpa using hopen)
  | turnEnd turn reason =>
    simp only [hdata] at h
    obtain ⟨_, hopen, h⟩ := bind_eq_ok.mp h
    obtain ⟨_, hstep, h⟩ := bind_eq_ok.mp h
    obtain rfl := (Except.ok.inj h).symm
    exact .turnEnd turn reason hdata (by simpa using hopen) (by simpa using hstep)
  | stepStart turn step =>
    simp only [hdata] at h
    obtain ⟨_, hopen, h⟩ := bind_eq_ok.mp h
    obtain ⟨_, hclosed, h⟩ := bind_eq_ok.mp h
    obtain ⟨_, hstep, h⟩ := bind_eq_ok.mp h
    obtain rfl := (Except.ok.inj h).symm
    obtain rfl : step = trace.nextStep := by simpa using hstep
    exact .stepStart turn hdata (by simpa using hopen) (by simpa using hclosed)
  | stepEnd turn step =>
    simp only [hdata] at h
    obtain ⟨_, hopen, h⟩ := bind_eq_ok.mp h
    obtain rfl := (Except.ok.inj h).symm
    obtain ⟨hturn, hstep⟩ := requireOpenStep_eq_ok.mp hopen
    exact .stepEnd turn step hdata hturn hstep
  | assistantChunk turn step chunk =>
    simp only [hdata] at h
    obtain ⟨_, hopen, h⟩ := bind_eq_ok.mp h
    obtain rfl := (Except.ok.inj h).symm
    obtain ⟨hturn, hstep⟩ := requireOpenStep_eq_ok.mp hopen
    exact .assistantChunk turn step chunk hdata hturn hstep
  | assistantMessage turn step message usage interrupted =>
    simp only [hdata] at h
    obtain ⟨_, hopen, h⟩ := bind_eq_ok.mp h
    obtain rfl := (Except.ok.inj h).symm
    obtain ⟨hturn, hstep⟩ := requireOpenStep_eq_ok.mp hopen
    exact .assistantMessage turn step message usage interrupted hdata hturn hstep
  | toolCall turn step callId name arguments =>
    simp only [hdata] at h
    obtain ⟨_, hopen, h⟩ := bind_eq_ok.mp h
    obtain rfl := (Except.ok.inj h).symm
    obtain ⟨hturn, hstep⟩ := requireOpenStep_eq_ok.mp hopen
    exact .toolCall turn step callId name arguments hdata hturn hstep
  | toolResult data =>
    simp only [hdata] at h
    split at h
    · rename_i happend
      obtain ⟨_, hopen, h⟩ := bind_eq_ok.mp h
      obtain ⟨_, hpending, h⟩ := bind_eq_ok.mp h
      obtain rfl := (Except.ok.inj h).symm
      obtain ⟨hturn, hstep⟩ := requireOpenStep_eq_ok.mp hopen
      exact .toolResult data hdata happend hturn hstep (by simpa using hpending)
    · rename_i happend
      obtain ⟨_, hopen, h⟩ := bind_eq_ok.mp h
      obtain rfl := (Except.ok.inj h).symm
      obtain ⟨turn, hturn⟩ := Option.isSome_iff_exists.mp (by simpa using hopen)
      exact .rewrite data turn hdata (by simpa using happend) hturn
  | todoWrite _ =>
    simp only [hdata] at h
    obtain ⟨_, hopen, h⟩ := bind_eq_ok.mp h
    obtain rfl := (Except.ok.inj h).symm
    obtain ⟨turn, hturn⟩ := requireOpenTurn_eq_ok.mp hopen
    exact .enclosed turn (by rw [hdata]; rfl) hturn
  | requestHeader _ _ =>
    simp only [hdata] at h
    obtain ⟨_, hopen, h⟩ := bind_eq_ok.mp h
    obtain rfl := (Except.ok.inj h).symm
    obtain ⟨turn, hturn⟩ := requireOpenTurn_eq_ok.mp hopen
    exact .enclosed turn (by rw [hdata]; rfl) hturn
  | requestContext _ =>
    simp only [hdata] at h
    obtain ⟨_, hopen, h⟩ := bind_eq_ok.mp h
    obtain rfl := (Except.ok.inj h).symm
    obtain ⟨turn, hturn⟩ := requireOpenTurn_eq_ok.mp hopen
    exact .enclosed turn (by rw [hdata]; rfl) hturn
  | userMessage _ =>
    simp only [hdata] at h
    obtain rfl := (Except.ok.inj h).symm
    exact .free (by rw [hdata]; rfl)
  | endSeed =>
    simp only [hdata] at h
    obtain rfl := (Except.ok.inj h).symm
    exact .free (by rw [hdata]; rfl)
  | plugin _ _ =>
    simp only [hdata] at h
    obtain rfl := (Except.ok.inj h).symm
    exact .free (by rw [hdata]; rfl)

theorem advance_of_step (hseq : trace.lastSeq < event.seq) (h : TraceStep trace event trace') :
    trace.advance event = .ok trace' := by
  have hlater : decide (trace.lastSeq < (event.seq : Int)) = true := decide_eq_true hseq
  unfold advance validateEvent
  cases h with
  | turnStart hdata hopen => simp [hlater, hdata, hopen, applyTransition, keep, changePending]
  | turnEnd turn reason hdata hopen hstep =>
    simp [hlater, hdata, hopen, hstep, applyTransition, keep, changePending]
  | stepStart turn hdata hopen hstep =>
    simp [hlater, hdata, hopen, hstep, applyTransition, keep, changePending]
  | stepEnd turn step hdata hopen hstep =>
    simp [hlater, hdata, hopen, hstep, requireOpenStep, applyTransition, keep, changePending]
  | assistantChunk turn step chunk hdata hopen hstep =>
    simp [hlater, hdata, hopen, hstep, requireOpenStep, applyTransition, keep, changePending]
  | assistantMessage turn step message usage interrupted hdata hopen hstep =>
    simp [hlater, hdata, hopen, hstep, requireOpenStep, applyTransition, keep, changePending]
  | toolCall turn step callId name arguments hdata hopen hstep =>
    simp [hlater, hdata, hopen, hstep, requireOpenStep, applyTransition, keep]
  | toolResult data hdata happend hopen hstep hpending =>
    have howed : (decide (data.message.source.callId ∈ trace.pendingCalls) ||
        syntheticNotStarted data) = true := by simpa using hpending
    simp [hlater, hdata, happend, hopen, hstep, howed, requireOpenStep, applyTransition, keep]
  | rewrite data turn hdata happend hopen =>
    simp [hlater, hdata, happend, hopen, applyTransition, keep, changePending]
  | enclosed turn hkind hopen =>
    cases hdata : event.data <;> simp only [hdata, isTurnEnclosed, Bool.false_eq_true] at hkind <;>
      simp [hlater, hopen, requireOpenTurn, applyTransition, keep, changePending]
  | free hkind =>
    cases hdata : event.data <;> simp only [hdata, isUnconstrained, Bool.false_eq_true] at hkind <;>
      simp [hlater, applyTransition, keep, changePending]

end SessionTrace

theorem seedSession_snoc (events : List SessionEvent) (event : SessionEvent) :
    seedSession (events ++ [event]) = seedSession events >>= fun trace => trace.advance event :=
  foldOk_snoc _ _ _ _

end Harness
