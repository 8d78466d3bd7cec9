import Harness.Foundation.OrderedMap
import Harness.Session.Invariant

namespace Harness

open Harness.Foundation

structure PendingCall where
  step : Nat
  callSeq : Option Nat
  deriving DecidableEq, Repr

structure RepairScan where
  openTurn : Option Nat
  openStep : Option Nat
  pendingCalls : OrderedMap CallId PendingCall

namespace RepairScan

def start : RepairScan := { openTurn := none, openStep := none, pendingCalls := .empty }

def observe (scan : RepairScan) (event : SessionEvent) : RepairScan :=
  match event.data with
  | .turnStart turn => { openTurn := some turn, openStep := none, pendingCalls := .empty }
  | .turnEnd _ _ => { openTurn := none, openStep := none, pendingCalls := .empty }
  | .stepStart _ step => { scan with openStep := some step }
  | .stepEnd _ _ => { scan with openStep := none, pendingCalls := .empty }
  | .assistantMessage _ step message _ _ =>
    { scan with
      pendingCalls := scan.pendingCalls.setAll
        ((toolCallBlocks message.content).map ToolCallBlock.id) { step, callSeq := none } }
  | .toolCall _ _ callId _ _ =>
    { scan with
      pendingCalls := scan.pendingCalls.modify callId fun call =>
        { call with callSeq := some event.seq } }
  | .toolResult data =>
    { scan with pendingCalls := scan.pendingCalls.delete data.message.source.callId }
  | _ => scan

end RepairScan

def repairScan (events : List SessionEvent) : RepairScan :=
  events.foldl RepairScan.observe .start

def interruptedText (started : Bool) : String :=
  if started then
    "The tool call was interrupted after it was recorded, but no result was durably recorded. Its outcome is unknown. Decide whether to retry from the tool semantics: retry only if the operation is read-only or idempotent; if it may have side effects, first verify external state or ask the user. Do not retry blindly."
  else
    "The tool call was interrupted before the Harness recorded it as started. Retry it if it is still needed."

def interruptedError (started : Bool) : ToolError :=
  if started then { name := "ToolOutcomeUnknownError", code := toolOutcomeUnknown }
  else { name := "ToolNotStartedError", code := toolNotStarted }

def interruptedResult (turn : Nat) (time : Int) (seq : Nat) (callId : CallId)
    (call : PendingCall) : SessionEvent where
  seq := seq
  time := time
  data := .toolResult
    { turn, step := call.step
      message :=
        { id := s!"interrupted-tool-result-{callId}-{seq}", source := { callId }
          content :=
            { toolCallId := callId, isError := some true
              content := [.text (interruptedText call.callSeq.isSome)], loadedTools := none } }
      error := some (interruptedError call.callSeq.isSome), metadata := none }
  surfaceOp := some (.str "append")
  sourceEventSeqs := call.callSeq.map fun callSeq => .arr [.nat callSeq]
  ignorable := false

def resultClosers (turn : Nat) (time : Int) :
    Nat → List (CallId × PendingCall) → List SessionEvent
  | _, [] => []
  | seq, (callId, call) :: rest =>
    interruptedResult turn time seq callId call :: resultClosers turn time (seq + 1) rest

def boundaryClosers (turn : Nat) (time : Int) (seq : Nat) : Option Nat → List SessionEvent
  | some step =>
    [logOnly seq time (.stepEnd turn step), logOnly (seq + 1) time (.turnEnd turn .interrupted)]
  | none => [logOnly seq time (.turnEnd turn .interrupted)]

def closersOf (scan : RepairScan) (turn : Nat) (last : SessionEvent) : List SessionEvent :=
  let calls := scan.pendingCalls.entries
  resultClosers turn last.time (last.seq + 1) calls
    ++ boundaryClosers turn last.time (last.seq + 1 + calls.length) scan.openStep

def interruptedTurnClosers (events : List SessionEvent) : List SessionEvent :=
  let scan := repairScan events
  match scan.openTurn, events.getLast? with
  | some turn, some last => closersOf scan turn last
  | _, _ => []

end Harness
