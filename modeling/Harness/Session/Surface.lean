import Harness.Foundation.Except
import Harness.Session.Event

/-! The ordered surface over a session log: validation of one candidate, the complete fold,
and the incremental manager that caches one planned transition. -/

namespace Harness

open Harness.Foundation

def surfaceEventTypes : List String := ["user/message", "assistant/message", "tool/result"]

def isSurfaceEligibleType (type : String) : Bool := surfaceEventTypes.contains type

inductive SurfaceOp
  | append
  | replace (start endSeq : Nat)
  deriving DecidableEq, Repr

structure SurfaceFoldReplacement where
  seq : Nat
  start : Nat
  endSeq : Nat
  shadowedSeqs : List Nat
  deriving DecidableEq, Repr

structure SurfaceFoldResult where
  nodes : List Nat
  replacements : List SurfaceFoldReplacement
  deriving DecidableEq, Repr

structure SurfaceFoldState where
  nodes : List Nat
  replaceGeneration : Nat
  deriving DecidableEq, Repr

structure ReplacementRange where
  startIdx : Nat
  endIdx : Nat
  shadowedSeqs : List Nat
  deriving DecidableEq, Repr

inductive SurfacePlan
  | append (seq : Nat)
  | replace (seq start endSeq : Nat) (range : ReplacementRange)
  deriving DecidableEq, Repr

def createFoldState : SurfaceFoldState := { nodes := [], replaceGeneration := 0 }

def isEventSeq (value : Json) : Bool := value.safeNat?.isSome

def isReplaceOp (op : List (String × Json)) : Bool :=
  op.length == 3 && Json.hasOwn op "op" && Json.hasOwn op "start" && Json.hasOwn op "end"
    && op.lookup "op" == some (.str "replace")
    && (op.lookup "start").any isEventSeq && (op.lookup "end").any isEventSeq

def seqField (op : List (String × Json)) (key : String) : Nat :=
  ((op.lookup key).bind Json.safeNat?).getD 0

def surfaceOpOf (event : SessionEvent) : Except String (Option SurfaceOp) :=
  if !isSurfaceEligibleType event.type then do
    require event.surfaceOp.isNone
      s!"session event \"{event.type}\" is not surface-eligible and cannot carry surfaceOp"
    require event.sourceEventSeqs.isNone
      s!"session event \"{event.type}\" is not surface-eligible and cannot carry sourceEventSeqs"
    return none
  else
    match event.surfaceOp with
    | none =>
      .error s!"session event \"{event.type}\" is surface-eligible and requires a surfaceOp marker"
    | some (.str "append") => .ok (some .append)
    | some (.obj op) =>
      if isReplaceOp op then .ok (some (.replace (seqField op "start") (seqField op "end")))
      else .error s!"session event \"{event.type}\" carries an invalid replace surfaceOp"
    | some _ => .error s!"session event \"{event.type}\" carries an invalid surfaceOp"

/-- The cited sources, once their array has the shape `assertProvenance` asks for. -/
def citedSources (event : SessionEvent) : Except String (List Nat) :=
  match event.sourceEventSeqs with
  | none => .ok []
  | some (.arr raw) => do
    require (!raw.isEmpty || event.type == "assistant/message")
      "sourceEventSeqs must not be empty except on assistant/message"
    match raw.mapM Json.safeNat? with
    | none =>
      .error s!"session event \"{event.type}\" sourceEventSeqs must densely contain non-negative safe integers"
    | some sources => do
      require (decide sources.Nodup) "sourceEventSeqs must not contain duplicates"
      match sources.find? fun source => decide (event.seq ≤ source) with
      | some source =>
        .error s!"sourceEventSeqs must reference earlier events: {source} >= current seq {event.seq}"
      | none => .ok sources
  | some _ => .error s!"sourceEventSeqs on event at seq {event.seq} must be an array when present"

def joinSeqs (seqs : List Nat) : String := ", ".intercalate (seqs.map toString)

def assertProvenance (event : SessionEvent) (shadowedSeqs : List Nat) : Except String Unit := do
  let sources ← citedSources event
  let missing := shadowedSeqs.filter fun seq => !sources.contains seq
  require missing.isEmpty
    s!"surface replace: sourceEventSeqs must include every shadowed surface node; missing {joinSeqs missing}"

def replacementRange (state : SurfaceFoldState) (start endSeq : Nat) :
    Except String ReplacementRange :=
  match state.nodes.idxOf? start with
  | none => .error s!"surface replace: start seq {start} not found in surface"
  | some startIdx =>
    match state.nodes.idxOf? endSeq with
    | none => .error s!"surface replace: end seq {endSeq} not found in surface"
    | some endIdx => do
      require (decide (startIdx ≤ endIdx))
        s!"surface replace: start seq {start} (index {startIdx}) is after end seq {endSeq} (index {endIdx})"
      return { startIdx, endIdx
               shadowedSeqs := (state.nodes.drop startIdx).take (endIdx + 1 - startIdx) }

def isDeepEqualJson (a b : Json) : Bool := a.deepEqual b

def toolResultRest (data : ToolResultData) : Json :=
  let block := data.message.content
  .obj ([("turn", .nat data.turn), ("step", .nat data.step),
    ("message", .obj [("id", .str data.message.id), ("role", .str "user"),
      ("source", .obj [("kind", .str "tool"), ("callId", .str data.message.source.callId)]),
      ("content", .arr [.obj ([("type", .str "tool-result"),
        ("toolCallId", .str block.toolCallId), ("content", .null)]
        ++ Json.optionalField "isError" (block.isError.map .bool)
        ++ Json.optionalField "loadedTools" (block.loadedTools.map .arr))])])]
    ++ Json.optionalField "error" (data.error.map fun error =>
      .obj [("name", .str error.name), ("code", .str error.code)])
    ++ Json.optionalField "meta" data.metadata)

def eventAt (events : List SessionEvent) (baseSeq seq : Nat) : Option SessionEvent :=
  if baseSeq ≤ seq then events[seq - baseSeq]? else none

def assertToolResultRewrite (event : SessionEvent) (shadowedSeqs : List Nat)
    (events : List SessionEvent) (baseSeq : Nat) : Except String Unit :=
  match event.data with
  | .toolResult replacement =>
    match shadowedSeqs with
    | [originalSeq] =>
      match (eventAt events baseSeq originalSeq).map SessionEvent.data with
      | some (.toolResult original) =>
        require (isDeepEqualJson (toolResultRest original) (toolResultRest replacement))
          "tool/result surface replacement may change only content"
      | _ => .error "tool/result surface replacement must target a current tool/result"
    | _ => .error "tool/result surface replacement must rewrite exactly one current node"
  | _ => .ok ()

def planSurfaceEvent (state : SurfaceFoldState) (event : SessionEvent) (expectedSeq : Nat)
    (events : List SessionEvent) (baseSeq : Nat) : Except String (Option SurfacePlan) := do
  require (event.seq == expectedSeq)
    s!"session event seq {event.seq} is not contiguous; expected {expectedSeq}"
  match ← surfaceOpOf event with
  | none => return none
  | some .append =>
    assertProvenance event []
    return some (.append event.seq)
  | some (.replace start endSeq) =>
    let range ← replacementRange state start endSeq
    assertProvenance event range.shadowedSeqs
    assertToolResultRewrite event range.shadowedSeqs events baseSeq
    return some (.replace event.seq start endSeq range)

def applySurfacePlan (state : SurfaceFoldState) :
    Option SurfacePlan → SurfaceFoldState × Option SurfaceFoldReplacement
  | none => (state, none)
  | some (.append seq) => ({ state with nodes := state.nodes ++ [seq] }, none)
  | some (.replace seq start endSeq range) =>
    ({ nodes := state.nodes.take range.startIdx ++ [seq] ++ state.nodes.drop (range.endIdx + 1)
       replaceGeneration := state.replaceGeneration + 1 },
      some { seq, start, endSeq, shadowedSeqs := range.shadowedSeqs })

def applySurfaceEvent (state : SurfaceFoldState) (event : SessionEvent) (expectedSeq : Nat)
    (events : List SessionEvent) (baseSeq : Nat) :
    Except String (SurfaceFoldState × Option SurfaceFoldReplacement) := do
  let plan ← planSurfaceEvent state event expectedSeq events baseSeq
  return applySurfacePlan state plan

structure SurfaceFold where
  state : SurfaceFoldState
  replacements : List SurfaceFoldReplacement
  deriving DecidableEq, Repr

def SurfaceFold.record (fold : SurfaceFold)
    (outcome : SurfaceFoldState × Option SurfaceFoldReplacement) : SurfaceFold :=
  { state := outcome.1, replacements := fold.replacements ++ outcome.2.toList }

def foldSurfaceLoop (events : List SessionEvent) :
    Nat → SurfaceFold → List SessionEvent → Except String SurfaceFold
  | _, fold, [] => .ok fold
  | index, fold, event :: rest => do
    let outcome ← applySurfaceEvent fold.state event index events 0
    foldSurfaceLoop events (index + 1) (fold.record outcome) rest

def SurfaceFold.empty : SurfaceFold := { state := createFoldState, replacements := [] }

def runFold (events : List SessionEvent) : Except String SurfaceFold :=
  foldSurfaceLoop events 0 .empty events

def foldSurface (events : List SessionEvent) : Except String SurfaceFoldResult := do
  let fold ← runFold events
  return { nodes := fold.state.nodes, replacements := fold.replacements }

def deriveEventMessage (event : SessionEvent) : Option Message :=
  match event.data with
  | .userMessage message => some (.user message)
  | .assistantMessage _ _ message _ _ =>
    if message.content.isEmpty then none else some (.assistant message)
  | .toolResult data => some (.toolResult data.message)
  | _ => none

structure EventObject where
  ref : Nat
  event : SessionEvent
  deriving DecidableEq, Repr

structure PendingPlan where
  ref : Nat
  expectedSeq : Nat
  plan : Option SurfacePlan
  deriving DecidableEq, Repr

structure SurfaceManager where
  baseSeq : Nat
  state : SurfaceFoldState
  nextSeq : Nat
  pendingPlan : Option PendingPlan
  deriving DecidableEq, Repr

namespace SurfaceManager

def create (baseSeq : Nat) : SurfaceManager :=
  { baseSeq, state := createFoldState, nextSeq := baseSeq, pendingPlan := none }

def pendingFor (manager : SurfaceManager) (object : EventObject) : Option PendingPlan :=
  manager.pendingPlan.filter fun pending =>
    pending.ref == object.ref && pending.expectedSeq == manager.nextSeq

def processEvent (manager : SurfaceManager) (log : List EventObject) (object : EventObject) :
    Except String SurfaceManager := do
  let outcome ←
    match manager.pendingFor object with
    | some pending => .ok (applySurfacePlan manager.state pending.plan)
    | none =>
      applySurfaceEvent manager.state object.event manager.nextSeq (log.map EventObject.event)
        manager.baseSeq
  return { manager with
    state := outcome.1
    nextSeq := manager.nextSeq + 1
    pendingPlan := manager.pendingPlan.filter fun pending =>
      decide (manager.nextSeq < pending.expectedSeq) }

def processEvents (log : List EventObject) :
    List EventObject → SurfaceManager → Except String Unit × SurfaceManager
  | [], manager => (.ok (), manager)
  | object :: rest, manager =>
    match manager.processEvent log object with
    | .error message => (.error message, manager)
    | .ok manager' => processEvents log rest manager'

def processDelta (manager : SurfaceManager) (log : List EventObject) :
    Except String Unit × SurfaceManager :=
  processEvents log (log.drop (manager.nextSeq - manager.baseSeq)) manager

def validateNext (manager : SurfaceManager) (log : List EventObject) (object : EventObject) :
    Except String Unit × SurfaceManager :=
  match manager.processDelta log with
  | (.error message, manager') => (.error message, manager')
  | (.ok (), manager') =>
    let expectedSeq := manager'.baseSeq + log.length
    match planSurfaceEvent manager'.state object.event expectedSeq (log.map EventObject.event)
        manager'.baseSeq with
    | .error message => (.error message, manager')
    | .ok plan =>
      (.ok (), { manager' with pendingPlan := some { ref := object.ref, expectedSeq, plan } })

def replaceGeneration (manager : SurfaceManager) (log : List EventObject) :
    Except String Nat × SurfaceManager :=
  let (result, manager') := manager.processDelta log
  (result.map fun _ => manager'.state.replaceGeneration, manager')

def nodes (manager : SurfaceManager) (log : List EventObject) :
    Except String (List Nat) × SurfaceManager :=
  let (result, manager') := manager.processDelta log
  (result.map fun _ => manager'.state.nodes, manager')

end SurfaceManager

end Harness
