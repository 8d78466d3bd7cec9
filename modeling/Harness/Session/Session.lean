import Harness.Foundation.Machine
import Harness.Session.Surface

universe u

namespace Harness

open Harness.Foundation

/-- A value a caller hands over; `exotic` is one that lossless JSON refuses. -/
inductive Supplied (α : Type u)
  | lossless (value : α)
  | exotic
  deriving DecidableEq, Repr

def snapshotJsonValue {α : Type u} : Supplied α → Option α
  | .lossless value => some value
  | .exotic => none

inductive CandidateData
  | lossless (data : EventData)
  | exotic (type : String)
  deriving DecidableEq, Repr

def CandidateData.type : CandidateData → String
  | .lossless data => data.type
  | .exotic type => type

/-- The third argument of `append`.  A key that is present may still hold `undefined`. -/
structure AppendOpts where
  surfaceOp : Option (Option (Supplied Json))
  sourceEventSeqs : Option (Option (Supplied Json))
  ignorable : Bool
  deriving DecidableEq, Repr

structure Candidate where
  data : CandidateData
  opts : Option AppendOpts
  time : Int
  deriving DecidableEq, Repr

def canonicalHeader (header : EpochHeader) : EpochHeader where
  config := header.config
  adapterDefaults := header.adapterDefaults.filter fun defaults =>
    defaults.reasoningEffort || defaults.maxTokens
  system := header.system.filter fun system => decide (0 < system.length)
  tools := header.tools.filter fun tools => decide (0 < tools.length)

def foldRequestHeader (events : List SessionEvent) (state : Option EpochHeader) :
    Option EpochHeader :=
  events.foldl (fun state event =>
    match event.data with
    | .requestHeader header _ => some (canonicalHeader header)
    | _ => state) state

def foldRequestContext (events : List SessionEvent) (state : Option RequestContext) :
    Option RequestContext :=
  events.foldl (fun state event =>
    match event.data with
    | .requestContext context => some context
    | _ => state) state

def assertSupportedRequestHeader (data : EventData) (location : String) : Except String Unit :=
  match data with
  | .plugin type _ =>
    require (type.name != "request/header-delta")
      s!"{location} uses unsupported legacy request/header-delta format"
  | .requestHeader _ .fallback =>
    .error s!"{location} uses unsupported legacy request/header reason \"fallback\""
  | _ => .ok ()

def assertAdapterDefaults (header : EpochHeader) (index : Nat) : Except String Unit :=
  require (header.adapterDefaults.all fun defaults =>
      !(defaults.reasoningEffort && header.config.reasoningEffort.isNone)
        && !(defaults.maxTokens && header.config.maxTokens.isNone))
    s!"seed request/header at index {index} has invalid adapterDefaults"

def assertMessageEventShape (data : EventData) (subject : String) : Except String Unit :=
  match data with
  | .userMessage message => do
    require (message.id != "") s!"{subject} lacks an identified message"
    require (message.source.kind != "") s!"{subject} message has invalid source"
  | .assistantMessage _ _ message _ _ => do
    require (message.id != "") s!"{subject} lacks an identified message"
    require (message.source.provider != "" && message.source.model != "")
      s!"{subject} message must have model source"
  | .toolResult data => do
    require (data.message.id != "") s!"{subject} lacks an identified message"
    require (data.message.source.callId != "") s!"{subject} message must have tool source"
    require (data.message.content.toolCallId == data.message.source.callId)
      s!"{subject} message has mismatched tool call ids"
  | _ => .ok ()

def assertCurrentLlmShape (event : SessionEvent) (index : Nat) : Except String Unit :=
  match event.data with
  | .requestHeader header _ => do
    require (header.config.provider != "" && header.config.model != "")
      s!"seed request/header at index {index} lacks provider/model"
    require (header.config.reasoningEffort.all fun effort => effort != "")
      s!"seed request/header at index {index} has an invalid reasoningEffort"
    assertAdapterDefaults header index
  | data => assertMessageEventShape data s!"seed {event.type} at index {index}"

def assertSessionEventEnvelope (event : SessionEvent) (index : Nat) : Except String Unit := do
  require (event.type != "request/header-delta")
    s!"seed event at index {index} uses unsupported legacy request/header-delta format"
  require (isSafe event.seq && isSafe event.time)
    s!"seed event at index {index} has an invalid event envelope"
  assertCurrentLlmShape event index

/-- A field of the surface metadata: absent unless the options carry a `surfaceOp` key. -/
def surfaceField (opts : Option AppendOpts) (field : AppendOpts → Option (Option (Supplied Json))) :
    Option (Supplied Json) :=
  (opts.filter fun opts => opts.surfaceOp.isSome).bind fun opts => (field opts).join

def snapshotField : Option (Supplied Json) → Option (Option Json)
  | none => some none
  | some value => (snapshotJsonValue value).map some

/-- The checks `append` makes before it looks at the session: the event it would log at `seq`. -/
def snapshotCandidate (candidate : Candidate) (seq : Nat) : Except String SessionEvent :=
  match candidate.data with
  | .exotic type => .error s!"session event \"{type}\" carries non-JSON-serializable data"
  | .lossless data => do
    assertSupportedRequestHeader data s!"session event \"{data.type}\""
    match snapshotField (surfaceField candidate.opts AppendOpts.surfaceOp),
        snapshotField (surfaceField candidate.opts AppendOpts.sourceEventSeqs) with
    | some surfaceOp, some sourceEventSeqs =>
      return { seq, time := candidate.time, data, surfaceOp, sourceEventSeqs
               ignorable := candidate.opts.any AppendOpts.ignorable }
    | _, _ =>
      .error s!"session event \"{data.type}\" carries non-JSON-serializable surface metadata"

namespace Session

inductive Read
  | nodes
  | replaceGeneration
  | events
  | seq
  | requestHeader
  | requestContext
  | deriveMessages
  deriving DecidableEq, Repr

inductive ReadReply
  | seqs (seqs : List Nat)
  | count (count : Nat)
  | events (events : List SessionEvent)
  | header (header : Option EpochHeader)
  | context (context : Option RequestContext)
  | messages (messages : List Message)
  | threw (message : String)
  deriving DecidableEq, Repr

/-- What a listener may do to the session while an append is being published. -/
inductive Nested
  | read (read : Read)
  | append (candidate : Candidate)
  deriving DecidableEq, Repr

inductive NestedReply
  | read (reply : ReadReply)
  | threw (message : String)
  deriving DecidableEq, Repr

/-- One publication: the checks that run before the event enters the log, which may reject it,
and the observers that run after. -/
structure Dispatch where
  checks : List Nested
  veto : Option String
  observers : List Nested
  deriving DecidableEq, Repr

def Dispatch.detached : Dispatch := { checks := [], veto := none, observers := [] }

inductive Op
  | read (read : Read)
  | append (candidate : Candidate) (dispatch : Dispatch)
  deriving DecidableEq, Repr

structure AppendReply where
  checks : List NestedReply
  result : Except String SessionEvent
  observers : List NestedReply
  deriving DecidableEq

inductive Reply
  | read (reply : ReadReply)
  | append (reply : AppendReply)
  deriving DecidableEq

end Session

structure Session where
  log : List EventObject
  surfaceManager : SurfaceManager
  firstLiveSeq : Nat
  eventsSnapshot : Option (List SessionEvent)
  headerFold : Option EpochHeader
  headerFoldSeq : Nat
  contextFold : Option RequestContext
  contextFoldSeq : Nat
  derived : List Message
  derivedNodes : Nat
  derivedGeneration : Nat
  nextRef : Nat
  deriving DecidableEq, Repr

namespace Session

def logged (session : Session) : List SessionEvent := session.log.map EventObject.event

def events (session : Session) : List SessionEvent × Session :=
  match session.eventsSnapshot with
  | some snapshot => (snapshot, session)
  | none => (session.logged, { session with eventsSnapshot := some session.logged })

def requestHeader (session : Session) : Option EpochHeader × Session :=
  let headerFold := foldRequestHeader (session.logged.drop session.headerFoldSeq) session.headerFold
  let session := { session with headerFold, headerFoldSeq := session.log.length }
  (headerFold, session)

def requestContext (session : Session) : Option RequestContext × Session :=
  let contextFold :=
    foldRequestContext (session.logged.drop session.contextFoldSeq) session.contextFold
  let session := { session with contextFold, contextFoldSeq := session.log.length }
  (contextFold, session)

def surfaceNodes (session : Session) : Except String (List Nat) × Session :=
  let (nodes, surfaceManager) := session.surfaceManager.nodes session.log
  (nodes, { session with surfaceManager })

def surfaceGeneration (session : Session) : Except String Nat × Session :=
  let (generation, surfaceManager) := session.surfaceManager.replaceGeneration session.log
  (generation, { session with surfaceManager })

/-- Drop the derived messages if the surface was rewritten since they were cached. -/
def syncGeneration (session : Session) (generation : Nat) : Session :=
  if generation ≠ session.derivedGeneration then
    { session with derived := [], derivedNodes := 0, derivedGeneration := generation }
  else session

def deriveAt (events : List SessionEvent) (seq : Nat) : Option Message :=
  events[seq]?.bind deriveEventMessage

def extendDerived (session : Session) (nodes : List Nat) : Session :=
  { session with
    derived := session.derived ++
      (nodes.drop session.derivedNodes).filterMap (deriveAt session.logged)
    derivedNodes := nodes.length }

def deriveMessages (session : Session) : Except String (List Message) × Session :=
  match session.surfaceNodes with
  | (.error message, session) => (.error message, session)
  | (.ok nodes, session) =>
    match session.surfaceGeneration with
    | (.error message, session) => (.error message, session)
    | (.ok generation, session) =>
      let session := (session.syncGeneration generation).extendDerived nodes
      (.ok session.derived, session)

def replyOf {α : Type} (reply : α → ReadReply) : Except String α → ReadReply
  | .ok value => reply value
  | .error message => .threw message

def read (session : Session) : Read → ReadReply × Session
  | .nodes => session.surfaceNodes.map (replyOf .seqs) id
  | .replaceGeneration => session.surfaceGeneration.map (replyOf .count) id
  | .events => session.events.map .events id
  | .seq => (.count session.log.length, session)
  | .requestHeader => session.requestHeader.map .header id
  | .requestContext => session.requestContext.map .context id
  | .deriveMessages => session.deriveMessages.map (replyOf .messages) id

/-- An `append` from inside a publication never gets past the `appending` flag. -/
def reentryError (candidate : Candidate) (seq : Nat) : String :=
  match snapshotCandidate candidate seq with
  | .error message => message
  | .ok _ => "session append cannot reenter while another append is being published"

def nested (session : Session) : Nested → NestedReply × Session
  | .read read => (session.read read).map .read id
  | .append candidate => (.threw (reentryError candidate session.log.length), session)

def runNested : Session → List Nested → List NestedReply × Session
  | session, [] => ([], session)
  | session, action :: rest =>
    let (reply, session) := session.nested action
    let (replies, session) := session.runNested rest
    (reply :: replies, session)

def push (session : Session) (object : EventObject) : Session :=
  { session with log := session.log ++ [object], eventsSnapshot := none }

def append (session : Session) (candidate : Candidate) (dispatch : Dispatch) :
    AppendReply × Session :=
  match snapshotCandidate candidate session.log.length with
  | .error message => ({ checks := [], result := .error message, observers := [] }, session)
  | .ok event =>
    let object : EventObject := { ref := session.nextRef, event }
    let (validated, surfaceManager) := session.surfaceManager.validateNext session.log object
    let session := { session with surfaceManager, nextRef := session.nextRef + 1 }
    match validated with
    | .error message => ({ checks := [], result := .error message, observers := [] }, session)
    | .ok () =>
      let (checks, session) := session.runNested dispatch.checks
      match dispatch.veto with
      | some message => ({ checks, result := .error message, observers := [] }, session)
      | none =>
        let (observers, session) := (session.push object).runNested dispatch.observers
        ({ checks, result := .ok event, observers }, session)

def step (session : Session) : Op → Session × Reply
  | .read read =>
    let (reply, session) := session.read read
    (session, .read reply)
  | .append candidate dispatch =>
    let (reply, session) := session.append candidate dispatch
    (session, .append reply)

def empty : Session where
  log := []
  surfaceManager := .create 0
  firstLiveSeq := 0
  eventsSnapshot := none
  headerFold := none
  headerFoldSeq := 0
  contextFold := none
  contextFoldSeq := 0
  derived := []
  derivedNodes := 0
  derivedGeneration := 0
  nextRef := 0

def seedEvent (session : Session) (source : Supplied SessionEvent) : Except String Session := do
  let index := session.log.length
  match snapshotJsonValue source with
  | none => .error s!"seed event at index {index} is not losslessly JSON-serializable"
  | some snapshot =>
    assertSessionEventEnvelope snapshot index
    assertSupportedRequestHeader snapshot.data s!"seed event at index {index}"
    require (snapshot.seq == index)
      s!"seed event at index {index} has seq {snapshot.seq} (expected {index}); seed must be contiguous from 0"
    let object : EventObject := { ref := session.nextRef, event := snapshot }
    match session.surfaceManager.validateNext session.log object with
    | (.error message, _) => .error s!"invalid seed event at index {index}: {message}"
    | (.ok (), surfaceManager) =>
      return ({ session with surfaceManager, nextRef := session.nextRef + 1 }).push object

def create (seed : Option (List (Supplied SessionEvent))) (now : Int) : Except String Session := do
  let session ← foldOk seedEvent empty (seed.getD [])
  let session := { session with firstLiveSeq := session.log.length }
  if seed.isNone || session.logged.getLast?.any (fun event => event.type == "session/end-seed") then
    return session
  else
    let (reply, session) := session.append { data := .lossless .endSeed, opts := none, time := now }
      .detached
    reply.result.map fun _ => session

end Session

end Harness
