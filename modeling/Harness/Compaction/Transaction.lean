import Harness.Compaction.Region
import Harness.Session.EventLog
import Harness.Session.Repair

/-! The compaction transaction: admitted under the lock the log itself records, suspended while
the summary is written, and closed by the one marker that releases the lock. -/

namespace Harness

open Harness.Foundation

def isPlugin (type : PluginType) (event : SessionEvent) : Bool := event.type == type.name

def isCompactionStart : SessionEvent → Bool := isPlugin compactionStartType

def isCompactionEnd : SessionEvent → Bool := isPlugin compactionEndType

def isEndSeed (event : SessionEvent) : Bool := event.type == "session/end-seed"

structure CompactionEntryState where
  openTurn : Option Nat
  unmatchedCompactionStart : Option SessionEvent
  latestEndSeedSeq : Option Nat
  deriving DecidableEq, Repr

def latest (kind : SessionEvent → Bool) (events : List SessionEvent) : Option SessionEvent :=
  events.reverse.find? kind

def inspectCompactionEntryState (events : List SessionEvent) : CompactionEntryState where
  openTurn :=
    match (latest (fun event => event.type == "turn/start" || event.type == "turn/end")
        events).map SessionEvent.data with
    | some (.turnStart turn) => some turn
    | _ => none
  unmatchedCompactionStart :=
    (latest (fun event => isCompactionStart event || isCompactionEnd event) events).filter
      isCompactionStart
  latestEndSeedSeq := (latest isEndSeed events).map SessionEvent.seq

def assertCompactionInactive (entry : CompactionEntryState) (stage : String) :
    Except String Unit :=
  match entry.unmatchedCompactionStart with
  | none => .ok ()
  | some start =>
    require (entry.latestEndSeedSeq.any fun seq => decide (start.seq < seq))
      s!"{stage}: compaction already in progress; the session compaction lock is already active"

def assertNoActiveCompaction (events : List SessionEvent) (stage : String) : Except String Unit :=
  assertCompactionInactive (inspectCompactionEntryState events) stage

inductive CompactionOwner
  | currentTurn
  | standalone
  deriving DecidableEq, Repr

structure CompactionRequest where
  start : Nat
  endSeq : Nat
  owner : CompactionOwner
  stability : Stability
  flushes : Bool
  compactionId : String
  sourceCommandId : Option String
  deriving DecidableEq, Repr

def owningTurn (owner : CompactionOwner) (openTurn : Option Nat) :
    Except String (Option Nat) :=
  match owner, openTurn with
  | .standalone, some _ => .error "manual compaction: the session already has an open turn"
  | .standalone, none => .ok none
  | .currentTurn, none =>
    .error "compactRegion: no open turn — automatic compaction events must be enclosed in a turn"
  | .currentTurn, some turn => .ok (some turn)

/-- The synchronous entry: everything that is checked before the opening marker. -/
def admitRequest (events : List SessionEvent) (request : CompactionRequest) (aborted : Bool) :
    Except String (SurfaceSelection × CompactionLifecycle) := do
  require (!(request.owner == .standalone && aborted)) "aborted"
  let selection ← validateSurfaceRegion events request.start request.endSeq
  let entryState := inspectCompactionEntryState events
  assertCompactionInactive entryState "compaction"
  let turn ← owningTurn request.owner entryState.openTurn
  return (selection,
    { compactionId := request.compactionId, sourceCommandId := request.sourceCommandId, turn })

inductive FailureStage
  | summary
  | commit
  deriving DecidableEq, Repr

structure TransactionFailure where
  error : CompactionFailure
  stage : FailureStage
  deriving DecidableEq, Repr

def CompactionFailure.message : CompactionFailure → String
  | .changed message => message
  | .thrown message => message

structure CompactionResult where
  compactionId : String
  sourceCommandId : Option String
  startSeq : Nat
  summarySeq : Nat
  endSeq : Nat
  summary : List ContentBlock
  shadowedStart : Nat
  shadowedEnd : Nat
  shadowedSeqs : List Nat
  shadowedTokenCount : Nat
  deriving DecidableEq, Repr

structure RunningCompaction where
  request : CompactionRequest
  lifecycle : CompactionLifecycle
  startSeq : Nat
  prepared : PreparedCompaction
  deriving DecidableEq, Repr

structure Publication where
  veto : Option String
  time : Int
  deriving DecidableEq, Repr

def publish (log : EventLog) (data : EventData) (opts : Option AppendOpts)
    (publication : Publication) : Except String SessionEvent × EventLog :=
  let (reply, log) := log.append { data := .lossless data, opts, time := publication.time }
    { checks := [], veto := publication.veto, observers := [] }
  (reply.result, log)

structure Aftermath where
  flushError : Option String
  aborted : Bool
  deriving DecidableEq, Repr

inductive CompactionReply
  | none
  | refused (message : String)
  | summarizing
  | completed (result : CompactionResult)
  | aborted
  | failed (failure : TransactionFailure)
  | persistence (message : String)
  deriving DecidableEq, Repr

/-- How a transaction ended: its result or its failure, and whether its bracket is closed. -/
structure Landing where
  outcome : Except TransactionFailure CompactionResult
  closed : Bool

def report (request : CompactionRequest) (landing : Landing) (aftermath : Aftermath) :
    CompactionReply :=
  if request.owner == .standalone && aftermath.aborted then .aborted
  else
    match landing.outcome with
    | .error failure => .failed failure
    | .ok result =>
      match aftermath.flushError with
      | some message => if landing.closed && request.flushes then .persistence message
          else .completed result
      | none => .completed result

def closeFailed (log : EventLog) (lifecycle : CompactionLifecycle) (failure : TransactionFailure)
    (publication : Publication) : Landing × EventLog :=
  match publish log (endData lifecycle (some failure.error.message)) none publication with
  | (.ok _, log) => ({ outcome := .error failure, closed := true }, log)
  | (.error message, log) =>
    ({ outcome := .error { error := .thrown message, stage := .commit }, closed := false }, log)

structure CommitPublications where
  summary : Publication
  checkpoint : Publication
  close : Publication
  deriving DecidableEq, Repr

def commitCompactionBody (log : EventLog) (transaction : RunningCompaction)
    (summarized : SummarizedCompaction) (publications : CommitPublications) :
    Except String Nat × EventLog :=
  let selection := summarized.prepared.selection
  match publish log (summaryData transaction.lifecycle summarized) none publications.summary with
  | (.error message, log) => (.error message, log)
  | (.ok summaryEvent, log) =>
    match publish log (.userMessage summarized.checkpointMessage)
        (some (replaceIntent selection.start selection.endSeq
          (transaction.startSeq :: summaryEvent.seq :: selection.shadowedSeqs)))
        publications.checkpoint with
    | (.error message, log) => (.error message, log)
    | (.ok _, log) => (.ok summaryEvent.seq, log)

def completeCompaction (transaction : RunningCompaction) (summarized : SummarizedCompaction)
    (summarySeq endSeq : Nat) : CompactionResult where
  compactionId := transaction.lifecycle.compactionId
  sourceCommandId := transaction.lifecycle.sourceCommandId
  startSeq := transaction.startSeq
  summarySeq := summarySeq
  endSeq := endSeq
  summary := summarized.result.summary
  shadowedStart := summarized.prepared.selection.start
  shadowedEnd := summarized.prepared.selection.endSeq
  shadowedSeqs := summarized.prepared.selection.shadowedSeqs
  shadowedTokenCount := summarized.prepared.shadowedTokenCount

/-- What comes back from the summarizer, and whether the request was aborted meanwhile. -/
structure Settlement where
  outcome : Except String SummaryResult
  messageId : MessageId
  aborted : Bool
  publications : CommitPublications
  aftermath : Aftermath

def ready (log : EventLog) (transaction : RunningCompaction) (settlement : Settlement) :
    Except CompactionFailure SummarizedCompaction := do
  let result ← raised settlement.outcome
  let summarized ← frameCheckpoint transaction.prepared result settlement.messageId
    transaction.lifecycle.compactionId transaction.lifecycle.sourceCommandId
  raised (require (!(transaction.request.owner == .standalone && settlement.aborted)) "aborted")
  assertStable transaction.request.stability log summarized.prepared
  return summarized

def land (log : EventLog) (transaction : RunningCompaction) (settlement : Settlement) :
    Landing × EventLog :=
  let publications := settlement.publications
  match ready log transaction settlement with
  | .error error =>
    closeFailed log transaction.lifecycle { error, stage := .summary } publications.close
  | .ok summarized =>
    match commitCompactionBody log transaction summarized publications with
    | (.error message, log) =>
      closeFailed log transaction.lifecycle { error := .thrown message, stage := .commit }
        publications.close
    | (.ok summarySeq, log) =>
      match publish log (endData transaction.lifecycle none) none publications.close with
      | (.error message, log) =>
        ({ outcome := .error { error := .thrown message, stage := .commit }, closed := false }, log)
      | (.ok endEvent, log) =>
        ({ outcome := .ok (completeCompaction transaction summarized summarySeq endEvent.seq)
           closed := true }, log)

structure CompactionState where
  log : EventLog
  running : List RunningCompaction
  deriving DecidableEq, Repr

def compactionMarkers : List String :=
  [compactionStartType.name, compactionEndType.name, "session/end-seed"]

/-- An event of any other component: none but a compaction writes its markers, and none but
the constructor of a session the end of its seed. -/
structure ForeignCandidate where
  candidate : Candidate
  foreign : candidate.data.type ∉ compactionMarkers
  deriving DecidableEq, Repr

structure Entry where
  request : CompactionRequest
  aborted : Bool
  opening : Publication
  closing : Publication
  aftermath : Aftermath
  deriving DecidableEq, Repr

inductive CompactionLabel
  | other (foreign : ForeignCandidate) (dispatch : Session.Dispatch)
  | enter (entry : Entry)
  | settle (index : Nat) (settlement : Settlement)
  | crash (kept : Nat) (now : Int)

namespace CompactionState

def initial : CompactionState := { log := [], running := [] }

def enter (state : CompactionState) (entry : Entry) : CompactionState × CompactionReply :=
  match admitRequest state.log entry.request entry.aborted with
  | .error message => (state, .refused message)
  | .ok (selection, lifecycle) =>
    match publish state.log (startData lifecycle) none entry.opening with
    | (.error message, log) => ({ state with log }, .refused message)
    | (.ok startEvent, log) =>
      match prepareCompaction log selection with
      | .error error =>
        let (landing, log) := closeFailed log lifecycle { error, stage := .summary } entry.closing
        ({ state with log }, report entry.request landing entry.aftermath)
      | .ok prepared =>
        ({ log
           running := state.running ++
             [{ request := entry.request, lifecycle, startSeq := startEvent.seq, prepared }] },
          .summarizing)

def settle (state : CompactionState) (index : Nat) (settlement : Settlement) :
    CompactionState × CompactionReply :=
  match state.running[index]? with
  | none => (state, .none)
  | some transaction =>
    let (landing, log) := land state.log transaction settlement
    ({ log, running := state.running.eraseIdx index },
      report transaction.request landing settlement.aftermath)

def restartSeed (log : EventLog) (kept : Nat) : List SessionEvent :=
  log.take kept ++ interruptedTurnClosers (log.take kept)

def crash (state : CompactionState) (kept : Nat) (now : Int) : CompactionState :=
  match Session.create (some ((restartSeed state.log kept).map .lossless)) now with
  | .ok session => { log := session.logged, running := [] }
  | .error _ => initial

def step (state : CompactionState) : CompactionLabel → CompactionState × CompactionReply
  | .other foreign dispatch =>
    ({ state with log := (state.log.append foreign.candidate dispatch).2 }, .none)
  | .enter entry => state.enter entry
  | .settle index settlement => state.settle index settlement
  | .crash kept now => (state.crash kept now, .none)

end CompactionState

end Harness
