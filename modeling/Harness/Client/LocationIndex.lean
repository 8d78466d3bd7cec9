import Harness.Foundation.Except
import Harness.Foundation.OrderedMap
import Harness.Session.Event

namespace Harness.Client

open Harness.Foundation

structure Coordinates where
  turn : Option Nat
  step : Option Nat
  deriving DecidableEq

def Coordinates.none : Coordinates := ⟨.none, .none⟩

inductive LocationStatus
  | unknown
  | isOpen
  | closed
  deriving DecidableEq

structure StepLocation where
  turn : Nat
  step : Nat
  start : Option SessionEvent
  stop : Option SessionEvent
  status : LocationStatus
  deriving DecidableEq

structure TurnLocation where
  turn : Nat
  start : Option SessionEvent
  stop : Option SessionEvent
  status : LocationStatus
  steps : List StepLocation
  deriving DecidableEq

inductive ConversationLocation
  | session
  | unresolved
  | turn (turn : TurnLocation)
  | step (turn : TurnLocation) (step : StepLocation)
  deriving DecidableEq

structure ConversationTimeline where
  turnOrder : List Nat
  turns : OrderedMap Nat TurnLocation

@[ext] structure StepDraft where
  turn : Nat
  step : Nat
  firstSeq : Nat
  start : Option SessionEvent
  stop : Option SessionEvent

@[ext] structure TurnDraft where
  turn : Nat
  firstSeq : Nat
  start : Option SessionEvent
  stop : Option SessionEvent
  steps : OrderedMap Nat StepDraft

abbrev Drafts := OrderedMap Nat TurnDraft

/-- `data.turn`. -/
def turnField : EventData → Option Json
  | .turnStart turn => some (.nat turn)
  | .turnEnd turn _ => some (.nat turn)
  | .stepStart turn _ => some (.nat turn)
  | .stepEnd turn _ => some (.nat turn)
  | .assistantChunk turn _ _ => some (.nat turn)
  | .assistantMessage turn _ _ _ _ => some (.nat turn)
  | .toolCall turn _ _ _ _ => some (.nat turn)
  | .toolResult data => some (.nat data.turn)
  | .plugin _ data => data.get? "turn"
  | _ => none

/-- `data.step`. -/
def stepField : EventData → Option Json
  | .stepStart _ step => some (.nat step)
  | .stepEnd _ step => some (.nat step)
  | .assistantChunk _ step _ => some (.nat step)
  | .assistantMessage _ step _ _ _ => some (.nat step)
  | .toolCall _ step _ _ _ => some (.nat step)
  | .toolResult data => some (.nat data.step)
  | .plugin _ data => data.get? "step"
  | _ => none

def readable : EventData → Bool
  | .plugin _ .null => false
  | _ => true

def notReadable : String := "Cannot read properties of null (reading 'turn')"

def payloadCoordinates (data : EventData) : Option Coordinates :=
  if turnField data = some .null then none
  else some ⟨(turnField data).bind Json.safeNat?, (stepField data).bind Json.safeNat?⟩

def isBoundary : EventData → Bool
  | .turnStart _ => true
  | .turnEnd _ _ => true
  | .stepStart _ _ => true
  | .stepEnd _ _ => true
  | _ => false

def isTurnBoundary : EventData → Bool
  | .turnStart _ => true
  | .turnEnd _ _ => true
  | _ => false

structure CurrentPlace where
  turn : Option Nat
  step : Option Nat
  deriving DecidableEq

namespace CurrentPlace

variable (current : CurrentPlace)

def begin (data : EventData) : CurrentPlace :=
  match data with
  | .turnStart turn => ⟨some turn, none⟩
  | .stepStart turn step => ⟨some turn, some step⟩
  | _ => current

def adopt (explicit : Coordinates) : CurrentPlace :=
  match explicit.turn with
  | none => current
  | some turn =>
    ⟨some turn, explicit.step.or (if current.turn = some turn then current.step else none)⟩

def coordinates (explicit : Coordinates) (data : EventData) : Coordinates :=
  let turn := explicit.turn.or current.turn
  let step := if isTurnBoundary data then none
    else explicit.step.or (if turn = current.turn then current.step else none)
  ⟨turn, if turn.isNone then none else step⟩

def finish (data : EventData) : CurrentPlace :=
  match data with
  | .stepEnd turn step =>
    if current.turn = some turn ∧ current.step = some step then { current with step := none }
    else current
  | .turnEnd turn _ => if current.turn = some turn then ⟨none, none⟩ else current
  | _ => current

end CurrentPlace

def place (current : CurrentPlace) (data : EventData) : Coordinates × CurrentPlace :=
  match payloadCoordinates data with
  | none => (.none, current.begin data)
  | some explicit =>
    let current := (current.begin data).adopt explicit
    (current.coordinates explicit data, current)

def turnDraft (turns : Drafts) (turn seq : Nat) : Drafts :=
  match turns.get? turn with
  | none => turns.set turn ⟨turn, seq, none, none, .empty⟩
  | some draft => turns.set turn { draft with firstSeq := min draft.firstSeq seq }

def stepDraft (turns : Drafts) (turn step seq : Nat) : Drafts :=
  (turnDraft turns turn seq).modify turn fun owner =>
    match owner.steps.get? step with
    | none => { owner with steps := owner.steps.set step ⟨turn, step, seq, none, none⟩ }
    | some draft =>
      { owner with
        steps := owner.steps.set step { draft with firstSeq := min draft.firstSeq seq } }

def draftEvent (turns : Drafts) (coordinates : Coordinates) (event : SessionEvent) : Drafts :=
  let turns := match coordinates.turn with
    | none => turns
    | some turn => turnDraft turns turn event.seq
  let turns := match coordinates.turn, coordinates.step with
    | some turn, some step => stepDraft turns turn step event.seq
    | _, _ => turns
  match event.data with
  | .turnStart turn =>
    (turnDraft turns turn event.seq).modify turn fun draft => { draft with start := some event }
  | .turnEnd turn _ =>
    (turnDraft turns turn event.seq).modify turn fun draft => { draft with stop := some event }
  | .stepStart turn step =>
    (stepDraft turns turn step event.seq).modify turn fun draft =>
      { draft with
        steps := draft.steps.modify step fun draft => { draft with start := some event } }
  | .stepEnd turn step =>
    (stepDraft turns turn step event.seq).modify turn fun draft =>
      { draft with steps := draft.steps.modify step fun draft => { draft with stop := some event } }
  | _ => turns

def statusOf (start stop : Option SessionEvent) : LocationStatus :=
  if stop.isSome then .closed else if start.isNone then .unknown else .isOpen

def StepDraft.location (draft : StepDraft) : StepLocation where
  turn := draft.turn
  step := draft.step
  start := draft.start
  stop := draft.stop
  status := statusOf draft.start draft.stop

def TurnDraft.location (draft : TurnDraft) : TurnLocation where
  turn := draft.turn
  start := draft.start
  stop := draft.stop
  status := statusOf draft.start draft.stop
  steps := (draft.steps.values.mergeSort fun left right => left.firstSeq ≤ right.firstSeq).map
    StepDraft.location

def timelineOf (turns : Drafts) : ConversationTimeline :=
  let ordered := turns.values.mergeSort fun left right => left.firstSeq ≤ right.firstSeq
  { turnOrder := ordered.map TurnDraft.turn
    turns := ordered.foldl (fun turns draft => turns.set draft.turn draft.location) .empty }

structure LocationIndex where
  coordinates : OrderedMap Nat Coordinates
  locations : OrderedMap Nat ConversationLocation
  seqsByTurn : OrderedMap Nat (List Nat)
  timeline : ConversationTimeline
  current : CurrentPlace

def LocationIndex.fresh : LocationIndex := ⟨.empty, .empty, .empty, ⟨[], .empty⟩, ⟨none, none⟩⟩

structure Scan where
  turns : Drafts
  coordinates : OrderedMap Nat Coordinates
  current : CurrentPlace

def scanEvent (scan : Scan) (event : SessionEvent) : Scan :=
  let (coordinates, current) := place scan.current event.data
  { turns := draftEvent scan.turns coordinates event
    coordinates := scan.coordinates.set event.seq coordinates
    current := current.finish event.data }

def resolve (timeline : ConversationTimeline) (coordinates : Option Coordinates) :
    ConversationLocation :=
  match coordinates.bind Coordinates.turn with
  | none => .session
  | some number =>
    match timeline.turns.get? number with
    | none => .unresolved
    | some turn =>
      match coordinates.bind Coordinates.step with
      | none => .turn turn
      | some number =>
        match turn.steps.find? fun candidate => candidate.step = number with
        | none => .turn turn
        | some step => .step turn step

namespace LocationIndex

variable (index : LocationIndex)

def resolve (seq : Nat) : ConversationLocation :=
  Client.resolve index.timeline (index.coordinates.get? seq)

def locationOf (event : SessionEvent) : ConversationLocation :=
  (index.locations.get? event.seq).getD .session

def indexTurnSeq (turn seq : Nat) : LocationIndex :=
  let seqs := (index.seqsByTurn.get? turn).getD []
  { index with
    seqsByTurn := index.seqsByTurn.set turn (if seq ∈ seqs then seqs else seqs ++ [seq]) }

def relocate (seq : Nat) : LocationIndex :=
  { index with locations := index.locations.set seq (index.resolve seq) }

def indexEvent (event : SessionEvent) : LocationIndex :=
  let index := match (index.coordinates.get? event.seq).bind Coordinates.turn with
    | none => index
    | some turn => index.indexTurnSeq turn event.seq
  index.relocate event.seq

/-- The index of a whole window, and the seqs whose location is another than before. -/
def rebuilt (entries : List SessionEvent) : LocationIndex × List Nat :=
  let scan := entries.foldl scanEvent ⟨.empty, .empty, ⟨none, none⟩⟩
  let rebuilt := entries.foldl indexEvent
    { coordinates := scan.coordinates
      locations := .empty
      seqsByTurn := .empty
      timeline := timelineOf scan.turns
      current := scan.current }
  let changed := entries.filter fun event =>
    index.locations.get? event.seq ≠ rebuilt.locations.get? event.seq
  (rebuilt, changed.map SessionEvent.seq)

def rebuild (entries : List SessionEvent) : Except String (LocationIndex × List Nat) := do
  require (entries.all fun event => readable event.data) notReadable
  return index.rebuilt entries

end LocationIndex

def appendStep (steps : List StepLocation) (turn : Nat) (event : SessionEvent) :
    List StepLocation :=
  let replace (number : Nat) (candidate : Option StepLocation → StepLocation) :=
    let next := candidate (steps.find? fun step => step.step = number)
    match steps.findIdx? fun step => step.step = number with
    | none => steps ++ [next]
    | some found => steps.set found next
  match event.data with
  | .stepStart _ number => replace number fun previous =>
    let stop := previous.bind StepLocation.stop
    { turn, step := number, start := some event, stop
      status := if stop.isSome then .closed else .isOpen }
  | .stepEnd _ number => replace number fun previous =>
    { turn, step := number, start := previous.bind StepLocation.start, stop := some event
      status := .closed }
  | _ => steps

/-- `event.type === 'turn/start' ? event : previous`. -/
def startedBy (event : SessionEvent) (previous : Option SessionEvent) : Option SessionEvent :=
  match event.data with
  | .turnStart _ => some event
  | _ => previous

def stoppedBy (event : SessionEvent) (previous : Option SessionEvent) : Option SessionEvent :=
  match event.data with
  | .turnEnd _ _ => some event
  | _ => previous

def appendTurn (timeline : ConversationTimeline) (turn : Nat) (event : SessionEvent) :
    ConversationTimeline :=
  let previous := timeline.turns.get? turn
  let start := startedBy event (previous.bind TurnLocation.start)
  let stop := stoppedBy event (previous.bind TurnLocation.stop)
  let candidate : TurnLocation :=
    { turn, start, stop
      status := if stop.isSome then .closed else if start.isSome then .isOpen else .unknown
      steps := appendStep ((previous.map TurnLocation.steps).getD []) turn event }
  { turnOrder := if previous.isNone then timeline.turnOrder ++ [turn] else timeline.turnOrder
    turns := timeline.turns.set turn candidate }

namespace LocationIndex

variable (index : LocationIndex)

/-- One boundary, and the seqs of its turn whose location is another than before. -/
def appendBoundary (event : SessionEvent) : Except String (LocationIndex × List Nat) :=
  if isBoundary event.data then
    let (coordinates, current) := place index.current event.data
    match coordinates.turn with
    | none => .error ("conversation boundary " ++ event.type ++ " has no turn")
    | some turn =>
      let indexed := { index with
        coordinates := index.coordinates.set event.seq coordinates }.indexTurnSeq turn event.seq
      let advanced := { indexed with timeline := appendTurn index.timeline turn event }
      let seqs := (advanced.seqsByTurn.get? turn).getD []
      let relocated := seqs.foldl relocate advanced
      let changed := seqs.filter fun seq =>
        index.locations.get? seq ≠ relocated.locations.get? seq
      .ok ({ relocated with current := current.finish event.data }, changed)
  else .error ("conversation Location boundary expected, received " ++ event.type)

def appendNonBoundary (event : SessionEvent) : LocationIndex :=
  let (coordinates, current) := place index.current event.data
  let indexed := { index with coordinates := index.coordinates.set event.seq coordinates, current }
  let indexed := match coordinates.turn with
    | none => indexed
    | some turn => indexed.indexTurnSeq turn event.seq
  indexed.relocate event.seq

def append (event : SessionEvent) : Except String (LocationIndex × List Nat) := do
  require (readable event.data) notReadable
  if isBoundary event.data then index.appendBoundary event
  else return (index.appendNonBoundary event, [])

def appendAll (events : List SessionEvent) : Except String LocationIndex :=
  foldOk (fun index event => Prod.fst <$> index.append event) index events

end LocationIndex

end Harness.Client
