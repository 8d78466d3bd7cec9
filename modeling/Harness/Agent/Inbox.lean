import Harness.Foundation.Except
import Harness.Foundation.Splice
import Harness.Session.Event

universe u v

namespace Harness

open Harness.Foundation

inductive InboxTarget
  | nextTurn
  | nextStep
  deriving DecidableEq, Repr

/-- The payload of `agent/inbox/spliced`.  A live splice writes natural coordinates; a stored
one may hold any number.  `canceled` is the one outcome there is. -/
structure InboxSplice where
  target : InboxTarget
  start : JsonNumber
  removedCount : Option JsonNumber
  inserted : List UserMessage
  canceled : Bool
  deriving DecidableEq, Repr

def isSafeNat : JsonNumber → Bool
  | .int n => isSafe n && decide (0 ≤ n)
  | .frac _ _ _ => false

def natural : JsonNumber → Nat
  | .int n => n.toNat
  | .frac _ _ _ => 0

namespace InboxSplice

def index (splice : InboxSplice) : Nat := natural splice.start

def count (splice : InboxSplice) : Nat := natural (splice.removedCount.getD (.int 0))

end InboxSplice

inductive AgentEvent
  | spliced (splice : InboxSplice)
  | other (data : EventData)
  deriving DecidableEq, Repr

structure AgentLog where
  events : List AgentEvent
  seedLength : Option Nat
  inherited : seedLength.getD 0 ≤ events.length
  deriving DecidableEq, Repr

namespace AgentLog

def seeded (log : AgentLog) : Nat := log.seedLength.getD 0

def owned (log : AgentLog) : List AgentEvent := log.events.drop log.seeded

def append (log : AgentLog) (event : AgentEvent) : AgentLog where
  events := log.events ++ [event]
  seedLength := log.seedLength
  inherited := by
    rw [List.length_append]
    exact Nat.le_add_right_of_le log.inherited

end AgentLog

structure InboxState (α : Type u) where
  nextTurn : List α
  nextStep : List α
  deriving DecidableEq, Repr

namespace InboxState

variable {α : Type u} {β : Type v}

def empty : InboxState α := { nextTurn := [], nextStep := [] }

def get (state : InboxState α) : InboxTarget → List α
  | .nextTurn => state.nextTurn
  | .nextStep => state.nextStep

def set (state : InboxState α) (target : InboxTarget) (items : List α) : InboxState α :=
  match target with
  | .nextTurn => { state with nextTurn := items }
  | .nextStep => { state with nextStep := items }

def pending (state : InboxState α) : List α := state.nextTurn ++ state.nextStep

def splice (state : InboxState α) (target : InboxTarget) (start count : Nat) (inserted : List α) :
    InboxState α :=
  state.set target (toSpliced (state.get target) start count inserted)

def map (f : α → β) (state : InboxState α) : InboxState β where
  nextTurn := state.nextTurn.map f
  nextStep := state.nextStep.map f

end InboxState

def assertUnpending (messages : List UserMessage) : Except String (List MessageId) :=
  foldOk (fun ids message =>
    if message.id ∈ ids then .error s!"message \"{message.id}\" is already pending"
    else .ok (message.id :: ids)) [] messages

namespace InboxState

def validate (state : InboxState UserMessage) (splice : InboxSplice) : Except String Unit := do
  let inbox := state.get splice.target
  require (isSafeNat splice.start && decide (splice.index ≤ inbox.length)
      && isSafeNat (splice.removedCount.getD (.int 0))
      && decide (splice.index + splice.count ≤ inbox.length))
    "invalid inbox splice"
  let candidate := toSpliced inbox splice.index splice.count splice.inserted
  let _ ← assertUnpending (state.set splice.target candidate).pending
  return ()

def apply (state : InboxState UserMessage) (splice : InboxSplice) :
    Except String (InboxState UserMessage) := do
  state.validate splice
  return state.splice splice.target splice.index splice.count splice.inserted

end InboxState

inductive InboxNotice
  | inserted (message : UserMessage)
  | discarded (message : UserMessage)
  | claimed (message : UserMessage) (turn : Nat)
  deriving DecidableEq, Repr

structure Inbox where
  log : AgentLog
  state : InboxState UserMessage
  deriving DecidableEq, Repr

/-- What one operation returns or throws, what it leaves behind, and what it published. -/
structure InboxOutcome (α : Type u) where
  result : Except String α
  inbox : Inbox
  notices : List InboxNotice

namespace InboxOutcome

variable {α : Type u} {β : Type v}

def andThen (outcome : InboxOutcome α) (next : α → Inbox → InboxOutcome β) : InboxOutcome β :=
  match outcome.result with
  | .error message => { outcome with result := .error message }
  | .ok value =>
    let later := next value outcome.inbox
    { later with notices := outcome.notices ++ later.notices }

def map (f : α → β) (outcome : InboxOutcome α) : InboxOutcome β :=
  { outcome with result := outcome.result.map f }

end InboxOutcome

namespace Inbox

def replayEvent (reached : Nat × InboxState UserMessage) (event : AgentEvent) :
    Except String (Nat × InboxState UserMessage) :=
  match event with
  | .other _ => .ok (reached.1 + 1, reached.2)
  | .spliced splice =>
    match reached.2.apply splice with
    | .error _ => .error s!"invalid persisted inbox splice at session seq {reached.1}"
    | .ok state => .ok (reached.1 + 1, state)

def create (log : AgentLog) : Except String Inbox := do
  let (_, state) ← foldOk replayEvent (log.seeded, .empty) log.owned
  return { log, state }

/-- The location of one pending identity, looked up in the next-turn list first. -/
def locate (inbox : Inbox) (messageId : MessageId) : Option (InboxTarget × Nat) :=
  let find target :=
    ((inbox.state.get target).findIdx? fun message => message.id == messageId).map (target, ·)
  (find .nextTurn).or (find .nextStep)

def normalized (target : InboxTarget) (start count : Nat) (inserted : List UserMessage)
    (discardRemoved : Bool) : InboxSplice where
  target := target
  start := .int start
  removedCount := if count = 0 then none else some (.int count)
  inserted := inserted
  canceled := discardRemoved && decide (0 < count)

def mutate (inbox : Inbox) (target : InboxTarget) (start deleteCount : JsNumber)
    (inserted : List UserMessage) (discardRemoved : Bool) (refusal : Option String) :
    InboxOutcome (List UserMessage) :=
  let items := inbox.state.get target
  let start := actualStart items.length start
  let count := actualDeleteCount (items.length - start) deleteCount
  if count = 0 ∧ inserted = [] then { result := .ok [], inbox, notices := [] }
  else
    let splice := normalized target start count inserted discardRemoved
    match inbox.state.validate splice, refusal with
    | .error message, _ => { result := .error message, inbox, notices := [] }
    | .ok (), some message => { result := .error message, inbox, notices := [] }
    | .ok (), none =>
      let removed := removedBy items start count
      { result := .ok removed
        inbox :=
          { log := inbox.log.append (.spliced splice)
            state := inbox.state.splice target start count inserted }
        notices := (if discardRemoved then removed.map .discarded else []) ++
          inserted.map .inserted }

def splice (inbox : Inbox) (target : InboxTarget) (start deleteCount : JsNumber)
    (inserted : List UserMessage) (refusal : Option String) : InboxOutcome (List UserMessage) :=
  inbox.mutate target start deleteCount inserted true refusal

def lengthOf (inbox : Inbox) (target : InboxTarget) : JsNumber :=
  .finite (inbox.state.get target).length

/-- What the session answers to the first and to the second splice an operation writes. -/
structure Refusals where
  first : Option String
  second : Option String
  deriving DecidableEq, Repr

def clear (inbox : Inbox) (refusals : Refusals) : InboxOutcome Unit :=
  (inbox.splice .nextStep (.finite 0) (inbox.lengthOf .nextStep) [] refusals.first).andThen
    fun _ inbox =>
      (inbox.splice .nextTurn (.finite 0) (inbox.lengthOf .nextTurn) [] refusals.second).map
        fun _ => ()

def claim (inbox : Inbox) (target : InboxTarget) (turn : Nat) (refusals : Refusals) :
    InboxOutcome (List UserMessage) :=
  (inbox.mutate .nextStep (.finite 0) (inbox.lengthOf .nextStep) [] false refusals.first).andThen
    fun claimed inbox =>
      let whole : InboxOutcome (List UserMessage) :=
        match target with
        | .nextStep => { result := .ok claimed, inbox, notices := [] }
        | .nextTurn =>
          (inbox.mutate .nextTurn (.finite 0) (.finite 1) [] false refusals.second).map
            fun queued => claimed ++ queued
      whole.andThen fun claimed inbox =>
        { result := .ok claimed, inbox, notices := claimed.map (.claimed · turn) }

def append (inbox : Inbox) (target : InboxTarget) (message : UserMessage)
    (refusal : Option String) : InboxOutcome Unit :=
  (inbox.splice target (inbox.lengthOf target) (.finite 0) [message] refusal).map fun _ => ()

def prepend (inbox : Inbox) (target : InboxTarget) (message : UserMessage)
    (refusal : Option String) : InboxOutcome Unit :=
  (inbox.splice target (.finite 0) (.finite 0) [message] refusal).map fun _ => ()

def replace (inbox : Inbox) (messageId : MessageId) (newMessage : UserMessage)
    (refusal : Option String) : InboxOutcome Bool :=
  match inbox.locate messageId with
  | none => { result := .ok false, inbox, notices := [] }
  | some (target, index) =>
    (inbox.splice target (.finite index) (.finite 1) [newMessage] refusal).map fun _ => true

def remove (inbox : Inbox) (messageId : MessageId) (refusal : Option String) :
    InboxOutcome Bool :=
  match inbox.locate messageId with
  | none => { result := .ok false, inbox, notices := [] }
  | some (target, index) =>
    (inbox.splice target (.finite index) (.finite 1) [] refusal).map fun _ => true

inductive Op
  | append (target : InboxTarget) (message : UserMessage)
  | prepend (target : InboxTarget) (message : UserMessage)
  | replace (messageId : MessageId) (newMessage : UserMessage)
  | remove (messageId : MessageId)
  | clear
  | claim (target : InboxTarget) (turn : Nat)
  | splice (target : InboxTarget) (start deleteCount : JsNumber) (inserted : List UserMessage)
  | record (data : EventData)
  deriving DecidableEq, Repr

inductive Value
  | done
  | found (found : Bool)
  | messages (messages : List UserMessage)
  deriving DecidableEq, Repr

structure Call where
  op : Op
  refusals : Refusals
  deriving DecidableEq, Repr

def perform (inbox : Inbox) (call : Call) : InboxOutcome Value :=
  let refusal := call.refusals.first
  match call.op with
  | .append target message => (inbox.append target message refusal).map fun _ => .done
  | .prepend target message => (inbox.prepend target message refusal).map fun _ => .done
  | .replace messageId newMessage => (inbox.replace messageId newMessage refusal).map .found
  | .remove messageId => (inbox.remove messageId refusal).map .found
  | .clear => (inbox.clear call.refusals).map fun _ => .done
  | .claim target turn => (inbox.claim target turn call.refusals).map .messages
  | .splice target start deleteCount inserted =>
    (inbox.splice target start deleteCount inserted refusal).map .messages
  | .record data =>
    { result := .ok .done, inbox := { inbox with log := inbox.log.append (.other data) }
      notices := [] }

def after (inbox : Inbox) (calls : List Call) : Inbox :=
  calls.foldl (fun inbox call => (inbox.perform call).inbox) inbox

end Inbox

end Harness
