import Mathlib.Logic.Function.Basic
import Harness.Foundation.OrderedMap

/-! The pool of prepared sessions a coordinator shares between its callers, and the callers and
per-session operation chains that drive it.  Entries, promises and reservations are handles; every
`await` of the source is a state of the caller, so a run may place any other step there. -/

namespace Harness.Persistence

open Harness.Foundation (OrderedMap)

inductive PreparationPhase
  | loading | ready | committing | reserved
  deriving DecidableEq, Repr

def PreparationPhase.held : PreparationPhase → Bool
  | .committing | .reserved => true
  | .loading | .ready => false

/-- `result` is what the load settled to; `reservationSettled` is the promise the holder settles. -/
structure PreparationEntry (Source : Type) where
  id : String
  result : Option (Except String Source)
  phase : PreparationPhase
  source : Option Source
  reservation : Option Nat
  reservationSettled : Option Nat

def PreparationEntry.fresh {Source : Type} (id : String) : PreparationEntry Source where
  id := id
  result := none
  phase := .loading
  source := none
  reservation := none
  reservationSettled := none

structure SessionPreparationReservation (Source CommitState : Type) where
  entry : Nat
  source : Source
  state : CommitState

structure SessionPreparations (Source CommitState : Type) where
  capacity : Nat
  entries : OrderedMap String Nat
  heap : Nat → PreparationEntry Source
  nextEntry : Nat
  settled : Nat → Bool
  nextPromise : Nat
  reservations : List (SessionPreparationReservation Source CommitState)

namespace SessionPreparations

variable {Source CommitState : Type}

def withCapacity (capacity : Nat) : SessionPreparations Source CommitState where
  capacity := capacity
  entries := .empty
  heap := fun _ => .fresh ""
  nextEntry := 0
  settled := fun _ => false
  nextPromise := 0
  reservations := []

abbrev at? (p : SessionPreparations Source CommitState) (id : String) : Option Nat :=
  p.entries.get? id

abbrev InTable (p : SessionPreparations Source CommitState) (h : Nat) : Prop :=
  p.at? (p.heap h).id = some h

def write (p : SessionPreparations Source CommitState) (h : Nat)
    (entry : PreparationEntry Source) : SessionPreparations Source CommitState :=
  { p with heap := Function.update p.heap h entry }

def settle (p : SessionPreparations Source CommitState) (h : Nat) :
    SessionPreparations Source CommitState :=
  { p with
    settled := fun w => p.settled w || decide ((p.heap h).reservationSettled = some w)
    heap := Function.update p.heap h { p.heap h with reservationSettled := none } }

def drop (p : SessionPreparations Source CommitState) (id : String) :
    SessionPreparations Source CommitState :=
  { p with entries := p.entries.delete id }

def remove (p : SessionPreparations Source CommitState) (h : Nat) :
    SessionPreparations Source CommitState :=
  if p.InTable h then (p.drop (p.heap h).id).settle h else p

def isReady (p : SessionPreparations Source CommitState) (candidate : String × Nat) : Bool :=
  (p.heap candidate.2).phase = .ready

def readyCount (p : SessionPreparations Source CommitState) : Nat :=
  p.entries.entries.countP p.isReady

def evict (p : SessionPreparations Source CommitState) : SessionPreparations Source CommitState :=
  match p.entries.entries.find? p.isReady with
  | some (id, _) => p.drop id
  | none => p

def moveToEnd (p : SessionPreparations Source CommitState) (h : Nat) :
    SessionPreparations Source CommitState :=
  { p with entries := (p.entries.delete (p.heap h).id).set (p.heap h).id h }

/-- An entry used again is the most recent; beyond the capacity the oldest ready one goes. -/
def touch (p : SessionPreparations Source CommitState) (h : Nat) :
    SessionPreparations Source CommitState :=
  if (p.moveToEnd h).readyCount ≤ p.capacity then p.moveToEnd h else (p.moveToEnd h).evict

def makeReady (p : SessionPreparations Source CommitState) (h : Nat) :
    SessionPreparations Source CommitState :=
  if p.InTable h then ((p.write h { p.heap h with phase := .ready }).settle h).touch h else p

def create (p : SessionPreparations Source CommitState) (id : String) :
    SessionPreparations Source CommitState :=
  { p with
    entries := p.entries.set id p.nextEntry
    heap := Function.update p.heap p.nextEntry (.fresh id)
    nextEntry := p.nextEntry + 1 }

def settleResult (p : SessionPreparations Source CommitState) (h : Nat)
    (result : Except String Source) : SessionPreparations Source CommitState :=
  p.write h { p.heap h with result := some result }

/-- What follows a load: publish its source before the deferred result settles. -/
def loadSettled (p : SessionPreparations Source CommitState) (h : Nat) :
    Except String Source → SessionPreparations Source CommitState
  | .ok source =>
    let p := if p.InTable h
      then (p.write h { p.heap h with source := some source }).makeReady h else p
    p.settleResult h (.ok source)
  | .error error => (p.remove h).settleResult h (.error error)

def observe (p : SessionPreparations Source CommitState) (h : Nat) :
    SessionPreparations Source CommitState :=
  if p.InTable h ∧ (p.heap h).phase = .ready then p.touch h else p

def beginCommit (p : SessionPreparations Source CommitState) (h : Nat) :
    SessionPreparations Source CommitState :=
  { p.write h { p.heap h with phase := .committing, reservationSettled := some p.nextPromise } with
    nextPromise := p.nextPromise + 1 }

def setSource (p : SessionPreparations Source CommitState) (h : Nat) (source : Source) :
    SessionPreparations Source CommitState :=
  p.write h { p.heap h with source := some source }

def grant (p : SessionPreparations Source CommitState) (h : Nat) (source : Source)
    (state : CommitState) : SessionPreparations Source CommitState :=
  { p.write h { p.heap h with phase := .reserved, reservation := some p.reservations.length } with
    reservations := p.reservations ++ [⟨h, source, state⟩] }

variable {Session : Type} [DecidableEq Session]

def reservationFor (p : SessionPreparations Source CommitState) (sessionOf : Source → Session)
    (id : String) (session : Session) : Except String (Option Nat) :=
  match p.at? id with
  | none => .ok none
  | some h =>
    let entry := p.heap h
    match entry.reservation with
    | some r =>
      if entry.phase = .reserved ∧ entry.source.map sessionOf = some session then .ok (some r)
      else .error s!"cannot publish session \"{id}\": persisted state already owns this identity"
    | none => .error s!"cannot publish session \"{id}\": persisted state already owns this identity"

def attach (p : SessionPreparations Source CommitState) (r h : Nat) :
    Except String (SessionPreparations Source CommitState) :=
  if p.InTable h ∧ (p.heap h).reservation = some r then .ok (p.remove h)
  else .error s!"session \"{(p.heap h).id}\" preparation is no longer reserved"

def discard (p : SessionPreparations Source CommitState) (r h : Nat) :
    SessionPreparations Source CommitState :=
  if p.InTable h ∧ (p.heap h).reservation = some r then p.remove h else p

def release (p : SessionPreparations Source CommitState) (r h : Nat) (reusable : Bool) :
    SessionPreparations Source CommitState :=
  if p.InTable h ∧ (p.heap h).reservation = some r ∧ (p.heap h).phase = .reserved then
    if reusable then (p.write h { p.heap h with reservation := none }).makeReady h else p.remove h
  else p

def invalidate (p : SessionPreparations Source CommitState) (id : String) :
    SessionPreparations Source CommitState :=
  match p.at? id with
  | some h => p.remove h
  | none => p

inductive Discarded
  | discarded | retained | missing
  deriving DecidableEq, Repr

def discardReady [DecidableEq Source] (p : SessionPreparations Source CommitState) (id : String)
    (expected : Source) : SessionPreparations Source CommitState × Discarded :=
  match p.at? id with
  | none => (p, .missing)
  | some h =>
    if (p.heap h).source ≠ some expected then (p, .missing)
    else if (p.heap h).phase ≠ .ready then (p, .retained)
    else (p.remove h, .discarded)

def assertWritable (p : SessionPreparations Source CommitState) (id : String) :
    Except String Unit :=
  match p.at? id with
  | some h =>
    if (p.heap h).phase.held then
      .error s!"cannot append session \"{id}\" while its persisted preparation is reserved"
    else .ok ()
  | none => .ok ()

def takeReady (p : SessionPreparations Source CommitState) (id : String) :
    SessionPreparations Source CommitState × Option Source :=
  match p.at? id with
  | none => (p, none)
  | some h =>
    if (p.heap h).phase = .ready ∧ (p.heap h).source.isSome then (p.remove h, (p.heap h).source)
    else (p, none)

end SessionPreparations

/-- One serialized operation of a session.  Only a commit keeps whether it started, for its
caller's signal, and an append whether it passed the guard. -/
inductive ChainOp
  | load (entry : Nat)
  | commit (call : Nat) (started : Bool)
  | append (writing : Bool)
  | other
  deriving DecidableEq, Repr

inductive PreparationCall (Source CommitState : Type)
  | idle
  | inspecting (entry : Nat)
  | inspected (source : Source)
  | reserving (entry : Nat)
  | waiting (entry promise : Nat)
  | committing (entry : Nat)
  | committed (entry : Nat) (outcome : Except String (Option (Source × CommitState)))
  | returned (reservation : Option Nat)
  | rejected (error : String)

structure PreparationState (Source CommitState : Type) where
  pool : SessionPreparations Source CommitState
  chains : String → List ChainOp
  calls : Nat → PreparationCall Source CommitState
  nextCall : Nat
  arrived : Nat → Option (Except String Source)

inductive PreparationStep (Source CommitState : Type)
  | inspect (id : String) (failure : Option String)
  | reserve (id : String) (failure : Option String)
  | loaded (id : String) (outcome : Except String Source)
  | loadSettled (entry : Nat)
  | resume (call : Nat)
  | abort (call : Nat) (error : String)
  | startCommit (id : String)
  | finishCommit (id : String) (outcome : Except String (Option (Source × CommitState)))
  | continueCommit (call : Nat) (aborted : Option String)
  | attach (reservation : Nat)
  | discard (reservation : Nat)
  | release (reservation : Nat) (reusable : Bool)
  | invalidate (id : String)
  | discardReady (id : String) (expected : Source)
  | takeReady (id : String)
  | append (id : String)
  | assertWritable (id : String)
  | finishAppend (id : String) (written : Bool)
  | other (id : String)
  | finishOther (id : String)

namespace PreparationState

variable {Source CommitState : Type}

def start (capacity : Nat) : PreparationState Source CommitState where
  pool := .withCapacity capacity
  chains := fun _ => []
  calls := fun _ => .idle
  nextCall := 0
  arrived := fun _ => none

def setPool (s : PreparationState Source CommitState)
    (pool : SessionPreparations Source CommitState) : PreparationState Source CommitState :=
  { s with pool }

def setChain (s : PreparationState Source CommitState) (id : String) (chain : List ChainOp) :
    PreparationState Source CommitState :=
  { s with chains := Function.update s.chains id chain }

def setCall (s : PreparationState Source CommitState) (call : Nat)
    (at_ : PreparationCall Source CommitState) : PreparationState Source CommitState :=
  { s with calls := Function.update s.calls call at_ }

def serialize (s : PreparationState Source CommitState) (id : String) (op : ChainOp) :
    PreparationState Source CommitState :=
  s.setChain id (s.chains id ++ [op])

/-- `entryFor`: share the entry of the id, or create one and start its load, which may throw. -/
def entryFor (s : PreparationState Source CommitState) (id : String) (failure : Option String) :
    PreparationState Source CommitState :=
  match s.pool.at? id, failure with
  | some _, _ => s
  | none, none => (s.setPool (s.pool.create id)).serialize id (.load s.pool.nextEntry)
  | none, some error =>
    s.setPool (((s.pool.create id).remove s.pool.nextEntry).settleResult s.pool.nextEntry
      (.error error))

def entryOf (s : PreparationState Source CommitState) (id : String) : Nat :=
  (s.pool.at? id).getD s.pool.nextEntry

def newCall (s : PreparationState Source CommitState)
    (at_ : PreparationCall Source CommitState) : PreparationState Source CommitState :=
  { s.setCall s.nextCall at_ with nextCall := s.nextCall + 1 }

/-- The loop of `reserve` up to its next `await`: wait for the holder, or hold and commit. -/
def contend (s : PreparationState Source CommitState) (call h : Nat) :
    PreparationState Source CommitState :=
  let entry := s.pool.heap h
  if s.pool.InTable h then
    if entry.phase = .ready then
      ((s.setPool (s.pool.beginCommit h)).serialize entry.id (.commit call false)).setCall call
        (.committing h)
    else
      match entry.reservationSettled with
      | some w => s.setCall call (.waiting h w)
      | none => s.setCall call
          (.rejected s!"session \"{entry.id}\" preparation lost its reservation waiter")
  else s.setCall call (.returned none)

def resume (s : PreparationState Source CommitState) (call : Nat) :
    Option (PreparationState Source CommitState) :=
  match s.calls call with
  | .inspecting h =>
    match (s.pool.heap h).result with
    | some (.ok loaded) =>
      let source := (s.pool.heap h).source.getD loaded
      some ((s.setPool (s.pool.observe h)).setCall call (.inspected source))
    | some (.error error) => some (s.setCall call (.rejected error))
    | none => none
  | .reserving h =>
    match (s.pool.heap h).result with
    | some (.ok _) => some (s.contend call h)
    | some (.error error) => some (s.setCall call (.rejected error))
    | none => none
  | .waiting h w => if s.pool.settled w then some (s.contend call h) else none
  | _ => none

/-- A signal aborts a queued observation at once, and a commit that has not started. -/
def abort (s : PreparationState Source CommitState) (call : Nat) (error : String) :
    Option (PreparationState Source CommitState) :=
  match s.calls call with
  | .inspecting _ | .reserving _ | .waiting _ _ => some (s.setCall call (.rejected error))
  | .committing h =>
    let id := (s.pool.heap h).id
    if .commit call false ∈ s.chains id then
      let chain := (s.chains id).map fun op => if op = .commit call false then .other else op
      some (((s.setChain id chain).setPool (s.pool.remove h)).setCall call (.rejected error))
    else none
  | _ => none

def continueCommit (s : PreparationState Source CommitState) (call : Nat)
    (aborted : Option String) : Option (PreparationState Source CommitState) :=
  match s.calls call with
  | .committed h (.error error) => some ((s.setPool (s.pool.remove h)).setCall call (.rejected error))
  | .committed h (.ok none) => some ((s.setPool (s.pool.remove h)).setCall call (.returned none))
  | .committed h (.ok (some (source, state))) =>
    let pool := s.pool.setSource h source
    match aborted with
    | some error => some ((s.setPool (pool.makeReady h)).setCall call (.rejected error))
    | none =>
      if pool.InTable h then
        some ((s.setPool (pool.grant h source state)).setCall call
          (.returned (some s.pool.reservations.length)))
      else some ((s.setPool pool).setCall call (.returned none))
  | _ => none

/-- One step of the callers, of the operation at the head of a chain, or of a settled load. -/
def step [DecidableEq Source] (s : PreparationState Source CommitState) :
    PreparationStep Source CommitState → Option (PreparationState Source CommitState)
  | .inspect id failure => some ((s.entryFor id failure).newCall (.inspecting (s.entryOf id)))
  | .reserve id failure => some ((s.entryFor id failure).newCall (.reserving (s.entryOf id)))
  | .loaded id outcome =>
    match s.chains id with
    | .load h :: rest =>
      some { s.setChain id rest with arrived := Function.update s.arrived h (some outcome) }
    | _ => none
  | .loadSettled h => (s.arrived h).map fun outcome =>
      { s.setPool (s.pool.loadSettled h outcome) with arrived := Function.update s.arrived h none }
  | .resume call => s.resume call
  | .abort call error => s.abort call error
  | .startCommit id =>
    match s.chains id with
    | .commit call false :: rest => some (s.setChain id (.commit call true :: rest))
    | _ => none
  | .finishCommit id outcome =>
    match s.chains id with
    | .commit call true :: rest =>
      match s.calls call with
      | .committing h => some ((s.setChain id rest).setCall call (.committed h outcome))
      | _ => none
    | _ => none
  | .continueCommit call aborted => s.continueCommit call aborted
  | .attach r => (s.pool.reservations[r]?).map fun reservation =>
      match s.pool.attach r reservation.entry with
      | .ok pool => s.setPool pool
      | .error _ => s
  | .discard r => (s.pool.reservations[r]?).map fun reservation =>
      s.setPool (s.pool.discard r reservation.entry)
  | .release r reusable => (s.pool.reservations[r]?).map fun reservation =>
      s.setPool (s.pool.release r reservation.entry reusable)
  | .invalidate id => some (s.setPool (s.pool.invalidate id))
  | .discardReady id expected => some (s.setPool (s.pool.discardReady id expected).1)
  | .takeReady id => some (s.setPool (s.pool.takeReady id).1)
  | .append id => some (s.serialize id (.append false))
  | .assertWritable id =>
    match s.chains id with
    | .append false :: rest =>
      match s.pool.assertWritable id with
      | .ok _ => some (s.setChain id (.append true :: rest))
      | .error _ => some (s.setChain id rest)
    | _ => none
  | .finishAppend id written =>
    match s.chains id with
    | .append writing :: rest =>
      if written then
        if writing then some ((s.setChain id rest).setPool (s.pool.invalidate id)) else none
      else some (s.setChain id rest)
    | _ => none
  | .other id => some (s.serialize id .other)
  | .finishOther id =>
    match s.chains id with
    | .other :: rest => some (s.setChain id rest)
    | _ => none

end PreparationState

end Harness.Persistence
