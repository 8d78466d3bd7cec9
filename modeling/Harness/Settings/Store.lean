import Harness.Foundation.Changes
import Harness.Foundation.Machine
import Harness.Foundation.OrderedMap
import Harness.Settings.Layers

namespace Harness.Settings

open Harness.Foundation

abbrev Raw := Option Value

def Raw.json? (raw : Raw) : Option Json := raw.map (·.1)

def sameRaw : Raw → Raw → Bool
  | none, none => true
  | some a, some b => a.1.deepEqual b.1
  | _, _ => false

abbrev Document := OrderedMap String Value

def readSection (ns : String) (raw : Raw) : Except String (Option Section) :=
  match raw with
  | none =>
    if ns = "constructor" then .error s!"settings section \"{ns}\" must be an object of keys"
    else .ok none
  | some value => do
    let contents ← expect (Value.section? value) s!"settings section \"{ns}\" must be an object of keys"
    return some contents

structure RegisterOptions where
  schema : Option Json → Except String Json
  base : Option Json
  validate : Json → Except String Unit

def resolve (options : RegisterOptions) (contents : Option Section) : Except String Json := do
  let value ← options.schema (mergeLayers options.base (contents.map (·.value.1)))
  options.validate value
  return value

def resolveRaw (ns : String) (options : RegisterOptions) (raw : Raw) : Except String Json := do
  let contents ← readSection ns raw
  resolve options contents

structure SettingsWatcher where
  active : Bool
  since : Nat
  queue : List (Json × Json)
  running : Bool
  seen : List (Json × Json)

structure SettingsRegistration where
  ns : String
  options : RegisterOptions
  resolved : Json
  revision : Nat
  watchers : List SettingsWatcher
  commits : List (Json × Json)
  /-- What the document has held at the namespace, since the registration. -/
  history : List Raw

inductive WriteMode
  | merge | replace | mutate
  deriving DecidableEq, Repr

def WriteMode.verb : WriteMode → String
  | merge => "update"
  | replace => "replace"
  | mutate => "mutate"

inductive PathOpInput
  | set (path : List String) (value : JsValue) (given : value.isUndefined = false)
  | unset (path : List String)

inductive WriteInput
  | merge (patch : JsValue)
  | replace (contents : JsValue)
  | mutate (ops : List PathOpInput)

def WriteInput.mode : WriteInput → WriteMode
  | merge _ => .merge
  | replace _ => .replace
  | mutate _ => .mutate

inductive Snapshot
  | merge (patch : Section)
  | replace (contents : Section)
  | mutate (ops : List SettingsPathOp)

def Snapshot.mode : Snapshot → WriteMode
  | merge _ => .merge
  | replace _ => .replace
  | mutate _ => .mutate

def cloneOps (index : Nat) : List PathOpInput → Except Rejection (List SettingsPathOp)
  | [] => .ok []
  | .set path value _ :: ops => do
    let cloned ← cloneChecked s!"$.ops[{index}].value" value
    let rest ← cloneOps (index + 1) ops
    return .set path cloned :: rest
  | .unset path :: ops => do
    let rest ← cloneOps (index + 1) ops
    return .unset path :: rest

def nonJson (ns : String) (mode : WriteMode) : Rejection → String
  | (label, path) =>
    s!"settings {mode.verb} for \"{ns}\" must contain only JSON-compatible data (found {label} at {path})"

def WriteInput.plain (ns : String) (mode : WriteMode) : JsValue → Except String Section
  | .object fields => (cloneJsonShaped "$" fields).mapError (nonJson ns mode)
  | _ => .error s!"settings {mode.verb} for \"{ns}\" must be a plain object"

def WriteInput.snapshot (ns : String) : WriteInput → Except String Snapshot
  | merge patch => return .merge (← plain ns .merge patch)
  | replace contents => return .replace (← plain ns .replace contents)
  | mutate ops => return .mutate (← (cloneOps 0 ops).mapError (nonJson ns .mutate))

def Snapshot.applyTo (current : Section) : Snapshot → Except String Section
  | merge patch => .ok (current.merge patch)
  | replace contents => .ok contents
  | mutate ops => ops.foldlM applyPathOp current

structure Write where
  registration : Nat
  snapshot : Snapshot
  expectedRevision : Option Int

structure InFlight where
  write : Write
  /-- The raw section it was computed from, and the length of the registration's history then. -/
  stored : Raw
  position : Nat
  current : Section
  contents : Section
  next : Json

structure Applied where
  ns : String
  registration : Nat
  expectedRevision : Option Int
  computedFrom : Raw
  position : Nat
  replaced : Raw
  contents : Section

structure SettingsProvider where
  writable : Bool
  document : Document
  registrations : List SettingsRegistration
  /-- `registrations`, by namespace. -/
  owners : OrderedMap String Nat
  writeQueues : String → List Write
  inFlight : OrderedMap String InFlight
  stopped : Bool
  applied : List Applied
  settled : List (Write × Except String Unit)

namespace SettingsRegistration

def resolves (registration : SettingsRegistration) (raw : Raw) : Except String Json :=
  resolveRaw registration.ns registration.options raw

def lastGood (registration : SettingsRegistration) : Option Json :=
  registration.history.reverse.findSome? fun raw => (registration.resolves raw).toOption

def bumpRevision (registration : SettingsRegistration) (before after : Raw) : SettingsRegistration :=
  if sameRaw before after = true then registration
  else { registration with revision := registration.revision + 1 }

def commit (registration : SettingsRegistration) (next : Json) : SettingsRegistration :=
  if next.deepEqual registration.resolved = true then registration
  else
    let change := (next, registration.resolved)
    { registration with
      resolved := next
      commits := registration.commits ++ [change]
      watchers := registration.watchers.map fun watcher =>
        if watcher.active = true then { watcher with queue := watcher.queue ++ [change] } else watcher }

def observe (registration : SettingsRegistration) (raw : Raw) : SettingsRegistration :=
  { registration with history := registration.history ++ [raw] }

def readable (registration : SettingsRegistration) (raw : Raw) : Raw :=
  match readSection registration.ns raw with
  | .ok contents => contents.map (·.value)
  | .error _ => none

def republish (registration : SettingsRegistration) (before after : Raw) : SettingsRegistration :=
  match registration.resolves after with
  | .ok next => ((registration.bumpRevision (registration.readable before) after).commit next).observe after
  | .error _ => registration.observe after

def store (registration : SettingsRegistration) (flight : InFlight) : SettingsRegistration :=
  ((registration.bumpRevision (some flight.current.value) (some flight.contents.value)).commit
    flight.next).observe (some flight.contents.value)

def watch (registration : SettingsRegistration) : SettingsRegistration :=
  { registration with
    watchers := registration.watchers ++ [⟨true, registration.commits.length, [], false, []⟩] }

def modifyWatcher (registration : SettingsRegistration) (watcher : Nat)
    (f : SettingsWatcher → SettingsWatcher) : SettingsRegistration :=
  { registration with watchers := registration.watchers.modify watcher f }

end SettingsRegistration

namespace SettingsWatcher

def invoke (stopped : Bool) (watcher : SettingsWatcher) : SettingsWatcher :=
  match watcher.running, watcher.queue with
  | false, change :: rest =>
    if watcher.active = true ∧ stopped = false then
      { watcher with queue := rest, running := true, seen := watcher.seen ++ [change] }
    else { watcher with queue := rest }
  | _, _ => watcher

end SettingsWatcher

namespace SettingsProvider

def fresh (writable : Bool) : SettingsProvider :=
  ⟨writable, .empty, [], .empty, fun _ => [], .empty, false, [], []⟩

def register (state : SettingsProvider) (ns : String) (options : RegisterOptions) :
    Except String SettingsProvider := do
  require (!state.owners.has ns) s!"settings namespace \"{ns}\" is already registered"
  let resolved ← resolveRaw ns options (state.document.get? ns)
  return { state with
    registrations := state.registrations ++
      [⟨ns, options, resolved, 0, [], [], [state.document.get? ns]⟩]
    owners := state.owners.set ns state.registrations.length }

def write (state : SettingsProvider) (ns : String) (input : WriteInput) (expectedRevision : Option Int) :
    Except String SettingsProvider := do
  let registration ← expect (state.owners.get? ns) s!"settings namespace \"{ns}\" is not registered"
  require (!state.stopped) s!"settings service is disposed: \"{ns}\" cannot be written"
  require state.writable s!"settings provider is read-only: \"{ns}\" cannot be updated in-process"
  let snapshot ← input.snapshot ns
  let queue := state.writeQueues ns ++ [⟨registration, snapshot, expectedRevision⟩]
  return { state with writeQueues := fun other => if other = ns then queue else state.writeQueues other }

def prepare (state : SettingsProvider) (ns : String) (write : Write) : Except String InFlight := do
  let verb := write.snapshot.mode.verb
  require (!state.stopped) s!"settings service was disposed before the queued \"{ns}\" {verb} ran"
  require (decide (state.owners.get? ns = some write.registration))
    s!"settings namespace \"{ns}\" registration was disposed before the queued {verb} ran"
  let registration ← expect state.registrations[write.registration]? "unreachable"
  let stored := state.document.get? ns
  let found ← readSection ns stored
  let current := found.getD .empty
  require (write.expectedRevision.all fun expected => expected == (registration.revision : Int))
    s!"settings namespace \"{ns}\" changed since it was read (expected revision {write.expectedRevision}, now {registration.revision})"
  let contents ← write.snapshot.applyTo current
  let next ← resolve registration.options (some contents)
  return ⟨write, stored, registration.history.length, current, contents, next⟩

def begin (state : SettingsProvider) (ns : String) : Option SettingsProvider :=
  match state.writeQueues ns, state.inFlight.get? ns with
  | write :: rest, none =>
    let popped := { state with
      writeQueues := fun other => if other = ns then rest else state.writeQueues other }
    match state.prepare ns write with
    | .ok flight => some { popped with inFlight := state.inFlight.set ns flight }
    | .error message => some { popped with settled := state.settled ++ [(write, .error message)] }
  | _, _ => none

def store (state : SettingsProvider) (ns : String) (flight : InFlight) : SettingsProvider :=
  let owner := state.owners.get? ns
  let registrations :=
    if owner = some flight.write.registration ∧ state.stopped = false then
      state.registrations.modify flight.write.registration (·.store flight)
    else
      match owner with
      | some other => state.registrations.modify other (·.observe (some flight.contents.value))
      | none => state.registrations
  { state with
    document := state.document.set ns flight.contents.value
    registrations := registrations
    inFlight := state.inFlight.delete ns
    applied := state.applied ++ [⟨ns, flight.write.registration, flight.write.expectedRevision,
      flight.stored, flight.position, state.document.get? ns, flight.contents⟩]
    settled := state.settled ++ [(flight.write, .ok ())] }

def publish (state : SettingsProvider) (doc : Document) : SettingsProvider :=
  { state with
    document := doc
    registrations := state.registrations.mapIdx fun id registration =>
      if state.owners.get? registration.ns = some id then
        registration.republish (state.document.get? registration.ns) (doc.get? registration.ns)
      else registration }

end SettingsProvider

inductive SettingsOp
  | register (ns : String) (options : RegisterOptions)
  | dispose (ns : String)
  | watch (registration : Nat)
  | unwatch (registration watcher : Nat)
  | invoke (registration watcher : Nat)
  | returned (registration watcher : Nat)
  | write (ns : String) (input : WriteInput) (expectedRevision : Option Int)
  | begin (ns : String)
  | persisted (ns : String)
  | failed (ns : String) (message : String)
  | publish (doc : Document)
  | stop

open SettingsProvider in
def SettingsProvider.step (state : SettingsProvider) : SettingsOp → Option SettingsProvider
  | .register ns options =>
    match state.register ns options with
    | .ok registered => some registered
    | .error _ => some state
  | .dispose ns =>
    if state.owners.has ns = true then some { state with owners := state.owners.delete ns } else none
  | .watch registration =>
    some { state with registrations := state.registrations.modify registration (·.watch) }
  | .unwatch registration watcher =>
    some { state with
      registrations := state.registrations.modify registration
        (·.modifyWatcher watcher fun watcher => { watcher with active := false }) }
  | .invoke registration watcher =>
    some { state with
      registrations := state.registrations.modify registration
        (·.modifyWatcher watcher (·.invoke state.stopped)) }
  | .returned registration watcher =>
    some { state with
      registrations := state.registrations.modify registration
        (·.modifyWatcher watcher fun watcher => { watcher with running := false }) }
  | .write ns input expectedRevision =>
    match state.write ns input expectedRevision with
    | .ok queued => some queued
    | .error _ => some state
  | .begin ns => state.begin ns
  | .persisted ns => (state.inFlight.get? ns).map fun flight => state.store ns flight
  | .failed ns message =>
    (state.inFlight.get? ns).map fun flight =>
      { state with
        inFlight := state.inFlight.delete ns
        settled := state.settled ++ [(flight.write, .error message)] }
  | .publish doc => some (state.publish doc)
  | .stop => some { state with stopped := true }

end Harness.Settings
