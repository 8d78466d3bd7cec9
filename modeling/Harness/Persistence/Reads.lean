import Harness.Persistence.Migration

/-! Reads of one stored log through the coordinator: the whole prefix, and the events from a seq
on, which a backend that can seek reads without the ones before. -/

namespace Harness.Persistence

open Harness.Foundation
open Harness.Jsonl (sessionFormatVersion sessionFormatVersionRefusal displayField)

variable {μ : Type}

structure StoredEvents (μ : Type) where
  header : μ
  events : List Json
  deriving DecidableEq, Repr

structure Backend (μ : Type) where
  id : μ → String
  version : μ → JsonNumber
  locate : μ → Option String
  loadStored : String → Except String (Option (StoredEvents μ))
  loadStoredFrom : Option (String → Int → Except String (Option (StoredEvents μ)))

def knownSessionEventTypes : List String :=
  ["agent-preset/selected", "agent/inbox/spliced", "approval/asked", "approval/decided",
    "approval/policy", "assistant/chunk", "assistant/message", "browser/workspace",
    "command/done", "command/run", "compaction/end", "compaction/prune", "compaction/start",
    "compaction/summary", "feedback/record", "goal/change", "hook/invoked", "hook/result",
    "llm/retry", "llm/retry-started", "member-question/asked", "member-question/outcome",
    "member-question/received", "member-question/settled", "permission/preset", "plan/mode",
    "request/context", "request/header", "sandbox/mode", "schedule/change",
    "session/attachment-admitted", "session/end-seed", "session/title",
    "session/title-llm-request", "step/end", "step/start", "subagent/descriptor", "team/member",
    "team/message/delivered", "team/message/queued", "team/task", "todo/write",
    "tool-workflow/agent-end", "tool-workflow/agent-start", "tool-workflow/run-end",
    "tool-workflow/run-start", "tool/call", "tool/code-dispatch", "tool/code-dispatch-start",
    "tool/result", "turn/end", "turn/start", "user/message", "web/deepseek-search-llm-request"]

def isKnownOrIgnorable (event : Json) : Bool :=
  (knownSessionEventTypes.any fun type => hasType event type)
    || event.get? "ignorable" == some (.bool true)

namespace Backend

variable (backend : Backend μ)

def unsupportedFormat (header : μ) (reason : String) : String :=
  match backend.locate header with
  | some path => s!"{reason} (raw log: {path})"
  | none => reason

def assertStoredId (id : String) (header : μ) : Except String Unit :=
  require (backend.id header = id)
    s!"stored session identity mismatch: requested \"{id}\", header contains \"{backend.id header}\""

def assertVersion (header : μ) : Except String Unit :=
  require (backend.version header = sessionFormatVersion)
    (backend.unsupportedFormat header
      (sessionFormatVersionRefusal (backend.id header) (backend.version header)))

def unknownType (header : μ) (event : Json) : String :=
  let type := displayField event "type"
  backend.unsupportedFormat header s!"session \"{backend.id header}\" contains event type \"{type}\" (seq {seqText event}) unknown to this harness and not marked ignorable; refusing to interpret the log — it was likely written by a newer harness"

def assertEventsSupported (header : μ) : List Json → Except String Unit
  | [] => .ok ()
  | event :: events => do
    require (isKnownOrIgnorable event) (backend.unknownType header event)
    assertEventsSupported header events

def notFound (id : String) : String := s!"session \"{id}\" not found"

/-- A stored header and its events, once both are checked and the events upgraded. -/
def interpret (id : String) (stored : StoredEvents μ) : Except String (StoredEvents μ) := do
  let events ← snapshotStoredEvents stored.events id
  backend.assertEventsSupported stored.header events
  return { header := stored.header, events }

def readStoredPrefix (id : String) : Except String (StoredEvents μ) := do
  let stored ← backend.loadStored id
  let stored ← expect stored (notFound id)
  backend.assertStoredId id stored.header
  backend.assertVersion stored.header
  backend.interpret id stored

def isFrom (fromSeq : Int) (event : Json) : Bool :=
  ((event.get? "seq").bind Json.int?).any fun seq => decide (fromSeq ≤ seq)

def readFromCore (id : String) (fromSeq : Int) : Except String (StoredEvents μ) :=
  match backend.loadStoredFrom with
  | some loadStoredFrom => do
    let suffix ← loadStoredFrom id fromSeq
    let suffix ← expect suffix (notFound id)
    backend.assertStoredId id suffix.header
    backend.assertVersion suffix.header
    if suffix.events.any needsLegacyPrefix then do
      let whole ← backend.readStoredPrefix id
      return { header := whole.header, events := whole.events.filter (isFrom fromSeq) }
    else backend.interpret id suffix
  | none => do
    let whole ← backend.readStoredPrefix id
    return { header := whole.header, events := whole.events.drop fromSeq.toNat }

def readFrom (id : String) (fromSeq : Int) : Except String (StoredEvents μ) := do
  require (isSafe fromSeq && decide (0 ≤ fromSeq))
    s!"readFrom fromSeq must be a non-negative safe integer, got {fromSeq}"
  backend.readFromCore id fromSeq

end Backend

end Harness.Persistence
