import Harness.Foundation.JsonRecord
import Harness.Foundation.OrderedMap
import Harness.Jsonl.Format

/-! Stored events of older logs, upgraded while a log is read: the trigger of a turn start, the
reasons of a turn end, steering events and messages from before they had identities. -/

namespace Harness.Persistence

open Harness.Foundation
open Harness.Jsonl (displayField property)

def hasType (event : Json) (type : String) : Bool := event.get? "type" == some (.str type)

def seqText (event : Json) : String := displayField event "seq"

def unsupported (id what : String) (event : Json) : String :=
  s!"session \"{id}\" contains unsupported legacy {what} at seq {seqText event}"

def refuseType (events : List Json) (id type : String) : Except String Unit :=
  match events.find? fun event => hasType event type with
  | some event => .error (unsupported id s!"{type} event" event)
  | none => .ok ()

def isFallback (event : Json) : Except String Bool :=
  if !hasType event "request/header" then .ok false
  else do
    let data ← expect (event.get? "data") "Cannot read properties of undefined (reading 'reason')"
    let reason ← property data "reason"
    return reason == some (.str "fallback")

def refuseFallback (id : String) : List Json → Except String Unit
  | [] => .ok ()
  | event :: events => do
    let fallback ← isFallback event
    require (!fallback) (unsupported id "request/header reason \"fallback\"" event)
    refuseFallback id events

def assertSupportedEvents (events : List Json) (id : String) : Except String Unit := do
  refuseType events id "request/header-delta"
  refuseType events id "mode/set"
  refuseFallback id events

def malformedLegacy (event : Json) (id type : String) : String :=
  s!"session \"{id}\" contains malformed pre-react-loop {type} at seq {seqText event}"

def asRecord (value : Option Json) : Option (List (String × Json)) := value.bind Json.fields?

def dataRecord (event : Json) : Option (List (String × Json)) := asRecord (event.get? "data")

def isSafeIntegerField (record : List (String × Json)) (key : String) : Bool :=
  (record.lookup key).any Json.isSafeInteger

def isAtLeast (record : List (String × Json)) (key : String) (least : Int) : Bool :=
  ((record.lookup key).bind Json.int?).any fun n => isSafe n && decide (least ≤ n)

def withData (event data : Json) : Json := event.spread [("data", data)]

def legacyMessageId (id : String) (event : Json) : String := s!"legacy-message:{id}:{seqText event}"

def replacementStart (event : Json) : Option Json :=
  (asRecord (event.get? "surfaceOp")).bind fun op =>
    if op.lookup "op" == some (.str "replace") then (op.lookup "start").filter Json.isNumber
    else none

/-- Whether one suffix event needs facts only the stored events before it have. -/
def needsLegacyPrefix (event : Json) : Bool :=
  if hasType event "steering/message" then true
  else
    match dataRecord event with
    | none => false
    | some data =>
      if hasType event "user/message" then
        !Json.hasOwn data "id" && Json.hasOwn data "content"
      else if hasType event "assistant/message" then
        !Json.hasOwn data "message" && Json.hasOwn data "content"
      else if hasType event "tool/result" then
        !Json.hasOwn data "message" && Json.hasOwn data "callId"
      else false

def migrateLegacySteeringEvent (event : Json) (id : String) : Except String Json :=
  if !hasType event "steering/message" then .ok event
  else do
    let malformed := malformedLegacy event id "steering/message"
    let data ← expect (dataRecord event) malformed
    match asRecord (data.lookup "message"), isSafeIntegerField data "turn"
        && Json.hasOnlyKeys data ["turn", "message"] [] with
    | some wrapped, true =>
      return event.spread [("type", .str "user/message"), ("data", .obj wrapped)]
    | _, _ => do
      require (isSafeIntegerField data "turn"
        && Json.hasOnlyKeys data ["turn", "content", "source"] []) malformed
      return event.spread [("type", .str "user/message"),
        ("data", (Json.obj (Json.without data ["turn"])).spread
          [("id", .str (legacyMessageId id event)), ("role", .str "user")])]

def namesKind (trigger : List (String × Json)) : Bool :=
  match trigger.lookup "kind" with
  | some (.str kind) => kind != ""
  | _ => false

def migrateLegacyTurnStartEvent (event : Json) (id : String) : Except String Json :=
  if !hasType event "turn/start" then .ok event
  else
    match dataRecord event with
    | none => .ok event
    | some data =>
      if !Json.hasOwn data "trigger" then .ok event
      else do
        require (isAtLeast data "turn" 1 && Json.hasOnlyKeys data ["turn", "trigger"] []
            && (asRecord (data.lookup "trigger")).any namesKind)
          (malformedLegacy event id "turn/start")
        return withData event (.obj (Json.optionalField "turn" (data.lookup "turn")))

def abortedReason (kind : String) : Json :=
  .obj [("kind", .str "aborted"), ("reason", .obj [("kind", .str kind)])]

def errorReason (error : Json) : Json := .obj [("kind", .str "error"), ("error", error)]

def isLegacyFailure (reason failure : List (String × Json)) : Bool :=
  Json.hasOnlyKeys reason ["kind", "step", "failure"] []
    && Json.hasOnlyKeys failure ["message", "code"] ["status", "providerRetryAfterMs", "requestId"]
    && (failure.lookup "message").any Json.isString && (failure.lookup "code").any Json.isString
    && (failure.lookup "status").all Json.isNumber
    && (failure.lookup "providerRetryAfterMs").all Json.isNumber
    && (failure.lookup "requestId").all Json.isString

def legacyError (reason : List (String × Json)) (malformed : String) : Except String Json :=
  match (asRecord (reason.lookup "failure")).filter (isLegacyFailure reason) with
  | some failure => .ok (.obj failure)
  | none => do
    let messageKeys := if (reason.lookup "code").isNone then ["kind", "step", "message"]
      else ["kind", "step", "message", "code"]
    require (Json.hasOnlyKeys reason messageKeys []
      && (reason.lookup "message").any Json.isString
      && (reason.lookup "code").all Json.isString) malformed
    return .obj (Json.optionalField "message" (reason.lookup "message")
      ++ [("code", (reason.lookup "code").getD (.str "UNKNOWN"))])

def currentReason (reason : List (String × Json)) (kind malformed : String) :
    Except String (Option Json) :=
  if kind ∈ ["completed", "blocked", "max-tokens", "interrupted"] then do
    require (Json.hasOnlyKeys reason ["kind"] []) malformed
    return none
  else if kind = "aborted" then
    if Json.hasOwn reason "reason" then .ok none
    else do
      require (Json.hasOnlyKeys reason ["kind"] []) malformed
      return some (abortedReason "legacy")
  else if kind = "disposed" then do
    require (Json.hasOnlyKeys reason ["kind"] []) malformed
    return some (abortedReason "disposed")
  else if kind = "error" then
    if Json.hasOwn reason "error" then .ok none
    else do
      require (isAtLeast reason "step" 0) malformed
      let error ← legacyError reason malformed
      return some (errorReason error)
  else .ok none

def reasonKind (data : List (String × Json)) : Option (List (String × Json) × String) :=
  (asRecord (data.lookup "reason")).bind fun reason =>
    match reason.lookup "kind" with
    | some (.str kind) => some (reason, kind)
    | _ => none

def migrateLegacyTurnEndEvent (event : Json) (id : String) : Except String Json :=
  if !hasType event "turn/end" then .ok event
  else
    match dataRecord event with
    | none => .ok event
    | some data => do
      let malformed := malformedLegacy event id "turn/end"
      require (isAtLeast data "turn" 1 && Json.hasOnlyKeys data ["turn", "reason"] []) malformed
      let reason ← expect (reasonKind data) malformed
      let current ← currentReason reason.1 reason.2 malformed
      match current with
      | none => return event
      | some current => return withData event ((Json.obj data).spread [("reason", current)])

/-- Identities of the messages read so far, under the sequence numbers of their events. -/
abbrev MessageIds := OrderedMap Json String

def migratedUser (event : Json) (id : String) (data : List (String × Json)) : Json :=
  if Json.hasOwn data "id" || Json.hasOwn data "role" || Json.hasOwn data "message"
      || !Json.hasOwn data "content" || !Json.hasOwn data "source" then event
  else
    withData event ((Json.obj data).spread
      [("id", .str (legacyMessageId id event)), ("role", .str "user")])

def recordField (data : List (String × Json)) (key : String) : Json := (data.lookup key).getD .null

def migratedAssistant (event : Json) (id : String) (data : List (String × Json)) : Json :=
  if Json.hasOwn data "message" || !Json.hasOwn data "content"
      || !Json.hasOwn data "provenance" then event
  else
    withData event ((Json.obj (Json.without data ["content", "provenance"])).spread
      [("message", .obj
        [("id", .str (legacyMessageId id event)), ("role", .str "assistant"),
          ("content", recordField data "content"),
          ("source", (Json.obj ((asRecord (data.lookup "provenance")).getD [])).spread
            [("kind", .str "model")])])])

/-- A result that replaces another has the identity of the replaced one; an unknown one is
`undefined`, which the shape check reads as an absent identity. -/
def resultMessageId (event : Json) (id : String) (messageIds : MessageIds) : Option String :=
  match replacementStart event with
  | none => some (legacyMessageId id event)
  | some start => messageIds.get? start

def migratedResult (event : Json) (id : String) (messageIds : MessageIds)
    (data : List (String × Json)) : Json :=
  if Json.hasOwn data "message" || !Json.hasOwn data "callId" || !Json.hasOwn data "content"
      || !Json.hasOwn data "isError" then event
  else
    let callId := recordField data "callId"
    withData event ((Json.obj (Json.without data ["callId", "content", "isError"])).spread
      [("message", .obj
        (Json.optionalField "id" ((resultMessageId event id messageIds).map Json.str) ++
          [("role", .str "user"),
            ("content", .arr [.obj [("type", .str "tool-result"), ("toolCallId", callId),
              ("content", recordField data "content"), ("isError", recordField data "isError")]]),
            ("source", .obj [("kind", .str "tool"), ("callId", callId)])]))])

def migrateLegacyMessageEvent (event : Json) (id : String) (messageIds : MessageIds) : Json :=
  match dataRecord event with
  | none => event
  | some data =>
    if hasType event "user/message" then migratedUser event id data
    else if hasType event "assistant/message" then migratedAssistant event id data
    else if hasType event "tool/result" then migratedResult event id messageIds data
    else event

def nonEmptyString (value : Option Json) : Bool :=
  match value with
  | some (.str s) => s != ""
  | _ => false

def hasProviderModel (value : Json) : Bool :=
  nonEmptyString (value.get? "provider") && nonEmptyString (value.get? "model")

def readField (value : Option Json) (key : String) : Option Json := value.bind fun value => value.get? key

def isMessageType (event : Json) : Bool :=
  hasType event "user/message" || hasType event "assistant/message" || hasType event "tool/result"

def messageOf (event : Json) : Option Json :=
  if hasType event "user/message" then event.get? "data" else readField (event.get? "data") "message"

def toolResultContent (block : Json) : Bool :=
  block.get? "type" == some (.str "tool-result") && (block.get? "content").any Json.isArray

def arrayItems : Json → Option (List Json)
  | .arr items => some items
  | _ => none

def assertToolMessage (source : Option Json) (content : List Json) (subject : String) :
    Except String Unit := do
  require (readField source "kind" == some (.str "tool") && nonEmptyString (readField source "callId"))
    s!"{subject} message must have tool source"
  require (decide (content.length = 1) && content.head?.any toolResultContent)
    s!"{subject} message must contain one tool-result block"
  require (readField content.head? "toolCallId" == readField source "callId")
    s!"{subject} message has mismatched tool call ids"

def assertMessageEventShape (event : Json) (subject : String) : Except String Unit :=
  if !isMessageType event then .ok ()
  else do
    let message := messageOf event
    require (nonEmptyString (readField message "id")) s!"{subject} lacks an identified message"
    let expectedRole := if hasType event "assistant/message" then "assistant" else "user"
    require (readField message "role" == some (.str expectedRole))
      s!"{subject} message must have role \"{expectedRole}\""
    let source := readField message "source"
    require (nonEmptyString (readField source "kind")) s!"{subject} message has invalid source"
    let content ← expect ((readField message "content").bind arrayItems)
      s!"{subject} message has invalid content"
    if hasType event "assistant/message" then
      require (readField source "kind" == some (.str "model") && source.any hasProviderModel)
        s!"{subject} message must have model source"
    else if hasType event "tool/result" then assertToolMessage source content subject
    else .ok ()

def adoptSessionEvent (event : Json) : Except String Json := do
  assertMessageEventShape event s!"session event at seq {seqText event}"
  return event

def snapshotSessionEvent (event : Json) : Except String Json := adoptSessionEvent event

def eventMessageId (event : Json) : Option String :=
  let message := if hasType event "user/message" then dataRecord event
    else asRecord ((dataRecord event).bind fun data => data.lookup "message")
  match message.bind fun message => message.lookup "id" with
  | some (.str id) => some id
  | _ => none

def noteMessageId (messageIds : MessageIds) (event : Json) : MessageIds :=
  match eventMessageId event, event.get? "seq" with
  | some messageId, some seq => messageIds.set seq messageId
  | _, _ => messageIds

def migrateLegacyEvent (event : Json) (id : String) (messageIds : MessageIds) :
    Except String Json := do
  let migratedStart ← migrateLegacyTurnStartEvent event id
  let migratedTurn ← migrateLegacyTurnEndEvent migratedStart id
  let migratedSteering ← migrateLegacySteeringEvent migratedTurn id
  return migrateLegacyMessageEvent migratedSteering id messageIds

def snapshotEvents (id : String) : MessageIds → List Json → Except String (List Json)
  | _, [] => .ok []
  | messageIds, event :: events => do
    let migrated ← migrateLegacyEvent event id messageIds
    let snapshot ← snapshotSessionEvent migrated
    let rest ← snapshotEvents id (noteMessageId messageIds snapshot) events
    return snapshot :: rest

def snapshotStoredEvents (events : List Json) (id : String) : Except String (List Json) := do
  assertSupportedEvents events id
  snapshotEvents id OrderedMap.empty events

/-- The loop of `adoptStoredEvents` from `index` on, over the array it rewrites. -/
def adoptFrom (id : String) : Nat → Nat → MessageIds → List Json → Except String (List Json)
  | 0, _, _, events => .ok events
  | remaining + 1, index, messageIds, events => do
    let event ← expect events[index]? "index out of range"
    let migrated ← migrateLegacyEvent event id messageIds
    let adopted ← adoptSessionEvent migrated
    adoptFrom id remaining (index + 1) (noteMessageId messageIds adopted) (events.set index adopted)

def adoptStoredEvents (events : List Json) (id : String) : Except String (List Json) := do
  assertSupportedEvents events id
  adoptFrom id events.length 0 OrderedMap.empty events

end Harness.Persistence
