import Harness.Foundation.Machine
import Harness.Foundation.OrderedMap
import Mathlib.Data.Finset.Card
import Mathlib.Data.List.Dedup

namespace Harness.RemoteAccess.Relay

open Harness.Foundation

abbrev ConnectionToken := Nat
abbrev CallId := Nat

structure RelayConfig where
  maxConnections : Nat
  /-- A capacity gate and a sink of pairing activity are optional. -/
  capacity : Bool
  pairingActivity : Bool
  deriving DecidableEq

inductive CloseOperation
  | unregister | writer | socket | activity
  deriving DecidableEq

/-- A running close: its operations, those that have not settled, those that were rejected and those
that have had their effect.  Then the peers are told. -/
inductive CloseTransaction
  | draining (started waiting failed carried : List CloseOperation)
  | publishing
  deriving DecidableEq

structure LocalAttachment where
  routeId : String
  attachmentId : String
  mobile : Bool
  closed : Bool
  unregistered : Bool
  writerDrained : Bool
  socketClosed : Bool
  capacityHeld : Bool
  activityReleased : Bool
  closeTransaction : Option CloseTransaction
  /-- The last close transaction to end was fulfilled. -/
  closeFulfilled : Bool
  deriving DecidableEq

def attachmentKey (routeId attachmentId : String) : String := routeId ++ ":" ++ attachmentId

def LocalAttachment.key (attachment : LocalAttachment) : String :=
  attachmentKey attachment.routeId attachment.attachmentId

/-- Where an attach call waits.  Once it has published its attachment, the token is the
attachment's. -/
inductive AttachPhase
  | authorizing (capacityHeld : Bool)
  /-- The close of the attachment that the call replaces, and how it ended. -/
  | replacing (existing : ConnectionToken) (ended : Option Bool) (capacityHeld : Bool)
  | announcing (attached : ConnectionToken)
  | registering (attached : ConnectionToken) (applied : Bool)
  | reauthorizing (attached : ConnectionToken)
  | recording (attached : ConnectionToken) (applied : Bool)
  | publishing (attached : ConnectionToken)
  /-- The close of the call's own attachment, after which the call rejects. -/
  | cleaning (attached : ConnectionToken) (ended : Option Bool)
  | resolved (attached : ConnectionToken)
  | rejected (attached : Option ConnectionToken)
  deriving DecidableEq

namespace AttachPhase

def isActive : AttachPhase → Bool
  | .resolved _ => false
  | .rejected _ => false
  | _ => true

def holdsCapacity : AttachPhase → Bool
  | .authorizing capacityHeld => capacityHeld
  | .replacing _ _ capacityHeld => capacityHeld
  | _ => false

def attached? : AttachPhase → Option ConnectionToken
  | .authorizing _ => none
  | .replacing _ _ _ => none
  | .announcing attached => some attached
  | .registering attached _ => some attached
  | .reauthorizing attached => some attached
  | .recording attached _ => some attached
  | .publishing attached => some attached
  | .cleaning attached _ => some attached
  | .resolved attached => some attached
  | .rejected attached => attached

def hear (token : ConnectionToken) (fulfilled : Bool) : AttachPhase → AttachPhase
  | .replacing existing none capacityHeld =>
    .replacing existing (if existing = token then some fulfilled else none) capacityHeld
  | .cleaning attached none => .cleaning attached (if attached = token then some fulfilled else none)
  | phase => phase

end AttachPhase

structure AttachCall where
  routeId : String
  attachmentId : String
  mobile : Bool
  hasClose : Bool
  phase : AttachPhase
  deriving DecidableEq

def AttachCall.key (call : AttachCall) : String := attachmentKey call.routeId call.attachmentId

def AttachCall.hear (token : ConnectionToken) (fulfilled : Bool) (call : AttachCall) : AttachCall :=
  { call with phase := call.phase.hear token fulfilled }

/-- The shared directory and the leases, with the tokens whose removal has been carried out there. -/
structure SharedState where
  directory : OrderedMap (String × String) ConnectionToken
  leases : List ConnectionToken
  unregistered : List ConnectionToken
  leaseReleased : List ConnectionToken

structure RemoteRelayProvider where
  locals : OrderedMap ConnectionToken LocalAttachment
  attachments : OrderedMap String ConnectionToken
  attachmentReservations : List String
  calls : OrderedMap CallId AttachCall
  /-- Leases that heartbeats and forwarded messages are recording. -/
  touching : List ConnectionToken
  disposed : Bool
  acquired : Nat
  released : Nat
  shared : SharedState
  /-- Above every connection token and every call. -/
  next : Nat

namespace RemoteRelayProvider

def fresh : RemoteRelayProvider :=
  ⟨.empty, .empty, [], .empty, [], false, 0, 0, ⟨.empty, [], [], []⟩, 0⟩

def setLocal (provider : RemoteRelayProvider) (token : ConnectionToken)
    (attachment : LocalAttachment) : RemoteRelayProvider :=
  { provider with locals := provider.locals.set token attachment }

def setPhase (provider : RemoteRelayProvider) (id : CallId) (call : AttachCall)
    (phase : AttachPhase) : RemoteRelayProvider :=
  { provider with calls := provider.calls.set id { call with phase } }

def release (provider : RemoteRelayProvider) (capacityHeld : Bool) : RemoteRelayProvider :=
  { provider with released := provider.released + capacityHeld.toNat }

def endCall (provider : RemoteRelayProvider) (id : CallId) (call : AttachCall) (phase : AttachPhase) :
    RemoteRelayProvider :=
  { provider.setPhase id call phase with
    attachmentReservations := provider.attachmentReservations.filter (· ≠ call.key) }

def closeOperations (config : RelayConfig) (attachment : LocalAttachment) : List CloseOperation :=
  (if attachment.unregistered then [] else [.unregister]) ++
    (if attachment.writerDrained then [] else [.writer]) ++
    (if attachment.socketClosed then [] else [.socket]) ++
    (if attachment.activityReleased || !(attachment.mobile && config.pairingActivity) then []
      else [.activity])

def closeAndDrain (config : RelayConfig) (provider : RemoteRelayProvider) (token : ConnectionToken) :
    RemoteRelayProvider :=
  match provider.locals.get? token with
  | none => provider
  | some attachment =>
    if attachment.closeTransaction.isSome then provider
    else
      provider.setLocal token { attachment with
        closed := true
        closeTransaction := some (.draining (closeOperations config attachment)
          (closeOperations config attachment) [] []) }

def complete (attachment : LocalAttachment) (done : List CloseOperation) : LocalAttachment :=
  { attachment with
    unregistered := attachment.unregistered || decide (.unregister ∈ done)
    writerDrained := attachment.writerDrained || decide (.writer ∈ done)
    socketClosed := attachment.socketClosed || decide (.socket ∈ done)
    activityReleased := attachment.activityReleased || decide (.activity ∈ done) }

def endClose (provider : RemoteRelayProvider) (token : ConnectionToken)
    (attachment : LocalAttachment) (fulfilled : Bool) : RemoteRelayProvider :=
  { provider.setLocal token
      { attachment with closeTransaction := none, closeFulfilled := fulfilled } with
    calls := provider.calls.mapValues (·.hear token fulfilled) }

def settleClose (provider : RemoteRelayProvider) (token : ConnectionToken)
    (attachment : LocalAttachment) (started failed : List CloseOperation) : RemoteRelayProvider :=
  let completed := complete attachment (started.filter fun operation => decide (operation ∉ failed))
  if failed ≠ [] then provider.endClose token completed false
  else
    { (provider.release completed.capacityHeld).setLocal token
        { completed with capacityHeld := false, closeTransaction := some .publishing } with
      attachments :=
        if provider.attachments.get? completed.key = some token then
          provider.attachments.delete completed.key
        else provider.attachments }

def publish (provider : RemoteRelayProvider) (id : CallId) (call : AttachCall)
    (capacityHeld : Bool) : RemoteRelayProvider :=
  let token := provider.next
  { (provider.setLocal token
      { routeId := call.routeId, attachmentId := call.attachmentId, mobile := call.mobile
        closed := false, unregistered := false, writerDrained := false
        socketClosed := !call.hasClose, capacityHeld, activityReleased := false
        closeTransaction := none, closeFulfilled := false }).setPhase id call (.announcing token) with
    attachments := provider.attachments.set call.key token
    next := token + 1 }

/-- The `catch` around the part of `attachReserved` before it has an attachment. -/
def rejectAttach (provider : RemoteRelayProvider) (id : CallId) (call : AttachCall)
    (capacityHeld : Bool) : RemoteRelayProvider :=
  (provider.release capacityHeld).endCall id call (.rejected none)

def failAttach (config : RelayConfig) (provider : RemoteRelayProvider) (id : CallId)
    (call : AttachCall) (token : ConnectionToken) : RemoteRelayProvider :=
  if (provider.locals.get? token).any (!·.closed) then
    (provider.closeAndDrain config token).setPhase id call (.cleaning token none)
  else provider.endCall id call (.rejected (some token))

def isRecorded (config : RelayConfig) (provider : RemoteRelayProvider) (token : ConnectionToken) :
    Bool :=
  config.pairingActivity && (provider.locals.get? token).any (·.mobile)

def beginAttach (config : RelayConfig) (provider : RemoteRelayProvider) (routeId attachmentId : String)
    (mobile hasClose granted : Bool) : RemoteRelayProvider :=
  let key := attachmentKey routeId attachmentId
  let replacing := provider.attachments.has key
  let acquires := !replacing && config.capacity
  if provider.disposed || acquires && !granted then provider
  else if decide (key ∈ provider.attachmentReservations) ||
      !replacing && decide (config.maxConnections ≤
        provider.attachments.size + provider.attachmentReservations.length) then
    { provider with
      acquired := provider.acquired + acquires.toNat
      released := provider.released + acquires.toNat }
  else
    { provider with
      acquired := provider.acquired + acquires.toNat
      attachmentReservations := key :: provider.attachmentReservations
      calls := provider.calls.set provider.next
        ⟨routeId, attachmentId, mobile, hasClose, .authorizing acquires⟩
      next := provider.next + 1 }

/-- The route store has answered; the attachment that has the key gives up its token and is closed. -/
def authorized (config : RelayConfig) (provider : RemoteRelayProvider) (id : CallId)
    (call : AttachCall) (capacityHeld accepted aborted : Bool) : RemoteRelayProvider :=
  if provider.disposed || !accepted then provider.rejectAttach id call capacityHeld
  else
    match provider.attachments.get? call.key with
    | none =>
      if aborted then provider.rejectAttach id call capacityHeld
      else provider.publish id call capacityHeld
    | some existing =>
      match provider.locals.get? existing with
      | none => provider
      | some attachment =>
        ((provider.setLocal existing { attachment with capacityHeld := false }).closeAndDrain config
          existing).setPhase id call
            (.replacing existing none (capacityHeld || attachment.capacityHeld))

def replaced (provider : RemoteRelayProvider) (id : CallId) (call : AttachCall)
    (fulfilled capacityHeld aborted : Bool) : RemoteRelayProvider :=
  if !fulfilled || provider.disposed || aborted then provider.rejectAttach id call capacityHeld
  else provider.publish id call capacityHeld

def reauthorized (config : RelayConfig) (provider : RemoteRelayProvider) (id : CallId)
    (call : AttachCall) (token : ConnectionToken) (answer : Option Bool) : RemoteRelayProvider :=
  match answer with
  | none => provider.failAttach config id call token
  | some current =>
    if provider.disposed || !current then
      (provider.closeAndDrain config token).setPhase id call (.cleaning token none)
    else if provider.isRecorded config token then
      provider.setPhase id call (.recording token false)
    else provider.setPhase id call (.publishing token)

def register (provider : RemoteRelayProvider) (attachment : LocalAttachment)
    (token : ConnectionToken) : RemoteRelayProvider :=
  { provider with
    shared := { provider.shared with
      directory := provider.shared.directory.set (attachment.routeId, attachment.attachmentId) token } }

def unregister (provider : RemoteRelayProvider) (attachment : LocalAttachment)
    (token : ConnectionToken) : RemoteRelayProvider :=
  { provider with
    shared := { provider.shared with
      directory :=
        if provider.shared.directory.get? (attachment.routeId, attachment.attachmentId) =
            some token then
          provider.shared.directory.delete (attachment.routeId, attachment.attachmentId)
        else provider.shared.directory
      unregistered := token :: provider.shared.unregistered } }

def recordLease (provider : RemoteRelayProvider) (token : ConnectionToken) : RemoteRelayProvider :=
  { provider with shared := { provider.shared with leases := token :: provider.shared.leases } }

def releaseLease (provider : RemoteRelayProvider) (token : ConnectionToken) : RemoteRelayProvider :=
  { provider with
    shared := { provider.shared with
      leases := provider.shared.leases.filter (· ≠ token)
      leaseReleased := token :: provider.shared.leaseReleased } }

def carryOut (provider : RemoteRelayProvider) (attachment : LocalAttachment) (token : ConnectionToken) :
    CloseOperation → RemoteRelayProvider
  | .unregister => provider.unregister attachment token
  | .activity => provider.releaseLease token
  | _ => provider

inductive Op
  | attach (routeId attachmentId : String) (mobile hasClose granted : Bool)
  | authorized (id : CallId) (accepted aborted : Bool)
  | replaced (id : CallId) (aborted : Bool)
  /-- The directory has been listed and the attachment announced. -/
  | announced (id : CallId) (fulfilled : Bool)
  /-- The effect of a call in flight, and then its answer. -/
  | registers (id : CallId)
  | registered (id : CallId) (fulfilled : Bool)
  | reauthorized (id : CallId) (answer : Option Bool)
  | records (id : CallId)
  | recorded (id : CallId) (fulfilled : Bool)
  | published (id : CallId) (fulfilled : Bool)
  | cleaned (id : CallId)
  /-- The handle's close, a heartbeat timeout, an invalidation, a slow consumer, a writer failure. -/
  | close (token : ConnectionToken)
  | carriesOut (token : ConnectionToken) (operation : CloseOperation)
  | settled (token : ConnectionToken) (operation : CloseOperation) (fulfilled : Bool)
  | drained (token : ConnectionToken)
  | closePublished (token : ConnectionToken) (fulfilled : Bool)
  /-- A heartbeat or a forwarded message records activity. -/
  | touch (token : ConnectionToken)
  | touches (token : ConnectionToken)
  | touched (token : ConnectionToken)
  | dispose
  deriving DecidableEq

def stepCall (config : RelayConfig) (provider : RemoteRelayProvider) (id : CallId)
    (call : AttachCall) : Op → Option RemoteRelayProvider
  | .authorized _ accepted aborted =>
    match call.phase with
    | .authorizing capacityHeld =>
      some (provider.authorized config id call capacityHeld accepted aborted)
    | _ => none
  | .replaced _ aborted =>
    match call.phase with
    | .replacing _ (some fulfilled) capacityHeld =>
      some (provider.replaced id call fulfilled capacityHeld aborted)
    | _ => none
  | .announced _ fulfilled =>
    match call.phase with
    | .announcing token =>
      some (if fulfilled then provider.setPhase id call (.registering token false)
        else provider.failAttach config id call token)
    | _ => none
  | .registers _ =>
    match call.phase with
    | .registering token false =>
      (provider.locals.get? token).map fun attachment =>
        (provider.register attachment token).setPhase id call (.registering token true)
    | _ => none
  | .registered _ fulfilled =>
    match call.phase with
    | .registering token applied =>
      if fulfilled then
        if applied then some (provider.setPhase id call (.reauthorizing token)) else none
      else some (provider.failAttach config id call token)
    | _ => none
  | .reauthorized _ answer =>
    match call.phase with
    | .reauthorizing token => some (provider.reauthorized config id call token answer)
    | _ => none
  | .records _ =>
    match call.phase with
    | .recording token false =>
      some ((provider.recordLease token).setPhase id call (.recording token true))
    | _ => none
  | .recorded _ fulfilled =>
    match call.phase with
    | .recording token applied =>
      if fulfilled then
        if applied then some (provider.setPhase id call (.publishing token)) else none
      else some (provider.failAttach config id call token)
    | _ => none
  | .published _ fulfilled =>
    match call.phase with
    | .publishing token =>
      some (if fulfilled then provider.endCall id call (.resolved token)
        else provider.failAttach config id call token)
    | _ => none
  | .cleaned _ =>
    match call.phase with
    | .cleaning token (some _) => some (provider.endCall id call (.rejected (some token)))
    | _ => none
  | _ => none

def stepClose (provider : RemoteRelayProvider) (token : ConnectionToken)
    (attachment : LocalAttachment) : Op → Option RemoteRelayProvider
  | .carriesOut _ operation =>
    match attachment.closeTransaction with
    | some (.draining started waiting failed carried) =>
      if operation ∈ waiting then
        some ((provider.carryOut attachment token operation).setLocal token { attachment with
          closeTransaction := some (.draining started waiting failed (operation :: carried)) })
      else none
    | _ => none
  | .settled _ operation fulfilled =>
    match attachment.closeTransaction with
    | some (.draining started waiting failed carried) =>
      -- a shared call that is fulfilled has had its effect, and the writer is never rejected
      if operation ∈ waiting ∧ (operation = .writer → fulfilled = true)
          ∧ (fulfilled = true → operation = .unregister ∨ operation = .activity →
            operation ∈ carried) then
        some (provider.setLocal token { attachment with
          closeTransaction := some (.draining started (waiting.filter (· ≠ operation))
            (if fulfilled then failed else operation :: failed) carried) })
      else none
    | _ => none
  | .drained _ =>
    match attachment.closeTransaction with
    | some (.draining started [] failed _) =>
      some (provider.settleClose token attachment started failed)
    | _ => none
  | .closePublished _ fulfilled =>
    match attachment.closeTransaction with
    | some .publishing => some (provider.endClose token attachment fulfilled)
    | _ => none
  | _ => none

def Op.call? : Op → Option CallId
  | .authorized id _ _ => some id
  | .replaced id _ => some id
  | .announced id _ => some id
  | .registers id => some id
  | .registered id _ => some id
  | .reauthorized id _ => some id
  | .records id => some id
  | .recorded id _ => some id
  | .published id _ => some id
  | .cleaned id => some id
  | _ => none

def Op.closing? : Op → Option ConnectionToken
  | .carriesOut token _ => some token
  | .settled token _ _ => some token
  | .drained token => some token
  | .closePublished token _ => some token
  | _ => none

def step (config : RelayConfig) (provider : RemoteRelayProvider) (op : Op) :
    Option RemoteRelayProvider :=
  match op with
  | .attach routeId attachmentId mobile hasClose granted =>
    some (provider.beginAttach config routeId attachmentId mobile hasClose granted)
  | .close token =>
    if (provider.locals.get? token).isSome then some (provider.closeAndDrain config token) else none
  | .touch token =>
    if provider.isRecorded config token then
      some { provider with touching := token :: provider.touching }
    else none
  | .touches token =>
    if token ∈ provider.touching then some (provider.recordLease token) else none
  | .touched token =>
    if token ∈ provider.touching then
      some { provider with touching := provider.touching.erase token }
    else none
  | .dispose => some { provider with disposed := true }
  | op =>
    match op.call? with
    | some id => (provider.calls.get? id).bind fun call => provider.stepCall config id call op
    | none => op.closing?.bind fun token =>
      (provider.locals.get? token).bind fun attachment => provider.stepClose token attachment op

end RemoteRelayProvider

end Harness.RemoteAccess.Relay
