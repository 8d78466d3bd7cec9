import Harness.Foundation.Attempt
import Harness.Foundation.Machine
import Harness.Foundation.OrderedMap
import Harness.Foundation.Text
import Mathlib.Data.List.Sort

namespace Harness.RemoteAccess

open Harness.Foundation

def nul : Char := Char.ofNat 0

structure PlatformId where
  text : String
  clean : nul ∉ text.toList
  deriving DecidableEq

/-- What a sealed envelope has inside; credentials are numbered as they are generated. -/
structure RelayCredentialGrant where
  routeId : String
  credential : Nat
  revision : Nat
  pairingSelector : String
  deriving DecidableEq

structure ProjectPeerGrantRecord where
  projectId : PlatformId
  grantId : String
  routeId : String
  grantorAccountId : PlatformId
  grantorInstallationId : String
  peerAccountId : PlatformId
  peerInstallationId : String
  pairingSelector : String
  credentialDigest : Nat
  sealedCredential : RelayCredentialGrant
  supersededCredentialDigest : Option Nat
  revision : Nat
  grantedAt : Nat
  revokedAt : Option Nat
  deriving DecidableEq

structure ProjectPeerGrantView where
  grantId : String
  projectId : PlatformId
  routeId : String
  peerAccountId : PlatformId
  peerInstallationId : String
  credentialFingerprint : Nat
  revision : Nat
  grantedAt : Nat
  deriving DecidableEq

structure SealedProjectPeerGrant where
  projectId : PlatformId
  grantId : String
  credentialFingerprint : Nat
  sealedCredential : RelayCredentialGrant
  deriving DecidableEq

inductive GrantError
  | remoteAccess (code message : String)
  | parse (message : String)
  /-- A call of the store, the relay or the sealer throws. -/
  | call
  deriving DecidableEq

inductive Call
  | done | refused | lost
  deriving DecidableEq

def grantKey (projectId peerAccountId : PlatformId) (peerInstallationId : String) : String :=
  projectId.text ++ String.singleton nul ++ peerAccountId.text ++ String.singleton nul ++
    peerInstallationId

namespace ProjectPeerGrantRecord

def key (record : ProjectPeerGrantRecord) : String :=
  grantKey record.projectId record.peerAccountId record.peerInstallationId

def isLive (record : ProjectPeerGrantRecord) : Bool := record.revokedAt.isNone

def inScope (record : ProjectPeerGrantRecord) (projectId : Option PlatformId) : Bool :=
  projectId.all fun project => decide (record.projectId = project)

def toProjectPeerGrantView (record : ProjectPeerGrantRecord) : ProjectPeerGrantView :=
  ⟨record.grantId, record.projectId, record.routeId, record.peerAccountId, record.peerInstallationId,
    record.credentialDigest, record.revision, record.grantedAt⟩

end ProjectPeerGrantRecord

/-- The store, the relay's Mobile digests of this surface, the Desktops' routes and the rosters. -/
structure RemoteAccess where
  records : OrderedMap String ProjectPeerGrantRecord
  /-- Registered, by route, and not revoked there since. -/
  registered : List (String × Nat)
  /-- The route of a Desktop that has Mobile Access enabled. -/
  desktops : PlatformId → String → Option String
  members : PlatformId → List PlatformId
  generated : Nat
  /-- Digests that were revoked, or whose record has been replaced. -/
  retired : List Nat

namespace RemoteAccess

def fresh : RemoteAccess := ⟨.empty, [], fun _ _ => none, fun _ => [], 0, []⟩

def roster (state : RemoteAccess) (accountId projectId : PlatformId) : Option (List PlatformId) :=
  if accountId ∈ state.members projectId then some (state.members projectId) else none

def isEligible (state : RemoteAccess) (record : ProjectPeerGrantRecord) : Bool :=
  decide (state.desktops record.grantorAccountId record.grantorInstallationId = some record.routeId) &&
    (state.roster record.grantorAccountId record.projectId).any fun members =>
      decide (record.peerAccountId ∈ members)

def carries (state : RemoteAccess) (record : ProjectPeerGrantRecord) : Bool :=
  decide ((record.routeId, record.credentialDigest) ∈ state.registered)

def listed (state : RemoteAccess) (projectId : Option PlatformId) : List ProjectPeerGrantRecord :=
  (state.records.values.filter (·.inScope projectId)).insertionSort fun left right =>
    left.grantedAt < right.grantedAt ∨
      left.grantedAt = right.grantedAt ∧ left.grantId ≤ right.grantId

end RemoteAccess

abbrev Grants (α : Type) := Attempt RemoteAccess GrantError α

def perform (call : Call) (effect : RemoteAccess → RemoteAccess) : Grants PUnit := fun state =>
  match call with
  | .done => (.ok ⟨⟩, effect state)
  | .refused => (.error .call, state)
  | .lost => (.error .call, effect state)

def registerCredentialDigest (routeId : String) (digest : Nat) (call : Call) : Grants PUnit :=
  perform call fun state => { state with registered := (routeId, digest) :: state.registered }

def revokeCredentialDigest (routeId : String) (digest : Nat) (call : Call) : Grants PUnit :=
  perform call fun state =>
    { state with
      registered := state.registered.filter (· ≠ (routeId, digest))
      retired := digest :: state.retired }

def putProjectPeerGrant (record : ProjectPeerGrantRecord) (call : Call) : Grants PUnit :=
  perform call fun state =>
    { state with
      records := state.records.set record.key record
      retired :=
        ((state.records.get? record.key).elim [] fun prior =>
          if prior.credentialDigest = record.credentialDigest then [] else [prior.credentialDigest]) ++
          state.retired }

def generateRelayCredential : Grants Nat := fun state =>
  (.ok state.generated, { state with generated := state.generated + 1 })

structure RecordCalls where
  superseded : Call
  clearing : Call
  revocation : Call
  tombstone : Call

def revokeProjectPeerGrantRecord (record : ProjectPeerGrantRecord) (revokedAt : Nat)
    (calls : RecordCalls) : Grants PUnit := do
  revokeCredentialDigest record.routeId record.credentialDigest calls.revocation
  putProjectPeerGrant { record with supersededCredentialDigest := none, revokedAt := some revokedAt }
    calls.tombstone

def revokeProjectPeerSupersededDigest (record : ProjectPeerGrantRecord) (calls : RecordCalls) :
    Grants ProjectPeerGrantRecord :=
  match record.supersededCredentialDigest with
  | none => pure record
  | some superseded => do
    revokeCredentialDigest record.routeId superseded calls.superseded
    let cleared := { record with supersededCredentialDigest := none }
    putProjectPeerGrant cleared calls.clearing
    pure cleared

/-- A grant that has not been revoked, against the Desktop's route and the roster. -/
def reconcileLive (now : Nat) (calls : RecordCalls) (retained : ProjectPeerGrantRecord) :
    Grants PUnit := do
  let route ← Attempt.ask fun state =>
    state.desktops retained.grantorAccountId retained.grantorInstallationId
  if route ≠ some retained.routeId then revokeProjectPeerGrantRecord retained now calls
  else
    let roster ← Attempt.ask fun state => state.roster retained.grantorAccountId retained.projectId
    match roster with
    | none => revokeProjectPeerGrantRecord retained now calls
    | some members =>
      if retained.peerAccountId ∈ members then pure ⟨⟩
      else revokeProjectPeerGrantRecord retained now calls

def reconcileRecord (now : Nat) (calls : String → RecordCalls) (record : ProjectPeerGrantRecord) :
    Grants PUnit := do
  let retained ← revokeProjectPeerSupersededDigest record (calls record.key)
  if retained.revokedAt.isSome = true then pure ⟨⟩
  else reconcileLive now (calls record.key) retained

/-- The calls of a reconciliation: whether the listing succeeds, and those for each record. -/
structure ReconcileCalls where
  listing : Bool
  records : String → RecordCalls

def reconcileProjectPeerGrants (projectId : Option PlatformId) (now : Nat) (calls : ReconcileCalls) :
    Grants PUnit := do
  Attempt.guarded calls.listing .call
  let records ← Attempt.ask (·.listed projectId)
  records.forM (reconcileRecord now calls.records)

structure Caller where
  account : PlatformId
  installation : String
  isDesktop : Bool
  shedding : Bool
  now : Nat

def authenticate (caller : Caller) : Grants PUnit :=
  Attempt.guarded caller.isDesktop (.remoteAccess "PAIRING_INSTALLATION_KIND_INVALID"
    "Personal Pairing operation requires an authenticated desktop Installation")

def assertCapacity (caller : Caller) : Grants PUnit :=
  Attempt.guarded (!caller.shedding)
    (.remoteAccess "PLATFORM_CAPACITY" "Platform has reached capacity")

def parseProjectPeerProjectId (projectId : PlatformId) : Grants PUnit :=
  Attempt.guarded (trim projectId.text != "") (.parse "Project peer project id must be non-empty")

def parsePlatformAccountId (accountId : PlatformId) : Grants PUnit :=
  Attempt.guarded (accountId.text != "") (.parse "Platform Account id must be a non-empty string")

def parseInstallationId (installationId : String) : Grants PUnit :=
  Attempt.guarded (installationId != "") (.parse "installationId must be a non-empty string")

def required (value : Option α) (e : GrantError) : Grants α := fun state =>
  match value with
  | some a => (.ok a, state)
  | none => (.error e, state)

def requireProjectRoster (accountId projectId : PlatformId) : Grants (List PlatformId) := do
  let roster ← Attempt.ask (·.roster accountId projectId)
  required roster (.remoteAccess "PROJECT_PEER_MEMBERSHIP_REQUIRED"
    "Project peer grants require an active project membership")

def sealOrRevoke (routeId : String) (digest : Nat) (sealing : Bool) (compensation : Call) :
    Grants PUnit :=
  if sealing = true then pure ⟨⟩
  else do
    revokeCredentialDigest routeId digest compensation
    Attempt.fail .call

structure GrantCalls where
  reconcile : ReconcileCalls
  reading : Bool
  relisting : Bool
  registration : Call
  sealing : Bool
  compensation : Call
  write : Call
  rotation : RecordCalls

structure GrantInput where
  projectId : PlatformId
  peerAccountId : PlatformId
  peerInstallationId : String
  grantId : String
  revision : Nat

def GrantInput.key (input : GrantInput) : String :=
  grantKey input.projectId input.peerAccountId input.peerInstallationId

def newRecord (caller : Caller) (input : GrantInput) (routeId : String) (credential : Nat)
    (prior : Option ProjectPeerGrantRecord) : ProjectPeerGrantRecord where
  projectId := input.projectId
  grantId := input.grantId
  routeId := routeId
  grantorAccountId := caller.account
  grantorInstallationId := caller.installation
  peerAccountId := input.peerAccountId
  peerInstallationId := input.peerInstallationId
  pairingSelector := input.grantId
  credentialDigest := credential
  sealedCredential := ⟨routeId, credential, input.revision, input.grantId⟩
  supersededCredentialDigest := (prior.filter (·.isLive)).map (·.credentialDigest)
  revision := input.revision
  grantedAt := caller.now
  revokedAt := none

def issue (caller : Caller) (input : GrantInput) (calls : GrantCalls) (routeId : String)
    (prior : Option ProjectPeerGrantRecord) : Grants ProjectPeerGrantView := do
  let credential ← generateRelayCredential
  registerCredentialDigest routeId credential calls.registration
  sealOrRevoke routeId credential calls.sealing calls.compensation
  let record := newRecord caller input routeId credential prior
  putProjectPeerGrant record calls.write
  let _ ← revokeProjectPeerSupersededDigest record calls.rotation
  pure record.toProjectPeerGrantView

def grantProjectPeer (caller : Caller) (input : GrantInput) (calls : GrantCalls) :
    Grants ProjectPeerGrantView := do
  authenticate caller
  assertCapacity caller
  parseProjectPeerProjectId input.projectId
  parsePlatformAccountId input.peerAccountId
  parseInstallationId input.peerInstallationId
  reconcileProjectPeerGrants (some input.projectId) caller.now calls.reconcile
  let roster ← requireProjectRoster caller.account input.projectId
  Attempt.guarded (decide (input.peerAccountId ∈ roster)) (.remoteAccess
    "PROJECT_PEER_MEMBERSHIP_REQUIRED"
    "Project peer grants require the addressed account to hold an active membership")
  let route ← Attempt.ask fun state => state.desktops caller.account caller.installation
  let routeId ← required route (.remoteAccess "MOBILE_ACCESS_DISABLED"
    "Mobile Access is disabled for this Desktop Installation")
  Attempt.guarded calls.reading .call
  let prior ← Attempt.ask fun state => state.records.get? input.key
  Attempt.guarded calls.relisting .call
  let unused ← Attempt.ask fun state =>
    (state.listed none).all fun record => decide (record.grantId ≠ input.grantId)
  Attempt.guarded unused (.remoteAccess "PROJECT_PEER_ID_COLLISION"
    "Project peer grant identity was already allocated")
  issue caller input calls routeId prior

def listProjectPeerGrants (caller : Caller) (projectId : Option PlatformId)
    (calls : ReconcileCalls) (relisting : Bool) : Grants (List ProjectPeerGrantView) := do
  authenticate caller
  Attempt.guarded (projectId.all fun project => trim project.text != "")
    (.parse "Project peer project id must be non-empty")
  reconcileProjectPeerGrants projectId caller.now calls
  Attempt.guarded relisting .call
  let records ← Attempt.ask (·.listed projectId)
  pure ((records.filter fun record => record.isLive &&
    decide (record.grantorAccountId = caller.account) &&
      decide (record.grantorInstallationId = caller.installation)).map
        (·.toProjectPeerGrantView))

def revokeRead (caller : Caller) (found : Option ProjectPeerGrantRecord) (calls : RecordCalls) :
    Grants PUnit :=
  match found.filter (·.isLive) with
  | none => pure ⟨⟩
  | some record => do
    Attempt.guarded (decide (record.grantorAccountId = caller.account) &&
        decide (record.grantorInstallationId = caller.installation))
      (.remoteAccess "PROJECT_PEER_GRANT_INVALID"
        "Project peer grants answer only to the Desktop that carries them")
    revokeProjectPeerGrantRecord record caller.now calls

def revokeProjectPeerGrant (caller : Caller) (projectId peerAccountId : PlatformId)
    (peerInstallationId : String) (calls : ReconcileCalls) (reading : Bool) (own : RecordCalls) :
    Grants PUnit := do
  authenticate caller
  parseProjectPeerProjectId projectId
  parsePlatformAccountId peerAccountId
  parseInstallationId peerInstallationId
  reconcileProjectPeerGrants (some projectId) caller.now calls
  Attempt.guarded reading .call
  let found ← Attempt.ask fun state =>
    state.records.get? (grantKey projectId peerAccountId peerInstallationId)
  revokeRead caller found own

def getProjectPeerGrant (caller : Caller) (projectId : PlatformId) (calls : ReconcileCalls)
    (reading : Bool) : Grants SealedProjectPeerGrant := do
  assertCapacity caller
  parseProjectPeerProjectId projectId
  reconcileProjectPeerGrants (some projectId) caller.now calls
  let _ ← requireProjectRoster caller.account projectId
  Attempt.guarded reading .call
  let found ← Attempt.ask fun state =>
    state.records.get? (grantKey projectId caller.account caller.installation)
  let record ← required (found.filter (·.isLive)) (.remoteAccess "PROJECT_PEER_GRANT_INVALID"
    "Project peer grant is invalid or unavailable")
  pure ⟨record.projectId, record.grantId, record.credentialDigest, record.sealedCredential⟩

inductive PeerOp
  | grant (caller : Caller) (input : GrantInput) (calls : GrantCalls)
  | list (caller : Caller) (projectId : Option PlatformId) (calls : ReconcileCalls) (relisting : Bool)
  | revoke (caller : Caller) (projectId peerAccountId : PlatformId) (peerInstallationId : String)
      (calls : ReconcileCalls) (reading : Bool) (own : RecordCalls)
  | get (caller : Caller) (projectId : PlatformId) (calls : ReconcileCalls) (reading : Bool)
  | setMembers (projectId : PlatformId) (members : List PlatformId)
  | setDesktop (account : PlatformId) (installation : String) (route : Option String)

inductive PeerReply
  | granted (view : ProjectPeerGrantView)
  | listed (views : List ProjectPeerGrantView)
  | opened (grant : SealedProjectPeerGrant)
  | done
  deriving DecidableEq

def PeerOp.attempt : PeerOp → Grants PeerReply
  | .grant caller input calls => PeerReply.granted <$> grantProjectPeer caller input calls
  | .list caller projectId calls relisting =>
    PeerReply.listed <$> listProjectPeerGrants caller projectId calls relisting
  | .revoke caller projectId peerAccountId peerInstallationId calls reading own =>
    (fun _ => PeerReply.done) <$>
      revokeProjectPeerGrant caller projectId peerAccountId peerInstallationId calls reading own
  | .get caller projectId calls reading =>
    PeerReply.opened <$> getProjectPeerGrant caller projectId calls reading
  | .setMembers projectId members => fun state =>
    (.ok .done, { state with
      members := fun project => if project = projectId then members else state.members project })
  | .setDesktop account installation route => fun state =>
    (.ok .done, { state with
      desktops := fun other place =>
        if other = account ∧ place = installation then route else state.desktops other place })

def RemoteAccess.step (state : RemoteAccess) (op : PeerOp) :
    RemoteAccess × Except GrantError PeerReply :=
  ((op.attempt state).2, (op.attempt state).1)

end Harness.RemoteAccess
