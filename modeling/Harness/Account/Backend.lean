import Harness.Foundation.Json
import Harness.Foundation.Machine
import Harness.Foundation.OrderedMap

namespace Harness.Account

open Harness.Foundation

abbrev LoginAttemptId := String
abbrev InstallationId := String
abbrev PlatformAccountId := String
abbrev AccountSessionId := String
abbrev AccountDeletionId := String
abbrev AccountProofJti := String
abbrev JsonWebKey := Json

inductive PlatformEnvironment
  | development
  | production
  deriving DecidableEq

inductive InstallationKind
  | desktop
  | mobile
  deriving DecidableEq

def InstallationKind.text : InstallationKind → String
  | .desktop => "desktop"
  | .mobile => "mobile"

inductive PresentationPlatform
  | macos
  | windows
  | linux
  | ios
  | android
  deriving DecidableEq

structure InstallationPresentation where
  name : String
  platform : PresentationPlatform

structure GitHubIdentity where
  providerSubject : Nat
  login : String
  avatarUrl : String

inductive LoginAttemptStatus
  | pending
  | authorized
  | used
  deriving DecidableEq

structure LoginAttemptRecord where
  id : LoginAttemptId
  environment : PlatformEnvironment
  identityNamespace : String
  installationId : InstallationId
  installationKind : InstallationKind
  presentation : Option InstallationPresentation
  publicKey : JsonWebKey
  state : String
  codeVerifier : String
  expiresAt : Int
  status : LoginAttemptStatus
  identity : Option GitHubIdentity

structure AccountRecord where
  id : PlatformAccountId
  identityNamespace : String
  githubId : Nat
  githubLogin : String
  avatarUrl : String
  deriving DecidableEq

structure SessionRecord where
  id : AccountSessionId
  identityNamespace : String
  accountId : PlatformAccountId
  installationId : InstallationId
  installationKind : InstallationKind
  presentation : Option InstallationPresentation
  publicKey : JsonWebKey
  revision : Nat
  active : Bool
  refreshHash : String
  refreshExpiresAt : Int

structure CreatedSession where
  session : SessionRecord
  account : AccountRecord
  replacedSessionId : Option AccountSessionId

structure AccountDeletionSuccessor where
  projectId : String
  successorMembershipId : String

structure AccountDeletionCandidate where
  membershipId : String
  accountId : PlatformAccountId
  label : String

structure AccountDeletionProject where
  projectId : String
  name : String
  candidates : List AccountDeletionCandidate

inductive AccountDeletionStatus
  | deleting
  | actionRequired
  | complete
  deriving DecidableEq

structure AccountDeletionRecord where
  operationId : AccountDeletionId
  accountId : PlatformAccountId
  identityNamespace : String
  installationId : InstallationId
  publicKey : JsonWebKey
  recoveryTokenHash : String
  successors : List AccountDeletionSuccessor
  sessionIds : List AccountSessionId
  status : AccountDeletionStatus
  projects : List AccountDeletionProject
  completedAt : Option Int

def AccountDeletionRecord.finish (record : AccountDeletionRecord) (completedAt : Int) :
    AccountDeletionRecord :=
  { record with
    status := .complete
    projects := []
    successors := []
    sessionIds := []
    completedAt := some completedAt }

inductive AccountErrorCode
  | loginAttemptInvalid
  | loginAttemptUsed
  | sessionRevoked
  | quota
  | accountDeleting
  | installationNotFound
  | deletionInvalid
  deriving DecidableEq

structure AccountError where
  code : AccountErrorCode
  message : String
  retryAfter : Option Nat

structure PendingInvalidation where
  identityNamespace : String
  accountId : PlatformAccountId
  installationId : InstallationId

def accountDesktopInstallationLimit : Nat := 10
def accountMobileInstallationLimit : Nat := 10
def openRegistrationHardCapRetryAfterSeconds : Nat := 60

def installationLimit : InstallationKind → Nat
  | .desktop => accountDesktopInstallationLimit
  | .mobile => accountMobileInstallationLimit

def installationQuotaError (kind : InstallationKind) : AccountError where
  code := .quota
  message := s!"Platform Account has reached its {kind.text} installation limit"
  retryAfter := some openRegistrationHardCapRetryAfterSeconds

structure MemoryAccountBackend where
  attempts : OrderedMap LoginAttemptId LoginAttemptRecord
  stateIndex : OrderedMap String LoginAttemptId
  accounts : OrderedMap PlatformAccountId AccountRecord
  accountIndex : OrderedMap String PlatformAccountId
  sessions : OrderedMap AccountSessionId SessionRecord
  refreshIndex : OrderedMap String AccountSessionId
  installationIndex : OrderedMap String AccountSessionId
  proofs : OrderedMap AccountProofJti Int
  deletions : OrderedMap AccountDeletionId AccountDeletionRecord
  pendingMobileInvalidations : OrderedMap AccountSessionId PendingInvalidation

namespace MemoryAccountBackend

def empty : MemoryAccountBackend where
  attempts := .empty
  stateIndex := .empty
  accounts := .empty
  accountIndex := .empty
  sessions := .empty
  refreshIndex := .empty
  installationIndex := .empty
  proofs := .empty
  deletions := .empty
  pendingMobileInvalidations := .empty

def createAttempt (s : MemoryAccountBackend) (record : LoginAttemptRecord) :
    MemoryAccountBackend :=
  { s with
    attempts := s.attempts.set record.id record
    stateIndex := s.stateIndex.set record.state record.id }

def authorizeAttempt (s : MemoryAccountBackend) (id : LoginAttemptId) (identity : GitHubIdentity) :
    Except AccountError Unit × MemoryAccountBackend :=
  match s.attempts.get? id with
  | none => (.error ⟨.loginAttemptUsed, "login attempt is no longer pending", none⟩, s)
  | some attempt =>
    if attempt.status ≠ .pending then
      (.error ⟨.loginAttemptUsed, "login attempt is no longer pending", none⟩, s)
    else
      (.ok (), { s with
        attempts := s.attempts.set id { attempt with status := .authorized, identity := some identity }
        stateIndex := s.stateIndex.delete attempt.state })

def deleting (s : MemoryAccountBackend) (accountId : PlatformAccountId) : Bool :=
  s.deletions.values.any fun record => record.accountId = accountId ∧ record.status ≠ .complete

def live (accountId : PlatformAccountId) (kind : InstallationKind) (session : SessionRecord) :
    Bool :=
  session.active && session.accountId = accountId && session.installationKind = kind

def activeInstallationCount (s : MemoryAccountBackend) (accountId : PlatformAccountId)
    (kind : InstallationKind) : Nat :=
  s.sessions.values.countP (live accountId kind)

def revoke (s : MemoryAccountBackend) (sessionId : AccountSessionId) : MemoryAccountBackend :=
  match s.sessions.get? sessionId with
  | none => s
  | some session =>
    if session.active then
      { s with
        sessions := s.sessions.set sessionId
          { session with active := false, revision := session.revision + 1 }
        refreshIndex := s.refreshIndex.delete session.refreshHash }
    else s

def identityKey (identityNamespace : String) (providerSubject : Nat) : String :=
  s!"{identityNamespace}:{providerSubject}"

def installationKey (identityNamespace : String) (installationId : InstallationId) : String :=
  s!"{identityNamespace}:{installationId}"

def replacedSessionId (s : MemoryAccountBackend) (key : String) : Option AccountSessionId :=
  (s.installationIndex.get? key).filter fun id => (s.sessions.get? id).any SessionRecord.active

def accountOf (attempt : LoginAttemptRecord) (identity : GitHubIdentity)
    (accountId : PlatformAccountId) : AccountRecord where
  id := accountId
  identityNamespace := attempt.identityNamespace
  githubId := identity.providerSubject
  githubLogin := identity.login
  avatarUrl := identity.avatarUrl

def selectAccount (s : MemoryAccountBackend) (attempt : LoginAttemptRecord)
    (identity : GitHubIdentity) (accountUuid : PlatformAccountId) :
    AccountRecord × MemoryAccountBackend :=
  let key := identityKey attempt.identityNamespace identity.providerSubject
  match s.accountIndex.get? key with
  | some accountId =>
    let account := accountOf attempt identity accountId
    (account, { s with accounts := s.accounts.set accountId account })
  | none =>
    let account := accountOf attempt identity accountUuid
    (account, { s with
      accountIndex := s.accountIndex.set key accountUuid
      accounts := s.accounts.set accountUuid account })

def sessionOf (attempt : LoginAttemptRecord) (accountId : PlatformAccountId)
    (refreshHash : String) (refreshExpiresAt : Int) (sessionUuid : AccountSessionId) :
    SessionRecord where
  id := sessionUuid
  identityNamespace := attempt.identityNamespace
  accountId := accountId
  installationId := attempt.installationId
  installationKind := attempt.installationKind
  presentation := attempt.presentation
  publicKey := attempt.publicKey
  revision := 1
  active := true
  refreshHash := refreshHash
  refreshExpiresAt := refreshExpiresAt

def createSession (s : MemoryAccountBackend) (id : LoginAttemptId) (attempt : LoginAttemptRecord)
    (session : SessionRecord) : MemoryAccountBackend :=
  { s with
    sessions := s.sessions.set session.id session
    refreshIndex := s.refreshIndex.set session.refreshHash session.id
    installationIndex := s.installationIndex.set
      (installationKey attempt.identityNamespace attempt.installationId) session.id
    attempts := s.attempts.set id { attempt with status := .used, identity := none } }

def consume (s : MemoryAccountBackend) (id : LoginAttemptId) (attempt : LoginAttemptRecord)
    (identity : GitHubIdentity) (refreshHash : String) (refreshExpiresAt : Int)
    (accountUuid : PlatformAccountId) (sessionUuid : AccountSessionId) :
    Except AccountError CreatedSession × MemoryAccountBackend :=
  let indexed :=
    s.accountIndex.get? (identityKey attempt.identityNamespace identity.providerSubject)
  if indexed.any s.deleting then
    (.error ⟨.accountDeleting, "Account deletion is in progress", none⟩, s)
  else
    let (account, s) := s.selectAccount attempt identity accountUuid
    let session := sessionOf attempt account.id refreshHash refreshExpiresAt sessionUuid
    match s.replacedSessionId
      (installationKey attempt.identityNamespace attempt.installationId) with
    | some replaced =>
      (.ok { session, account, replacedSessionId := some replaced },
        (s.revoke replaced).createSession id attempt session)
    | none =>
      if s.activeInstallationCount account.id attempt.installationKind ≥
          installationLimit attempt.installationKind then
        (.error (installationQuotaError attempt.installationKind), s)
      else
        (.ok { session, account, replacedSessionId := none }, s.createSession id attempt session)

def consumeAuthorizedAttempt (s : MemoryAccountBackend) (id : LoginAttemptId)
    (refreshHash : String) (refreshExpiresAt : Int) (accountUuid : PlatformAccountId)
    (sessionUuid : AccountSessionId) : Except AccountError CreatedSession × MemoryAccountBackend :=
  match s.attempts.get? id with
  | none => (.error ⟨.loginAttemptInvalid, "login attempt is unknown", none⟩, s)
  | some attempt =>
    if attempt.status = .used then
      (.error ⟨.loginAttemptUsed, "login attempt was already consumed", none⟩, s)
    else
      match attempt.status, attempt.identity with
      | .authorized, some identity =>
        s.consume id attempt identity refreshHash refreshExpiresAt accountUuid sessionUuid
      | _, _ => (.error ⟨.loginAttemptInvalid, "login attempt is not authorized", none⟩, s)

def rotateRefresh (s : MemoryAccountBackend) (sessionId : AccountSessionId)
    (expectedHash replacementHash : String) : Option SessionRecord × MemoryAccountBackend :=
  match s.sessions.get? sessionId with
  | none => (none, s)
  | some session =>
    if !session.active || session.refreshHash ≠ expectedHash then (none, s)
    else
      let rotated :=
        { session with refreshHash := replacementHash, revision := session.revision + 1 }
      (some rotated, { s with
        sessions := s.sessions.set sessionId rotated
        refreshIndex := (s.refreshIndex.delete expectedHash).set replacementHash session.id })

def revokeSession (s : MemoryAccountBackend) (sessionId : AccountSessionId) :
    Bool × MemoryAccountBackend :=
  match s.sessions.get? sessionId with
  | none => (false, s)
  | some session => if !session.active then (false, s) else (true, s.revoke sessionId)

def cancelled (current : SessionRecord) (installationId : InstallationId) (account : AccountRecord)
    (attempt : LoginAttemptRecord) : Bool :=
  attempt.identityNamespace = current.identityNamespace ∧
    attempt.installationId = installationId ∧ attempt.status = .authorized ∧
    attempt.identity.map GitHubIdentity.providerSubject = some account.githubId

def cancelAttempts (s : MemoryAccountBackend) (current : SessionRecord)
    (installationId : InstallationId) (account : AccountRecord) : MemoryAccountBackend :=
  { s with
    attempts := s.attempts.mapValues fun attempt =>
      if cancelled current installationId account attempt then
        { attempt with status := .used, identity := none }
      else attempt }

def revokeInstallation (current : SessionRecord) (installationId : InstallationId)
    (s : MemoryAccountBackend) (sessionId : AccountSessionId) : MemoryAccountBackend :=
  let s := s.revoke sessionId
  { s with
    pendingMobileInvalidations := s.pendingMobileInvalidations.set sessionId
      { identityNamespace := current.identityNamespace
        accountId := current.accountId
        installationId } }

def revokeMobileInstallation (s : MemoryAccountBackend) (initiating : SessionRecord)
    (installationId : InstallationId) :
    Except AccountError (List AccountSessionId) × MemoryAccountBackend :=
  if s.deleting initiating.accountId then
    (.error ⟨.accountDeleting, "Account deletion is in progress", none⟩, s)
  else
    match s.sessions.get? initiating.id with
    | none =>
      (.error ⟨.sessionRevoked, "Desktop Account Session changed before removal", none⟩, s)
    | some current =>
      if !current.active || current.revision ≠ initiating.revision ||
          current.accountId ≠ initiating.accountId || current.installationKind ≠ .desktop then
        (.error ⟨.sessionRevoked, "Desktop Account Session changed before removal", none⟩, s)
      else
        let targets := s.sessions.values.filter fun session =>
          live current.accountId .mobile session && session.installationId = installationId
        if targets = [] then
          let pending := s.pendingMobileInvalidations.entries.filter fun entry =>
            entry.2.accountId = current.accountId ∧ entry.2.installationId = installationId
          if pending ≠ [] then (.ok (pending.map Prod.fst), s)
          else (.error ⟨.installationNotFound, "Mobile Installation is unavailable", none⟩, s)
        else
          match s.accounts.get? current.accountId with
          | none => (.error ⟨.sessionRevoked, "Account is unavailable", none⟩, s)
          | some account =>
            let sessionIds := targets.map SessionRecord.id
            (.ok sessionIds,
              sessionIds.foldl (revokeInstallation current installationId)
                (s.cancelAttempts current installationId account))

def completeMobileSessionInvalidation (s : MemoryAccountBackend) (sessionId : AccountSessionId) :
    MemoryAccountBackend :=
  { s with pendingMobileInvalidations := s.pendingMobileInvalidations.delete sessionId }

def beginAccountDeletion (s : MemoryAccountBackend) (record : AccountDeletionRecord)
    (initiating : SessionRecord) :
    Except AccountError AccountDeletionRecord × MemoryAccountBackend :=
  match s.deletions.get? record.operationId with
  | some _ => (.error ⟨.deletionInvalid, "deletion operation already exists", none⟩, s)
  | none =>
    match s.sessions.get? initiating.id with
    | none => (.error ⟨.sessionRevoked, "Account Session changed before deletion", none⟩, s)
    | some current =>
      if !current.active || current.revision ≠ initiating.revision then
        (.error ⟨.sessionRevoked, "Account Session changed before deletion", none⟩, s)
      else
        let sessionIds := (s.sessions.values.filter fun session =>
          session.accountId = record.accountId).map SessionRecord.id
        let accepted := { record with sessionIds }
        let s := sessionIds.foldl revoke s
        (.ok accepted, { s with deletions := s.deletions.set record.operationId accepted })

def saveAccountDeletion (s : MemoryAccountBackend) (record : AccountDeletionRecord) :
    MemoryAccountBackend :=
  { s with deletions := s.deletions.set record.operationId record }

def eraseSession (s : MemoryAccountBackend) (sessionId : AccountSessionId) : MemoryAccountBackend :=
  let s := s.revoke sessionId
  { s with sessions := s.sessions.delete sessionId }

def erased (record : AccountDeletionRecord) (account : Option AccountRecord)
    (installations : List InstallationId) (attempt : LoginAttemptRecord) : Bool :=
  attempt.identityNamespace = record.identityNamespace ∧
    (attempt.installationId ∈ installations ∨
      attempt.identity.map GitHubIdentity.providerSubject = account.map AccountRecord.githubId)

def eraseAttempts (s : MemoryAccountBackend) (record : AccountDeletionRecord)
    (account : Option AccountRecord) (installations : List InstallationId) :
    MemoryAccountBackend :=
  let gone := s.attempts.values.filter (erased record account installations)
  { s with
    stateIndex := gone.foldl (fun index attempt => index.delete attempt.state) s.stateIndex
    attempts := s.attempts.filter fun _ attempt => !erased record account installations attempt }

def completeAccountDeletion (s : MemoryAccountBackend) (id : AccountDeletionId)
    (completedAt : Int) : Except AccountError Unit × MemoryAccountBackend :=
  match s.deletions.get? id with
  | none => (.error ⟨.deletionInvalid, "deletion operation is unavailable", none⟩, s)
  | some record =>
    let account := s.accounts.get? record.accountId
    let accountIndex := match account with
      | some account =>
        s.accountIndex.delete (identityKey account.identityNamespace account.githubId)
      | none => s.accountIndex
    let owned := s.sessions.entries.filter fun entry => entry.2.accountId = record.accountId
    let installations := record.installationId :: owned.map fun entry => entry.2.installationId
    let s := { s with accountIndex, accounts := s.accounts.delete record.accountId }
    let s := (owned.map Prod.fst).foldl eraseSession s
    let s := s.eraseAttempts record account installations
    (.ok (), { s with
      deletions := s.deletions.set id (record.finish completedAt) })

def expireAccountDeletions (s : MemoryAccountBackend) (completedBefore : Int) :
    MemoryAccountBackend :=
  { s with
    deletions := s.deletions.filter fun _ record =>
      !record.completedAt.any fun completedAt => completedAt < completedBefore }

def consumeProof (s : MemoryAccountBackend) (jti : AccountProofJti) (expiresAt now : Int) :
    Bool × MemoryAccountBackend :=
  let proofs := s.proofs.filter fun _ expiry => !decide (expiry < now)
  if proofs.has jti then (false, { s with proofs })
  else (true, { s with proofs := proofs.set jti expiresAt })

end MemoryAccountBackend

inductive BackendOp
  | createAttempt (record : LoginAttemptRecord)
  | authorizeAttempt (id : LoginAttemptId) (identity : GitHubIdentity)
  | consumeAuthorizedAttempt (id : LoginAttemptId) (refreshHash : String) (refreshExpiresAt : Int)
      (accountUuid : PlatformAccountId) (sessionUuid : AccountSessionId)
  | rotateRefresh (sessionId : AccountSessionId) (expectedHash replacementHash : String)
  | revokeSession (sessionId : AccountSessionId)
  | revokeMobileInstallation (initiating : SessionRecord) (installationId : InstallationId)
  | completeMobileSessionInvalidation (sessionId : AccountSessionId)
  | beginAccountDeletion (record : AccountDeletionRecord) (initiating : SessionRecord)
  | saveAccountDeletion (record : AccountDeletionRecord)
  | completeAccountDeletion (id : AccountDeletionId) (completedAt : Int)
  | expireAccountDeletions (completedBefore : Int)
  | consumeProof (jti : AccountProofJti) (expiresAt now : Int)

inductive BackendReply
  | rejected (error : AccountError)
  | done
  | created (result : CreatedSession)
  | rotated (session : Option SessionRecord)
  | revoked (wasActive : Bool)
  | invalidations (sessionIds : List AccountSessionId)
  | deletion (record : AccountDeletionRecord)
  | consumed (isNew : Bool)

def BackendReply.settle {α : Type} (reply : α → BackendReply) : Except AccountError α → BackendReply
  | .ok value => reply value
  | .error error => .rejected error

def MemoryAccountBackend.step (s : MemoryAccountBackend) :
    BackendOp → MemoryAccountBackend × BackendReply
  | .createAttempt record => (s.createAttempt record, .done)
  | .authorizeAttempt id identity =>
    let result := s.authorizeAttempt id identity
    (result.2, .settle (fun _ => .done) result.1)
  | .consumeAuthorizedAttempt id refreshHash refreshExpiresAt accountUuid sessionUuid =>
    let result :=
      s.consumeAuthorizedAttempt id refreshHash refreshExpiresAt accountUuid sessionUuid
    (result.2, .settle .created result.1)
  | .rotateRefresh sessionId expectedHash replacementHash =>
    let result := s.rotateRefresh sessionId expectedHash replacementHash
    (result.2, .rotated result.1)
  | .revokeSession sessionId =>
    let result := s.revokeSession sessionId
    (result.2, .revoked result.1)
  | .revokeMobileInstallation initiating installationId =>
    let result := s.revokeMobileInstallation initiating installationId
    (result.2, .settle .invalidations result.1)
  | .completeMobileSessionInvalidation sessionId =>
    (s.completeMobileSessionInvalidation sessionId, .done)
  | .beginAccountDeletion record initiating =>
    let result := s.beginAccountDeletion record initiating
    (result.2, .settle .deletion result.1)
  | .saveAccountDeletion record => (s.saveAccountDeletion record, .done)
  | .completeAccountDeletion id completedAt =>
    let result := s.completeAccountDeletion id completedAt
    (result.2, .settle (fun _ => .done) result.1)
  | .expireAccountDeletions completedBefore => (s.expireAccountDeletions completedBefore, .done)
  | .consumeProof jti expiresAt now =>
    let result := s.consumeProof jti expiresAt now
    (result.2, .consumed result.1)

end Harness.Account
