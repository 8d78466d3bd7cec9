import Harness.Foundation.Attempt
import Harness.Foundation.Except
import Harness.Foundation.Machine
import Harness.Foundation.OrderedMap
import Harness.Foundation.SafeInteger
import Harness.Foundation.Utf8

namespace Harness.RemoteAccess

open Harness.Foundation

abbrev PairingChallengeId := String
abbrev PairingCompletionId := String
abbrev PendingPairingId := String
abbrev PersonalPairingId := String
abbrev PlatformAccountId := String
abbrev InstallationId := String

def maxOpaqueMessageBytes : Nat := 4096

structure PairingDeviceDescription where
  name : String
  platform : String
  deriving DecidableEq

structure EndpointPairingMailboxChallenge where
  challengeId : PairingChallengeId
  accountId : PlatformAccountId
  desktopInstallationId : InstallationId
  expiresAt : Int
  completionId : Option PairingCompletionId
  pendingPairingId : Option PendingPairingId
  deriving DecidableEq

structure EndpointPairingMailboxPending where
  pendingPairingId : PendingPairingId
  completionId : PairingCompletionId
  challengeId : PairingChallengeId
  accountId : PlatformAccountId
  desktopInstallationId : InstallationId
  mobileInstallationId : InstallationId
  device : PairingDeviceDescription
  expiresAt : Int
  message1 : Bytes
  message2 : Option Bytes
  message3 : Option Bytes
  confirmed : Bool
  rejected : Bool
  pairingId : Option PersonalPairingId
  sealedRelayAuthority : Option Bytes
  settledAt : Option Int
  deriving DecidableEq

structure EndpointOwnedPairingMailboxState where
  challenges : List EndpointPairingMailboxChallenge
  pending : List EndpointPairingMailboxPending
  deriving DecidableEq

inductive DesktopView
  | message1 (message1 : Bytes) (device : PairingDeviceDescription)
  | message3 (message1 message2 message3 : Bytes) (device : PairingDeviceDescription)
  | confirmed (device : PairingDeviceDescription)
  deriving DecidableEq

inductive MobileView
  | awaitingDesktop (pendingPairingId : PendingPairingId)
  | message2 (pendingPairingId : PendingPairingId) (message2 : Bytes)
      (device : PairingDeviceDescription)
  | awaitingAuthority (pendingPairingId : PendingPairingId)
  | rejected (pendingPairingId : PendingPairingId)
  | confirmed (pendingPairingId : PendingPairingId) (pairingId : PersonalPairingId)
      (sealedRelayAuthority : Bytes)
  deriving DecidableEq

inductive MailboxError
  | error (message : String)
  | type (message : String)
  deriving DecidableEq

/-- The completions hold the records of `pending` themselves, here by their identity. -/
structure EndpointOwnedPairingMailbox where
  challenges : OrderedMap PairingChallengeId EndpointPairingMailboxChallenge
  pending : OrderedMap PendingPairingId EndpointPairingMailboxPending
  completions : OrderedMap PairingCompletionId PendingPairingId

structure Message1Input where
  challengeId : PairingChallengeId
  completionId : PairingCompletionId
  accountId : PlatformAccountId
  mobileInstallationId : InstallationId
  device : PairingDeviceDescription
  message1 : Bytes
  now : Int
  /-- What the identity allocator answers. -/
  allocated : PendingPairingId
  deriving DecidableEq

structure Message2Input where
  pendingPairingId : PendingPairingId
  accountId : PlatformAccountId
  desktopInstallationId : InstallationId
  message2 : Bytes
  deriving DecidableEq

structure Message3Input where
  completionId : PairingCompletionId
  accountId : PlatformAccountId
  mobileInstallationId : InstallationId
  message3 : Bytes
  deriving DecidableEq

structure ConfirmInput where
  pendingPairingId : PendingPairingId
  accountId : PlatformAccountId
  desktopInstallationId : InstallationId
  pairingId : PersonalPairingId
  now : Int
  deriving DecidableEq

structure RejectInput where
  pendingPairingId : PendingPairingId
  accountId : PlatformAccountId
  desktopInstallationId : InstallationId
  now : Int
  deriving DecidableEq

structure AuthorityInput where
  pendingPairingId : PendingPairingId
  accountId : PlatformAccountId
  desktopInstallationId : InstallationId
  sealedRelayAuthority : Bytes
  deriving DecidableEq

/-- `fill(0)`. -/
def wipe (bytes : Bytes) : Bytes := bytes.map fun _ => 0

namespace EndpointPairingMailboxPending

def expire (now : Int) (record : EndpointPairingMailboxPending) : EndpointPairingMailboxPending :=
  if !record.confirmed && !record.rejected && decide (record.expiresAt ≤ now) then
    { record with
      rejected := true
      settledAt := some now
      message1 := wipe record.message1
      message2 := record.message2.map wipe
      message3 := record.message3.map wipe }
  else record

def isShed (cutoff : Int) (record : EndpointPairingMailboxPending) : Bool :=
  record.settledAt.any fun settledAt => decide (settledAt ≤ cutoff)

def disable (now : Int) (record : EndpointPairingMailboxPending) : EndpointPairingMailboxPending :=
  { record with
    rejected := true
    settledAt := record.settledAt.or (some now)
    sealedRelayAuthority := none }

def isOwnedBy (record : EndpointPairingMailboxPending) (accountId : PlatformAccountId)
    (desktopInstallationId : InstallationId) : Bool :=
  decide (record.accountId = accountId ∧ record.desktopInstallationId = desktopInstallationId)

end EndpointPairingMailboxPending

abbrev Mailed (α : Type) := Attempt EndpointOwnedPairingMailbox MailboxError α

def mailboxError (message : String) : MailboxError := .error message

def isOpaque (value : Bytes) : Bool :=
  decide (value.length ≠ 0 ∧ value.length ≤ maxOpaqueMessageBytes)

def assertOpaque (value : Bytes) (name : String) : Mailed PUnit :=
  Attempt.guarded (isOpaque value)
    (.type s!"Pairing mailbox {name} must contain 1-{maxOpaqueMessageBytes} bytes")

def assertDesktop (record : EndpointPairingMailboxPending) (accountId : PlatformAccountId)
    (installationId : InstallationId) : Mailed PUnit := do
  Attempt.guarded (decide (record.accountId = accountId))
    (mailboxError "Pairing mailbox account does not match")
  Attempt.guarded (decide (record.desktopInstallationId = installationId))
    (mailboxError "Pairing mailbox Desktop installation does not match")

def assertMobile (record : EndpointPairingMailboxPending) (accountId : PlatformAccountId)
    (installationId : InstallationId) : Mailed PUnit := do
  Attempt.guarded (decide (record.accountId = accountId))
    (mailboxError "Pairing mailbox account does not match")
  Attempt.guarded (decide (record.mobileInstallationId = installationId))
    (mailboxError "Pairing mailbox Mobile installation does not match")

namespace EndpointOwnedPairingMailbox

def empty : EndpointOwnedPairingMailbox := ⟨.empty, .empty, .empty⟩

def completion? (mailbox : EndpointOwnedPairingMailbox) (completionId : PairingCompletionId) :
    Option EndpointPairingMailboxPending :=
  (mailbox.completions.get? completionId).bind mailbox.pending.get?

def found {α : Type} (read : EndpointOwnedPairingMailbox → Option α) (message : String) : Mailed α :=
  fun mailbox =>
    match read mailbox with
    | some value => (.ok value, mailbox)
    | none => (.error (mailboxError message), mailbox)

def change (f : EndpointOwnedPairingMailbox → EndpointOwnedPairingMailbox) : Mailed PUnit :=
  fun mailbox => (.ok ⟨⟩, f mailbox)

def requirePending (pendingPairingId : PendingPairingId) : Mailed EndpointPairingMailboxPending :=
  found (·.pending.get? pendingPairingId) "Pairing pending identity is invalid"

def requireCompletion (completionId : PairingCompletionId) : Mailed EndpointPairingMailboxPending :=
  found (·.completion? completionId) "Pairing completion is invalid"

def written (record : EndpointPairingMailboxPending) (mailbox : EndpointOwnedPairingMailbox) :
    EndpointOwnedPairingMailbox :=
  { mailbox with pending := mailbox.pending.set record.pendingPairingId record }

def write (record : EndpointPairingMailboxPending) : Mailed PUnit := change (written record)

def restoreChallenge (mailbox : EndpointOwnedPairingMailbox)
    (challenge : EndpointPairingMailboxChallenge) :
    Except MailboxError EndpointOwnedPairingMailbox :=
  if mailbox.challenges.has challenge.challengeId then
    .error (mailboxError "Pairing mailbox challenge state collided")
  else
    .ok { mailbox with challenges := mailbox.challenges.set challenge.challengeId challenge }

def restorePending (mailbox : EndpointOwnedPairingMailbox)
    (record : EndpointPairingMailboxPending) : Except MailboxError EndpointOwnedPairingMailbox :=
  if mailbox.pending.has record.pendingPairingId || mailbox.completions.has record.completionId then
    .error (mailboxError "Pairing mailbox pending state collided")
  else
    .ok { mailbox with
      pending := mailbox.pending.set record.pendingPairingId record
      completions := mailbox.completions.set record.completionId record.pendingPairingId }

def construct (state : EndpointOwnedPairingMailboxState) :
    Except MailboxError EndpointOwnedPairingMailbox := do
  let mailbox ← foldOk restoreChallenge empty state.challenges
  foldOk restorePending mailbox state.pending

def exportState (mailbox : EndpointOwnedPairingMailbox) : EndpointOwnedPairingMailboxState :=
  ⟨mailbox.challenges.values, mailbox.pending.values⟩

def createChallenge (input : EndpointPairingMailboxChallenge) : Mailed PUnit := do
  Attempt.guarded (isSafe input.expiresAt && decide (0 < input.expiresAt))
    (.type "Pairing mailbox expiry must be positive")
  let known ← Attempt.ask (·.challenges.has input.challengeId)
  Attempt.guarded (!known) (mailboxError "Pairing challenge id already exists")
  change fun mailbox =>
    { mailbox with challenges := mailbox.challenges.set input.challengeId input }

def openRecord (input : Message1Input) (challenge : EndpointPairingMailboxChallenge) :
    EndpointPairingMailboxPending where
  pendingPairingId := input.allocated
  completionId := input.completionId
  challengeId := input.challengeId
  accountId := input.accountId
  desktopInstallationId := challenge.desktopInstallationId
  mobileInstallationId := input.mobileInstallationId
  device := input.device
  expiresAt := challenge.expiresAt
  message1 := input.message1
  message2 := none
  message3 := none
  confirmed := false
  rejected := false
  pairingId := none
  sealedRelayAuthority := none
  settledAt := none

/-- The end of `submitMessage1`: the challenge names the record, and both maps hold it. -/
def opened (input : Message1Input) (challenge : EndpointPairingMailboxChallenge)
    (mailbox : EndpointOwnedPairingMailbox) : EndpointOwnedPairingMailbox where
  challenges := mailbox.challenges.set input.challengeId
    { challenge with
      completionId := some input.completionId
      pendingPairingId := some input.allocated }
  pending := mailbox.pending.set input.allocated (openRecord input challenge)
  completions := mailbox.completions.set input.completionId input.allocated

def replayMessage1 (input : Message1Input) (replay : EndpointPairingMailboxPending) :
    Mailed PendingPairingId := do
  assertMobile replay input.accountId input.mobileInstallationId
  Attempt.guarded (decide (replay.challengeId = input.challengeId ∧ replay.message1 = input.message1))
    (mailboxError "Pairing message 1 replay is stale")
  pure replay.pendingPairingId

def openPending (input : Message1Input) : Mailed PendingPairingId := do
  let challenge ← found (·.challenges.get? input.challengeId) "Pairing challenge is invalid"
  Attempt.guarded (decide (challenge.accountId = input.accountId))
    (mailboxError "Pairing challenge account does not match")
  Attempt.guarded (decide (input.now ≤ challenge.expiresAt))
    (mailboxError "Pairing challenge expired")
  Attempt.guarded challenge.completionId.isNone (mailboxError "Pairing challenge was already used")
  let collided ← Attempt.ask (·.pending.has input.allocated)
  Attempt.guarded (!collided) (mailboxError "Pairing pending id collided")
  change (opened input challenge)
  pure input.allocated

def submitMessage1 (input : Message1Input) : Mailed PendingPairingId := do
  assertOpaque input.message1 "message 1"
  let replay ← Attempt.ask (·.completion? input.completionId)
  match replay with
  | some replay => replayMessage1 input replay
  | none => openPending input

def desktopView (record : EndpointPairingMailboxPending) : DesktopView :=
  if record.confirmed then .confirmed record.device
  else
    match record.message3, record.message2 with
    | some message3, some message2 => .message3 record.message1 message2 message3 record.device
    | _, _ => .message1 record.message1 record.device

def readDesktop (pendingPairingId : PendingPairingId) (accountId : PlatformAccountId)
    (desktopInstallationId : InstallationId) : Mailed DesktopView := do
  let record ← requirePending pendingPairingId
  assertDesktop record accountId desktopInstallationId
  pure (desktopView record)

def submitMessage2 (input : Message2Input) : Mailed PairingCompletionId := do
  assertOpaque input.message2 "message 2"
  let record ← requirePending input.pendingPairingId
  assertDesktop record input.accountId input.desktopInstallationId
  match record.message2 with
  | some message2 =>
    Attempt.guarded (decide (message2 = input.message2))
      (mailboxError "Pairing message 2 replay is stale")
  | none => write { record with message2 := some input.message2 }
  pure record.completionId

def mobileView (record : EndpointPairingMailboxPending) : MobileView :=
  if record.rejected then .rejected record.pendingPairingId
  else
    match record.sealedRelayAuthority, record.pairingId with
    | some sealedRelayAuthority, some pairingId =>
      .confirmed record.pendingPairingId pairingId sealedRelayAuthority
    | _, _ =>
      if record.confirmed then .awaitingAuthority record.pendingPairingId
      else
        match record.message2 with
        | some message2 => .message2 record.pendingPairingId message2 record.device
        | none => .awaitingDesktop record.pendingPairingId

def readMobile (completionId : PairingCompletionId) (accountId : PlatformAccountId)
    (mobileInstallationId : InstallationId) : Mailed MobileView := do
  let record ← requireCompletion completionId
  assertMobile record accountId mobileInstallationId
  pure (mobileView record)

def submitMessage3 (input : Message3Input) : Mailed PendingPairingId := do
  assertOpaque input.message3 "message 3"
  let record ← requireCompletion input.completionId
  assertMobile record input.accountId input.mobileInstallationId
  Attempt.guarded record.message2.isSome (mailboxError "Pairing message 2 is not available")
  match record.message3 with
  | some message3 =>
    Attempt.guarded (decide (message3 = input.message3))
      (mailboxError "Pairing message 3 replay is stale")
  | none => write { record with message3 := some input.message3 }
  pure record.pendingPairingId

def confirm (input : ConfirmInput) : Mailed PUnit := do
  let record ← requirePending input.pendingPairingId
  assertDesktop record input.accountId input.desktopInstallationId
  Attempt.guarded record.message3.isSome (mailboxError "Pairing message 3 is not available")
  Attempt.guarded (!record.rejected) (mailboxError "Pairing was rejected")
  Attempt.guarded (!(record.confirmed && decide (record.pairingId ≠ some input.pairingId)))
    (mailboxError "Pairing confirmation replay is stale")
  write { record with
    confirmed := true
    pairingId := some input.pairingId
    settledAt := record.settledAt.or (some input.now) }

def cancelChallenge (challengeId : PairingChallengeId) (accountId : PlatformAccountId)
    (desktopInstallationId : InstallationId) : Mailed PUnit := do
  let challenge ← Attempt.ask (·.challenges.get? challengeId)
  match challenge with
  | none => pure ⟨⟩
  | some challenge => do
    Attempt.guarded (decide (challenge.accountId = accountId
      ∧ challenge.desktopInstallationId = desktopInstallationId
      ∧ challenge.pendingPairingId = none))
      (mailboxError "Pairing challenge is invalid or unavailable")
    change fun mailbox => { mailbox with challenges := mailbox.challenges.delete challengeId }

def reject (input : RejectInput) : Mailed PUnit := do
  let record ← requirePending input.pendingPairingId
  assertDesktop record input.accountId input.desktopInstallationId
  Attempt.guarded (!record.confirmed) (mailboxError "Pairing is already confirmed")
  write { record with rejected := true, settledAt := record.settledAt.or (some input.now) }

def deleteCompletions (completions : OrderedMap PairingCompletionId PendingPairingId)
    (records : List EndpointPairingMailboxPending) :
    OrderedMap PairingCompletionId PendingPairingId :=
  records.foldl (fun completions record => completions.delete record.completionId) completions

/-- Each record is expired first, and shed if it has been settled for long enough. -/
def evict (now replayRetentionMs : Int) : Mailed PUnit :=
  change fun mailbox =>
    let cutoff := now - replayRetentionMs
    let pending := mailbox.pending.mapValues (·.expire now)
    { challenges := mailbox.challenges.filter fun _ challenge => !decide (challenge.expiresAt ≤ now)
      pending := pending.filter fun _ record => !record.isShed cutoff
      completions := deleteCompletions mailbox.completions (pending.values.filter (·.isShed cutoff)) }

def disable (accountId : PlatformAccountId) (desktopInstallationId : InstallationId) (now : Int) :
    Mailed PUnit :=
  change fun mailbox =>
    { mailbox with
      challenges := mailbox.challenges.filter fun _ challenge =>
        !decide (challenge.accountId = accountId
          ∧ challenge.desktopInstallationId = desktopInstallationId)
      pending := mailbox.pending.mapValues fun record =>
        if record.isOwnedBy accountId desktopInstallationId then record.disable now else record }

def deliverSealedAuthority (input : AuthorityInput) : Mailed PUnit := do
  assertOpaque input.sealedRelayAuthority "sealed Relay authority"
  let record ← requirePending input.pendingPairingId
  assertDesktop record input.accountId input.desktopInstallationId
  Attempt.guarded record.confirmed (mailboxError "Pairing is not confirmed")
  Attempt.guarded (record.sealedRelayAuthority.all fun held =>
      decide (held = input.sealedRelayAuthority))
    (mailboxError "Sealed Relay authority replay is stale")
  write { record with
    sealedRelayAuthority := record.sealedRelayAuthority.or (some input.sealedRelayAuthority) }

def rebuild : Mailed PUnit := fun mailbox =>
  match construct mailbox.exportState with
  | .ok rebuilt => (.ok ⟨⟩, rebuilt)
  | .error e => (.error e, mailbox)

inductive Op
  | createChallenge (input : EndpointPairingMailboxChallenge)
  | submitMessage1 (input : Message1Input)
  | readDesktop (pendingPairingId : PendingPairingId) (accountId : PlatformAccountId)
      (desktopInstallationId : InstallationId)
  | submitMessage2 (input : Message2Input)
  | readMobile (completionId : PairingCompletionId) (accountId : PlatformAccountId)
      (mobileInstallationId : InstallationId)
  | submitMessage3 (input : Message3Input)
  | confirm (input : ConfirmInput)
  | cancelChallenge (challengeId : PairingChallengeId) (accountId : PlatformAccountId)
      (desktopInstallationId : InstallationId)
  | reject (input : RejectInput)
  | evict (now replayRetentionMs : Int)
  | disable (accountId : PlatformAccountId) (desktopInstallationId : InstallationId) (now : Int)
  | deliverSealedAuthority (input : AuthorityInput)
  | rebuild
  deriving DecidableEq

inductive Reply
  | done
  | pending (pendingPairingId : PendingPairingId)
  | completion (completionId : PairingCompletionId)
  | desktop (view : DesktopView)
  | mobile (view : MobileView)
  deriving DecidableEq

def perform : Op → Mailed Reply
  | .createChallenge input => (fun _ => .done) <$> createChallenge input
  | .submitMessage1 input => .pending <$> submitMessage1 input
  | .readDesktop pendingPairingId accountId desktopInstallationId =>
    .desktop <$> readDesktop pendingPairingId accountId desktopInstallationId
  | .submitMessage2 input => .completion <$> submitMessage2 input
  | .readMobile completionId accountId mobileInstallationId =>
    .mobile <$> readMobile completionId accountId mobileInstallationId
  | .submitMessage3 input => .pending <$> submitMessage3 input
  | .confirm input => (fun _ => .done) <$> confirm input
  | .cancelChallenge challengeId accountId desktopInstallationId =>
    (fun _ => .done) <$> cancelChallenge challengeId accountId desktopInstallationId
  | .reject input => (fun _ => .done) <$> reject input
  | .evict now replayRetentionMs => (fun _ => .done) <$> evict now replayRetentionMs
  | .disable accountId desktopInstallationId now =>
    (fun _ => .done) <$> disable accountId desktopInstallationId now
  | .deliverSealedAuthority input => (fun _ => .done) <$> deliverSealedAuthority input
  | .rebuild => (fun _ => .done) <$> rebuild

end EndpointOwnedPairingMailbox

end Harness.RemoteAccess
