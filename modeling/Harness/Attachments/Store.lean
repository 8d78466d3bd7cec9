import Harness.Foundation.Machine
import Harness.Foundation.OrderedMap
import Harness.Foundation.SafeInteger

namespace Harness.Attachments

open Harness.Foundation

abbrev Capability := Nat

abbrev PersonalPairingId := Nat

structure Config where
  maxBlobBytes : Nat
  capabilityLifetimeMs : Nat
  maxRetainedBlobs : Nat

structure StoredEntry where
  pairingId : PersonalPairingId
  ciphertext : List UInt8
  expiresAt : Nat
  quota : Option Nat
  deriving DecidableEq, Repr

structure Publishing where
  entry : StoredEntry
  sweep : Nat
  deriving DecidableEq, Repr

structure Consumption where
  capability : Capability
  entry : StoredEntry
  settled : Bool
  deriving DecidableEq, Repr

structure Sweep where
  now : Nat
  final : Bool
  deriving DecidableEq, Repr

inductive StoreEvent
  | inspected (capability : Capability) (pairingId : PersonalPairingId) (now : Nat)
      (ciphertext : List UInt8)
  | claimed (capability : Capability) (pairingId : PersonalPairingId) (now : Nat)
      (ciphertext : List UInt8)
  | completed (capability : Capability)
  | revoked (capability : Capability)
  | expired (capability : Capability)
  | disposed
  | released (reservation : Nat)
  deriving DecidableEq, Repr

structure AttachmentStore where
  entries : OrderedMap Capability StoredEntry
  publishing : OrderedMap Nat Publishing
  consumptions : List Consumption
  published : Nat
  handed : List Nat
  sweeps : List Sweep
  sweeping : Bool
  swept : Nat
  disposals : List Nat
  disposed : Bool
  closed : Bool
  issued : OrderedMap Capability StoredEntry
  log : List StoreEvent

inductive StoreOp
  | publish (pairingId : PersonalPairingId) (ciphertext : List UInt8) (now : Nat)
      (lease : Option Int)
  | publishOn (id : Nat) (capability : Capability)
  | inspect (pairingId : PersonalPairingId) (capability : Capability) (now : Nat)
  | consume (pairingId : PersonalPairingId) (capability : Capability) (now : Nat)
  | complete (index : Nat)
  | abandon (index : Nat) (now : Nat)
  | revoke (pairingId : PersonalPairingId) (capability : Capability)
  | tick (now : Nat)
  | sweep
  | sweepOn
  | dispose
  | disposeOn (index : Nat)

/-- `entry.quota?.release()`. -/
def releaseOf (quota : Option Nat) : List StoreEvent :=
  quota.toList.map .released

namespace AttachmentStore

def empty : AttachmentStore where
  entries := .empty
  publishing := .empty
  consumptions := []
  published := 0
  handed := []
  sweeps := []
  sweeping := false
  swept := 0
  disposals := []
  disposed := false
  closed := false
  issued := .empty
  log := []

variable (config : Config) (state : AttachmentStore)

def queueSweep (sweep : Sweep) : AttachmentStore :=
  { state with sweeps := state.sweeps ++ [sweep] }

def shortLease (lease : Option Int) (expiresAt : Nat) : Bool :=
  match lease with
  | some leased => !isSafe leased || decide (leased < expiresAt)
  | none => false

def publish (pairingId : PersonalPairingId) (ciphertext : List UInt8) (now : Nat)
    (lease : Option Int) : AttachmentStore :=
  let id := state.published
  let quota := lease.map fun _ => id
  let expiresAt := now + config.capabilityLifetimeMs
  let called := { state with published := id + 1, handed := state.handed ++ quota.toList }
  if ciphertext.length = 0 ∨ config.maxBlobBytes < ciphertext.length
      ∨ shortLease lease expiresAt = true then
    { called with log := state.log ++ releaseOf quota }
  else
    { called with
      publishing := state.publishing.set id
        ⟨⟨pairingId, ciphertext, expiresAt, quota⟩, state.swept + state.sweeps.length⟩
      sweeps := state.sweeps ++ [⟨now, false⟩] }

def publishOn (id : Nat) (capability : Capability) : Option AttachmentStore :=
  match state.publishing.get? id with
  | none => none
  | some publishing =>
    if state.swept ≤ publishing.sweep ∨ state.issued.has capability = true then none
    else
      let rest := state.publishing.delete id
      if config.maxRetainedBlobs ≤ state.entries.size then
        some { state with
          publishing := rest
          log := state.log ++ releaseOf publishing.entry.quota }
      else
        some { state with
          publishing := rest
          entries := state.entries.set capability publishing.entry
          issued := state.issued.set capability publishing.entry }

def requireEntry (pairingId : PersonalPairingId) (capability : Capability) : Option StoredEntry :=
  (state.entries.get? capability).filter fun entry => decide (entry.pairingId = pairingId)

def expire (capability : Capability) (entry : StoredEntry) : AttachmentStore :=
  { state with
    entries := state.entries.delete capability
    log := state.log ++ .expired capability :: releaseOf entry.quota }

def inspect (pairingId : PersonalPairingId) (capability : Capability) (now : Nat) : AttachmentStore :=
  match state.requireEntry pairingId capability with
  | none => state
  | some entry =>
    if entry.expiresAt ≤ now then state.expire capability entry
    else
      { state with log := state.log ++ [.inspected capability pairingId now entry.ciphertext] }

def consume (pairingId : PersonalPairingId) (capability : Capability) (now : Nat) : AttachmentStore :=
  match state.requireEntry pairingId capability with
  | none => state
  | some entry =>
    if entry.expiresAt ≤ now then state.expire capability entry
    else
      { state with
        entries := state.entries.delete capability
        consumptions := state.consumptions ++ [⟨capability, entry, false⟩]
        log := state.log ++ [.claimed capability pairingId now entry.ciphertext] }

def settle (index : Nat) (consumption : Consumption) : AttachmentStore :=
  { state with consumptions := state.consumptions.set index { consumption with settled := true } }

def complete (index : Nat) : Option AttachmentStore :=
  match state.consumptions[index]? with
  | none => none
  | some consumption =>
    if consumption.settled = true then some state
    else
      some { state.settle index consumption with
        log := state.log ++ .completed consumption.capability :: releaseOf consumption.entry.quota }

def abandon (index : Nat) (now : Nat) : Option AttachmentStore :=
  match state.consumptions[index]? with
  | none => none
  | some consumption =>
    if consumption.settled = true then some state
    else if now < consumption.entry.expiresAt then
      some { state.settle index consumption with
        entries := state.entries.set consumption.capability consumption.entry }
    else
      some { state.settle index consumption with
        log := state.log ++ .expired consumption.capability :: releaseOf consumption.entry.quota }

def revocation (pairingId : PersonalPairingId) (capability : Capability) : List StoreEvent :=
  if (state.issued.get? capability).any (fun entry => decide (entry.pairingId = pairingId)) = true then
    [.revoked capability]
  else []

def revoke (pairingId : PersonalPairingId) (capability : Capability) : AttachmentStore :=
  match state.entries.get? capability with
  | none => { state with log := state.log ++ state.revocation pairingId capability }
  | some entry =>
    if entry.pairingId ≠ pairingId then state
    else
      { state with
        entries := state.entries.delete capability
        log := state.log ++ state.revocation pairingId capability ++ releaseOf entry.quota }

def sweep : Option AttachmentStore :=
  match state.sweeps with
  | [] => none
  | next :: _ =>
    if state.sweeping = true then none
    else
      let expired := state.entries.entries.filter fun entry => decide (entry.2.expiresAt ≤ next.now)
      some { state with
        entries := state.entries.filter fun _ entry => !decide (entry.expiresAt ≤ next.now)
        sweeping := true
        closed := state.closed || next.final
        log := state.log ++ expired.map (fun entry => .expired entry.1) ++
          expired.flatMap fun entry => releaseOf entry.2.quota }

def sweepOn : Option AttachmentStore :=
  match state.sweeps with
  | [] => none
  | done :: rest =>
    if state.sweeping = false then none
    else
      some { state with
        sweeps := rest
        sweeping := false
        swept := state.swept + 1
        log := state.log ++ if done.final then [.disposed] else [] }

def dispose : AttachmentStore :=
  { state with
    disposed := true
    disposals := state.disposals ++ [state.swept + state.sweeps.length] }

def disposeOn (index : Nat) : Option AttachmentStore :=
  match state.disposals[index]? with
  | none => none
  | some awaited =>
    if state.swept < awaited then none
    else
      some { state with
        disposals := state.disposals.eraseIdx index
        sweeps := state.sweeps ++ [⟨maxSafeInteger.toNat, true⟩] }

end AttachmentStore

def AttachmentStore.step (config : Config) (state : AttachmentStore) :
    StoreOp → Option AttachmentStore
  | .publish pairingId ciphertext now lease =>
    some (state.publish config pairingId ciphertext now lease)
  | .publishOn id capability => state.publishOn config id capability
  | .inspect pairingId capability now => some (state.inspect pairingId capability now)
  | .consume pairingId capability now => some (state.consume pairingId capability now)
  | .complete index => state.complete index
  | .abandon index now => state.abandon index now
  | .revoke pairingId capability => some (state.revoke pairingId capability)
  | .tick now => if state.disposed = true then none else some (state.queueSweep ⟨now, false⟩)
  | .sweep => state.sweep
  | .sweepOn => state.sweepOn
  | .dispose => some state.dispose
  | .disposeOn index => state.disposeOn index

end Harness.Attachments
