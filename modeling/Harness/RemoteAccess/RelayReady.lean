import Harness.Foundation.KeepGreatest
import Harness.RemoteProtocol.Relay
import Mathlib.Data.Prod.Lex
import Mathlib.Data.String.Basic

namespace Harness.RemoteAccess.RelayReady

open Harness.Foundation
open Harness.RemoteProtocol

structure RelayDirectoryEntry where
  routeId : String
  attachmentId : String
  endpoint : RelayEndpoint
  pairingSelector : Option String
  connectionToken : String
  revision : Nat
  connectedAt : Int
  expiresAt : Int
  deriving DecidableEq

def developmentPairing : String := "development-keyless-pairing"

def isCandidate (own : RelayDirectoryEntry) (now : Int) (peer : RelayDirectoryEntry) : Bool :=
  peer.routeId == own.routeId && peer.endpoint != own.endpoint && decide (now < peer.expiresAt)
    && peer.revision == own.revision
    && (own.pairingSelector == none || peer.pairingSelector == own.pairingSelector
      || peer.pairingSelector == none)

def sharedSelector (own peer : RelayDirectoryEntry) : String :=
  (peer.pairingSelector.or own.pairingSelector).getD developmentPairing

def outranks (selected peer : RelayDirectoryEntry) : Bool :=
  decide (peer.connectedAt < selected.connectedAt)
    || (decide (selected.connectedAt = peer.connectedAt)
      && decide (peer.connectionToken < selected.connectionToken))

def selectPeer (own : RelayDirectoryEntry) (peersBySelector : OrderedMap String RelayDirectoryEntry)
    (peer : RelayDirectoryEntry) : OrderedMap String RelayDirectoryEntry :=
  let pairingSelector := sharedSelector own peer
  match peersBySelector.get? pairingSelector with
  | some selected =>
    if outranks selected peer then peersBySelector else peersBySelector.set pairingSelector peer
  | none => peersBySelector.set pairingSelector peer

def readUIntBE (digest : Bytes) : Nat :=
  (digest.take 6).foldl (fun value byte => value * 256 + byte.toNat) 0

variable (sha256 : Bytes → Bytes)

def connectionGeneration (own peer : RelayDirectoryEntry) (pairingSelector : String) : Nat :=
  let (first, second) :=
    if own.connectionToken ≤ peer.connectionToken then
      (own.connectionToken, peer.connectionToken)
    else (peer.connectionToken, own.connectionToken)
  let text := own.routeId ++ "\x00" ++ pairingSelector ++ "\x00" ++ first ++ "\x00" ++ second
  readUIntBE (sha256 (Utf8.encode text)) + 1

def peersBySelector (own : RelayDirectoryEntry) (entries : List RelayDirectoryEntry) (now : Int) :
    OrderedMap String RelayDirectoryEntry :=
  (entries.filter (isCandidate own now)).foldl (selectPeer own) .empty

def peerDescriptor (own : RelayDirectoryEntry) (pairingSelector : String)
    (peer : RelayDirectoryEntry) : RelayPeerDescriptor where
  attachmentId := peer.attachmentId
  pairingSelector := pairingSelector
  generation := connectionGeneration sha256 own peer pairingSelector

def readyPeers (own : RelayDirectoryEntry) (entries : List RelayDirectoryEntry) (now : Int) :
    List RelayPeerDescriptor :=
  (peersBySelector own entries now).entries.map fun selected =>
    peerDescriptor sha256 own selected.1 selected.2

def relayReady (own : RelayDirectoryEntry) (entries : List RelayDirectoryEntry) (now : Int) :
    RelayMessage :=
  .ready own.routeId own.attachmentId (readyPeers sha256 own entries now)

def relayPeerUpdate (own : RelayDirectoryEntry) (entries : List RelayDirectoryEntry) (now : Int) :
    RelayMessage :=
  .peerUpdate own.routeId own.attachmentId (readyPeers sha256 own entries now)

section Rank

def rank (entry : RelayDirectoryEntry) : ℤ ×ₗ String :=
  toLex (entry.connectedAt, entry.connectionToken)

theorem outranks_iff (selected peer : RelayDirectoryEntry) :
    outranks selected peer = true ↔ rank peer < rank selected := by
  unfold outranks rank
  rw [Prod.Lex.toLex_lt_toLex]
  simp only [Bool.or_eq_true, Bool.and_eq_true, decide_eq_true_eq]
  rw [@eq_comm _ selected.connectedAt]

theorem peersBySelector_eq (own : RelayDirectoryEntry) (entries : List RelayDirectoryEntry)
    (now : Int) :
    peersBySelector own entries now =
      keepGreatest (sharedSelector own) rank (entries.filter (isCandidate own now)) := by
  unfold peersBySelector keepGreatest
  congr 1
  funext kept peer
  unfold selectPeer
  dsimp only
  cases kept.get? (sharedSelector own peer) with
  | none => rfl
  | some selected => simp only [outranks_iff]

theorem rank_injOn {entries : List RelayDirectoryEntry}
    (h : (entries.map RelayDirectoryEntry.connectionToken).Nodup) :
    ∀ a ∈ entries, ∀ b ∈ entries, rank a = rank b → a = b := by
  intro a ha b hb hrank
  have htoken : a.connectionToken = b.connectionToken := congrArg (fun r => (ofLex r).2) hrank
  exact List.inj_on_of_nodup_map h ha hb htoken

end Rank

section Agreement

variable {sha256} {own peer : RelayDirectoryEntry} {now : Int}

theorem isCandidate_iff :
    isCandidate own now peer = true ↔
      peer.routeId = own.routeId ∧ peer.endpoint ≠ own.endpoint ∧ now < peer.expiresAt ∧
        peer.revision = own.revision ∧
        (own.pairingSelector = none ∨ peer.pairingSelector = own.pairingSelector ∨
          peer.pairingSelector = none) := by
  unfold isCandidate
  simp only [Bool.and_eq_true, Bool.or_eq_true, beq_iff_eq, bne_iff_ne, decide_eq_true_eq, ne_eq,
    and_assoc, or_assoc]

theorem sharedSelector_of_named {selector : String} (h : isCandidate own now peer = true)
    (hnamed : own.pairingSelector = some selector ∨ peer.pairingSelector = some selector) :
    sharedSelector own peer = selector := by
  obtain ⟨-, -, -, -, hselector⟩ := isCandidate_iff.mp h
  unfold sharedSelector
  rcases hnamed with hown | hpeer
  · rcases hselector with hnone | hsame | hnone
    · rw [hown] at hnone
      cases hnone
    · rw [hsame, hown]
      rfl
    · rw [hnone, hown]
      rfl
  · rw [hpeer]
    rfl

theorem sharedSelector_of_unnamed (hown : own.pairingSelector = none)
    (hpeer : peer.pairingSelector = none) : sharedSelector own peer = developmentPairing := by
  unfold sharedSelector
  rw [hown, hpeer]
  rfl

theorem sharedSelector_comm {later : Int} (h : isCandidate own now peer = true)
    (hback : isCandidate peer later own = true) :
    sharedSelector own peer = sharedSelector peer own := by
  cases hown : own.pairingSelector with
  | some selector =>
    exact (sharedSelector_of_named h (.inl hown)).trans (sharedSelector_of_named hback (.inr hown)).symm
  | none =>
    cases hpeer : peer.pairingSelector with
    | some selector =>
      exact (sharedSelector_of_named h (.inr hpeer)).trans
        (sharedSelector_of_named hback (.inl hpeer)).symm
    | none =>
      exact (sharedSelector_of_unnamed hown hpeer).trans (sharedSelector_of_unnamed hpeer hown).symm

theorem connectionGeneration_comm (hroute : peer.routeId = own.routeId) (pairingSelector : String) :
    connectionGeneration sha256 own peer pairingSelector =
      connectionGeneration sha256 peer own pairingSelector := by
  unfold connectionGeneration
  rw [hroute]
  rcases lt_trichotomy own.connectionToken peer.connectionToken with hlt | heq | hgt
  · rw [if_pos hlt.le, if_neg (not_le.mpr hlt)]
  · rw [heq]
  · rw [if_neg (not_le.mpr hgt), if_pos hgt.le]

end Agreement

section Projection

variable (own : RelayDirectoryEntry) (entries : List RelayDirectoryEntry) (now : Int)

/-- An attachment that is current for its selector, as another one sees the directory. -/
structure IsCurrent (peer : RelayDirectoryEntry) : Prop where
  listed : peer ∈ entries
  route : peer.routeId = own.routeId
  opposite : peer.endpoint ≠ own.endpoint
  live : now < peer.expiresAt
  revision : peer.revision = own.revision
  selector : own.pairingSelector = none ∨ peer.pairingSelector = own.pairingSelector ∨
    peer.pairingSelector = none
  greatest : ∀ other ∈ entries, isCandidate own now other = true →
    sharedSelector own other = sharedSelector own peer →
    other.connectedAt < peer.connectedAt ∨ other.connectedAt = peer.connectedAt ∧
      other.connectionToken ≤ peer.connectionToken

variable {own entries now} {peer : RelayDirectoryEntry}

theorem IsCurrent.candidate (h : IsCurrent own entries now peer) :
    isCandidate own now peer = true :=
  isCandidate_iff.mpr ⟨h.route, h.opposite, h.live, h.revision, h.selector⟩

theorem rank_le_iff (other peer : RelayDirectoryEntry) :
    rank other ≤ rank peer ↔ other.connectedAt < peer.connectedAt ∨
      other.connectedAt = peer.connectedAt ∧ other.connectionToken ≤ peer.connectionToken := by
  unfold rank
  exact Prod.Lex.toLex_le_toLex

theorem mem_peersBySelector (htokens : (entries.map RelayDirectoryEntry.connectionToken).Nodup)
    {selector : String} :
    (selector, peer) ∈ (peersBySelector own entries now).entries ↔
      sharedSelector own peer = selector ∧ IsCurrent own entries now peer := by
  have hrank := rank_injOn (htokens.sublist (List.filter_sublist.map _) :
    ((entries.filter (isCandidate own now)).map RelayDirectoryEntry.connectionToken).Nodup)
  rw [peersBySelector_eq, mem_keepGreatest hrank]
  simp only [sameKey, List.mem_filter, Set.mem_ofPred_eq, rank_le_iff]
  constructor
  · rintro ⟨⟨⟨hlisted, hcandidate⟩, rfl⟩, hbest⟩
    obtain ⟨hroute, hopposite, hlive, hrevision, hselector⟩ := isCandidate_iff.mp hcandidate
    refine ⟨rfl, hlisted, hroute, hopposite, hlive, hrevision, hselector, ?_⟩
    intro other hother hcandidateOther hshared
    exact hbest other ⟨⟨hother, hcandidateOther⟩, hshared⟩
  · rintro ⟨rfl, hcurrent⟩
    refine ⟨⟨⟨hcurrent.listed, hcurrent.candidate⟩, rfl⟩, ?_⟩
    rintro other ⟨⟨hother, hcandidateOther⟩, hshared⟩
    exact hcurrent.greatest other hother hcandidateOther hshared

/-- The projection of a directory: order-free, one current entry for each selector, and agreed on by
the two sides. -/
theorem relay_projection (sha256 : Bytes → Bytes) (own : RelayDirectoryEntry)
    (entries : List RelayDirectoryEntry) (now : Int)
    (htokens : (entries.map RelayDirectoryEntry.connectionToken).Nodup) :
    (∀ listing, entries.Perm listing →
      (readyPeers sha256 own entries now).Perm (readyPeers sha256 own listing now)) ∧
    ((readyPeers sha256 own entries now).map RelayPeerDescriptor.pairingSelector).Nodup ∧
    (∀ descriptor, descriptor ∈ readyPeers sha256 own entries now ↔
      ∃ peer, IsCurrent own entries now peer ∧
        descriptor = peerDescriptor sha256 own (sharedSelector own peer) peer) ∧
    (∀ candidate ∈ entries, isCandidate own now candidate = true →
      ∃ peer, IsCurrent own entries now peer ∧
        sharedSelector own peer = sharedSelector own candidate) ∧
    (∀ other listing later, IsCurrent own entries now other → IsCurrent other listing later own →
      sharedSelector own other = sharedSelector other own ∧
        (peerDescriptor sha256 own (sharedSelector own other) other).generation =
          (peerDescriptor sha256 other (sharedSelector other own) own).generation) := by
  refine ⟨?_, ?_, ?_, ?_, ?_⟩
  · intro listing hperm
    unfold readyPeers
    rw [peersBySelector_eq, peersBySelector_eq]
    apply List.Perm.map
    apply keepGreatest_perm (hperm.filter _)
    exact rank_injOn (htokens.sublist (List.filter_sublist.map _))
  · have hselectors : (readyPeers sha256 own entries now).map RelayPeerDescriptor.pairingSelector =
        (peersBySelector own entries now).entries.map Prod.fst := by
      rw [readyPeers, List.map_map]
      rfl
    rw [hselectors]
    exact (peersBySelector own entries now).nodup
  · intro descriptor
    unfold readyPeers
    rw [List.mem_map]
    constructor
    · rintro ⟨⟨selector, peer⟩, hmem, rfl⟩
      obtain ⟨rfl, hcurrent⟩ := (mem_peersBySelector htokens).mp hmem
      exact ⟨peer, hcurrent, rfl⟩
    · rintro ⟨peer, hcurrent, rfl⟩
      exact ⟨_, (mem_peersBySelector htokens).mpr ⟨rfl, hcurrent⟩, rfl⟩
  · intro candidate hlisted hcandidate
    have hkeeps := keepGreatest_keeps (sharedSelector own) rank (entries.filter (isCandidate own now))
    rw [← peersBySelector_eq] at hkeeps
    cases hfound : (peersBySelector own entries now).get? (sharedSelector own candidate) with
    | none =>
      have hnone := hkeeps.absent _ hfound
      have hmem : candidate ∈ sameKey (sharedSelector own) (entries.filter (isCandidate own now))
          (sharedSelector own candidate) := ⟨List.mem_filter.mpr ⟨hlisted, hcandidate⟩, rfl⟩
      rw [hnone] at hmem
      exact hmem.elim
    | some peer =>
      obtain ⟨hselector, hcurrent⟩ :=
        (mem_peersBySelector htokens).mp (OrderedMap.mem_entries_iff.mpr hfound)
      exact ⟨peer, hcurrent, hselector⟩
  · intro other listing later hcurrent hback
    have hshared := sharedSelector_comm hcurrent.candidate hback.candidate
    refine ⟨hshared, ?_⟩
    unfold peerDescriptor
    rw [hshared, connectionGeneration_comm hcurrent.route]

theorem relay_projection_pair :
    ∃ peer, IsCurrent ⟨"route", "phone", .mobile, some "pair", "a", 1, 10, 100⟩
        [⟨"route", "phone", .mobile, some "pair", "a", 1, 10, 100⟩,
          ⟨"route", "computer", .desktop, none, "b", 1, 11, 100⟩] 50 peer ∧
      (⟨"computer", "pair", 248535951773579⟩ : RelayPeerDescriptor) =
        peerDescriptor (fun _ => [0xE2, 0x0A, 0xC9, 0x1E, 0x8F, 0x8A, 0x0E, 0x95])
          ⟨"route", "phone", .mobile, some "pair", "a", 1, 10, 100⟩
          (sharedSelector ⟨"route", "phone", .mobile, some "pair", "a", 1, 10, 100⟩ peer) peer := by
  obtain ⟨-, -, hlisted, -, -⟩ := relay_projection
    (fun _ => [0xE2, 0x0A, 0xC9, 0x1E, 0x8F, 0x8A, 0x0E, 0x95])
    ⟨"route", "phone", .mobile, some "pair", "a", 1, 10, 100⟩
    [⟨"route", "phone", .mobile, some "pair", "a", 1, 10, 100⟩,
      ⟨"route", "computer", .desktop, none, "b", 1, 11, 100⟩] 50 (by decide +kernel)
  exact (hlisted _).mp (by decide +kernel)

end Projection

end Harness.RemoteAccess.RelayReady
