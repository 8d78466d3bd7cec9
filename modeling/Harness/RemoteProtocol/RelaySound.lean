import Harness.RemoteProtocol.Relay
import Mathlib.Data.List.Dedup

namespace Harness.RemoteProtocol

open Harness.Foundation
open Harness.Foundation.JsonData (Same named property)

def IsPublicKey (key : String) : Prop :=
  64 ≤ key.length ∧ key.length ≤ 256 ∧ matchesIdentifierPattern key = true ∧
    ∃ bytes, key = encodeProtocolBase64Url bytes ∧ bytes.length ≤ 192

def IsPositiveSafe (n : Int) : Prop := isSafe n = true ∧ 0 < n

structure RelayAttachIdentity.Valid (identity : RelayAttachIdentity) : Prop where
  routeId : isIdentifier identity.routeId = true
  attachmentId : isIdentifier identity.attachmentId = true
  credentialPublicKey : IsPublicKey identity.credentialPublicKey

structure RelayPeerDescriptor.Valid (peer : RelayPeerDescriptor) : Prop where
  attachmentId : isIdentifier peer.attachmentId = true
  pairingSelector : isIdentifier peer.pairingSelector = true
  generation : IsPositiveSafe peer.generation

structure ValidPeers (peers : List RelayPeerDescriptor) : Prop where
  peer : ∀ peer ∈ peers, peer.Valid
  selectors : (peers.map (·.pairingSelector)).Nodup
  attachmentIds : (peers.map (·.attachmentId)).Nodup
  admitted : peers.length ≤ Limits.containerValues

def RelayMessage.Valid : RelayMessage → Prop
  | .attachChallenge identity => identity.Valid
  | .attachChallengeResponse identity challengeId nonce expiresAt =>
    identity.Valid ∧ isIdentifier challengeId = true ∧ nonce.length ≤ 32 ∧ IsPositiveSafe expiresAt
  | .attach identity challengeId nonce expiresAt signature =>
    identity.Valid ∧ isIdentifier challengeId = true ∧ nonce.length ≤ 32 ∧
      IsPositiveSafe expiresAt ∧ signature.length ≤ 96
  | .ciphertext routeId sourceAttachmentId targetAttachmentId bytes =>
    isIdentifier routeId = true ∧ isIdentifier sourceAttachmentId = true ∧
      isIdentifier targetAttachmentId = true ∧ bytes.length ≤ Limits.ciphertextBytes
  | .heartbeat attachmentId sentAt => isIdentifier attachmentId = true ∧ IsPositiveSafe sentAt
  | .peerUpdate routeId attachmentId peers =>
    isIdentifier routeId = true ∧ isIdentifier attachmentId = true ∧ ValidPeers peers
  | .ready routeId attachmentId peers =>
    isIdentifier routeId = true ∧ isIdentifier attachmentId = true ∧ ValidPeers peers
  | .revoke routeId attachmentId _ =>
    isIdentifier routeId = true ∧ isIdentifier attachmentId = true
  | .error _ retryAfterMs => ∀ n ∈ retryAfterMs, IsPositiveSafe n

section Fields

variable {value : Option JsonData} {name s key : String} {n : Int}

theorem parseIdentifier_ok :
    parseIdentifier value name = .ok s ↔ value = some (.text s) ∧ isIdentifier s = true := by
  rw [← JsonData.bind_text?_eq_some]
  unfold parseIdentifier
  constructor
  · intro h
    split at h
    · rename_i found hfound
      split at h
      · rename_i hid
        cases h
        exact ⟨hfound, hid⟩
      · exact absurd h invalid_ne_ok
    · exact absurd h invalid_ne_ok
  · rintro ⟨hvalue, hid⟩
    rw [hvalue]
    exact if_pos hid

theorem bind_int?_eq_some : value.bind JsonData.int? = some n ↔ value = some (.int n) := by
  cases value with
  | none => exact iff_of_false nofun nofun
  | some value => rw [Option.bind_some, JsonData.int?_eq_some, Option.some.injEq]

theorem positiveSafeInteger_ok :
    positiveSafeInteger value name = .ok n ↔ value = some (.int n) ∧ IsPositiveSafe n := by
  rw [← bind_int?_eq_some]
  unfold positiveSafeInteger
  constructor
  · intro h
    split at h
    · rename_i m hm
      split at h
      · rename_i hsafe
        cases h
        exact ⟨hm, hsafe⟩
      · exact absurd h invalid_ne_ok
    · exact absurd h invalid_ne_ok
  · rintro ⟨hvalue, hsafe⟩
    rw [hvalue]
    exact if_pos hsafe

theorem parseRelayCredentialPublicKey_ok :
    parseRelayCredentialPublicKey value = .ok key ↔ value = some (.text key) ∧ IsPublicKey key := by
  unfold parseRelayCredentialPublicKey
  constructor
  · intro h
    split at h
    · rename_i s hvalue
      split at h
      · exact absurd h invalid_ne_ok
      · rename_i hshape
        rw [not_or, not_or, Nat.not_lt, Nat.not_lt, Bool.not_eq_false] at hshape
        obtain ⟨bytes, hbytes, hkey⟩ := bind_eq_ok.mp h
        cases hkey
        obtain ⟨heq, hlength⟩ := decodeProtocolBase64Url_ok.mp hbytes
        have hbase := JsonData.bind_text?_eq_some.mpr heq
        rw [hvalue, Option.some.injEq] at hbase
        exact ⟨JsonData.bind_text?_eq_some.mp hvalue, hshape.1, hshape.2.1, hshape.2.2, bytes, hbase,
          hlength⟩
    · exact absurd h invalid_ne_ok
  · rintro ⟨hvalue, hmin, hmax, hpattern, bytes, hbytes, hlength⟩
    rw [JsonData.bind_text?_eq_some.mpr hvalue]
    dsimp only
    rw [if_neg, decodeProtocolBase64Url_ok.mpr ⟨by rw [hvalue, ← hbytes], hlength⟩]
    · rfl
    · rw [hpattern]
      simp only [Bool.true_eq_false, or_false, not_or]
      omega

theorem labelled_some {α : Type} {all : List α} {text : α → String} {a : α}
    (h : labelled all text value = some a) : value = some (.text (text a)) := by
  obtain ⟨s, hvalue, hfound⟩ := Option.bind_eq_some_iff.mp h
  have hsame := List.find?_some hfound
  rw [decide_eq_true_eq] at hsame
  rw [hsame]
  exact JsonData.bind_text?_eq_some.mp hvalue

theorem labelled_text {α : Type} {all : List α} {text : α → String} {a : α}
    (h : all.find? (fun other => decide (text other = text a)) = some a) :
    labelled all text (some (.text (text a))) = some a := by
  rw [labelled, JsonData.bind_text?_eq_some.mpr rfl, Option.bind_some]
  exact h

theorem orInvalid_ok {α : Type} {found : Option α} {message : String} {a : α} :
    orInvalid found message = .ok a ↔ found = some a := by
  cases found with
  | none => exact ⟨nofun, nofun⟩
  | some b => exact ⟨fun h => by cases h; rfl, fun h => by cases h; rfl⟩

theorem object_ok {value : JsonData} {fields : List (Units × JsonData)} :
    object value name = .ok fields ↔ value = .object fields := by
  unfold object
  split
  · exact ⟨fun h => by cases h; rfl, fun h => by cases h; rfl⟩
  · rename_i hno
    exact ⟨nofun, fun h => absurd h (hno fields)⟩

theorem labelled_endpoint (endpoint : RelayEndpoint) :
    labelled relayEndpoints RelayEndpoint.text (some (.text endpoint.text)) = some endpoint :=
  labelled_text (by cases endpoint <;> rfl)

theorem labelled_reason (reason : RelayRevokeReason) :
    labelled relayRevokeReasons RelayRevokeReason.text (some (.text reason.text)) = some reason :=
  labelled_text (by cases reason <;> rfl)

theorem labelled_code (code : RelayErrorCode) :
    labelled relayErrorCodes RelayErrorCode.text (some (.text code.text)) = some code :=
  labelled_text (by cases code <;> rfl)

end Fields

/-- The record has the data under the key. -/
def Shows (record : List (Units × JsonData)) (key : String) (value : JsonData) : Prop :=
  ∃ found, property record key = some found ∧ Same found value

theorem shows_eq {record : List (Units × JsonData)} {key : String} {value : JsonData}
    (h : property record key = some value) : Shows record key value :=
  ⟨_, h, .refl value⟩

theorem exactKeys_ok {record : List (Units × JsonData)} {keys : List String} {name : String}
    {u : Unit} : exactKeys record keys name = .ok u ↔
      record.length = keys.length ∧ ∀ field ∈ record, field.1 ∈ keys.map Utf16.encode := by
  unfold exactKeys
  split
  · rename_i hno
    refine ⟨nofun, fun h => ?_⟩
    rcases hno with hlength | hany
    · exact absurd h.1 hlength
    · obtain ⟨field, hmem, hkey⟩ := List.any_eq_true.mp hany
      exact absurd (h.2 field hmem) (of_decide_eq_true hkey)
  · rename_i hyes
    rw [not_or, not_not] at hyes
    refine ⟨fun _ => ⟨hyes.1, fun field hmem => ?_⟩, fun _ => rfl⟩
    by_contra hkey
    exact hyes.2 (List.any_eq_true.mpr ⟨field, hmem, decide_eq_true hkey⟩)

/-- The record has the keys of the message and its data. -/
structure Spells (record : List (Units × JsonData)) (expected : List (String × JsonData)) :
    Prop where
  keys : (record.map Prod.fst).Perm ((named expected).map Prod.fst)
  same : Same (.object record) (.object (named expected))

theorem Spells.of_exactKeys {record : List (Units × JsonData)} {expected : List (String × JsonData)}
    {keys : List String} {name : String} {u : Unit} (h : exactKeys record keys name = .ok u)
    (hkeys : expected.map Prod.fst = keys) (hnodup : keys.Nodup)
    (hshows : ∀ field ∈ expected, Shows record field.1 field.2) : Spells record expected := by
  subst hkeys
  obtain ⟨hlength, hmem⟩ := exactKeys_ok.mp h
  rw [← JsonData.map_fst_named] at hmem
  have hdistinct : ((named expected).map Prod.fst).Nodup := by
    rw [JsonData.map_fst_named]
    exact hnodup.map Utf16.encode_injective
  have hsub : (named expected).map Prod.fst ⊆ record.map Prod.fst := by
    intro key hkey
    rw [JsonData.map_fst_named, List.map_map] at hkey
    obtain ⟨field, hfield, rfl⟩ := List.mem_map.mp hkey
    obtain ⟨found, hfound, -⟩ := hshows field hfield
    exact List.mem_map.mpr ⟨_, JsonData.mem_of_lookup hfound, rfl⟩
  have hperm : ((named expected).map Prod.fst).Perm (record.map Prod.fst) := by
    apply (List.subperm_of_subset hdistinct hsub).perm_of_length_le
    rw [JsonData.map_fst_named, List.length_map, List.length_map, List.length_map, hlength,
      List.length_map]
  refine ⟨hperm.symm, .object hperm.symm ?_⟩
  intro key a b ha hb
  obtain ⟨field, hfield, heq⟩ := List.mem_map.mp hb
  cases heq
  obtain ⟨found, hfound, hsame⟩ := hshows field hfield
  have hrecord := JsonData.lookup_of_nodup (hperm.nodup_iff.mp hdistinct) ha
  rw [property, hrecord] at hfound
  cases hfound
  exact hsame

section Accepted

variable {record : List (Units × JsonData)}

theorem decodeRelayAttachIdentity_ok {identity : RelayAttachIdentity} :
    decodeRelayAttachIdentity record = .ok identity ↔
      identity.Valid ∧ property record "routeId" = some (.text identity.routeId) ∧
        property record "attachmentId" = some (.text identity.attachmentId) ∧
        labelled relayEndpoints RelayEndpoint.text (property record "endpoint") =
          some identity.endpoint ∧
        property record "credentialPublicKey" = some (.text identity.credentialPublicKey) := by
  unfold decodeRelayAttachIdentity
  constructor
  · intro h
    obtain ⟨endpoint, hendpoint, h⟩ := bind_eq_ok.mp h
    obtain ⟨routeId, hroute, h⟩ := bind_eq_ok.mp h
    obtain ⟨attachmentId, hattachment, h⟩ := bind_eq_ok.mp h
    obtain ⟨key, hkey, h⟩ := bind_eq_ok.mp h
    cases h
    obtain ⟨hrouteField, hrouteValid⟩ := parseIdentifier_ok.mp hroute
    obtain ⟨hattachmentField, hattachmentValid⟩ := parseIdentifier_ok.mp hattachment
    obtain ⟨hkeyField, hkeyValid⟩ := parseRelayCredentialPublicKey_ok.mp hkey
    exact ⟨⟨hrouteValid, hattachmentValid, hkeyValid⟩, hrouteField, hattachmentField,
      orInvalid_ok.mp hendpoint, hkeyField⟩
  · rintro ⟨⟨hroute, hattachment, hkey⟩, hrouteField, hattachmentField, hendpoint, hkeyField⟩
    rw [orInvalid_ok.mpr hendpoint, ok_bind, parseRelayRouteId,
      parseIdentifier_ok.mpr ⟨hrouteField, hroute⟩, ok_bind, parseRelayAttachmentId,
      parseIdentifier_ok.mpr ⟨hattachmentField, hattachment⟩, ok_bind,
      parseRelayCredentialPublicKey_ok.mpr ⟨hkeyField, hkey⟩]
    rfl

theorem shows_identity {identity : RelayAttachIdentity}
    (h : decodeRelayAttachIdentity record = .ok identity) :
    ∀ field ∈ identity.fields, Shows record field.1 field.2 := by
  obtain ⟨-, hroute, hattachment, hendpoint, hkey⟩ := decodeRelayAttachIdentity_ok.mp h
  unfold RelayAttachIdentity.fields
  simp only [List.forall_mem_cons]
  exact ⟨shows_eq hroute, shows_eq hattachment, shows_eq (labelled_some hendpoint),
    shows_eq hkey, List.forall_mem_nil _⟩

theorem decodePeer_ok {name : String} {value : JsonData} {peer : RelayPeerDescriptor}
    (h : decodePeer name value = .ok peer) :
    peer.Valid ∧ Same value (.object (named peer.fields)) := by
  unfold decodePeer at h
  obtain ⟨record, hrecord, h⟩ := bind_eq_ok.mp h
  obtain ⟨u, hkeys, h⟩ := bind_eq_ok.mp h
  obtain ⟨attachmentId, hattachment, h⟩ := bind_eq_ok.mp h
  obtain ⟨pairingSelector, hselector, h⟩ := bind_eq_ok.mp h
  obtain ⟨generation, hgeneration, h⟩ := bind_eq_ok.mp h
  cases h
  obtain rfl := object_ok.mp hrecord
  obtain ⟨hattachmentField, hattachmentValid⟩ := parseIdentifier_ok.mp hattachment
  obtain ⟨hselectorField, hselectorValid⟩ := parseIdentifier_ok.mp hselector
  obtain ⟨hgenerationField, hgenerationValid⟩ := positiveSafeInteger_ok.mp hgeneration
  refine ⟨⟨hattachmentValid, hselectorValid, hgenerationValid⟩, ?_⟩
  refine (Spells.of_exactKeys hkeys rfl (by decide) ?_).same
  simp only [RelayPeerDescriptor.fields, List.forall_mem_cons]
  exact ⟨shows_eq hattachmentField, shows_eq hselectorField, shows_eq hgenerationField,
    List.forall_mem_nil _⟩

theorem peerItems_ok {name : String} {items : List JsonData} :
    peerItems record name = .ok items ↔ property record "peers" = some (.array items) := by
  unfold peerItems
  split
  · rename_i heq
    rw [heq]
    exact ⟨fun h => by cases h; rfl, fun h => by cases h; rfl⟩
  · rename_i hno
    exact ⟨nofun, fun h => absurd h (hno items)⟩

theorem same_peersJson {name : String} {items : List JsonData} {peers : List RelayPeerDescriptor}
    (h : List.Forall₂ (fun item peer => decodePeer name item = .ok peer) items peers) :
    Same (.array items) (peersJson peers) := by
  refine .array (List.forall₂_map_right_iff.mpr (h.imp ?_))
  exact fun item peer hpeer => (decodePeer_ok hpeer).2

theorem nodup_of_dedup {α : Type} [DecidableEq α] {l : List α} (h : l.dedup.length = l.length) :
    l.Nodup := by
  rw [← List.dedup_eq_self]
  exact (List.dedup_sublist l).eq_of_length h

structure Reads (record : List (Units × JsonData)) (message : RelayMessage) : Prop where
  valid : message.Valid
  spells : Spells record message.fields

theorem shows_header {type : String}
    (htype : (property record "type").bind JsonData.text? = some type)
    (hversion : (property record "transportVersion").bind JsonData.int? = some 1) :
    ∀ field ∈ header type, Shows record field.1 field.2 := by
  simp only [header, List.forall_mem_cons]
  exact ⟨shows_eq (JsonData.bind_text?_eq_some.mp htype),
    shows_eq (bind_int?_eq_some.mp hversion), List.forall_mem_nil _⟩

theorem decodePeerProjection_ok {name type : String} {message : RelayMessage}
    {projection : String → String → List RelayPeerDescriptor → RelayMessage}
    (htype : (property record "type").bind JsonData.text? = some type)
    (hversion : (property record "transportVersion").bind JsonData.int? = some 1)
    (hsmall : ∀ items, property record "peers" = some (.array items) →
      items.length ≤ Limits.containerValues)
    (hfields : ∀ routeId attachmentId peers, (projection routeId attachmentId peers).fields =
      header type ++ [("routeId", .text routeId), ("attachmentId", .text attachmentId),
        ("peers", peersJson peers)])
    (hvalid : ∀ routeId attachmentId peers, (projection routeId attachmentId peers).Valid ↔
      isIdentifier routeId = true ∧ isIdentifier attachmentId = true ∧ ValidPeers peers)
    (h : decodePeerProjection record projection name = .ok message) : Reads record message := by
  unfold decodePeerProjection at h
  obtain ⟨u, hkeys, h⟩ := bind_eq_ok.mp h
  obtain ⟨items, hitems, h⟩ := bind_eq_ok.mp h
  have hpeersField := peerItems_ok.mp hitems
  obtain ⟨peers, hpeers, h⟩ := bind_eq_ok.mp h
  split at h
  · exact absurd h invalid_ne_ok
  · rename_i hdistinct
    rw [not_or, not_not, not_not] at hdistinct
    obtain ⟨routeId, hroute, h⟩ := bind_eq_ok.mp h
    obtain ⟨attachmentId, hattachment, h⟩ := bind_eq_ok.mp h
    cases h
    obtain ⟨hrouteField, hrouteValid⟩ := parseIdentifier_ok.mp hroute
    obtain ⟨hattachmentField, hattachmentValid⟩ := parseIdentifier_ok.mp hattachment
    have hall := mapM_eq_ok.mp hpeers
    constructor
    · rw [hvalid]
      refine ⟨hrouteValid, hattachmentValid, ?_, ?_, ?_, ?_⟩
      · intro peer hpeer
        obtain ⟨item, -, hitem⟩ := mapM_mem_of_result hpeers hpeer
        exact (decodePeer_ok hitem).1
      · exact nodup_of_dedup (hdistinct.1.trans (List.length_map _).symm)
      · exact nodup_of_dedup (hdistinct.2.trans (List.length_map _).symm)
      · rw [← hall.length_eq]
        exact hsmall items hpeersField
    · rw [hfields]
      refine Spells.of_exactKeys hkeys rfl (by decide) ?_
      rw [List.forall_mem_append]
      refine ⟨shows_header htype hversion, ?_⟩
      simp only [List.forall_mem_cons]
      exact ⟨shows_eq hrouteField, shows_eq hattachmentField,
        ⟨_, hpeersField, same_peersJson hall⟩, List.forall_mem_nil _⟩

theorem decodeRelayRecord_ok {message : RelayMessage}
    (hversion : (property record "transportVersion").bind JsonData.int? = some 1)
    (hsmall : ∀ items, property record "peers" = some (.array items) →
      items.length ≤ Limits.containerValues)
    (h : decodeRelayRecord record = .ok message) : Reads record message := by
  unfold decodeRelayRecord at h
  split at h
  · rename_i htype
    obtain ⟨u, hkeys, h⟩ := bind_eq_ok.mp h
    obtain ⟨identity, hidentity, h⟩ := bind_eq_ok.mp h
    cases h
    refine ⟨(decodeRelayAttachIdentity_ok.mp hidentity).1, ?_⟩
    refine Spells.of_exactKeys hkeys rfl (by decide) ?_
    rw [RelayMessage.fields, List.forall_mem_append]
    exact ⟨shows_header htype hversion, shows_identity hidentity⟩
  · rename_i htype
    obtain ⟨u, hkeys, h⟩ := bind_eq_ok.mp h
    obtain ⟨identity, hidentity, h⟩ := bind_eq_ok.mp h
    obtain ⟨challengeId, hchallenge, h⟩ := bind_eq_ok.mp h
    obtain ⟨nonce, hnonce, h⟩ := bind_eq_ok.mp h
    obtain ⟨expiresAt, hexpires, h⟩ := bind_eq_ok.mp h
    cases h
    obtain ⟨hchallengeField, hchallengeValid⟩ := parseIdentifier_ok.mp hchallenge
    obtain ⟨hnonceField, hnonceValid⟩ := decodeProtocolBase64Url_ok.mp hnonce
    obtain ⟨hexpiresField, hexpiresValid⟩ := positiveSafeInteger_ok.mp hexpires
    refine ⟨⟨(decodeRelayAttachIdentity_ok.mp hidentity).1, hchallengeValid, hnonceValid,
      hexpiresValid⟩, ?_⟩
    refine Spells.of_exactKeys hkeys rfl (by decide) ?_
    rw [RelayMessage.fields, List.forall_mem_append, List.forall_mem_append]
    refine ⟨⟨shows_header htype hversion, shows_identity hidentity⟩, ?_⟩
    simp only [List.forall_mem_cons]
    exact ⟨shows_eq hchallengeField, shows_eq hnonceField, shows_eq hexpiresField,
      List.forall_mem_nil _⟩
  · rename_i htype
    obtain ⟨u, hkeys, h⟩ := bind_eq_ok.mp h
    obtain ⟨identity, hidentity, h⟩ := bind_eq_ok.mp h
    obtain ⟨challengeId, hchallenge, h⟩ := bind_eq_ok.mp h
    obtain ⟨nonce, hnonce, h⟩ := bind_eq_ok.mp h
    obtain ⟨expiresAt, hexpires, h⟩ := bind_eq_ok.mp h
    obtain ⟨signature, hsignature, h⟩ := bind_eq_ok.mp h
    cases h
    obtain ⟨hchallengeField, hchallengeValid⟩ := parseIdentifier_ok.mp hchallenge
    obtain ⟨hnonceField, hnonceValid⟩ := decodeProtocolBase64Url_ok.mp hnonce
    obtain ⟨hexpiresField, hexpiresValid⟩ := positiveSafeInteger_ok.mp hexpires
    obtain ⟨hsignatureField, hsignatureValid⟩ := decodeProtocolBase64Url_ok.mp hsignature
    refine ⟨⟨(decodeRelayAttachIdentity_ok.mp hidentity).1, hchallengeValid, hnonceValid,
      hexpiresValid, hsignatureValid⟩, ?_⟩
    refine Spells.of_exactKeys hkeys rfl (by decide) ?_
    rw [RelayMessage.fields, List.forall_mem_append, List.forall_mem_append]
    refine ⟨⟨shows_header htype hversion, shows_identity hidentity⟩, ?_⟩
    simp only [List.forall_mem_cons]
    exact ⟨shows_eq hchallengeField, shows_eq hnonceField, shows_eq hexpiresField,
      shows_eq hsignatureField, List.forall_mem_nil _⟩
  · rename_i htype
    obtain ⟨u, hkeys, h⟩ := bind_eq_ok.mp h
    obtain ⟨routeId, hroute, h⟩ := bind_eq_ok.mp h
    obtain ⟨source, hsource, h⟩ := bind_eq_ok.mp h
    obtain ⟨target, htarget, h⟩ := bind_eq_ok.mp h
    obtain ⟨bytes, hbytes, h⟩ := bind_eq_ok.mp h
    cases h
    obtain ⟨hrouteField, hrouteValid⟩ := parseIdentifier_ok.mp hroute
    obtain ⟨hsourceField, hsourceValid⟩ := parseIdentifier_ok.mp hsource
    obtain ⟨htargetField, htargetValid⟩ := parseIdentifier_ok.mp htarget
    obtain ⟨hbytesField, hbytesValid⟩ := decodeProtocolBase64Url_ok.mp hbytes
    refine ⟨⟨hrouteValid, hsourceValid, htargetValid, hbytesValid⟩, ?_⟩
    refine Spells.of_exactKeys hkeys rfl (by decide) ?_
    rw [RelayMessage.fields, List.forall_mem_append]
    refine ⟨shows_header htype hversion, ?_⟩
    simp only [List.forall_mem_cons]
    exact ⟨shows_eq hrouteField, shows_eq hsourceField, shows_eq htargetField,
      shows_eq hbytesField, List.forall_mem_nil _⟩
  · rename_i htype
    obtain ⟨u, hkeys, h⟩ := bind_eq_ok.mp h
    obtain ⟨attachmentId, hattachment, h⟩ := bind_eq_ok.mp h
    obtain ⟨sentAt, hsent, h⟩ := bind_eq_ok.mp h
    cases h
    obtain ⟨hattachmentField, hattachmentValid⟩ := parseIdentifier_ok.mp hattachment
    obtain ⟨hsentField, hsentValid⟩ := positiveSafeInteger_ok.mp hsent
    refine ⟨⟨hattachmentValid, hsentValid⟩, ?_⟩
    refine Spells.of_exactKeys hkeys rfl (by decide) ?_
    rw [RelayMessage.fields, List.forall_mem_append]
    refine ⟨shows_header htype hversion, ?_⟩
    simp only [List.forall_mem_cons]
    exact ⟨shows_eq hattachmentField, shows_eq hsentField, List.forall_mem_nil _⟩
  · rename_i htype
    exact decodePeerProjection_ok htype hversion hsmall (fun _ _ _ => rfl) (fun _ _ _ => Iff.rfl) h
  · rename_i htype
    exact decodePeerProjection_ok htype hversion hsmall (fun _ _ _ => rfl) (fun _ _ _ => Iff.rfl) h
  · rename_i htype
    obtain ⟨u, hkeys, h⟩ := bind_eq_ok.mp h
    obtain ⟨reason, hreason, h⟩ := bind_eq_ok.mp h
    obtain ⟨routeId, hroute, h⟩ := bind_eq_ok.mp h
    obtain ⟨attachmentId, hattachment, h⟩ := bind_eq_ok.mp h
    cases h
    obtain ⟨hrouteField, hrouteValid⟩ := parseIdentifier_ok.mp hroute
    obtain ⟨hattachmentField, hattachmentValid⟩ := parseIdentifier_ok.mp hattachment
    have hreasonField := labelled_some (orInvalid_ok.mp hreason)
    refine ⟨⟨hrouteValid, hattachmentValid⟩, ?_⟩
    refine Spells.of_exactKeys hkeys rfl (by decide) ?_
    rw [RelayMessage.fields, List.forall_mem_append]
    refine ⟨shows_header htype hversion, ?_⟩
    simp only [List.forall_mem_cons]
    exact ⟨shows_eq hrouteField, shows_eq hattachmentField, shows_eq hreasonField,
      List.forall_mem_nil _⟩
  · rename_i htype
    split at h
    · obtain ⟨u, hkeys, h⟩ := bind_eq_ok.mp h
      obtain ⟨code, hcode, h⟩ := bind_eq_ok.mp h
      cases h
      refine ⟨fun n heq => absurd heq (Option.some_ne_none n).symm, ?_⟩
      refine Spells.of_exactKeys hkeys rfl (by decide) ?_
      rw [RelayMessage.fields, List.forall_mem_append]
      refine ⟨shows_header htype hversion, ?_⟩
      simp only [List.forall_mem_cons]
      exact ⟨shows_eq (labelled_some (orInvalid_ok.mp hcode)), List.forall_mem_nil _⟩
    · rename_i value hvalue
      obtain ⟨u, hkeys, h⟩ := bind_eq_ok.mp h
      obtain ⟨code, hcode, h⟩ := bind_eq_ok.mp h
      obtain ⟨retryAfterMs, hretry, h⟩ := bind_eq_ok.mp h
      cases h
      obtain ⟨hretryField, hretryValid⟩ := positiveSafeInteger_ok.mp hretry
      refine ⟨?_, ?_⟩
      · rintro _ ⟨⟩
        exact hretryValid
      · refine Spells.of_exactKeys hkeys rfl (by decide) ?_
        rw [RelayMessage.fields, List.forall_mem_append]
        refine ⟨shows_header htype hversion, ?_⟩
        simp only [List.forall_mem_cons]
        exact ⟨shows_eq (labelled_some (orInvalid_ok.mp hcode)),
          shows_eq (hvalue.trans hretryField), List.forall_mem_nil _⟩
  · exact absurd h invalid_ne_ok

end Accepted

section Sent

variable {depth width values : Nat}

/-- The value passes the limits at its depth, and is read as it was; its text and the values in it are
bounded. -/
structure Fits (depth : Nat) (value : JsonData) (width values : Nat) : Prop where
  allowed : Allowed depth value
  plain : value.Plain
  wellFormed : value.WellFormed
  width : value.width ≤ width
  values : value.count ≤ values

structure FieldsFit (depth : Nat) (fields : List (String × JsonData)) (width values : Nat) : Prop where
  allowed : AllowedFields depth (named fields)
  plain : JsonData.PlainFields (named fields)
  wellFormed : JsonData.WellFormedFields (named fields)
  width : JsonData.widthFields (named fields) ≤ width
  values : JsonData.countFields (named fields) ≤ values

theorem fieldsFit_nil : FieldsFit depth [] 0 0 :=
  ⟨trivial, trivial, trivial, Nat.le_refl _, Nat.le_refl _⟩

theorem FieldsFit.cons (key : String) {value : JsonData} {fields : List (String × JsonData)}
    {rest others : Nat} (hkey : JsonData.isPlain key = true) (hvalue : Fits depth value width values)
    (hfields : FieldsFit depth fields rest others) :
    FieldsFit depth ((key, value) :: fields) (key.length + width + 4 + rest) (values + others) := by
  refine ⟨⟨hvalue.allowed, hfields.allowed⟩, ⟨⟨key, rfl, hkey⟩, hvalue.plain, hfields.plain⟩,
    ⟨hvalue.wellFormed, hfields.wellFormed⟩, ?_, ?_⟩
  · have hwidth := hvalue.width
    have hrest := hfields.width
    have hlength := JsonData.length_encode hkey
    change (Utf16.encode key).length + value.width + 4 + JsonData.widthFields (named fields) ≤ _
    omega
  · exact Nat.add_le_add hvalue.values hfields.values

theorem FieldsFit.object {fields : List (String × JsonData)}
    (h : FieldsFit (depth + 1) fields width values) (hdepth : depth < Limits.parserDepth)
    (hlength : (named fields).length ≤ Limits.containerValues)
    (hkeys : JsonData.inOrder (fields.map Prod.fst) = true) :
    Fits depth (.object (named fields)) (width + 2) (values + 1) :=
  ⟨⟨hdepth, hlength, h.allowed⟩, h.plain, JsonData.wellFormed_named hkeys h.wellFormed,
    Nat.add_le_add_right h.width 2, Nat.succ_le_succ h.values⟩

theorem Fits.mono {value : JsonData} {more others : Nat} (h : Fits depth value width values)
    (hwidth : width ≤ more) (hvalues : values ≤ others) : Fits depth value more others :=
  ⟨h.allowed, h.plain, h.wellFormed, h.width.trans hwidth, h.values.trans hvalues⟩

theorem fits_text {s : String} (hplain : JsonData.isPlain s = true) (hlength : s.length ≤ width)
    (hbytes : width ≤ Limits.stringBytes) : Fits depth (.text s) (width + 2) 1 := by
  refine ⟨?_, ⟨s, rfl, hplain⟩, trivial, ?_, Nat.le_refl _⟩
  · rw [Allowed, JsonData.byteLength_plain hplain]
    exact hlength.trans hbytes
  · rw [JsonData.width, JsonData.length_encode hplain]
    exact Nat.add_le_add_right hlength 2

theorem fits_int {n : Int} (h : IsPositiveSafe n) : Fits depth (.int n) 16 1 := by
  obtain ⟨hsafe, hpos⟩ := h
  obtain ⟨m, rfl⟩ := Int.eq_ofNat_of_zero_le (Int.le_of_lt hpos)
  have hle := isSafe_iff.mp hsafe
  have hprint := JsonData.print_nat 16 (show m < 10 ^ 16 by omega) (by decide) (by decide) (by omega)
  refine ⟨?_, hprint.2, ⟨_, rfl, Double.round_int (by omega)⟩, hprint.1, Nat.le_refl _⟩
  rw [Allowed]
  exact JsonData.isSafeInteger_iff.mpr ⟨m, rfl, hsafe⟩

theorem matchesIdentifierPattern_plain {s : String} (h : matchesIdentifierPattern s = true) :
    JsonData.isPlain s = true :=
  isPlain_of_isUrlChar (Bool.and_eq_true_iff.mp h).2

theorem fits_identifier {s : String} (h : isIdentifier s = true) : Fits depth (.text s) 130 1 := by
  obtain ⟨hlength, hpattern⟩ := Bool.and_eq_true_iff.mp h
  exact fits_text (matchesIdentifierPattern_plain hpattern) (of_decide_eq_true hlength) (by decide)

theorem fits_publicKey {s : String} (h : IsPublicKey s) : Fits depth (.text s) 258 1 :=
  fits_text (matchesIdentifierPattern_plain h.2.2.1) h.2.1 (by decide)

theorem fits_bytes {bytes : Bytes} {bound : Nat} (h : bytes.length ≤ bound)
    (hbound : (bound * 4 + 2) / 3 ≤ Limits.stringBytes) :
    Fits depth (.text (encodeProtocolBase64Url bytes)) ((bound * 4 + 2) / 3 + 2) 1 := by
  refine fits_text (isPlain_of_isUrlChar (all_isUrlChar_encode bytes)) ?_ hbound
  rw [length_encodeProtocolBase64Url]
  omega

theorem Fits.array {items : List JsonData} (most : Nat)
    (h : ∀ item ∈ items, Fits (depth + 1) item width values)
    (hdepth : depth < Limits.parserDepth) (hlength : items.length ≤ most)
    (hmost : most ≤ Limits.containerValues) :
    Fits depth (.array items) (most * (width + 1) + 2) (most * values + 1) := by
  have hitems : AllowedItems (depth + 1) items ∧ JsonData.PlainItems items ∧
      JsonData.widthItems items ≤ items.length * (width + 1) ∧
        JsonData.countItems items ≤ items.length * values := by
    clear hlength
    induction items with
    | nil => exact ⟨trivial, trivial, Nat.zero_le _, Nat.zero_le _⟩
    | cons item items ih =>
      rw [List.forall_mem_cons] at h
      obtain ⟨hallowed, hplain, hwidth, hcount⟩ := ih h.2
      refine ⟨⟨h.1.allowed, hallowed⟩, ⟨h.1.plain, hplain⟩, ?_, ?_⟩
      · rw [JsonData.widthItems, List.length_cons, Nat.succ_mul, Nat.add_comm]
        exact Nat.add_le_add hwidth (Nat.succ_le_succ h.1.width)
      · rw [JsonData.countItems, List.length_cons, Nat.succ_mul, Nat.add_comm]
        exact Nat.add_le_add hcount h.1.values
  obtain ⟨hallowed, hplain, hwidth, hcount⟩ := hitems
  refine ⟨⟨hdepth, hlength.trans hmost, hallowed⟩, hplain,
    JsonData.wellFormedItems_of_mem fun item hitem => (h item hitem).wellFormed, ?_, ?_⟩
  · exact Nat.add_le_add_right (hwidth.trans (Nat.mul_le_mul_right _ hlength)) 2
  · exact Nat.succ_le_succ (hcount.trans (Nat.mul_le_mul_right _ hlength))

theorem fits_peer {peer : RelayPeerDescriptor} (h : peer.Valid) :
    Fits 2 (.object (named peer.fields)) 327 4 := by
  have hfields : FieldsFit 3 peer.fields _ _ :=
    .cons "attachmentId" (by decide) (fits_identifier h.attachmentId)
      (.cons "pairingSelector" (by decide) (fits_identifier h.pairingSelector)
        (.cons "generation" (by decide) (fits_int h.generation) fieldsFit_nil))
  have hkeys : JsonData.inOrder ["attachmentId", "pairingSelector", "generation"] = true := by decide
  exact (hfields.object (by decide) (Nat.le_of_ble_eq_true rfl) hkeys).mono (by decide) (by decide)

theorem fits_peers {peers : List RelayPeerDescriptor} (h : ValidPeers peers) :
    Fits 1 (peersJson peers) 83970 1025 := by
  have hitems : ∀ item ∈ peers.map (fun peer => JsonData.object (named peer.fields)), Fits 2 item 327 4 := by
    intro item hitem
    obtain ⟨peer, hpeer, rfl⟩ := List.mem_map.mp hitem
    exact fits_peer (h.peer peer hpeer)
  refine Fits.array 256 hitems (by decide) ?_ (by decide)
  rw [List.length_map]
  exact h.admitted

theorem noFields : FieldsFit 1 [] 0 0 := fieldsFit_nil

theorem FieldsFit.header {type : String} {fields : List (String × JsonData)}
    (h : FieldsFit 1 fields width values) (htype : JsonData.isPlain type = true)
    (hlength : type.length ≤ 30) : FieldsFit 1 (header type ++ fields) (76 + width) (2 + values) := by
  have hfields := FieldsFit.cons "type" (by decide) (fits_text htype hlength (by decide))
    (h.cons "transportVersion" (by decide) (fits_int ⟨rfl, Int.one_pos⟩))
  refine ⟨hfields.allowed, hfields.plain, hfields.wellFormed, hfields.width.trans ?_, hfields.values.trans ?_⟩
  · rw [show "type".length = 4 from rfl, show "transportVersion".length = 16 from rfl]
    omega
  · omega

theorem FieldsFit.identity {identity : RelayAttachIdentity} {fields : List (String × JsonData)}
    (h : FieldsFit 1 fields width values) (hidentity : identity.Valid) :
    FieldsFit 1 (identity.fields ++ fields) (589 + width) (4 + values) := by
  have hendpoint : JsonData.isPlain identity.endpoint.text = true ∧ identity.endpoint.text.length ≤ 7 := by
    cases identity.endpoint <;> decide
  have hfields := FieldsFit.cons "routeId" (by decide) (fits_identifier hidentity.routeId)
    (.cons "attachmentId" (by decide) (fits_identifier hidentity.attachmentId)
      (.cons "endpoint" (by decide) (fits_text hendpoint.1 hendpoint.2 (by decide))
        (.cons "credentialPublicKey" (by decide) (fits_publicKey hidentity.credentialPublicKey) h)))
  refine ⟨hfields.allowed, hfields.plain, hfields.wellFormed, hfields.width.trans ?_, hfields.values.trans ?_⟩
  · rw [show "routeId".length = 7 from rfl, show "attachmentId".length = 12 from rfl,
      show "endpoint".length = 8 from rfl, show "credentialPublicKey".length = 19 from rfl]
    omega
  · omega

theorem inOrder_fields (message : RelayMessage) :
    JsonData.inOrder (message.fields.map Prod.fst) = true := by
  cases message with
  | attachChallenge identity => exact (by decide : JsonData.inOrder identityKeys = true)
  | attachChallengeResponse identity challengeId nonce expiresAt =>
    exact (by decide : JsonData.inOrder (identityKeys ++ ["challengeId", "nonce", "expiresAt"]) = true)
  | attach identity challengeId nonce expiresAt signature =>
    exact (by decide : JsonData.inOrder
      (identityKeys ++ ["challengeId", "nonce", "expiresAt", "signature"]) = true)
  | ciphertext routeId source target bytes =>
    exact (by decide : JsonData.inOrder ["type", "transportVersion", "routeId", "sourceAttachmentId",
      "targetAttachmentId", "ciphertext"] = true)
  | heartbeat attachmentId sentAt =>
    exact (by decide : JsonData.inOrder ["type", "transportVersion", "attachmentId", "sentAt"] = true)
  | peerUpdate routeId attachmentId peers =>
    exact (by decide : JsonData.inOrder
      ["type", "transportVersion", "routeId", "attachmentId", "peers"] = true)
  | ready routeId attachmentId peers =>
    exact (by decide : JsonData.inOrder
      ["type", "transportVersion", "routeId", "attachmentId", "peers"] = true)
  | revoke routeId attachmentId reason =>
    exact (by decide : JsonData.inOrder
      ["type", "transportVersion", "routeId", "attachmentId", "reason"] = true)
  | error code retryAfterMs =>
    cases retryAfterMs with
    | none => exact (by decide : JsonData.inOrder ["type", "transportVersion", "code"] = true)
    | some n =>
      exact (by decide : JsonData.inOrder ["type", "transportVersion", "code", "retryAfterMs"] = true)

theorem FieldsFit.message {message : RelayMessage} (h : FieldsFit 1 message.fields width values)
    (hwidth : width + 2 ≤ Limits.relayMessageBytes) (hvalues : values + 1 ≤ Limits.totalEncodedValues) :
    Fits 0 (.object (named message.fields)) Limits.relayMessageBytes Limits.totalEncodedValues := by
  have hlength : (named message.fields).length ≤ Limits.containerValues := by
    cases message with
    | error _ retryAfterMs => cases retryAfterMs <;> exact Nat.le_of_ble_eq_true rfl
    | _ => exact Nat.le_of_ble_eq_true rfl
  exact (h.object (by decide) hlength (inOrder_fields message)).mono hwidth hvalues

theorem fits_message {message : RelayMessage} (h : message.Valid) :
    Fits 0 (.object (named message.fields)) Limits.relayMessageBytes Limits.totalEncodedValues := by
  cases message with
  | attachChallenge identity =>
    have hfields := ((noFields.identity h).header (by decide) (by decide) :
      FieldsFit 1 (header "attach-challenge" ++ (identity.fields ++ [])) _ _)
    rw [List.append_nil] at hfields
    exact FieldsFit.message hfields (by decide) (by decide)
  | attachChallengeResponse identity challengeId nonce expiresAt =>
    obtain ⟨hidentity, hchallenge, hnonce, hexpires⟩ := h
    have hrest := FieldsFit.cons "challengeId" (by decide) (fits_identifier hchallenge)
      (.cons "nonce" (by decide) (fits_bytes hnonce (by decide))
        (.cons "expiresAt" (by decide) (fits_int hexpires) noFields))
    have hfields := ((hrest.identity hidentity).header (by decide) (by decide) :
      FieldsFit 1 (header "attach-challenge-response" ++ _) _ _)
    rw [← List.append_assoc] at hfields
    exact FieldsFit.message hfields (by decide) (by decide)
  | attach identity challengeId nonce expiresAt signature =>
    obtain ⟨hidentity, hchallenge, hnonce, hexpires, hsignature⟩ := h
    have hrest := FieldsFit.cons "challengeId" (by decide) (fits_identifier hchallenge)
      (.cons "nonce" (by decide) (fits_bytes hnonce (by decide))
        (.cons "expiresAt" (by decide) (fits_int hexpires)
          (.cons "signature" (by decide) (fits_bytes hsignature (by decide)) noFields)))
    have hfields := ((hrest.identity hidentity).header (by decide) (by decide) :
      FieldsFit 1 (header "attach" ++ _) _ _)
    rw [← List.append_assoc] at hfields
    exact FieldsFit.message hfields (by decide) (by decide)
  | ciphertext routeId source target bytes =>
    obtain ⟨hroute, hsource, htarget, hbytes⟩ := h
    have hrest := FieldsFit.cons "routeId" (by decide) (fits_identifier hroute)
      (.cons "sourceAttachmentId" (by decide) (fits_identifier hsource)
        (.cons "targetAttachmentId" (by decide) (fits_identifier htarget)
          (.cons "ciphertext" (by decide) (fits_bytes hbytes (by decide)) noFields)))
    have hfields := (hrest.header (by decide) (by decide) :
      FieldsFit 1 (header "ciphertext" ++ _) _ _)
    exact FieldsFit.message hfields (by decide) (by decide)
  | heartbeat attachmentId sentAt =>
    obtain ⟨hattachment, hsent⟩ := h
    have hrest := FieldsFit.cons "attachmentId" (by decide) (fits_identifier hattachment)
      (.cons "sentAt" (by decide) (fits_int hsent) noFields)
    have hfields := (hrest.header (by decide) (by decide) :
      FieldsFit 1 (header "heartbeat" ++ _) _ _)
    exact FieldsFit.message hfields (by decide) (by decide)
  | peerUpdate routeId attachmentId peers =>
    obtain ⟨hroute, hattachment, hpeers⟩ := h
    have hrest := FieldsFit.cons "routeId" (by decide) (fits_identifier hroute)
      (.cons "attachmentId" (by decide) (fits_identifier hattachment)
        (.cons "peers" (by decide) (fits_peers hpeers) noFields))
    have hfields := (hrest.header (by decide) (by decide) :
      FieldsFit 1 (header "peer-update" ++ _) _ _)
    exact FieldsFit.message hfields (by decide) (by decide)
  | ready routeId attachmentId peers =>
    obtain ⟨hroute, hattachment, hpeers⟩ := h
    have hrest := FieldsFit.cons "routeId" (by decide) (fits_identifier hroute)
      (.cons "attachmentId" (by decide) (fits_identifier hattachment)
        (.cons "peers" (by decide) (fits_peers hpeers) noFields))
    have hfields := (hrest.header (by decide) (by decide) : FieldsFit 1 (header "ready" ++ _) _ _)
    exact FieldsFit.message hfields (by decide) (by decide)
  | revoke routeId attachmentId reason =>
    obtain ⟨hroute, hattachment⟩ := h
    have hreason : JsonData.isPlain reason.text = true ∧ reason.text.length ≤ 8 := by
      cases reason <;> decide
    have hrest := FieldsFit.cons "routeId" (by decide) (fits_identifier hroute)
      (.cons "attachmentId" (by decide) (fits_identifier hattachment)
        (.cons "reason" (by decide) (fits_text hreason.1 hreason.2 (by decide)) noFields))
    have hfields := (hrest.header (by decide) (by decide) : FieldsFit 1 (header "revoke" ++ _) _ _)
    exact FieldsFit.message hfields (by decide) (by decide)
  | error code retryAfterMs =>
    have hcode : JsonData.isPlain code.text = true ∧ code.text.length ≤ 28 := by
      cases code <;> decide
    cases retryAfterMs with
    | none =>
      have hrest := FieldsFit.cons "code" (by decide) (fits_text hcode.1 hcode.2 (by decide))
        noFields
      have hfields := (hrest.header (by decide) (by decide) : FieldsFit 1 (header "error" ++ _) _ _)
      exact FieldsFit.message hfields (by decide) (by decide)
    | some n =>
      have hrest := FieldsFit.cons "code" (by decide) (fits_text hcode.1 hcode.2 (by decide))
        (.cons "retryAfterMs" (by decide) (fits_int (h n rfl)) noFields)
      have hfields := (hrest.header (by decide) (by decide) : FieldsFit 1 (header "error" ++ _) _ _)
      exact FieldsFit.message hfields (by decide) (by decide)

end Sent

section Read

variable {record : List (Units × JsonData)} {fields : List (String × JsonData)} {name s : String}

theorem exactKeys_named {keys : List String} (hrecord : record = named fields)
    (h : fields.map Prod.fst = keys) : exactKeys record keys name = .ok () := by
  subst hrecord h
  refine exactKeys_ok.mpr ⟨by rw [named, List.length_map, List.length_map], fun field hfield => ?_⟩
  rw [← JsonData.map_fst_named]
  exact List.mem_map_of_mem hfield

theorem property_reads (key : String) {value : Option JsonData} (hrecord : record = named fields)
    (h : fields.lookup key = value) : property record key = value := by
  rw [hrecord, JsonData.property_named, h]

theorem type_reads (hrecord : record = named fields)
    (h : fields.lookup "type" = some (.text s)) :
    (property record "type").bind JsonData.text? = some s :=
  JsonData.bind_text?_eq_some.mpr (property_reads "type" hrecord h)

theorem identifier_reads (key : String) (hrecord : record = named fields)
    (h : fields.lookup key = some (.text s)) (hs : isIdentifier s = true) :
    parseIdentifier (property record key) name = .ok s :=
  parseIdentifier_ok.mpr ⟨property_reads key hrecord h, hs⟩

theorem bytes_reads (key : String) {bytes : Bytes} {bound : Nat} (hrecord : record = named fields)
    (h : fields.lookup key = some (.text (encodeProtocolBase64Url bytes)))
    (hbytes : bytes.length ≤ bound) :
    decodeProtocolBase64Url (property record key) bound name = .ok bytes :=
  decodeProtocolBase64Url_ok.mpr ⟨property_reads key hrecord h, hbytes⟩

theorem integer_reads (key : String) {n : Int} (hrecord : record = named fields)
    (h : fields.lookup key = some (.int n)) (hn : IsPositiveSafe n) :
    positiveSafeInteger (property record key) name = .ok n :=
  positiveSafeInteger_ok.mpr ⟨property_reads key hrecord h, hn⟩

theorem label_reads {α : Type} {all : List α} {text : α → String} {a : α} (key : String)
    (hrecord : record = named fields) (h : fields.lookup key = some (.text (text a)))
    (ha : labelled all text (some (.text (text a))) = some a) :
    orInvalid (labelled all text (property record key)) name = .ok a := by
  rw [property_reads key hrecord h, orInvalid_ok, ha]

theorem identity_reads {identity : RelayAttachIdentity} (hrecord : record = named fields)
    (hroute : fields.lookup "routeId" = some (.text identity.routeId))
    (hattachment : fields.lookup "attachmentId" = some (.text identity.attachmentId))
    (hendpoint : fields.lookup "endpoint" = some (.text identity.endpoint.text))
    (hkey : fields.lookup "credentialPublicKey" = some (.text identity.credentialPublicKey))
    (hidentity : identity.Valid) : decodeRelayAttachIdentity record = .ok identity := by
  refine decodeRelayAttachIdentity_ok.mpr ⟨hidentity, property_reads _ hrecord hroute,
    property_reads _ hrecord hattachment, ?_, property_reads _ hrecord hkey⟩
  rw [property_reads _ hrecord hendpoint, labelled_endpoint]

theorem decodePeer_fields {peer : RelayPeerDescriptor} (h : peer.Valid) (name : String) :
    decodePeer name (.object (named peer.fields)) = .ok peer := by
  obtain ⟨record, hrecord⟩ : ∃ record, record = named peer.fields := ⟨_, rfl⟩
  unfold decodePeer
  rw [← hrecord, object_ok.mpr rfl, ok_bind, exactKeys_named hrecord (by rfl), ok_bind,
    parseRelayAttachmentId, identifier_reads "attachmentId" hrecord rfl h.attachmentId, ok_bind,
    parseRelayPairingSelector, identifier_reads "pairingSelector" hrecord rfl h.pairingSelector,
    ok_bind, integer_reads "generation" hrecord rfl h.generation]
  rfl

theorem decodePeers_fields {peers : List RelayPeerDescriptor} (h : ∀ peer ∈ peers, peer.Valid)
    (name : String) :
    (peers.map fun peer => JsonData.object (named peer.fields)).mapM (decodePeer name) =
      .ok peers := by
  apply mapM_eq_ok.mpr
  rw [List.forall₂_map_left_iff, List.forall₂_same]
  exact fun peer hpeer => decodePeer_fields (h peer hpeer) name

theorem decodePeerProjection_fields {routeId attachmentId : String}
    {peers : List RelayPeerDescriptor}
    {projection : String → String → List RelayPeerDescriptor → RelayMessage}
    (hrecord : record = named fields)
    (hfields : fields = header s ++ [("routeId", .text routeId),
      ("attachmentId", .text attachmentId), ("peers", peersJson peers)])
    (hroute : isIdentifier routeId = true) (hattachment : isIdentifier attachmentId = true)
    (hpeers : ValidPeers peers) :
    decodePeerProjection record projection name = .ok (projection routeId attachmentId peers) := by
  subst hfields
  unfold decodePeerProjection
  rw [exactKeys_named hrecord (by rfl), ok_bind, peerItems_ok.mpr (property_reads "peers" hrecord rfl),
    ok_bind, decodePeers_fields hpeers.peer, ok_bind, if_neg]
  · rw [parseRelayRouteId, identifier_reads "routeId" hrecord rfl hroute, ok_bind,
      parseRelayAttachmentId, identifier_reads "attachmentId" hrecord rfl hattachment]
    rfl
  · rw [hpeers.selectors.dedup, hpeers.attachmentIds.dedup, List.length_map, List.length_map]
    simp

/-- The record of the message is read as the message. -/
def Decodes (message : RelayMessage) : Prop :=
  ∀ record, record = named message.fields → decodeRelayRecord record = .ok message

theorem decodes_attachChallenge {identity : RelayAttachIdentity} (h : identity.Valid) :
    Decodes (.attachChallenge identity) := by
  intro record hrecord
  unfold decodeRelayRecord
  simp only [type_reads hrecord rfl]
  rw [exactKeys_named hrecord (by rfl), ok_bind, identity_reads hrecord rfl rfl rfl rfl h]
  rfl

theorem decodes_attachChallengeResponse {identity : RelayAttachIdentity} {challengeId : String}
    {nonce : Bytes} {expiresAt : Int}
    (h : (RelayMessage.attachChallengeResponse identity challengeId nonce expiresAt).Valid) :
    Decodes (.attachChallengeResponse identity challengeId nonce expiresAt) := by
  obtain ⟨hvalid, hchallenge, hnonce, hexpires⟩ := h
  intro record hrecord
  unfold decodeRelayRecord
  simp only [type_reads hrecord rfl, parseRelayAttachChallengeId]
  rw [exactKeys_named hrecord (by rfl), ok_bind, identity_reads hrecord rfl rfl rfl rfl hvalid, ok_bind,
    identifier_reads "challengeId" hrecord rfl hchallenge, ok_bind,
    bytes_reads "nonce" hrecord rfl hnonce, ok_bind,
    integer_reads "expiresAt" hrecord rfl hexpires]
  rfl

theorem decodes_attach {identity : RelayAttachIdentity} {challengeId : String} {nonce : Bytes}
    {expiresAt : Int} {signature : Bytes}
    (h : (RelayMessage.attach identity challengeId nonce expiresAt signature).Valid) :
    Decodes (.attach identity challengeId nonce expiresAt signature) := by
  obtain ⟨hvalid, hchallenge, hnonce, hexpires, hsignature⟩ := h
  intro record hrecord
  unfold decodeRelayRecord
  simp only [type_reads hrecord rfl, parseRelayAttachChallengeId]
  rw [exactKeys_named hrecord (by rfl), ok_bind, identity_reads hrecord rfl rfl rfl rfl hvalid, ok_bind,
    identifier_reads "challengeId" hrecord rfl hchallenge, ok_bind,
    bytes_reads "nonce" hrecord rfl hnonce, ok_bind,
    integer_reads "expiresAt" hrecord rfl hexpires, ok_bind,
    bytes_reads "signature" hrecord rfl hsignature]
  rfl

theorem decodes_ciphertext {routeId source target : String} {bytes : Bytes}
    (h : (RelayMessage.ciphertext routeId source target bytes).Valid) :
    Decodes (.ciphertext routeId source target bytes) := by
  obtain ⟨hroute, hsource, htarget, hbytes⟩ := h
  intro record hrecord
  unfold decodeRelayRecord
  simp only [type_reads hrecord rfl, parseRelayRouteId, parseRelayAttachmentId]
  rw [exactKeys_named hrecord (by rfl), ok_bind, identifier_reads "routeId" hrecord rfl hroute, ok_bind,
    identifier_reads "sourceAttachmentId" hrecord rfl hsource, ok_bind,
    identifier_reads "targetAttachmentId" hrecord rfl htarget, ok_bind,
    bytes_reads "ciphertext" hrecord rfl hbytes]
  rfl

theorem decodes_heartbeat {attachmentId : String} {sentAt : Int}
    (h : (RelayMessage.heartbeat attachmentId sentAt).Valid) :
    Decodes (.heartbeat attachmentId sentAt) := by
  intro record hrecord
  unfold decodeRelayRecord
  simp only [type_reads hrecord rfl, parseRelayAttachmentId]
  rw [exactKeys_named hrecord (by rfl), ok_bind, identifier_reads "attachmentId" hrecord rfl h.1, ok_bind,
    integer_reads "sentAt" hrecord rfl h.2]
  rfl

theorem decodes_revoke {routeId attachmentId : String} {reason : RelayRevokeReason}
    (h : (RelayMessage.revoke routeId attachmentId reason).Valid) :
    Decodes (.revoke routeId attachmentId reason) := by
  intro record hrecord
  unfold decodeRelayRecord
  simp only [type_reads hrecord rfl, parseRelayRouteId, parseRelayAttachmentId]
  rw [exactKeys_named hrecord (by rfl), ok_bind,
    label_reads "reason" hrecord rfl (labelled_reason reason), ok_bind,
    identifier_reads "routeId" hrecord rfl h.1, ok_bind,
    identifier_reads "attachmentId" hrecord rfl h.2]
  rfl

theorem decodes_error {code : RelayErrorCode} {retryAfterMs : Option Int}
    (h : (RelayMessage.error code retryAfterMs).Valid) : Decodes (.error code retryAfterMs) := by
  intro record hrecord
  cases retryAfterMs with
  | none =>
    have hretry : property record "retryAfterMs" = none := property_reads _ hrecord rfl
    unfold decodeRelayRecord
    simp only [type_reads hrecord rfl, hretry]
    rw [exactKeys_named hrecord (by rfl), ok_bind,
      label_reads "code" hrecord rfl (labelled_code code)]
    rfl
  | some n =>
    have hretry : property record "retryAfterMs" = some (.int n) := property_reads _ hrecord rfl
    unfold decodeRelayRecord
    simp only [type_reads hrecord rfl, hretry]
    rw [exactKeys_named hrecord (by rfl), ok_bind,
      label_reads "code" hrecord rfl (labelled_code code), ok_bind, ← hretry,
      integer_reads "retryAfterMs" hrecord rfl (h n rfl)]
    rfl

theorem decodes_valid {message : RelayMessage} (h : message.Valid) : Decodes message := by
  cases message with
  | attachChallenge identity => exact decodes_attachChallenge h
  | attachChallengeResponse identity challengeId nonce expiresAt =>
    exact decodes_attachChallengeResponse h
  | attach identity challengeId nonce expiresAt signature => exact decodes_attach h
  | ciphertext routeId source target bytes => exact decodes_ciphertext h
  | heartbeat attachmentId sentAt => exact decodes_heartbeat h
  | peerUpdate routeId attachmentId peers =>
    intro record hrecord
    unfold decodeRelayRecord
    simp only [type_reads hrecord rfl]
    exact decodePeerProjection_fields hrecord rfl h.1 h.2.1 h.2.2
  | ready routeId attachmentId peers =>
    intro record hrecord
    unfold decodeRelayRecord
    simp only [type_reads hrecord rfl]
    exact decodePeerProjection_fields hrecord rfl h.1 h.2.1 h.2.2
  | revoke routeId attachmentId reason => exact decodes_revoke h
  | error code retryAfterMs => exact decodes_error h

theorem requireTransportVersion_fields (message : RelayMessage) :
    requireTransportVersion (named message.fields) = .ok () := by
  have hversion : property (named message.fields) "transportVersion" = some (.int 1) := by
    rw [JsonData.property_named]
    cases message with
    | error _ retryAfterMs => cases retryAfterMs <;> rfl
    | _ => rfl
  exact if_pos (bind_int?_eq_some.mpr hversion)

end Read

theorem decode_encodeRelayMessage {message : RelayMessage} (h : message.Valid) :
    ∃ encoded, encodeRelayMessage message = .ok encoded ∧ decodeRelayMessage encoded = .ok message := by
  have hfits := fits_message h
  have hencode : encode message.fields =
      .ok (Utf8.encode (JsonData.object (named message.fields)).stringify) :=
    encodeProtocolJson_ok.mpr ⟨hfits.allowed, hfits.values,
      (JsonData.byteLength_stringify hfits.plain).trans hfits.width, rfl⟩
  refine ⟨Utf8.encode (JsonData.object (named message.fields)).stringify, ?_, ?_⟩
  · unfold encodeRelayMessage
    split
    · rw [if_neg (Nat.not_lt.mpr h.2.2.2)]
      exact hencode
    · exact hencode
  · unfold decodeRelayMessage
    rw [decode_encodeProtocolJson hfits.wellFormed hencode, ok_bind, object_ok.mpr rfl, ok_bind,
      requireTransportVersion_fields, ok_bind]
    exact decodes_valid h _ rfl

theorem AllowedFields.of_mem {depth : Nat} {fields : List (Units × JsonData)}
    (h : AllowedFields depth fields) : ∀ field ∈ fields, Allowed depth field.2 := by
  induction fields with
  | nil => exact nofun
  | cons field fields ih => exact List.forall_mem_cons.mpr ⟨h.1, ih h.2⟩

theorem decodeRelayMessage_ok {encoded : Bytes} {message : RelayMessage}
    (h : decodeRelayMessage encoded = .ok message) :
    ∃ text record, Utf8.decode (Utf8.stripBom encoded) = some text ∧
      JsonData.parse text = some (.object record) ∧ Reads record message := by
  unfold decodeRelayMessage at h
  obtain ⟨value, hvalue, hobject⟩ := bind_eq_ok.mp h
  obtain ⟨record, hrecord, hchecked⟩ := bind_eq_ok.mp hobject
  obtain ⟨u, hversion, hdecoded⟩ := bind_eq_ok.mp hchecked
  obtain rfl := object_ok.mp hrecord
  obtain ⟨-, hparse, hallowed, -⟩ := decodeProtocolJson_ok.mp hvalue
  obtain ⟨text, htext, hparsed⟩ := Option.bind_eq_some_iff.mp hparse
  refine ⟨text, record, htext, hparsed, decodeRelayRecord_ok ?_ ?_ hdecoded⟩
  · unfold requireTransportVersion at hversion
    split at hversion
    · assumption
    · exact absurd hversion invalid_ne_ok
  · intro items hitems
    have hmem := JsonData.mem_of_lookup hitems
    exact (AllowedFields.of_mem hallowed.2.2 _ hmem).2.1

def RelayMessage.binaries : RelayMessage → List (String × Bytes)
  | .attachChallengeResponse _ _ nonce _ => [("nonce", nonce)]
  | .attach _ _ nonce _ signature => [("nonce", nonce), ("signature", signature)]
  | .ciphertext _ _ _ bytes => [("ciphertext", bytes)]
  | _ => []

theorem mem_fields_of_binaries {message : RelayMessage} :
    ∀ entry ∈ message.binaries,
      (entry.1, JsonData.text (encodeProtocolBase64Url entry.2)) ∈ message.fields := by
  cases message with
  | attachChallengeResponse _ _ _ _ => simp [RelayMessage.binaries, RelayMessage.fields]
  | attach _ _ _ _ _ => simp [RelayMessage.binaries, RelayMessage.fields]
  | ciphertext _ _ _ _ => simp [RelayMessage.binaries, RelayMessage.fields]
  | _ => exact nofun

/-- The Relay codec: a valid message is encoded and comes back; what is accepted is UTF-8 JSON with the
keys of one variant, each binary field in its one spelling, and its message is encoded again and comes
back; and a ciphertext of every admitted length passes the ceilings on strings, values and bytes. -/
theorem relay_codec :
    (∀ message : RelayMessage, message.Valid → ∃ encoded,
      encodeRelayMessage message = .ok encoded ∧ decodeRelayMessage encoded = .ok message) ∧
    (∀ encoded message, decodeRelayMessage encoded = .ok message →
      (∃ text record, Utf8.decode (Utf8.stripBom encoded) = some text ∧
        JsonData.parse text = some (.object record) ∧
        (record.map Prod.fst).Perm ((named message.fields).map Prod.fst) ∧
        Same (.object record) (.object (named message.fields)) ∧
        ∀ entry ∈ message.binaries,
          property record entry.1 = some (.text (encodeProtocolBase64Url entry.2))) ∧
      message.Valid ∧ ∃ again,
        encodeRelayMessage message = .ok again ∧ decodeRelayMessage again = .ok message) ∧
    (∀ bytes : Bytes, bytes.length ≤ Limits.ciphertextBytes →
      Utf16.byteLength (Utf16.encode (encodeProtocolBase64Url bytes)) ≤ Limits.stringBytes ∧
      ∀ routeId source target, isIdentifier routeId = true → isIdentifier source = true →
        isIdentifier target = true →
          let value := JsonData.object (named (RelayMessage.ciphertext routeId source target bytes).fields)
          value.count ≤ Limits.totalEncodedValues ∧
            Utf8.byteLength value.stringify ≤ Limits.relayMessageBytes) := by
  refine ⟨fun _ => decode_encodeRelayMessage, ?_, ?_⟩
  · intro encoded message h
    obtain ⟨text, record, htext, hparse, hvalid, hkeys, hsame⟩ := decodeRelayMessage_ok h
    refine ⟨⟨text, record, htext, hparse, hkeys, hsame, ?_⟩, hvalid, decode_encodeRelayMessage hvalid⟩
    intro entry hentry
    refine hsame.lookup_string (fits_message hvalid).wellFormed.1 ?_
    exact List.mem_map.mpr ⟨_, mem_fields_of_binaries entry hentry, rfl⟩
  · intro bytes hbytes
    have hstring : Fits 1 (.text (encodeProtocolBase64Url bytes)) _ 1 := fits_bytes hbytes (by decide)
    refine ⟨hstring.allowed, ?_⟩
    intro routeId source target hroute hsource htarget
    have hvalid : (RelayMessage.ciphertext routeId source target bytes).Valid :=
      ⟨hroute, hsource, htarget, hbytes⟩
    have hfits := fits_message hvalid
    exact ⟨hfits.values, (JsonData.byteLength_stringify hfits.plain).trans hfits.width⟩

theorem relay_codec_heartbeat : ∃ encoded,
    encodeRelayMessage (.heartbeat "desktop-1" 1700000000000) = .ok encoded ∧
      decodeRelayMessage encoded = .ok (.heartbeat "desktop-1" 1700000000000) :=
  relay_codec.1 (.heartbeat "desktop-1" 1700000000000) ⟨by decide, by decide, by decide⟩

end Harness.RemoteProtocol
