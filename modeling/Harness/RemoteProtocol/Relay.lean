import Harness.RemoteProtocol.Boundary

namespace Harness.RemoteProtocol

open Harness.Foundation
open Harness.Foundation.JsonData (named property)

inductive RelayEndpoint
  | mobile | desktop
  deriving DecidableEq

inductive RelayRevokeReason
  | device | all | disabled
  deriving DecidableEq

inductive RelayErrorCode
  | platformCapacity
  | relayAttachmentRejected
  | relayRouteRevoked
  | relaySlowConsumer
  | relayTransportIncompatible
  | remoteOffline
  deriving DecidableEq

def RelayEndpoint.text : RelayEndpoint → String
  | .mobile => "mobile"
  | .desktop => "desktop"

def RelayRevokeReason.text : RelayRevokeReason → String
  | .device => "device"
  | .all => "all"
  | .disabled => "disabled"

def RelayErrorCode.text : RelayErrorCode → String
  | .platformCapacity => "PLATFORM_CAPACITY"
  | .relayAttachmentRejected => "RELAY_ATTACHMENT_REJECTED"
  | .relayRouteRevoked => "RELAY_ROUTE_REVOKED"
  | .relaySlowConsumer => "RELAY_SLOW_CONSUMER"
  | .relayTransportIncompatible => "RELAY_TRANSPORT_INCOMPATIBLE"
  | .remoteOffline => "REMOTE_OFFLINE"

structure RelayAttachIdentity where
  routeId : String
  attachmentId : String
  endpoint : RelayEndpoint
  credentialPublicKey : String
  deriving DecidableEq

structure RelayPeerDescriptor where
  attachmentId : String
  pairingSelector : String
  generation : Int
  deriving DecidableEq

inductive RelayMessage
  | attachChallenge (identity : RelayAttachIdentity)
  | attachChallengeResponse (identity : RelayAttachIdentity) (challengeId : String) (nonce : Bytes)
    (expiresAt : Int)
  | attach (identity : RelayAttachIdentity) (challengeId : String) (nonce : Bytes) (expiresAt : Int)
    (signature : Bytes)
  | ciphertext (routeId sourceAttachmentId targetAttachmentId : String) (ciphertext : Bytes)
  | heartbeat (attachmentId : String) (sentAt : Int)
  | peerUpdate (routeId attachmentId : String) (peers : List RelayPeerDescriptor)
  | ready (routeId attachmentId : String) (peers : List RelayPeerDescriptor)
  | revoke (routeId attachmentId : String) (reason : RelayRevokeReason)
  | error (code : RelayErrorCode) (retryAfterMs : Option Int)
  deriving DecidableEq

def RelayAttachIdentity.fields (identity : RelayAttachIdentity) : List (String × JsonData) :=
  [("routeId", .text identity.routeId), ("attachmentId", .text identity.attachmentId),
    ("endpoint", .text identity.endpoint.text),
    ("credentialPublicKey", .text identity.credentialPublicKey)]

def RelayPeerDescriptor.fields (peer : RelayPeerDescriptor) : List (String × JsonData) :=
  [("attachmentId", .text peer.attachmentId), ("pairingSelector", .text peer.pairingSelector),
    ("generation", .int peer.generation)]

def peersJson (peers : List RelayPeerDescriptor) : JsonData :=
  .array (peers.map fun peer => .object (named peer.fields))

def header (type : String) : List (String × JsonData) := [("type", .text type), ("transportVersion", .int 1)]

def RelayMessage.fields : RelayMessage → List (String × JsonData)
  | .attachChallenge identity => header "attach-challenge" ++ identity.fields
  | .attachChallengeResponse identity challengeId nonce expiresAt =>
    header "attach-challenge-response" ++ identity.fields ++
      [("challengeId", .text challengeId), ("nonce", .text (encodeProtocolBase64Url nonce)),
        ("expiresAt", .int expiresAt)]
  | .attach identity challengeId nonce expiresAt signature =>
    header "attach" ++ identity.fields ++
      [("challengeId", .text challengeId), ("nonce", .text (encodeProtocolBase64Url nonce)),
        ("expiresAt", .int expiresAt), ("signature", .text (encodeProtocolBase64Url signature))]
  | .ciphertext routeId sourceAttachmentId targetAttachmentId bytes =>
    header "ciphertext" ++
      [("routeId", .text routeId), ("sourceAttachmentId", .text sourceAttachmentId),
        ("targetAttachmentId", .text targetAttachmentId),
        ("ciphertext", .text (encodeProtocolBase64Url bytes))]
  | .heartbeat attachmentId sentAt =>
    header "heartbeat" ++ [("attachmentId", .text attachmentId), ("sentAt", .int sentAt)]
  | .peerUpdate routeId attachmentId peers =>
    header "peer-update" ++
      [("routeId", .text routeId), ("attachmentId", .text attachmentId), ("peers", peersJson peers)]
  | .ready routeId attachmentId peers =>
    header "ready" ++
      [("routeId", .text routeId), ("attachmentId", .text attachmentId), ("peers", peersJson peers)]
  | .revoke routeId attachmentId reason =>
    header "revoke" ++
      [("routeId", .text routeId), ("attachmentId", .text attachmentId), ("reason", .text reason.text)]
  | .error code none => header "error" ++ [("code", .text code.text)]
  | .error code (some retryAfterMs) =>
    header "error" ++ [("code", .text code.text), ("retryAfterMs", .int retryAfterMs)]

def encode (fields : List (String × JsonData)) : Parsed Bytes :=
  encodeProtocolJson (.object (named fields)) Limits.relayMessageBytes "Relay message"

def encodeRelayMessage (message : RelayMessage) : Parsed Bytes :=
  match message with
  | .ciphertext _ _ _ ciphertext =>
    if Limits.ciphertextBytes < ciphertext.length then limit "Relay ciphertext exceeds its byte ceiling"
    else encode message.fields
  | message => encode message.fields

def maxIdentifierCharacters : Nat := 128

def matchesIdentifierPattern (s : String) : Bool :=
  decide (s ≠ "") && s.toList.all Base64.isUrlChar

def isIdentifier (s : String) : Bool :=
  decide (s.length ≤ maxIdentifierCharacters) && matchesIdentifierPattern s

/-- The pattern has ASCII characters only, so no string with an unpaired surrogate matches it and the
length of one that does is that of its text. -/
def parseIdentifier (value : Option JsonData) (name : String) : Parsed String :=
  match value.bind JsonData.text? with
  | some s =>
    if isIdentifier s then .ok s
    else invalid s!"{name} must be 1-{maxIdentifierCharacters} base64url characters"
  | none => invalid s!"{name} must be 1-{maxIdentifierCharacters} base64url characters"

def parseRelayRouteId (value : Option JsonData) : Parsed String := parseIdentifier value "routeId"

def parseRelayAttachmentId (value : Option JsonData) : Parsed String :=
  parseIdentifier value "attachmentId"

def parseRelayPairingSelector (value : Option JsonData) : Parsed String :=
  parseIdentifier value "pairingSelector"

def parseRelayAttachChallengeId (value : Option JsonData) : Parsed String :=
  parseIdentifier value "challengeId"

def parseRelayCredentialPublicKey (value : Option JsonData) : Parsed String :=
  match value.bind JsonData.text? with
  | some s =>
    if s.length < 64 ∨ 256 < s.length ∨ matchesIdentifierPattern s = false then
      invalid "Relay credential public key must be canonical base64url SPKI"
    else (decodeProtocolBase64Url value 192 "Relay credential public key").bind fun _ => .ok s
  | none => invalid "Relay credential public key must be canonical base64url SPKI"

def object (value : JsonData) (name : String) : Parsed (List (Units × JsonData)) :=
  match value with
  | .object fields => .ok fields
  | _ => invalid s!"{name} must be an object"

def exactKeys (record : List (Units × JsonData)) (keys : List String) (name : String) : Parsed Unit :=
  if record.length ≠ keys.length ∨ record.any (fun field => decide (field.1 ∉ keys.map Utf16.encode)) = true then
    invalid s!"{name} contains unsupported fields"
  else .ok ()

def requireTransportVersion (record : List (Units × JsonData)) : Parsed Unit :=
  if (property record "transportVersion").bind JsonData.int? = some 1 then .ok ()
  else invalid "Relay transportVersion must be 1"

def positiveSafeInteger (value : Option JsonData) (name : String) : Parsed Int :=
  match value.bind JsonData.int? with
  | some n =>
    if isSafe n = true ∧ 0 < n then .ok n else invalid s!"{name} must be a positive safe integer"
  | none => invalid s!"{name} must be a positive safe integer"

def labelled {α : Type} (all : List α) (text : α → String) (value : Option JsonData) : Option α :=
  (value.bind JsonData.text?).bind fun s => all.find? fun a => decide (text a = s)

def relayEndpoints : List RelayEndpoint := [.mobile, .desktop]

def relayRevokeReasons : List RelayRevokeReason := [.device, .all, .disabled]

def relayErrorCodes : List RelayErrorCode :=
  [.platformCapacity, .relayAttachmentRejected, .relayRouteRevoked, .relaySlowConsumer,
    .relayTransportIncompatible, .remoteOffline]

def orInvalid {α : Type} (value : Option α) (message : String) : Parsed α :=
  match value with
  | some a => .ok a
  | none => invalid message

def decodeRelayAttachIdentity (record : List (Units × JsonData)) : Parsed RelayAttachIdentity := do
  let endpoint ← orInvalid (labelled relayEndpoints RelayEndpoint.text (property record "endpoint"))
    "Relay endpoint must be mobile or desktop"
  let routeId ← parseRelayRouteId (property record "routeId")
  let attachmentId ← parseRelayAttachmentId (property record "attachmentId")
  let credentialPublicKey ← parseRelayCredentialPublicKey (property record "credentialPublicKey")
  return { routeId, attachmentId, endpoint, credentialPublicKey }

def decodePeer (name : String) (value : JsonData) : Parsed RelayPeerDescriptor := do
  let peer ← object value s!"{name} peer"
  exactKeys peer ["attachmentId", "pairingSelector", "generation"] s!"{name} peer"
  let attachmentId ← parseRelayAttachmentId (property peer "attachmentId")
  let pairingSelector ← parseRelayPairingSelector (property peer "pairingSelector")
  let generation ← positiveSafeInteger (property peer "generation") "Relay peer generation"
  return { attachmentId, pairingSelector, generation }

def peerItems (record : List (Units × JsonData)) (name : String) : Parsed (List JsonData) :=
  match property record "peers" with
  | some (.array items) => .ok items
  | _ => invalid s!"{name} peers must be an array"

def decodePeerProjection (record : List (Units × JsonData))
    (projection : String → String → List RelayPeerDescriptor → RelayMessage) (name : String) :
    Parsed RelayMessage := do
  exactKeys record ["type", "transportVersion", "routeId", "attachmentId", "peers"]
    s!"{name} message"
  let items ← peerItems record name
  let peers ← items.mapM (decodePeer name)
  if (peers.map (·.pairingSelector)).dedup.length ≠ peers.length
      ∨ (peers.map (·.attachmentId)).dedup.length ≠ peers.length then
    invalid s!"{name} peers must have distinct selectors and attachment ids"
  else
    let routeId ← parseRelayRouteId (property record "routeId")
    let attachmentId ← parseRelayAttachmentId (property record "attachmentId")
    return projection routeId attachmentId peers

def identityKeys : List String :=
  ["type", "transportVersion", "routeId", "attachmentId", "endpoint", "credentialPublicKey"]

def decodeRelayRecord (record : List (Units × JsonData)) : Parsed RelayMessage :=
  match (property record "type").bind JsonData.text? with
  | some "attach-challenge" => do
    exactKeys record identityKeys "Relay attach challenge request"
    let identity ← decodeRelayAttachIdentity record
    return .attachChallenge identity
  | some "attach-challenge-response" => do
    exactKeys record (identityKeys ++ ["challengeId", "nonce", "expiresAt"])
      "Relay attach challenge response"
    let identity ← decodeRelayAttachIdentity record
    let challengeId ← parseRelayAttachChallengeId (property record "challengeId")
    let nonce ← decodeProtocolBase64Url (property record "nonce") 32 "Relay attach challenge nonce"
    let expiresAt ← positiveSafeInteger (property record "expiresAt")
      "Relay attach challenge expiresAt"
    return .attachChallengeResponse identity challengeId nonce expiresAt
  | some "attach" => do
    exactKeys record (identityKeys ++ ["challengeId", "nonce", "expiresAt", "signature"])
      "Relay attach message"
    let identity ← decodeRelayAttachIdentity record
    let challengeId ← parseRelayAttachChallengeId (property record "challengeId")
    let nonce ← decodeProtocolBase64Url (property record "nonce") 32 "Relay attach challenge nonce"
    let expiresAt ← positiveSafeInteger (property record "expiresAt")
      "Relay attach challenge expiresAt"
    let signature ← decodeProtocolBase64Url (property record "signature") 96 "Relay attach signature"
    return .attach identity challengeId nonce expiresAt signature
  | some "ciphertext" => do
    exactKeys record
      ["type", "transportVersion", "routeId", "sourceAttachmentId", "targetAttachmentId", "ciphertext"]
      "Relay ciphertext message"
    let routeId ← parseRelayRouteId (property record "routeId")
    let sourceAttachmentId ← parseRelayAttachmentId (property record "sourceAttachmentId")
    let targetAttachmentId ← parseRelayAttachmentId (property record "targetAttachmentId")
    let ciphertext ← decodeProtocolBase64Url (property record "ciphertext") Limits.ciphertextBytes
      "Relay ciphertext"
    return .ciphertext routeId sourceAttachmentId targetAttachmentId ciphertext
  | some "heartbeat" => do
    exactKeys record ["type", "transportVersion", "attachmentId", "sentAt"] "Relay heartbeat message"
    let attachmentId ← parseRelayAttachmentId (property record "attachmentId")
    let sentAt ← positiveSafeInteger (property record "sentAt") "Relay heartbeat sentAt"
    return .heartbeat attachmentId sentAt
  | some "peer-update" => decodePeerProjection record .peerUpdate "Relay peer update"
  | some "ready" => decodePeerProjection record .ready "Relay ready"
  | some "revoke" => do
    exactKeys record ["type", "transportVersion", "routeId", "attachmentId", "reason"]
      "Relay revoke message"
    let reason ← orInvalid
      (labelled relayRevokeReasons RelayRevokeReason.text (property record "reason"))
      "Relay revocation reason is unsupported"
    let routeId ← parseRelayRouteId (property record "routeId")
    let attachmentId ← parseRelayAttachmentId (property record "attachmentId")
    return .revoke routeId attachmentId reason
  | some "error" =>
    match property record "retryAfterMs" with
    | none => do
      exactKeys record ["type", "transportVersion", "code"] "Relay error message"
      let code ← orInvalid (labelled relayErrorCodes RelayErrorCode.text (property record "code"))
        "Relay error code is unsupported"
      return .error code none
    | some value => do
      exactKeys record ["type", "transportVersion", "code", "retryAfterMs"] "Relay error message"
      let code ← orInvalid (labelled relayErrorCodes RelayErrorCode.text (property record "code"))
        "Relay error code is unsupported"
      let retryAfterMs ← positiveSafeInteger (some value) "Relay retryAfterMs"
      return .error code (some retryAfterMs)
  | _ => invalid "Relay message type is unsupported"

def decodeRelayMessage (encoded : Bytes) : Parsed RelayMessage := do
  let value ← decodeProtocolJson encoded Limits.relayMessageBytes "Relay message"
  let record ← object value "Relay message"
  requireTransportVersion record
  decodeRelayRecord record

end Harness.RemoteProtocol
