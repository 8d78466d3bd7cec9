import Harness.Foundation.Base64
import Harness.Foundation.JsonSize
import Harness.Foundation.SafeInteger
import Harness.Foundation.Except

namespace Harness.RemoteProtocol

open Harness.Foundation

inductive RemoteProtocolErrorCode
  | companionSecurityCapabilityMissing
  | companionUpdateRequired
  | companionVersionNotNegotiated
  | relayTransportIncompatible
  | invalidMessage
  | limitExceeded
  deriving DecidableEq

structure RemoteProtocolError where
  code : RemoteProtocolErrorCode
  message : String
  deriving DecidableEq

abbrev Parsed (α : Type) := Except RemoteProtocolError α

def invalid {α : Type} (message : String) : Parsed α := .error ⟨.invalidMessage, message⟩

def limit {α : Type} (message : String) : Parsed α := .error ⟨.limitExceeded, message⟩

namespace Limits

abbrev parserDepth : Nat := 16
abbrev containerValues : Nat := 256
abbrev totalEncodedValues : Nat := 4096
abbrev stringBytes : Nat := 90000
abbrev relayMessageBytes : Nat := 98304
abbrev ciphertextBytes : Nat := 65535

end Limits

/-- The loop over the values still to be looked at, each with its depth; the first argument is how many
more the ceiling admits. -/
def validatePending (name : String) : Nat → List (JsonData × Nat) → Parsed Unit
  | _, [] => .ok ()
  | 0, _ :: _ => limit s!"{name} exceeds its encoded-value count ceiling"
  | remaining + 1, (value, depth) :: pending =>
    match value with
    | .string units =>
      if Limits.stringBytes < Utf16.byteLength units then
        limit s!"{name} contains an oversized encoded string"
      else validatePending name remaining pending
    | .number n =>
      if (JsonData.number n).isSafeInteger then validatePending name remaining pending
      else invalid s!"{name} numbers must be safe integers"
    | .null => validatePending name remaining pending
    | .bool _ => validatePending name remaining pending
    | .array items =>
      if Limits.parserDepth ≤ depth then limit s!"{name} exceeds its parser-depth ceiling"
      else if Limits.containerValues < items.length then
        limit s!"{name} contains an oversized object or array"
      else validatePending name remaining (pending ++ items.map fun item => (item, depth + 1))
    | .object fields =>
      if Limits.parserDepth ≤ depth then limit s!"{name} exceeds its parser-depth ceiling"
      else if Limits.containerValues < fields.length then
        limit s!"{name} contains an oversized object or array"
      else validatePending name remaining (pending ++ fields.map fun field => (field.2, depth + 1))

def validateEncodedValue (root : JsonData) (name : String) : Parsed Unit :=
  validatePending name Limits.totalEncodedValues [(root, 0)]

def decodeProtocolJson (encoded : Bytes) (byteLimit : Nat) (name : String) : Parsed JsonData :=
  if byteLimit < encoded.length then limit s!"{name} exceeds its {byteLimit}-byte ceiling"
  else
    match (Utf8.decode (Utf8.stripBom encoded)).bind JsonData.parse with
    | none => invalid s!"{name} is not valid UTF-8 JSON"
    | some value => (validateEncodedValue value name).bind fun _ => .ok value

def encodeProtocolJson (value : JsonData) (byteLimit : Nat) (name : String) : Parsed Bytes :=
  (validateEncodedValue value name).bind fun _ =>
    let encoded := Utf8.encode value.stringify
    if byteLimit < encoded.length then limit s!"{name} exceeds its {byteLimit}-byte ceiling"
    else .ok encoded

def encodeProtocolBase64Url (bytes : Bytes) : String := String.ofList (Base64.urlEncode bytes)

def decodeProtocolBase64Url (value : Option JsonData) (byteLimit : Nat) (name : String) :
    Parsed Bytes :=
  -- a string with an unpaired surrogate has other characters than the pattern's
  match value.bind JsonData.text? with
  | some value =>
    if value.toList.all Base64.isUrlChar then
      match Base64.urlDecode value.toList with
      | none => invalid s!"{name} must be canonical base64url"
      | some decoded =>
        if encodeProtocolBase64Url decoded ≠ value then
          invalid s!"{name} must be canonical base64url"
        else if byteLimit < decoded.length then limit s!"{name} exceeds its byte ceiling"
        else .ok decoded
    else invalid s!"{name} must be canonical base64url"
  | none => invalid s!"{name} must be canonical base64url"

mutual

def Allowed : Nat → JsonData → Prop
  | _, .string units => Utf16.byteLength units ≤ Limits.stringBytes
  | _, .number n => (JsonData.number n).isSafeInteger = true
  | _, .null => True
  | _, .bool _ => True
  | depth, .array items => depth < Limits.parserDepth ∧ items.length ≤ Limits.containerValues ∧
      AllowedItems (depth + 1) items
  | depth, .object fields => depth < Limits.parserDepth ∧ fields.length ≤ Limits.containerValues ∧
      AllowedFields (depth + 1) fields

def AllowedItems : Nat → List JsonData → Prop
  | _, [] => True
  | depth, item :: items => Allowed depth item ∧ AllowedItems depth items

def AllowedFields : Nat → List (Units × JsonData) → Prop
  | _, [] => True
  | depth, (_, value) :: fields => Allowed depth value ∧ AllowedFields depth fields

end

def AllowedPending : List (JsonData × Nat) → Prop
  | [] => True
  | (value, depth) :: pending => Allowed depth value ∧ AllowedPending pending

def countPending : List (JsonData × Nat) → Nat
  | [] => 0
  | (value, _) :: pending => value.count + countPending pending

theorem allowedPending_append (first second : List (JsonData × Nat)) :
    AllowedPending (first ++ second) ↔ AllowedPending first ∧ AllowedPending second := by
  induction first with
  | nil => rw [List.nil_append, AllowedPending, true_and]
  | cons entry first ih =>
    rw [List.cons_append, AllowedPending, AllowedPending, ih, and_assoc]

theorem countPending_append (first second : List (JsonData × Nat)) :
    countPending (first ++ second) = countPending first + countPending second := by
  induction first with
  | nil => exact (Nat.zero_add _).symm
  | cons entry first ih => rw [List.cons_append, countPending, countPending, ih, Nat.add_assoc]

theorem allowedPending_items (items : List JsonData) (depth : Nat) :
    AllowedPending (items.map fun item => (item, depth)) ↔ AllowedItems depth items := by
  induction items with
  | nil => rfl
  | cons item items ih => rw [List.map_cons, AllowedPending, AllowedItems, ih]

theorem allowedPending_fields (fields : List (Units × JsonData)) (depth : Nat) :
    AllowedPending (fields.map fun field => (field.2, depth)) ↔ AllowedFields depth fields := by
  induction fields with
  | nil => rfl
  | cons field fields ih => rw [List.map_cons, AllowedPending, AllowedFields, ih]

theorem countPending_items (items : List JsonData) (depth : Nat) :
    countPending (items.map fun item => (item, depth)) = JsonData.countItems items := by
  induction items with
  | nil => rfl
  | cons item items ih => rw [List.map_cons, countPending, JsonData.countItems, ih]

theorem countPending_fields (fields : List (Units × JsonData)) (depth : Nat) :
    countPending (fields.map fun field => (field.2, depth)) = JsonData.countFields fields := by
  induction fields with
  | nil => rfl
  | cons field fields ih => rw [List.map_cons, countPending, JsonData.countFields, ih]

theorem count_pos (value : JsonData) : 0 < value.count := by
  cases value <;> exact Nat.succ_pos _

@[simp] theorem limit_ne_ok {α : Type} {message : String} {a : α} : limit message ≠ .ok a := nofun

@[simp] theorem invalid_ne_ok {α : Type} {message : String} {a : α} : invalid message ≠ .ok a := nofun

theorem validatePending_iff (name : String) (remaining : Nat) (pending : List (JsonData × Nat)) :
    validatePending name remaining pending = .ok () ↔
      AllowedPending pending ∧ countPending pending ≤ remaining := by
  induction remaining generalizing pending with
  | zero =>
    cases pending with
    | nil => simp [validatePending, AllowedPending, countPending]
    | cons entry pending =>
      have hpos := count_pos entry.1
      simp only [validatePending, limit_ne_ok, countPending, false_iff, not_and]
      omega
  | succ remaining ih =>
    cases pending with
    | nil => simp [validatePending, AllowedPending, countPending]
    | cons entry pending =>
      obtain ⟨value, depth⟩ := entry
      cases value with
      | null =>
        rw [validatePending, ih, AllowedPending, countPending, Allowed, JsonData.count_null, true_and,
          Nat.add_comm 1, Nat.succ_le_succ_iff]
      | bool b =>
        rw [validatePending, ih, AllowedPending, countPending, Allowed, JsonData.count_bool, true_and,
          Nat.add_comm 1, Nat.succ_le_succ_iff]
      | number n =>
        rw [validatePending, AllowedPending, countPending, Allowed, JsonData.count_number, Nat.add_comm 1,
          Nat.succ_le_succ_iff]
        split
        · rename_i hsafe
          rw [ih, and_iff_right hsafe]
        · rename_i hsafe
          exact ⟨nofun, fun h => absurd h.1.1 hsafe⟩
      | string units =>
        rw [validatePending, AllowedPending, countPending, Allowed, JsonData.count_string, Nat.add_comm 1,
          Nat.succ_le_succ_iff]
        split
        · rename_i hlong
          exact ⟨nofun, fun h => absurd h.1.1 (Nat.not_le.mpr hlong)⟩
        · rename_i hshort
          rw [ih, and_iff_right (Nat.not_lt.mp hshort)]
      | array items =>
        rw [validatePending, AllowedPending, countPending, Allowed, JsonData.count_array]
        split
        · rename_i hdeep
          exact ⟨nofun, fun h => absurd h.1.1.1 (Nat.not_lt.mpr hdeep)⟩
        · rename_i hdeep
          split
          · rename_i hlong
            exact ⟨nofun, fun h => absurd h.1.1.2.1 (Nat.not_le.mpr hlong)⟩
          · rename_i hshort
            rw [ih, allowedPending_append, countPending_append, allowedPending_items,
              countPending_items, and_iff_right (Nat.not_le.mp hdeep),
              and_iff_right (Nat.not_lt.mp hshort), and_comm (b := AllowedItems _ _)]
            apply and_congr_right
            intro _
            omega
      | object fields =>
        rw [validatePending, AllowedPending, countPending, Allowed, JsonData.count_object]
        split
        · rename_i hdeep
          exact ⟨nofun, fun h => absurd h.1.1.1 (Nat.not_lt.mpr hdeep)⟩
        · rename_i hdeep
          split
          · rename_i hlong
            exact ⟨nofun, fun h => absurd h.1.1.2.1 (Nat.not_le.mpr hlong)⟩
          · rename_i hshort
            rw [ih, allowedPending_append, countPending_append, allowedPending_fields,
              countPending_fields, and_iff_right (Nat.not_le.mp hdeep),
              and_iff_right (Nat.not_lt.mp hshort), and_comm (b := AllowedFields _ _)]
            apply and_congr_right
            intro _
            omega

theorem validateEncodedValue_iff (value : JsonData) (name : String) :
    validateEncodedValue value name = .ok () ↔
      Allowed 0 value ∧ value.count ≤ Limits.totalEncodedValues := by
  unfold validateEncodedValue
  rw [validatePending_iff, AllowedPending, AllowedPending, countPending, countPending, and_true,
    Nat.add_zero]

theorem encodeProtocolJson_ok {value : JsonData} {byteLimit : Nat} {name : String} {encoded : Bytes} :
    encodeProtocolJson value byteLimit name = .ok encoded ↔
      Allowed 0 value ∧ value.count ≤ Limits.totalEncodedValues ∧
        Utf8.byteLength value.stringify ≤ byteLimit ∧ encoded = Utf8.encode value.stringify := by
  unfold encodeProtocolJson
  cases hvalid : validateEncodedValue value name with
  | error e =>
    have hno : ¬ (Allowed 0 value ∧ value.count ≤ Limits.totalEncodedValues) := by
      rw [← validateEncodedValue_iff value name, hvalid]
      nofun
    rw [← and_assoc]
    exact ⟨nofun, fun h => absurd h.1 hno⟩
  | ok u =>
    have hyes := (validateEncodedValue_iff value name).mp hvalid
    rw [← and_assoc, and_iff_right hyes]
    change (if byteLimit < Utf8.byteLength value.stringify then limit _ else Except.ok _) = _ ↔ _
    split
    · rename_i hlong
      simp only [limit_ne_ok, Nat.not_le.mpr hlong, false_and]
    · rename_i hshort
      simp only [Except.ok.injEq, Nat.not_lt.mp hshort, true_and]
      exact eq_comm

theorem decodeProtocolJson_ok {encoded : Bytes} {byteLimit : Nat} {name : String} {value : JsonData} :
    decodeProtocolJson encoded byteLimit name = .ok value ↔
      encoded.length ≤ byteLimit ∧
        (Utf8.decode (Utf8.stripBom encoded)).bind JsonData.parse = some value ∧
          Allowed 0 value ∧ value.count ≤ Limits.totalEncodedValues := by
  unfold decodeProtocolJson
  split
  · rename_i hlong
    simp only [limit_ne_ok, Nat.not_le.mpr hlong, false_and]
  · rename_i hshort
    rw [and_iff_right (Nat.not_lt.mp hshort)]
    cases hparse : (Utf8.decode (Utf8.stripBom encoded)).bind JsonData.parse with
    | none => simp
    | some found =>
      rw [← validateEncodedValue_iff value name]
      dsimp only
      cases hvalid : validateEncodedValue found name with
      | error e =>
        constructor
        · exact nofun
        · rintro ⟨heq, hok⟩
          cases heq
          rw [hvalid] at hok
          cases hok
      | ok u =>
        constructor
        · intro heq
          cases heq
          exact ⟨rfl, hvalid⟩
        · rintro ⟨heq, -⟩
          exact congrArg Except.ok (Option.some.inj heq)

theorem decode_encodeProtocolJson {value : JsonData} {byteLimit : Nat} {name other : String}
    {encoded : Bytes} (hwell : value.WellFormed)
    (h : encodeProtocolJson value byteLimit name = .ok encoded) :
    decodeProtocolJson encoded byteLimit other = .ok value := by
  obtain ⟨hallowed, hcount, hbytes, rfl⟩ := encodeProtocolJson_ok.mp h
  apply decodeProtocolJson_ok.mpr
  rw [Utf8.stripBom_encode value.stringify_head, Utf8.decode_encode, Option.bind_some,
    JsonData.parse_stringify hwell]
  exact ⟨hbytes, rfl, hallowed, hcount⟩

theorem toList_encodeProtocolBase64Url (bytes : Bytes) :
    (encodeProtocolBase64Url bytes).toList = Base64.urlEncode bytes :=
  String.toList_ofList

theorem length_encodeProtocolBase64Url (bytes : Bytes) :
    (encodeProtocolBase64Url bytes).length = (bytes.length * 4 + 2) / 3 := by
  rw [← String.length_toList, toList_encodeProtocolBase64Url, Base64.length_urlEncode]

theorem all_isUrlChar_encode (bytes : Bytes) :
    (encodeProtocolBase64Url bytes).toList.all Base64.isUrlChar = true := by
  rw [toList_encodeProtocolBase64Url, List.all_eq_true]
  exact fun c hc => Base64.urlChar_of_mem hc

theorem decodeProtocolBase64Url_ok {value : Option JsonData} {byteLimit : Nat} {name : String}
    {decoded : Bytes} :
    decodeProtocolBase64Url value byteLimit name = .ok decoded ↔
      value = some (.text (encodeProtocolBase64Url decoded)) ∧ decoded.length ≤ byteLimit := by
  rw [← JsonData.bind_text?_eq_some]
  unfold decodeProtocolBase64Url
  constructor
  · intro h
    split at h
    · rename_i found hfound
      split at h
      · split at h
        · exact absurd h invalid_ne_ok
        · split at h
          · exact absurd h invalid_ne_ok
          · rename_i hsame
            split at h
            · exact absurd h limit_ne_ok
            · rename_i hshort
              cases h
              rw [ne_eq, not_not] at hsame
              exact ⟨by rw [hfound, hsame], Nat.not_lt.mp hshort⟩
      · exact absurd h invalid_ne_ok
    · exact absurd h invalid_ne_ok
  · rintro ⟨hvalue, hshort⟩
    rw [hvalue]
    dsimp only
    rw [if_pos (all_isUrlChar_encode decoded), toList_encodeProtocolBase64Url,
      Base64.urlDecode_urlEncode]
    dsimp only
    rw [if_neg (not_not.mpr rfl), if_neg (Nat.not_lt.mpr hshort)]

theorem toNat_of_isUrlChar {c : Char} (h : Base64.isUrlChar c = true) : c.toNat < 128 := by
  unfold Base64.isUrlChar at h
  rw [Bool.or_eq_true, Bool.or_eq_true, decide_eq_true_eq, decide_eq_true_eq] at h
  rcases h with (halnum | rfl) | rfl
  · delta Char.isAlphanum Char.isAlpha Char.isUpper Char.isLower Char.isDigit at halnum
    simp only [Bool.or_eq_true, Bool.and_eq_true, decide_eq_true_eq, UInt32.le_iff_toNat_le,
      ge_iff_le] at halnum
    have hval : c.toNat = c.val.toNat := rfl
    have hupper : 'Z'.val.toNat = 90 := rfl
    have hlower : 'z'.val.toNat = 122 := rfl
    have hdigit : '9'.val.toNat = 57 := rfl
    omega
  · decide
  · decide

theorem isPlainChar_of_isUrlChar {c : Char} (h : Base64.isUrlChar c = true) :
    JsonData.isPlainChar c = true := by
  have hsmall : ∀ n < 128, Base64.isUrlChar (Char.ofNat n) = true →
      JsonData.isPlainChar (Char.ofNat n) = true := by
    decide
  have hchar := hsmall c.toNat (toNat_of_isUrlChar h)
  rw [Char.ofNat_toNat] at hchar
  exact hchar h

theorem isPlain_of_isUrlChar {s : String} (h : s.toList.all Base64.isUrlChar = true) :
    JsonData.isPlain s = true := by
  rw [List.all_eq_true] at h
  exact List.all_eq_true.mpr fun c hc => isPlainChar_of_isUrlChar (h c hc)

end Harness.RemoteProtocol
