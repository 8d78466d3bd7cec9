import Harness.Persistence.Migration

namespace Harness.Persistence

open Harness.Foundation

theorem hasType_iff {event : Json} {type : String} :
    hasType event type = true ↔ event.get? "type" = some (.str type) := by
  simp [hasType]

theorem hasType_ne {event : Json} {type other : String} (h : hasType event type = true)
    (hne : type ≠ other) : hasType event other = false := by
  rw [hasType_iff] at h
  simp [hasType, h, hne]

def SameEnvelope (migrated event : Json) : Prop :=
  ∀ key, key ≠ "type" → key ≠ "data" → migrated.get? key = event.get? key

theorem SameEnvelope.refl (event : Json) : SameEnvelope event event := fun _ _ _ => rfl

theorem SameEnvelope.trans {a b c : Json} (h : SameEnvelope a b) (h' : SameEnvelope b c) :
    SameEnvelope a c := fun key htype hdata => (h key htype hdata).trans (h' key htype hdata)

theorem withData_get? (event data : Json) (key : String) :
    (withData event data).get? key = if key = "data" then some data else event.get? key := by
  have h := Json.get?_spread_last event [] "data" data key
  rw [Json.get?_spread_nil] at h
  exact h

theorem withData_sameEnvelope (event data : Json) : SameEnvelope (withData event data) event := by
  intro key _ hdata
  rw [withData_get?, if_neg hdata]

@[simp] theorem withData_hasType (event data : Json) (type : String) :
    hasType (withData event data) type = hasType event type := by
  simp [hasType, withData_get?]

@[simp] theorem withData_dataRecord (event : Json) (fields : List (String × Json)) :
    dataRecord (withData event (.obj fields)) = some fields := by
  simp [dataRecord, withData_get?, asRecord, Json.fields?]

section Start

variable {event migrated : Json} {id : String}

theorem migrateLegacyTurnStartEvent_of_type (h : hasType event "turn/start" = false) :
    migrateLegacyTurnStartEvent event id = .ok event := by
  simp [migrateLegacyTurnStartEvent, h]

theorem migrateLegacyTurnStartEvent_of_fields {fields : List (String × Json)}
    (hdata : dataRecord event = some fields) (htrigger : Json.hasOwn fields "trigger" = false) :
    migrateLegacyTurnStartEvent event id = .ok event := by
  simp [migrateLegacyTurnStartEvent, hdata, htrigger]

theorem migrateLegacyTurnStartEvent_ok (h : migrateLegacyTurnStartEvent event id = .ok migrated) :
    migrated = event ∨ hasType event "turn/start" = true ∧ ∃ fields,
      migrated = withData event (.obj fields) ∧ Json.hasOwn fields "trigger" = false := by
  unfold migrateLegacyTurnStartEvent at h
  split at h
  · exact .inl (Except.ok.inj h).symm
  · rename_i htype
    split at h
    · exact .inl (Except.ok.inj h).symm
    · rename_i data hdata
      split at h
      · exact .inl (Except.ok.inj h).symm
      · obtain ⟨_, _, hresult⟩ := bind_eq_ok.mp h
        refine .inr ⟨by simpa using htype, _, (Except.ok.inj hresult).symm, ?_⟩
        cases data.lookup "turn" <;> rfl

theorem migrateLegacyTurnStartEvent_hasType
    (h : migrateLegacyTurnStartEvent event id = .ok migrated) (type : String) :
    hasType migrated type = hasType event type := by
  cases migrateLegacyTurnStartEvent_ok h with
  | inl heq => rw [heq]
  | inr hchanged =>
    obtain ⟨_, fields, rfl, _⟩ := hchanged
    rw [withData_hasType]

theorem migrateLegacyTurnStartEvent_again (h : migrateLegacyTurnStartEvent event id = .ok migrated) :
    migrateLegacyTurnStartEvent migrated id = .ok migrated := by
  cases migrateLegacyTurnStartEvent_ok h with
  | inl heq => rwa [heq] at h ⊢
  | inr hchanged =>
    obtain ⟨_, fields, rfl, htrigger⟩ := hchanged
    exact migrateLegacyTurnStartEvent_of_fields (withData_dataRecord event fields) htrigger

end Start

theorem hasOwn_setField (fields : List (String × Json)) (key : String) (value : Json)
    (other : String) : Json.hasOwn (Json.setField fields key value) other =
      (decide (other = key) || Json.hasOwn fields other) := by
  unfold Json.hasOwn
  rw [Json.lookup_setField]
  by_cases hother : other = key <;> simp [hother]

theorem hasOnlyKeys_setField {fields : List (String × Json)} {required : List String}
    (h : Json.hasOnlyKeys fields required [] = true) {key : String} (hkey : key ∈ required)
    (value : Json) : Json.hasOnlyKeys (Json.setField fields key value) required [] = true := by
  unfold Json.hasOnlyKeys at h ⊢
  rw [Bool.and_eq_true, List.all_eq_true, List.all_eq_true] at h ⊢
  refine ⟨?_, fun other hother => ?_⟩
  · intro field hfield
    have hown : Json.hasOwn fields key = true := h.2 key hkey
    rw [Json.setField, if_pos hown] at hfield
    obtain ⟨old, hold, rfl⟩ := List.mem_map.mp hfield
    split
    · simpa using hkey
    · exact h.1 old hold
  · rw [hasOwn_setField, h.2 other hother, Bool.or_true]

section End

variable {event migrated : Json} {id : String}

theorem migrateLegacyTurnEndEvent_of_type (h : hasType event "turn/end" = false) :
    migrateLegacyTurnEndEvent event id = .ok event := by
  simp [migrateLegacyTurnEndEvent, h]

/-- A reason as the current vocabulary has it; plugins may add kinds of their own. -/
def IsCurrentReason (reason : List (String × Json)) (kind : String) : Prop :=
  (kind ∈ ["completed", "blocked", "max-tokens", "interrupted"] →
    Json.hasOnlyKeys reason ["kind"] [] = true) ∧
  (kind = "aborted" → Json.hasOwn reason "reason" = true) ∧ kind ≠ "disposed" ∧
  (kind = "error" → Json.hasOwn reason "error" = true)

theorem currentReason_eq_none {reason : List (String × Json)} {kind malformed : String} :
    currentReason reason kind malformed = .ok none ↔ IsCurrentReason reason kind := by
  unfold currentReason IsCurrentReason
  split
  · rename_i hplain
    have hne : kind ≠ "aborted" ∧ kind ≠ "disposed" ∧ kind ≠ "error" := by
      simp only [List.mem_cons, List.not_mem_nil, or_false] at hplain
      rcases hplain with rfl | rfl | rfl | rfl <;> decide
    cases Json.hasOnlyKeys reason ["kind"] [] <;> simp [hplain, hne]
  · rename_i hplain
    by_cases haborted : kind = "aborted"
    · subst haborted
      rw [if_pos rfl]
      cases Json.hasOwn reason "reason"
      · cases Json.hasOnlyKeys reason ["kind"] [] <;> simp
      · simp
    · rw [if_neg haborted]
      by_cases hdisposed : kind = "disposed"
      · subst hdisposed
        rw [if_pos rfl]
        cases Json.hasOnlyKeys reason ["kind"] [] <;> simp
      · rw [if_neg hdisposed]
        by_cases herror : kind = "error"
        · subst herror
          rw [if_pos rfl]
          cases Json.hasOwn reason "error"
          · cases isAtLeast reason "step" 0
            · simp
            · cases legacyError reason malformed <;> simp
          · simp
        · simp [hplain, haborted, hdisposed, herror]

theorem isCurrentReason_aborted (kind : String) :
    IsCurrentReason [("kind", .str "aborted"), ("reason", .obj [("kind", .str kind)])] "aborted" := by
  refine ⟨by simp, fun _ => rfl, by simp, by simp⟩

theorem isCurrentReason_error (error : Json) :
    IsCurrentReason [("kind", .str "error"), ("error", error)] "error" := by
  refine ⟨by simp, by simp, by simp, fun _ => rfl⟩

theorem currentReason_eq_some {reason : List (String × Json)} {kind malformed : String}
    {current : Json} (h : currentReason reason kind malformed = .ok (some current)) :
    ∃ fields kind', current = .obj fields ∧ fields.lookup "kind" = some (.str kind') ∧
      IsCurrentReason fields kind' := by
  unfold currentReason at h
  split at h
  · obtain ⟨_, _, hresult⟩ := bind_eq_ok.mp h
    simp at hresult
  · split at h
    · split at h
      · simp at h
      · obtain ⟨_, _, hresult⟩ := bind_eq_ok.mp h
        obtain rfl := Option.some.inj (Except.ok.inj hresult)
        exact ⟨_, "aborted", rfl, rfl, isCurrentReason_aborted "legacy"⟩
    · split at h
      · obtain ⟨_, _, hresult⟩ := bind_eq_ok.mp h
        obtain rfl := Option.some.inj (Except.ok.inj hresult)
        exact ⟨_, "aborted", rfl, rfl, isCurrentReason_aborted "disposed"⟩
      · split at h
        · split at h
          · simp at h
          · obtain ⟨_, _, hrest⟩ := bind_eq_ok.mp h
            obtain ⟨error, _, hresult⟩ := bind_eq_ok.mp hrest
            obtain rfl := Option.some.inj (Except.ok.inj hresult)
            exact ⟨_, "error", rfl, rfl, isCurrentReason_error error⟩
        · simp at h

def IsCurrentEnd (data : List (String × Json)) : Prop :=
  isAtLeast data "turn" 1 = true ∧ Json.hasOnlyKeys data ["turn", "reason"] [] = true ∧
    ∃ reason kind, reasonKind data = some (reason, kind) ∧ IsCurrentReason reason kind

theorem migrateLegacyTurnEndEvent_of_current {data : List (String × Json)}
    (hdata : dataRecord event = some data) (hcurrent : IsCurrentEnd data) :
    migrateLegacyTurnEndEvent event id = .ok event := by
  obtain ⟨hturn, hkeys, reason, kind, hreason, hkind⟩ := hcurrent
  have hnone : currentReason reason kind (malformedLegacy event id "turn/end") = .ok none :=
    currentReason_eq_none.mpr hkind
  unfold migrateLegacyTurnEndEvent
  split
  · rfl
  · simp [hdata, hturn, hkeys, hreason, hnone]

theorem isCurrentEnd_setField {data fields : List (String × Json)} {kind : String}
    (hturn : isAtLeast data "turn" 1 = true)
    (hkeys : Json.hasOnlyKeys data ["turn", "reason"] [] = true)
    (hkind : fields.lookup "kind" = some (.str kind)) (hcurrent : IsCurrentReason fields kind) :
    IsCurrentEnd (Json.setField data "reason" (.obj fields)) := by
  refine ⟨?_, hasOnlyKeys_setField hkeys (by simp) _, fields, kind, ?_, hcurrent⟩
  · simpa [isAtLeast, Json.lookup_setField] using hturn
  · simp [reasonKind, Json.lookup_setField, asRecord, Json.fields?, hkind]

theorem migrateLegacyTurnEndEvent_ok (h : migrateLegacyTurnEndEvent event id = .ok migrated) :
    migrated = event ∨ hasType event "turn/end" = true ∧ ∃ fields,
      migrated = withData event (.obj fields) ∧ IsCurrentEnd fields := by
  unfold migrateLegacyTurnEndEvent at h
  split at h
  · exact .inl (Except.ok.inj h).symm
  · rename_i htype
    split at h
    · exact .inl (Except.ok.inj h).symm
    · rename_i data hdata
      obtain ⟨_, hshape, hrest⟩ := bind_eq_ok.mp h
      obtain ⟨reason, hreason, hrest⟩ := bind_eq_ok.mp hrest
      obtain ⟨current, hcurrent, hresult⟩ := bind_eq_ok.mp hrest
      cases current with
      | none => exact .inl (Except.ok.inj hresult).symm
      | some current =>
        obtain ⟨fields, kind, rfl, hkind, hcurrentKind⟩ := currentReason_eq_some hcurrent
        rw [require_eq_ok, Bool.and_eq_true] at hshape
        exact .inr ⟨by simpa using htype, _, (Except.ok.inj hresult).symm,
          isCurrentEnd_setField hshape.1 hshape.2 hkind hcurrentKind⟩

theorem migrateLegacyTurnEndEvent_hasType
    (h : migrateLegacyTurnEndEvent event id = .ok migrated) (type : String) :
    hasType migrated type = hasType event type := by
  cases migrateLegacyTurnEndEvent_ok h with
  | inl heq => rw [heq]
  | inr hchanged =>
    obtain ⟨_, fields, rfl, _⟩ := hchanged
    rw [withData_hasType]

theorem migrateLegacyTurnEndEvent_again (h : migrateLegacyTurnEndEvent event id = .ok migrated) :
    migrateLegacyTurnEndEvent migrated id = .ok migrated := by
  cases migrateLegacyTurnEndEvent_ok h with
  | inl heq => rwa [heq] at h ⊢
  | inr hchanged =>
    obtain ⟨_, fields, rfl, hcurrent⟩ := hchanged
    exact migrateLegacyTurnEndEvent_of_current (withData_dataRecord event fields) hcurrent

end End

section Message

variable {event migrated : Json} {id : String} {messageIds : MessageIds}

theorem migratedUser_eq (event : Json) (id : String) (data : List (String × Json)) :
    migratedUser event id data = event ∨ ∃ data', migratedUser event id data = withData event data' := by
  unfold migratedUser
  split
  · exact .inl rfl
  · exact .inr ⟨_, rfl⟩

theorem migratedAssistant_eq (event : Json) (id : String) (data : List (String × Json)) :
    migratedAssistant event id data = event ∨
      ∃ data', migratedAssistant event id data = withData event data' := by
  unfold migratedAssistant
  split
  · exact .inl rfl
  · exact .inr ⟨_, rfl⟩

theorem migratedResult_eq (event : Json) (id : String) (messageIds : MessageIds)
    (data : List (String × Json)) : migratedResult event id messageIds data = event ∨
      ∃ data', migratedResult event id messageIds data = withData event data' := by
  unfold migratedResult
  split
  · exact .inl rfl
  · exact .inr ⟨_, rfl⟩

theorem migrateLegacyMessageEvent_eq (event : Json) (id : String) (messageIds : MessageIds) :
    migrateLegacyMessageEvent event id messageIds = event ∨ isMessageType event = true ∧
      ∃ data, migrateLegacyMessageEvent event id messageIds = withData event data := by
  unfold migrateLegacyMessageEvent isMessageType
  cases dataRecord event with
  | none => exact .inl rfl
  | some data =>
    cases huser : hasType event "user/message" with
    | true => exact (migratedUser_eq event id data).imp_right fun h => ⟨rfl, h⟩
    | false =>
      cases hassistant : hasType event "assistant/message" with
      | true => exact (migratedAssistant_eq event id data).imp_right fun h => ⟨rfl, h⟩
      | false =>
        cases hresult : hasType event "tool/result" with
        | true => exact (migratedResult_eq event id messageIds data).imp_right fun h => ⟨rfl, h⟩
        | false => exact .inl rfl

theorem migrateLegacyMessageEvent_of_type (h : isMessageType event = false) :
    migrateLegacyMessageEvent event id messageIds = event := by
  cases migrateLegacyMessageEvent_eq event id messageIds with
  | inl heq => exact heq
  | inr hchanged => simp [h] at hchanged

theorem migrateLegacyMessageEvent_hasType (type : String) :
    hasType (migrateLegacyMessageEvent event id messageIds) type = hasType event type := by
  cases migrateLegacyMessageEvent_eq event id messageIds with
  | inl heq => rw [heq]
  | inr hchanged =>
    obtain ⟨_, data, heq⟩ := hchanged
    rw [heq, withData_hasType]

theorem migrateLegacyMessageEvent_sameEnvelope :
    SameEnvelope (migrateLegacyMessageEvent event id messageIds) event := by
  cases migrateLegacyMessageEvent_eq event id messageIds with
  | inl heq => rw [heq]; exact .refl event
  | inr hchanged =>
    obtain ⟨_, data, heq⟩ := hchanged
    rw [heq]
    exact withData_sameEnvelope event data

theorem nonEmptyString_iff {value : Option Json} :
    nonEmptyString value = true ↔ ∃ s, value = some (.str s) ∧ s ≠ "" := by
  unfold nonEmptyString
  split
  · rename_i s
    simp
  · rename_i hnot
    simp only [Bool.false_eq_true, false_iff, not_exists, not_and]
    intro s hs
    exact absurd hs (hnot s)

theorem identified_of_shape {subject : String}
    (hshape : assertMessageEventShape event subject = .ok ()) (htype : isMessageType event = true) :
    ∃ message, messageOf event = some message ∧ (message.get? "id").isSome = true := by
  simp only [assertMessageEventShape, htype, Bool.not_true, Bool.false_eq_true, if_false] at hshape
  obtain ⟨_, hid, _⟩ := bind_eq_ok.mp hshape
  obtain ⟨messageId, hfound, _⟩ := nonEmptyString_iff.mp (require_eq_ok.mp hid)
  obtain ⟨message, hmessage, hget⟩ := Option.bind_eq_some_iff.mp hfound
  exact ⟨message, hmessage, by rw [hget]; rfl⟩

theorem fields_of_get? {value : Json} {key : String} (h : (value.get? key).isSome = true) :
    ∃ fields, value = .obj fields ∧ Json.hasOwn fields key = true := by
  cases value with
  | obj fields => exact ⟨fields, rfl, h⟩
  | _ => simp [Json.get?] at h

theorem migrateLegacyMessageEvent_of_shape {subject : String}
    (hshape : assertMessageEventShape event subject = .ok ()) :
    migrateLegacyMessageEvent event id messageIds = event := by
  cases htype : isMessageType event with
  | false => exact migrateLegacyMessageEvent_of_type htype
  | true =>
    obtain ⟨message, hmessage, hid⟩ := identified_of_shape hshape htype
    unfold messageOf at hmessage
    unfold migrateLegacyMessageEvent
    cases huser : hasType event "user/message" with
    | true =>
      rw [huser, if_pos rfl] at hmessage
      obtain ⟨fields, rfl, hown⟩ := fields_of_get? hid
      simp [dataRecord, asRecord, hmessage, Json.fields?, migratedUser, hown]
    | false =>
      rw [huser, if_neg (by simp)] at hmessage
      obtain ⟨data, hdata, hmessage⟩ := Option.bind_eq_some_iff.mp hmessage
      obtain ⟨fields, rfl, hown⟩ := fields_of_get? (show (data.get? "message").isSome = true by
        rw [hmessage]; rfl)
      simp [dataRecord, asRecord, hdata, Json.fields?, migratedAssistant, migratedResult, hown]

end Message

section Steering

variable {event migrated : Json} {id : String}

theorem migrateLegacySteeringEvent_of_type (h : hasType event "steering/message" = false) :
    migrateLegacySteeringEvent event id = .ok event := by
  simp [migrateLegacySteeringEvent, h]

theorem spread_typed (event : Json) (type : String) (data : Json) :
    hasType (event.spread [("type", .str type), ("data", data)]) type = true ∧
      SameEnvelope (event.spread [("type", .str type), ("data", data)]) event := by
  have hget := fun key => Json.get?_spread_last event [("type", .str type)] "data" data key
  have htype := fun key => Json.get?_spread_last event [] "type" (.str type) key
  simp only [List.singleton_append, List.nil_append] at hget htype
  refine ⟨?_, fun key hkey hdata => ?_⟩
  · rw [hasType_iff, hget, if_neg (by decide), htype, if_pos rfl]
  · rw [hget, if_neg hdata, htype, if_neg hkey, Json.get?_spread_nil]

theorem migrateLegacySteeringEvent_ok (htype : hasType event "steering/message" = true)
    (h : migrateLegacySteeringEvent event id = .ok migrated) :
    hasType migrated "user/message" = true ∧ SameEnvelope migrated event := by
  simp only [migrateLegacySteeringEvent, htype, Bool.not_true, Bool.false_eq_true, if_false] at h
  obtain ⟨data, _, h⟩ := bind_eq_ok.mp h
  split at h
  · obtain rfl := Except.ok.inj h
    exact spread_typed event _ _
  · obtain ⟨_, _, hresult⟩ := bind_eq_ok.mp h
    obtain rfl := Except.ok.inj hresult
    exact spread_typed event _ _

end Steering

section Event

variable {event migrated : Json} {id : String} {messageIds : MessageIds}

theorem isMessageType_ne {type : String} (h : hasType event type = true)
    (hne : type ∉ ["user/message", "assistant/message", "tool/result"]) :
    isMessageType event = false := by
  simp only [List.mem_cons, List.not_mem_nil, or_false, not_or] at hne
  simp [isMessageType, hasType_ne h hne.1, hasType_ne h hne.2.1, hasType_ne h hne.2.2]

theorem migrateLegacyEvent_turnStart (h : hasType event "turn/start" = true) :
    migrateLegacyEvent event id messageIds = migrateLegacyTurnStartEvent event id := by
  unfold migrateLegacyEvent
  cases hstart : migrateLegacyTurnStartEvent event id with
  | error message => rfl
  | ok migrated =>
    have htype : hasType migrated "turn/start" = true := by
      rwa [migrateLegacyTurnStartEvent_hasType hstart]
    simp [migrateLegacyTurnEndEvent_of_type (hasType_ne htype (by decide : _ ≠ "turn/end")),
      migrateLegacySteeringEvent_of_type (hasType_ne htype (by decide : _ ≠ "steering/message")),
      migrateLegacyMessageEvent_of_type (isMessageType_ne htype (by decide))]

theorem migrateLegacyEvent_turnEnd (h : hasType event "turn/end" = true) :
    migrateLegacyEvent event id messageIds = migrateLegacyTurnEndEvent event id := by
  unfold migrateLegacyEvent
  rw [migrateLegacyTurnStartEvent_of_type (hasType_ne h (by decide)), ok_bind]
  cases hend : migrateLegacyTurnEndEvent event id with
  | error message => rfl
  | ok migrated =>
    have htype : hasType migrated "turn/end" = true := by
      rwa [migrateLegacyTurnEndEvent_hasType hend]
    simp [migrateLegacySteeringEvent_of_type (hasType_ne htype (by decide : _ ≠ "steering/message")),
      migrateLegacyMessageEvent_of_type (isMessageType_ne htype (by decide))]

theorem migrateLegacyEvent_steering (h : hasType event "steering/message" = true) :
    migrateLegacyEvent event id messageIds = (do
      let migrated ← migrateLegacySteeringEvent event id
      return migrateLegacyMessageEvent migrated id messageIds) := by
  unfold migrateLegacyEvent
  rw [migrateLegacyTurnStartEvent_of_type (hasType_ne h (by decide)), ok_bind,
    migrateLegacyTurnEndEvent_of_type (hasType_ne h (by decide)), ok_bind]

theorem migrateLegacyEvent_other (hstart : hasType event "turn/start" = false)
    (hend : hasType event "turn/end" = false) (hsteering : hasType event "steering/message" = false) :
    migrateLegacyEvent event id messageIds =
      .ok (migrateLegacyMessageEvent event id messageIds) := by
  unfold migrateLegacyEvent
  rw [migrateLegacyTurnStartEvent_of_type hstart, ok_bind,
    migrateLegacyTurnEndEvent_of_type hend, ok_bind,
    migrateLegacySteeringEvent_of_type hsteering, ok_bind]
  rfl

def migratedTypes : List String :=
  ["turn/start", "turn/end", "user/message", "assistant/message", "tool/result"]

theorem hasType_of_isMessageType (h : isMessageType event = true) :
    ∃ type ∈ migratedTypes, hasType event type = true := by
  simp only [isMessageType, Bool.or_eq_true] at h
  obtain (h | h) | h := h
  · exact ⟨_, by simp [migratedTypes], h⟩
  · exact ⟨_, by simp [migratedTypes], h⟩
  · exact ⟨_, by simp [migratedTypes], h⟩

theorem migrateLegacyEvent_ok (h : migrateLegacyEvent event id messageIds = .ok migrated) :
    migrated = event ∨
      (∃ type ∈ migratedTypes, hasType migrated type = true) ∧ SameEnvelope migrated event := by
  cases hstart : hasType event "turn/start" with
  | true =>
    rw [migrateLegacyEvent_turnStart hstart] at h
    refine (migrateLegacyTurnStartEvent_ok h).imp_right fun hchanged => ?_
    obtain ⟨_, fields, rfl, _⟩ := hchanged
    refine ⟨⟨"turn/start", by simp [migratedTypes], ?_⟩, withData_sameEnvelope event _⟩
    rwa [withData_hasType]
  | false =>
    cases hend : hasType event "turn/end" with
    | true =>
      rw [migrateLegacyEvent_turnEnd hend] at h
      refine (migrateLegacyTurnEndEvent_ok h).imp_right fun hchanged => ?_
      obtain ⟨_, fields, rfl, _⟩ := hchanged
      refine ⟨⟨"turn/end", by simp [migratedTypes], ?_⟩, withData_sameEnvelope event _⟩
      rwa [withData_hasType]
    | false =>
      cases hsteering : hasType event "steering/message" with
      | true =>
        rw [migrateLegacyEvent_steering hsteering] at h
        obtain ⟨steered, hsteered, hresult⟩ := bind_eq_ok.mp h
        obtain rfl := Except.ok.inj hresult
        obtain ⟨htype, hsame⟩ := migrateLegacySteeringEvent_ok hsteering hsteered
        refine .inr ⟨⟨"user/message", by simp [migratedTypes], ?_⟩,
          migrateLegacyMessageEvent_sameEnvelope.trans hsame⟩
        rwa [migrateLegacyMessageEvent_hasType]
      | false =>
        rw [migrateLegacyEvent_other hstart hend hsteering] at h
        obtain rfl := Except.ok.inj h
        refine (migrateLegacyMessageEvent_eq event id messageIds).imp_right fun hchanged => ?_
        obtain ⟨htype, _⟩ := hchanged
        obtain ⟨type, hmem, htype⟩ := hasType_of_isMessageType htype
        exact ⟨⟨type, hmem, by rwa [migrateLegacyMessageEvent_hasType]⟩,
          migrateLegacyMessageEvent_sameEnvelope⟩

theorem migrateLegacyEvent_sameEnvelope (h : migrateLegacyEvent event id messageIds = .ok migrated) :
    SameEnvelope migrated event := by
  cases migrateLegacyEvent_ok h with
  | inl heq => rw [heq]; exact .refl event
  | inr hchanged => exact hchanged.2

def Settled (event : Json) (id : String) : Prop :=
  ∀ messageIds, migrateLegacyEvent event id messageIds = .ok event

theorem settled_of_message {subject : String} (htype : isMessageType event = true)
    (hshape : assertMessageEventShape event subject = .ok ()) : Settled event id := by
  intro messageIds
  have hne : ∀ type, type ∉ ["user/message", "assistant/message", "tool/result"] →
      hasType event type = false := by
    intro type htypes
    cases hfound : hasType event type with
    | false => rfl
    | true => rw [isMessageType_ne hfound htypes] at htype; simp at htype
  rw [migrateLegacyEvent_other (hne _ (by decide)) (hne _ (by decide)) (hne _ (by decide)),
    migrateLegacyMessageEvent_of_shape hshape]

theorem migrateLegacyEvent_settled {subject : String}
    (h : migrateLegacyEvent event id messageIds = .ok migrated)
    (hshape : assertMessageEventShape migrated subject = .ok ()) : Settled migrated id := by
  cases hmessage : isMessageType migrated with
  | true => exact settled_of_message hmessage hshape
  | false =>
    intro later
    cases hstart : hasType event "turn/start" with
    | true =>
      rw [migrateLegacyEvent_turnStart hstart] at h
      have htype : hasType migrated "turn/start" = true := by
        rwa [migrateLegacyTurnStartEvent_hasType h]
      rw [migrateLegacyEvent_turnStart htype, migrateLegacyTurnStartEvent_again h]
    | false =>
      cases hend : hasType event "turn/end" with
      | true =>
        rw [migrateLegacyEvent_turnEnd hend] at h
        have htype : hasType migrated "turn/end" = true := by
          rwa [migrateLegacyTurnEndEvent_hasType h]
        rw [migrateLegacyEvent_turnEnd htype, migrateLegacyTurnEndEvent_again h]
      | false =>
        cases hsteering : hasType event "steering/message" with
        | true =>
          rw [migrateLegacyEvent_steering hsteering] at h
          obtain ⟨steered, hsteered, hresult⟩ := bind_eq_ok.mp h
          obtain rfl := Except.ok.inj hresult
          obtain ⟨htype, _⟩ := migrateLegacySteeringEvent_ok hsteering hsteered
          simp [isMessageType, migrateLegacyMessageEvent_hasType, htype] at hmessage
        | false =>
          rw [migrateLegacyEvent_other hstart hend hsteering] at h
          obtain rfl := Except.ok.inj h
          simp only [isMessageType, migrateLegacyMessageEvent_hasType] at hmessage
          have hsame : migrateLegacyMessageEvent event id messageIds = event :=
            migrateLegacyMessageEvent_of_type hmessage
          rw [hsame, migrateLegacyEvent_other hstart hend hsteering,
            migrateLegacyMessageEvent_of_type hmessage]

end Event

section Log

variable {event migrated : Json} {events snapshot : List Json} {id : String}
  {messageIds : MessageIds}

structure Supported (event : Json) : Prop where
  headerDelta : hasType event "request/header-delta" = false
  modeSet : hasType event "mode/set" = false
  header : isFallback event = .ok false

theorem refuseType_eq_ok {type : String} :
    refuseType events id type = .ok () ↔ ∀ event ∈ events, hasType event type = false := by
  unfold refuseType
  cases hfound : events.find? fun event => hasType event type with
  | none => simpa using hfound
  | some event =>
    simp only [reduceCtorEq, false_iff, not_forall]
    exact ⟨event, List.mem_of_find?_eq_some hfound, by simpa using List.find?_some hfound⟩

theorem refuseFallback_eq_ok :
    refuseFallback id events = .ok () ↔ ∀ event ∈ events, isFallback event = .ok false := by
  induction events with
  | nil => simp [refuseFallback]
  | cons event events ih =>
    rw [refuseFallback, List.forall_mem_cons]
    cases isFallback event with
    | error message => simp
    | ok fallback => cases fallback <;> simp [ih]

theorem assertSupportedEvents_eq_ok :
    assertSupportedEvents events id = .ok () ↔ ∀ event ∈ events, Supported event := by
  unfold assertSupportedEvents
  constructor
  · intro h
    obtain ⟨_, hdelta, h⟩ := bind_eq_ok.mp h
    obtain ⟨_, hmode, h⟩ := bind_eq_ok.mp h
    exact fun event hevent => ⟨refuseType_eq_ok.mp hdelta event hevent,
      refuseType_eq_ok.mp hmode event hevent, refuseFallback_eq_ok.mp h event hevent⟩
  · intro h
    rw [refuseType_eq_ok.mpr fun event hevent => (h event hevent).headerDelta, ok_bind,
      refuseType_eq_ok.mpr fun event hevent => (h event hevent).modeSet, ok_bind]
    exact refuseFallback_eq_ok.mpr fun event hevent => (h event hevent).header

theorem supported_of_type {type : String} (htype : hasType event type = true)
    (hmem : type ∈ migratedTypes) : Supported event := by
  have hne : ∀ other, other ∉ migratedTypes → hasType event other = false := by
    intro other hother
    exact hasType_ne htype fun heq => hother (heq ▸ hmem)
  refine ⟨hne _ (by decide), hne _ (by decide), ?_⟩
  simp [isFallback, hne "request/header" (by decide)]

theorem Supported.migrate (h : Supported event)
    (hmigrate : migrateLegacyEvent event id messageIds = .ok migrated) : Supported migrated := by
  cases migrateLegacyEvent_ok hmigrate with
  | inl heq => rwa [heq]
  | inr hchanged =>
    obtain ⟨⟨type, hmem, htype⟩, _⟩ := hchanged
    exact supported_of_type htype hmem

structure Upgraded (id : String) (upgraded event : Json) : Prop where
  envelope : SameEnvelope upgraded event
  settled : Settled upgraded id
  adopted : adoptSessionEvent upgraded = .ok upgraded
  supported : Supported event → Supported upgraded

theorem adoptSessionEvent_eq_ok {adopted : Json} : adoptSessionEvent event = .ok adopted ↔
    assertMessageEventShape event s!"session event at seq {seqText event}" = .ok () ∧
      event = adopted := by
  unfold adoptSessionEvent
  rw [bind_eq_ok]
  constructor
  · intro h
    obtain ⟨_, hshape, hresult⟩ := h
    exact ⟨hshape, Except.ok.inj hresult⟩
  · intro h
    exact ⟨(), h.1, congrArg Except.ok h.2⟩

theorem upgraded_of_migrate {adopted : Json}
    (hmigrate : migrateLegacyEvent event id messageIds = .ok migrated)
    (hadopt : adoptSessionEvent migrated = .ok adopted) : Upgraded id adopted event := by
  obtain ⟨hshape, rfl⟩ := adoptSessionEvent_eq_ok.mp hadopt
  exact
    { envelope := migrateLegacyEvent_sameEnvelope hmigrate
      settled := migrateLegacyEvent_settled hmigrate hshape
      adopted := hadopt
      supported := fun h => h.migrate hmigrate }

theorem snapshotEvents_upgraded (h : snapshotEvents id messageIds events = .ok snapshot) :
    List.Forall₂ (Upgraded id) snapshot events := by
  induction events generalizing messageIds snapshot with
  | nil =>
    obtain rfl := Except.ok.inj h
    exact .nil
  | cons event events ih =>
    obtain ⟨migrated, hmigrate, h⟩ := bind_eq_ok.mp h
    obtain ⟨adopted, hadopt, h⟩ := bind_eq_ok.mp h
    obtain ⟨rest, hrest, hresult⟩ := bind_eq_ok.mp h
    obtain rfl := Except.ok.inj hresult
    exact .cons (upgraded_of_migrate hmigrate hadopt) (ih hrest)

theorem snapshotEvents_of_settled (h : ∀ event ∈ events, Settled event id)
    (hadopt : ∀ event ∈ events, adoptSessionEvent event = .ok event) :
    snapshotEvents id messageIds events = .ok events := by
  induction events generalizing messageIds with
  | nil => rfl
  | cons event events ih =>
    rw [snapshotEvents, h event List.mem_cons_self messageIds, ok_bind, snapshotSessionEvent,
      hadopt event List.mem_cons_self, ok_bind,
      ih (fun other hother => h other (List.mem_cons_of_mem _ hother))
        fun other hother => hadopt other (List.mem_cons_of_mem _ hother)]
    rfl

theorem snapshotStoredEvents_of_settled (hsupported : ∀ event ∈ events, Supported event)
    (h : ∀ event ∈ events, Settled event id)
    (hadopt : ∀ event ∈ events, adoptSessionEvent event = .ok event) :
    snapshotStoredEvents events id = .ok events := by
  rw [snapshotStoredEvents, assertSupportedEvents_eq_ok.mpr hsupported, ok_bind,
    snapshotEvents_of_settled h hadopt]

theorem snapshotStoredEvents_eq_ok : snapshotStoredEvents events id = .ok snapshot ↔
    (∀ event ∈ events, Supported event) ∧
      snapshotEvents id OrderedMap.empty events = .ok snapshot := by
  unfold snapshotStoredEvents
  rw [bind_eq_ok]
  constructor
  · rintro ⟨_, hsupported, h⟩
    exact ⟨assertSupportedEvents_eq_ok.mp hsupported, h⟩
  · rintro ⟨hsupported, h⟩
    exact ⟨(), assertSupportedEvents_eq_ok.mpr hsupported, h⟩

theorem forall_upgraded {P : Json → Prop} (h : List.Forall₂ (Upgraded id) snapshot events)
    (hP : ∀ upgraded event, event ∈ events → Upgraded id upgraded event → P upgraded) :
    ∀ upgraded ∈ snapshot, P upgraded := by
  induction h with
  | nil => simp
  | cons hhead _ ih =>
    rw [List.forall_mem_cons]
    exact ⟨hP _ _ List.mem_cons_self hhead,
      ih fun upgraded event hevent => hP upgraded event (List.mem_cons_of_mem _ hevent)⟩

theorem snapshotStoredEvents_again (h : snapshotStoredEvents events id = .ok snapshot) :
    snapshotStoredEvents snapshot id = .ok snapshot := by
  obtain ⟨hsupported, h⟩ := snapshotStoredEvents_eq_ok.mp h
  have hupgraded := snapshotEvents_upgraded h
  exact snapshotStoredEvents_of_settled
    (forall_upgraded hupgraded fun _ event hevent hu => hu.supported (hsupported event hevent))
    (forall_upgraded hupgraded fun _ _ _ hu => hu.settled)
    (forall_upgraded hupgraded fun _ _ _ hu => hu.adopted)

theorem adoptFrom_eq (done : List Json) :
    adoptFrom id events.length done.length messageIds (done ++ events) =
      (snapshotEvents id messageIds events).map fun rest => done ++ rest := by
  induction events generalizing done messageIds with
  | nil => rfl
  | cons event events ih =>
    have hget : (done ++ event :: events)[done.length]? = some event := by simp
    rw [List.length_cons, adoptFrom, hget, snapshotEvents, expect_some, ok_bind]
    cases migrateLegacyEvent event id messageIds with
    | error message => rfl
    | ok migrated =>
      simp only [ok_bind, snapshotSessionEvent]
      cases adoptSessionEvent migrated with
      | error message => rfl
      | ok adopted =>
        have hset : (done ++ event :: events).set done.length adopted =
            (done ++ [adopted]) ++ events := by simp
        have hnext := @ih (noteMessageId messageIds adopted) (done ++ [adopted])
        rw [List.length_append, List.length_singleton] at hnext
        rw [ok_bind, hset, hnext, ok_bind]
        cases snapshotEvents id (noteMessageId messageIds adopted) events with
        | error message => rfl
        | ok rest => simp [Except.map]

theorem adoptStoredEvents_eq (events : List Json) (id : String) :
    adoptStoredEvents events id = snapshotStoredEvents events id := by
  unfold adoptStoredEvents snapshotStoredEvents
  congr 1
  funext _
  have h := @adoptFrom_eq events id OrderedMap.empty []
  simp only [List.length_nil, List.nil_append] at h
  rw [h]
  cases snapshotEvents id OrderedMap.empty events <;> rfl

end Log

end Harness.Persistence
