import Harness.Persistence.MigrationSound
import Harness.Persistence.Reads
import Harness.Jsonl.LogSound
import Harness.Sqlite.StoreSound

namespace Harness.Persistence

open Harness.Foundation
open Harness.Jsonl (Numbered numbered_append)

section Suffix

variable {event migrated : Json} {events snapshot : List Json} {id : String}

theorem migrateLegacyMessageEvent_context (h : needsLegacyPrefix event = false)
    (messageIds other : MessageIds) : migrateLegacyMessageEvent event id messageIds =
      migrateLegacyMessageEvent event id other := by
  unfold migrateLegacyMessageEvent
  cases hdata : dataRecord event with
  | none => rfl
  | some data =>
    cases huser : hasType event "user/message" with
    | true => rfl
    | false =>
      cases hassistant : hasType event "assistant/message" with
      | true => rfl
      | false =>
        cases hresult : hasType event "tool/result" with
        | false => rfl
        | true =>
          have hsteering := hasType_ne hresult (by decide : _ ≠ "steering/message")
          simp only [needsLegacyPrefix, hsteering, hdata, huser, hassistant, hresult,
            Bool.false_eq_true, if_false, if_true, Bool.and_eq_false_iff, Bool.not_eq_false'] at h
          simp only [Bool.false_eq_true, if_false, if_true, migratedResult]
          cases h with
          | inl hmessage => simp [hmessage]
          | inr hcall => simp [hcall]

theorem migrateLegacyEvent_context (h : needsLegacyPrefix event = false)
    (messageIds other : MessageIds) :
    migrateLegacyEvent event id messageIds = migrateLegacyEvent event id other := by
  cases hstart : hasType event "turn/start" with
  | true => rw [migrateLegacyEvent_turnStart hstart, migrateLegacyEvent_turnStart hstart]
  | false =>
    cases hend : hasType event "turn/end" with
    | true => rw [migrateLegacyEvent_turnEnd hend, migrateLegacyEvent_turnEnd hend]
    | false =>
      cases hsteering : hasType event "steering/message" with
      | true => simp [needsLegacyPrefix, hsteering] at h
      | false =>
        rw [migrateLegacyEvent_other hstart hend hsteering,
          migrateLegacyEvent_other hstart hend hsteering, migrateLegacyMessageEvent_context h]

theorem isFrom_of_sameEnvelope (h : SameEnvelope migrated event) (fromSeq : Int) :
    Backend.isFrom fromSeq migrated = Backend.isFrom fromSeq event := by
  unfold Backend.isFrom
  rw [h "seq" (by decide) (by decide)]

theorem snapshotEvents_filter {messageIds : MessageIds} (fromSeq : Int)
    (h : snapshotEvents id messageIds events = .ok snapshot)
    (hneeds : ∀ event ∈ events.filter (Backend.isFrom fromSeq), needsLegacyPrefix event = false)
    (other : MessageIds) :
    snapshotEvents id other (events.filter (Backend.isFrom fromSeq)) =
      .ok (snapshot.filter (Backend.isFrom fromSeq)) := by
  induction events generalizing messageIds other snapshot with
  | nil =>
    obtain rfl := Except.ok.inj h
    rfl
  | cons event events ih =>
    obtain ⟨migrated, hmigrate, h⟩ := bind_eq_ok.mp h
    obtain ⟨adopted, hadopt, h⟩ := bind_eq_ok.mp h
    obtain ⟨rest, hrest, hresult⟩ := bind_eq_ok.mp h
    obtain rfl := Except.ok.inj hresult
    have hsame := isFrom_of_sameEnvelope (upgraded_of_migrate hmigrate hadopt).envelope fromSeq
    cases hfrom : Backend.isFrom fromSeq event with
    | false =>
      rw [List.filter_cons, hfrom] at hneeds ⊢
      rw [List.filter_cons, hsame, hfrom]
      exact ih hrest hneeds other
    | true =>
      rw [List.filter_cons, hfrom, if_pos rfl] at hneeds ⊢
      rw [List.filter_cons, hsame, hfrom, if_pos rfl, snapshotEvents,
        migrateLegacyEvent_context (hneeds event List.mem_cons_self) other messageIds, hmigrate,
        ok_bind, hadopt, ok_bind,
        ih hrest (fun kept hkept => hneeds kept (List.mem_cons_of_mem _ hkept))]
      rfl

theorem numbered_upgraded {start : Nat} (h : Numbered start events)
    (hupgraded : List.Forall₂ (Upgraded id) snapshot events) : Numbered start snapshot := by
  induction hupgraded generalizing start with
  | nil => trivial
  | cons hhead _ ih =>
    exact ⟨by rw [hhead.envelope "seq" (by decide) (by decide)]; exact h.1, ih h.2⟩

theorem isFrom_of_seq {start : Nat} (hseq : event.get? "seq" = some (.nat start)) (fromSeq : Int) :
    Backend.isFrom fromSeq event = decide (fromSeq ≤ start) := by
  unfold Backend.isFrom
  rw [hseq]
  rfl

theorem drop_eq_filter {start fromSeq : Nat} (h : Numbered start events) :
    events.drop (fromSeq - start) = events.filter (Backend.isFrom fromSeq) := by
  induction events generalizing start with
  | nil => simp
  | cons event events ih =>
    rw [List.filter_cons, isFrom_of_seq h.1]
    by_cases hle : fromSeq ≤ start
    · have hrest := ih h.2
      rw [Nat.sub_eq_zero_of_le (Nat.le_succ_of_le hle), List.drop_zero] at hrest
      rw [Nat.sub_eq_zero_of_le hle, List.drop_zero, if_pos (by simpa using hle), ← hrest]
    · have hsub : fromSeq - start = fromSeq - (start + 1) + 1 := by omega
      rw [hsub, List.drop_succ_cons, ih h.2, if_neg (by simpa using hle)]

end Suffix

section Reads

variable {μ : Type} {backend : Backend μ} {id : String} {events : List Json}

/-- What a backend owes the coordinator: seqs that count the events, and a seek that returns the
stored events from the seq on. -/
structure Backend.Honest (backend : Backend μ) : Prop where
  numbered : ∀ {id stored}, backend.loadStored id = .ok (some stored) → Numbered 0 stored.events
  suffix : ∀ {seek}, backend.loadStoredFrom = some seek → ∀ {id stored},
    backend.loadStored id = .ok (some stored) → ∀ fromSeq : Nat, seek id fromSeq = .ok (some
      { header := stored.header, events := stored.events.filter (Backend.isFrom fromSeq) })

theorem Backend.assertEventsSupported_eq_ok {header : μ} :
    backend.assertEventsSupported header events = .ok () ↔
      ∀ event ∈ events, isKnownOrIgnorable event = true := by
  induction events with
  | nil => simp [Backend.assertEventsSupported]
  | cons event events ih =>
    rw [Backend.assertEventsSupported, bind_eq_ok, List.forall_mem_cons, ← ih]
    simp

theorem Backend.interpret_eq_ok {stored whole : StoredEvents μ} :
    backend.interpret id stored = .ok whole ↔ whole.header = stored.header ∧
      snapshotStoredEvents stored.events id = .ok whole.events ∧
      ∀ event ∈ whole.events, isKnownOrIgnorable event = true := by
  unfold Backend.interpret
  rw [bind_eq_ok]
  constructor
  · intro h
    obtain ⟨snapshot, hsnapshot, h⟩ := h
    obtain ⟨_, hknown, hresult⟩ := bind_eq_ok.mp h
    obtain rfl := Except.ok.inj hresult
    exact ⟨rfl, hsnapshot, Backend.assertEventsSupported_eq_ok.mp hknown⟩
  · intro h
    obtain ⟨hheader, hsnapshot, hknown⟩ := h
    refine ⟨whole.events, hsnapshot, ?_⟩
    rw [Backend.assertEventsSupported_eq_ok.mpr hknown, ok_bind, ← hheader]
    rfl

theorem Backend.readStoredPrefix_ok {whole : StoredEvents μ}
    (h : backend.readStoredPrefix id = .ok whole) : ∃ stored,
      backend.loadStored id = .ok (some stored) ∧
      backend.assertStoredId id stored.header = .ok () ∧
      backend.assertVersion stored.header = .ok () ∧ backend.interpret id stored = .ok whole := by
  obtain ⟨loaded, hload, h⟩ := bind_eq_ok.mp h
  obtain ⟨stored, hstored, h⟩ := bind_eq_ok.mp h
  obtain ⟨_, hid, h⟩ := bind_eq_ok.mp h
  obtain ⟨_, hversion, h⟩ := bind_eq_ok.mp h
  rw [expect_eq_ok] at hstored
  exact ⟨stored, by rw [hload, hstored], hid, hversion, h⟩

theorem Backend.interpret_filter {stored whole : StoredEvents μ}
    (h : backend.interpret id stored = .ok whole) (fromSeq : Int)
    (hneeds : ∀ event ∈ stored.events.filter (isFrom fromSeq), needsLegacyPrefix event = false) :
    backend.interpret id
        { header := stored.header, events := stored.events.filter (isFrom fromSeq) } =
      .ok { header := whole.header, events := whole.events.filter (isFrom fromSeq) } := by
  obtain ⟨hheader, hsnapshot, hknown⟩ := Backend.interpret_eq_ok.mp h
  obtain ⟨hsupported, hsnapshot⟩ := snapshotStoredEvents_eq_ok.mp hsnapshot
  refine Backend.interpret_eq_ok.mpr ⟨hheader, ?_, ?_⟩
  · exact snapshotStoredEvents_eq_ok.mpr
      ⟨fun event hevent => hsupported event (List.mem_of_mem_filter hevent),
        snapshotEvents_filter fromSeq hsnapshot hneeds _⟩
  · exact fun event hevent => hknown event (List.mem_of_mem_filter hevent)

theorem Backend.Honest.readFrom_eq (hbackend : backend.Honest) {whole : StoredEvents μ}
    (h : backend.readStoredPrefix id = .ok whole) {fromSeq : Nat}
    (hsafe : isSafe fromSeq = true) : backend.readFrom id fromSeq =
      .ok { header := whole.header, events := whole.events.filter (isFrom fromSeq) } := by
  have hrange : (isSafe fromSeq && decide ((0 : Int) ≤ fromSeq)) = true := by
    rw [hsafe, Bool.true_and]
    exact decide_eq_true (Int.natCast_nonneg fromSeq)
  rw [readFrom, hrange, require_true, ok_bind, readFromCore]
  obtain ⟨stored, hload, hid, hversion, hinterpret⟩ := readStoredPrefix_ok h
  cases hseek : backend.loadStoredFrom with
  | none =>
    obtain ⟨_, hsnapshot, _⟩ := interpret_eq_ok.mp hinterpret
    have hupgraded := snapshotEvents_upgraded (snapshotStoredEvents_eq_ok.mp hsnapshot).2
    have hdrop : whole.events.drop (fromSeq - 0) = whole.events.filter (isFrom fromSeq) :=
      drop_eq_filter (numbered_upgraded (hbackend.numbered hload) hupgraded)
    simp only [h, ok_bind, Int.toNat_natCast]
    rw [← hdrop]
    rfl
  | some seek =>
    simp only [hbackend.suffix hseek hload fromSeq, ok_bind, expect_some, hid, hversion]
    split
    · rw [h, ok_bind]
      rfl
    · rename_i hneeds
      refine interpret_filter hinterpret fromSeq fun event hevent => ?_
      rw [Bool.not_eq_true, List.any_eq_false] at hneeds
      simpa using hneeds event hevent

end Reads

end Harness.Persistence
