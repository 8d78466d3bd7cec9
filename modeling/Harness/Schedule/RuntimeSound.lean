import Harness.Schedule.ReplaySound
import Harness.Schedule.Runtime
import Mathlib.Data.List.Dedup
import Mathlib.Data.List.Perm.Subperm

namespace Harness.Schedule

open Harness.Foundation

variable {Other : Type}

theorem toList_scheduleName (sequence : Nat) :
    (scheduleName sequence).toList = "schedule-".toList ++ Nat.toDigits 10 sequence := by
  simp [scheduleName, toString, Nat.repr]

theorem scheduleName_injective : Function.Injective scheduleName := by
  intro m n h
  have hdigits := congrArg String.toList h
  rw [toList_scheduleName, toList_scheduleName, List.append_cancel_left_eq] at hdigits
  rw [← Nat.ofDigitChars_ten_toDigits (n := m), hdigits, Nat.ofDigitChars_ten_toDigits]

theorem isTrimmedText_scheduleName (sequence : Nat) :
    isTrimmedText (scheduleName sequence) = true := by
  have hplain : ∀ c ∈ (scheduleName sequence).toList, isTrimmed c = false := by
    intro c hc
    rw [toList_scheduleName] at hc
    rcases List.mem_append.mp hc with hletter | hdigit
    · have hall : ("schedule-".toList.all fun c => !isTrimmed c) = true := by decide
      simpa using List.all_eq_true.mp hall c hletter
    · exact isTrimmed_of_isDigit (Nat.isDigit_of_mem_toDigits (by decide) (by decide) hdigit)
  have hne : scheduleName sequence ≠ "" := by
    intro hempty
    have := congrArg String.toList hempty
    rw [toList_scheduleName] at this
    simp at this
  simp [isTrimmedText, hne, trim_eq_self hplain]

theorem nextUnused_notMem {seen : List String} {tries sequence : Nat}
    (h : nextUnused seen tries sequence ∈ seen) :
    ∀ later ≤ tries, scheduleName (sequence + later) ∈ seen := by
  induction tries generalizing sequence with
  | zero =>
    intro later hlater
    rw [Nat.le_zero.mp hlater]
    exact h
  | succ tries ih =>
    rw [nextUnused] at h
    split at h
    · rename_i hused
      intro later hlater
      cases later with
      | zero => exact hused
      | succ later =>
        rw [Nat.add_comm later, ← Nat.add_assoc]
        exact ih h later (Nat.le_of_succ_le_succ hlater)
    · exact absurd h ‹_›

/-- The allocator never returns an id that was used: it would have to have seen more names
than it saw. -/
theorem allocateScheduleId_notMem (seenIds : List String) : allocateScheduleId seenIds ∉ seenIds := by
  intro h
  let seen := seenIds.dedup
  let names := (List.range (seen.length + 1)).map fun later => scheduleName (seen.length + 1 + later)
  have hused := nextUnused_notMem ((List.mem_dedup (l := seenIds)).mpr h)
  have hnodup : names.Nodup :=
    List.nodup_range.map fun m n heq => Nat.add_left_cancel (scheduleName_injective heq)
  have hsubset : names ⊆ seen := by
    intro name hname
    obtain ⟨later, hlater, rfl⟩ := List.mem_map.mp hname
    exact hused later (Nat.le_of_lt_succ (List.mem_range.mp hlater))
  have hlength := (hnodup.subperm hsubset).length_le
  rw [List.length_map, List.length_range] at hlength
  exact Nat.not_succ_le_self _ hlength

theorem nextUnused_name (seen : List String) (tries sequence : Nat) :
    ∃ n, nextUnused seen tries sequence = scheduleName n := by
  induction tries generalizing sequence with
  | zero => exact ⟨sequence, rfl⟩
  | succ tries ih =>
    rw [nextUnused]
    split
    · exact ih (sequence + 1)
    · exact ⟨sequence, rfl⟩

theorem isTrimmedText_allocateScheduleId (seenIds : List String) :
    isTrimmedText (allocateScheduleId seenIds) = true := by
  obtain ⟨n, hn⟩ := nextUnused_name seenIds.dedup seenIds.dedup.length (seenIds.dedup.length + 1)
  rw [allocateScheduleId, hn]
  exact isTrimmedText_scheduleName n

theorem futureInstant_eq_ok {epoch now : Int} {instant : Instant}
    (h : futureInstant epoch now = .ok instant) : instant.epoch = epoch ∧ now < epoch := by
  unfold futureInstant at h
  split at h
  · cases h
  · split at h
    · cases h
    · rename_i found hfound
      split at h
      · cases h
      · rename_i hfuture
        cases h
        obtain ⟨_, heq⟩ := Option.dite_none_right_eq_some.mp hfound
        cases heq
        exact ⟨rfl, Int.not_le.mp hfuture⟩

theorem safeInt?_eq_some {number : JsonNumber} {n : Int} (h : safeInt? number = some n) :
    isSafe n = true := by
  unfold safeInt? at h
  split at h
  · split at h
    · cases h
      assumption
    · cases h
  · cases h

theorem isTrimmedText_trim {prompt : String} (h : trim prompt ≠ "") :
    isTrimmedText (trim prompt) = true := by
  simp [isTrimmedText, h]

structure WellFormed (record : ScheduleRecord) : Prop where
  id : isTrimmedText record.id = true
  prompt : isTrimmedText record.prompt = true
  rule : decodeRule record.rule = .ok ()

theorem WellFormed.decode {record : ScheduleRecord} (h : WellFormed record) :
    decodeScheduleRecord record = .ok () := by
  rw [decodeScheduleRecord, h.prompt, h.rule, decodeId, h.id]
  rfl

theorem createAfter_wellFormed {id prompt : String} {seconds : JsonNumber} {now : Int}
    {record : ScheduleRecord} (hid : isTrimmedText id = true)
    (h : createAfterScheduleRecord id prompt seconds now = .ok record) :
    record.id = id ∧ WellFormed record := by
  unfold createAfterScheduleRecord at h
  split at h
  · cases h
  · rename_i hprompt
    split at h
    · cases h
    · rename_i seconds hseconds
      obtain ⟨instant, -, h⟩ := bind_eq_ok.mp h
      cases h
      obtain ⟨hsafe, hpositive⟩ := Option.filter_eq_some_iff.mp hseconds
      refine ⟨rfl, hid, isTrimmedText_trim hprompt, ?_⟩
      rw [decodeRule, safeInt?_eq_some hsafe, hpositive]
      rfl

theorem createAt_wellFormed {id prompt : String} {target : Except ScheduleFailure Int} {now : Int}
    {record : ScheduleRecord} (hid : isTrimmedText id = true)
    (h : createAtScheduleRecord id prompt target now = .ok record) :
    record.id = id ∧ WellFormed record := by
  unfold createAtScheduleRecord at h
  split at h
  · cases h
  · rename_i hprompt
    obtain ⟨epoch, -, h⟩ := bind_eq_ok.mp h
    obtain ⟨instant, -, h⟩ := bind_eq_ok.mp h
    cases h
    exact ⟨rfl, hid, isTrimmedText_trim hprompt, rfl⟩

theorem createEvery_wellFormed {id prompt : String} {seconds : JsonNumber} {now : TimeValue}
    {record : ScheduleRecord} (hid : isTrimmedText id = true)
    (h : createEveryScheduleRecord id prompt seconds now.ms = .ok record) :
    record.id = id ∧ WellFormed record := by
  unfold createEveryScheduleRecord at h
  split at h
  · cases h
  · rename_i hprompt
    split at h
    · cases h
    · rename_i seconds hseconds
      split at h
      · cases h
      · rename_i hfrequent
        obtain ⟨instant, hinstant, h⟩ := bind_eq_ok.mp h
        cases h
        have hfrequent : minEveryIntervalSeconds ≤ seconds := Int.not_lt.mp hfrequent
        have hinterval : isSafe (seconds * 1000) = true := by
          have hepoch := (futureInstant_eq_ok hinstant).1
          have hyear := instant.fourDigitYear.2
          have hclock := now.inRange.1
          unfold maxFourDigitYearMs at hyear
          unfold minEveryIntervalSeconds at hfrequent
          rw [isSafe_iff]
          omega
        refine ⟨rfl, hid, isTrimmedText_trim hprompt, ?_⟩
        rw [decodeRule, safeInt?_eq_some hseconds, hinterval, decide_eq_true hfrequent]
        rfl

theorem createRecord_wellFormed {id : String} {args : CreateArgs} {now : TimeValue}
    {record : ScheduleRecord} (hid : isTrimmedText id = true)
    (h : createRecord id args now.ms = .ok record) : record.id = id ∧ WellFormed record := by
  unfold createRecord at h
  split at h
  · exact createAt_wellFormed hid h
  · exact createAfter_wellFormed hid h
  · exact createEvery_wellFormed hid h
  · cases h

section Decision

variable {active : List ScheduleRecord} {every : Bool} {now : Int}

theorem dueRecords_subperm (active : List ScheduleRecord) (every : Bool) (now : Int) :
    (dueRecords active every now).Subperm active := by
  unfold dueRecords
  have hsorted := List.mergeSort_perm
    (active.zipIdx.filter fun entry =>
      entry.1.rule.isEvery == every && decide (entry.1.scheduledAt.epoch ≤ now))
    byTargetThenCreate
  apply (hsorted.map Prod.fst).subperm.trans
  have hkept := List.filter_sublist (p := fun entry : ScheduleRecord × Nat =>
    entry.1.rule.isEvery == every && decide (entry.1.scheduledAt.epoch ≤ now)) (l := active.zipIdx)
  simpa using (hkept.map Prod.fst).subperm

theorem dueRecords_nodup (h : (active.map (·.id)).Nodup) :
    ((dueRecords active every now).map (·.id)).Nodup := by
  obtain ⟨kept, hperm, hsublist⟩ := dueRecords_subperm active every now
  exact ((hperm.map _).nodup_iff).mp ((hsublist.map _).nodup h)

theorem isEvery_of_due {record : ScheduleRecord} (h : record ∈ dueRecords active every now) :
    record.rule.isEvery = every := by
  obtain ⟨entry, hentry, rfl⟩ := List.mem_map.mp h
  have hmem := (List.mergeSort_perm _ byTargetThenCreate).mem_iff.mp hentry
  have := (List.mem_filter.mp hmem).2
  simp only [Bool.and_eq_true, beq_iff_eq] at this
  exact this.1

end Decision

def DueDecision.acceptedAt : DueDecision → Option Instant
  | .every _ acceptedAt => some acceptedAt
  | _ => none

def dispatchEvent (acceptedAt : Option Instant) (record : ScheduleRecord) : ScheduleEvent Other :=
  .change (.dispatch record.id acceptedAt)

theorem changes_eq (decision : DueDecision) :
    decision.changes.map ScheduleEvent.change =
      decision.records.map (@dispatchEvent Other decision.acceptedAt) := by
  cases decision with
  | oneShot record => rfl
  | every reminders acceptedAt =>
    simp only [DueDecision.changes, DueDecision.records, DueDecision.acceptedAt, List.map_map]
    rfl
  | wait target => rfl

structure Dispatchable (replay : Replay) (acceptedAt : Option Instant) (record : ScheduleRecord) :
    Prop where
  retained : replay.retained.get? record.id = some ⟨record, false⟩
  advances : ∃ next, advanceDispatchedSchedule record acceptedAt = .ok next
  trimmed : isTrimmedText record.id = true

theorem Dispatchable.apply {replay : Replay} {acceptedAt : Option Instant} {record : ScheduleRecord}
    (h : Dispatchable replay acceptedAt record) :
    ∃ after, applyScheduleEvent replay (@dispatchEvent Other acceptedAt record) = .ok after ∧
      ∀ other, other ≠ record.id → after.retained.get? other = replay.retained.get? other := by
  obtain ⟨next, hnext⟩ := h.advances
  have hdispatch : applyScheduleEvent replay (@dispatchEvent Other acceptedAt record) =
      .ok (match next with
        | none => replay.drop record.id
        | some kept => replay.keep record.id kept false) := by
    simp only [dispatchEvent, applyScheduleEvent, decodeScheduleChange, decodeId, h.trimmed,
      require_true, ok_bind, Replay.applyChange, Replay.applyDispatch, target?_eq_some.mpr h.retained,
      hnext]
    cases next <;> rfl
  refine ⟨_, hdispatch, fun other hother => ?_⟩
  cases next with
  | none => exact (OrderedMap.get?_delete _ _ _).trans (if_neg hother)
  | some kept => exact (OrderedMap.get?_set _ _ _ _).trans (if_neg hother)

theorem dispatches_accepted {acceptedAt : Option Instant} {records : List ScheduleRecord}
    {replay : Replay} (hnodup : (records.map (·.id)).Nodup)
    (h : ∀ record ∈ records, Dispatchable replay acceptedAt record) :
    ∃ after, foldOk applyScheduleEvent replay
      (records.map (@dispatchEvent Other acceptedAt)) = .ok after := by
  induction records generalizing replay with
  | nil => exact ⟨replay, rfl⟩
  | cons record records ih =>
    rw [List.map_cons, List.nodup_cons] at hnodup
    obtain ⟨after, hafter, hothers⟩ := @Dispatchable.apply Other _ _ _ (h record List.mem_cons_self)
    have hrest : ∀ other ∈ records, Dispatchable after acceptedAt other := by
      intro other hmem
      have hother := h other (List.mem_cons_of_mem _ hmem)
      refine ⟨?_, hother.advances, hother.trimmed⟩
      rw [hothers other.id fun heq => hnodup.1 (heq ▸ List.mem_map_of_mem hmem)]
      exact hother.retained
    obtain ⟨last, hlast⟩ := ih hnodup.2 hrest
    refine ⟨last, ?_⟩
    rw [List.map_cons, foldOk_cons, hafter]
    exact hlast

theorem advance_oneShot {record : ScheduleRecord} (h : record.rule.isEvery = false) :
    advanceDispatchedSchedule record none = .ok none := by
  unfold advanceDispatchedSchedule
  split
  · rename_i hrule
    rw [hrule] at h
    cases h
  · rfl

theorem advance_every {record : ScheduleRecord} {now : Int} {acceptedAt : Instant}
    {occurrence : EveryOccurrence} (h : record.rule.isEvery = true)
    (haccepted : expect (instant? now)
      "every acceptedAt must be a representable four-digit-year instant" = .ok acceptedAt)
    (hresolve : resolveEveryOccurrence record.rule.everySeconds record.scheduledAt now =
      .ok occurrence) :
    ∃ next, advanceDispatchedSchedule record (some acceptedAt) = .ok next := by
  obtain ⟨_, hinstant⟩ := Option.dite_none_right_eq_some.mp (expect_eq_ok.mp haccepted)
  have hepoch : acceptedAt.epoch = now := by
    cases hinstant
    rfl
  unfold advanceDispatchedSchedule
  split
  · rename_i seconds hrule
    rw [hrule] at hresolve
    have hresolve : resolveEveryOccurrence seconds record.scheduledAt acceptedAt.epoch =
        .ok occurrence := hepoch ▸ hresolve
    simp only [hresolve, ok_bind]
    exact ⟨_, rfl⟩
  · rename_i hrule
    cases heq : record.rule with
    | every seconds => exact absurd heq (hrule seconds)
    | after | at_ =>
      rw [heq] at h
      cases h

theorem remind_eq_ok {now : Int} {due : List ScheduleRecord} {reminders : List (ScheduleRecord × Int)}
    (h : due.mapM (remind now) = .ok reminders) :
    reminders.map Prod.fst = due ∧ ∀ record ∈ due, ∃ occurrence,
      resolveEveryOccurrence record.rule.everySeconds record.scheduledAt now = .ok occurrence := by
  have hall := mapM_eq_ok.mp h
  induction hall with
  | nil => exact ⟨rfl, fun _ hmem => absurd hmem List.not_mem_nil⟩
  | cons hremind _ ih =>
    obtain ⟨occurrence, hoccurrence, hpair⟩ := bind_eq_ok.mp hremind
    cases hpair
    obtain ⟨hrecords, hresolved⟩ := ih (mapM_eq_ok.mpr ‹_›)
    rw [List.map_cons, hrecords, List.forall_mem_cons]
    exact ⟨rfl, ⟨occurrence, hoccurrence⟩, hresolved⟩

section Replay

variable {own : List (ScheduleEvent Other)} {replay : Replay}

theorem mem_active {record : ScheduleRecord} (hreplayed : Replayed own replay)
    (h : record ∈ replay.folded.active) : replay.retained.get? record.id = some ⟨record, false⟩ := by
  obtain ⟨schedule, hschedule, rfl⟩ := List.mem_map.mp h
  obtain ⟨hmem, hpaused⟩ := List.mem_filter.mp hschedule
  obtain ⟨id, hget⟩ := OrderedMap.mem_values_iff.mp hmem
  rw [(hreplayed.retained id schedule hget).named, hget]
  simp only [Bool.not_eq_true'] at hpaused
  rw [← hpaused]

theorem active_mem {record : ScheduleRecord} {id : String}
    (h : replay.retained.get? id = some ⟨record, false⟩) : record ∈ replay.folded.active := by
  refine List.mem_map.mpr ⟨⟨record, false⟩, List.mem_filter.mpr ⟨?_, rfl⟩, rfl⟩
  exact OrderedMap.mem_values_iff.mpr ⟨id, h⟩

theorem active_nodup (hreplayed : Replayed own replay) :
    (replay.folded.active.map (·.id)).Nodup := by
  have hids : replay.retained.values.map (·.record.id) = replay.retained.keys := by
    rw [OrderedMap.values, OrderedMap.keys, List.map_map]
    apply List.map_congr_left
    rintro ⟨id, schedule⟩ hentry
    exact (hreplayed.retained id schedule (OrderedMap.mem_entries_iff.mp hentry)).named
  have hactive : (replay.folded.active.map (·.id)).Sublist replay.retained.keys := by
    rw [← hids, Replay.folded, List.map_map]
    exact List.filter_sublist.map _
  exact hactive.nodup replay.retained.nodup

theorem dueDecision_dispatchable {now : Int} {decision : DueDecision}
    (hreplayed : Replayed own replay) (h : dueDecision replay.folded now = .ok decision) :
    (decision.records.map (·.id)).Nodup ∧
      ∀ record ∈ decision.records, Dispatchable replay decision.acceptedAt record := by
  have hactive : ∀ record ∈ replay.folded.active,
      replay.retained.get? record.id = some ⟨record, false⟩ ∧ isTrimmedText record.id = true := by
    intro record hmem
    have hget := mem_active hreplayed hmem
    exact ⟨hget, (hreplayed.retained record.id _ hget).trimmed⟩
  unfold dueDecision at h
  split at h
  · rename_i record rest hdue
    cases h
    have hmem : record ∈ dueRecords replay.folded.active false now := by simp [hdue]
    have hkind := isEvery_of_due hmem
    obtain ⟨hget, htrimmed⟩ := hactive record ((dueRecords_subperm _ _ _).subset hmem)
    refine ⟨List.nodup_singleton _, fun other hother => ?_⟩
    rw [List.mem_singleton.mp hother]
    refine ⟨hget, ⟨none, ?_⟩, htrimmed⟩
    exact advance_oneShot hkind
  · split at h
    · cases h
      exact ⟨List.nodup_nil, fun _ hmem => absurd hmem List.not_mem_nil⟩
    · obtain ⟨acceptedAt, haccepted, h⟩ := bind_eq_ok.mp h
      obtain ⟨reminders, hreminders, h⟩ := bind_eq_ok.mp h
      cases h
      have hdue := remind_eq_ok hreminders
      have hrecords : reminders.map Prod.fst = dueRecords replay.folded.active true now := hdue.1
      refine ⟨?_, fun record hmem => ?_⟩
      · rw [DueDecision.records, hrecords]
        exact dueRecords_nodup (active_nodup hreplayed)
      · rw [DueDecision.records, hrecords] at hmem
        obtain ⟨hget, htrimmed⟩ := hactive record ((dueRecords_subperm _ _ _).subset hmem)
        obtain ⟨occurrence, hoccurrence⟩ := hdue.2 record hmem
        exact ⟨hget, advance_every (isEvery_of_due hmem) haccepted hoccurrence, htrimmed⟩

end Replay

section Suffix

variable {events : List (ScheduleEvent Other)} {seedLength : Nat} {replay : Replay}

theorem replaySuffix_eq_ok : replaySuffix events seedLength = .ok replay ↔
    (isSafe seedLength && decide (seedLength ≤ events.length)) = true ∧
      foldOk applyScheduleEvent .empty (events.drop seedLength) = .ok replay := by
  rw [replaySuffix, bind_eq_ok]
  simp only [require_eq_ok, exists_const]

theorem replaySuffix_append {new : List (ScheduleEvent Other)} {after : Replay}
    (h : replaySuffix events seedLength = .ok replay)
    (hnew : foldOk applyScheduleEvent replay new = .ok after) :
    replaySuffix (events ++ new) seedLength = .ok after := by
  obtain ⟨hbound, hfold⟩ := replaySuffix_eq_ok.mp h
  rw [Bool.and_eq_true, decide_eq_true_iff] at hbound
  apply replaySuffix_eq_ok.mpr
  rw [List.drop_append_of_le_length hbound.2, foldOk_append, hfold, List.length_append,
    decide_eq_true (Nat.le_add_right_of_le hbound.2), hbound.1]
  exact ⟨rfl, hnew⟩

end Suffix

def Reminded (session : ScheduleSession Other) (followup : Followup) : Prop :=
  followup.heldAt ≤ session.events.length ∧ ∃ replay,
    replaySuffix (session.events.take followup.heldAt) session.seedLength = .ok replay ∧
      ∀ record ∈ followup.records, record ∈ replay.folded.active

structure Sound (seed : Seed Other) (session : ScheduleSession Other) : Prop where
  seeded : ∃ own, session.events = seed.events ++ own
  held : session.seedLength = seed.events.length
  replays : ∃ replay, replaySuffix session.events session.seedLength = .ok replay
  reminded : ∀ followup ∈ session.followups, Reminded session followup

theorem sound_opened (seed : Seed Other) : Sound seed (.opened seed) where
  seeded := ⟨[], (List.append_nil _).symm⟩
  held := rfl
  replays := by
    refine ⟨.empty, replaySuffix_eq_ok.mpr ⟨?_, ?_⟩⟩
    · have hbounded := seed.bounded
      rw [Bool.and_eq_true, isSafe_iff, decide_eq_true_iff]
      simp only [ScheduleSession.opened]
      omega
    · rw [ScheduleSession.opened, List.drop_length]
      rfl
  reminded := fun _ hmem => absurd hmem List.not_mem_nil

namespace Sound

variable {seed : Seed Other} {session next : ScheduleSession Other}

theorem extend (h : Sound seed session) {new : List (ScheduleEvent Other)}
    (hevents : next.events = session.events ++ new) (hheld : next.seedLength = session.seedLength)
    (hnew : ∀ replay, replaySuffix session.events session.seedLength = .ok replay →
      ∃ after, foldOk applyScheduleEvent replay new = .ok after)
    (hreminded : ∀ followup ∈ next.followups, Reminded session followup) : Sound seed next where
  seeded := by
    obtain ⟨own, hown⟩ := h.seeded
    exact ⟨own ++ new, by rw [hevents, hown, List.append_assoc]⟩
  held := hheld.trans h.held
  replays := by
    obtain ⟨replay, hreplay⟩ := h.replays
    obtain ⟨after, hafter⟩ := hnew replay hreplay
    rw [hevents, hheld]
    exact ⟨after, replaySuffix_append hreplay hafter⟩
  reminded followup hmem := by
    obtain ⟨hbound, replay, hreplay, hactive⟩ := hreminded followup hmem
    rw [Reminded, hevents, hheld, List.take_append_of_le_length hbound, List.length_append]
    exact ⟨Nat.le_add_right_of_le hbound, replay, hreplay, hactive⟩

theorem same (h : Sound seed session) (hevents : next.events = session.events)
    (hheld : next.seedLength = session.seedLength) (hfollowups : next.followups = session.followups) :
    Sound seed next := by
  apply h.extend (hevents.trans (List.append_nil _).symm) hheld fun replay _ => ⟨replay, rfl⟩
  rw [hfollowups]
  exact h.reminded

theorem append (h : Sound seed session) {change : ScheduleChange}
    (hnew : ∀ replay, replaySuffix session.events session.seedLength = .ok replay →
      ∃ after, applyScheduleEvent replay (.change change : ScheduleEvent Other) = .ok after) :
    Sound seed (session.append change) := by
  have hevents : (session.append change).events = session.events ++ [.change change] := rfl
  apply h.extend hevents rfl _ h.reminded
  intro replay hreplay
  obtain ⟨after, hafter⟩ := hnew replay hreplay
  exact ⟨after, by rw [foldOk_cons, hafter]; rfl⟩

theorem commit {α : Type} {value : α} {written : Bool} {change : ScheduleChange}
    (h : Sound seed session)
    (hnew : ∀ replay, replaySuffix session.events session.seedLength = .ok replay →
      ∃ after, applyScheduleEvent replay (.change change : ScheduleEvent Other) = .ok after) :
    Sound seed (session.commit written change value).1 := by
  unfold ScheduleSession.commit
  split
  · exact h.append hnew
  · exact h

theorem fold_eq_ok {folded : FoldedSchedules} : session.fold = .ok folded ↔ ∃ replay,
    replaySuffix session.events session.seedLength = .ok replay ∧ replay.folded = folded := by
  rw [ScheduleSession.fold, foldScheduleEvents, map_eq_ok]

theorem replayed {replay : Replay}
    (hreplay : replaySuffix session.events session.seedLength = .ok replay) :
    ∃ own : List (ScheduleEvent Other), Replayed own replay :=
  ⟨_, Harness.Schedule.replayed (replaySuffix_eq_ok.mp hreplay).2⟩

theorem scheduleCreate (h : Sound seed session) (args : CreateArgs) (now : TimeValue)
    (written : Bool) : Sound seed (session.scheduleCreate args now.ms written).1 := by
  unfold ScheduleSession.scheduleCreate
  split
  · exact h
  · split
    · exact h
    · rename_i folded hfold
      split
      · exact h
      · rename_i record hrecord
        apply h.commit
        intro replay hreplay
        obtain ⟨found, hfound, rfl⟩ := fold_eq_ok.mp hfold
        cases hfound.symm.trans hreplay
        obtain ⟨hid, hwell⟩ :=
          createRecord_wellFormed (isTrimmedText_allocateScheduleId _) hrecord
        have hnew : record.id ∉ replay.seen := by
          rw [hid]
          exact allocateScheduleId_notMem _
        simp only [applyScheduleEvent, decodeScheduleChange, hwell.decode, ok_bind,
          Replay.applyChange, Replay.applyCreate, if_neg hnew]
        exact ⟨_, rfl⟩

theorem retained_of_find {own : List (ScheduleEvent Other)} {replay : Replay} {id : String}
    {schedule : FoldedSchedule} (hreplayed : Replayed own replay)
    (hmem : schedule ∈ replay.folded.schedules) (hid : schedule.record.id = id) :
    replay.retained.get? id = some schedule := by
  obtain ⟨key, hget⟩ := OrderedMap.mem_values_iff.mp hmem
  rw [← hid, (hreplayed.retained key schedule hget).named]
  exact hget

theorem applyDelete_of_any {own : List (ScheduleEvent Other)} {replay : Replay} {id : String}
    (hreplayed : Replayed own replay)
    (hany : (replay.folded.schedules.any fun schedule => schedule.record.id = id) = true) :
    ∃ after, applyScheduleEvent replay (.change (.delete id) : ScheduleEvent Other) = .ok after := by
  obtain ⟨schedule, hmem, hid⟩ := List.any_eq_true.mp hany
  have hget := retained_of_find hreplayed hmem (of_decide_eq_true hid)
  have hkept := hreplayed.retained id schedule hget
  have hhas : replay.retained.has id = true := OrderedMap.has_iff.mpr
    (List.mem_map.mpr ⟨_, OrderedMap.mem_entries_iff.mpr hget, rfl⟩)
  refine ⟨replay.drop id, ?_⟩
  rw [applyScheduleEvent, decodeScheduleChange, decodeId, hkept.trimmed, require_true, ok_bind,
    Replay.applyChange, Replay.applyDelete, if_pos hhas]

theorem scheduleDelete (h : Sound seed session) (id : String) (written : Bool) :
    Sound seed (session.scheduleDelete id written).1 := by
  unfold ScheduleSession.scheduleDelete
  split
  · exact h
  · split
    · exact h
    · rename_i folded hfold
      split
      · rename_i hany
        apply h.commit
        intro replay hreplay
        obtain ⟨found, hfound, rfl⟩ := fold_eq_ok.mp hfold
        cases hfound.symm.trans hreplay
        obtain ⟨own, hreplayed⟩ := replayed hreplay
        exact applyDelete_of_any hreplayed hany
      · exact h

theorem foldForMutation_eq_ok {folded : FoldedSchedules}
    (h : session.foldForMutation = .ok folded) : session.fold = .ok folded := by
  unfold ScheduleSession.foldForMutation at h
  cases hfold : session.fold with
  | error message =>
    rw [hfold] at h
    cases h
  | ok found =>
    rw [hfold] at h
    cases h
    rfl

theorem delete (h : Sound seed session) (id : String) (written : Bool) :
    Sound seed (session.delete id written).1 := by
  unfold ScheduleSession.delete
  split
  · exact h
  · rename_i hretained
    obtain ⟨_, -, hretained⟩ := bind_eq_ok.mp hretained
    obtain ⟨folded, hfold, hretained⟩ := bind_eq_ok.mp hretained
    split at hretained
    · rename_i hany
      apply h.commit
      intro replay hreplay
      obtain ⟨found, hfound, rfl⟩ := fold_eq_ok.mp (foldForMutation_eq_ok hfold)
      cases hfound.symm.trans hreplay
      obtain ⟨own, hreplayed⟩ := replayed hreplay
      exact applyDelete_of_any hreplayed hany
    · cases hretained

theorem apply_stateChange {replay : Replay} {id : String} {operation : StateChange}
    {record : ScheduleRecord} (htrimmed : isTrimmedText id = true)
    (hget : replay.retained.get? id = some ⟨record, decide (operation = .resume)⟩) :
    ∃ after, applyScheduleEvent replay (.change (operation.change id) : ScheduleEvent Other) =
      .ok after := by
  have htarget := target?_eq_some.mpr hget
  cases operation with
  | pause =>
    have htarget : replay.target? id false = some record := htarget
    simp only [StateChange.change, applyScheduleEvent, decodeScheduleChange, decodeId, htrimmed,
      require_true, ok_bind, Replay.applyChange, Replay.applyPause, htarget]
    exact ⟨_, rfl⟩
  | resume =>
    have htarget : replay.target? id true = some record := htarget
    simp only [StateChange.change, applyScheduleEvent, decodeScheduleChange, decodeId, htrimmed,
      require_true, ok_bind, Replay.applyChange, Replay.applyResume, htarget]
    exact ⟨_, rfl⟩

theorem changeState (h : Sound seed session) (id : String) (operation : StateChange)
    (written : Bool) : Sound seed (session.changeState id operation written).1 := by
  unfold ScheduleSession.changeState
  split
  · exact h
  · rename_i retained hretained
    obtain ⟨_, -, hretained⟩ := bind_eq_ok.mp hretained
    obtain ⟨folded, hfold, hretained⟩ := bind_eq_ok.mp hretained
    split at hretained
    · cases hretained
    · rename_i found hfound
      split at hretained
      · cases hretained
      · rename_i hpaused
        cases hretained
        apply h.commit
        intro replay hreplay
        obtain ⟨other, hother, rfl⟩ := fold_eq_ok.mp (foldForMutation_eq_ok hfold)
        cases hother.symm.trans hreplay
        obtain ⟨own, hreplayed⟩ := replayed hreplay
        have hid := List.find?_some hfound
        have hget := retained_of_find hreplayed (List.mem_of_find?_eq_some hfound)
          (of_decide_eq_true hid)
        have hkept := hreplayed.retained id _ hget
        apply apply_stateChange hkept.trimmed
        rw [hget, ← not_ne_iff.mp hpaused]

theorem readFolded_eq {found : Option FoldedSchedules}
    (h : session.readFolded = (next, found)) :
    next.events = session.events ∧ next.seedLength = session.seedLength ∧
      next.followups = session.followups ∧ ∀ folded, found = some folded → session.fold = .ok folded := by
  unfold ScheduleSession.readFolded at h
  split at h
  · cases h
    exact ⟨rfl, rfl, rfl, nofun⟩
  · cases h
    refine ⟨rfl, rfl, rfl, fun folded heq => ?_⟩
    cases heq
    assumption

theorem wake (h : Sound seed session) (now : Int) : Sound seed (session.wake now) := by
  unfold ScheduleSession.wake
  split
  · exact h
  · split
    · rename_i hread
      obtain ⟨hevents, hheld, hfollowups, -⟩ := readFolded_eq hread
      exact h.same hevents hheld hfollowups
    · rename_i folded hread
      obtain ⟨hevents, hheld, hfollowups, -⟩ := readFolded_eq hread
      split
      · exact h.same hevents hheld hfollowups
      · exact h.same hevents hheld hfollowups

theorem dispatch (h : Sound seed session) {folded : FoldedSchedules} {now : Int}
    {decision : DueDecision} (hfold : session.fold = .ok folded)
    (hdecision : dueDecision folded now = .ok decision) (sent : Bool) (refusedAt : Option Nat) :
    Sound seed (session.dispatch decision sent refusedAt) := by
  obtain ⟨replay, hreplay, rfl⟩ := fold_eq_ok.mp hfold
  obtain ⟨own, hreplayed⟩ := replayed hreplay
  obtain ⟨hnodup, hall⟩ := dueDecision_dispatchable hreplayed hdecision
  have haccepted : ∀ count replay',
      replaySuffix session.events session.seedLength = .ok replay' →
      ∃ after, foldOk applyScheduleEvent replay'
        ((decision.changes.take count).map (@ScheduleEvent.change Other)) = .ok after := by
    intro count replay' hreplay'
    cases hreplay.symm.trans hreplay'
    rw [List.map_take, changes_eq, ← List.map_take]
    apply dispatches_accepted
    · rw [List.map_take]
      exact (List.take_sublist _ _).nodup hnodup
    · intro record hmem
      exact hall record (List.mem_of_mem_take hmem)
  have hreminded : ∀ followup ∈ session.followups ++ [⟨session.events.length, decision.records⟩],
      Reminded session followup := by
    intro followup hmem
    rcases List.mem_append.mp hmem with hold | hlast
    · exact h.reminded followup hold
    · rw [List.mem_singleton.mp hlast]
      refine ⟨Nat.le_refl _, replay, ?_, fun record hrecord => active_mem (hall record hrecord).retained⟩
      rw [List.take_length]
      exact hreplay
  unfold ScheduleSession.dispatch
  split
  · exact h
  · cases refusedAt with
    | none =>
      refine h.extend rfl rfl (fun replay' hreplay' => ?_) hreminded
      have := haccepted decision.changes.length replay' hreplay'
      rwa [List.take_length] at this
    | some count => exact h.extend rfl rfl (haccepted count) hreminded

theorem claim (h : Sound seed session) (now : Int) (sent : Bool) (refusedAt : Option Nat) :
    Sound seed (session.claim now sent refusedAt) := by
  unfold ScheduleSession.claim
  split
  · exact h
  · split
    · rename_i hread
      obtain ⟨hevents, hheld, hfollowups, -⟩ := readFolded_eq hread
      exact h.same hevents hheld hfollowups
    · rename_i folded hread
      obtain ⟨hevents, hheld, hfollowups, hfold⟩ := readFolded_eq hread
      have hsame := h.same hevents hheld hfollowups
      have hfold := hfold folded rfl
      split
      · exact hsame
      · rename_i decision hdecision
        split
        · exact hsame
        · apply hsame.dispatch _ hdecision
          rw [ScheduleSession.fold, hevents, hheld]
          exact hfold

theorem step (h : Sound seed session) (op : ScheduleOp Other) : Sound seed (session.step op) := by
  cases op with
  | scheduleCreate args now written => exact h.scheduleCreate args now written
  | scheduleDelete id written => exact h.scheduleDelete id written
  | delete id written => exact h.delete id written
  | changeState id operation written => exact h.changeState id operation written
  | wake now => exact h.wake now.ms
  | claim now sent refusedAt => exact h.claim now.ms sent refusedAt
  | append event => exact h.extend rfl rfl (fun replay _ => ⟨replay, rfl⟩) h.reminded
  | restart => exact h.same rfl rfl rfl

end Sound

theorem sound_after (seed : Seed Other) (ops : List (ScheduleOp Other)) :
    Sound seed (ScheduleSession.after seed ops) := by
  suffices general : ∀ session, Sound seed session →
      Sound seed (ops.foldl ScheduleSession.step session) from general _ (sound_opened seed)
  induction ops with
  | nil => exact fun _ h => h
  | cons op ops ih => exact fun session h => ih _ (h.step op)

/-- Over every run the log replays, its own part is a lawful history, and every reminder told of
records that were active when it was sent. -/
theorem schedules_lawful (seed : Seed Other) (ops : List (ScheduleOp Other)) :
    let session := ScheduleSession.after seed ops
    ∃ own folded, session.events = seed.events ++ own ∧
      foldScheduleEvents session.events seed.events.length = .ok folded ∧ Lawful own ∧
      ∀ followup ∈ session.followups, ∃ earlier,
        foldScheduleEvents (session.events.take followup.heldAt) seed.events.length = .ok earlier ∧
          ∀ record ∈ followup.records, record ∈ earlier.active := by
  have h := sound_after seed ops
  obtain ⟨own, hown⟩ := h.seeded
  obtain ⟨replay, hreplay⟩ := h.replays
  rw [h.held] at hreplay
  refine ⟨own, replay.folded, hown, map_eq_ok.mpr ⟨replay, hreplay, rfl⟩, ?_, ?_⟩
  · apply @lawful_of_replay Other own replay
    rw [hown, replaySuffix_eq_ok, List.drop_left] at hreplay
    exact hreplay.2
  · intro followup hmem
    obtain ⟨-, earlier, hearlier, hactive⟩ := h.reminded followup hmem
    rw [h.held] at hearlier
    exact ⟨earlier.folded, map_eq_ok.mpr ⟨earlier, hearlier, rfl⟩, hactive⟩

end Harness.Schedule
