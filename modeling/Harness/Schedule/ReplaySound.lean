import Harness.Schedule.Fold

namespace Harness.Schedule

open Harness.Foundation

variable {Other : Type}

def createdId? : ScheduleEvent Other → Option String
  | .change (.create schedule) => some schedule.id
  | _ => none

def createdIds (events : List (ScheduleEvent Other)) : List String := events.filterMap createdId?

def dispatchOf (id : String) : ScheduleEvent Other → Bool
  | .change (.dispatch target _) => target = id
  | _ => false

def dispatches (id : String) (events : List (ScheduleEvent Other)) : Nat :=
  events.countP (dispatchOf id)

def togglePaused (id : String) (paused : Bool) : ScheduleEvent Other → Bool
  | .change (.pause target) => if target = id then true else paused
  | .change (.resume target) => if target = id then false else paused
  | _ => paused

def pausedAfter (id : String) (events : List (ScheduleEvent Other)) : Bool :=
  events.foldl (togglePaused id) false

/-- The history a Session may have: fresh ids, one-shots that fire once, and dispatches of
schedules that this Session created and has neither deleted nor paused. -/
structure Lawful (own : List (ScheduleEvent Other)) : Prop where
  fresh : (createdIds own).Nodup
  once : ∀ schedule, .change (.create schedule) ∈ own → schedule.rule.isEvery = false →
    dispatches schedule.id own ≤ 1
  live : ∀ earlier later id acceptedAt,
    own = earlier ++ .change (.dispatch id acceptedAt) :: later →
    id ∈ createdIds earlier ∧ .change (.delete id) ∉ earlier ∧ pausedAfter id earlier = false

structure Retained (own : List (ScheduleEvent Other)) (id : String) (schedule : FoldedSchedule) :
    Prop where
  named : schedule.record.id = id
  trimmed : isTrimmedText id = true
  undeleted : .change (.delete id) ∉ own
  toggled : schedule.paused = pausedAfter id own
  kind : ∀ created, .change (.create created) ∈ own → created.id = id →
    created.rule.isEvery = schedule.record.rule.isEvery
  unfired : schedule.record.rule.isEvery = false → dispatches id own = 0

structure Untouched (own : List (ScheduleEvent Other)) (id : String) : Prop where
  undeleted : .change (.delete id) ∉ own
  undispatched : dispatches id own = 0
  untoggled : pausedAfter id own = false

structure Replayed (own : List (ScheduleEvent Other)) (replay : Replay) : Prop where
  seen : replay.seen = createdIds own
  fresh : replay.seen.Nodup
  known : ∀ id schedule, replay.retained.get? id = some schedule → id ∈ replay.seen
  retained : ∀ id schedule, replay.retained.get? id = some schedule → Retained own id schedule
  once : ∀ schedule, .change (.create schedule) ∈ own → schedule.rule.isEvery = false →
    dispatches schedule.id own ≤ 1
  untouched : ∀ id, id ∉ replay.seen → Untouched own id

theorem mem_createdIds {own : List (ScheduleEvent Other)} {id : String} :
    id ∈ createdIds own ↔ ∃ schedule, .change (.create schedule) ∈ own ∧ schedule.id = id := by
  simp only [createdIds, List.mem_filterMap]
  constructor
  · rintro ⟨event, hmem, hevent⟩
    unfold createdId? at hevent
    split at hevent
    · exact ⟨_, hmem, by simpa using hevent⟩
    · cases hevent
  · rintro ⟨schedule, hmem, rfl⟩
    exact ⟨_, hmem, rfl⟩

theorem replayed_nil : Replayed ([] : List (ScheduleEvent Other)) .empty where
  seen := rfl
  fresh := List.nodup_nil
  known := by simp [Replay.empty, OrderedMap.get?]
  retained := by simp [Replay.empty, OrderedMap.get?]
  once := by simp
  untouched _ _ := ⟨List.not_mem_nil, rfl, rfl⟩

section Snoc

variable (own : List (ScheduleEvent Other)) (event : ScheduleEvent Other) (id : String)

theorem createdIds_snoc :
    createdIds (own ++ [event]) = createdIds own ++ (createdId? event).toList := by
  rw [createdIds, List.filterMap_append]
  cases h : createdId? event <;> simp [createdIds, h]

theorem dispatches_snoc :
    dispatches id (own ++ [event]) = dispatches id own + (dispatchOf id event).toNat := by
  rw [dispatches, List.countP_append]
  cases h : dispatchOf id event <;> simp [dispatches, h]

theorem pausedAfter_snoc :
    pausedAfter id (own ++ [event]) = togglePaused id (pausedAfter id own) event := by
  simp [pausedAfter]

end Snoc

def target? : ScheduleEvent Other → Option String
  | .change (.create schedule) => some schedule.id
  | .change (.delete id) | .change (.pause id) | .change (.resume id) => some id
  | .change (.dispatch id _) => some id
  | _ => none

section Elsewhere

variable {own : List (ScheduleEvent Other)} {event : ScheduleEvent Other} {id : String}

theorem dispatchOf_of_ne (h : target? event ≠ some id) : dispatchOf id event = false := by
  cases event with
  | change change => cases change <;> simp_all [target?, dispatchOf]
  | malformed => rfl
  | other => rfl

theorem togglePaused_of_ne (h : target? event ≠ some id) (paused : Bool) :
    togglePaused id paused event = paused := by
  cases event with
  | change change => cases change <;> simp_all [target?, togglePaused]
  | malformed => rfl
  | other => rfl

theorem mem_snoc_of_target {other : ScheduleEvent Other} (h : target? event ≠ some id)
    (hother : target? other = some id) : other ∈ own ++ [event] ↔ other ∈ own := by
  rw [List.mem_append, List.mem_singleton]
  constructor
  · rintro (hmem | rfl)
    · exact hmem
    · exact absurd hother h
  · exact .inl

theorem dispatches_of_ne (h : target? event ≠ some id) :
    dispatches id (own ++ [event]) = dispatches id own := by
  rw [dispatches_snoc, dispatchOf_of_ne h]
  rfl

theorem pausedAfter_of_ne (h : target? event ≠ some id) :
    pausedAfter id (own ++ [event]) = pausedAfter id own := by
  rw [pausedAfter_snoc, togglePaused_of_ne h]

theorem Untouched.snoc (huntouched : Untouched own id) (h : target? event ≠ some id) :
    Untouched (own ++ [event]) id where
  undeleted := by
    rw [mem_snoc_of_target h rfl]
    exact huntouched.undeleted
  undispatched := by rw [dispatches_of_ne h, huntouched.undispatched]
  untoggled := by rw [pausedAfter_of_ne h, huntouched.untoggled]

theorem Retained.snoc {schedule : FoldedSchedule} (hretained : Retained own id schedule)
    (h : target? event ≠ some id) : Retained (own ++ [event]) id schedule where
  named := hretained.named
  trimmed := hretained.trimmed
  undeleted := by
    rw [mem_snoc_of_target h rfl]
    exact hretained.undeleted
  toggled := by rw [pausedAfter_of_ne h, hretained.toggled]
  kind created hcreated hid := by
    rw [mem_snoc_of_target h (by rw [target?, hid])] at hcreated
    exact hretained.kind created hcreated hid
  unfired hkind := by rw [dispatches_of_ne h, hretained.unfired hkind]

end Elsewhere

namespace Replayed

variable {own : List (ScheduleEvent Other)} {replay : Replay} {event : ScheduleEvent Other}

theorem change (hreplayed : Replayed own replay) {id : String}
    {retained : OrderedMap String FoldedSchedule}
    (hcreated : createdId? event = none) (htarget : ∀ other, target? event = some other → other = id)
    (hid : id ∈ replay.seen)
    (hothers : ∀ other, other ≠ id → retained.get? other = replay.retained.get? other)
    (hself : ∀ schedule, retained.get? id = some schedule → Retained (own ++ [event]) id schedule)
    (honce : ∀ created, .change (.create created) ∈ own → created.id = id →
      created.rule.isEvery = false → dispatches id (own ++ [event]) ≤ 1) :
    Replayed (own ++ [event]) { replay with retained } where
  seen := by
    rw [createdIds_snoc, hcreated]
    exact hreplayed.seen.trans (List.append_nil _).symm
  fresh := hreplayed.fresh
  known other schedule h := by
    by_cases hother : other = id
    · rw [hother]
      exact hid
    · rw [hothers other hother] at h
      exact hreplayed.known other schedule h
  retained other schedule h := by
    by_cases hother : other = id
    · subst hother
      exact hself schedule h
    · rw [hothers other hother] at h
      exact (hreplayed.retained other schedule h).snoc fun heq => hother (htarget other heq)
  once created hmem hkind := by
    have hmem : .change (.create created) ∈ own := by
      rcases List.mem_append.mp hmem with hmem | hmem
      · exact hmem
      · rw [← List.mem_singleton.mp hmem] at hcreated
        cases hcreated
    by_cases hother : created.id = id
    · rw [hother]
      exact honce created hmem hother hkind
    · rw [dispatches_of_ne fun heq => hother (htarget _ heq)]
      exact hreplayed.once created hmem hkind
  untouched other h :=
    (hreplayed.untouched other h).snoc fun heq => h (htarget other heq ▸ hid)

theorem skip (hreplayed : Replayed own replay) (h : target? event = none)
    (hcreated : createdId? event = none) : Replayed (own ++ [event]) replay where
  seen := by
    rw [createdIds_snoc, hcreated]
    exact hreplayed.seen.trans (List.append_nil _).symm
  fresh := hreplayed.fresh
  known := hreplayed.known
  retained id schedule hget := (hreplayed.retained id schedule hget).snoc (by simp [h])
  once created hmem hkind := by
    rw [mem_snoc_of_target (by simp [h] : target? event ≠ some created.id) rfl] at hmem
    rw [dispatches_of_ne (by simp [h])]
    exact hreplayed.once created hmem hkind
  untouched id hid := (hreplayed.untouched id hid).snoc (by simp [h])

theorem create (hreplayed : Replayed own replay) {schedule : ScheduleRecord}
    (hnew : schedule.id ∉ replay.seen) (htrimmed : isTrimmedText schedule.id = true) :
    Replayed (own ++ [.change (.create schedule)]) {
      seen := replay.seen ++ [schedule.id]
      retained := replay.retained.set schedule.id ⟨schedule, false⟩ } where
  seen := by rw [createdIds_snoc, hreplayed.seen]; rfl
  fresh := by
    rw [List.nodup_append]
    exact ⟨hreplayed.fresh, List.nodup_singleton _, fun id hid other hother => by
      rw [List.mem_singleton.mp hother]
      exact fun heq => hnew (heq ▸ hid)⟩
  known id kept h := by
    rw [OrderedMap.get?_set] at h
    split at h
    · rename_i hid
      simp [hid]
    · exact List.mem_append_left _ (hreplayed.known id kept h)
  retained id kept h := by
    rw [OrderedMap.get?_set] at h
    split at h
    · rename_i hid
      subst hid
      cases h
      have huntouched := hreplayed.untouched schedule.id hnew
      refine ⟨rfl, htrimmed, ?_, ?_, ?_, ?_⟩
      · simpa using huntouched.undeleted
      · rw [pausedAfter_snoc, huntouched.untoggled]
        rfl
      · intro created hmem hid
        rcases List.mem_append.mp hmem with hold | hlast
        · refine absurd ?_ hnew
          rw [← hid, hreplayed.seen]
          exact mem_createdIds.mpr ⟨created, hold, rfl⟩
        · cases List.mem_singleton.mp hlast
          rfl
      · intro _
        rw [dispatches_snoc, huntouched.undispatched]
        rfl
    · rename_i hid
      exact (hreplayed.retained id kept h).snoc (by simpa [target?] using Ne.symm hid)
  once created hmem hkind := by
    have hcreate : dispatchOf created.id (.change (.create schedule) : ScheduleEvent Other) = false :=
      rfl
    rw [dispatches_snoc, hcreate]
    rcases List.mem_append.mp hmem with hold | hlast
    · exact hreplayed.once created hold hkind
    · cases List.mem_singleton.mp hlast
      rw [(hreplayed.untouched schedule.id hnew).undispatched]
      exact Nat.zero_le 1
  untouched id hid := by
    rw [List.mem_append, List.mem_singleton, not_or] at hid
    exact (hreplayed.untouched id hid.1).snoc (by simpa [target?] using Ne.symm hid.2)

theorem adjust (hreplayed : Replayed own replay) {id : String} {schedule : FoldedSchedule}
    {retained : OrderedMap String FoldedSchedule} (hget : replay.retained.get? id = some schedule)
    (hcreated : createdId? event = none) (htarget : target? event = some id)
    (hdispatch : dispatchOf id event = false)
    (hothers : ∀ other, other ≠ id → retained.get? other = replay.retained.get? other)
    (hself : ∀ kept, retained.get? id = some kept → Retained (own ++ [event]) id kept) :
    Replayed (own ++ [event]) { replay with retained } := by
  apply hreplayed.change hcreated _ (hreplayed.known id schedule hget) hothers hself
  · intro created hmem hid hkind
    rw [dispatches_snoc, hdispatch, ← hid]
    exact hreplayed.once created hmem hkind
  · intro other hother
    rw [htarget] at hother
    exact (Option.some.inj hother).symm

theorem toggle (hreplayed : Replayed own replay) {id : String} {record : ScheduleRecord}
    {before after : Bool} (hget : replay.retained.get? id = some ⟨record, before⟩)
    (hcreated : createdId? event = none) (htarget : target? event = some id)
    (hdispatch : dispatchOf id event = false) (hdelete : event ≠ .change (.delete id))
    (htoggle : ∀ paused, togglePaused id paused event = after) :
    Replayed (own ++ [event]) (replay.keep id record after) := by
  have hkept := hreplayed.retained id _ hget
  apply hreplayed.adjust hget hcreated htarget hdispatch
  · intro other hother
    rw [OrderedMap.get?_set, if_neg hother]
  · intro schedule h
    rw [OrderedMap.get?_set, if_pos rfl] at h
    cases h
    refine ⟨hkept.named, hkept.trimmed, ?_, ?_, ?_, ?_⟩
    · rw [List.mem_append, List.mem_singleton, not_or]
      exact ⟨hkept.undeleted, Ne.symm hdelete⟩
    · rw [pausedAfter_snoc, htoggle]
    · intro created hmem
      apply hkept.kind created
      rcases List.mem_append.mp hmem with hold | hlast
      · exact hold
      · rw [← List.mem_singleton.mp hlast] at hcreated
        cases hcreated
    · intro hkind
      rw [dispatches_snoc, hdispatch, hkept.unfired hkind]
      rfl

theorem delete (hreplayed : Replayed own replay) {id : String} {schedule : FoldedSchedule}
    (hget : replay.retained.get? id = some schedule) :
    Replayed (own ++ [.change (.delete id)]) (replay.drop id) := by
  apply hreplayed.adjust hget rfl rfl rfl
  · intro other hother
    rw [OrderedMap.get?_delete, if_neg hother]
  · intro kept h
    rw [OrderedMap.get?_delete, if_pos rfl] at h
    cases h

end Replayed

theorem target?_eq_some {replay : Replay} {id : String} {paused : Bool} {record : ScheduleRecord} :
    replay.target? id paused = some record ↔ replay.retained.get? id = some ⟨record, paused⟩ := by
  unfold Replay.target?
  cases h : replay.retained.get? id with
  | none => simp
  | some schedule =>
    obtain ⟨kept, flag⟩ := schedule
    simp [and_comm]

theorem advance_eq_ok {record : ScheduleRecord} {acceptedAt : Option Instant}
    {next : Option ScheduleRecord} (h : advanceDispatchedSchedule record acceptedAt = .ok next) :
    (record.rule.isEvery = false → next = none) ∧
      ∀ kept, next = some kept → kept.id = record.id ∧ kept.rule = record.rule := by
  unfold advanceDispatchedSchedule at h
  split at h
  · rename_i seconds hrule
    split at h
    · cases h
    · obtain ⟨occurrence, -, h⟩ := bind_eq_ok.mp h
      cases h
      refine ⟨by simp [hrule, ScheduleRule.isEvery], ?_⟩
      rintro kept hkept
      obtain ⟨instant, -, rfl⟩ := Option.map_eq_some_iff.mp hkept
      exact ⟨rfl, rfl⟩
  · split at h
    · cases h
    · cases h
      simp

theorem applyDispatch_eq_ok {replay after : Replay} {id : String} {acceptedAt : Option Instant}
    (h : replay.applyDispatch id acceptedAt = .ok after) :
    ∃ record next, replay.retained.get? id = some ⟨record, false⟩ ∧
      advanceDispatchedSchedule record acceptedAt = .ok next ∧
      after = match next with
        | none => replay.drop id
        | some kept => replay.keep id kept false := by
  unfold Replay.applyDispatch at h
  split at h
  · cases h
  · rename_i record htarget
    obtain ⟨next, hnext, h⟩ := bind_eq_ok.mp h
    refine ⟨record, next, target?_eq_some.mp htarget, hnext, ?_⟩
    cases next <;> exact (Except.ok.inj h).symm

theorem Replayed.dispatch {own : List (ScheduleEvent Other)} {replay after : Replay} {id : String}
    {acceptedAt : Option Instant} (hreplayed : Replayed own replay)
    (h : replay.applyDispatch id acceptedAt = .ok after) :
    Replayed (own ++ [.change (.dispatch id acceptedAt)]) after := by
  obtain ⟨record, next, hget, hadvance, rfl⟩ := applyDispatch_eq_ok h
  obtain ⟨hterminal, hnext⟩ := advance_eq_ok hadvance
  have hkept := hreplayed.retained id _ hget
  have hid := hreplayed.known id _ hget
  have honce : ∀ created, ScheduleEvent.change (.create created) ∈ own → created.id = id →
      created.rule.isEvery = false →
      dispatches id (own ++ [.change (.dispatch id acceptedAt)]) ≤ 1 := by
    intro created hmem hcreated hkind
    rw [dispatches_snoc, hkept.unfired ((hkept.kind created hmem hcreated).symm.trans hkind)]
    simp [dispatchOf]
  have htarget : ∀ other,
      target? (.change (.dispatch id acceptedAt) : ScheduleEvent Other) = some other →
      other = id := fun other hother => (Option.some.inj hother).symm
  cases next with
  | none =>
    apply hreplayed.change rfl htarget hid _ _ honce
    · intro other hother
      rw [OrderedMap.get?_delete, if_neg hother]
    · intro kept hget'
      rw [OrderedMap.get?_delete, if_pos rfl] at hget'
      cases hget'
  | some kept =>
    obtain ⟨hname, hrule⟩ := hnext kept rfl
    apply hreplayed.change rfl htarget hid _ _ honce
    · intro other hother
      rw [OrderedMap.get?_set, if_neg hother]
    · intro schedule hget'
      rw [OrderedMap.get?_set, if_pos rfl] at hget'
      cases hget'
      refine ⟨hname.trans hkept.named, hkept.trimmed, ?_, ?_, ?_, ?_⟩
      · simpa using hkept.undeleted
      · rw [pausedAfter_snoc]
        exact hkept.toggled
      · intro created hmem hcreated
        rw [hrule]
        exact hkept.kind created (by simpa using hmem) hcreated
      · intro hkind
        rw [hrule] at hkind
        cases hterminal hkind

theorem applyCreate_eq_ok {replay after : Replay} {schedule : ScheduleRecord}
    (h : replay.applyCreate schedule = .ok after) :
    schedule.id ∉ replay.seen ∧ after = {
      seen := replay.seen ++ [schedule.id]
      retained := replay.retained.set schedule.id ⟨schedule, false⟩ } := by
  unfold Replay.applyCreate at h
  split at h
  · cases h
  · rename_i hnew
    exact ⟨hnew, (Except.ok.inj h).symm⟩

theorem applyDelete_eq_ok {replay after : Replay} {id : String}
    (h : replay.applyDelete id = .ok after) :
    (∃ schedule, replay.retained.get? id = some schedule) ∧ after = replay.drop id := by
  unfold Replay.applyDelete at h
  split at h
  · rename_i hhas
    refine ⟨Option.ne_none_iff_exists'.mp fun hnone => ?_, (Except.ok.inj h).symm⟩
    exact OrderedMap.notMem_keys_of_get? hnone (OrderedMap.has_iff.mp hhas)
  · cases h

theorem applyPause_eq_ok {replay after : Replay} {id : String}
    (h : replay.applyPause id = .ok after) :
    ∃ record, replay.retained.get? id = some ⟨record, false⟩ ∧
      after = replay.keep id record true := by
  unfold Replay.applyPause at h
  split at h
  · cases h
  · exact ⟨_, target?_eq_some.mp ‹_›, (Except.ok.inj h).symm⟩

theorem applyResume_eq_ok {replay after : Replay} {id : String}
    (h : replay.applyResume id = .ok after) :
    ∃ record, replay.retained.get? id = some ⟨record, true⟩ ∧
      after = replay.keep id record false := by
  unfold Replay.applyResume at h
  split at h
  · cases h
  · exact ⟨_, target?_eq_some.mp ‹_›, (Except.ok.inj h).symm⟩

theorem decodeId_eq_ok {id : String} {u : Unit} (h : decodeId id = .ok u) :
    isTrimmedText id = true :=
  require_eq_ok.mp h

theorem replayed_step (own : List (ScheduleEvent Other)) (replay : Replay)
    (event : ScheduleEvent Other) (after : Replay) (hreplayed : Replayed own replay)
    (h : applyScheduleEvent replay event = .ok after) : Replayed (own ++ [event]) after := by
  cases event with
  | other event =>
    cases h
    exact hreplayed.skip rfl rfl
  | malformed message => cases h
  | change change =>
    obtain ⟨_, hdecode, happly⟩ := bind_eq_ok.mp h
    cases change with
    | create schedule =>
      obtain ⟨hnew, rfl⟩ := applyCreate_eq_ok happly
      obtain ⟨_, _, hdecode⟩ := bind_eq_ok.mp hdecode
      obtain ⟨_, _, hid⟩ := bind_eq_ok.mp hdecode
      exact hreplayed.create hnew (decodeId_eq_ok hid)
    | delete id =>
      obtain ⟨⟨schedule, hget⟩, rfl⟩ := applyDelete_eq_ok happly
      exact hreplayed.delete hget
    | pause id =>
      obtain ⟨record, hget, rfl⟩ := applyPause_eq_ok happly
      exact hreplayed.toggle hget rfl rfl rfl nofun fun paused => if_pos rfl
    | resume id =>
      obtain ⟨record, hget, rfl⟩ := applyResume_eq_ok happly
      exact hreplayed.toggle hget rfl rfl rfl nofun fun paused => if_pos rfl
    | dispatch id acceptedAt => exact hreplayed.dispatch happly

theorem replayed {own : List (ScheduleEvent Other)} {replay : Replay}
    (h : foldOk applyScheduleEvent .empty own = .ok replay) : Replayed own replay :=
  foldOk_invariant Replayed replayed_step h replayed_nil

theorem lawful_of_replay {own : List (ScheduleEvent Other)} {replay : Replay}
    (h : foldOk applyScheduleEvent .empty own = .ok replay) : Lawful own where
  fresh := by
    rw [← (replayed h).seen]
    exact (replayed h).fresh
  once := (replayed h).once
  live earlier later id acceptedAt hown := by
    subst hown
    rw [foldOk_append] at h
    obtain ⟨before, hbefore, h⟩ := bind_eq_ok.mp h
    obtain ⟨after, hafter, -⟩ := bind_eq_ok.mp h
    obtain ⟨_, -, hdispatch⟩ := bind_eq_ok.mp hafter
    obtain ⟨record, next, hget, -⟩ := applyDispatch_eq_ok hdispatch
    have hkept := (replayed hbefore).retained id _ hget
    refine ⟨?_, hkept.undeleted, hkept.toggled.symm⟩
    rw [← (replayed hbefore).seen]
    exact (replayed hbefore).known id _ hget

end Harness.Schedule
