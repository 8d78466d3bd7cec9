import Harness.Goal.FoldSound

/-! The service and the strict fold agree: every change the service commits is the next one the
fold accepts, so the cache stays the fold of the log. -/

namespace Harness

open Harness.Foundation

section Plans

variable {cache : GoalCache} {count : Nat} {current goal : GoalSnapshot}
  {createdAt updatedAt : Int} {now : TimeValue}

structure Accepts (state : GoalFoldState) (change : GoalChange) : Prop where
  valid : change.Valid
  applied : ∃ next, applyGoalChange state change = .ok next

theorem TimeValue.isSafe (now : TimeValue) : isSafe now.ms = true := by
  have := now.bounded
  rw [isSafe_iff]
  omega

theorem TimeValue.isSafe_max (now : TimeValue) (h : Foundation.isSafe updatedAt = true) :
    Foundation.isSafe (max now.ms updatedAt) = true := by
  cases max_choice now.ms updatedAt with
  | inl hnow => rw [hnow, now.isSafe]
  | inr hupdated => rw [hupdated, h]

theorem currentChange_ok (h : cache.state.Current count current createdAt updatedAt)
    (operation : GoalOperation) :
    currentChange cache now operation goal = .ok (.snapshot
      { operation, goal, roundsStarted := cache.state.roundsStarted, createdAt
        updatedAt := max now.ms updatedAt }) := by
  simp [currentChange, nextMutationTime, h.created, h.updated]

theorem accepts_current (h : cache.state.Current count current createdAt updatedAt)
    (hrounds : isSafe cache.state.roundsStarted = true) {operation : GoalOperation}
    (hne : operation ≠ .create) (hvalid : goal.Valid) (hid : goal.id = current.id)
    (hrevision : goal.revision = current.revision + 1)
    (hoperation : validateOperation cache.state operation current goal = .ok ()) :
    Accepts cache.state (.snapshot
      { operation, goal, roundsStarted := cache.state.roundsStarted, createdAt
        updatedAt := max now.ms updatedAt }) where
  valid := ⟨hvalid, h.nonneg, h.ordered.trans (le_max_right _ _), now.isSafe_max h.safe, hrounds⟩
  applied := by
    simp [applyGoalChange, applySnapshot, admitSnapshot, hne, h.current,
      validateSnapshotTransition, requireNextRevision, GoalSnapshot.ref, hid, hrevision, h.updated,
      h.created, hoperation]

theorem expectCurrent_ok {ref : SuppliedRef} (h : expectCurrent cache ref = .ok current) :
    cache.state.goal = some current := by
  unfold expectCurrent at h
  split at h
  · simp at h
  · rename_i hgoal
    split at h
    · rw [hgoal, Except.ok.inj h]
    · simp at h

theorem safe_next (h : cache.state.Current count current createdAt updatedAt)
    (hcount : count < maxArrayLength) : isSafe ((current.revision + 1 : Nat) : Int) = true := by
  have := h.counted
  unfold maxArrayLength at hcount
  rw [isSafe_iff]
  omega

theorem withPhase_valid (h : cache.state.Current count current createdAt updatedAt)
    (hcount : count < maxArrayLength) {phase : GoalPhase} (hphase : phase ≠ .blocked) :
    (withPhase current phase).Valid where
  id := h.valid.id
  objective := h.valid.objective
  revision := Nat.succ_pos _
  safeRevision := safe_next h hcount
  rounds := h.valid.rounds
  safeRounds := h.valid.safeRounds
  blocked := fun heq => absurd heq hphase
  unblocked := fun _ => rfl

theorem resolveObjective_ok {value objective : String} (h : resolveObjective value = .ok objective) :
    isNormalized objective = true := by
  unfold resolveObjective at h
  split at h
  · simp at h
  · rename_i hne
    rw [← Except.ok.inj h]
    exact isNormalized_trim hne

theorem resolveMaxGoalRounds_ok {value : SuppliedNumber} {rounds : Nat}
    (h : resolveMaxGoalRounds value = .ok rounds) : 1 ≤ rounds ∧ isSafe rounds = true := by
  unfold resolveMaxGoalRounds at h
  split at h
  · rename_i hread
    obtain rfl := Except.ok.inj h
    unfold SuppliedNumber.positiveInteger? at hread
    split at hread
    · obtain ⟨hnat, hpos⟩ := Option.filter_eq_some_iff.mp hread
      exact ⟨of_decide_eq_true hpos, (Json.safeNat?_eq_some.mp hnat).2⟩
    · simp at hread
  · simp at h

theorem resolveBlockReason_ok {value : Json} {reason : GoalBlockReason}
    (h : resolveBlockReason value = .ok reason) : reason.Valid := by
  unfold resolveBlockReason at h
  dsimp only at h
  split at h
  · rename_i hcode hmessage
    obtain rfl := (Except.ok.inj h).symm
    have hmessage := (Option.filter_eq_some_iff.mp hmessage).2
    exact ⟨(Option.filter_eq_some_iff.mp hcode).2, isNormalized_trim (by simpa using hmessage)⟩
  · simp at h

theorem editedField_ok {α β : Type} {resolve : α → Except GoalFailure β} {before after : β}
    {value : Option α} (h : editedField resolve before value = .ok after) :
    after = before ∨ ∃ given, resolve given = .ok after := by
  cases value with
  | none => exact .inl (Except.ok.inj h).symm
  | some given => exact .inr ⟨given, h⟩

variable {ref : SuppliedRef} {planned : GoalChange × GoalActivation}

theorem planEdit_accepts (hsound : cache.state.Sound count) (hcount : count < maxArrayLength)
    {request : EditGoalRequest} (h : planEdit ref request now cache = .ok planned) :
    Accepts cache.state planned.1 := by
  obtain ⟨current, hcurrent, h⟩ := bind_eq_ok.mp h
  obtain ⟨createdAt, updatedAt, hcurrent⟩ := hsound.current current (expectCurrent_ok hcurrent)
  split at h
  · simp at h
  · obtain ⟨objective, hobjective, h⟩ := bind_eq_ok.mp h
    obtain ⟨rounds, hrounds, h⟩ := bind_eq_ok.mp h
    rw [currentChange_ok hcurrent, ok_bind] at h
    obtain rfl := Except.ok.inj h
    have hnormal : isNormalized objective = true := by
      cases editedField_ok hobjective with
      | inl hkept => rw [hkept, hcurrent.valid.objective]
      | inr hgiven => exact resolveObjective_ok hgiven.choose_spec
    have hpositive : 1 ≤ rounds ∧ isSafe rounds = true := by
      cases editedField_ok hrounds with
      | inl hkept => exact hkept ▸ ⟨hcurrent.valid.rounds, hcurrent.valid.safeRounds⟩
      | inr hgiven => exact resolveMaxGoalRounds_ok hgiven.choose_spec
    refine accepts_current hcurrent hsound.rounds (by simp) ?_ rfl rfl (by simp [validateOperation])
    exact ⟨hcurrent.valid.id, hnormal, Nat.succ_pos _, safe_next hcurrent hcount, hpositive.1,
      hpositive.2, hcurrent.valid.blocked, hcurrent.valid.unblocked⟩

theorem planTransition_accepts (hsound : cache.state.Sound count) (hcount : count < maxArrayLength)
    {operation : GoalOperation} {allowed : List GoalPhase} {phase : GoalPhase}
    (hne : operation ≠ .create) (hphase : phase ≠ .blocked)
    (hoperation : ∀ current : GoalSnapshot, current.phase ∈ allowed →
      validateOperation cache.state operation current (withPhase current phase) = .ok ())
    (h : planTransition ref operation allowed phase now cache = .ok planned) :
    Accepts cache.state planned.1 := by
  obtain ⟨current, hcurrent, h⟩ := bind_eq_ok.mp h
  obtain ⟨createdAt, updatedAt, hcurrent⟩ := hsound.current current (expectCurrent_ok hcurrent)
  split at h
  · simp at h
  · rename_i hallowed
    rw [currentChange_ok hcurrent, ok_bind] at h
    obtain rfl := Except.ok.inj h
    exact accepts_current hcurrent hsound.rounds hne (withPhase_valid hcurrent hcount hphase) rfl rfl
      (hoperation current (by simpa using hallowed))

theorem planPause_accepts (hsound : cache.state.Sound count) (hcount : count < maxArrayLength)
    (h : planPause ref now cache = .ok planned) : Accepts cache.state planned.1 := by
  refine planTransition_accepts hsound hcount (by simp) (by simp) ?_ h
  intro current hphase
  simp [validateOperation, requireSameDefinition, withPhase, List.mem_singleton.mp hphase]

theorem planComplete_accepts (hsound : cache.state.Sound count) (hcount : count < maxArrayLength)
    (h : planComplete ref now cache = .ok planned) : Accepts cache.state planned.1 := by
  refine planTransition_accepts hsound hcount (by simp) (by simp) ?_ h
  intro current hphase
  have hopen : current.phase ≠ .complete := by
    intro hcomplete
    simp [hcomplete] at hphase
  simp [validateOperation, requireSameDefinition, withPhase, hopen]

theorem planResume_accepts (hsound : cache.state.Sound count) (hcount : count < maxArrayLength)
    (h : planResume ref now cache = .ok planned) : Accepts cache.state planned.1 := by
  obtain ⟨current, hcurrent, h⟩ := bind_eq_ok.mp h
  obtain ⟨createdAt, updatedAt, hcurrent⟩ := hsound.current current (expectCurrent_ok hcurrent)
  split at h
  · simp at h
  · rename_i hphase
    split at h
    · simp at h
    · split at h
      · simp at h
      · rename_i hbudget
        rw [currentChange_ok hcurrent, ok_bind] at h
        obtain rfl := Except.ok.inj h
        refine accepts_current hcurrent hsound.rounds (by simp)
          (withPhase_valid hcurrent hcount (by simp)) rfl rfl ?_
        simp only [validateOperation, requireSameDefinition, withPhase, and_self, decide_true,
          require_true, ok_bind, true_and, require_eq_ok, decide_eq_true_iff]
        exact ⟨not_not.mp hphase, Nat.lt_of_not_le hbudget⟩

theorem planBlock_accepts (hsound : cache.state.Sound count) (hcount : count < maxArrayLength)
    {reason : Json} (h : planBlock ref reason now cache = .ok planned) :
    Accepts cache.state planned.1 := by
  obtain ⟨current, hcurrent, h⟩ := bind_eq_ok.mp h
  obtain ⟨createdAt, updatedAt, hcurrent⟩ := hsound.current current (expectCurrent_ok hcurrent)
  split at h
  · simp at h
  · rename_i hactive
    obtain ⟨blockedReason, hreason, h⟩ := bind_eq_ok.mp h
    rw [currentChange_ok hcurrent, ok_bind] at h
    obtain rfl := Except.ok.inj h
    refine accepts_current hcurrent hsound.rounds (by simp) ?_ rfl rfl ?_
    · exact ⟨hcurrent.valid.id, hcurrent.valid.objective, Nat.succ_pos _,
        safe_next hcurrent hcount, hcurrent.valid.rounds, hcurrent.valid.safeRounds,
        fun _ => ⟨blockedReason, rfl, resolveBlockReason_ok hreason⟩, fun hne => absurd rfl hne⟩
    · simp [validateOperation, requireSameDefinition, withPhase, not_not.mp hactive]

theorem clear_accepts (h : cache.state.Current count current createdAt updatedAt)
    (hcount : count < maxArrayLength) :
    Accepts cache.state (.clear (goalClearChange current (max now.ms updatedAt))) where
  valid := ⟨h.valid.id, Nat.succ_pos _, safe_next h hcount,
    (h.nonneg.trans h.ordered).trans (le_max_right _ _), now.isSafe_max h.safe⟩
  applied := ⟨_, applyClear_current h (le_max_right _ _)⟩

theorem planClear_accepts (hsound : cache.state.Sound count) (hcount : count < maxArrayLength)
    (h : planClear ref now cache = .ok planned) : Accepts cache.state planned.1 := by
  obtain ⟨current, hcurrent, h⟩ := bind_eq_ok.mp h
  obtain ⟨createdAt, updatedAt, hcurrent⟩ := hsound.current current (expectCurrent_ok hcurrent)
  simp only [nextMutationTime, hcurrent.updated, ok_bind] at h
  obtain rfl := Except.ok.inj h
  exact clear_accepts hcurrent hcount

theorem applyGoalChange_create {state : GoalFoldState} {change : GoalSnapshotChange}
    (hcreate : change.operation = .create) (hrevision : change.goal.revision = 1)
    (hphase : change.goal.phase = .active) (hrounds : change.roundsStarted = 0)
    (hcomplete : ∀ current ∈ state.goal, current.phase = .complete)
    (hfresh : change.goal.id ∉ state.seenGoalIds) :
    ∃ next, applyGoalChange state (.snapshot change) = .ok next := by
  change ∃ next, applySnapshot state change = .ok next
  unfold applySnapshot admitSnapshot
  rw [if_pos hcreate, (@require_eq_ok _ _ ()).mpr
    (decide_eq_true ⟨hrevision, hphase, hrounds, hcomplete, hfresh⟩)]
  exact ⟨_, rfl⟩

theorem planCreate_accepts {config : GoalConfig} {request : CreateGoalRequest}
    {spec : ResolvedCreateGoal} {uuid : String}
    (hspec : resolveCreateGoal config request = .ok spec) (hclock : 0 ≤ now.ms)
    (hfresh : "goal-" ++ uuid ∉ cache.state.seenGoalIds)
    (h : planCreate spec uuid now cache = .ok planned) : Accepts cache.state planned.1 := by
  obtain ⟨objective, hobjective, hspec⟩ := bind_eq_ok.mp hspec
  obtain ⟨rounds, hrounds, hspec⟩ := bind_eq_ok.mp hspec
  obtain rfl := (Except.ok.inj hspec).symm
  unfold planCreate at h
  split at h
  · simp at h
  · rename_i hfinished
    obtain rfl := (Except.ok.inj h).symm
    have hid : "goal-" ++ uuid ≠ "" := by
      intro hempty
      have := congrArg String.length hempty
      simp at this
    have hone : isSafe ((1 : Nat) : Int) = true := by decide
    have hzero : isSafe ((0 : Nat) : Int) = true := by decide
    refine ⟨⟨⟨hid, resolveObjective_ok hobjective, Nat.le_refl _, hone,
      (resolveMaxGoalRounds_ok hrounds).1, (resolveMaxGoalRounds_ok hrounds).2, by simp, by simp⟩,
      hclock, Int.le_refl _, now.isSafe, hzero⟩, ?_⟩
    have hcomplete : ∀ current, cache.state.goal = some current → current.phase = .complete := by
      simpa using hfinished
    exact applyGoalChange_create rfl rfl rfl rfl hcomplete hfresh

end Plans

section Caches

variable {log : EventLog} {cache : GoalCache} {state : GoalFoldState}

/-- The cache is the fold of what it has observed, and what it has not is no goal change. -/
structure CacheFollows (log : EventLog) (cache : GoalCache) : Prop where
  observed : cache.observedSeq ≤ log.length
  folded : foldGoalState (log.take cache.observedSeq) = .ok cache.state
  quiet : ∀ event ∈ log.drop cache.observedSeq, event.type ≠ "goal/change"

structure Synced (log : EventLog) (cache : GoalCache) : Prop where
  observed : cache.observedSeq = log.length
  folded : foldGoalState log = .ok cache.state

theorem Synced.follows (h : Synced log cache) : CacheFollows log cache where
  observed := h.observed.le
  folded := by rw [h.observed, List.take_length, h.folded]
  quiet := by rw [h.observed, List.drop_length]; simp

theorem syncEvents_quiet {pending : Option PendingActivation} {events : List SessionEvent}
    (hquiet : ∀ event ∈ events, event.type ≠ "goal/change")
    (hfold : foldOk applyGoalEvent cache.state events = .ok state) :
    cache.syncEvents pending events =
      (.ok (), { state, activation := cache.activation
                 observedSeq := cache.observedSeq + events.length }) := by
  induction events generalizing cache with
  | nil =>
    obtain rfl := Except.ok.inj hfold
    rfl
  | cons event events ih =>
    obtain ⟨next, hnext, hrest⟩ := bind_eq_ok.mp hfold
    have htype := hquiet event List.mem_cons_self
    rw [GoalCache.syncEvents, hnext]
    dsimp only
    simp only [GoalCache.observedActivation, if_neg htype]
    rw [ih (fun other hother => hquiet other (List.mem_cons_of_mem _ hother)) hrest]
    simp only [List.length_cons, Nat.add_assoc, Nat.add_comm 1]

theorem CacheFollows.rest (h : CacheFollows log cache) (hfold : foldGoalState log = .ok state) :
    foldOk applyGoalEvent cache.state (log.drop cache.observedSeq) = .ok state := by
  rw [foldGoalState, ← List.take_append_drop cache.observedSeq log, foldOk_append] at hfold
  have hfront := h.folded
  unfold foldGoalState at hfront
  rw [hfront] at hfold
  exact hfold

theorem CacheFollows.sync (h : CacheFollows log cache) (hfold : foldGoalState log = .ok state) :
    cache.sync none log =
      (.ok (), { state, activation := cache.activation, observedSeq := log.length }) := by
  have hrest := h.rest hfold
  rw [GoalCache.sync, syncEvents_quiet h.quiet hrest, List.length_drop,
    Nat.add_sub_cancel' h.observed]

theorem applyGoalEvent_quiet {event : SessionEvent} {next : GoalFoldState}
    (htype : event.type ≠ "goal/change") (h : applyGoalEvent state event = .ok next) :
    next.goal = state.goal ∧ next.createdAt = state.createdAt ∧
      next.updatedAt = state.updatedAt ∧ next.lastRef = state.lastRef := by
  unfold applyGoalEvent at h
  split at h
  · rename_i type data hdata
    rw [if_pos] at h
    · obtain rfl := Except.ok.inj h
      exact ⟨rfl, rfl, rfl, rfl⟩
    · rintro rfl
      rw [SessionEvent.type, hdata] at htype
      exact htype rfl
  · obtain ⟨source, _, h⟩ := bind_eq_ok.mp h
    cases source with
    | none =>
      obtain rfl := Except.ok.inj h
      exact ⟨rfl, rfl, rfl, rfl⟩
    | some source =>
      obtain ⟨_, _, h⟩ := bind_eq_ok.mp h
      obtain rfl := Except.ok.inj h
      exact ⟨rfl, rfl, rfl, rfl⟩
  · obtain rfl := Except.ok.inj h
    exact ⟨rfl, rfl, rfl, rfl⟩

theorem CacheFollows.goal (h : CacheFollows log cache) (hfold : foldGoalState log = .ok state) :
    { cache.state.folded with roundsStarted := state.roundsStarted } = state.folded := by
  have hrest := h.rest hfold
  have hquiet := h.quiet
  generalize log.drop cache.observedSeq = events at hrest hquiet
  generalize cache.state = before at hrest
  induction events generalizing before with
  | nil =>
    obtain rfl := Except.ok.inj hrest
    rfl
  | cons event events ih =>
    obtain ⟨next, hnext, hrest⟩ := bind_eq_ok.mp hrest
    obtain ⟨hgoal, hcreated, hupdated, href⟩ :=
      applyGoalEvent_quiet (hquiet event List.mem_cons_self) hnext
    rw [← ih (fun other hother => hquiet other (List.mem_cons_of_mem _ hother)) next hrest]
    simp only [GoalFoldState.folded, hgoal, hcreated, hupdated, href]

end Caches

section Appends

variable {log : EventLog}

inductive AppendedWithin (log : EventLog) (candidate : Candidate) (dispatch : Session.Dispatch) :
    Except String SessionEvent × EventLog → Prop
  | refused (message : String) : AppendedWithin log candidate dispatch (.error message, log)
  | logged (event : SessionEvent) (fold : SurfaceFold) : log.length < maxArrayLength →
      dispatch.veto = none → snapshotCandidate candidate log.length = .ok event →
      runFold (log ++ [event]) = .ok fold →
      AppendedWithin log candidate dispatch (.ok event, log ++ [event])

theorem appendWithin_appended (log : EventLog) (candidate : Candidate)
    (dispatch : Session.Dispatch) :
    AppendedWithin log candidate dispatch (appendWithin log candidate dispatch) := by
  unfold appendWithin
  split
  · rename_i hlength
    cases hresult : (log.append candidate dispatch).1.result with
    | error message =>
      rw [EventLog.append_failed hresult]
      exact .refused message
    | ok event =>
      obtain ⟨hlog, hsnapshot, fold, hfold⟩ := EventLog.append_ok hresult
      rw [hlog]
      exact .logged event fold hlength (EventLog.append_unvetoed hresult) hsnapshot hfold
  · exact .refused _

def LastChange (log : EventLog) (seq : Nat) : Prop :=
  ∃ front event back, log = front ++ event :: back ∧ event.type = "goal/change" ∧
    event.seq = seq ∧ ∀ other ∈ back, other.type ≠ "goal/change"

theorem LastChange.snoc {seq : Nat} {event : SessionEvent} (h : LastChange log seq)
    (htype : event.type ≠ "goal/change") : LastChange (log ++ [event]) seq := by
  obtain ⟨front, change, back, rfl, hchange, hseq, hback⟩ := h
  refine ⟨front, change, back ++ [event], by simp, hchange, hseq, ?_⟩
  intro other hother
  cases List.mem_append.mp hother with
  | inl hold => exact hback other hold
  | inr hnew => exact List.mem_singleton.mp hnew ▸ htype

/-- The log grew by a change that the strict fold accepts after what was there. -/
def GoalCommit (log log' : EventLog) : Prop :=
  ∃ event change state next, log' = log ++ [event] ∧
    event.data = .plugin goalChangeType change.json ∧ foldGoalState log = .ok state ∧
    applyGoalChange state change = .ok next

end Appends

namespace GoalProcess

structure Consistent (process : GoalProcess) : Prop where
  accepted : ∃ fold, runFold process.log = .ok fold
  folded : ∃ state, foldGoalState process.log = .ok state
  length : process.log.length ≤ maxArrayLength
  cached : ∀ cache, process.cache = some cache → CacheFollows process.log cache
  armed : ∀ cache, process.cache = some cache → cache.activation = .armed →
    ∃ seq, process.committed = some { seq, activation := .armed }
  last : ∀ pending, process.committed = some pending → LastChange process.log pending.seq

structure Performed (process : GoalProcess)
    (outcome : Except GoalFailure GoalReply × GoalProcess) : Prop where
  consistent : outcome.2.Consistent
  grown : outcome.2.log = process.log ∨
    isOk outcome.1 = true ∧ GoalCommit process.log outcome.2.log
  synced : (∀ cache, process.cache = some cache → Synced process.log cache) →
    ∀ cache, outcome.2.cache = some cache → Synced outcome.2.log cache

variable {process : GoalProcess}

theorem Consistent.refused (h : process.Consistent) (failure : GoalFailure) :
    process.Performed (.error failure, process) where
  consistent := h
  grown := .inl rfl
  synced := fun hsynced => hsynced

theorem Consistent.install (h : process.Consistent) {cache : GoalCache}
    (hsynced : Synced process.log cache)
    (harmed : cache.activation = .armed →
      ∃ seq, process.committed = some { seq, activation := .armed })
    (reply : Except GoalFailure GoalReply) :
    process.Performed (reply, { process with cache := some cache }) where
  consistent :=
    { h with
      cached := fun _ hcache => Option.some.inj hcache ▸ hsynced.follows
      armed := fun _ hcache => Option.some.inj hcache ▸ harmed }
  grown := .inl rfl
  synced := fun _ _ hcache => Option.some.inj hcache ▸ hsynced

theorem Consistent.cached_ok (h : process.Consistent) :
    ∃ cache, process.cached = (.ok cache, { process with cache := some cache }) ∧
      CacheFollows process.log cache ∧
      (cache.activation = .armed →
        ∃ seq, process.committed = some { seq, activation := .armed }) ∧
      ((∀ cache, process.cache = some cache → Synced process.log cache) →
        Synced process.log cache) := by
  unfold GoalProcess.cached
  cases hcache : process.cache with
  | some cache =>
    refine ⟨cache, ?_, h.cached cache hcache, h.armed cache hcache, fun hsynced => hsynced cache rfl⟩
    cases process
    cases hcache
    rfl
  | none =>
    obtain ⟨state, hstate⟩ := h.folded
    have hsynced : Synced process.log
        { state, activation := .disarmed, observedSeq := process.log.length } := ⟨rfl, hstate⟩
    simp only [hstate]
    exact ⟨_, rfl, hsynced.follows, by simp, fun _ => hsynced⟩

theorem Consistent.prepareMutation_cases (h : process.Consistent) (call : GoalCall) :
    (∃ failure, process.prepareMutation call = (.error failure, process)) ∨
      ∃ cache, process.prepareMutation call = (.ok cache, { process with cache := some cache }) ∧
        call.live = true ∧ Synced process.log cache ∧
        (cache.activation = .armed →
          ∃ seq, process.committed = some { seq, activation := .armed }) := by
  unfold GoalProcess.prepareMutation
  cases hlive : call.live with
  | false => exact .inl ⟨_, rfl⟩
  | true =>
    obtain ⟨cache, hcached, hfollows, harmed, _⟩ := h.cached_ok
    obtain ⟨state, hstate⟩ := h.folded
    right
    simp only [hcached, hfollows.sync hstate, Bool.not_true, Bool.false_eq_true, if_false]
    exact ⟨_, rfl, trivial, ⟨rfl, hstate⟩, harmed⟩

theorem Consistent.get (h : process.Consistent) (call : GoalCall) :
    process.Performed (process.get call) := by
  unfold GoalProcess.get
  cases h.prepareMutation_cases call with
  | inl hrefused =>
    obtain ⟨failure, hprepare⟩ := hrefused
    rw [hprepare]
    exact h.refused failure
  | inr hprepared =>
    obtain ⟨cache, hprepare, _, hsynced, harmed⟩ := hprepared
    rw [hprepare]
    exact h.install hsynced harmed _

theorem Consistent.disarm (h : process.Consistent) (call : GoalCall) :
    process.Performed (process.disarm call) := by
  unfold GoalProcess.disarm
  cases h.prepareMutation_cases call with
  | inl hrefused =>
    obtain ⟨failure, hprepare⟩ := hrefused
    rw [hprepare]
    exact h.refused failure
  | inr hprepared =>
    obtain ⟨cache, hprepare, _, hsynced, _⟩ := hprepared
    rw [hprepare]
    have hdisarmed : Synced process.log { cache with activation := .disarmed } :=
      ⟨hsynced.observed, hsynced.folded⟩
    exact h.install hdisarmed (by simp) _

theorem Consistent.sessionStart (h : process.Consistent) :
    process.Performed process.sessionStart := by
  obtain ⟨cache, hcached, hfollows, _, hsynced⟩ := h.cached_ok
  unfold GoalProcess.sessionStart
  rw [hcached]
  refine ⟨{ h with cached := ?_, armed := ?_ }, .inl rfl, ?_⟩
  · rintro _ hcache
    obtain rfl := Option.some.inj hcache
    exact ⟨hfollows.observed, hfollows.folded, hfollows.quiet⟩
  · rintro _ hcache
    obtain rfl := Option.some.inj hcache
    simp
  · rintro hall _ hcache
    obtain rfl := Option.some.inj hcache
    exact ⟨(hsynced hall).observed, (hsynced hall).folded⟩

theorem replyTo_ok {change : GoalChange} {cache : GoalCache} {state : GoalFoldState}
    (h : applyGoalChange state change = .ok cache.state) :
    isOk (replyTo change cache) = true := by
  unfold replyTo GoalCache.view
  cases change with
  | clear change =>
    obtain ⟨_, _, h⟩ := bind_eq_ok.mp h
    obtain ⟨_, _, h⟩ := bind_eq_ok.mp h
    obtain ⟨_, _, h⟩ := bind_eq_ok.mp h
    obtain ⟨_, _, h⟩ := bind_eq_ok.mp h
    rw [← Except.ok.inj h]
    rfl
  | snapshot change =>
    obtain ⟨_, _, h⟩ := bind_eq_ok.mp h
    rw [← Except.ok.inj h]
    rfl

theorem Consistent.commit (h : process.Consistent) {call : GoalCall} {cache : GoalCache}
    {change : GoalChange} {activation : GoalActivation}
    (hsynced : Synced process.log cache)
    (haccepts : process.log.length < maxArrayLength → call.dispatch.veto = none →
      Accepts cache.state change) :
    process.Performed (process.commit call cache change activation) := by
  unfold GoalProcess.commit
  dsimp only
  have happended := appendWithin_appended process.log
    { data := .lossless (.plugin goalChangeType change.json), opts := none, time := call.time }
    call.dispatch
  generalize appendWithin process.log
    { data := .lossless (.plugin goalChangeType change.json), opts := none, time := call.time }
    call.dispatch = appended at happended ⊢
  cases happended with
  | refused message => exact h.refused _
  | logged event fold hlength hveto hsnapshot hfold =>
    obtain ⟨hvalid, next, hnext⟩ := haccepts hlength hveto
    obtain ⟨hseq, htype⟩ := snapshotCandidate_envelope hsnapshot
    have hdata := (snapshotCandidate_ok hsnapshot).1
    have hevent : applyGoalEvent cache.state event = .ok next := by
      rw [applyGoalEvent_json hdata hvalid, hnext]
    have hfolded : foldGoalState (process.log ++ [event]) = .ok next := by
      rw [foldGoalState, foldOk_snoc]
      change foldGoalState process.log >>= _ = _
      rw [hsynced.folded, ok_bind, hevent]
    have htype : event.type = "goal/change" := htype
    have hsync : cache.sync (some { seq := process.log.length, activation })
        (process.log ++ [event]) =
        (.ok (), { state := next, activation, observedSeq := process.log.length + 1 }) := by
      rw [GoalCache.sync, hsynced.observed, List.drop_left, GoalCache.syncEvents, hevent]
      simp [GoalCache.syncEvents, GoalCache.observedActivation, htype, hseq, hsynced.observed]
    simp only [hsync]
    have hafter : Synced (process.log ++ [event])
        { state := next, activation, observedSeq := process.log.length + 1 } :=
      ⟨by simp, hfolded⟩
    refine ⟨⟨⟨fold, hfold⟩, ⟨next, hfolded⟩, ?_, ?_, ?_, ?_⟩, .inr ⟨replyTo_ok hnext, ?_⟩, ?_⟩
    · rw [List.length_append, List.length_singleton]
      exact hlength
    · exact fun _ hsome => Option.some.inj hsome ▸ hafter.follows
    · rintro _ hsome harmed
      obtain rfl := Option.some.inj hsome
      exact ⟨process.log.length, by rw [← harmed]⟩
    · rintro _ hsome
      obtain rfl := Option.some.inj hsome
      exact ⟨process.log, event, [], rfl, htype, hseq, by simp⟩
    · exact ⟨event, change, cache.state, next, rfl, hdata, hsynced.folded, hnext⟩
    · exact fun _ _ hsome => Option.some.inj hsome ▸ hafter

theorem Consistent.mutate (h : process.Consistent) {call : GoalCall}
    {plan : GoalCache → Except GoalFailure (GoalChange × GoalActivation)}
    (hplan : ∀ cache planned, call.live = true → Synced process.log cache →
      process.log.length < maxArrayLength → call.dispatch.veto = none →
      plan cache = .ok planned → Accepts cache.state planned.1) :
    process.Performed (process.mutate call plan) := by
  unfold GoalProcess.mutate
  cases h.prepareMutation_cases call with
  | inl hrefused =>
    obtain ⟨failure, hprepare⟩ := hrefused
    rw [hprepare]
    exact h.refused failure
  | inr hprepared =>
    obtain ⟨cache, hprepare, hlive, hsynced, harmed⟩ := hprepared
    rw [hprepare]
    dsimp only
    have hinstalled := h.install hsynced harmed
    cases hplanned : plan cache with
    | error failure => exact hinstalled _
    | ok planned =>
      obtain ⟨change, activation⟩ := planned
      have hcommit : ({ process with cache := some cache } : GoalProcess).Performed
          (GoalProcess.commit _ call cache change activation) :=
        (hinstalled (.ok .none)).consistent.commit hsynced fun hlength hveto =>
          hplan cache _ hlive hsynced hlength hveto hplanned
      exact ⟨hcommit.consistent, hcommit.grown,
        fun _ => hcommit.synced fun _ hsome => Option.some.inj hsome ▸ hsynced⟩

def CreatesAt (config : GoalConfig) (process : GoalProcess) (call : GoalCall) : GoalOp → Prop
  | .create request _ =>
    call.live = true ∧ isOk (resolveCreateGoal config request) = true ∧
      call.dispatch.veto = none ∧ process.log.length < maxArrayLength ∧
      ∀ state, foldGoalState process.log = .ok state →
        ∀ current ∈ state.goal, current.phase = .complete
  | _ => False

def AfterEpoch (config : GoalConfig) (process : GoalProcess) : GoalLabel → Prop
  | .op op call => process.CreatesAt config call op → 0 ≤ call.now.ms
  | .other _ _ => True

/-- What is relied on of `randomUUID`: it draws an id the session has not seen. -/
def FreshId (process : GoalProcess) : GoalLabel → Prop
  | .op (.create _ uuid) _ =>
    ∀ state, foldGoalState process.log = .ok state → "goal-" ++ uuid ∉ state.seenGoalIds
  | _ => True

theorem Consistent.perform (h : process.Consistent) {config : GoalConfig} {op : GoalOp}
    {call : GoalCall} (hfresh : process.FreshId (.op op call))
    (hclock : process.AfterEpoch config (.op op call)) :
    process.Performed (perform config process call op) := by
  cases op with
  | get => exact h.get call
  | disarm => exact h.disarm call
  | sessionStart => exact h.sessionStart
  | create request uuid =>
    unfold GoalProcess.perform GoalProcess.create
    dsimp only
    cases hspec : resolveCreateGoal config request with
    | error failure => exact h.refused failure
    | ok spec =>
      apply h.mutate
      intro cache planned hlive hsynced hlength hveto hplan
      apply planCreate_accepts hspec _ (hfresh _ hsynced.folded) hplan
      apply hclock
      refine ⟨hlive, isOk_iff.mpr ⟨_, hspec⟩, hveto, hlength, ?_⟩
      intro state hstate
      obtain rfl := Except.ok.inj (hsynced.folded.symm.trans hstate)
      unfold planCreate at hplan
      split at hplan
      · simp at hplan
      · rename_i hfinished
        simpa using hfinished
  | edit ref request =>
    exact h.mutate fun cache planned _ hsynced hlength _ hplan =>
      planEdit_accepts (foldGoalState_sound hsynced.folded) hlength hplan
  | pause ref =>
    exact h.mutate fun cache planned _ hsynced hlength _ hplan =>
      planPause_accepts (foldGoalState_sound hsynced.folded) hlength hplan
  | resume ref =>
    exact h.mutate fun cache planned _ hsynced hlength _ hplan =>
      planResume_accepts (foldGoalState_sound hsynced.folded) hlength hplan
  | complete ref =>
    exact h.mutate fun cache planned _ hsynced hlength _ hplan =>
      planComplete_accepts (foldGoalState_sound hsynced.folded) hlength hplan
  | block ref reason =>
    exact h.mutate fun cache planned _ hsynced hlength _ hplan =>
      planBlock_accepts (foldGoalState_sound hsynced.folded) hlength hplan
  | clear ref =>
    exact h.mutate fun cache planned _ hsynced hlength _ hplan =>
      planClear_accepts (foldGoalState_sound hsynced.folded) hlength hplan

theorem Consistent.admitOther (h : process.Consistent) (other : OtherCandidate)
    (dispatch : Session.Dispatch) : (process.admitOther other dispatch).Consistent := by
  unfold GoalProcess.admitOther
  have happended := appendWithin_appended process.log other.candidate dispatch
  generalize appendWithin process.log other.candidate dispatch = appended at happended ⊢
  dsimp only
  split
  · rename_i hfolded
    cases happended with
    | refused message => exact h
    | logged event fold hlength _ hsnapshot hfold =>
      have htype : event.type ≠ "goal/change" := by
        rw [(snapshotCandidate_envelope hsnapshot).2]
        exact other.foreign
      refine ⟨⟨fold, hfold⟩, isOk_iff.mp hfolded, ?_, ?_, h.armed, ?_⟩
      · rw [List.length_append, List.length_singleton]
        exact hlength
      · intro cache hcache
        have hfollows := h.cached cache hcache
        refine ⟨hfollows.observed.trans (by simp), ?_, ?_⟩
        · rw [List.take_append_of_le_length hfollows.observed]
          exact hfollows.folded
        · rw [List.drop_append_of_le_length hfollows.observed]
          intro later hlater
          cases List.mem_append.mp hlater with
          | inl hold => exact hfollows.quiet later hold
          | inr hnew => exact List.mem_singleton.mp hnew ▸ htype
      · exact fun pending hpending => (h.last pending hpending).snoc htype
  · exact h

theorem Consistent.step (h : process.Consistent) {config : GoalConfig} {label : GoalLabel}
    (hfresh : process.FreshId label) (hclock : process.AfterEpoch config label) :
    (GoalProcess.step config process label).1.Consistent := by
  cases label with
  | op op call => exact (h.perform hfresh hclock).consistent
  | other other dispatch => exact h.admitOther other dispatch

structure ValidSeed (seed : EventLog) : Prop where
  accepted : ∃ fold, runFold seed = .ok fold
  folded : ∃ state, foldGoalState seed = .ok state
  length : seed.length ≤ maxArrayLength

theorem start_consistent {seed : EventLog} (h : ValidSeed seed) : (start seed).Consistent where
  accepted := h.accepted
  folded := h.folded
  length := h.length
  cached := by simp [start]
  armed := by simp [start]
  last := by simp [start]

theorem clearGoalFromForkSeed_folds {seed : List SessionEvent} {state : GoalFoldState}
    (hstate : foldGoalState seed = .ok state) (hlength : seed.length < maxArrayLength)
    (clearedAt : TimeValue) :
    ∃ child cleared, clearGoalFromForkSeed seed clearedAt = .ok child ∧
      foldGoalState child = .ok cleared ∧ cleared.goal = none := by
  unfold clearGoalFromForkSeed
  rw [hstate, ok_bind]
  cases hgoal : state.goal with
  | none => exact ⟨seed, state, rfl, hstate, hgoal⟩
  | some current =>
    obtain ⟨createdAt, updatedAt, hcurrent⟩ := (foldGoalState_sound hstate).current current hgoal
    have haccepts := @clear_accepts
      { state, activation := .disarmed, observedSeq := seed.length } _ _ _ _ clearedAt
      hcurrent hlength
    simp only [hcurrent.updated, expect_some, ok_bind]
    have hchild : foldGoalState (seed ++ [logOnly seed.length (max clearedAt.ms updatedAt)
        (.plugin goalChangeType
          (GoalChange.clear (goalClearChange current (max clearedAt.ms updatedAt))).json)]) =
        applyGoalChange state
          (.clear (goalClearChange current (max clearedAt.ms updatedAt))) := by
      rw [foldGoalState, foldOk_snoc]
      change foldGoalState seed >>= _ = _
      rw [hstate, ok_bind, applyGoalEvent_json rfl haccepts.valid]
    rw [applyClear_current hcurrent (le_max_right _ _)] at hchild
    exact ⟨_, _, rfl, hchild, rfl⟩

/-- As long as no goal is created before the epoch: in every reachable state of a process the
cache is the fold of the log, only a change of this process arms the goal, and the next call
appends nothing if it fails and otherwise a change the fold accepts; and no fork begins with a
goal. -/
theorem goals_follow_log (config : GoalConfig) {seed : EventLog} (hseed : ValidSeed seed)
    {labels : List GoalLabel} (hfresh : Throughout (step config) FreshId (start seed) labels)
    (hclock : Throughout (step config) (AfterEpoch config) (start seed) labels) :
    let process := (transcript (step config) (start seed) labels).1
    (∃ folded, foldGoal process.log = .ok folded ∧ ∀ cache, process.cache = some cache →
      { cache.state.folded with roundsStarted := folded.roundsStarted } = folded ∧
      ((∀ label ∈ labels, ∃ op call, label = .op op call) → cache.state.folded = folded)) ∧
    (∀ cache, process.cache = some cache → cache.activation = .armed →
      ∃ seq, process.committed = some { seq, activation := .armed } ∧
        LastChange process.log seq) ∧
    (∀ op call, process.FreshId (.op op call) → process.AfterEpoch config (.op op call) →
      let outcome := perform config process call op
      (outcome.2.log = process.log ∨ GoalCommit process.log outcome.2.log) ∧
      ∀ failure, outcome.1 = .error failure → outcome.2.log = process.log) ∧
    ∀ (fork : List SessionEvent) state clearedAt, foldGoalState fork = .ok state →
      fork.length < maxArrayLength →
      ∃ child cleared, clearGoalFromForkSeed fork clearedAt = .ok child ∧
        foldGoalState child = .ok cleared ∧ cleared.goal = none := by
  intro process
  have hguard := hfresh.and hclock
  have hprocess : process.Consistent :=
    transcript_invariant_throughout Consistent
      (fun _ _ h hguard => h.step hguard.1 hguard.2) hguard (start_consistent hseed)
  obtain ⟨state, hstate⟩ := hprocess.folded
  refine ⟨⟨state.folded, map_eq_ok.mpr ⟨state, hstate, rfl⟩, ?_⟩, ?_, ?_, ?_⟩
  · intro cache hcache
    refine ⟨(hprocess.cached cache hcache).goal hstate, ?_⟩
    intro hops
    have hsynced : process.Consistent ∧
        ∀ cache, process.cache = some cache → Synced process.log cache := by
      refine transcript_invariant_throughout
        (fun process => GoalProcess.Consistent process ∧
          ∀ cache, process.cache = some cache → Synced process.log cache) ?_
        (hguard.and (throughout_of_forall fun label hlabel _ => hops label hlabel))
        ⟨start_consistent hseed, by simp [start]⟩
      rintro process label ⟨hconsistent, hsynced⟩ ⟨⟨hfresh, hclock⟩, op, call, rfl⟩
      have hperformed := hconsistent.perform hfresh hclock
      exact ⟨hperformed.consistent, hperformed.synced hsynced⟩
    rw [Except.ok.inj ((hsynced.2 cache hcache).folded.symm.trans hstate)]
  · intro cache hcache harmed
    obtain ⟨seq, hcommitted⟩ := hprocess.armed cache hcache harmed
    exact ⟨seq, hcommitted, hprocess.last _ hcommitted⟩
  · intro op call hfresh hclock outcome
    have hperformed : process.Performed outcome := hprocess.perform hfresh hclock
    refine ⟨hperformed.grown.imp_right And.right, ?_⟩
    intro failure hfailure
    cases hperformed.grown with
    | inl hsame => exact hsame
    | inr hcommit => simp [hfailure, isOk] at hcommit
  · exact fun fork state clearedAt hfork hlength =>
      clearGoalFromForkSeed_folds hfork hlength clearedAt

def defaultConfig : GoalConfig :=
  { defaultMaxGoalRounds := 256, positive := by decide, safe := by decide }

def callAt (ms : Int) (h : ms.natAbs ≤ 8640000000000000) : GoalCall where
  agentId := "agent"
  live := true
  now := { ms, bounded := h }
  time := ms
  dispatch := .detached

def createOp : GoalOp := .create { objective := " ship it ", maxGoalRounds := none } "1"

def pausedRun : List GoalLabel :=
  [.op createOp (callAt 1000 (by decide)),
    .op (.pause { id := "goal-1", revision := .finite (.int 1) }) (callAt 500 (by decide))]

theorem pausedRun_follows_log :
    let process := (transcript (step defaultConfig) (start []) pausedRun).1
    process.log.length = 2 ∧ ∃ folded, foldGoal process.log = .ok folded ∧
      ∀ cache, process.cache = some cache → cache.state.folded = folded := by
  intro process
  have hseed : ValidSeed [] := ⟨⟨_, rfl⟩, ⟨_, rfl⟩, by decide⟩
  have hfresh : Throughout (step defaultConfig) FreshId (start []) pausedRun := by
    refine ⟨?_, trivial, trivial⟩
    intro state hstate
    obtain rfl := Except.ok.inj hstate
    simp [emptyGoalFoldState]
  have hclock : Throughout (step defaultConfig) (AfterEpoch defaultConfig) (start []) pausedRun := by
    refine ⟨fun _ => ?_, fun hcreates => hcreates.elim, trivial⟩
    simp [callAt]
  obtain ⟨⟨folded, hfolded, hcached⟩, _⟩ :=
    goals_follow_log defaultConfig hseed hfresh hclock
  refine ⟨by decide, folded, hfolded, ?_⟩
  intro cache hcache
  apply (hcached cache hcache).2
  simp [pausedRun]

/-- A goal created while the clock reads a time before the epoch: the change is in the log, the
fold refuses it, and the call fails. -/
theorem create_before_epoch :
    let outcome := perform defaultConfig (start []) (callAt (-1) (by decide)) createOp
    outcome.1 = .error (.thrown "goal change createdAt must be a non-negative safe integer") ∧
      outcome.2.log.length = 1 ∧
      foldGoalState outcome.2.log =
        .error "goal change createdAt must be a non-negative safe integer" := by
  decide

end GoalProcess

end Harness
