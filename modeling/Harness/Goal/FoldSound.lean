import Harness.Goal.Service

namespace Harness

open Harness.Foundation

structure GoalBlockReason.Valid (reason : GoalBlockReason) : Prop where
  code : isLowerKebab reason.code = true
  message : isNormalized reason.message = true

structure GoalSnapshot.Valid (goal : GoalSnapshot) : Prop where
  id : goal.id ≠ ""
  objective : isNormalized goal.objective = true
  revision : 1 ≤ goal.revision
  safeRevision : isSafe goal.revision = true
  rounds : 1 ≤ goal.maxGoalRounds
  safeRounds : isSafe goal.maxGoalRounds = true
  blocked : goal.phase = .blocked → ∃ reason, goal.blockedReason = some reason ∧ reason.Valid
  unblocked : goal.phase ≠ .blocked → goal.blockedReason = none

structure GoalSnapshotChange.Valid (change : GoalSnapshotChange) : Prop where
  goal : change.goal.Valid
  created : 0 ≤ change.createdAt
  ordered : change.createdAt ≤ change.updatedAt
  safe : isSafe change.updatedAt = true
  started : isSafe change.roundsStarted = true

structure GoalClearChange.Valid (change : GoalClearChange) : Prop where
  id : change.cleared.id ≠ ""
  revision : 1 ≤ change.cleared.revision
  safeRevision : isSafe change.cleared.revision = true
  cleared : 0 ≤ change.clearedAt
  safe : isSafe change.clearedAt = true

def GoalChange.Valid : GoalChange → Prop
  | .snapshot change => change.Valid
  | .clear change => change.Valid

section Encoding

theorem positiveInteger_nat {n : Nat} {field : String} (hpos : 1 ≤ n) (hsafe : isSafe n = true) :
    positiveInteger (some (.nat n)) field = .ok n := by
  have hread : (Json.nat n).safeNat? = some n := Json.safeNat?_eq_some.mpr ⟨rfl, hsafe⟩
  simp [positiveInteger, hread, hpos]

theorem nonNegativeInteger_int {n : Int} {field : String} (hnonneg : 0 ≤ n)
    (hsafe : isSafe n = true) : nonNegativeInteger (some (.int n)) field = .ok n.toNat := by
  have hcast : ((n.toNat : Nat) : Int) = n := Int.toNat_of_nonneg hnonneg
  have hread : (Json.int n).safeNat? = some n.toNat :=
    Json.safeNat?_eq_some.mpr ⟨by rw [Json.nat, hcast], by rwa [hcast]⟩
  simp [nonNegativeInteger, hread]

@[simp] theorem GoalPhase.ofName?_name (phase : GoalPhase) : ofName? phase.name = some phase := by
  cases phase <;> rfl

@[simp] theorem GoalOperation.ofName?_name (operation : GoalOperation) :
    ofName? operation.name = some operation := by
  cases operation <;> rfl

theorem GoalOperation.name_ne_clear (operation : GoalOperation) : operation.name ≠ "clear" := by
  cases operation <;> decide

theorem decodeBlockReason_json {reason : GoalBlockReason} (h : reason.Valid) :
    decodeBlockReason (some reason.json) = .ok reason := by
  have hkeys : sortedKeys [("code", .str reason.code), ("message", .str reason.message)] =
      "code,message" :=
    (by decide : ",".intercalate (["code", "message"].insertionSort (· ≤ ·)) = "code,message")
  simp [decodeBlockReason, GoalBlockReason.json, Json.fields?, hkeys, textField, List.lookup_cons,
    Option.filter_some, h.code, h.message]

theorem snapshot_sortedKeys {goal : GoalSnapshot} (h : goal.Valid) :
    ∃ value, goal.json = .obj value ∧ sortedKeys value = snapshotKeys goal.phase ∧
      textField value "id" = some goal.id ∧ textField value "objective" = some goal.objective ∧
      textField value "phase" = some goal.phase.name ∧
      value.lookup "revision" = some (.nat goal.revision) ∧
      value.lookup "maxGoalRounds" = some (.nat goal.maxGoalRounds) ∧
      value.lookup "blockedReason" = goal.blockedReason.map GoalBlockReason.json := by
  refine ⟨_, rfl, ?_, by simp [textField], by simp [textField, List.lookup_cons],
    by simp [textField, List.lookup_cons], by simp [List.lookup_cons],
    by simp [List.lookup_cons], ?_⟩
  · by_cases hphase : goal.phase = .blocked
    · obtain ⟨reason, hreason, _⟩ := h.blocked hphase
      rw [hreason, snapshotKeys, hphase]
      exact (by decide : ",".intercalate (["id", "revision", "objective", "phase", "maxGoalRounds",
        "blockedReason"].insertionSort (· ≤ ·)) =
          "blockedReason,id,maxGoalRounds,objective,phase,revision")
    · rw [h.unblocked hphase, snapshotKeys, beq_eq_false_iff_ne.mpr hphase]
      exact (by decide : ",".intercalate (["id", "revision", "objective", "phase",
        "maxGoalRounds"].insertionSort (· ≤ ·)) = "id,maxGoalRounds,objective,phase,revision")
  · cases goal.blockedReason <;> simp [Json.optionalField, List.lookup_cons]

theorem decodeSnapshot_json {goal : GoalSnapshot} (h : goal.Valid) :
    decodeSnapshot (some goal.json) = .ok goal := by
  obtain ⟨value, hvalue, hkeys, hid, hobjective, hphase, hrevision, hrounds, hreason⟩ :=
    snapshot_sortedKeys h
  have hrecord : (some goal.json).bind Json.fields? = some value := by rw [hvalue]; rfl
  have hnonempty : (some goal.id).filter (fun id => id != "") = some goal.id := by
    simp [h.id]
  have hnormal : (some goal.objective).filter isNormalized = some goal.objective := by
    simp [Option.filter_some, h.objective]
  simp only [decodeSnapshot, hrecord, hid, hnonempty, hobjective, hnormal, hphase, hkeys,
    hrevision, hrounds, hreason, expect_some, ok_bind, Option.bind_some, GoalPhase.ofName?_name,
    beq_self_eq_true, require_true, positiveInteger_nat h.revision h.safeRevision,
    positiveInteger_nat h.rounds h.safeRounds]
  by_cases hblocked : goal.phase = .blocked
  · obtain ⟨reason, hsome, hvalid⟩ := h.blocked hblocked
    simp [decodePhaseReason, hblocked, hsome, decodeBlockReason_json hvalid]
    rw [← hblocked, ← hsome]
  · simp [decodePhaseReason, beq_eq_false_iff_ne.mpr hblocked]
    rw [← h.unblocked hblocked]

theorem decodeRef_json {ref : GoalRef} (hid : ref.id ≠ "") (hrevision : 1 ≤ ref.revision)
    (hsafe : isSafe ref.revision = true) : decodeRef (some ref.json) = .ok ref := by
  have hkeys : sortedKeys [("id", .str ref.id), ("revision", .nat ref.revision)] = "id,revision" :=
    (by decide : ",".intercalate (["id", "revision"].insertionSort (· ≤ ·)) = "id,revision")
  simp [decodeRef, GoalRef.json, Json.fields?, hkeys, textField, List.lookup_cons,
    Option.filter_some, hid, positiveInteger_nat hrevision hsafe]

theorem decodeGoalChange_json {change : GoalChange} (h : change.Valid) :
    decodeGoalChange change.json = .ok (some change) := by
  cases change with
  | clear change =>
    have hclear : decodeClearChange
        [("kind", .str "goal/change"), ("version", .nat goalChangeVersion),
          ("operation", .str "clear"), ("cleared", change.cleared.json),
          ("clearedAt", .int change.clearedAt)] = .ok change := by
      simp [decodeClearChange, sortedKeys, List.lookup_cons,
        decodeRef_json h.id h.revision h.safeRevision, nonNegativeInteger_int h.cleared h.safe,
        Int.toNat_of_nonneg h.cleared]
    simp [decodeGoalChange, GoalChange.json, List.lookup_cons, hclear]
  | snapshot change =>
    have hupdated : 0 ≤ change.updatedAt := h.created.trans h.ordered
    have hcreated : isSafe change.createdAt = true := by
      have := isSafe_iff.mp h.safe
      have := h.created
      have := h.ordered
      rw [isSafe_iff]
      omega
    have hrounds := @nonNegativeInteger_int change.roundsStarted "roundsStarted"
      (Int.natCast_nonneg _) h.started
    have hsnapshot : decodeSnapshotChange
        [("kind", .str "goal/change"), ("version", .nat goalChangeVersion),
          ("operation", .str change.operation.name), ("goal", change.goal.json),
          ("roundsStarted", .nat change.roundsStarted), ("createdAt", .int change.createdAt),
          ("updatedAt", .int change.updatedAt)] = .ok change := by
      simp [decodeSnapshotChange, sortedKeys, textField, List.lookup_cons,
        nonNegativeInteger_int h.created hcreated, nonNegativeInteger_int hupdated h.safe,
        Int.toNat_le_toNat h.ordered, decodeSnapshot_json h.goal, hrounds,
        Int.toNat_of_nonneg h.created, Int.toNat_of_nonneg hupdated]
    simp [decodeGoalChange, GoalChange.json, List.lookup_cons, change.operation.name_ne_clear,
      hsnapshot]

end Encoding

section Decoding

theorem positiveInteger_ok {value : Option Json} {field : String} {n : Nat}
    (h : positiveInteger value field = .ok n) : 1 ≤ n ∧ isSafe n = true := by
  obtain ⟨hread, hpos⟩ := Option.filter_eq_some_iff.mp (expect_eq_ok.mp h)
  obtain ⟨_, _, hread⟩ := Option.bind_eq_some_iff.mp hread
  exact ⟨of_decide_eq_true hpos, (Json.safeNat?_eq_some.mp hread).2⟩

theorem nonNegativeInteger_ok {value : Option Json} {field : String} {n : Nat}
    (h : nonNegativeInteger value field = .ok n) : isSafe n = true := by
  obtain ⟨_, _, hread⟩ := Option.bind_eq_some_iff.mp (expect_eq_ok.mp h)
  exact (Json.safeNat?_eq_some.mp hread).2

theorem decodeBlockReason_valid {value : Option Json} {reason : GoalBlockReason}
    (h : decodeBlockReason value = .ok reason) : reason.Valid := by
  obtain ⟨_, _, h⟩ := bind_eq_ok.mp h
  obtain ⟨_, _, h⟩ := bind_eq_ok.mp h
  obtain ⟨code, hcode, h⟩ := bind_eq_ok.mp h
  obtain ⟨message, hmessage, h⟩ := bind_eq_ok.mp h
  obtain rfl := (Except.ok.inj h).symm
  exact ⟨(Option.filter_eq_some_iff.mp (expect_eq_ok.mp hcode)).2,
    (Option.filter_eq_some_iff.mp (expect_eq_ok.mp hmessage)).2⟩

theorem decodeSnapshot_valid {value : Option Json} {goal : GoalSnapshot}
    (h : decodeSnapshot value = .ok goal) : goal.Valid := by
  obtain ⟨_, _, h⟩ := bind_eq_ok.mp h
  obtain ⟨id, hid, h⟩ := bind_eq_ok.mp h
  obtain ⟨objective, hobjective, h⟩ := bind_eq_ok.mp h
  obtain ⟨phase, _, h⟩ := bind_eq_ok.mp h
  obtain ⟨_, _, h⟩ := bind_eq_ok.mp h
  obtain ⟨revision, hrevision, h⟩ := bind_eq_ok.mp h
  obtain ⟨rounds, hrounds, h⟩ := bind_eq_ok.mp h
  obtain ⟨blockedReason, hreason, h⟩ := bind_eq_ok.mp h
  obtain rfl := (Except.ok.inj h).symm
  have hid := (Option.filter_eq_some_iff.mp (expect_eq_ok.mp hid)).2
  have hobjective := (Option.filter_eq_some_iff.mp (expect_eq_ok.mp hobjective)).2
  refine ⟨by simpa using hid, hobjective, (positiveInteger_ok hrevision).1,
    (positiveInteger_ok hrevision).2, (positiveInteger_ok hrounds).1,
    (positiveInteger_ok hrounds).2, ?_, ?_⟩
  · rintro rfl
    obtain ⟨reason, hdecode, rfl⟩ := map_eq_ok.mp hreason
    exact ⟨reason, rfl, decodeBlockReason_valid hdecode⟩
  · intro hphase
    rw [decodePhaseReason, if_neg (by simpa using hphase)] at hreason
    exact (Except.ok.inj hreason).symm

theorem decodeGoalChange_valid {value : Json} {change : GoalChange}
    (h : decodeGoalChange value = .ok (some change)) : change.Valid := by
  unfold decodeGoalChange at h
  split at h
  · split at h
    · simp at h
    · obtain ⟨_, _, h⟩ := bind_eq_ok.mp h
      split at h
      · obtain ⟨clear, hclear, h⟩ := bind_eq_ok.mp h
        obtain rfl := Option.some.inj (Except.ok.inj h)
        obtain ⟨_, _, hclear⟩ := bind_eq_ok.mp hclear
        obtain ⟨cleared, href, hclear⟩ := bind_eq_ok.mp hclear
        obtain ⟨clearedAt, hat, hclear⟩ := bind_eq_ok.mp hclear
        obtain rfl := (Except.ok.inj hclear).symm
        obtain ⟨_, _, href⟩ := bind_eq_ok.mp href
        obtain ⟨_, _, href⟩ := bind_eq_ok.mp href
        obtain ⟨id, hid, href⟩ := bind_eq_ok.mp href
        obtain ⟨revision, hrevision, href⟩ := bind_eq_ok.mp href
        obtain rfl := (Except.ok.inj href).symm
        have hid := (Option.filter_eq_some_iff.mp (expect_eq_ok.mp hid)).2
        exact ⟨by simpa using hid, (positiveInteger_ok hrevision).1,
          (positiveInteger_ok hrevision).2, Int.natCast_nonneg _, nonNegativeInteger_ok hat⟩
      · obtain ⟨snapshot, hsnapshot, h⟩ := bind_eq_ok.mp h
        obtain rfl := Option.some.inj (Except.ok.inj h)
        obtain ⟨operation, _, hsnapshot⟩ := bind_eq_ok.mp hsnapshot
        obtain ⟨_, _, hsnapshot⟩ := bind_eq_ok.mp hsnapshot
        obtain ⟨createdAt, _, hsnapshot⟩ := bind_eq_ok.mp hsnapshot
        obtain ⟨updatedAt, hupdated, hsnapshot⟩ := bind_eq_ok.mp hsnapshot
        obtain ⟨_, hordered, hsnapshot⟩ := bind_eq_ok.mp hsnapshot
        obtain ⟨goal, hgoal, hsnapshot⟩ := bind_eq_ok.mp hsnapshot
        obtain ⟨rounds, hrounds, hsnapshot⟩ := bind_eq_ok.mp hsnapshot
        obtain rfl := (Except.ok.inj hsnapshot).symm
        exact ⟨decodeSnapshot_valid hgoal, Int.natCast_nonneg _, by simpa using hordered,
          nonNegativeInteger_ok hupdated, nonNegativeInteger_ok hrounds⟩
  · simp at h

end Decoding

section Folding

/-- The current goal of a fold, with the times and the revision that come with it. -/
structure GoalFoldState.Current (state : GoalFoldState) (count : Nat) (goal : GoalSnapshot)
    (createdAt updatedAt : Int) : Prop where
  current : state.goal = some goal
  valid : goal.Valid
  counted : goal.revision ≤ count
  created : state.createdAt = some createdAt
  updated : state.updatedAt = some updatedAt
  nonneg : 0 ≤ createdAt
  ordered : createdAt ≤ updatedAt
  safe : isSafe updatedAt = true

structure GoalFoldState.Sound (state : GoalFoldState) (count : Nat) : Prop where
  rounds : isSafe state.roundsStarted = true
  current : ∀ goal, state.goal = some goal →
    ∃ createdAt updatedAt, state.Current count goal createdAt updatedAt

variable {state next : GoalFoldState} {count : Nat}

theorem emptyGoalFoldState_sound : emptyGoalFoldState.Sound 0 where
  rounds := by decide
  current := by simp [emptyGoalFoldState]

theorem requireNextRevision_ok {current : GoalSnapshot} {ref : GoalRef} {operation : String}
    {u : Unit} (h : requireNextRevision current ref operation = .ok u) :
    ref.id = current.id ∧ ref.revision = current.revision + 1 := by
  unfold requireNextRevision at h
  simpa using h

theorem applyGoalChange_sound {change : GoalChange} (h : state.Sound count)
    (hchange : change.Valid) (happly : applyGoalChange state change = .ok next) :
    next.Sound (count + 1) := by
  cases change with
  | clear change =>
    obtain ⟨_, _, happly⟩ := bind_eq_ok.mp happly
    obtain ⟨_, _, happly⟩ := bind_eq_ok.mp happly
    obtain ⟨_, _, happly⟩ := bind_eq_ok.mp happly
    obtain ⟨_, _, happly⟩ := bind_eq_ok.mp happly
    obtain rfl := Except.ok.inj happly
    exact ⟨(by decide : isSafe ((0 : Nat) : Int) = true), by simp⟩
  | snapshot change =>
    obtain ⟨seen, hadmit, happly⟩ := bind_eq_ok.mp happly
    obtain rfl := Except.ok.inj happly
    refine ⟨hchange.started, ?_⟩
    intro goal hgoal
    obtain rfl := Option.some.inj hgoal
    refine ⟨_, _, rfl, hchange.goal, ?_, rfl, rfl, hchange.created, hchange.ordered, hchange.safe⟩
    unfold admitSnapshot at hadmit
    split at hadmit
    · obtain ⟨_, hfresh, _⟩ := bind_eq_ok.mp hadmit
      rw [require_eq_ok, decide_eq_true_iff] at hfresh
      have := hfresh.1
      omega
    · obtain ⟨current, hcurrent, hadmit⟩ := bind_eq_ok.mp hadmit
      obtain ⟨_, htransition, _⟩ := bind_eq_ok.mp hadmit
      obtain ⟨_, hrevision, _⟩ := bind_eq_ok.mp htransition
      obtain ⟨_, hnext⟩ := requireNextRevision_ok hrevision
      obtain ⟨_, _, hcounted⟩ := h.current current (expect_eq_ok.mp hcurrent)
      have := hcounted.counted
      simp only [GoalSnapshot.ref] at hnext
      omega

theorem goalSource_round {source : MessageSource} {round : GoalMessageSource}
    (h : goalSource source = .ok (some round)) : isSafe round.round = true := by
  unfold goalSource at h
  split at h
  · split at h
    · simp at h
    · dsimp only at h
      split at h
      · rename_i hround
        obtain rfl := Option.some.inj (Except.ok.inj h)
        obtain ⟨_, _, hread⟩ :=
          Option.bind_eq_some_iff.mp (Option.filter_eq_some_iff.mp hround).1
        exact (Json.safeNat?_eq_some.mp hread).2
      · simp at h
  · simp at h

theorem GoalFoldState.Sound.mono (h : state.Sound count) : state.Sound (count + 1) where
  rounds := h.rounds
  current := by
    intro goal hgoal
    obtain ⟨createdAt, updatedAt, hcurrent⟩ := h.current goal hgoal
    exact ⟨createdAt, updatedAt, { hcurrent with counted := Nat.le_succ_of_le hcurrent.counted }⟩

theorem applyGoalEvent_sound {event : SessionEvent} (h : state.Sound count)
    (happly : applyGoalEvent state event = .ok next) : next.Sound (count + 1) := by
  unfold applyGoalEvent at happly
  split at happly
  · split at happly
    · obtain rfl := Except.ok.inj happly
      exact h.mono
    · obtain ⟨decoded, hdecoded, happly⟩ := bind_eq_ok.mp happly
      obtain ⟨change, hchange, happly⟩ := bind_eq_ok.mp happly
      rw [expect_eq_ok.mp hchange] at hdecoded
      exact applyGoalChange_sound h (decodeGoalChange_valid hdecoded) happly
  · obtain ⟨source, hsource, happly⟩ := bind_eq_ok.mp happly
    cases source with
    | none =>
      obtain rfl := Except.ok.inj happly
      exact h.mono
    | some source =>
      obtain ⟨_, _, happly⟩ := bind_eq_ok.mp happly
      obtain rfl := Except.ok.inj happly
      refine ⟨goalSource_round hsource, ?_⟩
      intro goal hgoal
      obtain ⟨createdAt, updatedAt, hcurrent⟩ := h.mono.current goal hgoal
      exact ⟨createdAt, updatedAt, { hcurrent with }⟩
  · obtain rfl := Except.ok.inj happly
    exact h.mono

theorem foldGoalState_sound {events : List SessionEvent} (h : foldGoalState events = .ok state) :
    state.Sound events.length := by
  apply foldOk_invariant (fun events state => GoalFoldState.Sound state events.length) _ h
    emptyGoalFoldState_sound
  intro seen previous event state hprevious happly
  rw [List.length_append, List.length_singleton]
  exact applyGoalEvent_sound hprevious happly

theorem applyGoalEvent_json {event : SessionEvent} {change : GoalChange}
    (hdata : event.data = .plugin goalChangeType change.json) (h : change.Valid) :
    applyGoalEvent state event = applyGoalChange state change := by
  unfold applyGoalEvent
  rw [hdata]
  simp [decodeGoalChange_json h]

end Folding

section Fork

theorem applyClear_current {goal : GoalSnapshot} {createdAt updatedAt clearedAt : Int}
    (h : state.Current count goal createdAt updatedAt) (hle : updatedAt ≤ clearedAt) :
    applyGoalChange state (.clear (goalClearChange goal clearedAt)) =
      .ok { state with
        goal := none, roundsStarted := 0, createdAt := none, updatedAt := none
        lastRef := some (goalClearChange goal clearedAt).cleared } := by
  simp [applyGoalChange, applyClear, h.current, h.updated, requireNextRevision, goalClearChange, hle]

end Fork

end Harness
