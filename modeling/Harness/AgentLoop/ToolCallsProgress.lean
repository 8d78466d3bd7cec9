import Harness.AgentLoop.ToolCallsSound
import Mathlib.Algebra.Ring.Nat

universe u v

namespace Harness.AgentLoop

variable {ρ : Type u} {κ : Type v}

def SchedulerOp.own : SchedulerOp ρ κ → Bool
  | .choose _ | .fill _ | .resume | .commitReady _ | .race _ | .drained => true
  | .prepared _ | .prepareRejected | .finalized _ | .finalizeRejected | .settle _ _ | .reject _
  | .abort | .other => false

def SchedulerOp.outside : SchedulerOp ρ κ → Bool
  | .abort | .other => true
  | .choose _ | .fill _ | .prepared _ | .prepareRejected | .resume | .commitReady _ | .finalized _
  | .finalizeRejected | .race _ | .drained | .settle _ _ | .reject _ => false

inductive Awaited
  | prepare (index : Nat)
  | finalize (index : Nat)
  | dispatch (index : Nat)

def Awaited.answeredBy : Awaited → SchedulerOp ρ κ → Bool
  | .prepare _, .prepared _ | .prepare _, .prepareRejected => true
  | .finalize _, .finalized _ | .finalize _, .finalizeRejected => true
  | .dispatch index, .settle settled _ | .dispatch index, .reject settled => settled = index
  | _, _ => false

def CallState.left : CallState → Nat
  | .preparing => 7
  | .running => 3
  | .settled _ => 2
  | .rejected | .committed => 0

def SchedulerPhase.left : SchedulerPhase → Nat
  | .preparing => 5
  | .started => 4
  | .committing => 3
  | .choosing | .finalizing | .released => 2
  | .filling | .draining => 1
  | .racing | .done | .failed => 0

def callsLeft (calls : List CallState) : Nat := (calls.map CallState.left).sum

theorem callsLeft_append (calls more : List CallState) :
    callsLeft (calls ++ more) = callsLeft calls + callsLeft more := by
  rw [callsLeft, List.map_append, List.sum_append]
  rfl

theorem callsLeft_set {calls : List CallState} {index : Nat} {before : CallState}
    (h : calls[index]? = some before) (state : CallState) :
    callsLeft (calls.set index state) + before.left = callsLeft calls + state.left := by
  induction calls generalizing index with
  | nil => cases h
  | cons call calls ih =>
    cases index with
    | zero =>
      obtain rfl := Option.some.inj h
      rw [List.set_cons_zero, callsLeft, callsLeft, List.map_cons, List.map_cons, List.sum_cons,
        List.sum_cons]
      omega
    | succ index =>
      have hrest := ih h
      rw [List.set_cons_succ]
      rw [callsLeft] at hrest ⊢
      rw [callsLeft] at hrest ⊢
      rw [List.map_cons, List.map_cons, List.sum_cons, List.sum_cons]
      omega

theorem callsLeft_committed (rest : List Nat) :
    callsLeft (rest.map fun _ => CallState.committed) = 0 := by
  induction rest with
  | nil => rfl
  | cons index rest ih =>
    rw [List.map_cons, callsLeft, List.map_cons, List.sum_cons]
    exact (Nat.zero_add _).trans ih

namespace ToolScheduler

def groupLeft (s : ToolScheduler ρ κ) : Nat := if s.next < s.calls.length then 2 else 0

def left (total : Nat) (s : ToolScheduler ρ κ) : Nat :=
  14 * (total - s.calls.length) + callsLeft s.calls + 4 * s.inFlight.length + s.phase.left +
    s.groupLeft

variable {total maxParallelToolCalls : Nat} {s next : ToolScheduler ρ κ}

theorem groupLeft_le (s : ToolScheduler ρ κ) : s.groupLeft ≤ 2 := by
  rw [groupLeft]
  split
  · exact Nat.le_refl 2
  · exact Nat.zero_le 2

theorem left_fail (hphase : 1 < s.phase.left) : s.fail.left total < s.left total := by
  have hplace : SchedulerPhase.draining.left = 1 := rfl
  rw [left, left, fail]
  dsimp only [groupLeft]
  omega

theorem left_orThrow (hphase : 1 < s.phase.left) (hnext : next.left total < s.left total) :
    (s.orThrow next).left total < s.left total := by
  rw [orThrow]
  split
  · exact left_fail hphase
  · exact hnext

theorem left_move {phase : SchedulerPhase} {aborted : Bool} (hphase : phase.left < s.phase.left) :
    ({ s with phase, aborted } : ToolScheduler ρ κ).left total < s.left total := by
  rw [left, left]
  dsimp only [groupLeft]
  omega

theorem left_choose (hphase : s.phase = .choosing) (mode : ExecutionMode) :
    (s.choose mode).left total < s.left total := by
  rw [left, left, choose, hphase]
  dsimp only [groupLeft, SchedulerPhase.left]
  omega

theorem left_startCall (hphase : s.phase = .filling) (hless : s.calls.length < total) :
    s.startCall.left total < s.left total := by
  have hgroup := groupLeft_le s.startCall
  have hlength : s.startCall.calls.length = s.calls.length + 1 := List.length_append
  have hcalls : callsLeft s.startCall.calls = callsLeft s.calls + 7 := callsLeft_append _ _
  have hplace : s.startCall.phase.left = 5 := rfl
  have hflight : s.startCall.inFlight = s.inFlight := rfl
  rw [left, left, hlength, hcalls, hplace, hflight, hphase]
  dsimp only [SchedulerPhase.left]
  omega

theorem left_skipped (hphase : s.phase = .filling) (hle : s.calls.length ≤ total) :
    (s.skipped total).left total < s.left total := by
  have hlength : (s.skipped total).calls.length = total := by
    rw [skipped, List.length_append, List.length_map, List.length_range', Nat.add_sub_of_le hle]
  have hcalls : callsLeft (s.skipped total).calls = callsLeft s.calls := by
    rw [skipped, callsLeft_append, callsLeft_committed, Nat.add_zero]
  have hplace : (s.skipped total).phase.left = 0 := rfl
  have hflight : (s.skipped total).inFlight = s.inFlight := rfl
  have hgroup : (s.skipped total).groupLeft ≤ s.groupLeft + 2 * (total - s.calls.length) := by
    have hnext : (s.skipped total).next = s.next := rfl
    rw [groupLeft, groupLeft, hlength, hnext]
    split <;> split <;> omega
  rw [left, left, hlength, hcalls, hplace, hflight, hphase]
  dsimp only [SchedulerPhase.left]
  omega

theorem left_endGroup (h : s.Scheduled total maxParallelToolCalls) (hphase : s.phase = .filling)
    (hempty : s.inFlight = []) (hstarted : s.aborted = false → s.next < s.calls.length) :
    (s.endGroup total).left total < s.left total := by
  rw [endGroup]
  split
  · exact left_skipped hphase h.placed.calls_le
  · next haborted =>
    have hgroup : s.groupLeft = 2 := if_pos (hstarted (Bool.eq_false_iff.mpr haborted))
    rw [if_neg (not_not_intro (h.committed_all hphase hempty)), left, left, hphase, hgroup]
    dsimp only [groupLeft]
    rw [if_neg (Nat.lt_irrefl _)]
    split
    · dsimp only [SchedulerPhase.left]
      omega
    · dsimp only [SchedulerPhase.left]
      omega

theorem left_leaveFill (h : s.Scheduled total maxParallelToolCalls) (hphase : s.phase = .filling)
    (hstarted : s.inFlight = [] → s.aborted = false → s.next < s.calls.length) :
    (s.leaveFill total).left total < s.left total := by
  rw [leaveFill]
  split
  · next hempty => exact left_endGroup h hphase hempty (hstarted hempty)
  · exact left_move (hphase ▸ Nat.zero_lt_one)

theorem left_fillPool (h : s.Scheduled total maxParallelToolCalls) (hpool : 0 < maxParallelToolCalls)
    (hphase : s.phase = .filling) (mode : ExecutionMode) :
    (s.fillPool total maxParallelToolCalls mode).left total < s.left total := by
  have hcounted := h.standing.counted (hphase ▸ rfl)
  have hopen : s.phase ≠ .done := by
    rw [hphase]
    decide
  have hwithin := h.standing.within hopen
  rw [fillPool]
  split
  · next hstarts =>
    split
    · next hbarrier => exact left_leaveFill h hphase fun _ _ => hcounted ▸ hbarrier.1
    · apply left_startCall hphase
      exact hcounted ▸ startsNext_lt hwithin hstarts
  · next hfull =>
    refine left_leaveFill h hphase fun hempty haborted => ?_
    rw [startsNext, hempty, hcounted] at hfull
    have hend : ¬s.calls.length < s.groupEnd total := fun hless => hfull ⟨haborted, hless, hpool⟩
    rw [groupEnd] at hend
    split at hend
    · omega
    · omega

theorem left_prepared (h : s.Scheduled total maxParallelToolCalls) (hphase : s.phase = .preparing)
    (kind : PreparedKind) : (s.prepared kind).left total < s.left total := by
  obtain ⟨_, hpreparing, _⟩ := h.standing.preparing hphase
  apply left_orThrow (hphase ▸ Nat.lt_of_sub_eq_succ rfl)
  have hset := callsLeft_set ((hpreparing _).mpr rfl) kind.state
  rw [left, left, hphase]
  dsimp only [groupLeft, SchedulerPhase.left]
  rw [List.length_set]
  cases kind with
  | dispatch =>
    rw [if_pos rfl, List.length_append, List.length_singleton]
    dsimp only [PreparedKind.state, CallState.left] at hset ⊢
    omega
  | postResult | finalResult =>
    rw [if_neg nofun]
    dsimp only [PreparedKind.state, CallState.left] at hset ⊢
    omega

theorem left_commit (hphase : s.phase.left = 2 ∨ s.phase.left = 3) {post : Bool}
    (hsettled : s.calls[s.committed]? = some (.settled post)) (result : ToolExecutionResult ρ κ) :
    (s.commit result).left total < s.left total := by
  have hset := callsLeft_set hsettled .committed
  have hplace : SchedulerPhase.committing.left = 3 := rfl
  rw [left, left, commit]
  dsimp only [groupLeft, CallState.left] at hset ⊢
  rw [List.length_set]
  omega

theorem left_commitReady (hphase : s.phase = .committing) (finished : ToolExecutionResult ρ κ) :
    (s.commitReady finished).left total < s.left total := by
  rw [commitReady]
  split
  · exact left_move (hphase ▸ Nat.lt_succ_self 2)
  · next hsettled => exact left_commit (.inr (hphase ▸ rfl)) hsettled finished
  · exact left_move (hphase ▸ Nat.lt_succ_self 2)

theorem left_race (hphase : s.phase = .racing) {index : Nat} (hindex : index ∈ s.inFlight) :
    (s.race index).left total < s.left total := by
  have hlength : (s.inFlight.erase index).length = s.inFlight.length - 1 :=
    List.length_erase_of_mem hindex
  have hpos := List.length_pos_of_mem hindex
  rw [race, orThrow, fail]
  dsimp only
  split
  · rw [left, left, hphase]
    dsimp only [groupLeft, SchedulerPhase.left]
    omega
  · rw [left, left, hphase]
    dsimp only [groupLeft, SchedulerPhase.left]
    omega

theorem left_outcome {index : Nat} (hrunning : s.calls[index]? = some .running) {state : CallState}
    (hstate : state.left < 3) {failure : Bool} :
    ({ s with calls := s.calls.set index state, schedulerFailure := failure } :
      ToolScheduler ρ κ).left total < s.left total := by
  have hset := callsLeft_set hrunning state
  have hbefore : CallState.running.left = 3 := rfl
  rw [left, left]
  dsimp only [groupLeft]
  rw [List.length_set]
  omega

theorem left_step (h : s.Scheduled total maxParallelToolCalls) (hpool : 0 < maxParallelToolCalls)
    {op : SchedulerOp ρ κ} (hinside : op.outside = false)
    (hstep : s.step total maxParallelToolCalls op = some next) :
    next.left total < s.left total := by
  cases op with
  | choose mode =>
    obtain ⟨hphase, hnext⟩ := Option.ite_none_right_eq_some.mp hstep
    exact Option.some.inj hnext ▸ left_choose hphase mode
  | fill mode =>
    obtain ⟨hphase, hnext⟩ := Option.ite_none_right_eq_some.mp hstep
    exact Option.some.inj hnext ▸ left_fillPool h hpool hphase mode
  | prepared kind =>
    obtain ⟨hphase, hnext⟩ := Option.ite_none_right_eq_some.mp hstep
    exact Option.some.inj hnext ▸ left_prepared h hphase kind
  | prepareRejected =>
    obtain ⟨hphase, hnext⟩ := Option.ite_none_right_eq_some.mp hstep
    exact Option.some.inj hnext ▸ left_fail (hphase ▸ Nat.lt_of_sub_eq_succ rfl)
  | resume =>
    rw [step] at hstep
    split at hstep
    · next hphase =>
      obtain rfl := Option.some.inj hstep
      exact left_orThrow (hphase ▸ Nat.lt_of_sub_eq_succ rfl)
        (left_move (hphase ▸ Nat.lt_succ_self 3))
    · obtain ⟨hphase, hnext⟩ := Option.ite_none_right_eq_some.mp hstep
      obtain rfl := Option.some.inj hnext
      exact left_orThrow (hphase ▸ Nat.lt_succ_self 1) (left_move (hphase ▸ Nat.lt_succ_self 1))
  | commitReady finished =>
    obtain ⟨hphase, hnext⟩ := Option.ite_none_right_eq_some.mp hstep
    exact Option.some.inj hnext ▸ left_commitReady hphase finished
  | finalized result =>
    obtain ⟨hphase, hnext⟩ := Option.ite_none_right_eq_some.mp hstep
    exact Option.some.inj hnext ▸
      left_commit (.inl (hphase ▸ rfl)) (h.standing.finalizing hphase) result
  | finalizeRejected =>
    obtain ⟨hphase, hnext⟩ := Option.ite_none_right_eq_some.mp hstep
    exact Option.some.inj hnext ▸ left_fail (hphase ▸ Nat.lt_succ_self 1)
  | race index =>
    obtain ⟨⟨hphase, hindex, _⟩, hnext⟩ := Option.ite_none_right_eq_some.mp hstep
    exact Option.some.inj hnext ▸ left_race hphase hindex
  | drained =>
    obtain ⟨⟨hphase, _⟩, hnext⟩ := Option.ite_none_right_eq_some.mp hstep
    exact Option.some.inj hnext ▸ left_move (hphase ▸ Nat.zero_lt_one)
  | settle index needsPost =>
    obtain ⟨hrunning, hnext⟩ := Option.ite_none_right_eq_some.mp hstep
    have hless : (CallState.settled needsPost).left < 3 := Nat.lt_succ_self 2
    exact Option.some.inj hnext ▸ left_outcome hrunning hless
  | reject index =>
    obtain ⟨hrunning, hnext⟩ := Option.ite_none_right_eq_some.mp hstep
    have hless : CallState.rejected.left < 3 := Nat.zero_lt_succ 2
    exact Option.some.inj hnext ▸ left_outcome hrunning hless
  | abort | other => cases hinside

theorem left_other {op : SchedulerOp ρ κ} (houtside : op.outside = true)
    (hstep : s.step total maxParallelToolCalls op = some next) : next.left total = s.left total := by
  cases op with
  | abort | other => exact Option.some.inj hstep ▸ rfl
  | choose | fill | prepared | prepareRejected | resume | commitReady | finalized | finalizeRejected
  | race | drained | settle | reject => cases houtside

theorem steps_le (hpool : 0 < maxParallelToolCalls) {ops : List (SchedulerOp ρ κ)}
    (h : s.Scheduled total maxParallelToolCalls)
    (hrun : Foundation.run (step total maxParallelToolCalls) s ops = some next) :
    (ops.countP fun op => !op.outside) + next.left total ≤ s.left total := by
  induction ops generalizing s with
  | nil =>
    obtain rfl := Option.some.inj hrun
    exact Nat.le_of_eq (Nat.zero_add _)
  | cons op ops ih =>
    obtain ⟨after, hstep, hrest⟩ := Option.bind_eq_some_iff.mp hrun
    have hcount := ih (h.step hstep) hrest
    rw [List.countP_cons]
    cases houtside : op.outside with
    | true =>
      have hsame := left_other houtside hstep
      rw [if_neg (by decide)]
      omega
    | false =>
      have hless := left_step h hpool houtside hstep
      rw [if_pos (by decide)]
      omega

def Awaits (s : ToolScheduler ρ κ) : Awaited → Prop
  | .prepare index =>
    s.phase = .preparing ∧ index = s.nextToStart ∧ s.calls[index]? = some .preparing
  | .finalize index =>
    s.phase = .finalizing ∧ index = s.committed ∧ s.calls[index]? = some (.settled true)
  | .dispatch index =>
    (s.phase = .racing ∨ s.phase = .draining) ∧ index ∈ s.inFlight ∧
      s.calls[index]? = some .running

def Moves (total maxParallelToolCalls : Nat) (s : ToolScheduler ρ κ) : Prop :=
  ∃ op : SchedulerOp ρ κ, op.own = true ∧ (s.step total maxParallelToolCalls op).isSome = true

theorem Scheduled.progress (h : s.Scheduled total maxParallelToolCalls)
    (result : ToolExecutionResult ρ κ) (hdone : s.phase ≠ .done) (hfailed : s.phase ≠ .failed) :
    s.Moves total maxParallelToolCalls ∨ ∃ awaited, s.Awaits awaited := by
  cases hphase : s.phase with
  | choosing => exact .inl ⟨.choose .parallel, rfl, by rw [ToolScheduler.step, if_pos hphase]; rfl⟩
  | filling => exact .inl ⟨.fill .parallel, rfl, by rw [ToolScheduler.step, if_pos hphase]; rfl⟩
  | preparing =>
    obtain ⟨_, hpreparing, _⟩ := h.standing.preparing hphase
    exact .inr ⟨.prepare s.nextToStart, hphase, rfl, (hpreparing _).mpr rfl⟩
  | started => exact .inl ⟨.resume, rfl, by rw [ToolScheduler.step, if_pos hphase]; rfl⟩
  | committing =>
    exact .inl ⟨.commitReady result, rfl, by rw [ToolScheduler.step, if_pos hphase]; rfl⟩
  | finalizing =>
    exact .inr ⟨.finalize s.committed, hphase, rfl, h.standing.finalizing hphase⟩
  | released =>
    refine .inl ⟨.resume, rfl, ?_⟩
    have hreleased : s.phase ≠ .started := by
      rw [hphase]
      decide
    rw [ToolScheduler.step, if_neg hreleased, if_pos hphase]
    rfl
  | racing =>
    obtain ⟨index, hindex⟩ := List.exists_mem_of_ne_nil _ (h.standing.racing hphase)
    by_cases hended : s.hasEnded index
    · exact .inl ⟨.race index, rfl, by rw [ToolScheduler.step, if_pos ⟨hphase, hindex, hended⟩]; rfl⟩
    · exact .inr ⟨.dispatch index, .inl hphase, hindex, Decidable.not_not.mp hended⟩
  | draining =>
    by_cases hended : ∀ index ∈ s.inFlight, s.hasEnded index
    · exact .inl ⟨.drained, rfl, by rw [ToolScheduler.step, if_pos ⟨hphase, hended⟩]; rfl⟩
    · obtain ⟨index, hrunning⟩ := Classical.not_forall.mp hended
      obtain ⟨hindex, hrunning⟩ := Classical.not_imp.mp hrunning
      exact .inr ⟨.dispatch index, .inr hphase, hindex, Decidable.not_not.mp hrunning⟩
  | done => exact absurd hphase hdone
  | failed => exact absurd hphase hfailed

theorem Awaits.answered {awaited : Awaited} (h : s.Awaits awaited) {op : SchedulerOp ρ κ}
    (hop : awaited.answeredBy op = true) : (s.step total maxParallelToolCalls op).isSome = true := by
  cases awaited with
  | prepare index =>
    cases op with
    | prepared | prepareRejected =>
      rw [ToolScheduler.step, if_pos h.1]
      rfl
    | _ => cases hop
  | finalize index =>
    cases op with
    | finalized | finalizeRejected =>
      rw [ToolScheduler.step, if_pos h.1]
      rfl
    | _ => cases hop
  | dispatch index =>
    cases op with
    | settle settled | reject settled =>
      obtain rfl := of_decide_eq_true hop
      rw [ToolScheduler.step, if_pos h.2.2]
      rfl
    | _ => cases hop

theorem still_of_awaiting (hphase : s.phase = .preparing ∨ s.phase = .finalizing) :
    ¬s.Moves total maxParallelToolCalls := by
  rintro ⟨op, hown, hstep⟩
  rcases hphase with hphase | hphase
  · cases op with
    | choose | fill | resume | commitReady | race | drained =>
      simp [ToolScheduler.step, hphase] at hstep
    | _ => cases hown
  · cases op with
    | choose | fill | resume | commitReady | race | drained =>
      simp [ToolScheduler.step, hphase] at hstep
    | _ => cases hown

theorem left_initial (before : Nat) (signalAborted : Bool) :
    (initial before total signalAborted : ToolScheduler ρ κ).left total ≤ 14 * total + 2 := by
  cases total with
  | zero => exact Nat.zero_le _
  | succ total => exact Nat.le_refl _

/-- The scheduler comes to an end in a bounded number of steps, unless a promise of the registry
never settles. -/
theorem tool_calls_settle (hpool : 0 < maxParallelToolCalls) {before : Nat} {signalAborted : Bool}
    {ops : List (SchedulerOp ρ κ)} (result : ToolExecutionResult ρ κ)
    (h : Foundation.run (step total maxParallelToolCalls) (initial before total signalAborted) ops =
      some s) :
    (ops.countP fun op => !op.outside) ≤ 14 * total + 2 ∧
      (s.phase ≠ .done → s.phase ≠ .failed →
        s.Moves total maxParallelToolCalls ∨ ∃ awaited, s.Awaits awaited) ∧
      (∀ awaited, s.Awaits awaited → ∀ op : SchedulerOp ρ κ, awaited.answeredBy op = true →
        (s.step total maxParallelToolCalls op).isSome = true) ∧
      (s.phase = .preparing ∨ s.phase = .finalizing → ¬s.Moves total maxParallelToolCalls) := by
  refine ⟨?_, (scheduled_run h).progress result, ?_, still_of_awaiting⟩
  · have hsteps := steps_le hpool (scheduled_initial before signalAborted) h
    have hinitial := @left_initial ρ κ total before signalAborted
    omega
  · intro awaited hawaits op
    exact hawaits.answered

/-- Two parallel calls: the second is still being prepared when the first settles, and is
dispatched before the first result goes to `finalize`. -/
def crossingOps : List (SchedulerOp Nat Nat) :=
  [.choose .parallel, .fill .parallel, .prepared .dispatch, .resume, .commitReady ⟨0, [], false⟩,
    .resume, .fill .parallel, .settle 0 true, .prepared .dispatch, .resume,
    .commitReady ⟨0, [], false⟩]

def crossingRun : Option (ToolScheduler Nat Nat) :=
  Foundation.run (step 2 2) (initial 0 2 false) crossingOps

theorem crossingRun_settles :
    (crossingOps.countP fun op => !op.outside) ≤ 14 * 2 + 2 ∧
      ((crossingRun.get rfl).Moves 2 2 ∨ ∃ awaited, (crossingRun.get rfl).Awaits awaited) ∧
      (crossingRun.get rfl).Awaits (.finalize 0) ∧
      (∀ op : SchedulerOp Nat Nat, (Awaited.finalize 0).answeredBy op = true →
        ((crossingRun.get rfl).step 2 2 op).isSome = true) ∧
      ¬(crossingRun.get rfl).Moves 2 2 := by
  obtain ⟨hsteps, hprogress, hanswered, hstill⟩ := @tool_calls_settle Nat Nat 2 2
    (crossingRun.get rfl) (by decide) 0 false crossingOps ⟨0, [], false⟩ (Option.some_get _).symm
  have hphase : (crossingRun.get rfl).phase = .finalizing := rfl
  have hawaits : (crossingRun.get rfl).Awaits (.finalize 0) := ⟨hphase, rfl, rfl⟩
  refine ⟨hsteps, hprogress ?_ ?_, hawaits, hanswered _ hawaits, hstill (.inr hphase)⟩
  · rw [hphase]
    decide
  · rw [hphase]
    decide

end ToolScheduler

end Harness.AgentLoop
