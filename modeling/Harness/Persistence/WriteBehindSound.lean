import Harness.Persistence.WriteBehind

universe u

namespace Harness.Persistence

variable {α : Type u}

/-- The events of a write that the backend does not have, and that are not pending again. -/
def ActiveWrite.unstored (write : ActiveWrite α) : List α :=
  match write.stage with
  | .writing | .rejected => write.batch
  | .stored | .resolved | .restored => []

namespace SessionWriteBehind

variable (writes : SessionWriteBehind α)

def inFlight : List α :=
  match writes.active with
  | none => []
  | some write => write.unstored

def owed : List α := writes.inFlight ++ writes.pending

def Held : Prop :=
  match writes.barrier with
  | none => ∀ write, writes.active = some write → write.background = true
  | some .overlapping => ∃ write, writes.active = some write ∧ write.background = true
  | some .writing => ∃ write, writes.active = some write ∧ write.background = false ∧
      (write.stage = .restored → writes.automaticPaused = true)
  | some .overlapped => writes.active = none
  | some .written => writes.active = none
  | some .failed => writes.active = none ∧ writes.automaticPaused = true

def Going : Prop :=
  writes.timer = true ∨
    writes.deadlineExpired = true ∧ (writes.continuing = true ∨ writes.active ≠ none)

structure Orderly (waitCancelled : Bool) : Prop where
  held : writes.Held
  timer : writes.timer = true →
    writes.pending ≠ [] ∧ writes.barrier = none ∧ writes.automaticPaused = false
  spent : ∀ write, writes.active = some write → write.stage = .restored →
    writes.deadlineExpired = false
  idle : writes.continuing = true → writes.barrier = none → writes.active = none
  going : writes.pending ≠ [] → writes.barrier = none → writes.automaticPaused = false →
    waitCancelled = false → writes.Going

variable {writes} {waitCancelled : Bool}

theorem orderly_fresh : (fresh : SessionWriteBehind α).Orderly false where
  held := nofun
  timer := nofun
  spent := nofun
  idle := nofun
  going h := absurd rfl h

theorem snoc_ne_nil (pending : List α) (event : α) : pending ++ [event] ≠ [] := by
  simp only [ne_eq, List.append_eq_nil_iff, List.cons_ne_self, and_false, not_false_eq_true]

theorem owed_enqueue (event : α) : (writes.enqueue event).owed = writes.owed ++ [event] := by
  have howed : writes.inFlight ++ (writes.pending ++ [event]) = writes.owed ++ [event] :=
    (List.append_assoc _ _ _).symm
  rw [enqueue]
  dsimp only
  split
  · exact howed
  · split
    · exact howed
    · split <;> exact howed

theorem barrier_enqueue (event : α) : (writes.enqueue event).barrier = writes.barrier := by
  rw [enqueue]
  dsimp only
  split
  · rfl
  · split
    · rfl
    · split <;> rfl

theorem Orderly.enqueue (h : writes.Orderly waitCancelled) (event : α) :
    (writes.enqueue event).Orderly waitCancelled := by
  have hpending := snoc_ne_nil writes.pending event
  rw [SessionWriteBehind.enqueue]
  dsimp only
  split
  · next hbarrier =>
    refine ⟨h.held, fun htimer => ?_, h.spent, h.idle, fun _ hnone => ?_⟩
    · exact ⟨hpending, (h.timer htimer).2⟩
    · exact absurd hnone (Option.isSome_iff_ne_none.mp hbarrier)
  · next hbarrier =>
    have hnone := Option.not_isSome_iff_eq_none.mp hbarrier
    split
    · refine ⟨?_, fun _ => ⟨hpending, hnone, rfl⟩, fun _ _ _ => rfl, h.idle, fun _ _ _ _ => .inl rfl⟩
      have hheld := h.held
      rw [Held, hnone] at hheld
      rw [Held]
      dsimp only [armTimer]
      rw [hnone]
      exact hheld
    · next hpaused =>
      split
      · exact ⟨h.held, fun _ => ⟨hpending, hnone, Bool.eq_false_iff.mpr hpaused⟩, h.spent, h.idle,
          fun _ _ _ _ => .inl rfl⟩
      · next hempty =>
        have hbefore : writes.pending ≠ [] := fun heq => hempty (heq ▸ rfl)
        exact ⟨h.held, fun htimer => ⟨hpending, (h.timer htimer).2⟩, h.spent, h.idle,
          fun _ => h.going hbefore⟩

theorem Orderly.armed (h : writes.Orderly waitCancelled) :
    writes.Orderly (waitCancelled && !writes.timer) := by
  refine ⟨h.held, h.timer, h.spent, h.idle, fun hpending hbarrier hpaused hcancelled => ?_⟩
  cases htimer : writes.timer with
  | true => exact .inl htimer
  | false =>
    rw [htimer, Bool.not_false, Bool.and_true] at hcancelled
    exact h.going hpending hbarrier hpaused hcancelled

theorem flush_answers : writes.flush.1.barrier.isSome = true ∨ writes.flush.2 = true := by
  unfold SessionWriteBehind.flush
  split
  · next hbarrier => exact .inl hbarrier
  · unfold drainBarrier
    split
    · exact .inl rfl
    · unfold drain
      split
      · exact .inr rfl
      · exact .inl rfl

/-- The queue after a step of the barrier, and whether the callers of the barrier are resolved. -/
structure Barred (writes : SessionWriteBehind α) (result : SessionWriteBehind α × Bool) : Prop where
  orderly : result.1.Orderly false
  owed : result.1.owed = writes.owed
  resolved : result.2 = true → writes.owed = []

theorem barred_drain (hactive : writes.active = none) (htimer : writes.timer = false) :
    Barred writes writes.drain := by
  have howed : writes.owed = writes.pending := by rw [owed, inFlight, hactive, List.nil_append]
  rw [drain]
  split
  · next hempty =>
    have hpending : writes.pending = [] := List.isEmpty_iff.mp hempty
    refine ⟨⟨?_, ?_, ?_, fun _ _ => hactive, fun h => absurd hpending h⟩, rfl, fun _ =>
      howed.trans hpending⟩
    · rw [Held]
      dsimp only
      rw [hactive]
      exact nofun
    · dsimp only
      rw [htimer]
      exact nofun
    · dsimp only
      rw [hactive]
      exact nofun
  · refine ⟨⟨⟨_, rfl, rfl, nofun⟩, nofun, fun _ _ _ => rfl, nofun, nofun⟩, ?_, nofun⟩
    rw [howed]
    exact List.append_nil _

theorem barred_drainBarrier (hheld : writes.Held) (hbarrier : writes.barrier = none)
    (htimer : writes.timer = false) (hexpired : writes.deadlineExpired = false) :
    Barred writes writes.drainBarrier := by
  rw [drainBarrier]
  split
  · next hactive =>
    obtain ⟨write, hactive⟩ := Option.isSome_iff_exists.mp hactive
    rw [Held, hbarrier] at hheld
    refine ⟨⟨⟨write, hactive, hheld write hactive⟩, ?_, fun _ _ _ => hexpired, nofun, nofun⟩, rfl, nofun⟩
    dsimp only
    rw [htimer]
    exact nofun
  · next hactive => exact barred_drain (Option.not_isSome_iff_eq_none.mp hactive) htimer

theorem Orderly.flush (h : writes.Orderly waitCancelled) (hbarrier : writes.barrier = none) :
    Barred writes writes.flush := by
  have hflush : writes.flush = { writes.cancelTimer with
      deadlineExpired := false, automaticPaused := false }.drainBarrier := by
    rw [SessionWriteBehind.flush, if_neg (Option.not_isSome_iff_eq_none.mpr hbarrier)]
  have hheld := h.held
  rw [Held, hbarrier] at hheld
  have hbase : ({ writes.cancelTimer with deadlineExpired := false, automaticPaused := false } :
      SessionWriteBehind α).Held := by
    rw [Held]
    dsimp only [cancelTimer]
    rw [hbarrier]
    exact hheld
  obtain ⟨hdrained, howed, hresolved⟩ := barred_drainBarrier hbase hbarrier rfl rfl
  rw [hflush]
  exact ⟨hdrained, howed, hresolved⟩

theorem Orderly.cancelAutomaticWait (h : writes.Orderly waitCancelled) :
    writes.cancelAutomaticWait.Orderly true where
  held := h.held
  timer := nofun
  spent _ _ _ := rfl
  idle := h.idle
  going _ _ _ := nofun

theorem orderly_startBackground (hbarrier : writes.barrier = none)
    (hactive : writes.active = none) (hcontinuing : writes.continuing = false) :
    writes.startBackground.Orderly waitCancelled ∧ writes.startBackground.owed = writes.owed := by
  refine ⟨⟨?_, nofun, fun write hwrite hstage => rfl, ?_, fun hpending => absurd rfl hpending⟩, ?_⟩
  · rw [Held]
    dsimp only [SessionWriteBehind.startBackground, startWrite, cancelTimer]
    rw [hbarrier]
    exact fun write hwrite => Option.some.inj hwrite ▸ rfl
  · dsimp only [SessionWriteBehind.startBackground, startWrite, cancelTimer]
    rw [hcontinuing]
    exact nofun
  · rw [owed, owed, inFlight, inFlight, hactive]
    exact List.append_nil _

theorem quiet_iff : writes.quiet = true ↔ writes.continuing = false ∧
    (∀ stage, writes.barrier = some stage → BarrierStage.resumable stage = false) ∧
    ∀ write, writes.active = some write → write.stage = .writing ∨ write.stage = .stored := by
  simp only [quiet, Bool.and_eq_true, Bool.not_eq_true', Option.all_eq_true, Bool.or_eq_true,
    beq_iff_eq, and_assoc]

theorem Orderly.onDeadline (h : writes.Orderly waitCancelled) (htimer : writes.timer = true)
    (hquiet : writes.quiet = true) :
    writes.onDeadline.Orderly waitCancelled ∧ writes.onDeadline.owed = writes.owed ∧
      writes.onDeadline.barrier = none := by
  obtain ⟨hpending, hbarrier, hpaused⟩ := h.timer htimer
  obtain ⟨hcontinuing, _, hstage⟩ := quiet_iff.mp hquiet
  rw [SessionWriteBehind.onDeadline]
  dsimp only
  split
  · next hactive =>
    refine ⟨⟨h.held, nofun, fun write hwrite hrestored => ?_, h.idle, fun _ _ _ _ => ?_⟩, rfl, hbarrier⟩
    · have hwriting := hstage write hwrite
      rw [hrestored] at hwriting
      exact hwriting.elim nofun nofun
    · exact .inr ⟨rfl, .inr (Option.isSome_iff_ne_none.mp hactive)⟩
  · next hactive =>
    have hnone := Option.not_isSome_iff_eq_none.mp hactive
    obtain ⟨hstarted, howed⟩ := @orderly_startBackground α { writes with timer := false } true hbarrier
      hnone hcontinuing
    exact ⟨⟨hstarted.held, nofun, hstarted.spent, hstarted.idle, fun hne => absurd rfl hne⟩, howed,
      hbarrier⟩

theorem Orderly.continueAutomatic (h : writes.Orderly waitCancelled)
    (hcontinuing : writes.continuing = true) :
    ({ writes with continuing := false }.continueAutomatic).Orderly waitCancelled ∧
      ({ writes with continuing := false }.continueAutomatic).owed = writes.owed ∧
      ({ writes with continuing := false }.continueAutomatic).barrier = writes.barrier := by
  rw [SessionWriteBehind.continueAutomatic]
  dsimp only
  split
  · next hskip =>
    refine ⟨⟨h.held, h.timer, h.spent, nofun, fun hpending hbarrier => ?_⟩, rfl, rfl⟩
    rcases (Bool.or_eq_true _ _).mp hskip with hsome | hempty
    · exact absurd hbarrier (Option.isSome_iff_ne_none.mp hsome)
    · exact absurd (List.isEmpty_iff.mp hempty) hpending
  · next hgo =>
    rw [Bool.or_eq_true, not_or] at hgo
    have hbarrier := Option.not_isSome_iff_eq_none.mp hgo.1
    have hactive := h.idle hcontinuing hbarrier
    split
    · obtain ⟨hstarted, howed⟩ := @orderly_startBackground α
        { writes with continuing := false, deadlineExpired := false } true hbarrier hactive rfl
      exact ⟨⟨hstarted.held, nofun, hstarted.spent, hstarted.idle, fun hne => absurd rfl hne⟩, howed,
        rfl⟩
    · next hexpired =>
      refine ⟨⟨h.held, h.timer, h.spent, nofun, fun hpending hnone hpaused hcancelled => ?_⟩, rfl, rfl⟩
      rcases h.going hpending hnone hpaused hcancelled with htimer | ⟨hexpiry, _⟩
      · exact .inl htimer
      · exact absurd hexpiry hexpired

theorem Orderly.restore (h : writes.Orderly waitCancelled) {write : ActiveWrite α}
    (hactive : writes.active = some write) (hstage : write.stage = .rejected) :
    (writes.restore write).Orderly waitCancelled ∧ (writes.restore write).owed = writes.owed := by
  refine ⟨⟨?_, nofun, fun _ _ _ => rfl, fun hcontinuing hbarrier => ?_, fun _ _ => nofun⟩, ?_⟩
  · have hheld := h.held
    rw [Held] at hheld ⊢
    dsimp only [SessionWriteBehind.restore, cancelTimer]
    cases hbarrier : writes.barrier with
    | none =>
      rw [hbarrier] at hheld
      exact fun other hother => Option.some.inj hother ▸ hheld write hactive
    | some stage =>
      rw [hbarrier, hactive] at hheld
      cases stage with
      | overlapping =>
        obtain ⟨other, hother, hbackground⟩ := hheld
        exact ⟨_, rfl, Option.some.inj hother ▸ hbackground⟩
      | writing =>
        obtain ⟨other, hother, hbackground, _⟩ := hheld
        exact ⟨_, rfl, Option.some.inj hother ▸ hbackground, fun _ => rfl⟩
      | overlapped | written => cases hheld
      | failed => cases hheld.1
  · have hnone := h.idle hcontinuing hbarrier
    rw [hactive] at hnone
    cases hnone
  · rw [owed, owed, inFlight, inFlight, hactive]
    dsimp only [SessionWriteBehind.restore, cancelTimer, ActiveWrite.unstored]
    rw [hstage]
    rfl

theorem Orderly.settle (h : writes.Orderly waitCancelled) {write : ActiveWrite α}
    (hactive : writes.active = some write) (hstage : write.stage = .resolved ∨ write.stage = .restored) :
    (writes.settle write).Orderly waitCancelled ∧ (writes.settle write).owed = writes.owed ∧
      ((writes.settle write).barrier = none → writes.barrier = none) := by
  refine ⟨⟨?_, ?_, nofun, fun _ _ => rfl, ?_⟩, ?_, Option.map_eq_none_iff.mp⟩
  · have hheld := h.held
    rw [Held, hactive] at hheld
    rw [Held]
    dsimp only [SessionWriteBehind.settle]
    cases hbarrier : writes.barrier with
    | none => exact nofun
    | some stage =>
      rw [hbarrier] at hheld
      cases stage with
      | overlapping => rfl
      | writing =>
        obtain ⟨other, hother, _, hpaused⟩ := hheld
        obtain rfl := Option.some.inj hother
        rcases hstage with hresolved | hrestored
        · rw [hresolved]
          rfl
        · rw [hrestored]
          exact ⟨rfl, hpaused hrestored⟩
      | overlapped | written => cases hheld
      | failed => cases hheld.1
  · intro htimer
    obtain ⟨hpending, hbarrier, hpaused⟩ := h.timer htimer
    exact ⟨hpending, Option.map_eq_none_iff.mpr hbarrier, hpaused⟩
  · intro hpending hnone hpaused hcancelled
    have hbarrier := Option.map_eq_none_iff.mp hnone
    have hheld := h.held
    rw [Held, hbarrier] at hheld
    rcases h.going hpending hbarrier hpaused hcancelled with htimer | ⟨hexpired, _⟩
    · exact .inl htimer
    · refine .inr ⟨hexpired, .inl ?_⟩
      rcases hstage with hresolved | hrestored
      · dsimp only [SessionWriteBehind.settle]
        rw [hheld write hactive, hresolved, Bool.or_eq_true]
        exact .inr rfl
      · have hspent := h.spent write hactive hrestored
        rw [hexpired] at hspent
        cases hspent
  · rw [owed, owed, inFlight, inFlight, hactive]
    dsimp only [SessionWriteBehind.settle, ActiveWrite.unstored]
    rcases hstage with hresolved | hrestored
    · rw [hresolved]
    · rw [hrestored]

theorem Orderly.resumeBarrier (h : writes.Orderly waitCancelled) {stage : BarrierStage}
    (hbarrier : writes.barrier = some stage) (hresumable : BarrierStage.resumable stage = true) :
    Barred writes (writes.resumeBarrier stage) := by
  have hheld := h.held
  rw [Held, hbarrier] at hheld
  have htimer : writes.timer = false := by
    rw [Bool.eq_false_iff]
    intro htimer
    have hnone := (h.timer htimer).2.1
    rw [hbarrier] at hnone
    cases hnone
  cases stage with
  | overlapping | writing => cases hresumable
  | overlapped =>
    obtain ⟨hdrained, howed, hresolved⟩ :=
      @barred_drain α { writes with automaticPaused := false } hheld htimer
    exact ⟨hdrained, howed, hresolved⟩
  | written => exact barred_drain hheld htimer
  | failed =>
    refine ⟨⟨?_, ?_, h.spent, fun _ _ => hheld.1, fun _ _ hpaused => ?_⟩, rfl, nofun⟩
    · rw [Held]
      dsimp only [SessionWriteBehind.resumeBarrier]
      rw [hheld.1]
      exact nofun
    · dsimp only [SessionWriteBehind.resumeBarrier]
      rw [htimer]
      exact nofun
    · exact absurd (hheld.2.symm.trans hpaused) nofun

theorem Orderly.moveTo (h : writes.Orderly waitCancelled) {write : ActiveWrite α}
    (hactive : writes.active = some write) {stage : WriteStage} (hstage : stage ≠ .restored) :
    ({ writes with active := some { write with stage } } : SessionWriteBehind α).Orderly
      waitCancelled := by
  refine ⟨?_, h.timer, fun other hother hrestored => ?_, fun hcontinuing hbarrier => ?_,
    fun hpending hbarrier hpaused hcancelled => ?_⟩
  · have hheld := h.held
    rw [Held, hactive] at hheld
    rw [Held]
    dsimp only
    cases hbarrier : writes.barrier with
    | none =>
      rw [hbarrier] at hheld
      exact fun other hother => Option.some.inj hother ▸ hheld write rfl
    | some barrier =>
      rw [hbarrier] at hheld
      cases barrier with
      | overlapping =>
        obtain ⟨other, hother, hbackground⟩ := hheld
        exact ⟨_, rfl, Option.some.inj hother ▸ hbackground⟩
      | writing =>
        obtain ⟨other, hother, hbackground, _⟩ := hheld
        exact ⟨_, rfl, Option.some.inj hother ▸ hbackground, fun heq => absurd heq hstage⟩
      | overlapped | written => cases hheld
      | failed => cases hheld.1
  · obtain rfl := Option.some.inj hother
    exact absurd hrestored hstage
  · have hnone := h.idle hcontinuing hbarrier
    rw [hactive] at hnone
    cases hnone
  · rcases h.going hpending hbarrier hpaused hcancelled with htimer | ⟨hexpired, _⟩
    · exact .inl htimer
    · exact .inr ⟨hexpired, .inr nofun⟩

end SessionWriteBehind

namespace WriteRun

variable {run next : WriteRun α}

structure Sound (run : WriteRun α) : Prop where
  content : run.durable ++ run.writes.owed = run.enqueued
  orderly : run.writes.Orderly run.waitCancelled
  waiting : ∀ given ∈ run.waiting, given <+: run.enqueued
  alone : run.writes.barrier = none → run.waiting = []
  flushed : ∀ given ∈ run.flushed, given <+: run.durable

theorem sound_fresh : (fresh : WriteRun α).Sound where
  content := rfl
  orderly := SessionWriteBehind.orderly_fresh
  waiting := nofun
  alone _ := rfl
  flushed := nofun

theorem Sound.keep (h : run.Sound) {writes : SessionWriteBehind α}
    (horderly : writes.Orderly run.waitCancelled) (howed : writes.owed = run.writes.owed)
    (hbarrier : writes.barrier = none → run.writes.barrier = none) :
    Sound { run with writes } where
  content := by
    dsimp only
    rw [howed, h.content]
  orderly := horderly
  waiting := h.waiting
  alone hnone := h.alone (hbarrier hnone)
  flushed := h.flushed

theorem Sound.barred (h : run.Sound) {waiting : List (List α)}
    {result : SessionWriteBehind α × Bool} (hresult : run.writes.Barred result)
    (hwaiting : ∀ given ∈ waiting, given <+: run.enqueued) : (run.barred waiting result).Sound where
  content := by
    dsimp only [WriteRun.barred]
    rw [hresult.owed, h.content]
  orderly := hresult.orderly
  waiting given hgiven := by
    dsimp only [WriteRun.barred] at hgiven
    split at hgiven
    · exact hwaiting given hgiven
    · cases hgiven
  alone hnone := if_neg (Option.not_isSome_iff_eq_none.mpr hnone)
  flushed given hgiven := by
    dsimp only [WriteRun.barred] at hgiven
    split at hgiven
    · next hresolved =>
      rcases List.mem_append.mp hgiven with hbefore | hnow
      · exact h.flushed given hbefore
      · have hcontent := h.content
        rw [hresult.resolved hresolved, List.append_nil] at hcontent
        exact hcontent ▸ hwaiting given hnow
    · exact h.flushed given hgiven

theorem Sound.move (h : run.Sound) {write : ActiveWrite α} (hactive : run.writes.active = some write)
    {stage : WriteStage} (hstage : stage ≠ .restored)
    (hunstored : ({ write with stage } : ActiveWrite α).unstored = write.unstored) :
    (run.moveTo write stage).Sound := by
  refine h.keep (h.orderly.moveTo hactive hstage) ?_ id
  rw [SessionWriteBehind.owed, SessionWriteBehind.owed, SessionWriteBehind.inFlight,
    SessionWriteBehind.inFlight, hactive]
  exact congrArg (· ++ run.writes.pending) hunstored

theorem Sound.store (h : run.Sound) {write : ActiveWrite α} (hactive : run.writes.active = some write)
    (hstage : write.stage = .writing) :
    Sound { run.moveTo write .stored with durable := run.durable ++ write.batch } where
  content := by
    have hcontent := h.content
    rw [SessionWriteBehind.owed, SessionWriteBehind.inFlight, hactive] at hcontent
    dsimp only [ActiveWrite.unstored] at hcontent
    rw [hstage] at hcontent
    dsimp only [moveTo, SessionWriteBehind.owed, SessionWriteBehind.inFlight, ActiveWrite.unstored]
    rw [List.nil_append, List.append_assoc]
    exact hcontent
  orderly := h.orderly.moveTo hactive nofun
  waiting := h.waiting
  alone := h.alone
  flushed given hgiven := (h.flushed given hgiven).trans (List.prefix_append _ _)

theorem Sound.step (h : run.Sound) {op : WriteOp α} (hstep : run.step op = some next) : next.Sound := by
  cases op with
  | enqueue event =>
    obtain rfl := Option.some.inj hstep
    refine ⟨?_, (h.orderly.enqueue event).armed, fun given hgiven =>
      (h.waiting given hgiven).trans (List.prefix_append _ _), fun hnone => h.alone ?_, h.flushed⟩
    · dsimp only
      rw [SessionWriteBehind.owed_enqueue, ← List.append_assoc, h.content]
    · exact (SessionWriteBehind.barrier_enqueue event).symm.trans hnone
  | flush =>
    obtain rfl := Option.some.inj hstep
    have hwaiting : ∀ given ∈ run.waiting ++ [run.enqueued], given <+: run.enqueued := by
      intro given hgiven
      rcases List.mem_append.mp hgiven with hbefore | hnow
      · exact h.waiting given hbefore
      · exact List.mem_singleton.mp hnow ▸ List.prefix_refl _
    refine h.barred ?_ hwaiting
    cases hbarrier : run.writes.barrier with
    | none => exact h.orderly.flush hbarrier
    | some stage =>
      have hjoined : run.writes.flush = (run.writes, false) := by
        rw [SessionWriteBehind.flush, hbarrier]
        rfl
      rw [hjoined]
      refine ⟨⟨h.orderly.held, h.orderly.timer, h.orderly.spent, h.orderly.idle, ?_⟩, rfl, nofun⟩
      intro _ hnone
      rw [hbarrier] at hnone
      cases hnone
  | cancelAutomaticWait =>
    obtain rfl := Option.some.inj hstep
    exact ⟨h.content, h.orderly.cancelAutomaticWait, h.waiting, h.alone, h.flushed⟩
  | deadline =>
    obtain ⟨hguard, hnext⟩ := Option.ite_none_right_eq_some.mp hstep
    obtain rfl := Option.some.inj hnext
    obtain ⟨htimer, hquiet⟩ := (Bool.and_eq_true _ _).mp hguard
    obtain ⟨horderly, howed, hbarrier⟩ := h.orderly.onDeadline htimer hquiet
    exact h.keep horderly howed fun _ => (h.orderly.timer htimer).2.1
  | store =>
    obtain ⟨write, hactive, hnext⟩ := Option.bind_eq_some_iff.mp hstep
    obtain ⟨hstage, hnext⟩ := Option.ite_none_right_eq_some.mp hnext
    obtain rfl := Option.some.inj hnext
    exact h.store hactive hstage
  | resolve =>
    obtain ⟨write, hactive, hnext⟩ := Option.bind_eq_some_iff.mp hstep
    obtain ⟨hstage, hnext⟩ := Option.ite_none_right_eq_some.mp hnext
    obtain rfl := Option.some.inj hnext
    refine h.move hactive nofun ?_
    rw [ActiveWrite.unstored, ActiveWrite.unstored, hstage]
  | reject =>
    obtain ⟨write, hactive, hnext⟩ := Option.bind_eq_some_iff.mp hstep
    obtain ⟨hstage, hnext⟩ := Option.ite_none_right_eq_some.mp hnext
    obtain rfl := Option.some.inj hnext
    refine h.move hactive nofun ?_
    rw [ActiveWrite.unstored, ActiveWrite.unstored, hstage]
  | restore =>
    obtain ⟨write, hactive, hnext⟩ := Option.bind_eq_some_iff.mp hstep
    obtain ⟨hstage, hnext⟩ := Option.ite_none_right_eq_some.mp hnext
    obtain rfl := Option.some.inj hnext
    obtain ⟨horderly, howed⟩ := h.orderly.restore hactive hstage
    exact h.keep horderly howed id
  | settle =>
    obtain ⟨write, hactive, hnext⟩ := Option.bind_eq_some_iff.mp hstep
    obtain ⟨hstage, hnext⟩ := Option.ite_none_right_eq_some.mp hnext
    obtain rfl := Option.some.inj hnext
    obtain ⟨horderly, howed, hbarrier⟩ := h.orderly.settle hactive hstage
    exact h.keep horderly howed hbarrier
  | continueAutomatic =>
    obtain ⟨hcontinuing, hnext⟩ := Option.ite_none_right_eq_some.mp hstep
    obtain rfl := Option.some.inj hnext
    obtain ⟨horderly, howed, hbarrier⟩ := h.orderly.continueAutomatic hcontinuing
    exact h.keep horderly howed fun hnone => hbarrier.symm.trans hnone
  | resumeBarrier =>
    obtain ⟨stage, hbarrier, hnext⟩ := Option.bind_eq_some_iff.mp hstep
    obtain ⟨hresumable, hnext⟩ := Option.ite_none_right_eq_some.mp hnext
    obtain rfl := Option.some.inj hnext
    exact h.barred (h.orderly.resumeBarrier hbarrier hresumable) h.waiting

theorem sound_run {ops : List (WriteOp α)} (h : Foundation.run step fresh ops = some run) : run.Sound :=
  Foundation.run_invariant Sound (fun _ _ _ hsound hstep => hsound.step hstep) h sound_fresh

theorem Sound.awaits (h : run.Sound) {stage : BarrierStage} (hbarrier : run.writes.barrier = some stage) :
    run.writes.active ≠ none ∨ SessionWriteBehind.BarrierStage.resumable stage = true := by
  have hheld := h.orderly.held
  rw [SessionWriteBehind.Held, hbarrier] at hheld
  cases stage with
  | overlapping | writing =>
    obtain ⟨write, hactive, _⟩ := hheld
    exact .inl (hactive ▸ nofun)
  | overlapped | written | failed => exact .inr rfl

structure Lossless (run : WriteRun α) : Prop where
  /-- Stored first, then what is on its way and what is pending: all of it, once, in order. -/
  stored : run.durable ++ run.writes.owed = run.enqueued
  flushed : ∀ given ∈ run.flushed, given <+: run.durable
  going : run.writes.pending ≠ [] → run.writes.barrier = none →
    run.writes.automaticPaused = false → run.waitCancelled = false → run.writes.Going
  barred : ∀ stage, run.writes.barrier = some stage →
    run.writes.active ≠ none ∨ SessionWriteBehind.BarrierStage.resumable stage = true

/-- No run loses, doubles or reorders an event, resolves a flush too early, or strands what is
pending. -/
theorem writes_lossless {ops : List (WriteOp α)} (h : Foundation.run step fresh ops = some run) :
    run.Lossless := by
  have hsound := sound_run h
  exact ⟨hsound.content, hsound.flushed, hsound.orderly.going, fun _ hbarrier => hsound.awaits hbarrier⟩

/-- A write that fails under a flush is stored by the write that the flush starts after it. -/
def retriedRun : Option (WriteRun Nat) := Foundation.run step fresh
  [.enqueue 0, .deadline, .enqueue 1, .flush, .reject, .restore, .settle, .resumeBarrier,
    .enqueue 2, .store, .resolve, .settle, .resumeBarrier, .store, .resolve, .settle, .resumeBarrier]

theorem retriedRun_lossless : (retriedRun.get rfl).Lossless ∧
    (retriedRun.get rfl).flushed = [[0, 1]] ∧ (retriedRun.get rfl).durable = [0, 1, 2] :=
  ⟨writes_lossless (Option.some_get _).symm, rfl, rfl⟩

end WriteRun

def WriteOp.own : WriteOp α → Bool
  | .store | .resolve | .reject | .restore | .settle | .continueAutomatic | .resumeBarrier => true
  | .enqueue _ | .flush | .cancelAutomaticWait | .deadline => false

def WriteStage.left : WriteStage → Nat
  | .writing => 4
  | .stored | .rejected => 3
  | .resolved | .restored => 2

namespace SessionWriteBehind

variable (writes : SessionWriteBehind α)

def activeLeft : Nat :=
  match writes.active with
  | none => 0
  | some write => write.stage.left

def againLeft : Nat :=
  match writes.active with
  | some ⟨_, _, .rejected⟩ | some ⟨_, _, .restored⟩ => 0
  | _ => if writes.pending.isEmpty then 0 else 6

def barrierLeft : BarrierStage → Nat
  | .overlapping => 10 + writes.activeLeft
  | .overlapped => 10
  | .writing => 1 + writes.activeLeft + writes.againLeft
  | .written => 1 + writes.againLeft
  | .failed => 1

def left : Nat :=
  (match writes.barrier with
    | none => 0
    | some stage => writes.barrierLeft stage) + writes.continuing.toNat

theorem againLeft_le : writes.againLeft ≤ 6 := by
  rw [againLeft]
  split
  · exact Nat.zero_le 6
  · exact Nat.zero_le 6
  · split
    · exact Nat.zero_le 6
    · exact Nat.le_refl 6

theorem activeLeft_le : writes.activeLeft ≤ 4 := by
  rw [activeLeft]
  split
  · exact Nat.zero_le 4
  · next write _ => cases write.stage <;> decide

theorem left_le : writes.left ≤ 15 := by
  have hagain := writes.againLeft_le
  have hactive := writes.activeLeft_le
  have hcontinuing := Bool.toNat_le writes.continuing
  rw [left]
  split
  · omega
  · next stage _ =>
    cases stage <;> dsimp only [barrierLeft] <;> omega

variable {writes} {other : SessionWriteBehind α}

theorem left_of_barrier {stage : BarrierStage} (h : writes.barrier = some stage) :
    writes.left = writes.barrierLeft stage + writes.continuing.toNat := by
  rw [left, h]

theorem left_lt_of_active
    (hbarrier : writes.barrier = some .overlapping ∨ writes.barrier = some .writing)
    (hsame : other.barrier = writes.barrier) (hcontinuing : other.continuing = writes.continuing)
    (hactive : other.activeLeft < writes.activeLeft) (hagain : other.againLeft ≤ writes.againLeft) :
    other.left < writes.left := by
  rcases hbarrier with hbarrier | hbarrier
  · rw [left_of_barrier hbarrier, left_of_barrier (hsame.trans hbarrier), hcontinuing, barrierLeft,
      barrierLeft]
    omega
  · rw [left_of_barrier hbarrier, left_of_barrier (hsame.trans hbarrier), hcontinuing, barrierLeft,
      barrierLeft]
    omega

theorem Held.awaits (h : writes.Held) {stage : BarrierStage} {write : ActiveWrite α}
    (hbarrier : writes.barrier = some stage) (hactive : writes.active = some write) :
    writes.barrier = some .overlapping ∨ writes.barrier = some .writing := by
  rw [Held, hbarrier, hactive] at h
  cases stage with
  | overlapping => exact .inl hbarrier
  | writing => exact .inr hbarrier
  | overlapped | written => cases h
  | failed => cases h.1

theorem left_drain : writes.drain.1.left =
    (if writes.pending.isEmpty then 0 else 5) + writes.continuing.toNat := by
  rw [drain]
  split
  · rfl
  · rfl

end SessionWriteBehind

namespace WriteRun

variable {run next : WriteRun α}

theorem Sound.left_lt (h : run.Sound) (hbarrier : run.writes.barrier.isSome = true) {op : WriteOp α}
    (hown : op.own = true) (hstep : run.step op = some next) : next.writes.left < run.writes.left := by
  obtain ⟨stage, hbarrier⟩ := Option.isSome_iff_exists.mp hbarrier
  have hheld := h.orderly.held
  cases op with
  | enqueue | flush | cancelAutomaticWait | deadline => cases hown
  | store =>
    obtain ⟨⟨batch, background, _⟩, hactive, hnext⟩ := Option.bind_eq_some_iff.mp hstep
    obtain ⟨rfl, hnext⟩ := Option.ite_none_right_eq_some.mp hnext
    obtain rfl := Option.some.inj hnext
    refine SessionWriteBehind.left_lt_of_active (hheld.awaits hbarrier hactive) rfl rfl ?_ ?_
    · rw [SessionWriteBehind.activeLeft, SessionWriteBehind.activeLeft, hactive]
      exact Nat.lt_succ_self 3
    · rw [SessionWriteBehind.againLeft, SessionWriteBehind.againLeft, hactive]
      exact Nat.le_refl _
  | resolve =>
    obtain ⟨⟨batch, background, _⟩, hactive, hnext⟩ := Option.bind_eq_some_iff.mp hstep
    obtain ⟨rfl, hnext⟩ := Option.ite_none_right_eq_some.mp hnext
    obtain rfl := Option.some.inj hnext
    refine SessionWriteBehind.left_lt_of_active (hheld.awaits hbarrier hactive) rfl rfl ?_ ?_
    · rw [SessionWriteBehind.activeLeft, SessionWriteBehind.activeLeft, hactive]
      exact Nat.lt_succ_self 2
    · rw [SessionWriteBehind.againLeft, SessionWriteBehind.againLeft, hactive]
      exact Nat.le_refl _
  | reject =>
    obtain ⟨⟨batch, background, _⟩, hactive, hnext⟩ := Option.bind_eq_some_iff.mp hstep
    obtain ⟨rfl, hnext⟩ := Option.ite_none_right_eq_some.mp hnext
    obtain rfl := Option.some.inj hnext
    refine SessionWriteBehind.left_lt_of_active (hheld.awaits hbarrier hactive) rfl rfl ?_ ?_
    · rw [SessionWriteBehind.activeLeft, SessionWriteBehind.activeLeft, hactive]
      exact Nat.lt_succ_self 3
    · exact Nat.zero_le _
  | restore =>
    obtain ⟨⟨batch, background, _⟩, hactive, hnext⟩ := Option.bind_eq_some_iff.mp hstep
    obtain ⟨rfl, hnext⟩ := Option.ite_none_right_eq_some.mp hnext
    obtain rfl := Option.some.inj hnext
    refine SessionWriteBehind.left_lt_of_active (hheld.awaits hbarrier hactive) rfl rfl ?_ ?_
    · rw [SessionWriteBehind.activeLeft, SessionWriteBehind.activeLeft, hactive]
      exact Nat.lt_succ_self 2
    · exact Nat.zero_le _
  | settle =>
    obtain ⟨⟨batch, background, written⟩, hactive, hnext⟩ := Option.bind_eq_some_iff.mp hstep
    obtain ⟨hstage, hnext⟩ := Option.ite_none_right_eq_some.mp hnext
    obtain rfl := Option.some.inj hnext
    have hleft : run.writes.activeLeft = 2 := by
      rw [SessionWriteBehind.activeLeft, hactive]
      rcases hstage with rfl | rfl <;> rfl
    rw [SessionWriteBehind.Held, hactive] at hheld
    rcases h.orderly.held.awaits hbarrier hactive with hawaits | hawaits
    · have hafter : (run.writes.settle ⟨batch, background, written⟩).barrier = some .overlapped := by
        rw [SessionWriteBehind.settle, hawaits]
        rfl
      have hcontinuing : (run.writes.settle ⟨batch, background, written⟩).continuing.toNat ≤ 1 :=
        Bool.toNat_le _
      dsimp only
      rw [SessionWriteBehind.left_of_barrier hafter, SessionWriteBehind.left_of_barrier hawaits,
        SessionWriteBehind.barrierLeft, SessionWriteBehind.barrierLeft, hleft]
      omega
    · rw [hawaits] at hheld
      obtain ⟨_, hother, hbackground, _⟩ := hheld
      obtain rfl := Option.some.inj hother
      have hfalse : background = false := hbackground
      have hcontinuing : (run.writes.settle ⟨batch, background, written⟩).continuing =
          run.writes.continuing := by
        rw [SessionWriteBehind.settle, hfalse, Bool.false_and, Bool.or_false]
      dsimp only
      rcases hstage with rfl | rfl
      · have hagain : run.writes.againLeft = if run.writes.pending.isEmpty then 0 else 6 := by
          rw [SessionWriteBehind.againLeft, hactive]
        have hbarrier : (run.writes.settle ⟨batch, background, .resolved⟩).barrier = some .written := by
          rw [SessionWriteBehind.settle, hawaits]
          rfl
        have hafter : (run.writes.settle ⟨batch, background, .resolved⟩).againLeft =
            if run.writes.pending.isEmpty then 0 else 6 := rfl
        rw [SessionWriteBehind.left_of_barrier hbarrier, SessionWriteBehind.left_of_barrier hawaits,
          SessionWriteBehind.barrierLeft, SessionWriteBehind.barrierLeft, hcontinuing, hafter, hagain,
          hleft]
        omega
      · have hbarrier : (run.writes.settle ⟨batch, background, .restored⟩).barrier = some .failed := by
          rw [SessionWriteBehind.settle, hawaits]
          rfl
        rw [SessionWriteBehind.left_of_barrier hbarrier, SessionWriteBehind.left_of_barrier hawaits,
          SessionWriteBehind.barrierLeft, SessionWriteBehind.barrierLeft, hcontinuing, hleft]
        omega
  | continueAutomatic =>
    obtain ⟨hcontinuing, hnext⟩ := Option.ite_none_right_eq_some.mp hstep
    obtain rfl := Option.some.inj hnext
    have hskip : ({ run.writes with continuing := false } : SessionWriteBehind α).continueAutomatic =
        { run.writes with continuing := false } := by
      rw [SessionWriteBehind.continueAutomatic]
      dsimp only
      rw [hbarrier]
      rfl
    dsimp only
    rw [hskip, SessionWriteBehind.left, SessionWriteBehind.left, hcontinuing]
    exact Nat.lt_succ_self _
  | resumeBarrier =>
    obtain ⟨found, hfound, hnext⟩ := Option.bind_eq_some_iff.mp hstep
    obtain ⟨hresumable, hnext⟩ := Option.ite_none_right_eq_some.mp hnext
    obtain rfl := Option.some.inj hnext
    obtain rfl := Option.some.inj (hfound.symm.trans hbarrier)
    rw [SessionWriteBehind.Held, hbarrier] at hheld
    rw [SessionWriteBehind.left_of_barrier hbarrier]
    cases found with
    | overlapping | writing => cases hresumable
    | overlapped =>
      have hdrain : (run.barred run.waiting (run.writes.resumeBarrier .overlapped)).writes.left =
          (if run.writes.pending.isEmpty then 0 else 5) + run.writes.continuing.toNat :=
        SessionWriteBehind.left_drain
      rw [hdrain, SessionWriteBehind.barrierLeft]
      split <;> omega
    | written =>
      have hdrain : (run.barred run.waiting (run.writes.resumeBarrier .written)).writes.left =
          (if run.writes.pending.isEmpty then 0 else 5) + run.writes.continuing.toNat :=
        SessionWriteBehind.left_drain
      have hactive : run.writes.active = none := hheld
      rw [hdrain, SessionWriteBehind.barrierLeft, SessionWriteBehind.againLeft, hactive]
      dsimp only
      split <;> omega
    | failed => exact Nat.add_lt_add_right Nat.zero_lt_one run.writes.continuing.toNat

theorem own_step_of_active {write : ActiveWrite α} (h : run.writes.active = some write) :
    ∃ op : WriteOp α, op.own = true ∧ (run.step op).isSome = true := by
  obtain ⟨batch, background, stage⟩ := write
  cases stage with
  | writing =>
    refine ⟨.store, rfl, ?_⟩
    rw [step, h]
    rfl
  | stored =>
    refine ⟨.resolve, rfl, ?_⟩
    rw [step, h]
    rfl
  | rejected =>
    refine ⟨.restore, rfl, ?_⟩
    rw [step, h]
    rfl
  | resolved | restored =>
    refine ⟨.settle, rfl, ?_⟩
    rw [step, h]
    rfl

theorem Sound.length_le (h : run.Sound) {own : List (WriteOp α)}
    (hrun : Foundation.run WriteRun.step run own = some next)
    (halong : Foundation.Along WriteRun.step (fun run op => op.own = true ∧ run.writes.barrier.isSome = true)
      run own) : own.length ≤ run.writes.left := by
  induction own generalizing run with
  | nil => exact Nat.zero_le _
  | cons op own ih =>
    obtain ⟨after, hstep, hrest⟩ := Option.bind_eq_some_iff.mp hrun
    obtain ⟨⟨hown, hbarrier⟩, halong⟩ := halong
    have hleft := h.left_lt hbarrier hown hstep
    exact Nat.lt_of_le_of_lt (ih (h.step hstep) hrest (halong after hstep)) hleft

/-- A flush is answered at once or waits at the barrier. While it waits, the backend or the queue has
a step to take; and without new events they take at most fifteen before it is answered. -/
theorem flush_settles {ops : List (WriteOp α)} (h : Foundation.run step fresh ops = some run) :
    (∀ next, run.step .flush = some next →
      next.writes.barrier.isSome = true ∧ run.enqueued ∈ next.waiting ∨ run.enqueued ∈ next.flushed) ∧
    (run.writes.barrier.isSome = true → ∃ op : WriteOp α, op.own = true ∧ (run.step op).isSome = true) ∧
      ∀ own next, Foundation.run step run own = some next →
        Foundation.Along step (fun run op => op.own = true ∧ run.writes.barrier.isSome = true) run own →
          own.length ≤ 15 := by
  refine ⟨fun next hflush => ?_, fun hbarrier => ?_, fun own next hrun halong => ?_⟩
  · obtain rfl := Option.some.inj hflush
    have hmem : run.enqueued ∈ run.waiting ++ [run.enqueued] := List.mem_append_right _ List.mem_cons_self
    rcases run.writes.flush_answers with hbarrier | hresolved
    · refine .inl ⟨hbarrier, ?_⟩
      dsimp only [WriteRun.barred]
      rw [if_pos hbarrier]
      exact hmem
    · refine .inr ?_
      dsimp only [WriteRun.barred]
      rw [if_pos hresolved]
      exact List.mem_append_right _ hmem
  · obtain ⟨stage, hstage⟩ := Option.isSome_iff_exists.mp hbarrier
    rcases (sound_run h).awaits hstage with hactive | hresumable
    · obtain ⟨write, hwrite⟩ := Option.ne_none_iff_exists'.mp hactive
      exact own_step_of_active hwrite
    · refine ⟨.resumeBarrier, rfl, ?_⟩
      rw [WriteRun.step, hstage, Option.bind_some, if_pos hresumable]
      rfl
  · exact Nat.le_trans ((sound_run h).length_le hrun halong) (SessionWriteBehind.left_le _)

def waitingRun : Option (WriteRun Nat) :=
  Foundation.run step fresh [.enqueue 0, .deadline, .enqueue 1, .flush]

theorem waitingRun_settles :
    (∃ op : WriteOp Nat, op.own = true ∧ ((waitingRun.get rfl).step op).isSome = true) ∧
      ∀ own next, Foundation.run step (waitingRun.get rfl) own = some next →
        Foundation.Along step (fun run op => op.own = true ∧ run.writes.barrier.isSome = true)
          (waitingRun.get rfl) own → own.length ≤ 15 :=
  (flush_settles (Option.some_get _).symm).2.imp (fun h => h rfl) id

end WriteRun

end Harness.Persistence
