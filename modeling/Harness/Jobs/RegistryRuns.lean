import Harness.Jobs.RegistrySound
import Mathlib.Data.List.Induction
import Mathlib.Data.List.Perm.Subperm

namespace Harness.Jobs

open Harness.Foundation

structure Moves (before after : TrackedTask) : Prop where
  id : after.id = before.id
  owner : after.owner = before.owner
  forward : after.status = .running → before.status = .running
  final : before.status.isTerminal = true → after.status = before.status ∧
    after.detail = before.detail ∧ after.output = before.output ∧ after.finishedAt = before.finishedAt

theorem Moves.refl (job : TrackedTask) : Moves job job :=
  ⟨rfl, rfl, fun h => h, fun _ => ⟨rfl, rfl, rfl, rfl⟩⟩

theorem Moves.trans {a b c : TrackedTask} (hab : Moves a b) (hbc : Moves b c) : Moves a c where
  id := hbc.id.trans hab.id
  owner := hbc.owner.trans hab.owner
  forward := fun h => hab.forward (hbc.forward h)
  final := by
    intro h
    obtain ⟨hstatus, hdetail, houtput, hfinished⟩ := hab.final h
    obtain ⟨hstatus', hdetail', houtput', hfinished'⟩ := hbc.final (by rw [hstatus]; exact h)
    exact ⟨hstatus'.trans hstatus, hdetail'.trans hdetail, houtput'.trans houtput,
      hfinished'.trans hfinished⟩

theorem forall₂_refl (jobs : List TrackedTask) : List.Forall₂ Moves jobs jobs := by
  induction jobs with
  | nil => exact .nil
  | cons job jobs ih => exact .cons (.refl job) ih

theorem forall₂_trans {a b c : List TrackedTask} (hab : List.Forall₂ Moves a b)
    (hbc : List.Forall₂ Moves b c) : List.Forall₂ Moves a c := by
  induction hab generalizing c with
  | nil => exact hbc
  | cons hfirst _ ih =>
    cases hbc with
    | cons hsecond hrest => exact .cons (hfirst.trans hsecond) (ih hrest)

theorem forall₂_set {jobs : List TrackedTask} {job : Nat} {tracked next : TrackedTask}
    (hjob : jobs[job]? = some tracked) (hmoves : Moves tracked next) :
    List.Forall₂ Moves jobs (jobs.set job next) := by
  induction jobs generalizing job with
  | nil => cases hjob
  | cons first rest ih =>
    cases job with
    | zero =>
      cases hjob
      exact .cons hmoves (forall₂_refl rest)
    | succ job => exact .cons (.refl first) (ih hjob)

theorem forall₂_get {a b : List TrackedTask} (h : List.Forall₂ Moves a b) {job : Nat}
    {tracked : TrackedTask} (hjob : a[job]? = some tracked) :
    ∃ next, b[job]? = some next ∧ Moves tracked next := by
  induction h generalizing job with
  | nil => cases hjob
  | cons hfirst _ ih =>
    cases job with
    | zero =>
      cases hjob
      exact ⟨_, rfl, hfirst⟩
    | succ job => exact ih hjob

theorem forall₂_back {a b : List TrackedTask} (h : List.Forall₂ Moves a b) {job : Nat}
    {next : TrackedTask} (hjob : b[job]? = some next) :
    ∃ tracked, a[job]? = some tracked ∧ Moves tracked next := by
  induction h generalizing job with
  | nil => cases hjob
  | cons hfirst _ ih =>
    cases job with
    | zero =>
      cases hjob
      exact ⟨_, rfl, hfirst⟩
    | succ job => exact ih hjob

theorem isActive_of_moves {before after : TrackedTask} (h : Moves before after) {owner : Option Agent}
    (hactive : LocalJobRegistry.isActive owner after = true) :
    LocalJobRegistry.isActive owner before = true := by
  unfold LocalJobRegistry.isActive at hactive ⊢
  rw [Bool.and_eq_true, decide_eq_true_iff] at hactive ⊢
  refine ⟨h.owner.symm.trans hactive.1, ?_⟩
  cases hterminal : before.status.isTerminal with
  | false => rfl
  | true =>
    have hstatus := (h.final hterminal).1
    rw [hstatus, hterminal] at hactive
    cases hactive.2

theorem countP_moves {a b : List TrackedTask} (h : List.Forall₂ Moves a b) (owner : Option Agent) :
    b.countP (LocalJobRegistry.isActive owner) ≤ a.countP (LocalJobRegistry.isActive owner) := by
  induction h with
  | nil => exact le_rfl
  | cons hfirst _ ih =>
    rw [List.countP_cons, List.countP_cons]
    split
    · rename_i hactive
      rw [if_pos (isActive_of_moves hfirst hactive)]
      exact Nat.add_le_add_right ih 1
    · exact Nat.le_add_right_of_le ih

structure Touched (state after : LocalJobRegistry) : Prop where
  limit : after.maxConcurrentJobsPerOwner = state.maxConcurrentJobsPerOwner
  store : after.store = state.store
  counters : after.counters = state.counters
  listeners : after.listeners = state.listeners
  nextListener : after.nextListener = state.nextListener
  closed : after.listenersClosed = state.listenersClosed
  cleanups : after.ownerCleanups = state.ownerCleanups
  unloading : after.unloading = state.unloading
  starting : after.starting = state.starting
  disposals : after.disposals = state.disposals
  moves : List.Forall₂ Moves state.jobs after.jobs
  log : ∃ added, after.log = state.log ++ added

theorem touched_with (state : LocalJobRegistry) {jobs : List TrackedTask} {waits : List Wait}
    {log added : List JobEvent} (hmoves : List.Forall₂ Moves state.jobs jobs)
    (hlog : log = state.log ++ added) :
    Touched state { state with jobs := jobs, waits := waits, log := log } :=
  ⟨rfl, rfl, rfl, rfl, rfl, rfl, rfl, rfl, rfl, rfl, hmoves, added, hlog⟩

theorem Touched.refl (state : LocalJobRegistry) : Touched state state :=
  touched_with state (forall₂_refl _) (List.append_nil _).symm

theorem Touched.trans {a b c : LocalJobRegistry} (hab : Touched a b) (hbc : Touched b c) :
    Touched a c where
  limit := hbc.limit.trans hab.limit
  store := hbc.store.trans hab.store
  counters := hbc.counters.trans hab.counters
  listeners := hbc.listeners.trans hab.listeners
  nextListener := hbc.nextListener.trans hab.nextListener
  closed := hbc.closed.trans hab.closed
  cleanups := hbc.cleanups.trans hab.cleanups
  unloading := hbc.unloading.trans hab.unloading
  starting := hbc.starting.trans hab.starting
  disposals := hbc.disposals.trans hab.disposals
  moves := forall₂_trans hab.moves hbc.moves
  log := by
    obtain ⟨first, hfirst⟩ := hab.log
    obtain ⟨second, hsecond⟩ := hbc.log
    exact ⟨first ++ second, by rw [hsecond, hfirst, List.append_assoc]⟩

structure Listening (state : LocalJobRegistry) : Prop where
  nodup : (state.listeners.map (·.id)).Nodup
  drawn : ∀ listener ∈ state.listeners, listener.id < state.nextListener

theorem Listening.of_eq {state after : LocalJobRegistry} (h : Listening state)
    (hlisteners : after.listeners = state.listeners) (hnext : after.nextListener = state.nextListener) :
    Listening after :=
  ⟨by rw [hlisteners]; exact h.nodup, by rw [hlisteners, hnext]; exact h.drawn⟩

theorem Listening.nodup_listenersFor {state : LocalJobRegistry} (h : Listening state)
    (owner : Option Agent) : ((state.listenersFor owner).map (·.id)).Nodup := by
  have hnodup : state.listeners.Nodup := h.nodup.of_map _
  have hmem : ∀ listener ∈ state.listenersFor owner, listener ∈ state.listeners := by
    intro listener hlistener
    rcases List.mem_append.mp hlistener with hglobal | hscoped
    · exact (List.mem_filter.mp hglobal).1
    · obtain ⟨scope, -, hin⟩ := List.mem_flatMap.mp hscoped
      exact (List.mem_filter.mp hin).1
  have hscopes : (owner.elim [] (·.scopes)).Nodup := by
    cases owner with
    | none => exact List.nodup_nil
    | some agent => exact agent.nodup
  have hall : (state.listenersFor owner).Nodup := by
    unfold LocalJobRegistry.listenersFor
    rw [List.nodup_append]
    refine ⟨hnodup.filter _, List.nodup_flatMap.mpr ⟨fun scope _ => hnodup.filter _, ?_⟩, ?_⟩
    · apply hscopes.imp
      intro first second hne listener hfirst hsecond
      have hone := of_decide_eq_true (List.mem_filter.mp hfirst).2
      have htwo := of_decide_eq_true (List.mem_filter.mp hsecond).2
      exact hne (Option.some.inj (hone.symm.trans htwo))
    · intro first hfirst second hsecond heq
      have hglobal := of_decide_eq_true (List.mem_filter.mp hfirst).2
      obtain ⟨scope, -, hin⟩ := List.mem_flatMap.mp hsecond
      have hscoped := of_decide_eq_true (List.mem_filter.mp hin).2
      rw [heq, hscoped] at hglobal
      cases hglobal
  apply hall.map_on
  intro first hfirst second hsecond heq
  exact List.inj_on_of_nodup_map h.nodup (hmem first hfirst) (hmem second hsecond) heq

namespace LocalJobRegistry

variable (state : LocalJobRegistry)

def Coherent : Prop := Kept state.jobs state.waits state.log ∧ Listening state

theorem fresh_coherent (limit : Nat) : Coherent (.fresh limit) :=
  ⟨kept_nil, List.nodup_nil, fun _ hmem => absurd hmem List.not_mem_nil⟩

variable {state}

theorem notices_told (listeners : List JobListener) (job : Nat) (snapshot : JobSnapshot) :
    notices (listeners.map fun listener => JobEvent.told listener.id job snapshot) =
      (listeners.map (·.id)).map fun listener => (listener, job) := by
  induction listeners with
  | nil => rfl
  | cons listener listeners ih =>
    rw [List.map_cons, List.map_cons, List.map_cons, ← ih]
    rfl

theorem quiet_told (listeners : List JobListener) (job : Nat) (snapshot : JobSnapshot) :
    claims (listeners.map fun listener => JobEvent.told listener.id job snapshot) = [] ∧
      settlements (listeners.map fun listener => JobEvent.told listener.id job snapshot) = [] := by
  induction listeners with
  | nil => exact ⟨rfl, rfl⟩
  | cons listener listeners ih => exact ih

theorem outcome_terminal (status : OutcomeStatus) : status.status.isTerminal = true := by
  cases status <;> rfl

theorem settle_coherent (h : Coherent state) (job : Nat) (outcome : JobOutcome) (now : Nat) :
    Coherent (state.settle job outcome now) ∧ Touched state (state.settle job outcome now) := by
  unfold settle
  split
  · exact ⟨h, .refl state⟩
  · rename_i tracked hjob
    split
    · exact ⟨h, .refl state⟩
    · rename_i hactive
      have hactive := Bool.eq_false_iff.mpr hactive
      dsimp only
      refine ⟨⟨?_, h.2.of_eq rfl rfl⟩, ?_⟩
      · split
        · exact h.1.settle hjob hactive (outcome_terminal _) rfl rfl rfl rfl rfl
            (show notices _ = ([] : List Nat).map fun listener => (listener, job) from rfl) List.nodup_nil
        · obtain ⟨hclaims, hsettlements⟩ := quiet_told (state.listenersFor tracked.owner) job _
          refine h.1.settle hjob hactive (outcome_terminal _) rfl rfl rfl ?_ ?_ ?_
            (h.2.nodup_listenersFor tracked.owner)
          · rw [claims_append, hclaims]
            rfl
          · rw [settlements_append, hsettlements]
            rfl
          · rw [notices_append, notices_told]
            rfl
      · refine touched_with state (forall₂_set hjob ⟨rfl, rfl, ?_, ?_⟩) rfl
        · intro hrunning
          have hterminal := outcome_terminal outcome.status
          rw [show outcome.status.status = .running from hrunning] at hterminal
          cases hterminal
        · intro hterminal
          rw [hactive] at hterminal
          cases hterminal

theorem stop_coherent (h : Coherent state) {job : Nat} {tracked : TrackedTask}
    (hjob : state.jobs[job]? = some tracked) (hactive : tracked.status.isTerminal = false) :
    Coherent (state.stop job tracked) ∧ Touched state (state.stop job tracked) := by
  refine ⟨⟨h.1.claim hjob hactive rfl rfl rfl rfl rfl rfl rfl, h.2.of_eq rfl rfl⟩, ?_⟩
  refine touched_with state (forall₂_set hjob ⟨rfl, rfl, nofun, fun hterminal => ?_⟩) rfl
  rw [hactive] at hterminal
  cases hterminal

theorem tearDown_coherent (h : Coherent state) (throws : Nat → Option String) (now job : Nat) :
    Coherent (tearDown throws now state job) ∧ Touched state (tearDown throws now state job) := by
  unfold tearDown
  split
  · exact ⟨h, .refl state⟩
  · rename_i tracked hjob
    split
    · exact ⟨h, .refl state⟩
    · rename_i hactive
      have hactive := Bool.eq_false_iff.mpr hactive
      split
      · exact stop_coherent h hjob hactive
      · rename_i error _
        have hclaimed : Coherent ((state.setJob job { tracked with reported := true }).record
            [.claimed job, .cancelled job]) :=
          ⟨h.1.claim hjob hactive hactive rfl rfl rfl rfl rfl rfl, h.2.of_eq rfl rfl⟩
        have htouched : Touched state ((state.setJob job { tracked with reported := true }).record
            [.claimed job, .cancelled job]) :=
          touched_with state (forall₂_set hjob ⟨rfl, rfl, fun hrunning => hrunning,
            fun _ => ⟨rfl, rfl, rfl, rfl⟩⟩) rfl
        have hsettled := settle_coherent hclaimed job
          ⟨.failed, some s!"cancel threw during teardown; work may be orphaned: {error}", none⟩ now
        exact ⟨hsettled.1, htouched.trans hsettled.2⟩

theorem cancelForTeardown_coherent (h : Coherent state) (owned : List Nat)
    (throws : Nat → Option String) (now : Nat) :
    Coherent (state.cancelForTeardown owned throws now) ∧
      Touched state (state.cancelForTeardown owned throws now) := by
  unfold cancelForTeardown
  induction owned generalizing state with
  | nil => exact ⟨h, .refl state⟩
  | cons job owned ih =>
    obtain ⟨hfirst, htouched⟩ := tearDown_coherent h throws now job
    obtain ⟨hrest, hmore⟩ := ih hfirst
    exact ⟨hrest, htouched.trans hmore⟩

theorem access_ok {id : JobId} {caller : Option Agent} {found : Nat × TrackedTask}
    (h : state.access id caller = .ok found) :
    state.store.get? id = some found.1 ∧ state.jobs[found.1]? = some found.2 := by
  obtain ⟨job, hjob, h⟩ := bind_eq_ok.mp h
  obtain ⟨tracked, htracked, h⟩ := bind_eq_ok.mp h
  obtain ⟨_, -, h⟩ := bind_eq_ok.mp h
  cases h
  exact ⟨expect_eq_ok.mp hjob, expect_eq_ok.mp htracked⟩

theorem mark_coherent (h : Coherent state) {job : Nat} {tracked : TrackedTask} (reported : Bool)
    (hjob : state.jobs[job]? = some tracked)
    (hreported : tracked.status.isTerminal = false → reported = tracked.reported) :
    Coherent (state.setJob job { tracked with reported := reported }) ∧
      Touched state (state.setJob job { tracked with reported := reported }) := by
  refine ⟨⟨h.1.mark hjob rfl rfl rfl hreported, h.2.of_eq rfl rfl⟩, ?_⟩
  exact touched_with state (forall₂_set hjob ⟨rfl, rfl, fun hrunning => hrunning,
    fun _ => ⟨rfl, rfl, rfl, rfl⟩⟩) (List.append_nil _).symm

theorem record_coherent (h : Coherent state) {added : List JobEvent} (hadded : Kept.Neutral added) :
    Coherent (state.record added) ∧ Touched state (state.record added) :=
  ⟨⟨h.1.note hadded, h.2.of_eq rfl rfl⟩, touched_with state (forall₂_refl _) rfl⟩

theorem read_coherent (h : Coherent state) {id : JobId} {caller : Option Agent} {delta : String}
    {after : LocalJobRegistry} (hread : state.read id caller delta = .ok after) :
    Coherent after ∧ Touched state after := by
  obtain ⟨found, hfound, hread⟩ := bind_eq_ok.mp hread
  cases hread
  obtain ⟨-, hjob⟩ := access_ok hfound
  obtain ⟨hmarked, htouched⟩ := mark_coherent h (found.2.reported || found.2.status.isTerminal) hjob
    (fun hactive => by rw [hactive, Bool.or_false])
  obtain ⟨hrecorded, hmore⟩ := @record_coherent _ hmarked [.answered found.1 _ _] ⟨rfl, rfl, rfl⟩
  exact ⟨hrecorded, htouched.trans hmore⟩

theorem kill_coherent (h : Coherent state) {id : JobId} {caller : Option Agent} {throws : Bool}
    {after : LocalJobRegistry} (hkill : state.kill id caller throws = .ok after) :
    Coherent after ∧ Touched state after := by
  obtain ⟨found, hfound, hkill⟩ := bind_eq_ok.mp hkill
  obtain ⟨-, hjob⟩ := access_ok hfound
  dsimp only at hkill
  split at hkill
  · rename_i hterminal
    cases hkill
    refine mark_coherent h true hjob fun hactive => ?_
    rw [hterminal] at hactive
    cases hactive
  · rename_i hactive
    split at hkill
    · cases hkill
      exact record_coherent h ⟨rfl, rfl, rfl⟩
    · cases hkill
      exact stop_coherent h hjob (Bool.eq_false_iff.mpr hactive)

theorem wait_coherent (h : Coherent state) {id : JobId} {timeoutMs : Double} {caller : Option Agent}
    {aborted : Bool} {after : LocalJobRegistry}
    (hwait : state.wait id timeoutMs caller aborted = .ok after) :
    Coherent after ∧ Touched state after := by
  obtain ⟨found, hfound, hwait⟩ := bind_eq_ok.mp hwait
  obtain ⟨-, hjob⟩ := access_ok hfound
  dsimp only at hwait
  obtain ⟨_, -, hwait⟩ := bind_eq_ok.mp hwait
  split at hwait
  · rename_i hterminal
    cases hwait
    refine ⟨⟨h.1.attend hjob rfl rfl ?_ ?_ rfl ?_, h.2.of_eq rfl rfl⟩, ?_⟩
    · intro hactive
      rw [hterminal] at hactive
      cases hactive
    · exact fun _ => h.1.ended found.1 found.2 hjob hterminal
    · exact (List.append_nil _).symm
    · exact touched_with state (forall₂_set hjob ⟨rfl, rfl, fun hrunning => hrunning,
        fun _ => ⟨rfl, rfl, rfl, rfl⟩⟩) (List.append_nil _).symm
  · rename_i hactive
    obtain ⟨_, -, hwait⟩ := bind_eq_ok.mp hwait
    obtain ⟨_, -, hwait⟩ := bind_eq_ok.mp hwait
    cases hwait
    refine ⟨⟨h.1.attend hjob rfl rfl (fun _ => rfl) ?_ rfl rfl, h.2.of_eq rfl rfl⟩, ?_⟩
    · exact fun hterminal => absurd hterminal hactive
    · exact touched_with state (forall₂_set hjob ⟨rfl, rfl, fun hrunning => hrunning,
        fun _ => ⟨rfl, rfl, rfl, rfl⟩⟩) (List.append_nil _).symm

theorem fire_coherent (h : Coherent state) {wait : Nat} {timedOut : Bool} {after : LocalJobRegistry}
    (hfire : state.fire wait timedOut = some after) : Coherent after ∧ Touched state after := by
  obtain ⟨record, hrecord, hfire⟩ := Option.bind_eq_some_iff.mp hfire
  obtain ⟨tracked, hjob, hfire⟩ := Option.bind_eq_some_iff.mp hfire
  split at hfire
  · rename_i hpending
    cases hfire
    refine ⟨⟨h.1.progress hrecord hjob rfl (fun _ => rfl) ?_ ?_ ?_ ?_ ?_, h.2.of_eq rfl rfl⟩, ?_⟩
    · intro other
      simp
    · split <;> exact nofun
    · cases timedOut with
      | true => exact .inl ⟨by rw [hpending]; rfl, rfl⟩
      | false => exact .inr ⟨rfl, by rw [hpending]; rfl, rfl⟩
    · intro hresolved
      rw [hpending] at hresolved
      cases hresolved
    · rw [hpending]
      exact nofun
    · exact touched_with state (forall₂_set hjob ⟨rfl, rfl, fun hrunning => hrunning,
        fun _ => ⟨rfl, rfl, rfl, rfl⟩⟩) (List.append_nil _).symm
  · cases hfire

theorem continueWait_coherent (h : Coherent state) {wait : Nat} {after : LocalJobRegistry}
    (hcontinue : state.continueWait wait = some after) : Coherent after ∧ Touched state after := by
  obtain ⟨record, hrecord, hcontinue⟩ := Option.bind_eq_some_iff.mp hcontinue
  obtain ⟨tracked, hjob, hcontinue⟩ := Option.bind_eq_some_iff.mp hcontinue
  have hout : ∀ other, record.phase ≠ .pending →
      (other ∈ tracked.waitResolvers ↔ other ∈ tracked.waitResolvers ∧ other ≠ wait) := by
    intro other hphase
    refine ⟨fun hmem => ⟨hmem, ?_⟩, fun hboth => hboth.1⟩
    rintro rfl
    obtain ⟨same, hsame, -, hpending⟩ := ((h.1.attended _ _ hjob).resolvers other).mp hmem
    rw [hrecord] at hsame
    cases hsame
    exact hphase hpending
  split at hcontinue
  · rename_i hresolved
    cases hcontinue
    refine ⟨⟨h.1.progress hrecord hjob rfl ?_ ?_ nofun ?_ ?_ ?_, h.2.of_eq rfl rfl⟩, ?_⟩
    · intro hactive
      dsimp only
      rw [hactive, Bool.or_false]
    · exact fun other => hout other (by rw [hresolved]; exact nofun)
    · exact .inr ⟨rfl, by rw [hresolved]; rfl, rfl⟩
    · exact fun _ => ⟨_, rfl, rfl⟩
    · rw [hresolved]
      exact nofun
    · exact touched_with state (forall₂_set hjob ⟨rfl, rfl, fun hrunning => hrunning,
        fun _ => ⟨rfl, rfl, rfl, rfl⟩⟩) (List.append_nil _).symm
  · rename_i haborted
    cases hcontinue
    have hprogress : Kept (state.jobs.set record.job tracked)
        (state.waits.set wait { record with phase := .rejected }) state.log :=
      h.1.progress hrecord hjob rfl (fun _ => rfl)
        (fun other => hout other (by rw [haborted]; exact nofun)) nofun
        (.inl ⟨by rw [haborted]; rfl, rfl⟩) (by rw [haborted]; exact nofun)
        (by rw [haborted]; exact nofun)
    have hself : state.jobs.set record.job tracked = state.jobs := by
      obtain ⟨hlt, heq⟩ := List.getElem?_eq_some_iff.mp hjob
      rw [← heq, List.set_getElem_self]
    rw [hself] at hprogress
    exact ⟨⟨hprogress, h.2.of_eq rfl rfl⟩,
      touched_with state (forall₂_refl _) (List.append_nil _).symm⟩
  · cases hcontinue

end LocalJobRegistry

/-- A job that a disposal covers: found by it or long gone, and cancelled or long ended. -/
structure Covered (state : LocalJobRegistry) (disposal : Disposal) (job : Nat) (tracked : TrackedTask) :
    Prop where
  stopped : job ∈ disposal.finished ∨ job ∈ cancels state.log
  found : job ∈ disposal.owned ∨
    (tracked.status.isTerminal = true ∧ ∀ id, state.store.get? id ≠ some job)
  gone : disposal.done = true →
    tracked.status.isTerminal = true ∧ ∀ id, state.store.get? id ≠ some job

def Closing (state : LocalJobRegistry) : Target → Prop
  | .owner agent => agent ∈ state.unloading ∧ agent ∉ state.ownerCleanups
  | .service => state.listenersClosed = true

theorem Closing.mono {state after : LocalJobRegistry} {target : Target} (h : Closing state target)
    (hunloading : after.unloading = state.unloading)
    (hcleanups : ∀ agent ∈ after.ownerCleanups, agent ∈ state.ownerCleanups)
    (hclosed : state.listenersClosed = true → after.listenersClosed = true) : Closing after target := by
  cases target with
  | owner agent => exact ⟨by rw [hunloading]; exact h.1, fun hmem => h.2 (hcleanups agent hmem)⟩
  | service => exact hclosed h

structure Housed (state : LocalJobRegistry) : Prop where
  indexed : ∀ id job, state.store.get? id = some job →
    ∃ tracked, state.jobs[job]? = some tracked ∧ tracked.id = id
  active : ∀ (job : Nat) (tracked : TrackedTask), state.jobs[job]? = some tracked →
    tracked.status.isTerminal = false → state.store.get? tracked.id = some job
  numbered : ∀ (job : Nat) (tracked : TrackedTask), state.jobs[job]? = some tracked →
    tracked.id.count ≤ state.counters tracked.id.kind
  bounded : ∀ owner,
    state.jobs.countP (LocalJobRegistry.isActive owner) ≤ state.maxConcurrentJobsPerOwner
  cleanups : ∀ spec ∈ state.starting, ∀ owner, spec.owner = some owner → owner ∈ state.ownerCleanups
  closing : ∀ disposal ∈ state.disposals, Closing state disposal.target
  covered : ∀ disposal ∈ state.disposals, ∀ (job : Nat) (tracked : TrackedTask),
    state.jobs[job]? = some tracked → disposal.target.covers tracked = true →
      Covered state disposal job tracked

theorem fresh_housed (limit : Nat) : Housed (.fresh limit) where
  indexed := fun _ _ hget => by cases hget
  active := fun _ _ hget => by cases hget
  numbered := fun _ _ hget => by cases hget
  bounded := fun _ => Nat.zero_le _
  cleanups := fun _ hmem => absurd hmem List.not_mem_nil
  closing := fun _ hmem => absurd hmem List.not_mem_nil
  covered := fun _ hmem => absurd hmem List.not_mem_nil

theorem covers_moves {before after : TrackedTask} (h : Moves before after) (target : Target) :
    target.covers after = target.covers before := by
  cases target with
  | owner agent => exact decide_eq_decide.mpr (by rw [h.owner])
  | service => rfl

theorem terminal_moves {before after : TrackedTask} (h : Moves before after)
    (hterminal : before.status.isTerminal = true) : after.status.isTerminal = true := by
  rw [(h.final hterminal).1]
  exact hterminal

theorem active_moves {before after : TrackedTask} (h : Moves before after)
    (hactive : after.status.isTerminal = false) : before.status.isTerminal = false := by
  cases hterminal : before.status.isTerminal with
  | false => rfl
  | true =>
    rw [terminal_moves h hterminal] at hactive
    cases hactive

namespace Housed

variable {state after : LocalJobRegistry}

theorem touched (h : Housed state) (ht : Touched state after) : Housed after where
  indexed := by
    rw [ht.store]
    intro id job hget
    obtain ⟨tracked, htracked, hid⟩ := h.indexed id job hget
    obtain ⟨next, hnext, hmoves⟩ := forall₂_get ht.moves htracked
    exact ⟨next, hnext, hmoves.id.trans hid⟩
  active := by
    intro job next hnext hactive
    obtain ⟨tracked, htracked, hmoves⟩ := forall₂_back ht.moves hnext
    rw [ht.store, hmoves.id]
    exact h.active job tracked htracked (active_moves hmoves hactive)
  numbered := by
    intro job next hnext
    obtain ⟨tracked, htracked, hmoves⟩ := forall₂_back ht.moves hnext
    rw [ht.counters, hmoves.id]
    exact h.numbered job tracked htracked
  bounded := by
    intro owner
    rw [ht.limit]
    exact (countP_moves ht.moves owner).trans (h.bounded owner)
  cleanups := by
    rw [ht.starting, ht.cleanups]
    exact h.cleanups
  closing := by
    rw [ht.disposals]
    intro disposal hmem
    refine (h.closing disposal hmem).mono ht.unloading ?_ fun hclosed => ht.closed.trans hclosed
    rw [ht.cleanups]
    exact fun _ hin => hin
  covered := by
    rw [ht.disposals]
    intro disposal hmem job next hnext hcovers
    obtain ⟨tracked, htracked, hmoves⟩ := forall₂_back ht.moves hnext
    rw [covers_moves hmoves] at hcovers
    obtain ⟨hstopped, hfound, hgone⟩ := h.covered disposal hmem job tracked htracked hcovers
    obtain ⟨added, hlog⟩ := ht.log
    refine ⟨hstopped.imp_right fun hin => ?_, hfound.imp_right fun hboth => ?_, fun hdone => ?_⟩
    · rw [hlog, cancels_append]
      exact List.mem_append_left _ hin
    · rw [ht.store]
      exact ⟨terminal_moves hmoves hboth.1, hboth.2⟩
    · rw [ht.store]
      exact ⟨terminal_moves hmoves (hgone hdone).1, (hgone hdone).2⟩

theorem countP_eq_range (jobs : List TrackedTask) (p : TrackedTask → Bool) :
    jobs.countP p = ((List.range jobs.length).filter fun job => (jobs[job]?).any p).length := by
  induction jobs using List.reverseRecOn with
  | nil => rfl
  | append_singleton jobs last ih =>
    rw [List.countP_append, ih, List.length_append, List.length_singleton, List.range_succ,
      List.filter_append, List.length_append]
    have hfront : (List.range jobs.length).filter (fun job => ((jobs ++ [last])[job]?).any p) =
        (List.range jobs.length).filter fun job => (jobs[job]?).any p := by
      apply List.filter_congr
      intro job hjob
      rw [List.getElem?_append_left (List.mem_range.mp hjob)]
    have hback : ((jobs ++ [last])[jobs.length]?).any p = p last := by
      rw [List.getElem?_append_right le_rfl, Nat.sub_self]
      rfl
    rw [hfront, List.filter_singleton, hback]
    cases hlast : p last <;> simp [hlast]

theorem count_le (h : Housed state) (owner : Option Agent) :
    state.jobs.countP (LocalJobRegistry.isActive owner) ≤ state.activeTaskCount owner := by
  rw [countP_eq_range, LocalJobRegistry.activeTaskCount, List.countP_eq_length_filter]
  apply List.Subperm.length_le
  apply List.Nodup.subperm (List.nodup_range.filter _)
  intro job hjob
  obtain ⟨-, hany⟩ := List.mem_filter.mp hjob
  refine List.mem_filter.mpr ⟨?_, hany⟩
  cases htracked : state.jobs[job]? with
  | none =>
    rw [htracked] at hany
    cases hany
  | some tracked =>
    rw [htracked, Option.any_some, LocalJobRegistry.isActive, Bool.and_eq_true,
      Bool.not_eq_true'] at hany
    exact OrderedMap.mem_values_iff.mpr ⟨_, h.active job tracked htracked hany.2⟩

theorem register (h : Housed state) {spec : JobStart} {streams : Bool} {now : Nat}
    (hroom : state.activeTaskCount spec.owner < state.maxConcurrentJobsPerOwner)
    (hopen : state.listenersClosed = false)
    (hcleanup : ∀ owner, spec.owner = some owner → owner ∈ state.ownerCleanups) :
    Housed (state.register spec streams now) := by
  have hfresh : (⟨spec.kind, state.counters spec.kind + 1⟩ : JobId) ∉ state.store.keys := by
    intro hmem
    obtain ⟨job, hget⟩ := OrderedMap.get?_of_mem_keys hmem
    obtain ⟨tracked, htracked, hid⟩ := h.indexed _ job hget
    have hnumbered := h.numbered job tracked htracked
    rw [hid] at hnumbered
    exact absurd hnumbered (Nat.not_succ_le_self _)
  have hstore : ∀ id, (state.register spec streams now).store.get? id =
      if id = ⟨spec.kind, state.counters spec.kind + 1⟩ then some state.jobs.length
      else state.store.get? id :=
    fun id => OrderedMap.get?_set_new hfresh _ id
  have hlength : ∀ {job : Nat} {tracked : TrackedTask}, state.jobs[job]? = some tracked →
      job ≠ state.jobs.length :=
    fun hget => (List.getElem?_eq_some_iff.mp hget).1.ne
  have hlost : ∀ {job : Nat} {tracked : TrackedTask}, state.jobs[job]? = some tracked →
      (∀ id, state.store.get? id ≠ some job) →
      ∀ id, (state.register spec streams now).store.get? id ≠ some job := by
    intro job tracked hget hnone id
    rw [hstore]
    split
    · intro heq
      exact hlength hget (Option.some.inj heq).symm
    · exact hnone id
  refine ⟨?_, ?_, ?_, ?_, h.cleanups, h.closing, ?_⟩
  · intro id job hget
    rw [hstore] at hget
    split at hget
    · rename_i heq
      cases hget
      have hnew : (state.register spec streams now).jobs[state.jobs.length]? =
          some ⟨⟨spec.kind, state.counters spec.kind + 1⟩, spec.kind, spec.label,
            spec.outputLimitBytes, spec.owner, streams, .running, none, none, now, none, false, 0, []⟩ := by
        unfold LocalJobRegistry.register
        dsimp only
        rw [List.getElem?_append_right le_rfl, Nat.sub_self]
        rfl
      exact ⟨_, hnew, heq.symm⟩
    · obtain ⟨tracked, htracked, hid⟩ := h.indexed id job hget
      exact ⟨tracked, (List.getElem?_append_left (List.getElem?_eq_some_iff.mp htracked).1).trans
        htracked, hid⟩
  · intro job tracked hget hactive
    rw [hstore]
    rcases getElem?_snoc hget with hold | ⟨rfl, rfl⟩
    · split
      · rename_i heq
        have hnumbered := h.numbered job tracked hold
        rw [heq] at hnumbered
        exact absurd hnumbered (Nat.not_succ_le_self _)
      · exact h.active job tracked hold hactive
    · rw [if_pos rfl]
  · intro job tracked hget
    unfold LocalJobRegistry.register
    dsimp only
    rcases getElem?_snoc hget with hold | ⟨rfl, rfl⟩
    · have hnumbered := h.numbered job tracked hold
      split
      · rename_i heq
        rw [heq] at hnumbered
        exact Nat.le_succ_of_le hnumbered
      · exact hnumbered
    · rw [if_pos rfl]
  · intro owner
    unfold LocalJobRegistry.register
    dsimp only
    rw [List.countP_append]
    by_cases howner : spec.owner = owner
    · subst howner
      have hcount := h.count_le spec.owner
      have hone := @List.countP_le_length _ (LocalJobRegistry.isActive spec.owner)
        [⟨⟨spec.kind, state.counters spec.kind + 1⟩, spec.kind, spec.label, spec.outputLimitBytes,
          spec.owner, streams, .running, none, none, now, none, false, 0, []⟩]
      rw [List.length_singleton] at hone
      omega
    · rw [List.countP_singleton, LocalJobRegistry.isActive, decide_eq_false howner, Bool.false_and,
        if_neg Bool.false_ne_true, Nat.add_zero]
      exact h.bounded owner
  · intro disposal hmem job tracked hget hcovers
    rcases getElem?_snoc hget with hold | ⟨rfl, rfl⟩
    · obtain ⟨hstopped, hfound, hgone⟩ := h.covered disposal hmem job tracked hold hcovers
      refine ⟨hstopped.imp_right fun hin => ?_, hfound.imp_right fun hboth => ?_, fun hdone => ?_⟩
      · unfold LocalJobRegistry.register
        dsimp only
        rw [cancels_append]
        exact List.mem_append_left _ hin
      · exact ⟨hboth.1, hlost hold hboth.2⟩
      · exact ⟨(hgone hdone).1, hlost hold (hgone hdone).2⟩
    · have hclosing := h.closing disposal hmem
      cases htarget : disposal.target with
      | owner agent =>
        rw [htarget] at hclosing hcovers
        exact absurd (hcleanup agent (of_decide_eq_true hcovers)) hclosing.2
      | service =>
        rw [htarget] at hclosing
        rw [show state.listenersClosed = true from hclosing] at hopen
        cases hopen

theorem detach (h : Housed state) (hstarting : state.starting = []) {cleanups : List Agent}
    (hcleanups : ∀ agent ∈ cleanups, agent ∈ state.ownerCleanups) (closed : Bool)
    (hclosed : state.listenersClosed = true → closed = true) :
    Housed { state with ownerCleanups := cleanups, listenersClosed := closed } where
  indexed := h.indexed
  active := h.active
  numbered := h.numbered
  bounded := h.bounded
  cleanups := by
    intro spec hmem
    rw [show state.starting = [] from hstarting] at hmem
    exact absurd hmem List.not_mem_nil
  closing := by
    intro disposal hmem
    exact (h.closing disposal hmem).mono rfl hcleanups hclosed
  covered := fun disposal hmem job tracked hget hcovers =>
    let hold := h.covered disposal hmem job tracked hget hcovers
    ⟨hold.stopped, hold.found, hold.gone⟩

theorem relisten (h : Housed state) (listeners : List JobListener) (next : Nat) :
    Housed { state with listeners := listeners, nextListener := next } where
  indexed := h.indexed
  active := h.active
  numbered := h.numbered
  bounded := h.bounded
  cleanups := h.cleanups
  closing := fun disposal hmem =>
    (h.closing disposal hmem).mono rfl (fun _ hin => hin) fun hclosed => hclosed
  covered := fun disposal hmem job tracked hget hcovers =>
    let hold := h.covered disposal hmem job tracked hget hcovers
    ⟨hold.stopped, hold.found, hold.gone⟩

theorem unload (h : Housed state) (agent : Agent) :
    Housed { state with unloading := agent :: state.unloading } where
  indexed := h.indexed
  active := h.active
  numbered := h.numbered
  bounded := h.bounded
  cleanups := h.cleanups
  closing := by
    intro disposal hmem
    have hclosing := h.closing disposal hmem
    cases htarget : disposal.target with
    | owner other =>
      rw [htarget] at hclosing
      exact ⟨List.mem_cons_of_mem agent hclosing.1, hclosing.2⟩
    | service =>
      rw [htarget] at hclosing
      exact hclosing
  covered := fun disposal hmem job tracked hget hcovers =>
    let hold := h.covered disposal hmem job tracked hget hcovers
    ⟨hold.stopped, hold.found, hold.gone⟩

end Housed

namespace LocalJobRegistry

variable {state : LocalJobRegistry}

theorem tearDown_other (throws : Nat → Option String) (now : Nat) {job other : Nat}
    (hne : other ≠ job) : (tearDown throws now state job).jobs[other]? = state.jobs[other]? := by
  unfold tearDown
  split
  · rfl
  · split
    · rfl
    · split
      · exact List.getElem?_set_ne (Ne.symm hne)
      · unfold settle
        split
        · exact List.getElem?_set_ne (Ne.symm hne)
        · split
          · exact List.getElem?_set_ne (Ne.symm hne)
          · exact (List.getElem?_set_ne (Ne.symm hne)).trans (List.getElem?_set_ne (Ne.symm hne))

theorem settle_log (state : LocalJobRegistry) (job : Nat) (outcome : JobOutcome) (now : Nat) :
    ∃ added, (state.settle job outcome now).log = state.log ++ added := by
  unfold settle
  split
  · exact ⟨[], (List.append_nil _).symm⟩
  · split
    · exact ⟨[], (List.append_nil _).symm⟩
    · exact ⟨_, rfl⟩

theorem tearDown_cancels (throws : Nat → Option String) (now : Nat) {job : Nat} {tracked : TrackedTask}
    (hjob : state.jobs[job]? = some tracked) (hactive : tracked.status.isTerminal = false) :
    job ∈ cancels (tearDown throws now state job).log := by
  unfold tearDown
  rw [hjob]
  dsimp only
  rw [hactive, if_neg Bool.false_ne_true]
  split
  · rw [stop, record, cancels_append]
    exact List.mem_append_right _ (List.mem_cons_self ..)
  · obtain ⟨added, hlog⟩ := settle_log ((state.setJob job { tracked with reported := true }).record
      [.claimed job, .cancelled job]) job _ now
    rw [hlog, cancels_append, record, cancels_append]
    exact List.mem_append_left _ (List.mem_append_right _ (List.mem_cons_self ..))

theorem cancelForTeardown_cancels (h : Coherent state) (owned : List Nat)
    (throws : Nat → Option String) (now : Nat) {job : Nat} (hmem : job ∈ owned)
    {tracked : TrackedTask} (hjob : state.jobs[job]? = some tracked)
    (hactive : tracked.status.isTerminal = false) :
    job ∈ cancels (state.cancelForTeardown owned throws now).log := by
  induction owned generalizing state with
  | nil => cases hmem
  | cons first owned ih =>
    obtain ⟨hfirst, -⟩ := tearDown_coherent h throws now first
    have hfold : state.cancelForTeardown (first :: owned) throws now =
        (tearDown throws now state first).cancelForTeardown owned throws now := rfl
    rw [hfold]
    by_cases heq : job = first
    · subst heq
      obtain ⟨added, hlog⟩ := (cancelForTeardown_coherent hfirst owned throws now).2.log
      rw [hlog, cancels_append]
      exact List.mem_append_left _ (tearDown_cancels throws now hjob hactive)
    · have hrest : job ∈ owned := (List.mem_cons.mp hmem).resolve_left heq
      exact ih hfirst hrest ((tearDown_other throws now heq).trans hjob)

theorem beginDisposal_kept (h : Coherent state) (hhoused : Housed state) {target : Target}
    (hclosing : Closing state target) (throws : Nat → Option String) (now : Nat) :
    Coherent (state.beginDisposal target throws now) ∧
      Housed (state.beginDisposal target throws now) ∧
        (state.beginDisposal target throws now).maxConcurrentJobsPerOwner =
            state.maxConcurrentJobsPerOwner ∧
          List.Forall₂ Moves state.jobs (state.beginDisposal target throws now).jobs := by
  unfold beginDisposal
  dsimp only
  generalize howned : state.store.values.filter
    (fun job => (state.jobs[job]?).any target.covers) = owned
  obtain ⟨hcoherent, htouched⟩ := cancelForTeardown_coherent h owned throws now
  have hcancelled := hhoused.touched htouched
  refine ⟨⟨hcoherent.1, hcoherent.2.of_eq rfl rfl⟩, ⟨hcancelled.indexed, hcancelled.active,
    hcancelled.numbered, hcancelled.bounded, hcancelled.cleanups, ?_, ?_⟩,
    htouched.limit, htouched.moves⟩
  · intro disposal hmem
    rcases List.mem_append.mp hmem with hold | hnew
    · exact (hcancelled.closing disposal hold).mono rfl (fun _ hin => hin) (fun hclosed => hclosed)
    · cases List.mem_singleton.mp hnew
      refine hclosing.mono htouched.unloading ?_ fun hclosed => htouched.closed.trans hclosed
      dsimp only
      rw [htouched.cleanups]
      exact fun _ hin => hin
  · intro disposal hmem job next hnext hcovers
    rcases List.mem_append.mp hmem with hold | hnew
    · have hkept := hcancelled.covered disposal hold job next hnext hcovers
      exact ⟨hkept.stopped, hkept.found, hkept.gone⟩
    · cases List.mem_singleton.mp hnew
      obtain ⟨tracked, htracked, hmoves⟩ := forall₂_back htouched.moves hnext
      rw [covers_moves hmoves] at hcovers
      have hfound : ∀ id, state.store.get? id = some job → job ∈ owned := by
        intro id hget
        rw [← howned]
        refine List.mem_filter.mpr ⟨OrderedMap.mem_values_iff.mpr ⟨id, hget⟩, ?_⟩
        rw [htracked]
        exact hcovers
      cases hterminal : tracked.status.isTerminal with
      | true =>
        refine ⟨.inl ?_, ?_, nofun⟩
        · refine List.mem_filter.mpr
            ⟨List.mem_range.mpr (List.getElem?_eq_some_iff.mp htracked).1, ?_⟩
          rw [htracked, Option.any_some, hcovers, hterminal]
          rfl
        · by_cases hstore : ∃ id, state.store.get? id = some job
          · obtain ⟨id, hget⟩ := hstore
            exact .inl (hfound id hget)
          · refine .inr ⟨terminal_moves hmoves hterminal, fun id hget => hstore ⟨id, ?_⟩⟩
            have hget : (state.cancelForTeardown owned throws now).store.get? id = some job := hget
            rwa [htouched.store] at hget
      | false =>
        have hin := hfound _ (hhoused.active job tracked htracked hterminal)
        exact ⟨.inr (cancelForTeardown_cancels h owned throws now hin htracked hterminal), .inl hin,
          nofun⟩

theorem finishDisposal_kept (h : Coherent state) (hhoused : Housed state)
    (hstarting : state.starting = []) {index : Nat} {disposal : Disposal}
    (hget : state.disposals[index]? = some disposal)
    (hsettled : state.allSettled disposal.owned = true) :
    Coherent (state.finishDisposal index disposal) ∧
      Housed (state.finishDisposal index disposal) ∧
        (state.finishDisposal index disposal).maxConcurrentJobsPerOwner =
            state.maxConcurrentJobsPerOwner ∧
          (state.finishDisposal index disposal).jobs = state.jobs := by
  have hmem : disposal ∈ state.disposals := List.mem_of_getElem? hget
  obtain ⟨target, owned, finished, done⟩ := disposal
  have hended : ∀ {job : Nat} {tracked : TrackedTask}, job ∈ owned →
      state.jobs[job]? = some tracked → tracked.status.isTerminal = true := by
    intro job tracked hin htracked
    have hall := List.all_eq_true.mp hsettled job hin
    rw [htracked] at hall
    exact hall
  have hquiet : ∀ owners : List (Option Agent), Kept.Neutral (owners.map JobEvent.changed) := by
    intro owners
    induction owners with
    | nil => exact ⟨rfl, rfl, rfl⟩
    | cons owner owners ih => exact ⟨ih.claims, ih.settlements, ih.notices⟩
  have hcases : ∀ {other : Disposal}, other ∈ state.disposals.set index ⟨target, owned, finished, true⟩ →
      other ∈ state.disposals ∨ other = ⟨target, owned, finished, true⟩ :=
    fun hother => List.mem_or_eq_of_mem_set hother
  unfold finishDisposal
  cases target with
  | owner agent =>
    dsimp only
    have hstore : ∀ id job, (state.store.filter fun _ job => decide (job ∉ owned)).get? id =
        some job ↔ state.store.get? id = some job ∧ job ∉ owned := by
      intro id job
      rw [OrderedMap.get?_filter, Option.filter_eq_some_iff, decide_eq_true_iff]
    refine ⟨⟨h.1.note ?_, h.2.of_eq rfl rfl⟩, ⟨?_, ?_, hhoused.numbered, hhoused.bounded,
      hhoused.cleanups, ?_, ?_⟩, rfl, rfl⟩
    · split
      · exact hquiet []
      · exact hquiet [some agent]
    · intro id job hfound
      exact hhoused.indexed id job ((hstore id job).mp hfound).1
    · intro job tracked htracked hactive
      refine (hstore _ job).mpr ⟨hhoused.active job tracked htracked hactive, fun hin => ?_⟩
      rw [hended hin htracked] at hactive
      cases hactive
    · intro other hother
      rcases hcases hother with hold | rfl
      · exact (hhoused.closing other hold).mono rfl (fun _ hin => hin) fun hclosed => hclosed
      · exact (hhoused.closing _ hmem).mono rfl (fun _ hin => hin) fun hclosed => hclosed
    · intro other hother job tracked htracked hcovers
      have hlog : ∀ {added}, job ∈ cancels state.log → job ∈ cancels (state.log ++ added) := by
        intro added hin
        rw [cancels_append]
        exact List.mem_append_left _ hin
      rcases hcases hother with hold | rfl
      · obtain ⟨hstopped, hfound, hgone⟩ := hhoused.covered other hold job tracked htracked hcovers
        exact ⟨hstopped.imp_right hlog,
          hfound.imp_right fun hboth => ⟨hboth.1, fun id hin => hboth.2 id ((hstore id job).mp hin).1⟩,
          fun hdone => ⟨(hgone hdone).1, fun id hin => (hgone hdone).2 id ((hstore id job).mp hin).1⟩⟩
      · obtain ⟨hstopped, hfound, -⟩ := hhoused.covered _ hmem job tracked htracked hcovers
        have hout : tracked.status.isTerminal = true ∧
            ∀ id, (state.store.filter fun _ job => decide (job ∉ owned)).get? id ≠ some job := by
          rcases hfound with hin | hboth
          · exact ⟨hended hin htracked, fun id hstored => ((hstore id job).mp hstored).2 hin⟩
          · exact ⟨hboth.1, fun id hstored => hboth.2 id ((hstore id job).mp hstored).1⟩
        exact ⟨hstopped.imp_right hlog, .inr hout, fun _ => hout⟩
  | service =>
    dsimp only
    have hall : ∀ {job : Nat} {tracked : TrackedTask}, state.jobs[job]? = some tracked →
        tracked.status.isTerminal = true := by
      intro job tracked htracked
      have hcovered := hhoused.covered _ hmem job tracked htracked rfl
      rcases hcovered.found with hin | hboth
      · exact hended hin htracked
      · exact hboth.1
    refine ⟨⟨h.1.note (hquiet _), h.2.of_eq rfl rfl⟩, ⟨?_, ?_, hhoused.numbered, hhoused.bounded,
      ?_, ?_, ?_⟩, rfl, rfl⟩
    · intro id job hfound
      cases hfound
    · intro job tracked htracked hactive
      rw [hall htracked] at hactive
      cases hactive
    · intro spec hin
      rw [show state.starting = [] from hstarting] at hin
      exact absurd hin List.not_mem_nil
    · intro other hother
      have hnone : ∀ agent ∈ ([] : List Agent), agent ∈ state.ownerCleanups :=
        fun _ hin => absurd hin List.not_mem_nil
      rcases hcases hother with hold | rfl
      · exact (hhoused.closing other hold).mono rfl hnone fun hclosed => hclosed
      · exact (hhoused.closing _ hmem).mono rfl hnone fun hclosed => hclosed
    · intro other hother job tracked htracked hcovers
      have hgone : ∀ id, (OrderedMap.empty : OrderedMap JobId Nat).get? id ≠ some job := by
        intro id hin
        cases hin
      have hlog : ∀ {added}, job ∈ cancels state.log → job ∈ cancels (state.log ++ added) := by
        intro added hin
        rw [cancels_append]
        exact List.mem_append_left _ hin
      refine ⟨?_, .inr ⟨hall htracked, hgone⟩, fun _ => ⟨hall htracked, hgone⟩⟩
      rcases hcases hother with hold | rfl
      · exact (hhoused.covered other hold job tracked htracked hcovers).stopped.imp_right hlog
      · exact (hhoused.covered _ hmem job tracked htracked rfl).stopped.imp_right hlog

end LocalJobRegistry

open LocalJobRegistry

/-- A job that is registered finds room for it, and the service is not being disposed. -/
def Admitted (state : LocalJobRegistry) (op : JobOp) : Prop :=
  match op, state.starting with
  | .runReturns _ _, spec :: _ =>
    state.activeTaskCount spec.owner < state.maxConcurrentJobsPerOwner ∧ state.listenersClosed = false
  | _, _ => True

instance decidableAdmitted (state : LocalJobRegistry) (op : JobOp) : Decidable (Admitted state op) := by
  unfold Admitted
  split <;> infer_instance

def Forward (state after : LocalJobRegistry) : Prop :=
  ∃ moved added, after.jobs = moved ++ added ∧ List.Forall₂ Moves state.jobs moved

theorem Forward.of_moves {state after : LocalJobRegistry}
    (h : List.Forall₂ Moves state.jobs after.jobs) : Forward state after :=
  ⟨after.jobs, [], (List.append_nil _).symm, h⟩

theorem Forward.of_eq {state after : LocalJobRegistry} (h : after.jobs = state.jobs) :
    Forward state after :=
  .of_moves (by rw [h]; exact forall₂_refl _)

structure Steady (state after : LocalJobRegistry) : Prop where
  coherent : Coherent after
  housed : Housed after
  limit : after.maxConcurrentJobsPerOwner = state.maxConcurrentJobsPerOwner
  forward : Forward state after

namespace LocalJobRegistry

variable {state after : LocalJobRegistry}

theorem touched_step (hhoused : Housed state) (h : Coherent after ∧ Touched state after) :
    Steady state after :=
  ⟨h.1, hhoused.touched h.2, h.2.limit, .of_moves h.2.moves⟩

theorem ensureOwnerCleanup_ok {owner : Agent} {agents : AgentLookup}
    (h : state.ensureOwnerCleanup owner agents = .ok after) :
    (after = state ∧ owner ∈ state.ownerCleanups) ∨
      (after = { state with ownerCleanups := state.ownerCleanups ++ [owner] } ∧
        owner ∉ state.unloading) := by
  obtain ⟨_, -, h⟩ := bind_eq_ok.mp h
  obtain ⟨_, -, h⟩ := bind_eq_ok.mp h
  split at h
  · cases h
    exact .inl ⟨rfl, ‹_›⟩
  · split at h
    · cases h
    · cases h
      exact .inr ⟨rfl, ‹_›⟩

theorem attach_kept (h : Coherent state) (hhoused : Housed state) {owner : Agent}
    (hlive : owner ∉ state.unloading) :
    Coherent { state with ownerCleanups := state.ownerCleanups ++ [owner] } ∧
      Housed { state with ownerCleanups := state.ownerCleanups ++ [owner] } := by
  refine ⟨⟨h.1, h.2.of_eq rfl rfl⟩, ⟨hhoused.indexed, hhoused.active, hhoused.numbered,
    hhoused.bounded, ?_, ?_, ?_⟩⟩
  · intro spec hmem agent hagent
    exact List.mem_append_left _ (hhoused.cleanups spec hmem agent hagent)
  · intro disposal hmem
    have hclosing := hhoused.closing disposal hmem
    cases htarget : disposal.target with
    | owner agent =>
      rw [htarget] at hclosing
      refine ⟨hclosing.1, fun hin => ?_⟩
      rcases List.mem_append.mp hin with hold | hnew
      · exact hclosing.2 hold
      · cases List.mem_singleton.mp hnew
        exact hlive hclosing.1
    | service =>
      rw [htarget] at hclosing
      exact hclosing
  · intro disposal hmem job tracked hget hcovers
    have hold := hhoused.covered disposal hmem job tracked hget hcovers
    exact ⟨hold.stopped, hold.found, hold.gone⟩

theorem starting_kept (h : Coherent state) (hhoused : Housed state) {starting : List JobStart}
    (hstarting : ∀ spec ∈ starting, ∀ owner, spec.owner = some owner → owner ∈ state.ownerCleanups) :
    Coherent { state with starting := starting } ∧ Housed { state with starting := starting } := by
  refine ⟨⟨h.1, h.2.of_eq rfl rfl⟩, ⟨hhoused.indexed, hhoused.active, hhoused.numbered,
    hhoused.bounded, hstarting, ?_, ?_⟩⟩
  · intro disposal hmem
    exact (hhoused.closing disposal hmem).mono rfl (fun _ hin => hin) fun hclosed => hclosed
  · intro disposal hmem job tracked hget hcovers
    have hold := hhoused.covered disposal hmem job tracked hget hcovers
    exact ⟨hold.stopped, hold.found, hold.gone⟩

theorem enter_kept (h : Coherent state) (hhoused : Housed state) {spec : JobStart} {served : Bool}
    {agents : AgentLookup} {answer : Except String Unit}
    (henter : state.enter spec served agents = .ok (after, answer)) :
    Steady state after := by
  obtain ⟨_, -, henter⟩ := bind_eq_ok.mp henter
  obtain ⟨_, -, henter⟩ := bind_eq_ok.mp henter
  obtain ⟨_, -, henter⟩ := bind_eq_ok.mp henter
  obtain ⟨_, -, henter⟩ := bind_eq_ok.mp henter
  obtain ⟨attached, hattached, henter⟩ := bind_eq_ok.mp henter
  have hkept : Steady state attached ∧
      ∀ owner, spec.owner = some owner → owner ∈ attached.ownerCleanups := by
    unfold attach at hattached
    cases howner : spec.owner with
    | none =>
      rw [howner] at hattached
      cases hattached
      exact ⟨⟨h, hhoused, rfl, .of_eq rfl⟩, nofun⟩
    | some owner =>
      rw [howner] at hattached
      rcases ensureOwnerCleanup_ok hattached with ⟨rfl, hin⟩ | ⟨rfl, hlive⟩
      · refine ⟨⟨h, hhoused, rfl, .of_eq rfl⟩, fun other hother => ?_⟩
        cases hother
        exact hin
      · obtain ⟨hcoherent, hattach⟩ := attach_kept h hhoused hlive
        refine ⟨⟨hcoherent, hattach, rfl, .of_eq rfl⟩, fun other hother => ?_⟩
        cases hother
        exact List.mem_append_right _ (List.mem_singleton_self _)
  obtain ⟨⟨hcoherent, hattach, hlimit, hforward⟩, hcleanup⟩ := hkept
  split at henter
  · cases henter
    exact ⟨hcoherent, hattach, hlimit, hforward⟩
  · cases henter
    obtain ⟨hentered, hstarting⟩ := starting_kept hcoherent hattach
      (show ∀ other ∈ spec :: attached.starting, ∀ owner, other.owner = some owner →
          owner ∈ attached.ownerCleanups by
        intro other hmem owner howner
        rcases List.mem_cons.mp hmem with rfl | hold
        · exact hcleanup owner howner
        · exact hattach.cleanups other hold owner howner)
    exact ⟨hentered, hstarting, hlimit, hforward⟩

theorem step_kept (h : Coherent state) (hhoused : Housed state) {op : JobOp}
    (hguard : Admitted state op) (hstep : state.step op = some after) : Steady state after := by
  cases op with
  | enter spec served agents =>
    unfold step at hstep
    dsimp only at hstep
    split at hstep
    · rename_i entered answer hentered
      cases hstep
      exact enter_kept h hhoused hentered
    · cases hstep
      exact ⟨h, hhoused, rfl, .of_eq rfl⟩
  | runReturns streams now =>
    unfold step at hstep
    dsimp only at hstep
    split at hstep
    · rename_i spec rest hstarting
      cases hstep
      unfold Admitted at hguard
      rw [hstarting] at hguard
      have hcleanup := hhoused.cleanups
      rw [hstarting] at hcleanup
      obtain ⟨hcoherent, hpopped⟩ := starting_kept h hhoused
        (fun other hmem => hcleanup other (List.mem_cons_of_mem spec hmem))
      refine ⟨⟨?_, hcoherent.2.of_eq rfl rfl⟩, ?_, rfl, state.jobs, _, rfl, forall₂_refl _⟩
      · exact (hcoherent.1.register rfl rfl rfl rfl).note ⟨rfl, rfl, rfl⟩
      · exact hpopped.register hguard.1 hguard.2 (hcleanup spec List.mem_cons_self)
    · cases hstep
  | runThrows =>
    unfold step at hstep
    dsimp only at hstep
    split at hstep
    · rename_i spec rest hstarting
      cases hstep
      have hcleanup := hhoused.cleanups
      rw [hstarting] at hcleanup
      obtain ⟨hcoherent, hpopped⟩ := starting_kept h hhoused
        (fun other hmem => hcleanup other (List.mem_cons_of_mem spec hmem))
      exact ⟨hcoherent, hpopped, rfl, .of_eq rfl⟩
    · cases hstep
  | read id caller delta =>
    apply touched_step hhoused
    exact read_coherent h (toOption_eq_some.mp hstep)
  | kill id caller throws =>
    apply touched_step hhoused
    exact kill_coherent h (toOption_eq_some.mp hstep)
  | wait id timeoutMs caller aborted =>
    apply touched_step hhoused
    exact wait_coherent h (toOption_eq_some.mp hstep)
  | abort wait => exact touched_step hhoused (fire_coherent h hstep)
  | timeout wait =>
    unfold step at hstep
    dsimp only at hstep
    split at hstep
    · exact touched_step hhoused (fire_coherent h hstep)
    · cases hstep
  | continueWait wait =>
    unfold step at hstep
    dsimp only at hstep
    split at hstep
    · exact touched_step hhoused (continueWait_coherent h hstep)
    · cases hstep
  | settle job outcome now =>
    unfold step at hstep
    dsimp only at hstep
    split at hstep
    · cases hstep
      exact touched_step hhoused (settle_coherent h job outcome now)
    · cases hstep
  | listen scope =>
    cases hstep
    refine ⟨⟨h.1, ?_, ?_⟩, ?_, rfl, .of_eq rfl⟩
    · rw [List.map_append, List.nodup_append]
      refine ⟨h.2.nodup, List.nodup_cons.mpr ⟨List.not_mem_nil, List.nodup_nil⟩, ?_⟩
      intro id hid last hlast heq
      cases List.mem_singleton.mp hlast
      obtain ⟨listener, hlistener, rfl⟩ := List.mem_map.mp hid
      exact (h.2.drawn listener hlistener).ne heq
    · intro listener hlistener
      rcases List.mem_append.mp hlistener with hold | hnew
      · exact Nat.lt_succ_of_lt (h.2.drawn listener hold)
      · cases List.mem_singleton.mp hnew
        exact Nat.lt_succ_self _
    · exact hhoused.relisten _ _
  | unlisten listener =>
    cases hstep
    refine ⟨⟨h.1, ?_, ?_⟩, ?_, rfl, .of_eq rfl⟩
    · exact (List.filter_sublist.map _).nodup h.2.nodup
    · exact fun entry hmem => h.2.drawn entry (List.mem_filter.mp hmem).1
    · exact hhoused.relisten _ _
  | unload agent =>
    cases hstep
    exact ⟨⟨h.1, h.2.of_eq rfl rfl⟩, hhoused.unload agent, rfl, .of_eq rfl⟩
  | disposeOwner agent throws now =>
    unfold step at hstep
    dsimp only at hstep
    split at hstep
    · rename_i hready
      cases hstep
      have hdetached : Housed { state with ownerCleanups := state.ownerCleanups.filter (· ≠ agent) } :=
        hhoused.detach hready.1 (fun _ hmem => (List.mem_filter.mp hmem).1) state.listenersClosed
          (fun hclosed => hclosed)
      have hclosing : Closing { state with ownerCleanups := state.ownerCleanups.filter (· ≠ agent) }
          (.owner agent) :=
        ⟨hready.2.1, fun hmem => of_decide_eq_true (List.mem_filter.mp hmem).2 rfl⟩
      have hbefore : Coherent { state with ownerCleanups := state.ownerCleanups.filter (· ≠ agent) } :=
        ⟨h.1, h.2.of_eq rfl rfl⟩
      obtain ⟨hcoherent, hkept, hlimit, hmoves⟩ :=
        beginDisposal_kept hbefore hdetached hclosing throws now
      exact ⟨hcoherent, hkept, hlimit, .of_moves hmoves⟩
    · cases hstep
  | disposeService throws now =>
    unfold step at hstep
    dsimp only at hstep
    split at hstep
    · rename_i hready
      cases hstep
      have hdetached : Housed { state with listenersClosed := true } :=
        hhoused.detach hready.1 (fun _ hmem => hmem) true (fun _ => rfl)
      have hclosing : Closing { state with listenersClosed := true } .service := rfl
      have hbefore : Coherent { state with listenersClosed := true } := ⟨h.1, h.2.of_eq rfl rfl⟩
      obtain ⟨hcoherent, hkept, hlimit, hmoves⟩ :=
        beginDisposal_kept hbefore hdetached hclosing throws now
      exact ⟨hcoherent, hkept, hlimit, .of_moves hmoves⟩
    · cases hstep
  | finishDisposal index =>
    unfold step at hstep
    dsimp only at hstep
    split at hstep
    · rename_i disposal hget
      split at hstep
      · rename_i hready
        cases hstep
        obtain ⟨hcoherent, hkept, hlimit, hjobs⟩ :=
          finishDisposal_kept h hhoused hready.1 hget hready.2.2
        exact ⟨hcoherent, hkept, hlimit, .of_eq hjobs⟩
      · cases hstep
    · cases hstep

end LocalJobRegistry

/-- Bounded owners, one notice for each listener and job, one settlement for each job, marked as
reported where a claim or a live wait takes the outcome, no wait left behind, and no job left by a
disposal. -/
structure Orderly (limit : Nat) (state : LocalJobRegistry) : Prop where
  bounded : ∀ owner, state.jobs.countP (isActive owner) ≤ limit
  toldOnce : (notices state.log).Nodup
  settledOnce : ((settlements state.log).map Prod.fst).Nodup
  concluded : ∀ entry ∈ settlements state.log,
    Concluded state.jobs state.waits state.log entry.1 entry.2.1 entry.2.2
  pending : ∀ (wait : Nat) (record : Wait), state.waits[wait]? = some record →
    record.phase = .pending →
      ∃ tracked, state.jobs[record.job]? = some tracked ∧ tracked.status.isTerminal = false
  disposed : ∀ disposal ∈ state.disposals, disposal.done = true →
    ∀ (job : Nat) (tracked : TrackedTask), state.jobs[job]? = some tracked →
      disposal.target.covers tracked = true →
        (job ∈ disposal.finished ∨ job ∈ cancels state.log) ∧ tracked.status.isTerminal = true ∧
          ∀ id, state.store.get? id ≠ some job

theorem orderly_of_kept {state : LocalJobRegistry} (h : Coherent state) (hhoused : Housed state) :
    Orderly state.maxConcurrentJobsPerOwner state where
  bounded := hhoused.bounded
  toldOnce := h.1.toldOnce
  settledOnce := h.1.settledOnce
  concluded := h.1.concluded
  pending := by
    intro wait record hrecord hpending
    have hplaced := h.1.placed wait record hrecord
    refine ⟨state.jobs[record.job], List.getElem?_eq_getElem hplaced, ?_⟩
    cases hterminal : state.jobs[record.job].status.isTerminal with
    | false => rfl
    | true =>
      have hget := List.getElem?_eq_getElem hplaced
      have hmem := ((h.1.attended record.job _ hget).resolvers wait).mpr
        ⟨record, hrecord, rfl, hpending⟩
      rw [h.1.ended record.job _ hget hterminal] at hmem
      exact absurd hmem List.not_mem_nil
  disposed := by
    intro disposal hmem hdone job tracked hjob hcovers
    have hcovered := hhoused.covered disposal hmem job tracked hjob hcovers
    exact ⟨hcovered.stopped, hcovered.gone hdone⟩

variable {limit : Nat} {state : LocalJobRegistry} {ops : List JobOp}

theorem run_kept (h : run step (.fresh limit) ops = some state)
    (hguard : Along step Admitted (.fresh limit) ops) :
    Coherent state ∧ Housed state ∧ state.maxConcurrentJobsPerOwner = limit := by
  refine run_invariant_along (fun state => Coherent state ∧ Housed state ∧
    state.maxConcurrentJobsPerOwner = limit) ?_ h hguard
      ⟨fresh_coherent limit, fresh_housed limit, rfl⟩
  intro before op after hbefore hadmitted hstep
  have hsteady := step_kept hbefore.1 hbefore.2.1 hadmitted hstep
  exact ⟨hsteady.coherent, hsteady.housed, hsteady.limit.trans hbefore.2.2⟩

/-- Every run that admits jobs only while there is room for them is orderly, and its jobs move one
way. -/
theorem jobs_orderly (h : run step (.fresh limit) ops = some state)
    (hguard : Along step Admitted (.fresh limit) ops) :
    Orderly limit state ∧
      ∀ op after, Admitted state op → state.step op = some after → Forward state after := by
  obtain ⟨hcoherent, hhoused, hlimit⟩ := run_kept h hguard
  refine ⟨?_, fun op after hadmitted hstep => (step_kept hcoherent hhoused hadmitted hstep).forward⟩
  rw [← hlimit]
  exact orderly_of_kept hcoherent hhoused

section Runs

def unowned (kind : String) : JobStart := ⟨kind, kind, none, none⟩

/-- A wait, a kill, a settlement, and a disposal of the service with a cancel that throws. -/
def servedRun : List JobOp :=
  [.listen none, .enter (unowned "bash") true none, .runReturns true 1,
    .enter (unowned "dev") true none, .runReturns false 2,
    .wait ⟨"bash", 1⟩ (.finite 5) none false, .kill ⟨"dev", 1⟩ none false, .timeout 0,
    .settle 0 ⟨.completed, none, some "done"⟩ 3, .continueWait 0,
    .settle 1 ⟨.killed, none, none⟩ 4,
    .enter (unowned "bash") true none, .runReturns true 5,
    .disposeService (fun _ => some "stuck") 6, .finishDisposal 0]

def servedEnd : LocalJobRegistry := (run step (.fresh 2) servedRun).get (by decide +kernel)

theorem servedRun_orderly : Orderly 2 servedEnd ∧
    ∀ op after, Admitted servedEnd op → servedEnd.step op = some after → Forward servedEnd after :=
  jobs_orderly (Option.some_get _).symm (by decide +kernel : Along step Admitted (.fresh 2) servedRun)

/-- `start` is called from inside `run`, and both calls have passed the check. -/
def crowdedRun : List JobOp :=
  [.enter (unowned "outer") true none, .enter (unowned "inner") true none, .runReturns true 1,
    .runReturns true 2]

def droppedRun : List JobOp :=
  [.enter (unowned "first") true none, .runReturns true 1, .disposeService (fun _ => none) 2,
    .enter (unowned "second") true none, .runReturns true 3, .settle 0 ⟨.killed, none, none⟩ 4,
    .finishDisposal 0]

def crowdedEnd : LocalJobRegistry := (run step (.fresh 1) crowdedRun).get (by decide +kernel)

def droppedEnd : LocalJobRegistry := (run step (.fresh 2) droppedRun).get (by decide +kernel)

/-- The first exceeds the limit, and the second leaves a job that runs and is not in the table. -/
theorem crowdedRun_disorderly :
    (¬ ∀ state, run step (.fresh 1) crowdedRun = some state → Orderly 1 state) ∧
      ¬ ∀ state, run step (.fresh 2) droppedRun = some state → Orderly 2 state := by
  constructor
  · intro h
    have hbounded := (h crowdedEnd (Option.some_get _).symm).bounded none
    exact absurd hbounded (by decide +kernel)
  · intro h
    have hdisposed := (h droppedEnd (Option.some_get _).symm).disposed
    have hlast : ∃ tracked, droppedEnd.jobs[1]? = some tracked ∧ tracked.status = .running := by
      have hany : (droppedEnd.jobs[1]?).any (fun tracked => decide (tracked.status = .running)) := by
        decide +kernel
      cases hget : droppedEnd.jobs[1]? with
      | none =>
        rw [hget] at hany
        cases hany
      | some tracked =>
        rw [hget] at hany
        exact ⟨tracked, rfl, of_decide_eq_true hany⟩
    obtain ⟨tracked, hget, hrunning⟩ := hlast
    have hdone : ∃ disposal ∈ droppedEnd.disposals, disposal.done = true ∧
        disposal.target = .service := by decide +kernel
    obtain ⟨disposal, hmem, hdone, htarget⟩ := hdone
    have hterminal := (hdisposed disposal hmem hdone 1 tracked hget (by rw [htarget]; rfl)).2.1
    rw [hrunning] at hterminal
    cases hterminal

end Runs

end Harness.Jobs
