import Harness.AgentLoop.ToolCalls
import Mathlib.Data.List.Nodup
import Mathlib.Data.List.Perm.Subperm

universe u v

namespace Harness.AgentLoop

variable {ρ : Type u} {κ : Type v}

theorem getElem?_snoc {α : Type u} {items : List α} {item found : α} {place : Nat}
    (h : (items ++ [item])[place]? = some found) :
    items[place]? = some found ∨ place = items.length ∧ item = found := by
  rcases Nat.lt_or_ge place items.length with hplace | hplace
  · exact .inl ((List.getElem?_append_left hplace).symm.trans h)
  · rw [List.getElem?_append_right hplace] at h
    obtain ⟨hzero, hfound⟩ := List.getElem?_eq_some_iff.mp h
    rw [List.length_singleton, Nat.lt_one_iff] at hzero
    rw [List.getElem_singleton] at hfound
    exact .inr ⟨by omega, hfound⟩

theorem getElem?_grown {α : Type u} {items : List α} {found : α} {place : Nat}
    (h : items[place]? = some found) (item : α) : (items ++ [item])[place]? = some found := by
  obtain ⟨hplace, _⟩ := List.getElem?_eq_some_iff.mp h
  exact (List.getElem?_append_left hplace).trans h

theorem getElem?_set_cases {α : Type u} {items : List α} {item found : α} {index place : Nat}
    (h : (items.set index item)[place]? = some found) :
    place = index ∧ item = found ∨ place ≠ index ∧ items[place]? = some found := by
  rcases Decidable.em (place = index) with rfl | hne
  · obtain ⟨hlength, _⟩ := List.getElem?_eq_some_iff.mp h
    rw [List.length_set] at hlength
    rw [List.getElem?_set_self hlength] at h
    exact .inl ⟨rfl, Option.some.inj h⟩
  · exact .inr ⟨hne, (List.getElem?_set_ne (Ne.symm hne)).symm.trans h⟩

namespace LogEntry

def called : LogEntry ρ κ → Option Nat
  | .toolCall index => some index
  | .toolResult _ _ _ | .other => none

def answered : LogEntry ρ κ → Option Nat
  | .toolResult index _ _ => some index
  | .toolCall _ | .other => none

def contexts : LogEntry ρ κ → List κ
  | .toolResult _ _ (some result) => result.additionalContexts
  | .toolResult _ _ none | .toolCall _ | .other => []

def concludes : LogEntry ρ κ → Bool
  | .toolResult _ _ (some result) => result.concludesTurn
  | .toolResult _ _ none | .toolCall _ | .other => false

def skip : LogEntry ρ κ → Bool
  | .toolResult _ _ none => true
  | .toolResult _ _ (some _) | .toolCall _ | .other => false

end LogEntry

namespace CallLedger

/-- The first `started` calls stand in the log, with the results of the first `committed` of them. -/
structure Kept (ledger : CallLedger ρ κ) (started committed : Nat) : Prop where
  calls : ledger.log.filterMap LogEntry.called = List.range started
  results : ledger.log.filterMap LogEntry.answered = List.range committed
  length : ledger.callSeqs.length = started
  seqs : ∀ index seq : Nat, ledger.callSeqs[index]? = some seq →
    ledger.log[seq]? = some (.toolCall index)
  cites : ∀ (place index seq : Nat) result,
    ledger.log[place]? = some (.toolResult index seq result) →
    seq < place ∧ ledger.log[seq]? = some (.toolCall index)
  contexts : ledger.contexts = ledger.log.flatMap LogEntry.contexts
  concluded : ledger.concluded = ledger.log.any LogEntry.concludes

variable {ledger : CallLedger ρ κ} {started committed : Nat}

theorem kept_initial (before : Nat) : (initial before : CallLedger ρ κ).Kept 0 0 := by
  have hother : ∀ entry ∈ List.replicate before (LogEntry.other : LogEntry ρ κ), entry = .other :=
    fun entry hmem => List.eq_of_mem_replicate hmem
  refine ⟨?_, ?_, rfl, nofun, fun place index seq result hplace => ?_, ?_, ?_⟩
  · exact List.filterMap_eq_nil_iff.mpr fun entry hmem => hother entry hmem ▸ rfl
  · exact List.filterMap_eq_nil_iff.mpr fun entry hmem => hother entry hmem ▸ rfl
  · cases hother _ (List.mem_of_getElem? hplace)
  · exact (List.flatMap_eq_nil_iff.mpr fun entry hmem => hother entry hmem ▸ rfl).symm
  · exact (List.any_eq_false.mpr fun entry hmem => hother entry hmem ▸ nofun).symm

theorem Kept.grown_cites (h : ledger.Kept started committed) {entry : LogEntry ρ κ}
    (hentry : entry.answered = none) : ∀ (place index seq : Nat) result,
      (ledger.log ++ [entry])[place]? = some (.toolResult index seq result) →
      seq < place ∧ (ledger.log ++ [entry])[seq]? = some (.toolCall index) := by
  intro place index seq result hplace
  rcases getElem?_snoc hplace with hbefore | ⟨_, rfl⟩
  · obtain ⟨hless, hcall⟩ := h.cites place index seq result hbefore
    exact ⟨hless, getElem?_grown hcall entry⟩
  · cases hentry

theorem Kept.appendOther (h : ledger.Kept started committed) :
    ledger.appendOther.Kept started committed where
  calls := by
    rw [CallLedger.appendOther, List.filterMap_append, h.calls]
    exact List.append_nil _
  results := by
    rw [CallLedger.appendOther, List.filterMap_append, h.results]
    exact List.append_nil _
  length := h.length
  seqs index seq hseq := getElem?_grown (h.seqs index seq hseq) .other
  cites := h.grown_cites rfl
  contexts := by
    rw [CallLedger.appendOther, List.flatMap_append, ← h.contexts]
    exact (List.append_nil _).symm
  concluded := by
    rw [CallLedger.appendOther, List.any_append, ← h.concluded]
    exact (Bool.or_false _).symm

theorem Kept.appendToolCall (h : ledger.Kept started committed) :
    (ledger.appendToolCall started).Kept (started + 1) committed where
  calls := by
    rw [CallLedger.appendToolCall, List.filterMap_append, h.calls, List.range_succ]
    rfl
  results := by
    rw [CallLedger.appendToolCall, List.filterMap_append, h.results]
    exact List.append_nil _
  length := by
    rw [CallLedger.appendToolCall, List.length_append, h.length]
    rfl
  seqs index seq hseq := by
    rw [CallLedger.appendToolCall] at hseq ⊢
    dsimp only at hseq ⊢
    rcases getElem?_snoc hseq with hbefore | ⟨hindex, rfl⟩
    · exact getElem?_grown (h.seqs index seq hbefore) _
    · obtain rfl : index = started := hindex.trans h.length
      exact List.getElem?_concat_length
  cites := h.grown_cites rfl
  contexts := by
    rw [CallLedger.appendToolCall, List.flatMap_append, ← h.contexts]
    exact (List.append_nil _).symm
  concluded := by
    rw [CallLedger.appendToolCall, List.any_append, ← h.concluded]
    exact (Bool.or_false _).symm

theorem Kept.appendToolResult (h : ledger.Kept started committed) (hless : committed < started)
    (result : Option (ToolExecutionResult ρ κ)) {contexts : List κ} {concluded : Bool}
    (hcontexts : contexts = ledger.contexts ++ (result.map (·.additionalContexts)).getD [])
    (hconcluded : concluded = (ledger.concluded || (result.map (·.concludesTurn)).getD false)) :
    ({ ledger.appendToolResult committed result with contexts, concluded } :
      CallLedger ρ κ).Kept started (committed + 1) := by
  obtain ⟨seq, hseq⟩ : ∃ seq, ledger.callSeqs[committed]? = some seq :=
    ⟨_, List.getElem?_eq_getElem (h.length ▸ hless)⟩
  rw [CallLedger.appendToolResult, hseq]
  have hcall := h.seqs committed seq hseq
  refine ⟨?_, ?_, h.length, fun index seq hseq => getElem?_grown (h.seqs index seq hseq) _, ?_, ?_, ?_⟩
  · rw [List.filterMap_append, h.calls]
    exact List.append_nil _
  · rw [List.filterMap_append, h.results, List.range_succ]
    rfl
  · intro place index cited found hplace
    rcases getElem?_snoc hplace with hbefore | ⟨rfl, hfound⟩
    · obtain ⟨hless, hcited⟩ := h.cites place index cited found hbefore
      exact ⟨hless, getElem?_grown hcited _⟩
    · cases hfound
      exact ⟨(List.getElem?_eq_some_iff.mp hcall).choose, getElem?_grown hcall _⟩
  · rw [List.flatMap_append, ← h.contexts, hcontexts]
    cases result with
    | none => rfl
    | some result => exact congrArg _ (List.append_nil _).symm
  · rw [List.any_append, ← h.concluded, hconcluded]
    cases result with
    | none => rfl
    | some result => exact congrArg (ledger.concluded || ·) (Bool.or_false _).symm

theorem Kept.commit (h : ledger.Kept started committed) (hless : committed < started)
    (result : ToolExecutionResult ρ κ) :
    ((ledger.appendToolResult committed (some result)).accept result).Kept started
      (committed + 1) :=
  h.appendToolResult hless (some result) rfl rfl

theorem Kept.appendSkippedToolCall (h : ledger.Kept started started) :
    (ledger.appendSkippedToolCall started).Kept (started + 1) (started + 1) :=
  h.appendToolCall.appendToolResult (Nat.lt_succ_self started) none (List.append_nil _).symm
    (Bool.or_false _).symm

theorem Kept.appendSkipped (count : Nat) (h : ledger.Kept started started) :
    ((List.range' started count).foldl CallLedger.appendSkippedToolCall ledger).Kept (started + count)
      (started + count) := by
  induction count generalizing ledger started with
  | zero => exact h
  | succ count ih =>
    have hrest := ih h.appendSkippedToolCall
    rw [Nat.add_right_comm] at hrest
    exact hrest

end CallLedger

namespace SchedulerPhase

def counted : SchedulerPhase → Bool
  | .filling | .started | .committing | .finalizing | .released | .racing => true
  | .choosing | .preparing | .draining | .done | .failed => false

def calm : SchedulerPhase → Bool
  | .filling | .preparing | .released | .racing => true
  | .choosing | .started | .committing | .finalizing | .draining | .done | .failed => false

def stopped : SchedulerPhase → Bool
  | .draining | .failed => true
  | .choosing | .filling | .preparing | .started | .committing | .finalizing | .released | .racing
  | .done => false

end SchedulerPhase

namespace ToolScheduler

structure Placed (total maxParallelToolCalls : Nat) (s : ToolScheduler ρ κ) : Prop where
  ledger : s.ledger.Kept s.calls.length s.committed
  next_le : s.next ≤ s.committed
  committed_le : s.committed ≤ s.calls.length
  calls_le : s.calls.length ≤ total
  committed_iff : ∀ (index : Nat) state, s.calls[index]? = some state →
    (state = .committed ↔ index < s.committed)
  running : ∀ index : Nat, s.calls[index]? = some .running → index ∈ s.inFlight
  room : s.inFlight.length ≤ maxParallelToolCalls
  exclusive : ∀ index : Nat, s.modes[index]? = some .exclusive → s.committed ≤ index →
    index + 1 = s.calls.length ∧ index = s.next ∧ s.mode = .exclusive
  aborted : s.aborted = true → s.signalAborted = true

structure Standing (total maxParallelToolCalls : Nat) (s : ToolScheduler ρ κ) : Prop where
  modes : s.phase ≠ .done → s.modes.length = s.calls.length
  within : s.phase ≠ .done → s.next < total
  skips : s.ledger.log.any LogEntry.skip = true → s.phase = .done ∧ s.signalAborted = true
  unprepared : s.phase.stopped = false → s.phase ≠ .preparing →
    ∀ index : Nat, s.calls[index]? ≠ some .preparing
  rejected : s.phase.stopped = false → ∀ index : Nat, s.calls[index]? = some .rejected →
    s.schedulerFailure = true ∧ index ∈ s.inFlight
  calm : s.phase.calm = true → ∀ post, s.calls[s.committed]? = some (.settled post) →
    s.committed ∈ s.inFlight
  counted : s.phase.counted = true → s.nextToStart = s.calls.length
  choosing : s.phase = .choosing → s.committed = s.calls.length ∧ s.next = s.calls.length ∧
    s.calls.length < total ∧ s.inFlight = []
  preparing : s.phase = .preparing → s.nextToStart + 1 = s.calls.length ∧
    (∀ index : Nat, s.calls[index]? = some .preparing ↔ index = s.nextToStart) ∧
    s.inFlight.length < maxParallelToolCalls
  finalizing : s.phase = .finalizing → s.calls[s.committed]? = some (.settled true)
  racing : s.phase = .racing → s.inFlight ≠ []
  failure : s.phase.stopped = true → s.schedulerFailure = true
  done : s.phase = .done → s.committed = total
  failed : s.phase = .failed → ∀ index : Nat, s.calls[index]? ≠ some .running

structure Scheduled (total maxParallelToolCalls : Nat) (s : ToolScheduler ρ κ) : Prop where
  placed : s.Placed total maxParallelToolCalls
  standing : s.Standing total maxParallelToolCalls

variable {total maxParallelToolCalls : Nat} {s : ToolScheduler ρ κ}

theorem scheduled_initial (before : Nat) (signalAborted : Bool) :
    (initial before total signalAborted : ToolScheduler ρ κ).Scheduled total
      maxParallelToolCalls := by
  have hskips : ¬(initial before total signalAborted : ToolScheduler ρ κ).ledger.log.any
      LogEntry.skip = true := by
    rw [Bool.not_eq_true]
    exact List.any_eq_false.mpr fun entry hmem => List.eq_of_mem_replicate hmem ▸ nofun
  refine ⟨⟨CallLedger.kept_initial before, Nat.le_refl 0, Nat.le_refl 0, Nat.zero_le total, nofun,
    nofun, Nat.zero_le _, nofun, nofun⟩, ?_⟩
  cases total with
  | zero =>
    exact { modes := fun hphase => absurd rfl hphase
            within := fun hphase => absurd rfl hphase
            skips := fun hskip => absurd hskip hskips
            unprepared := fun _ _ => nofun
            rejected := fun _ => nofun
            done := fun _ => rfl
            calm := nofun
            counted := nofun
            choosing := nofun
            preparing := nofun
            finalizing := nofun
            racing := nofun
            failure := nofun
            failed := nofun }
  | succ total =>
    exact { modes := fun _ => rfl
            within := fun _ => Nat.succ_pos total
            skips := fun hskip => absurd hskip hskips
            unprepared := fun _ _ => nofun
            rejected := fun _ => nofun
            choosing := fun _ => ⟨rfl, rfl, Nat.succ_pos total, rfl⟩
            calm := nofun
            counted := nofun
            preparing := nofun
            finalizing := nofun
            racing := nofun
            failure := nofun
            done := nofun
            failed := nofun }

theorem Standing.no_skips (h : s.Standing total maxParallelToolCalls) (hphase : s.phase ≠ .done) :
    ¬s.ledger.log.any LogEntry.skip = true :=
  fun hskip => hphase (h.skips hskip).1

theorem counted_ne {phase other : SchedulerPhase} (h : phase.counted = true)
    (hother : other.counted = false) : phase ≠ other := by
  rintro rfl
  rw [h] at hother
  cases hother

theorem counted_stopped {phase : SchedulerPhase} (h : phase.counted = true) :
    phase.stopped = false := by
  cases phase with
  | choosing | preparing | draining | done | failed => cases h
  | filling | started | committing | finalizing | released | racing => rfl

theorem Scheduled.move (h : s.Scheduled total maxParallelToolCalls) (hfrom : s.phase.counted = true)
    {phase : SchedulerPhase} {aborted : Bool} (hto : phase.counted = true)
    (haborted : aborted = true → s.signalAborted = true)
    (hcalm : phase.calm = true → ∀ post, s.calls[s.committed]? = some (.settled post) →
      s.committed ∈ s.inFlight)
    (hfinalizing : phase = .finalizing → s.calls[s.committed]? = some (.settled true))
    (hracing : phase = .racing → s.inFlight ≠ []) :
    ({ s with phase, aborted } : ToolScheduler ρ κ).Scheduled total maxParallelToolCalls where
  placed := { h.placed with aborted := haborted }
  standing :=
    { modes := fun _ => h.standing.modes (counted_ne hfrom rfl)
      within := fun _ => h.standing.within (counted_ne hfrom rfl)
      skips := fun hskip => absurd hskip (h.standing.no_skips (counted_ne hfrom rfl))
      unprepared := fun _ _ => h.standing.unprepared (counted_stopped hfrom) (counted_ne hfrom rfl)
      rejected := fun _ => h.standing.rejected (counted_stopped hfrom)
      calm := hcalm
      counted := fun _ => h.standing.counted hfrom
      choosing := fun hphase => absurd hphase (counted_ne hto rfl)
      preparing := fun hphase => absurd hphase (counted_ne hto rfl)
      finalizing := hfinalizing
      racing := hracing
      failure := fun hstopped => absurd ((counted_stopped hto).symm.trans hstopped) nofun
      done := fun hphase => absurd hphase (counted_ne hto rfl)
      failed := fun hphase => absurd hphase (counted_ne hto rfl) }

theorem scheduled_fail (hplaced : s.Placed total maxParallelToolCalls)
    (hmodes : s.modes.length = s.calls.length) (hwithin : s.next < total)
    (hskips : ¬s.ledger.log.any LogEntry.skip = true) :
    s.fail.Scheduled total maxParallelToolCalls where
  placed := { hplaced with }
  standing :=
    { modes := fun _ => hmodes
      within := fun _ => hwithin
      skips := fun hskip => absurd hskip hskips
      failure := fun _ => rfl
      unprepared := nofun
      rejected := nofun
      calm := nofun
      counted := nofun
      choosing := nofun
      preparing := nofun
      finalizing := nofun
      racing := nofun
      done := nofun
      failed := nofun }

theorem Scheduled.fail (h : s.Scheduled total maxParallelToolCalls) (hphase : s.phase ≠ .done) :
    s.fail.Scheduled total maxParallelToolCalls :=
  scheduled_fail h.placed (h.standing.modes hphase) (h.standing.within hphase)
    (h.standing.no_skips hphase)

theorem Scheduled.orThrow (h : s.Scheduled total maxParallelToolCalls) (hphase : s.phase ≠ .done)
    {next : ToolScheduler ρ κ}
    (hnext : s.schedulerFailure = false → next.Scheduled total maxParallelToolCalls) :
    (s.orThrow next).Scheduled total maxParallelToolCalls := by
  rw [ToolScheduler.orThrow]
  split
  · exact h.fail hphase
  · next hfailure => exact hnext (Bool.eq_false_iff.mpr hfailure)

theorem Scheduled.choose (h : s.Scheduled total maxParallelToolCalls) (hphase : s.phase = .choosing)
    (mode : ExecutionMode) : (s.choose mode).Scheduled total maxParallelToolCalls := by
  obtain ⟨hcommitted, hnext, _, _⟩ := h.standing.choosing hphase
  have hmodes := h.standing.modes (hphase ▸ nofun)
  refine ⟨{ h.placed with exclusive := fun index hmode hindex => ?_, aborted := id }, ?_⟩
  · obtain ⟨hless, _⟩ := List.getElem?_eq_some_iff.mp hmode
    exact absurd (hmodes ▸ hless) (Nat.not_lt.mpr (hcommitted ▸ hindex))
  · exact
      { modes := fun _ => hmodes
        within := fun _ => h.standing.within (hphase ▸ nofun)
        skips := fun hskip => absurd hskip (h.standing.no_skips (hphase ▸ nofun))
        unprepared := fun _ _ => h.standing.unprepared (hphase ▸ rfl) (hphase ▸ nofun)
        rejected := fun _ => h.standing.rejected (hphase ▸ rfl)
        calm := fun _ post hpost =>
          absurd (List.getElem?_eq_some_iff.mp hpost).choose (Nat.not_lt.mpr (Nat.le_of_eq hcommitted.symm))
        counted := fun _ => hnext
        choosing := nofun
        preparing := nofun
        finalizing := nofun
        racing := nofun
        failure := nofun
        done := nofun
        failed := nofun }

theorem startsNext_lt (hnext : s.next < total)
    (hstarts : s.startsNext total maxParallelToolCalls) : s.nextToStart < total := by
  obtain ⟨_, hless, _⟩ := hstarts
  rw [groupEnd] at hless
  split at hless
  · exact hless
  · exact Nat.lt_of_lt_of_le hless hnext

theorem Scheduled.startCall (h : s.Scheduled total maxParallelToolCalls)
    (hphase : s.phase = .filling) (hstarts : s.startsNext total maxParallelToolCalls) :
    s.startCall.Scheduled total maxParallelToolCalls := by
  have hcounted := h.standing.counted (hphase ▸ rfl)
  have hmodes := h.standing.modes (hphase ▸ nofun)
  have hless := startsNext_lt (h.standing.within (hphase ▸ nofun)) hstarts
  have hlength : (s.calls ++ [CallState.preparing]).length = s.calls.length + 1 :=
    List.length_append
  refine ⟨⟨?_, h.placed.next_le, ?_, ?_, fun index state hstate => ?_, fun index hrunning => ?_,
    h.placed.room, fun index hmode hindex => ?_, h.placed.aborted⟩, ?_⟩
  · rw [ToolScheduler.startCall, hcounted]
    dsimp only
    rw [hlength]
    exact h.placed.ledger.appendToolCall
  · exact hlength ▸ Nat.le_succ_of_le h.placed.committed_le
  · exact hlength ▸ hcounted ▸ hless
  · rcases getElem?_snoc hstate with hbefore | ⟨rfl, rfl⟩
    · exact h.placed.committed_iff index state hbefore
    · exact ⟨nofun, fun hcommitted => absurd hcommitted (Nat.not_lt.mpr h.placed.committed_le)⟩
  · rcases getElem?_snoc hrunning with hbefore | ⟨_, hfound⟩
    · exact h.placed.running index hbefore
    · cases hfound
  · dsimp only [ToolScheduler.startCall]
    rw [hlength]
    rcases getElem?_snoc hmode with hbefore | ⟨hplace, hfound⟩
    · -- an exclusive call that is still open fills its group
      obtain ⟨hlast, hnext, hexclusive⟩ := h.placed.exclusive index hbefore hindex
      have hgroup := hstarts.2.1
      rw [groupEnd, hexclusive, hcounted, ← hlast, hnext] at hgroup
      exact absurd hgroup (Nat.lt_irrefl _)
    · split at hfound
      · next hfirst => exact ⟨by omega, by omega, hfound⟩
      · cases hfound
  · exact
      { modes := fun _ => by
          dsimp only [ToolScheduler.startCall]
          rw [List.length_append, hlength, hmodes]
          rfl
        within := fun _ => h.standing.within (hphase ▸ nofun)
        skips := fun hskip => by
          have hnone := h.standing.no_skips (hphase ▸ nofun)
          dsimp only [ToolScheduler.startCall, CallLedger.appendToolCall] at hskip
          rw [List.any_append, Bool.or_eq_true] at hskip
          exact hskip.elim (fun hbefore => absurd hbefore hnone) nofun
        unprepared := fun _ hpreparing => absurd rfl hpreparing
        rejected := fun _ index hrejected => by
          rcases getElem?_snoc hrejected with hbefore | ⟨_, hfound⟩
          · exact h.standing.rejected (hphase ▸ rfl) index hbefore
          · cases hfound
        calm := fun _ post hpost => by
          rcases getElem?_snoc hpost with hbefore | ⟨_, hfound⟩
          · exact h.standing.calm (hphase ▸ rfl) post hbefore
          · cases hfound
        preparing := fun _ => by
          refine ⟨?_, fun index => ⟨fun hpreparing => ?_, ?_⟩, hstarts.2.2⟩
          · exact (congrArg (· + 1) hcounted).trans hlength.symm
          · rcases getElem?_snoc hpreparing with hbefore | ⟨hplace, _⟩
            · exact absurd hbefore (h.standing.unprepared (hphase ▸ rfl) (hphase ▸ nofun) index)
            · exact hplace.trans hcounted.symm
          · rintro rfl
            exact hcounted ▸ List.getElem?_concat_length
        counted := nofun
        choosing := nofun
        finalizing := nofun
        racing := nofun
        failure := nofun
        done := nofun
        failed := nofun }

theorem Scheduled.committed_all (h : s.Scheduled total maxParallelToolCalls)
    (hphase : s.phase = .filling) (hempty : s.inFlight = []) : s.committed = s.calls.length := by
  apply Nat.le_antisymm h.placed.committed_le
  rw [← Nat.not_lt]
  intro hless
  obtain ⟨state, hstate⟩ : ∃ state, s.calls[s.committed]? = some state :=
    ⟨_, List.getElem?_eq_getElem hless⟩
  have hnone : s.committed ∉ s.inFlight := hempty ▸ List.not_mem_nil
  cases state with
  | preparing => exact h.standing.unprepared (hphase ▸ rfl) (hphase ▸ nofun) _ hstate
  | running => exact hnone (h.placed.running _ hstate)
  | settled post => exact hnone (h.standing.calm (hphase ▸ rfl) post hstate)
  | rejected => exact hnone (h.standing.rejected (hphase ▸ rfl) _ hstate).2
  | committed => exact Nat.lt_irrefl _ ((h.placed.committed_iff _ _ hstate).mp rfl)

theorem Scheduled.skipped (h : s.Scheduled total maxParallelToolCalls)
    (hphase : s.phase = .filling) (hall : s.committed = s.calls.length)
    (haborted : s.aborted = true) : (s.skipped total).Scheduled total maxParallelToolCalls := by
  have hcount : (List.range' s.calls.length (total - s.calls.length)).length =
      total - s.calls.length := List.length_range'
  have hfull : s.calls.length + (total - s.calls.length) = total :=
    Nat.add_sub_of_le h.placed.calls_le
  have hlength : (s.skipped total).calls.length = total := by
    rw [ToolScheduler.skipped, List.length_append, List.length_map, hcount, hfull]
  have hcommitted : (s.skipped total).committed = total := by
    rw [ToolScheduler.skipped, hall, hcount, hfull]
  have hcalls : ∀ (index : Nat) state, (s.skipped total).calls[index]? = some state →
      s.calls[index]? = some state ∨ s.calls.length ≤ index ∧ state = .committed := by
    intro index state hstate
    rcases Nat.lt_or_ge index s.calls.length with hindex | hindex
    · exact .inl ((List.getElem?_append_left hindex).symm.trans hstate)
    · refine .inr ⟨hindex, ?_⟩
      have hmem := List.mem_of_getElem? ((List.getElem?_append_right hindex).symm.trans hstate)
      obtain ⟨_, _, hcommitted⟩ := List.mem_map.mp hmem
      exact hcommitted.symm
  refine ⟨⟨?_, ?_, ?_, ?_, fun index state hstate => ?_, fun index hrunning => ?_, h.placed.room,
    fun index hmode hindex => ?_, h.placed.aborted⟩, ?_⟩
  · rw [hlength, hcommitted]
    have hledger := h.placed.ledger
    rw [hall] at hledger
    have hrest := hledger.appendSkipped (total - s.calls.length)
    rw [hfull] at hrest
    exact hrest
  · rw [hcommitted]
    exact Nat.le_trans h.placed.next_le (Nat.le_trans h.placed.committed_le h.placed.calls_le)
  · exact Nat.le_of_eq (hcommitted.trans hlength.symm)
  · exact Nat.le_of_eq hlength
  · rw [hcommitted]
    have hindex := (List.getElem?_eq_some_iff.mp hstate).choose
    rw [hlength] at hindex
    refine ⟨fun _ => hindex, fun _ => ?_⟩
    rcases hcalls index state hstate with hbefore | ⟨_, hnew⟩
    · have hbound := (List.getElem?_eq_some_iff.mp hbefore).choose
      exact (h.placed.committed_iff index state hbefore).mpr (hall ▸ hbound)
    · exact hnew
  · rcases hcalls index _ hrunning with hbefore | ⟨_, hnew⟩
    · exact h.placed.running index hbefore
    · cases hnew
  · have hmodes := h.standing.modes (hphase ▸ nofun)
    have hbound := (List.getElem?_eq_some_iff.mp hmode).choose
    have hcalls := h.placed.calls_le
    rw [hcommitted] at hindex
    change index < s.modes.length at hbound
    omega
  · exact
      { modes := fun hdone => absurd rfl hdone
        within := fun hdone => absurd rfl hdone
        skips := fun _ => ⟨rfl, h.placed.aborted haborted⟩
        unprepared := fun _ _ index hpreparing => by
          rcases hcalls index _ hpreparing with hbefore | ⟨_, hnew⟩
          · exact h.standing.unprepared (hphase ▸ rfl) (hphase ▸ nofun) index hbefore
          · cases hnew
        rejected := fun _ index hrejected => by
          rcases hcalls index _ hrejected with hbefore | ⟨_, hnew⟩
          · exact h.standing.rejected (hphase ▸ rfl) index hbefore
          · cases hnew
        done := fun _ => hcommitted
        calm := nofun
        counted := nofun
        choosing := nofun
        preparing := nofun
        finalizing := nofun
        racing := nofun
        failure := nofun
        failed := nofun }

theorem Scheduled.endGroup (h : s.Scheduled total maxParallelToolCalls)
    (hphase : s.phase = .filling) (hempty : s.inFlight = []) :
    (s.endGroup total).Scheduled total maxParallelToolCalls := by
  have hall := h.committed_all hphase hempty
  rw [ToolScheduler.endGroup]
  split
  · next haborted => exact h.skipped hphase hall haborted
  · rw [if_neg (not_not_intro hall)]
    have hexclusive : ∀ index : Nat, s.modes[index]? = some .exclusive → s.committed ≤ index →
        False := by
      intro index hmode hindex
      have hlast := (h.placed.exclusive index hmode hindex).1
      omega
    have hplaced : ({ s with next := s.calls.length } :
        ToolScheduler ρ κ).Placed total maxParallelToolCalls :=
      { h.placed with
        next_le := Nat.le_of_eq hall.symm
        exclusive := fun index hmode hindex => (hexclusive index hmode hindex).elim }
    split
    · next hless =>
      exact
        { placed := { hplaced with }
          standing :=
            { modes := fun _ => h.standing.modes (hphase ▸ nofun)
              within := fun _ => hless
              skips := fun hskip => absurd hskip (h.standing.no_skips (hphase ▸ nofun))
              unprepared := fun _ _ => h.standing.unprepared (hphase ▸ rfl) (hphase ▸ nofun)
              rejected := fun _ => h.standing.rejected (hphase ▸ rfl)
              choosing := fun _ => ⟨hall, rfl, hless, hempty⟩
              calm := nofun
              counted := nofun
              preparing := nofun
              finalizing := nofun
              racing := nofun
              failure := nofun
              done := nofun
              failed := nofun } }
    · next hmore =>
      exact
        { placed := { hplaced with }
          standing :=
            { modes := fun hdone => absurd rfl hdone
              within := fun hdone => absurd rfl hdone
              skips := fun hskip => absurd hskip (h.standing.no_skips (hphase ▸ nofun))
              unprepared := fun _ _ => h.standing.unprepared (hphase ▸ rfl) (hphase ▸ nofun)
              rejected := fun _ => h.standing.rejected (hphase ▸ rfl)
              done := fun _ => hall.trans (Nat.le_antisymm h.placed.calls_le (Nat.not_lt.mp hmore))
              calm := nofun
              counted := nofun
              choosing := nofun
              preparing := nofun
              finalizing := nofun
              racing := nofun
              failure := nofun
              failed := nofun } }

theorem Scheduled.leaveFill (h : s.Scheduled total maxParallelToolCalls)
    (hphase : s.phase = .filling) : (s.leaveFill total).Scheduled total maxParallelToolCalls := by
  rw [ToolScheduler.leaveFill]
  split
  · next hempty => exact h.endGroup hphase hempty
  · next hflight =>
    exact h.move (hphase ▸ rfl) rfl h.placed.aborted (fun _ => h.standing.calm (hphase ▸ rfl)) nofun
      fun _ => hflight

theorem Scheduled.fillPool (h : s.Scheduled total maxParallelToolCalls)
    (hphase : s.phase = .filling) (mode : ExecutionMode) :
    (s.fillPool total maxParallelToolCalls mode).Scheduled total maxParallelToolCalls := by
  rw [ToolScheduler.fillPool]
  split
  · next hstarts =>
    split
    · exact h.leaveFill hphase
    · exact h.startCall hphase hstarts
  · exact h.leaveFill hphase

theorem Placed.set (h : s.Placed total maxParallelToolCalls) {index : Nat} {before state : CallState}
    (hbefore : s.calls[index]? = some before) (hopen : before ≠ .committed)
    (hstate : state ≠ .committed) :
    ∀ (place : Nat) found, (s.calls.set index state)[place]? = some found →
      (found = .committed ↔ place < s.committed) := by
  intro place found hfound
  rcases getElem?_set_cases hfound with ⟨rfl, rfl⟩ | ⟨_, hother⟩
  · have hless := mt (h.committed_iff place before hbefore).mpr hopen
    exact ⟨fun heq => absurd heq hstate, fun heq => absurd heq hless⟩
  · exact h.committed_iff place found hother

theorem Scheduled.prepared (h : s.Scheduled total maxParallelToolCalls)
    (hphase : s.phase = .preparing) (kind : PreparedKind) :
    (s.prepared kind).Scheduled total maxParallelToolCalls := by
  obtain ⟨hlast, hpreparing, hroom⟩ := h.standing.preparing hphase
  have hmodes := h.standing.modes (hphase ▸ nofun)
  have hlength : (s.calls.set s.nextToStart kind.state).length = s.calls.length := List.length_set
  have hflight : ∀ index ∈ s.inFlight,
      index ∈ (if kind = .dispatch then s.inFlight ++ [s.nextToStart] else s.inFlight) := by
    intro index hindex
    split
    · exact List.mem_append_left _ hindex
    · exact hindex
  refine h.orThrow (hphase ▸ nofun) fun hfailure => ⟨⟨?_, h.placed.next_le, ?_, ?_, ?_,
    fun index hrunning => ?_, ?_, fun index => ?_, h.placed.aborted⟩, ?_⟩
  · exact hlength ▸ h.placed.ledger
  · exact hlength ▸ h.placed.committed_le
  · exact hlength ▸ h.placed.calls_le
  · exact h.placed.set ((hpreparing _).mpr rfl) nofun (by cases kind <;> nofun)
  · rcases getElem?_set_cases hrunning with ⟨rfl, hkind⟩ | ⟨_, hother⟩
    · cases kind with
      | dispatch => exact List.mem_append_right _ (List.mem_singleton_self _)
      | postResult | finalResult => cases hkind
    · exact hflight index (h.placed.running index hother)
  · dsimp only
    split
    · rw [List.length_append]
      exact hroom
    · exact h.placed.room
  · dsimp only
    rw [hlength]
    exact h.placed.exclusive index
  · exact
      { modes := fun _ => hlength ▸ hmodes
        within := fun _ => h.standing.within (hphase ▸ nofun)
        skips := fun hskip => absurd hskip (h.standing.no_skips (hphase ▸ nofun))
        unprepared := fun _ _ index hindex => by
          rcases getElem?_set_cases hindex with ⟨_, hkind⟩ | ⟨hne, hother⟩
          · cases kind <;> cases hkind
          · exact hne ((hpreparing index).mp hother)
        rejected := fun _ index hindex => by
          rcases getElem?_set_cases hindex with ⟨_, hkind⟩ | ⟨_, hother⟩
          · cases kind <;> cases hkind
          · obtain ⟨hfailed, hmem⟩ := h.standing.rejected (hphase ▸ rfl) index hother
            exact ⟨hfailed, hflight index hmem⟩
        counted := fun _ => hlength ▸ hlast
        calm := nofun
        choosing := nofun
        preparing := nofun
        finalizing := nofun
        racing := nofun
        failure := nofun
        done := nofun
        failed := nofun }

theorem Scheduled.commit (h : s.Scheduled total maxParallelToolCalls) (hfrom : s.phase.counted = true)
    {post : Bool} (hsettled : s.calls[s.committed]? = some (.settled post))
    (result : ToolExecutionResult ρ κ) : (s.commit result).Scheduled total maxParallelToolCalls := by
  have hless := (List.getElem?_eq_some_iff.mp hsettled).choose
  have hlength : (s.calls.set s.committed .committed).length = s.calls.length := List.length_set
  refine ⟨⟨?_, ?_, ?_, ?_, fun index state hstate => ?_, fun index hrunning => ?_, h.placed.room,
    fun index hmode hindex => ?_, h.placed.aborted⟩, ?_⟩
  · exact hlength ▸ h.placed.ledger.commit hless result
  · exact Nat.le_succ_of_le h.placed.next_le
  · exact hlength ▸ hless
  · exact hlength ▸ h.placed.calls_le
  · dsimp only [ToolScheduler.commit]
    rcases getElem?_set_cases hstate with ⟨rfl, rfl⟩ | ⟨hne, hother⟩
    · exact ⟨fun _ => Nat.lt_succ_self _, fun _ => rfl⟩
    · rw [h.placed.committed_iff index state hother]
      omega
  · rcases getElem?_set_cases hrunning with ⟨_, hstate⟩ | ⟨_, hother⟩
    · cases hstate
    · exact h.placed.running index hother
  · dsimp only [ToolScheduler.commit]
    rw [hlength]
    exact h.placed.exclusive index hmode (Nat.le_of_succ_le hindex)
  · exact
      { modes := fun _ => hlength ▸ h.standing.modes (counted_ne hfrom rfl)
        within := fun _ => h.standing.within (counted_ne hfrom rfl)
        skips := fun hskip => by
          have hnone := h.standing.no_skips (counted_ne hfrom rfl)
          dsimp only [ToolScheduler.commit, CallLedger.accept, CallLedger.appendToolResult] at hskip
          rw [List.any_append, Bool.or_eq_true] at hskip
          exact hskip.elim (fun hbefore => absurd hbefore hnone) nofun
        unprepared := fun _ _ index hindex => by
          rcases getElem?_set_cases hindex with ⟨_, hstate⟩ | ⟨_, hother⟩
          · cases hstate
          · exact h.standing.unprepared (counted_stopped hfrom) (counted_ne hfrom rfl) index hother
        rejected := fun _ index hindex => by
          rcases getElem?_set_cases hindex with ⟨_, hstate⟩ | ⟨_, hother⟩
          · cases hstate
          · exact h.standing.rejected (counted_stopped hfrom) index hother
        counted := fun _ => hlength ▸ h.standing.counted hfrom
        calm := nofun
        choosing := nofun
        preparing := nofun
        finalizing := nofun
        racing := nofun
        failure := nofun
        done := nofun
        failed := nofun }

theorem Scheduled.commitReady (h : s.Scheduled total maxParallelToolCalls)
    (hphase : s.phase = .committing) (finished : ToolExecutionResult ρ κ) :
    (s.commitReady finished).Scheduled total maxParallelToolCalls := by
  rw [ToolScheduler.commitReady]
  split
  · next hsettled =>
    exact h.move (hphase ▸ rfl) rfl h.placed.aborted nofun (fun _ => hsettled) nofun
  · next hsettled => exact h.commit (hphase ▸ rfl) hsettled finished
  · next hpost hfinal =>
    refine h.move (hphase ▸ rfl) rfl h.placed.aborted (fun _ post hsettled => ?_) nofun nofun
    cases post with
    | true => exact absurd hsettled hpost
    | false => exact absurd hsettled hfinal

theorem Scheduled.resumeStarted (h : s.Scheduled total maxParallelToolCalls)
    (hphase : s.phase = .started) : s.resumeStarted.Scheduled total maxParallelToolCalls :=
  h.orThrow (hphase ▸ nofun) fun _ =>
    h.move (hphase ▸ rfl) rfl h.placed.aborted nofun nofun nofun

theorem Scheduled.resumeReleased (h : s.Scheduled total maxParallelToolCalls)
    (hphase : s.phase = .released) : s.resumeReleased.Scheduled total maxParallelToolCalls := by
  refine h.orThrow (hphase ▸ nofun) fun _ => h.move (hphase ▸ rfl) rfl (fun haborted => ?_)
    (fun _ => h.standing.calm (hphase ▸ rfl)) nofun nofun
  rcases (Bool.or_eq_true _ _).mp haborted with hbefore | hsignal
  · exact h.placed.aborted hbefore
  · exact hsignal

theorem Scheduled.race (h : s.Scheduled total maxParallelToolCalls) (hphase : s.phase = .racing)
    {index : Nat} (hended : s.hasEnded index) :
    (s.race index).Scheduled total maxParallelToolCalls := by
  have hplaced : ({ s with inFlight := s.inFlight.erase index } :
      ToolScheduler ρ κ).Placed total maxParallelToolCalls :=
    { h.placed with
      running := fun other hrunning => by
        refine (List.mem_erase_of_ne ?_).mpr (h.placed.running other hrunning)
        rintro rfl
        exact hended hrunning
      room := Nat.le_trans List.length_erase_le h.placed.room }
  have hmodes := h.standing.modes (hphase ▸ nofun)
  have hwithin := h.standing.within (hphase ▸ nofun)
  have hskips := h.standing.no_skips (hphase ▸ nofun)
  rw [ToolScheduler.race, ToolScheduler.orThrow]
  dsimp only
  split
  · exact scheduled_fail hplaced hmodes hwithin hskips
  · next hfailure =>
    exact
      { placed := { hplaced with }
        standing :=
          { modes := fun _ => hmodes
            within := fun _ => hwithin
            skips := fun hskip => absurd hskip hskips
            unprepared := fun _ _ => h.standing.unprepared (hphase ▸ rfl) (hphase ▸ nofun)
            rejected := fun _ other hrejected =>
              absurd (h.standing.rejected (hphase ▸ rfl) other hrejected).1 hfailure
            counted := fun _ => h.standing.counted (hphase ▸ rfl)
            calm := nofun
            choosing := nofun
            preparing := nofun
            finalizing := nofun
            racing := nofun
            failure := nofun
            done := nofun
            failed := nofun } }

theorem Scheduled.drained (h : s.Scheduled total maxParallelToolCalls) (hphase : s.phase = .draining)
    (hended : ∀ index ∈ s.inFlight, s.hasEnded index) :
    ({ s with phase := .failed } : ToolScheduler ρ κ).Scheduled total maxParallelToolCalls where
  placed := { h.placed with }
  standing :=
    { modes := fun _ => h.standing.modes (hphase ▸ nofun)
      within := fun _ => h.standing.within (hphase ▸ nofun)
      skips := fun hskip => absurd hskip (h.standing.no_skips (hphase ▸ nofun))
      failure := fun _ => h.standing.failure (hphase ▸ rfl)
      failed := fun _ index hrunning => hended index (h.placed.running index hrunning) hrunning
      unprepared := nofun
      rejected := nofun
      calm := nofun
      counted := nofun
      choosing := nofun
      preparing := nofun
      finalizing := nofun
      racing := nofun
      done := nofun }

theorem Scheduled.outcome (h : s.Scheduled total maxParallelToolCalls) {index : Nat}
    (hrunning : s.calls[index]? = some .running) {state : CallState} {failure : Bool}
    (hstate : state ≠ .committed ∧ state ≠ .running ∧ state ≠ .preparing)
    (hfailure : s.schedulerFailure = true → failure = true)
    (hrejected : state = .rejected → failure = true) :
    ({ s with calls := s.calls.set index state, schedulerFailure := failure } :
      ToolScheduler ρ κ).Scheduled total maxParallelToolCalls := by
  have hlength : (s.calls.set index state).length = s.calls.length := List.length_set
  have hmem := h.placed.running index hrunning
  have hkept : ∀ (place : Nat) found, found ≠ state →
      (s.calls.set index state)[place]? = some found → s.calls[place]? = some found := by
    intro place found hne hfound
    rcases getElem?_set_cases hfound with ⟨_, heq⟩ | ⟨_, hother⟩
    · exact absurd heq.symm hne
    · exact hother
  have hother : ∀ (place : Nat) found, found ≠ .running → s.calls[place]? = some found →
      (s.calls.set index state)[place]? = some found := by
    intro place found hne hfound
    rw [List.getElem?_set_ne, hfound]
    rintro rfl
    exact hne (Option.some.inj (hfound.symm.trans hrunning))
  refine ⟨⟨?_, h.placed.next_le, ?_, ?_, h.placed.set hrunning nofun hstate.1, fun place hplace => ?_,
    h.placed.room, fun place => ?_, h.placed.aborted⟩, ?_⟩
  · exact hlength ▸ h.placed.ledger
  · exact hlength ▸ h.placed.committed_le
  · exact hlength ▸ h.placed.calls_le
  · exact h.placed.running place (hkept place _ hstate.2.1.symm hplace)
  · dsimp only
    rw [hlength]
    exact h.placed.exclusive place
  · exact
      { modes := fun hphase => hlength ▸ h.standing.modes hphase
        within := h.standing.within
        skips := h.standing.skips
        unprepared := fun hstopped hphase place hplace =>
          h.standing.unprepared hstopped hphase place (hkept place _ hstate.2.2.symm hplace)
        rejected := fun hstopped place hplace => by
          rcases getElem?_set_cases hplace with ⟨rfl, heq⟩ | ⟨_, hplace⟩
          · exact ⟨hrejected heq, hmem⟩
          · obtain ⟨hfailed, hflight⟩ := h.standing.rejected hstopped place hplace
            exact ⟨hfailure hfailed, hflight⟩
        calm := fun hcalm post hpost => by
          rcases getElem?_set_cases hpost with ⟨heq, _⟩ | ⟨_, hpost⟩
          · exact heq ▸ hmem
          · exact h.standing.calm hcalm post hpost
        counted := fun hcounted => hlength ▸ h.standing.counted hcounted
        choosing := fun hphase => hlength ▸ h.standing.choosing hphase
        preparing := fun hphase => by
          obtain ⟨hlast, hpreparing, hroom⟩ := h.standing.preparing hphase
          refine ⟨hlength ▸ hlast, fun place => ⟨fun hplace => ?_, fun hplace => ?_⟩, hroom⟩
          · exact (hpreparing place).mp (hkept place _ hstate.2.2.symm hplace)
          · exact hother place _ nofun ((hpreparing place).mpr hplace)
        finalizing := fun hphase => hother _ _ nofun (h.standing.finalizing hphase)
        racing := h.standing.racing
        failure := fun hstopped => hfailure (h.standing.failure hstopped)
        done := h.standing.done
        failed := fun hphase => absurd hrunning (h.standing.failed hphase index) }

theorem Scheduled.appendOther (h : s.Scheduled total maxParallelToolCalls) :
    ({ s with ledger := s.ledger.appendOther } :
      ToolScheduler ρ κ).Scheduled total maxParallelToolCalls where
  placed := { h.placed with ledger := h.placed.ledger.appendOther }
  standing :=
    { h.standing with
      skips := fun hskip => by
        dsimp only [CallLedger.appendOther] at hskip
        rw [List.any_append, Bool.or_eq_true] at hskip
        exact h.standing.skips (hskip.resolve_right nofun) }

theorem Scheduled.abort (h : s.Scheduled total maxParallelToolCalls) :
    ({ s with signalAborted := true } : ToolScheduler ρ κ).Scheduled total
      maxParallelToolCalls where
  placed := { h.placed with aborted := fun _ => rfl }
  standing := { h.standing with skips := fun hskip => ⟨(h.standing.skips hskip).1, rfl⟩ }

theorem Scheduled.step {next : ToolScheduler ρ κ} {op : SchedulerOp ρ κ}
    (h : s.Scheduled total maxParallelToolCalls)
    (hstep : s.step total maxParallelToolCalls op = some next) :
    next.Scheduled total maxParallelToolCalls := by
  cases op with
  | choose mode =>
    obtain ⟨hphase, hnext⟩ := Option.ite_none_right_eq_some.mp hstep
    exact Option.some.inj hnext ▸ h.choose hphase mode
  | fill mode =>
    obtain ⟨hphase, hnext⟩ := Option.ite_none_right_eq_some.mp hstep
    exact Option.some.inj hnext ▸ h.fillPool hphase mode
  | prepared kind =>
    obtain ⟨hphase, hnext⟩ := Option.ite_none_right_eq_some.mp hstep
    exact Option.some.inj hnext ▸ h.prepared hphase kind
  | prepareRejected =>
    obtain ⟨hphase, hnext⟩ := Option.ite_none_right_eq_some.mp hstep
    exact Option.some.inj hnext ▸ h.fail (hphase ▸ nofun)
  | resume =>
    rw [ToolScheduler.step] at hstep
    split at hstep
    · next hphase => exact Option.some.inj hstep ▸ h.resumeStarted hphase
    · obtain ⟨hphase, hnext⟩ := Option.ite_none_right_eq_some.mp hstep
      exact Option.some.inj hnext ▸ h.resumeReleased hphase
  | commitReady finished =>
    obtain ⟨hphase, hnext⟩ := Option.ite_none_right_eq_some.mp hstep
    exact Option.some.inj hnext ▸ h.commitReady hphase finished
  | finalized result =>
    obtain ⟨hphase, hnext⟩ := Option.ite_none_right_eq_some.mp hstep
    exact Option.some.inj hnext ▸ h.commit (hphase ▸ rfl) (h.standing.finalizing hphase) result
  | finalizeRejected =>
    obtain ⟨hphase, hnext⟩ := Option.ite_none_right_eq_some.mp hstep
    exact Option.some.inj hnext ▸ h.fail (hphase ▸ nofun)
  | race index =>
    obtain ⟨⟨hphase, _, hended⟩, hnext⟩ := Option.ite_none_right_eq_some.mp hstep
    exact Option.some.inj hnext ▸ h.race hphase hended
  | drained =>
    obtain ⟨⟨hphase, hended⟩, hnext⟩ := Option.ite_none_right_eq_some.mp hstep
    exact Option.some.inj hnext ▸ h.drained hphase hended
  | settle index needsPost =>
    obtain ⟨hrunning, hnext⟩ := Option.ite_none_right_eq_some.mp hstep
    exact Option.some.inj hnext ▸ h.outcome hrunning ⟨nofun, nofun, nofun⟩ id nofun
  | reject index =>
    obtain ⟨hrunning, hnext⟩ := Option.ite_none_right_eq_some.mp hstep
    exact Option.some.inj hnext ▸ h.outcome hrunning ⟨nofun, nofun, nofun⟩ (fun _ => rfl)
      fun _ => rfl
  | abort => exact Option.some.inj hstep ▸ h.abort
  | other => exact Option.some.inj hstep ▸ h.appendOther

theorem scheduled_run {before : Nat} {signalAborted : Bool} {ops : List (SchedulerOp ρ κ)}
    (h : Foundation.run (step total maxParallelToolCalls) (initial before total signalAborted) ops =
      some s) : s.Scheduled total maxParallelToolCalls :=
  Foundation.run_invariant (Scheduled total maxParallelToolCalls)
    (fun _ _ _ hscheduled hstep => hscheduled.step hstep) h (scheduled_initial before signalAborted)

def runningCalls (s : ToolScheduler ρ κ) : List Nat :=
  (List.range s.calls.length).filter fun index => decide (s.calls[index]? = some .running)

theorem Placed.runningCalls_le (h : s.Placed total maxParallelToolCalls) :
    s.runningCalls.length ≤ maxParallelToolCalls := by
  have hsubset : s.runningCalls ⊆ s.inFlight := by
    intro index hindex
    exact h.running index (of_decide_eq_true (List.mem_filter.mp hindex).2)
  have hnodup : s.runningCalls.Nodup := List.nodup_range.filter _
  exact Nat.le_trans (hnodup.subperm hsubset).length_le h.room

structure Sound (total maxParallelToolCalls : Nat) (s : ToolScheduler ρ κ) : Prop where
  calls : s.ledger.log.filterMap LogEntry.called = List.range s.calls.length
  results : s.ledger.log.filterMap LogEntry.answered = List.range s.committed
  counts : s.committed ≤ s.calls.length ∧ s.calls.length ≤ total
  cites : ∀ (place index seq : Nat) result,
    s.ledger.log[place]? = some (.toolResult index seq result) →
    seq < place ∧ s.ledger.log[seq]? = some (.toolCall index)
  contexts : s.ledger.contexts = s.ledger.log.flatMap LogEntry.contexts
  concluded : s.ledger.concluded = s.ledger.log.any LogEntry.concludes
  bounded : s.runningCalls.length ≤ maxParallelToolCalls
  /-- All calls before an exclusive one have their results, and none is started before it has. -/
  alone : ∀ index : Nat, s.modes[index]? = some .exclusive → s.committed ≤ index →
    s.committed = index ∧ s.calls.length = index + 1
  skips : s.ledger.log.any LogEntry.skip = true → s.phase = .done ∧ s.signalAborted = true
  done : s.phase = .done → s.committed = total
  failed : s.phase = .failed → s.schedulerFailure = true ∧ s.runningCalls = []

/-- However the dispatches settle, the calls and their results stand in the order of the model, an
exclusive call runs alone, and no result is made up but for an abort. -/
theorem tool_calls_sound {before : Nat} {signalAborted : Bool} {ops : List (SchedulerOp ρ κ)}
    (h : Foundation.run (step total maxParallelToolCalls) (initial before total signalAborted) ops =
      some s) : s.Sound total maxParallelToolCalls := by
  obtain ⟨hplaced, hstanding⟩ := scheduled_run h
  refine ⟨hplaced.ledger.calls, hplaced.ledger.results, ⟨hplaced.committed_le, hplaced.calls_le⟩,
    hplaced.ledger.cites, hplaced.ledger.contexts, hplaced.ledger.concluded, hplaced.runningCalls_le,
    fun index hmode hindex => ?_, hstanding.skips, hstanding.done, fun hphase => ⟨?_, ?_⟩⟩
  · obtain ⟨hlast, hnext, _⟩ := hplaced.exclusive index hmode hindex
    exact ⟨Nat.le_antisymm hindex (hnext ▸ hplaced.next_le), hlast.symm⟩
  · exact hstanding.failure (hphase ▸ rfl)
  · refine List.filter_eq_nil_iff.mpr fun index _ hrunning => ?_
    exact hstanding.failed hphase index (of_decide_eq_true hrunning)

/-- Two parallel calls settle the other way round, and an exclusive one follows. -/
def crossedRun : Option (ToolScheduler Nat Nat) :=
  Foundation.run (step 3 2) (initial 1 3 false)
    [.choose .parallel, .fill .parallel, .prepared .dispatch, .resume, .commitReady ⟨0, [], false⟩,
      .resume, .fill .parallel, .prepared .dispatch, .other, .settle 1 false, .resume,
      .commitReady ⟨0, [], false⟩, .resume, .fill .parallel, .race 1, .commitReady ⟨0, [], false⟩,
      .resume, .fill .exclusive, .settle 0 true, .race 0, .commitReady ⟨0, [], false⟩,
      .finalized ⟨10, [7], false⟩, .commitReady ⟨11, [8], true⟩, .commitReady ⟨0, [], false⟩,
      .resume, .fill .exclusive, .choose .exclusive, .fill .parallel, .prepared .postResult, .resume,
      .commitReady ⟨0, [], false⟩, .finalized ⟨12, [9], false⟩, .commitReady ⟨0, [], false⟩, .resume,
      .fill .parallel]

theorem crossedRun_sound : (crossedRun.get rfl).Sound 3 2 ∧
    (crossedRun.get rfl).phase = .done ∧ (crossedRun.get rfl).ledger.contexts = [7, 8, 9] ∧
    (crossedRun.get rfl).ledger.concluded = true :=
  ⟨tool_calls_sound (Option.some_get _).symm, rfl, rfl, rfl⟩

end ToolScheduler

end Harness.AgentLoop
