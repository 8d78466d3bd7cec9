import Harness.LlmRetry.Executor
import Mathlib.Data.List.Induction

namespace Harness.LlmRetry

open Harness.Foundation

namespace ResolvedRetryBackoff

variable (config : ResolvedRetryBackoff)

theorem max_nonneg : 0 ≤ config.maxDelayMs :=
  config.initial_pos.le.trans config.initial_le

theorem jitter_finite (random : Sample) :
    ∃ factor, (((Double.finite 1).sub (.finite config.jitterRatio)).add
      (((Double.finite 2).mul (.finite config.jitterRatio)).mul (.finite random.value))) =
        .finite factor ∧ 0 ≤ factor := by
  have hnonneg := config.jitter_nonneg
  have hle := config.jitter_le
  obtain ⟨rest, hrest, hrest0, hrest1⟩ :=
    @Double.round_small (1 + -config.jitterRatio) (by linarith) (by linarith)
  obtain ⟨double, hdouble, hdouble0, hdouble1⟩ :=
    @Double.round_small (2 * config.jitterRatio) (by linarith) (by linarith)
  have hscaled : 0 ≤ double * random.value ∧ double * random.value ≤ double :=
    ⟨mul_nonneg hdouble0 random.nonneg, mul_le_of_le_one_right hdouble0 random.le_one⟩
  obtain ⟨spread, hspread, hspread0, hspread1⟩ :=
    @Double.round_small (double * random.value) hscaled.1 (by linarith [hscaled.2])
  obtain ⟨factor, hfactor, hfactor0, -⟩ :=
    @Double.round_small (rest + spread) (by linarith) (by linarith [hscaled.2])
  refine ⟨factor, ?_, hfactor0⟩
  have hsub : (Double.finite 1).sub (.finite config.jitterRatio) = .finite rest := hrest
  have hmul : (Double.finite 2).mul (.finite config.jitterRatio) = .finite double := hdouble
  rw [hsub, hmul, show (Double.finite double).mul (.finite random.value) = .finite spread from hspread]
  exact hfactor

end ResolvedRetryBackoff

theorem localDelay_bounded (config : ResolvedRetryBackoff) (retry : Nat) (random : Sample) :
    ∃ delay, localDelay config retry random = .finite delay ∧ 0 ≤ delay ∧
      delay ≤ config.maxDelayMs := by
  obtain ⟨factor, hfactor, hfactor0⟩ := config.jitter_finite random
  have hpower : (Double.twoPow (min (retry - 1) 1024)).Nonneg :=
    Double.round_nonneg (pow_nonneg (by norm_num) _)
  obtain ⟨exponential, hexponential, hexponential0, -⟩ :=
    Double.min_bounded (Double.mul_nonneg_of_pos config.initial_pos hpower) config.max_nonneg
  unfold localDelay
  dsimp only
  rw [hexponential, hfactor]
  exact Double.min_bounded (Double.round_nonneg (mul_nonneg hexponential0 hfactor0)) config.max_nonneg

theorem delayFor_bounded {policy : ResolvedRetryPolicy} {failure : LlmFailure} {retry : Nat}
    {random : Sample} {delayMs : Double} (h : delayFor policy failure retry random = some delayMs) :
    ∃ delay, delayMs = .finite delay ∧ 0 ≤ delay ∧ delay ≤ policy.backoff.maxDelayMs := by
  have hlocal := localDelay_bounded policy.backoff retry random
  unfold delayFor at h
  split at h
  · rename_i after hafter
    split at h
    · rename_i hpos
      split at h
      · split at h
        · cases h
          exact hlocal
        · cases h
      · rename_i hcap
        cases h
        exact ⟨after, rfl, hpos.le, not_lt.mp hcap⟩
    · cases h
      exact hlocal
  · cases h
    exact hlocal

def Accepted (log : List SessionEvent) : Prop :=
  ∀ index event, log[index]? = some event → validate (log.take index) event = .ok ()

def Bounded (log : List SessionEvent) : Prop :=
  ∀ data, .retry data ∈ log → ∃ delay, data.delayMs = .finite delay ∧ 0 ≤ delay ∧
    delay ≤ data.policyKey.backoff.maxDelayMs

theorem bounded_nil : Bounded [] :=
  fun _ hmem => absurd hmem List.not_mem_nil

theorem bounded_singleton {event : SessionEvent} (h : ∀ chain, event.retryOf chain = none) :
    Bounded [event] := by
  intro data hdata
  cases List.mem_singleton.mp hdata
  have hnone := h data.chain
  rw [SessionEvent.retryOf, if_pos rfl] at hnone
  cases hnone

theorem accepted_snoc {log : List SessionEvent} {event : SessionEvent} :
    Accepted (log ++ [event]) ↔ Accepted log ∧ validate log event = .ok () := by
  constructor
  · intro h
    constructor
    · intro index peer hget
      have hlt := (List.getElem?_eq_some_iff.mp hget).1
      have hold := h index peer (by rwa [List.getElem?_append_left hlt])
      rwa [List.take_append_of_le_length hlt.le] at hold
    · have hlast := h log.length event (by rw [List.getElem?_append_right le_rfl, Nat.sub_self]; rfl)
      rwa [List.take_left] at hlast
  · rintro ⟨hlog, hevent⟩ index peer hget
    by_cases hlt : index < log.length
    · rw [List.getElem?_append_left hlt] at hget
      rw [List.take_append_of_le_length hlt.le]
      exact hlog index peer hget
    · have hindex : index = log.length := by
        have hbound := (List.getElem?_eq_some_iff.mp hget).1
        rw [List.length_append, List.length_singleton] at hbound
        omega
      subst hindex
      rw [List.getElem?_append_right le_rfl, Nat.sub_self] at hget
      cases hget
      rwa [List.take_left]

theorem priorPolicyRetry_snoc (log : List SessionEvent) (event : SessionEvent) (chain : Chain) :
    priorPolicyRetry (log ++ [event]) chain =
      (event.retryOf chain).or (priorPolicyRetry log chain) := by
  unfold priorPolicyRetry
  rw [List.reverse_append, List.reverse_singleton, List.singleton_append, List.findSome?_cons]
  cases event.retryOf chain <;> rfl

theorem mem_of_prior {log : List SessionEvent} {chain : Chain} {prior : LlmRetryEventData}
    (h : priorPolicyRetry log chain = some prior) : .retry prior ∈ log ∧ prior.chain = chain := by
  obtain ⟨event, hmem, hevent⟩ := List.exists_of_findSome?_eq_some h
  unfold SessionEvent.retryOf at hevent
  split at hevent
  · split at hevent
    · cases hevent
      exact ⟨List.mem_reverse.mp hmem, ‹_›⟩
    · cases hevent
  · cases hevent

theorem mem_of_scheduled {log : List SessionEvent} {retryId : String} {retry : Nat}
    {attempt : LlmRetryEventData} (h : scheduled log retryId retry = some attempt) :
    .retry attempt ∈ log ∧ attempt.retryId = retryId ∧ attempt.retry = retry := by
  obtain ⟨event, hmem, hevent⟩ := List.exists_of_findSome?_eq_some h
  split at hevent
  · split at hevent
    · rename_i hboth
      cases hevent
      exact ⟨List.mem_reverse.mp hmem, hboth⟩
    · cases hevent
  · cases hevent

theorem scheduled_last (log : List SessionEvent) (data : LlmRetryEventData) :
    scheduled (log ++ [.retry data]) data.retryId data.retry = some data := by
  unfold scheduled
  rw [List.reverse_append, List.reverse_singleton, List.singleton_append, List.findSome?_cons]
  dsimp only
  rw [if_pos ⟨rfl, rfl⟩]

theorem scheduled_other (log : List SessionEvent) (retryId : String) (retry : Nat) :
    scheduled (log ++ [.other]) retryId retry = scheduled log retryId retry := by
  unfold scheduled
  rw [List.reverse_append, List.reverse_singleton, List.singleton_append, List.findSome?_cons]

theorem validateChain_ok {history : List SessionEvent} {data : LlmRetryEventData}
    (h : validateChain history data = .ok ()) :
    data.retry = previousRetry history data.chain + 1 ∧
      (∀ prior, priorPolicyRetry history data.chain = some prior → prior.retryId = data.retryId) ∧
        (priorPolicyRetry history data.chain = none →
          some data.retryId ∉ history.map (·.retryIdOf)) := by
  obtain ⟨_, hretry, hrest⟩ := bind_eq_ok.mp h
  refine ⟨of_decide_eq_true (require_eq_ok.mp hretry), fun prior hprior => ?_, fun hnone => ?_⟩
  · rw [hprior] at hrest
    exact of_decide_eq_true (require_eq_ok.mp hrest)
  · rw [hnone] at hrest
    exact of_decide_eq_true (require_eq_ok.mp hrest)

theorem validateRetry_ok {history : List SessionEvent} {data : LlmRetryEventData}
    (h : validateRetry history data = .ok ()) :
    data.retryId ≠ "" ∧ validateMode data = .ok () ∧ validateChain history data = .ok () := by
  obtain ⟨_, hid, h⟩ := bind_eq_ok.mp h
  obtain ⟨_, -, h⟩ := bind_eq_ok.mp h
  obtain ⟨_, -, h⟩ := bind_eq_ok.mp h
  obtain ⟨_, -, h⟩ := bind_eq_ok.mp h
  obtain ⟨_, hmode, h⟩ := bind_eq_ok.mp h
  obtain ⟨_, -, h⟩ := bind_eq_ok.mp h
  obtain ⟨_, -, h⟩ := bind_eq_ok.mp h
  obtain ⟨_, -, h⟩ := bind_eq_ok.mp h
  obtain ⟨_, -, h⟩ := bind_eq_ok.mp h
  exact ⟨of_decide_eq_true (require_eq_ok.mp hid), hmode, h⟩

theorem validateStarted_ok {history : List SessionEvent} {data : LlmRetryStartedEventData}
    (h : validateStarted history data = .ok ()) :
    (∃ attempt, scheduled history data.retryId data.retry = some attempt) ∧
      some (data.retryId, data.retry) ∉ history.map (·.startedOf) := by
  obtain ⟨_, -, h⟩ := bind_eq_ok.mp h
  obtain ⟨attempt, hattempt, h⟩ := bind_eq_ok.mp h
  obtain ⟨_, -, h⟩ := bind_eq_ok.mp h
  exact ⟨⟨attempt, expect_eq_ok.mp hattempt⟩, of_decide_eq_true (require_eq_ok.mp h)⟩

/-- Ids name one chain each, attempts only rise, and only scheduled attempts start. -/
structure Chained (log : List SessionEvent) : Prop where
  ids : ∀ data peer, .retry data ∈ log → .retry peer ∈ log → data.retryId = peer.retryId →
    data.chain = peer.chain
  rising : ∀ data, .retry data ∈ log → data.retry ≤ previousRetry log data.chain
  starts : ∀ started, .retryStarted started ∈ log → ∃ data, .retry data ∈ log ∧
    data.retryId = started.retryId ∧ data.retry = started.retry
  once : (log.filterMap (·.startedOf)).Nodup

theorem mem_retryIds {log : List SessionEvent} {data : LlmRetryEventData} (h : .retry data ∈ log) :
    some data.retryId ∈ log.map (·.retryIdOf) :=
  List.mem_map.mpr ⟨_, h, rfl⟩

theorem previousRetry_snoc (log : List SessionEvent) (event : SessionEvent) (chain : Chain) :
    previousRetry (log ++ [event]) chain =
      match event.retryOf chain with
      | some data => data.retry
      | none => previousRetry log chain := by
  unfold previousRetry
  rw [priorPolicyRetry_snoc]
  cases event.retryOf chain <;> rfl

theorem Accepted.chained {log : List SessionEvent} (h : Accepted log) : Chained log := by
  induction log using List.reverseRecOn with
  | nil =>
    exact ⟨fun _ _ hmem => absurd hmem List.not_mem_nil, fun _ hmem => absurd hmem List.not_mem_nil,
      fun _ hmem => absurd hmem List.not_mem_nil, List.nodup_nil⟩
  | append_singleton log event ih =>
    obtain ⟨hlog, hevent⟩ := accepted_snoc.mp h
    have hchained := ih hlog
    have hmem : ∀ {peer}, peer ∈ log ++ [event] → peer ∈ log ∨ peer = event :=
      fun hother => (List.mem_append.mp hother).imp_right List.mem_singleton.mp
    cases event with
    | retry data =>
      obtain ⟨hretry, hprior, hfresh⟩ := validateChain_ok (validateRetry_ok hevent).2.2
      have hold : ∀ peer, .retry peer ∈ log → peer.retryId = data.retryId →
          peer.chain = data.chain := by
        intro peer hother hid
        cases hfound : priorPolicyRetry log data.chain with
        | none => exact absurd (hid ▸ mem_retryIds hother) (hfresh hfound)
        | some prior =>
          obtain ⟨hin, hchain⟩ := mem_of_prior hfound
          rw [← hchain]
          exact hchained.ids peer prior hother hin (hid.trans (hprior prior hfound).symm)
      refine ⟨?_, ?_, ?_, ?_⟩
      · intro first second hfirst hsecond hid
        rcases hmem hfirst with hfirst | heq
        · rcases hmem hsecond with hsecond | heq
          · exact hchained.ids first second hfirst hsecond hid
          · cases heq
            exact hold first hfirst hid
        · cases heq
          rcases hmem hsecond with hsecond | heq
          · exact (hold second hsecond hid.symm).symm
          · cases heq
            rfl
      · intro peer hother
        rw [previousRetry_snoc, SessionEvent.retryOf]
        rcases hmem hother with hother | heq
        · split
          · rename_i hsome
            split at hsome
            · rename_i hchain
              cases hsome
              have hle := hchained.rising peer hother
              rw [← hchain] at hle
              omega
            · cases hsome
          · exact hchained.rising peer hother
        · cases heq
          rw [if_pos rfl]
      · intro started hstarted
        rcases hmem hstarted with hold | heq
        · obtain ⟨attempt, hattempt, hfacts⟩ := hchained.starts started hold
          exact ⟨attempt, List.mem_append_left _ hattempt, hfacts⟩
        · cases heq
      · rw [List.filterMap_append]
        exact (List.append_nil _).symm ▸ hchained.once
    | retryStarted data =>
      obtain ⟨⟨attempt, hattempt⟩, hnew⟩ := validateStarted_ok hevent
      refine ⟨?_, ?_, ?_, ?_⟩
      · intro first second hfirst hsecond
        exact hchained.ids first second ((hmem hfirst).resolve_right nofun)
          ((hmem hsecond).resolve_right nofun)
      · intro peer hother
        rw [previousRetry_snoc]
        exact hchained.rising peer ((hmem hother).resolve_right nofun)
      · intro started hstarted
        rcases hmem hstarted with hold | heq
        · obtain ⟨found, hfound, hfacts⟩ := hchained.starts started hold
          exact ⟨found, List.mem_append_left _ hfound, hfacts⟩
        · cases heq
          obtain ⟨hin, hfacts⟩ := mem_of_scheduled hattempt
          exact ⟨attempt, List.mem_append_left _ hin, hfacts⟩
      · rw [List.filterMap_append, List.nodup_append]
        refine ⟨hchained.once, List.nodup_cons.mpr ⟨List.not_mem_nil, List.nodup_nil⟩, ?_⟩
        rintro pair hpair last hlast rfl
        cases List.mem_singleton.mp hlast
        obtain ⟨peer, hother, hpair⟩ := List.mem_filterMap.mp hpair
        exact hnew (List.mem_map.mpr ⟨peer, hother, hpair⟩)
    | _ =>
      refine ⟨?_, ?_, ?_, ?_⟩
      · intro first second hfirst hsecond
        exact hchained.ids first second ((hmem hfirst).resolve_right nofun)
          ((hmem hsecond).resolve_right nofun)
      · intro peer hother
        rw [previousRetry_snoc]
        exact hchained.rising peer ((hmem hother).resolve_right nofun)
      · intro started hstarted
        obtain ⟨found, hfound, hfacts⟩ :=
          hchained.starts started ((hmem hstarted).resolve_right nofun)
        exact ⟨found, List.mem_append_left _ hfound, hfacts⟩
      · rw [List.filterMap_append]
        exact (List.append_nil _).symm ▸ hchained.once

structure Chains (log : List SessionEvent) : Prop where
  contiguous : ∀ chain, (log.filterMap (SessionEvent.retryOf chain)).map (·.retry) =
    List.range' 1 (previousRetry log chain)
  owned : ∀ data peer, .retry data ∈ log → .retry peer ∈ log →
    (data.chain = peer.chain ↔ data.retryId = peer.retryId)
  capped : ∀ data maxRetries, .retry data ∈ log → data.mode = .normal maxRetries →
    data.retry ≤ maxRetries
  paired : ∀ started, .retryStarted started ∈ log → ∃ data, .retry data ∈ log ∧
    data.retryId = started.retryId ∧ data.retry = started.retry
  once : (log.filterMap (·.startedOf)).Nodup

theorem Accepted.contiguous {log : List SessionEvent} (h : Accepted log) (chain : Chain) :
    (log.filterMap (SessionEvent.retryOf chain)).map (·.retry) =
      List.range' 1 (previousRetry log chain) := by
  induction log using List.reverseRecOn with
  | nil => rfl
  | append_singleton log event ih =>
    obtain ⟨hlog, hevent⟩ := accepted_snoc.mp h
    rw [List.filterMap_append, List.map_append, ih hlog, previousRetry_snoc]
    cases hof : event.retryOf chain with
    | none => simp [hof]
    | some data =>
      have heq : event = .retry data ∧ data.chain = chain := by
        unfold SessionEvent.retryOf at hof
        split at hof
        · split at hof
          · cases hof
            exact ⟨rfl, ‹_›⟩
          · cases hof
        · cases hof
      have hretry := (validateChain_ok (validateRetry_ok (heq.1 ▸ hevent)).2.2).1
      rw [heq.2] at hretry
      dsimp only
      rw [hretry, List.range'_1_concat, List.filterMap_cons, hof, Nat.add_comm 1, ← hretry]
      rfl

theorem Accepted.prior {log : List SessionEvent} (h : Accepted log) {data : LlmRetryEventData}
    (hdata : .retry data ∈ log) :
    ∃ prior, priorPolicyRetry log data.chain = some prior ∧ prior.retryId = data.retryId := by
  induction log using List.reverseRecOn with
  | nil => cases hdata
  | append_singleton log event ih =>
    obtain ⟨hlog, hevent⟩ := accepted_snoc.mp h
    rw [priorPolicyRetry_snoc]
    rcases List.mem_append.mp hdata with hold | hnew
    · obtain ⟨prior, hprior, hid⟩ := ih hlog hold
      cases event with
      | retry last =>
        by_cases hchain : last.chain = data.chain
        · have hsame := (validateChain_ok (validateRetry_ok hevent).2.2).2.1 prior (hchain ▸ hprior)
          exact ⟨last, by rw [SessionEvent.retryOf, if_pos hchain]; rfl, hsame.symm.trans hid⟩
        · exact ⟨prior, by rw [SessionEvent.retryOf, if_neg hchain]; exact hprior, hid⟩
      | _ => exact ⟨prior, hprior, hid⟩
    · cases List.mem_singleton.mp hnew
      exact ⟨data, by rw [SessionEvent.retryOf, if_pos rfl]; rfl, rfl⟩

theorem Accepted.of_mem {log : List SessionEvent} (h : Accepted log) {event : SessionEvent}
    (hmem : event ∈ log) : ∃ history, validate history event = .ok () := by
  obtain ⟨index, hindex⟩ := List.mem_iff_getElem?.mp hmem
  exact ⟨_, h index event hindex⟩

theorem Accepted.chains {log : List SessionEvent} (h : Accepted log) : Chains log := by
  have hchained := h.chained
  refine ⟨h.contiguous, fun data peer hdata hother => ⟨fun hchain => ?_, ?_⟩, ?_, hchained.starts,
    hchained.once⟩
  · obtain ⟨prior, hprior, hid⟩ := h.prior hdata
    obtain ⟨same, hsame, hother⟩ := h.prior hother
    rw [← hchain, hprior] at hsame
    cases hsame
    exact hid.symm.trans hother
  · exact hchained.ids data peer hdata hother
  · intro data maxRetries hdata hmode
    obtain ⟨history, hok⟩ := h.of_mem hdata
    have hcap := (validateRetry_ok hok).2.1
    unfold validateMode at hcap
    rw [hmode] at hcap
    have hall := require_eq_ok.mp hcap
    rw [Bool.and_eq_true] at hall
    exact of_decide_eq_true hall.2

def StepOpen (log : List SessionEvent) (turn step : Nat) : Prop :=
  ¬ ((log.reverse.takeWhile (· ≠ .stepStart turn step)).length = log.length ∨
    (log.reverse.takeWhile (· ≠ .stepStart turn step)).any (·.isEnd) = true)

def InTurn (log : List SessionEvent) (turn : Nat) : Prop :=
  log.reverse.find? (·.isTurnBoundary) = some (.turnStart turn)

def InStep (log : List SessionEvent) (turn step : Nat) : Prop :=
  log.reverse.find? (·.isStepBoundary) = some (.stepStart turn step)

def Placed (log : List SessionEvent) : Phase → Prop
  | .idle => True
  | .turn turn => InTurn log turn
  | .step turn step => InTurn log turn ∧ InStep log turn step ∧ StepOpen log turn step

section Append

variable {log : List SessionEvent} {event : SessionEvent} {turn step : Nat}

theorem find_snoc (p : SessionEvent → Bool) :
    (log ++ [event]).reverse.find? p = if p event then some event else log.reverse.find? p := by
  rw [List.reverse_append, List.reverse_singleton, List.singleton_append, List.find?_cons]
  cases p event <;> rfl

theorem InTurn.snoc (h : InTurn log turn) (hevent : event.isTurnBoundary = false) :
    InTurn (log ++ [event]) turn := by
  rw [InTurn, find_snoc, if_neg (Bool.eq_false_iff.mp hevent)]
  exact h

theorem InStep.snoc (h : InStep log turn step) (hevent : event.isStepBoundary = false) :
    InStep (log ++ [event]) turn step := by
  rw [InStep, find_snoc, if_neg (Bool.eq_false_iff.mp hevent)]
  exact h

theorem StepOpen.snoc (h : StepOpen log turn step) (hend : event.isEnd = false)
    (hstart : event ≠ .stepStart turn step) : StepOpen (log ++ [event]) turn step := by
  have htake : (event :: log.reverse).takeWhile (fun peer => decide (peer ≠ .stepStart turn step)) =
      event :: log.reverse.takeWhile (fun peer => decide (peer ≠ .stepStart turn step)) :=
    List.takeWhile_cons_of_pos (by simpa using hstart)
  unfold StepOpen
  rw [List.reverse_append, List.reverse_singleton, List.singleton_append, htake, List.length_cons,
    List.length_append, List.length_singleton, List.any_cons, hend, Bool.false_or]
  rintro (hlength | hany)
  · exact h (.inl (Nat.succ_injective hlength))
  · exact h (.inr hany)

theorem inTurn_start : InTurn (log ++ [.turnStart turn]) turn := by
  rw [InTurn, find_snoc]
  rfl

theorem inStep_start : InStep (log ++ [.stepStart turn step]) turn step := by
  rw [InStep, find_snoc]
  rfl

theorem stepOpen_start : StepOpen (log ++ [.stepStart turn step]) turn step := by
  unfold StepOpen
  rw [List.reverse_append, List.reverse_singleton, List.singleton_append,
    List.takeWhile_cons_of_neg (by simp), List.length_append]
  rintro (hlength | hany)
  · cases hlength
  · cases hany

theorem lastHeader_snoc (hevent : event.headerProvider = none) :
    lastHeader (log ++ [event]) = lastHeader log := by
  unfold lastHeader
  rw [List.reverse_append, List.reverse_singleton, List.singleton_append, List.findSome?_cons,
    hevent]

theorem lastHeader_header (provider : String) :
    lastHeader (log ++ [.requestHeader provider]) = some provider := by
  unfold lastHeader
  rw [List.reverse_append, List.reverse_singleton, List.singleton_append, List.findSome?_cons]
  rfl

theorem Placed.snoc {phase : Phase} (h : Placed log phase) (hturn : event.isTurnBoundary = false)
    (hstep : event.isStepBoundary = false) : Placed (log ++ [event]) phase := by
  have hend : event.isEnd = false := by
    cases event with
    | turnEnd turn => cases hturn
    | stepEnd turn step => cases hstep
    | _ => rfl
  cases phase with
  | idle => trivial
  | turn turn => exact InTurn.snoc h hturn
  | step turn step =>
    refine ⟨h.1.snoc hturn, h.2.1.snoc hstep, h.2.2.snoc hend ?_⟩
    rintro rfl
    cases hstep

end Append

def Requested (state : RetryState) : Prop :=
  ∀ provider, state.request = some provider → provider ≠ "" ∧ lastHeader state.log = some provider

def Awaited (state : RetryState) : Prop :=
  ∀ data, state.waiting = some data → validateStarted state.log data = .ok ()

structure Conforming (start : List SessionEvent) (state : RetryState) : Prop where
  accepted : Accepted state.log
  grown : ∃ appended, state.log = start ++ appended ∧ Bounded appended
  placed : Placed state.log state.phase
  requested : Requested state
  awaited : Awaited state

/-- A failure is well formed, and attempts are countable, wherever the executor schedules one. -/
def WellFormed (state : RetryState) (op : RetryOp) : Prop :=
  match op, state.phase, state.request with
  | .fail failure (some policy) aborted downstream _ random, .step turn step, some provider =>
    let previous := previousRetry state.log ⟨turn, step, provider, retryPolicyKey policy⟩
    takesOver policy failure downstream = true → withinBudget policy previous = true →
      aborted = false → (delayFor policy failure (previous + 1) random).isSome = true →
        isOk (validateFailure failure) = true ∧ isSafe (previous + 1 : Nat) = true
  | _, _, _ => True

instance decidableWellFormed (state : RetryState) (op : RetryOp) :
    Decidable (WellFormed state op) := by
  unfold WellFormed
  split <;> infer_instance

theorem recover_some {events : List SessionEvent} {turn step : Nat} {provider : String}
    {failure : LlmFailure} {retryPolicy : Option ResolvedRetryPolicy} {aborted : Bool}
    {downstream : DownstreamOutcome} {randomUUID : String} {random : Sample}
    {data : LlmRetryEventData}
    (h : recover events turn step provider failure retryPolicy aborted downstream randomUUID random =
      some data) :
    ∃ policy, retryPolicy = some policy ∧ takesOver policy failure downstream = true ∧
      withinBudget policy (previousRetry events data.chain) = true ∧ aborted = false ∧
      delayFor policy failure data.retry random = some data.delayMs ∧
      data.chain = ⟨turn, step, provider, retryPolicyKey policy⟩ ∧ data.mode = policy.mode ∧
      data.failure = failure ∧ data.retry = previousRetry events data.chain + 1 ∧
      data.retryId = match priorPolicyRetry events data.chain with
        | some prior => prior.retryId
        | none => randomUUID := by
  obtain ⟨policy, hpolicy, h⟩ := Option.bind_eq_some_iff.mp h
  dsimp only at h
  split at h
  · rename_i hconditions
    simp only [Bool.and_eq_true, Bool.not_eq_true'] at hconditions
    obtain ⟨⟨htakes, hbudget⟩, haborted⟩ := hconditions
    obtain ⟨delayMs, hdelay, heq⟩ := Option.bind_eq_some_iff.mp h
    cases heq
    exact ⟨policy, hpolicy, htakes, hbudget, haborted, hdelay, rfl, rfl, rfl, rfl, rfl⟩
  · cases h

theorem inRange_delay {low high delay : ℚ} (hlow : low ≤ delay) (hhigh : delay ≤ high) :
    inRange low high (.finite delay) = true := by
  simp [inRange, Double.le, hlow, hhigh]

theorem validateRetry_recover {log : List SessionEvent} {turn step : Nat} {provider : String}
    {failure : LlmFailure} {policy : ResolvedRetryPolicy} {aborted : Bool}
    {downstream : DownstreamOutcome} {randomUUID : String} {random : Sample}
    {data : LlmRetryEventData} (hplaced : Placed log (.step turn step))
    (hprovider : provider ≠ "" ∧ lastHeader log = some provider)
    (hids : ∀ prior, .retry prior ∈ log → prior.retryId ≠ "")
    (hfresh : randomUUID ≠ "" ∧ some randomUUID ∉ log.map (·.retryIdOf))
    (hfailure : validateFailure failure = .ok ())
    (hsafe : isSafe (previousRetry log ⟨turn, step, provider, retryPolicyKey policy⟩ + 1 : Nat) = true)
    (h : recover log turn step provider failure (some policy) aborted downstream randomUUID random =
      some data) : validateRetry log data = .ok () := by
  obtain ⟨_, hpolicy, -, hbudget, -, hdelay, hchain, hmode, hfail, hretry, hid⟩ := recover_some h
  cases hpolicy
  obtain ⟨hturn, hstep, hopen⟩ := hplaced
  obtain ⟨delay, hdelayMs, hdelay0, hdelay1⟩ := delayFor_bounded hdelay
  have hfields : data.turn = turn ∧ data.step = step ∧ data.provider = provider := by
    rw [LlmRetryEventData.chain, Chain.mk.injEq] at hchain
    exact ⟨hchain.1, hchain.2.1, hchain.2.2.1⟩
  have hrouted : providerForOpenStep log turn step = some provider :=
    (if_neg hopen).trans hprovider.2
  have hretryId : data.retryId ≠ "" := by
    rw [hid]
    split
    · exact hids _ (mem_of_prior ‹_›).1
    · exact hfresh.1
  have hmodeOk : validateMode data = .ok () := by
    unfold validateMode
    rw [hmode]
    split
    · rename_i maxRetries hnormal
      rw [withinBudget, hnormal] at hbudget
      have hless := of_decide_eq_true hbudget
      have hmax := policy.safe maxRetries hnormal
      have hpos : 1 ≤ maxRetries := Nat.one_le_of_lt hless
      have hle : data.retry ≤ maxRetries := by rw [hretry]; exact hless
      simp [require, hmax, hpos, hle]
    · rfl
  have hturnOk : validateTurn log data = .ok () := by
    unfold validateTurn
    rw [show log.reverse.find? (·.isTurnBoundary) = some (.turnStart turn) from hturn, hfields.1]
    exact require_eq_ok.mpr (decide_eq_true rfl)
  have hstepOk : validateStep log data = .ok () := by
    unfold validateStep
    rw [show log.reverse.find? (·.isStepBoundary) = some (.stepStart turn step) from hstep,
      hfields.1, hfields.2.1]
    simp [require]
  have hchainOk : validateChain log data = .ok () := by
    unfold validateChain
    dsimp only
    rw [decide_eq_true hretry]
    refine bind_eq_ok.mpr ⟨(), rfl, ?_⟩
    split
    · rename_i prior hprior
      rw [hprior] at hid
      exact require_eq_ok.mpr (decide_eq_true hid.symm)
    · rename_i hprior
      rw [hprior] at hid
      exact require_eq_ok.mpr (decide_eq_true (hid ▸ hfresh.2))
  have hsafeRetry : (isSafe data.retry && decide (1 ≤ data.retry)) = true := by
    rw [hretry, hchain, Bool.and_eq_true]
    exact ⟨hsafe, decide_eq_true (Nat.le_add_left 1 _)⟩
  unfold validateRetry
  rw [decide_eq_true hretryId, hfail, hfailure, hsafeRetry,
    decide_eq_true (show data.provider ≠ "" from hfields.2.2 ▸ hprovider.1), hmodeOk, hdelayMs,
    inRange_delay hdelay0 (hdelay1.trans policy.backoff.max_le), hturnOk, hstepOk, hfields.1,
    hfields.2.1, hfields.2.2, hrouted, hchainOk]
  simp [require]

theorem Accepted.retryId_ne {log : List SessionEvent} (h : Accepted log) {data : LlmRetryEventData}
    (hdata : .retry data ∈ log) : data.retryId ≠ "" := by
  obtain ⟨history, hok⟩ := h.of_mem hdata
  exact (validateRetry_ok hok).1

theorem validateStarted_scheduled {log : List SessionEvent} {data : LlmRetryEventData}
    (haccepted : Accepted (log ++ [.retry data])) :
    validateStarted (log ++ [.retry data]) ⟨data.retryId, data.turn, data.step, data.retry⟩ =
      .ok () := by
  have hchained := haccepted.chained
  have hretry := (validateChain_ok (validateRetry_ok (accepted_snoc.mp haccepted).2).2.2).1
  have hlog := (accepted_snoc.mp haccepted).1
  have hnew : some (data.retryId, data.retry) ∉
      (log ++ [SessionEvent.retry data]).map (·.startedOf) := by
    intro hmem
    obtain ⟨event, hevent, hpair⟩ := List.mem_map.mp hmem
    cases event with
    | retryStarted started =>
      have hsame : started.retryId = data.retryId ∧ started.retry = data.retry := by
        rw [SessionEvent.startedOf, Option.some.injEq, Prod.mk.injEq] at hpair
        exact hpair
      have hold : .retryStarted started ∈ log :=
        (List.mem_append.mp hevent).resolve_right fun h => nomatch List.mem_singleton.mp h
      obtain ⟨peer, hother, hid, hnumber⟩ := hlog.chained.starts started hold
      have hchain := hchained.ids peer data (List.mem_append_left _ hother)
        (List.mem_append_right _ (List.mem_singleton_self _)) (hid.trans hsame.1)
      have hrising := hlog.chained.rising peer hother
      rw [hchain] at hrising
      omega
    | _ => cases hpair
  unfold validateStarted
  dsimp only
  rw [scheduled_last, decide_eq_true hnew, decide_eq_true (haccepted.retryId_ne
    (List.mem_append_right _ (List.mem_singleton_self _)))]
  simp [require, expect]

theorem validateStarted_other {log : List SessionEvent} {data : LlmRetryStartedEventData}
    (h : validateStarted log data = .ok ()) : validateStarted (log ++ [.other]) data = .ok () := by
  unfold validateStarted at h ⊢
  rw [scheduled_other, List.map_append]
  have hmem : some (data.retryId, data.retry) ∉
      log.map (·.startedOf) ++ List.map (·.startedOf) [SessionEvent.other] ↔
        some (data.retryId, data.retry) ∉ log.map (·.startedOf) := by
    simp [SessionEvent.startedOf]
  rw [decide_eq_decide.mpr hmem]
  exact h

namespace Conforming

variable {start : List SessionEvent} {state : RetryState}

theorem accepted_append (h : Conforming start state) {event : SessionEvent}
    (hevent : validate state.log event = .ok ()) : Accepted (state.append event).log :=
  accepted_snoc.mpr ⟨h.accepted, hevent⟩

theorem grown_append (h : Conforming start state) {event : SessionEvent}
    (hevent : Bounded [event]) :
    ∃ appended, (state.append event).log = start ++ appended ∧ Bounded appended := by
  obtain ⟨appended, hlog, hbounded⟩ := h.grown
  refine ⟨appended ++ [event], ?_, fun data hdata => ?_⟩
  · rw [RetryState.append, hlog, List.append_assoc]
  · rcases List.mem_append.mp hdata with hold | hnew
    · exact hbounded data hold
    · exact hevent data hnew

theorem requested_append (h : Conforming start state) {event : SessionEvent}
    (hevent : event.headerProvider = none) : Requested (state.append event) := by
  intro provider hprovider
  obtain ⟨hne, hheader⟩ := h.requested provider hprovider
  exact ⟨hne, (lastHeader_snoc hevent).trans hheader⟩

theorem boundary (h : Conforming start state) {event : SessionEvent} {phase : Phase}
    {request : Option String}
    (hevent : validate state.log event = .ok ()) (hretry : ∀ chain, event.retryOf chain = none)
    (hheader : event.headerProvider = none) (hplaced : Placed (state.log ++ [event]) phase)
    (hrequest : ∀ provider, request = some provider → state.request = some provider)
    (hwaiting : state.waiting = none) :
    Conforming start { state.append event with phase := phase, request := request } where
  accepted := h.accepted_append hevent
  grown := h.grown_append (bounded_singleton hretry)
  placed := hplaced
  requested := fun provider hprovider => h.requested_append hheader provider (hrequest provider hprovider)
  awaited := fun data hdata => by
    rw [show state.waiting = some data from hdata] at hwaiting
    cases hwaiting

theorem fail (h : Conforming start state) {turn step : Nat} {provider : String}
    {failure : LlmFailure} {retryPolicy : Option ResolvedRetryPolicy} {aborted : Bool}
    {downstream : DownstreamOutcome} {randomUUID : String} {random : Sample}
    (hphase : state.phase = .step turn step) (hrequest : state.request = some provider)
    (hwaiting : state.waiting = none)
    (hfresh : randomUUID ≠ "" ∧ some randomUUID ∉ state.log.map (·.retryIdOf))
    (hguard : WellFormed state
      (.fail failure retryPolicy aborted downstream randomUUID random)) :
    Conforming start
      (state.fail turn step provider failure retryPolicy aborted downstream randomUUID random) := by
  have hplaced := h.placed
  rw [hphase] at hplaced
  unfold RetryState.fail
  cases hrecover : recover state.log turn step provider failure retryPolicy aborted downstream
      randomUUID random with
  | none =>
    refine ⟨h.accepted, h.grown, h.placed, nofun, fun data hdata => ?_⟩
    rw [show state.waiting = some data from hdata] at hwaiting
    cases hwaiting
  | some data =>
    obtain ⟨policy, hpolicy, htakes, hbudget, haborted, hdelay, hchain, -, -, hretry, -⟩ :=
      recover_some hrecover
    rw [hpolicy] at hguard hrecover
    have hwell : isOk (validateFailure failure) = true ∧
        isSafe (previousRetry state.log ⟨turn, step, provider, retryPolicyKey policy⟩ + 1 : Nat) =
          true := by
      rw [hchain] at hbudget hretry
      rw [hretry] at hdelay
      simp only [WellFormed, hphase, hrequest] at hguard
      exact hguard htakes hbudget haborted (Option.isSome_iff_exists.mpr ⟨_, hdelay⟩)
    obtain ⟨_, hfailure⟩ := isOk_iff.mp hwell.1
    have hvalid : validate state.log (.retry data) = .ok () :=
      validateRetry_recover hplaced (h.requested provider hrequest)
        (fun prior => h.accepted.retryId_ne) hfresh hfailure hwell.2 hrecover
    have haccepted := h.accepted_append hvalid
    have hfields : data.turn = turn ∧ data.step = step := by
      rw [LlmRetryEventData.chain, Chain.mk.injEq] at hchain
      exact ⟨hchain.1, hchain.2.1⟩
    refine ⟨haccepted, h.grown_append fun last hlast => ?_, ?_, nofun, ?_⟩
    · cases List.mem_singleton.mp hlast
      have hkey : data.policyKey = retryPolicyKey policy := by
        rw [LlmRetryEventData.chain, Chain.mk.injEq] at hchain
        exact hchain.2.2.2
      rw [hkey]
      exact delayFor_bounded hdelay
    · exact h.placed.snoc rfl rfl
    · intro awaited hawaited
      cases Option.some.inj hawaited
      have hstarted := validateStarted_scheduled haccepted
      rw [hfields.1, hfields.2] at hstarted
      exact hstarted

theorem step {op : RetryOp} {after : RetryState} (h : Conforming start state)
    (hguard : WellFormed state op) (hstep : state.transition op = some after) :
    Conforming start after := by
  unfold RetryState.transition at hstep
  split at hstep
  · rename_i turn hphase hwaiting
    cases hstep
    exact h.boundary rfl (fun _ => rfl) rfl inTurn_start (fun _ hrequest => hrequest) hwaiting
  · rename_i step turn hphase hwaiting
    cases hstep
    have hplaced := h.placed
    rw [hphase] at hplaced
    exact h.boundary rfl (fun _ => rfl) rfl ⟨InTurn.snoc hplaced rfl, inStep_start, stepOpen_start⟩
      (fun _ hrequest => hrequest) hwaiting
  · rename_i provider logsHeader turn step hphase hwaiting
    split at hstep
    · cases hstep
    · rename_i hne
      split at hstep
      · cases hstep
        refine ⟨h.accepted_append rfl, h.grown_append (bounded_singleton fun _ => rfl), h.placed.snoc rfl rfl, ?_, ?_⟩
        · intro requested hrequested
          cases Option.some.inj hrequested
          exact ⟨hne, lastHeader_header provider⟩
        · intro data hdata
          rw [show state.waiting = some data from hdata] at hwaiting
          cases hwaiting
      · split at hstep
        · rename_i hheader
          cases hstep
          refine ⟨h.accepted, h.grown, h.placed, ?_, h.awaited⟩
          intro requested hrequested
          cases Option.some.inj hrequested
          exact ⟨hne, hheader⟩
        · cases hstep
  · cases hstep
    refine ⟨h.accepted_append rfl, h.grown_append (bounded_singleton fun _ => rfl), h.placed.snoc rfl rfl,
      h.requested_append rfl, ?_⟩
    intro data hdata
    exact validateStarted_other (h.awaited data hdata)
  · rename_i hphase hwaiting
    split at hstep
    · rename_i provider hrequest
      split at hstep
      · cases hstep
      · rename_i hfresh
        cases hstep
        exact h.fail hphase hrequest hwaiting (not_or.mp hfresh) hguard
    · cases hstep
  · rename_i data hwaiting
    cases hstep
    refine ⟨h.accepted_append (h.awaited data hwaiting), h.grown_append (bounded_singleton fun _ => rfl),
      h.placed.snoc rfl rfl, h.requested_append rfl, nofun⟩
  · cases hstep
    exact ⟨h.accepted, h.grown, h.placed, h.requested, nofun⟩
  · rename_i turn step hphase hwaiting
    cases hstep
    have hplaced := h.placed
    rw [hphase] at hplaced
    exact h.boundary rfl (fun _ => rfl) rfl (hplaced.1.snoc rfl) nofun hwaiting
  · rename_i turn hphase hwaiting
    cases hstep
    exact h.boundary rfl (fun _ => rfl) rfl trivial (fun _ hrequest => hrequest) hwaiting
  · cases hstep

end Conforming

/-- From any accepted log, in every run whose scheduled attempts report well-formed failures, every
attempt and every start passes its check, and the chains stay in order and in bounds. -/
theorem retries_accepted {start final : RetryState} {ops : List RetryOp}
    (hphase : start.phase = .idle) (hrequest : start.request = none) (hwaiting : start.waiting = none)
    (haccepted : Accepted start.log) (hguard : Along RetryState.transition WellFormed start ops)
    (hrun : run RetryState.transition start ops = some final) :
    Accepted final.log ∧ Chains final.log ∧
      ∃ appended, final.log = start.log ++ appended ∧ Bounded appended := by
  have hstart : Conforming start.log start := by
    refine ⟨haccepted, ⟨[], (List.append_nil _).symm, bounded_nil⟩, ?_, ?_, ?_⟩
    · rw [hphase]
      trivial
    · intro provider hprovider
      rw [hrequest] at hprovider
      cases hprovider
    · intro data hdata
      rw [hwaiting] at hdata
      cases hdata
  have hfinal : Conforming start.log final :=
    run_invariant_along (Conforming start.log)
      (fun _ _ _ hstate hop hstep => hstate.step hop hstep) hrun hguard hstart
  exact ⟨hfinal.accepted, hfinal.accepted.chains, hfinal.grown⟩

def RetryState.fresh : RetryState := ⟨[], .idle, none, none⟩

def secondBackoff : ResolvedRetryBackoff where
  initialDelayMs := 1000
  maxDelayMs := 4000
  jitterRatio := 1 / 2
  initial_pos := by norm_num
  initial_le := by norm_num
  max_le := by norm_num [maxTimerDelayMs]
  jitter_nonneg := by norm_num
  jitter_le := by norm_num

def alwaysPolicy : ResolvedRetryPolicy := ⟨.always, [], secondBackoff, nofun⟩

def onePolicy : ResolvedRetryPolicy where
  mode := .normal 1
  retryableCodes := ["SERVER", "RATE_LIMIT"]
  backoff := secondBackoff
  safe := fun _ hmode => by
    cases hmode
    decide

def middle : Sample := ⟨1 / 2, by norm_num, by norm_num⟩

def serverFailure (after : Option Double) : LlmFailure := ⟨"unavailable", "SERVER", none, after, none⟩

def alternatingRun : List RetryOp :=
  [.turnStart 1, .stepStart 1, .request "deepseek" true,
    .fail (serverFailure none) (some alwaysPolicy) false .declined "a" middle, .other, .elapse,
    .request "pi-ai" true,
    .fail (serverFailure (some (.finite 3000))) (some onePolicy) false .declined "b" middle, .elapse,
    .request "deepseek" true,
    .fail (serverFailure (some (.finite 9000))) (some alwaysPolicy) false .error "c" middle, .elapse,
    .request "pi-ai" true,
    .fail (serverFailure none) (some onePolicy) false .declined "d" middle, .stepEnd, .turnEnd]

def alternatingEnd : RetryState :=
  (run RetryState.transition .fresh alternatingRun).get (by decide +kernel)

theorem fresh_accepted : Accepted RetryState.fresh.log :=
  fun _ _ hget => by cases hget

theorem alternatingRun_accepted :
    Accepted alternatingEnd.log ∧ Chains alternatingEnd.log ∧
      ∃ appended, alternatingEnd.log = RetryState.fresh.log ++ appended ∧ Bounded appended :=
  retries_accepted rfl rfl rfl fresh_accepted
    (by decide +kernel : Along RetryState.transition WellFormed .fresh alternatingRun)
    (Option.some_get _).symm

def textlessRun : List RetryOp :=
  [.turnStart 1, .stepStart 1, .request "pi-ai" true,
    .fail ⟨"", "PI_AI_ERROR", none, none, none⟩ (some alwaysPolicy) false .declined "a" middle]

def textlessEnd : RetryState :=
  (run RetryState.transition .fresh textlessRun).get (by decide +kernel)

theorem textlessRun_rejected : ¬ ∀ final : RetryState,
    run RetryState.transition .fresh textlessRun = some final → Accepted final.log := by
  intro h
  have haccepted := h textlessEnd (Option.some_get _).symm
  obtain ⟨attempt, hattempt⟩ : ∃ attempt, textlessEnd.log[3]? = some attempt :=
    Option.isSome_iff_exists.mp (by decide +kernel)
  have hok := isOk_iff.mpr ⟨_, haccepted 3 attempt hattempt⟩
  have hnot : (textlessEnd.log[3]?).all
      (fun attempt => !isOk (validate (textlessEnd.log.take 3) attempt)) = true := by
    decide +kernel
  rw [hattempt, Option.all_some, hok] at hnot
  cases hnot

end Harness.LlmRetry
