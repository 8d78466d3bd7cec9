import Harness.Session.OpenCalls

namespace Harness

open Harness.Foundation

theorem repairScan_snoc (log : List SessionEvent) (event : SessionEvent) :
    repairScan (log ++ [event]) = (repairScan log).observe event := by
  simp [repairScan, List.foldl_append]

def isBracket : EventData → Bool
  | .turnStart _ | .turnEnd _ _ | .stepStart _ _ | .stepEnd _ _ => true
  | _ => false

namespace RepairScan

variable {scan : RepairScan} {event : SessionEvent}

def calls (scan : RepairScan) : List (CallId × Option Nat) :=
  scan.pendingCalls.entries.map fun entry => (entry.1, entry.2.callSeq)

theorem observe_turn (h : isBracket event.data = false) :
    (scan.observe event).openTurn = scan.openTurn ∧
      (scan.observe event).openStep = scan.openStep := by
  unfold observe
  cases hdata : event.data <;> simp_all [isBracket]

theorem observe_calls (h : isBracket event.data = false) (hnodup : (requestedCalls event).Nodup)
    (hnew : ∀ callId ∈ requestedCalls event, callId ∉ scan.pendingCalls.keys) :
    (scan.observe event).calls = advanceCalls namesResult scan.calls event := by
  unfold observe advanceCalls calls
  cases hdata : event.data with
  | turnStart | turnEnd | stepStart | stepEnd => simp [hdata, isBracket] at h
  | assistantMessage turn step message usage interrupted =>
    simp only [requestedCalls, hdata] at hnodup hnew
    simp only [OrderedMap.entries_setAll_new hnodup _ hnew]
    simp [requestedCalls, callRecord, namesResult, hdata, Function.comp_def]
  | toolCall turn step callId name arguments =>
    simp only [OrderedMap.entries_modify, requestedCalls, callRecord, namesResult, hdata]
    simp only [List.map_map, Bool.not_false, List.filter_true, List.map_nil, List.append_nil]
    apply List.map_congr_left
    rintro ⟨id, call⟩ _
    by_cases heq : id = callId
    · simp [heq]
    · simp [heq, Ne.symm heq]
  | toolResult data =>
    simp only [OrderedMap.entries_delete, requestedCalls, callRecord, namesResult, hdata,
      List.filter_map]
    have hkept : (fun entry : CallId × PendingCall =>
          !decide (entry.1 = data.message.source.callId)) =
        fun entry => !data.message.source.callId == entry.1 := by
      funext entry
      by_cases heq : entry.1 = data.message.source.callId
      · simp [heq]
      · simp [heq, Ne.symm heq]
    simp only [Function.comp_def, ne_eq, decide_not, hkept]
    simp
  | _ => simp [requestedCalls, callRecord, namesResult, hdata]

end RepairScan

structure RepairAgrees (log : List SessionEvent) (trace : SessionTrace) : Prop where
  openTurn : (repairScan log).openTurn = trace.openTurn
  openStep : (repairScan log).openStep = trace.openStep
  lastSeq : ∀ last, log.getLast? = some last → trace.lastSeq = last.seq
  nonempty : log = [] → trace.openTurn = none
  inTurn : trace.openTurn = none → trace.openStep = none
  tail : (openStepTail log).isSome = trace.openStep.isSome
  idle : trace.openStep = none →
    trace.pendingCalls = [] ∧ (repairScan log).pendingCalls.entries = []
  steps : ∀ entry ∈ (repairScan log).pendingCalls.entries, trace.openStep = some entry.2.step
  started : ∀ entry ∈ (repairScan log).pendingCalls.entries, ∀ seq, entry.2.callSeq = some seq →
    entry.1 ∈ trace.pendingCalls ∧ seq ∈ log.map SessionEvent.seq
  calls : DistinctCalls (openStepEvents log) →
    (repairScan log).calls = callsOpen namesResult (openStepEvents log)

namespace RepairAgrees

variable {log : List SessionEvent} {trace : SessionTrace} {event : SessionEvent}

theorem empty : RepairAgrees [] freshTrace where
  openTurn := rfl
  openStep := rfl
  lastSeq := by simp
  nonempty := fun _ => rfl
  inTurn := fun _ => rfl
  tail := rfl
  idle := fun _ => ⟨rfl, rfl⟩
  steps := by simp [repairScan, RepairScan.start]
  started := by simp [repairScan, RepairScan.start]
  calls := fun _ => rfl

theorem trackStep_of_not_bracket {tail : Option (List SessionEvent)}
    (h : isBracket event.data = false) :
    trackStep tail event = tail.map fun events => events ++ [event] := by
  unfold trackStep
  cases hdata : event.data <;> simp_all [isBracket]

theorem openStepEvents_of_not_bracket (h : isBracket event.data = false) :
    openStepEvents (log ++ [event]) =
      if (openStepTail log).isSome then openStepEvents log ++ [event] else [] := by
  unfold openStepEvents
  rw [openStepTail_snoc, trackStep_of_not_bracket h]
  cases openStepTail log <;> simp

theorem calls_of_not_bracket (h : RepairAgrees log trace) (hbracket : isBracket event.data = false)
    (hclosed : trace.openStep = none → requestedCalls event = [])
    (hdistinct : DistinctCalls (openStepEvents (log ++ [event]))) :
    (repairScan (log ++ [event])).calls =
      callsOpen namesResult (openStepEvents (log ++ [event])) := by
  rw [repairScan_snoc]
  rw [openStepEvents_of_not_bracket hbracket, h.tail] at hdistinct ⊢
  cases hstep : trace.openStep with
  | none =>
    have hidle := (h.idle hstep).2
    have hnew := hclosed hstep
    rw [RepairScan.observe_calls hbracket (by simp [hnew]) (by simp [hnew])]
    simp [RepairScan.calls, hidle, advanceCalls, hnew, callsOpen]
  | some step =>
    simp only [hstep, Option.isSome_some, if_true, DistinctCalls, List.flatMap_append,
      List.flatMap_cons, List.flatMap_nil, List.append_nil, List.nodup_append] at hdistinct ⊢
    have hcalls := h.calls hdistinct.1
    have hkeys : ∀ callId ∈ requestedCalls event,
        callId ∉ (repairScan log).pendingCalls.keys := by
      intro callId hcall hkey
      obtain ⟨entry, hentry, rfl⟩ := List.mem_map.mp hkey
      have hview : (entry.1, entry.2.callSeq) ∈ (repairScan log).calls :=
        List.mem_map.mpr ⟨entry, hentry, rfl⟩
      rw [hcalls] at hview
      exact hdistinct.2.2 _ (mem_callsOpen_requested hview) _ hcall rfl
    rw [RepairScan.observe_calls hbracket hdistinct.2.1 hkeys, hcalls, callsOpen_snoc]

/-- An event that is no bracket leaves the agreement standing, once the pending calls of both
sides are accounted for. -/
theorem stay (h : RepairAgrees log trace) (hbracket : isBracket event.data = false)
    {pendingCalls : List CallId}
    (hclosed : trace.openStep = none → requestedCalls event = [] ∧ pendingCalls = [] ∧
      ((repairScan log).observe event).pendingCalls.entries = [])
    (hsteps : ∀ entry ∈ ((repairScan log).observe event).pendingCalls.entries,
      trace.openStep = some entry.2.step)
    (hstarted : ∀ entry ∈ ((repairScan log).observe event).pendingCalls.entries, ∀ seq,
      entry.2.callSeq = some seq →
        entry.1 ∈ pendingCalls ∧ (seq ∈ log.map SessionEvent.seq ∨ seq = event.seq)) :
    RepairAgrees (log ++ [event]) { trace with lastSeq := event.seq, pendingCalls } where
  openTurn := by
    rw [repairScan_snoc, (RepairScan.observe_turn hbracket).1]
    exact h.openTurn
  openStep := by
    rw [repairScan_snoc, (RepairScan.observe_turn hbracket).2]
    exact h.openStep
  lastSeq := by simp
  nonempty := by simp
  inTurn := h.inTurn
  tail := by
    rw [openStepTail_snoc, trackStep_of_not_bracket hbracket, Option.isSome_map]
    exact h.tail
  idle := by
    intro hstep
    rw [repairScan_snoc]
    exact (hclosed hstep).2
  steps := by
    rw [repairScan_snoc]
    exact hsteps
  started := by
    rw [repairScan_snoc]
    intro entry hentry seq hseq
    simpa using hstarted entry hentry seq hseq
  calls := h.calls_of_not_bracket hbracket fun hstep => (hclosed hstep).1

theorem quiet (h : RepairAgrees log trace) (hbracket : isBracket event.data = false)
    (hrequested : requestedCalls event = [])
    (hscan : ((repairScan log).observe event).pendingCalls.entries ⊆
      (repairScan log).pendingCalls.entries) :
    RepairAgrees (log ++ [event]) { trace with lastSeq := event.seq } := by
  apply h.stay hbracket
  · intro hstep
    refine ⟨hrequested, (h.idle hstep).1, ?_⟩
    rw [(h.idle hstep).2] at hscan
    exact List.subset_nil.mp hscan
  · exact fun entry hentry => h.steps entry (hscan hentry)
  · intro entry hentry seq hseq
    obtain ⟨hpending, hmem⟩ := h.started entry (hscan hentry) seq hseq
    exact ⟨hpending, .inl hmem⟩

theorem reset {trace' : SessionTrace}
    (hentries : ((repairScan log).observe event).pendingCalls.entries = [])
    (htail : openStepEvents (log ++ [event]) = [])
    (hsome : (openStepTail (log ++ [event])).isSome = trace'.openStep.isSome)
    (hturn : ((repairScan log).observe event).openTurn = trace'.openTurn)
    (hstep : ((repairScan log).observe event).openStep = trace'.openStep)
    (hlast : trace'.lastSeq = event.seq)
    (hin : trace'.openTurn = none → trace'.openStep = none)
    (hpending : trace'.pendingCalls = []) : RepairAgrees (log ++ [event]) trace' where
  openTurn := by rw [repairScan_snoc, hturn]
  openStep := by rw [repairScan_snoc, hstep]
  lastSeq := by simp [hlast]
  nonempty := by simp
  inTurn := hin
  tail := hsome
  idle := fun _ => ⟨hpending, by rw [repairScan_snoc, hentries]⟩
  steps := by simp [repairScan_snoc, hentries]
  started := by simp [repairScan_snoc, hentries]
  calls := by simp [repairScan_snoc, RepairScan.calls, hentries, htail, callsOpen]

theorem step_toolCall (h : RepairAgrees log trace) {turn step : Nat} {callId : CallId}
    {name arguments : String} (hdata : event.data = .toolCall turn step callId name arguments)
    (hopen : trace.openStep = some step) :
    RepairAgrees (log ++ [event]) { trace with
      lastSeq := event.seq
      pendingCalls := SessionTrace.changePending trace.pendingCalls (.add callId) } := by
  have hadd : ∀ other, other ∈ trace.pendingCalls ∨ other = callId →
      other ∈ SessionTrace.changePending trace.pendingCalls (.add callId) := by
    intro other hother
    simp only [SessionTrace.changePending, List.contains_iff_mem]
    split
    · rcases hother with hold | rfl
      · exact hold
      · assumption
    · simpa using hother
  have hobserve : ((repairScan log).observe event).pendingCalls =
      (repairScan log).pendingCalls.modify callId fun call =>
        { call with callSeq := some event.seq } := by
    simp [RepairScan.observe, hdata]
  apply h.stay (by rw [hdata]; rfl)
  · simp [hopen]
  · intro entry hentry
    rw [hobserve] at hentry
    rcases OrderedMap.mem_entries_modify hentry with ⟨hold, _⟩ | ⟨call, hold, rfl⟩
    · exact h.steps entry hold
    · exact h.steps (callId, call) hold
  · intro entry hentry seq hseq
    rw [hobserve] at hentry
    rcases OrderedMap.mem_entries_modify hentry with ⟨hold, _⟩ | ⟨call, hold, rfl⟩
    · obtain ⟨hpending, hmem⟩ := h.started entry hold seq hseq
      exact ⟨hadd _ (.inl hpending), .inl hmem⟩
    · exact ⟨hadd _ (.inr rfl), .inr (Option.some.inj hseq).symm⟩

theorem step_assistantMessage (h : RepairAgrees log trace) {turn step : Nat}
    {message : AssistantMessage} {usage : Option TokenUsage} {interrupted : Bool}
    (hdata : event.data = .assistantMessage turn step message usage interrupted)
    (hopen : trace.openStep = some step) :
    RepairAgrees (log ++ [event]) { trace with lastSeq := event.seq } := by
  have hobserve : ((repairScan log).observe event).pendingCalls =
      (repairScan log).pendingCalls.setAll
        ((toolCallBlocks message.content).map ToolCallBlock.id) { step, callSeq := none } := by
    simp [RepairScan.observe, hdata]
  apply h.stay (by rw [hdata]; rfl)
  · simp [hopen]
  · intro entry hentry
    rw [hobserve] at hentry
    rcases OrderedMap.mem_entries_setAll hentry with ⟨_, hcall⟩ | hold
    · rw [hcall, hopen]
    · exact h.steps entry hold
  · intro entry hentry seq hseq
    rw [hobserve] at hentry
    rcases OrderedMap.mem_entries_setAll hentry with ⟨_, hcall⟩ | hold
    · simp [hcall] at hseq
    · obtain ⟨hpending, hmem⟩ := h.started entry hold seq hseq
      exact ⟨hpending, .inl hmem⟩

theorem step_toolResult (h : RepairAgrees log trace) {data : ToolResultData}
    (hdata : event.data = .toolResult data) (hopen : trace.openStep = some data.step) :
    RepairAgrees (log ++ [event]) { trace with
      lastSeq := event.seq
      pendingCalls :=
        SessionTrace.changePending trace.pendingCalls (.delete data.message.source.callId) } := by
  have hobserve : ((repairScan log).observe event).pendingCalls =
      (repairScan log).pendingCalls.delete data.message.source.callId := by
    simp [RepairScan.observe, hdata]
  apply h.stay (by rw [hdata]; rfl)
  · simp [hopen]
  · intro entry hentry
    rw [hobserve, OrderedMap.entries_delete] at hentry
    exact h.steps entry (List.mem_filter.mp hentry).1
  · intro entry hentry seq hseq
    rw [hobserve, OrderedMap.entries_delete] at hentry
    obtain ⟨hold, hkept⟩ := List.mem_filter.mp hentry
    obtain ⟨hpending, hmem⟩ := h.started entry hold seq hseq
    exact ⟨List.mem_filter.mpr ⟨hpending, hkept⟩, .inl hmem⟩

theorem step_rewrite (h : RepairAgrees log trace) {data : ToolResultData}
    (hdata : event.data = .toolResult data) :
    RepairAgrees (log ++ [event]) { trace with lastSeq := event.seq } := by
  apply h.quiet
  · rw [hdata]; rfl
  · simp [requestedCalls, hdata]
  · simp only [RepairScan.observe, hdata, OrderedMap.entries_delete]
    exact List.filter_sublist.subset

theorem step_unobserved (h : RepairAgrees log trace) (hbracket : isBracket event.data = false)
    (hrequested : requestedCalls event = [])
    (hobserve : (repairScan log).observe event = repairScan log) :
    RepairAgrees (log ++ [event]) { trace with lastSeq := event.seq } := by
  apply h.quiet hbracket hrequested
  rw [hobserve]
  exact List.Subset.refl _

theorem step (h : RepairAgrees log trace) {trace' : SessionTrace}
    (hstep : TraceStep trace event trace') : RepairAgrees (log ++ [event]) trace' := by
  cases hstep with
  | turnStart hdata hopen =>
    have hclosed := h.inTurn hopen
    apply reset <;>
      simp [RepairScan.observe, hdata, openStepEvents, openStepTail_snoc, trackStep, hclosed,
        (h.idle hclosed).1, OrderedMap.empty]
  | turnEnd turn reason hdata hopen hclosed =>
    apply reset <;>
      simp [RepairScan.observe, hdata, openStepEvents, openStepTail_snoc, trackStep, hclosed,
        (h.idle hclosed).1, OrderedMap.empty]
  | stepStart turn hdata hopen hclosed =>
    apply reset <;>
      simp [RepairScan.observe, hdata, openStepEvents, openStepTail_snoc, trackStep, hopen,
        h.openTurn, h.idle hclosed]
  | stepEnd turn step hdata hopen hstep =>
    apply reset <;>
      simp [RepairScan.observe, hdata, openStepEvents, openStepTail_snoc, trackStep, h.openTurn,
        OrderedMap.empty]
  | assistantChunk turn step chunk hdata _ _ =>
    exact h.step_unobserved (by rw [hdata]; rfl) (by simp [requestedCalls, hdata])
      (by simp [RepairScan.observe, hdata])
  | assistantMessage turn step message usage interrupted hdata _ hopen =>
    exact h.step_assistantMessage hdata hopen
  | toolCall turn step callId name arguments hdata _ hopen => exact h.step_toolCall hdata hopen
  | toolResult data hdata _ _ hopen _ => exact h.step_toolResult hdata hopen
  | rewrite data turn hdata _ _ => exact h.step_rewrite hdata
  | enclosed turn hkind _ =>
    apply h.step_unobserved
    · cases hdata : event.data <;> simp_all [isTurnEnclosed, isBracket]
    · cases hdata : event.data <;> simp_all [isTurnEnclosed, requestedCalls]
    · cases hdata : event.data <;> simp_all [isTurnEnclosed, RepairScan.observe]
  | free hkind =>
    apply h.step_unobserved
    · cases hdata : event.data <;> simp_all [isUnconstrained, isBracket]
    · cases hdata : event.data <;> simp_all [isUnconstrained, requestedCalls]
    · cases hdata : event.data <;> simp_all [isUnconstrained, RepairScan.observe]

end RepairAgrees

theorem repairAgrees_of_accepted {log : List SessionEvent} {trace : SessionTrace}
    (h : seedSession log = .ok trace) : RepairAgrees log trace := by
  apply foldOk_invariant RepairAgrees _ h .empty
  intro seen trace event trace' hinv hstep
  exact hinv.step (SessionTrace.advance_step hstep).2

end Harness
