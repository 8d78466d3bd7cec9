import Harness.Session.RepairAgrees
import Harness.Session.SurfaceHistory

namespace Harness

open Harness.Foundation

section Closers

variable {log : List SessionEvent} {trace : SessionTrace} {fold : SurfaceFold}

/-- The recorded starts the scan holds can be cited: their seqs are safe integers. -/
def SafeRecords (log : List SessionEvent) : Prop :=
  ∀ entry ∈ (repairScan log).pendingCalls.entries, ∀ seq, entry.2.callSeq = some seq →
    isSafe seq = true

structure Repairable (log : List SessionEvent) : Prop where
  traced : ∃ trace, seedSession log = .ok trace
  folded : ∃ fold, runFold log = .ok fold
  records : SafeRecords log

theorem citedSources_interruptedResult {turn seq : Nat} {time : Int} {callId : CallId}
    {call : PendingCall} (hcall : ∀ callSeq, call.callSeq = some callSeq →
      isSafe callSeq = true ∧ callSeq < seq) :
    citedSources (interruptedResult turn time seq callId call) = .ok call.callSeq.toList := by
  cases hseq : call.callSeq with
  | none => simp [citedSources, interruptedResult, hseq]
  | some callSeq =>
    obtain ⟨hsafe, hlt⟩ := hcall callSeq hseq
    have hnat : (Json.nat callSeq).safeNat? = some callSeq := Json.safeNat?_eq_some.mpr ⟨rfl, hsafe⟩
    have hfind : [callSeq].find? (fun source => decide (seq ≤ source)) = none := by
      simpa using hlt
    simp [citedSources, interruptedResult, hseq, hnat, hfind]

theorem traceStep_interruptedResult {turn seq : Nat} {time : Int} {callId : CallId}
    {call : PendingCall} (hturn : trace.openTurn = some turn)
    (hstep : trace.openStep = some call.step)
    (hcall : ∀ callSeq, call.callSeq = some callSeq → callId ∈ trace.pendingCalls) :
    ∃ trace', TraceStep trace (interruptedResult turn time seq callId call) trace' := by
  refine ⟨_, .toolResult _ rfl rfl hturn hstep ?_⟩
  cases hseq : call.callSeq with
  | none => exact .inr (by simp [SessionTrace.syntheticNotStarted, interruptedError])
  | some callSeq => exact .inl (hcall callSeq hseq)

theorem traced_closer (htrace : seedSession log = .ok trace) {last closer : SessionEvent}
    (hlast : log.getLast? = some last) (hseq : closer.seq = last.seq + 1) {trace' : SessionTrace}
    (hstep : TraceStep trace closer trace') : seedSession (log ++ [closer]) = .ok trace' := by
  rw [seedSession_snoc, htrace]
  apply SessionTrace.advance_of_step _ hstep
  rw [(repairAgrees_of_accepted htrace).lastSeq last hlast, hseq]
  omega

theorem Repairable.result (h : Repairable log) {turn : Nat} {last : SessionEvent}
    (hturn : (repairScan log).openTurn = some turn) (hlast : log.getLast? = some last)
    {callId : CallId} {call : PendingCall} {rest : List (CallId × PendingCall)}
    (hentries : (repairScan log).pendingCalls.entries = (callId, call) :: rest) :
    let closer := interruptedResult turn last.time (last.seq + 1) callId call
    Repairable (log ++ [closer]) ∧
      (repairScan (log ++ [closer])).openTurn = some turn ∧
      (repairScan (log ++ [closer])).openStep = (repairScan log).openStep ∧
      (repairScan (log ++ [closer])).pendingCalls.entries = rest := by
  intro closer
  obtain ⟨trace, htrace⟩ := h.traced
  obtain ⟨fold, hfold⟩ := h.folded
  have hagrees := repairAgrees_of_accepted htrace
  have hmem : (callId, call) ∈ (repairScan log).pendingCalls.entries := by simp [hentries]
  have hlength := seq_of_getLast hfold hlast
  have hrest : (repairScan (log ++ [closer])).pendingCalls.entries = rest := by
    have hnodup := (repairScan log).pendingCalls.nodup
    rw [hentries, List.map_cons, List.nodup_cons] at hnodup
    simp only [repairScan_snoc, RepairScan.observe, closer, interruptedResult,
      OrderedMap.entries_delete, hentries]
    simp only [ne_eq, not_true_eq_false, decide_false, Bool.false_eq_true, not_false_eq_true,
      List.filter_cons_of_neg]
    apply List.filter_eq_self.mpr
    intro entry hentry
    simp only [decide_eq_true_eq]
    rintro rfl
    exact hnodup.1 (List.mem_map.mpr ⟨entry, hentry, rfl⟩)
  refine ⟨⟨?_, ?_, ?_⟩, ?_, ?_, hrest⟩
  · obtain ⟨trace', hstep⟩ := traceStep_interruptedResult
      (hagrees.openTurn.symm.trans hturn) (hagrees.steps _ hmem)
      fun callSeq hseq => (hagrees.started _ hmem callSeq hseq).1
    exact ⟨trace', traced_closer htrace hlast rfl hstep⟩
  · apply runFold_appended hfold rfl hlength rfl
    apply citedSources_interruptedResult
    intro callSeq hseq
    refine ⟨h.records _ hmem callSeq hseq, ?_⟩
    have hrange := (hagrees.started _ hmem callSeq hseq).2
    rw [runFold_seq hfold, List.mem_range] at hrange
    omega
  · intro entry hentry
    rw [hrest] at hentry
    exact h.records entry (by simp [hentries, hentry])
  · rw [repairScan_snoc]
    exact hturn
  · rw [repairScan_snoc]
    rfl

theorem Repairable.stepEnd (h : Repairable log) {turn step : Nat} {last : SessionEvent}
    (hturn : (repairScan log).openTurn = some turn) (hlast : log.getLast? = some last)
    (hstep : (repairScan log).openStep = some step) :
    let closer := logOnly (last.seq + 1) last.time (.stepEnd turn step)
    Repairable (log ++ [closer]) ∧
      (repairScan (log ++ [closer])).openTurn = some turn ∧
      (repairScan (log ++ [closer])).openStep = none ∧
      (repairScan (log ++ [closer])).pendingCalls.entries = [] := by
  intro closer
  obtain ⟨trace, htrace⟩ := h.traced
  obtain ⟨fold, hfold⟩ := h.folded
  have hagrees := repairAgrees_of_accepted htrace
  refine ⟨⟨?_, ?_, ?_⟩, ?_, ?_, ?_⟩
  · have hnext : TraceStep trace closer _ := .stepEnd turn step rfl
      (hagrees.openTurn.symm.trans hturn) (hagrees.openStep.symm.trans hstep)
    exact ⟨_, traced_closer htrace hlast rfl hnext⟩
  · exact ⟨fold, runFold_logOnly hfold rfl (seq_of_getLast hfold hlast) rfl rfl⟩
  · simp [SafeRecords, repairScan_snoc, RepairScan.observe, closer, logOnly, OrderedMap.empty]
  · rw [repairScan_snoc]
    exact hturn
  · rw [repairScan_snoc]
    rfl
  · rw [repairScan_snoc]
    rfl

theorem Repairable.turnEnd (h : Repairable log) {turn : Nat} {last : SessionEvent}
    (hturn : (repairScan log).openTurn = some turn) (hlast : log.getLast? = some last)
    (hstep : (repairScan log).openStep = none) :
    let closer := logOnly (last.seq + 1) last.time (.turnEnd turn .interrupted)
    Repairable (log ++ [closer]) ∧ (repairScan (log ++ [closer])).openTurn = none := by
  intro closer
  obtain ⟨trace, htrace⟩ := h.traced
  obtain ⟨fold, hfold⟩ := h.folded
  have hagrees := repairAgrees_of_accepted htrace
  refine ⟨⟨?_, ?_, ?_⟩, ?_⟩
  · have hnext : TraceStep trace closer _ := .turnEnd turn .interrupted rfl
      (hagrees.openTurn.symm.trans hturn) (hagrees.openStep.symm.trans hstep)
    exact ⟨_, traced_closer htrace hlast rfl hnext⟩
  · exact ⟨fold, runFold_logOnly hfold rfl (seq_of_getLast hfold hlast) rfl rfl⟩
  · simp [SafeRecords, repairScan_snoc, RepairScan.observe, closer, logOnly, OrderedMap.empty]
  · rw [repairScan_snoc]
    rfl

theorem interruptedTurnClosers_eq {turn : Nat} {last : SessionEvent}
    (hturn : (repairScan log).openTurn = some turn) (hlast : log.getLast? = some last) :
    interruptedTurnClosers log = closersOf (repairScan log) turn last := by
  simp [interruptedTurnClosers, hturn, hlast]

theorem interruptedTurnClosers_closed (h : (repairScan log).openTurn = none) :
    interruptedTurnClosers log = [] := by
  simp [interruptedTurnClosers, h]

theorem Repairable.last (h : Repairable log) {turn : Nat}
    (hturn : (repairScan log).openTurn = some turn) : ∃ last, log.getLast? = some last := by
  obtain ⟨trace, htrace⟩ := h.traced
  have hagrees := repairAgrees_of_accepted htrace
  cases hlast : log.getLast? with
  | some last => exact ⟨last, rfl⟩
  | none =>
    have := hagrees.nonempty (List.getLast?_eq_none_iff.mp hlast)
    simp [← hagrees.openTurn, hturn] at this

theorem Repairable.step (h : Repairable log) {closer : SessionEvent} {rest : List SessionEvent}
    (hclosers : interruptedTurnClosers log = closer :: rest) :
    Repairable (log ++ [closer]) ∧ interruptedTurnClosers (log ++ [closer]) = rest := by
  cases hturn : (repairScan log).openTurn with
  | none => simp [interruptedTurnClosers_closed hturn] at hclosers
  | some turn =>
    obtain ⟨last, hlast⟩ := h.last hturn
    rw [interruptedTurnClosers_eq hturn hlast, closersOf] at hclosers
    cases hentries : (repairScan log).pendingCalls.entries with
    | cons entry entries =>
      obtain ⟨callId, call⟩ := entry
      rw [hentries, resultClosers, List.cons_append] at hclosers
      obtain ⟨rfl, rfl⟩ := List.cons.inj hclosers
      obtain ⟨hnext, hturn', hstep', hentries'⟩ := h.result hturn hlast hentries
      refine ⟨hnext, ?_⟩
      rw [interruptedTurnClosers_eq hturn' (List.getLast?_concat ..), closersOf, hstep', hentries']
      simp only [interruptedResult, List.length_cons]
      congr 2
      omega
    | nil =>
      rw [hentries, resultClosers, List.nil_append, List.length_nil, Nat.add_zero] at hclosers
      cases hstep : (repairScan log).openStep with
      | some step =>
        rw [hstep, boundaryClosers] at hclosers
        obtain ⟨rfl, rfl⟩ := List.cons.inj hclosers
        obtain ⟨hnext, hturn', hstep', hentries'⟩ := h.stepEnd hturn hlast hstep
        refine ⟨hnext, ?_⟩
        rw [interruptedTurnClosers_eq hturn' (List.getLast?_concat ..), closersOf, hstep',
          hentries']
        rfl
      | none =>
        rw [hstep, boundaryClosers] at hclosers
        obtain ⟨rfl, rfl⟩ := List.cons.inj hclosers
        obtain ⟨hnext, hturn'⟩ := h.turnEnd hturn hlast hstep
        exact ⟨hnext, interruptedTurnClosers_closed hturn'⟩

theorem Repairable.repaired {closers : List SessionEvent} (h : Repairable log)
    (hclosers : interruptedTurnClosers log = closers) :
    Repairable (log ++ closers) ∧ interruptedTurnClosers (log ++ closers) = [] ∧
      ∀ k, interruptedTurnClosers (log ++ closers.take k) = closers.drop k := by
  induction closers generalizing log with
  | nil => simpa [hclosers] using h
  | cons closer rest ih =>
    obtain ⟨hnext, hrest⟩ := h.step hclosers
    obtain ⟨hrepaired, hclosed, hcuts⟩ := ih hnext hrest
    rw [List.append_assoc, List.singleton_append] at hrepaired hclosed
    refine ⟨hrepaired, hclosed, ?_⟩
    intro k
    cases k with
    | zero => simpa using hclosers
    | succ k => simpa using hcuts k

theorem Repairable.closed (h : Repairable log) (hclosers : interruptedTurnClosers log = []) :
    (repairScan log).openTurn = none := by
  cases hturn : (repairScan log).openTurn with
  | none => rfl
  | some turn =>
    obtain ⟨last, hlast⟩ := h.last hturn
    rw [interruptedTurnClosers_eq hturn hlast, closersOf, List.append_eq_nil_iff] at hclosers
    cases hstep : (repairScan log).openStep <;> simp [hstep, boundaryClosers] at hclosers

end Closers

def answerOf (event : SessionEvent) : Option (CallId × List Nat) :=
  match event.data with
  | .toolResult data => some (data.message.source.callId, sourceSeqs event)
  | _ => none

section Answers

variable {log : List SessionEvent}

theorem filterMap_boundaryClosers (turn : Nat) (time : Int) (seq : Nat) (step : Option Nat) :
    (boundaryClosers turn time seq step).filterMap answerOf = [] := by
  cases step <;> rfl

theorem filterMap_resultClosers {turn : Nat} {time : Int} {seq : Nat}
    {entries : List (CallId × PendingCall)}
    (hsafe : ∀ entry ∈ entries, ∀ callSeq, entry.2.callSeq = some callSeq →
      isSafe callSeq = true) :
    (resultClosers turn time seq entries).filterMap answerOf =
      entries.map fun entry => (entry.1, entry.2.callSeq.toList) := by
  induction entries generalizing seq with
  | nil => rfl
  | cons entry entries ih =>
    obtain ⟨callId, call⟩ := entry
    have hanswer : answerOf (interruptedResult turn time seq callId call) =
        some (callId, call.callSeq.toList) := by
      cases hseq : call.callSeq with
      | none => simp [answerOf, interruptedResult, sourceSeqs, hseq]
      | some callSeq =>
        have hnat : (Json.nat callSeq).safeNat? = some callSeq :=
          Json.safeNat?_eq_some.mpr ⟨rfl, hsafe _ List.mem_cons_self callSeq hseq⟩
        simp [answerOf, interruptedResult, sourceSeqs, hseq, hnat]
    rw [resultClosers, List.filterMap_cons_some hanswer,
      ih fun other hother => hsafe other (List.mem_cons_of_mem _ hother)]
    rfl

theorem Repairable.answers (h : Repairable log) :
    (interruptedTurnClosers log).filterMap answerOf =
      (repairScan log).calls.map fun call => (call.1, call.2.toList) := by
  cases hturn : (repairScan log).openTurn with
  | none =>
    obtain ⟨trace, htrace⟩ := h.traced
    have hagrees := repairAgrees_of_accepted htrace
    have hidle := hagrees.idle (hagrees.inTurn (hagrees.openTurn.symm.trans hturn))
    simp [interruptedTurnClosers_closed hturn, RepairScan.calls, hidle.2]
  | some turn =>
    obtain ⟨last, hlast⟩ := h.last hturn
    rw [interruptedTurnClosers_eq hturn hlast, closersOf, List.filterMap_append,
      filterMap_boundaryClosers, List.append_nil, filterMap_resultClosers h.records,
      RepairScan.calls, List.map_map]
    rfl

theorem advanceCalls_interruptedResult (calls : List (CallId × Option Nat)) (turn seq : Nat)
    (time : Int) (callId : CallId) (call : PendingCall) :
    advanceCalls answersCall calls (interruptedResult turn time seq callId call) =
      calls.filter fun other => other.1 ≠ callId := by
  have hends : (fun other : CallId × Option Nat =>
        !answersCall (interruptedResult turn time seq callId call) other.1) =
      fun other => decide (other.1 ≠ callId) := by
    funext other
    by_cases heq : other.1 = callId
    · simp [answersCall, namesResult, SessionTrace.isAppend, interruptedResult, heq]
    · simp [answersCall, namesResult, SessionTrace.isAppend, interruptedResult, heq, Ne.symm heq]
  simp only [advanceCalls, hends]
  simp [requestedCalls, callRecord, interruptedResult]

theorem foldl_resultClosers (calls : List (CallId × Option Nat)) (turn : Nat) (time : Int)
    (seq : Nat) (entries : List (CallId × PendingCall)) :
    (resultClosers turn time seq entries).foldl (advanceCalls answersCall) calls =
      calls.filter fun call => call.1 ∉ entries.map Prod.fst := by
  induction entries generalizing calls seq with
  | nil => simp [resultClosers]
  | cons entry entries ih =>
    obtain ⟨callId, call⟩ := entry
    rw [resultClosers, List.foldl_cons, advanceCalls_interruptedResult, ih, List.filter_filter]
    congr 1
    funext other
    rw [Bool.eq_iff_iff]
    simp only [Bool.and_eq_true, decide_eq_true_eq, List.map_cons, List.mem_cons, not_or]
    exact And.comm

theorem foldl_boundaryClosers (turn : Nat) (time : Int) (seq : Nat) (step : Option Nat) :
    (boundaryClosers turn time seq step).foldl (advanceCalls answersCall) [] = [] := by
  cases step <;> rfl

theorem Repairable.answered (h : Repairable log)
    (hcalls : (repairScan log).calls = unansweredCalls log) :
    callsOpen answersCall (openStepEvents log ++ interruptedTurnClosers log) = [] := by
  rw [callsOpen_append, ← unansweredCalls, ← hcalls]
  cases hturn : (repairScan log).openTurn with
  | none =>
    have hanswers := h.answers
    rw [interruptedTurnClosers_closed hturn] at hanswers ⊢
    simpa using hanswers.symm
  | some turn =>
    obtain ⟨last, hlast⟩ := h.last hturn
    rw [interruptedTurnClosers_eq hturn hlast, closersOf, List.foldl_append, foldl_resultClosers]
    have hnone : ((repairScan log).calls.filter fun call =>
        call.1 ∉ (repairScan log).pendingCalls.entries.map Prod.fst) = [] := by
      rw [List.filter_eq_nil_iff]
      intro call hcall
      obtain ⟨entry, hentry, rfl⟩ := List.mem_map.mp hcall
      simpa using ⟨entry.2, hentry⟩
    rw [hnone, foldl_boundaryClosers]

end Answers

/-- A log a crash may leave behind: accepted by the trace validator and by the surface fold,
with the call ids of its open step distinct. -/
structure InterruptedLog (log : List SessionEvent) : Prop where
  traced : ∃ trace, seedSession log = .ok trace
  folded : ∃ result, foldSurface log = .ok result
  seqs : ∀ event ∈ log, isSafe event.seq = true
  distinct : DistinctCalls (openStepEvents log)

structure RepairSound (log : List SessionEvent) : Prop where
  traced : ∃ trace, seedSession (log ++ interruptedTurnClosers log) = .ok trace ∧
    trace.openTurn = none ∧ trace.openStep = none ∧ trace.pendingCalls = []
  folded : ∃ result, foldSurface (log ++ interruptedTurnClosers log) = .ok result
  answered : callsOpen answersCall (openStepEvents log ++ interruptedTurnClosers log) = []
  answers : (interruptedTurnClosers log).filterMap answerOf =
    (unansweredCalls log).map fun call => (call.1, call.2.toList)
  resumable : ∀ k, interruptedTurnClosers (log ++ (interruptedTurnClosers log).take k) =
    (interruptedTurnClosers log).drop k

namespace InterruptedLog

variable {log : List SessionEvent}

theorem repairable (h : InterruptedLog log) : Repairable log where
  traced := h.traced
  folded := by
    obtain ⟨result, hresult⟩ := h.folded
    obtain ⟨fold, hfold, _⟩ := foldSurface_ok hresult
    exact ⟨fold, hfold⟩
  records := by
    obtain ⟨trace, htrace⟩ := h.traced
    intro entry hentry seq hseq
    have hmem := ((repairAgrees_of_accepted htrace).started entry hentry seq hseq).2
    obtain ⟨event, hevent, rfl⟩ := List.mem_map.mp hmem
    exact h.seqs event hevent

theorem calls (h : InterruptedLog log) :
    (repairScan log).calls = callsOpen namesResult (openStepEvents log) := by
  obtain ⟨trace, htrace⟩ := h.traced
  exact (repairAgrees_of_accepted htrace).calls h.distinct

end InterruptedLog

/-- Repair does all it owes exactly when no call that is still unanswered shares its id with a
result rewritten since it was requested. -/
theorem repairSound_iff {log : List SessionEvent} (h : InterruptedLog log) :
    RepairSound log ↔ NoRewriteOfUnanswered (openStepEvents log) := by
  rw [← callsOpen_namesResult_eq_iff, ← h.calls]
  have hrepairable := h.repairable
  constructor
  · intro hsound
    have hlists := hrepairable.answers.symm.trans hsound.answers
    apply List.map_injective_iff.mpr _ hlists
    rintro ⟨id, seq⟩ ⟨id', seq'⟩ heq
    cases seq <;> cases seq' <;> simp_all
  · intro hcalls
    obtain ⟨hrepaired, hclosed, hcuts⟩ := hrepairable.repaired rfl
    obtain ⟨trace, htrace⟩ := hrepaired.traced
    obtain ⟨fold, hfold⟩ := hrepaired.folded
    have hagrees := repairAgrees_of_accepted htrace
    have hturn : trace.openTurn = none := hagrees.openTurn.symm.trans (hrepaired.closed hclosed)
    have hstep := hagrees.inTurn hturn
    exact
      { traced := ⟨trace, htrace, hturn, hstep, (hagrees.idle hstep).1⟩
        folded := by simp [foldSurface, hfold]
        answered := hrepairable.answered hcalls
        answers := by rw [hrepairable.answers, hcalls, unansweredCalls]
        resumable := hcuts }

/-- A second step whose message reuses the call id of the first; `content` is what each of the
two results holds. -/
def reusedCallId : List SessionEvent :=
  [logOnly 0 0 (.turnStart 1),
    logOnly 1 0 (.stepStart 1 1),
    message 2 1,
    logOnly 3 0 (.toolCall 1 1 "call" "read" ""),
    result 4 [.text "long"] (.str "append") 3,
    logOnly 5 0 (.stepEnd 1 1),
    logOnly 6 0 (.stepStart 1 2),
    message 7 2]
where
  message (seq step : Nat) : SessionEvent :=
    { seq, time := 0, surfaceOp := some (.str "append"), sourceEventSeqs := none, ignorable := false
      data := .assistantMessage 1 step
        { id := "message", source := { provider := "provider", model := "model", replayState := none }
          content := [.toolCall { id := "call", name := "read", arguments := "" }] } none false }
  result (seq : Nat) (content : List ContentBlock) (surfaceOp : Json) (source : Nat) :
      SessionEvent :=
    { seq, time := 0, surfaceOp := some surfaceOp, sourceEventSeqs := some (.arr [.nat source])
      ignorable := false
      data := .toolResult
        { turn := 1, step := 1, error := none, metadata := none
          message :=
            { id := "result", source := { callId := "call" }
              content :=
                { toolCallId := "call", content, isError := none, loadedTools := none } } } }

theorem reusedCallId_interrupted : InterruptedLog reusedCallId where
  traced := ⟨_, rfl⟩
  folded := ⟨_, rfl⟩
  seqs := by decide
  distinct := by decide

theorem reusedCallId_repairSound : RepairSound reusedCallId :=
  (repairSound_iff reusedCallId_interrupted).mpr
    ((callsOpen_namesResult_eq_iff _).mp (by decide))

/-- The first step's result is shortened while the second step's call waits for its own. -/
def prunedUnderReusedId : List SessionEvent :=
  reusedCallId ++ [reusedCallId.result 8 [.text "short"]
    (.obj [("op", .str "replace"), ("start", .nat 4), ("end", .nat 4)]) 4]

theorem prunedUnderReusedId_unanswered :
    InterruptedLog prunedUnderReusedId ∧ ¬RepairSound prunedUnderReusedId := by
  refine ⟨⟨⟨_, rfl⟩, ⟨_, rfl⟩, by decide, by decide⟩, ?_⟩
  intro hsound
  exact absurd hsound.answers (by decide)

end Harness
