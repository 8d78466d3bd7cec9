import Harness.Compaction.Transaction
import Harness.Meter.MeterSound

/-! The lock is the log: the markers of the transactions alternate in it, the last one left open
is the lock, and the surface changes only by the checkpoint of the transaction that holds it. -/

namespace Harness

open Harness.Foundation

section Brackets

def compactionIdOf (event : SessionEvent) : Option Json :=
  match event.data with
  | .plugin _ payload => payload.get? "compactionId"
  | _ => none

/-- The alternation of the markers: a bracket opens when none is open and ends under its own id,
and the end of a seed drops the one a dead process left open. -/
def bracketStep (opened : Option SessionEvent) (event : SessionEvent) :
    Option (Option SessionEvent) :=
  if isCompactionStart event then if opened.isNone then some (some event) else none
  else if isCompactionEnd event then
    if opened.any fun start => decide (compactionIdOf start = compactionIdOf event) then some none
    else none
  else if isEndSeed event then some none
  else some opened

variable {events : List SessionEvent} {event : SessionEvent} {opened : Option SessionEvent}

theorem latest_snoc (kind : SessionEvent → Bool) :
    latest kind (events ++ [event]) = if kind event then some event else latest kind events := by
  rw [latest, List.reverse_append, List.reverse_singleton, List.singleton_append, List.find?_cons]
  cases kind event <;> rfl

theorem mem_of_latest {kind : SessionEvent → Bool} (h : latest kind events = some event) :
    event ∈ events :=
  List.mem_reverse.mp (List.mem_of_find?_eq_some h)

theorem isOk_assertNoActiveCompaction (events : List SessionEvent) (stage : String) :
    isOk (assertNoActiveCompaction events stage) =
      ((latest (fun event => isCompactionStart event || isCompactionEnd event) events).filter
        isCompactionStart).all fun start =>
          (latest isEndSeed events).any fun seed => decide (start.seq < seed.seq) := by
  unfold assertNoActiveCompaction assertCompactionInactive inspectCompactionEntryState
  simp only
  cases (latest (fun event => isCompactionStart event || isCompactionEnd event) events).filter
    isCompactionStart with
  | none => rfl
  | some start =>
    simp only [Option.all_some, Option.any_map]
    cases h : (latest isEndSeed events).any fun seed => decide (start.seq < seed.seq) with
    | true => simp_all [require, isOk]
    | false => simp_all [require, isOk]

inductive BracketStep (opened : Option SessionEvent) (event : SessionEvent) :
    Option SessionEvent → Prop
  | opens : isCompactionStart event = true → isEndSeed event = false → opened = none →
      BracketStep opened event (some event)
  | closes (start : SessionEvent) : isCompactionStart event = false →
      isCompactionEnd event = true → isEndSeed event = false → opened = some start →
      compactionIdOf start = compactionIdOf event → BracketStep opened event none
  | drops : isCompactionStart event = false → isCompactionEnd event = false →
      isEndSeed event = true → BracketStep opened event none
  | passes : isCompactionStart event = false → isCompactionEnd event = false →
      isEndSeed event = false → BracketStep opened event opened

theorem isPlugin_eq_false {type : PluginType} {name : String} (h : event.type = name)
    (hne : name ≠ type.name) : isPlugin type event = false := by
  rw [isPlugin, h]
  exact beq_eq_false_iff_ne.mpr hne

theorem isEndSeed_of_isPlugin {type : PluginType} (h : isPlugin type event = true)
    (hne : type.name ≠ "session/end-seed") : isEndSeed event = false := by
  rw [isEndSeed, beq_iff_eq.mp h]
  exact beq_eq_false_iff_ne.mpr hne

theorem bracketStep_cases {next : Option SessionEvent} (h : bracketStep opened event = some next) :
    BracketStep opened event next := by
  unfold bracketStep at h
  cases hstart : isCompactionStart event with
  | true =>
    rw [if_pos hstart] at h
    obtain ⟨hopened, h⟩ := Option.ite_none_right_eq_some.mp h
    obtain rfl := Option.some.inj h
    exact .opens hstart (isEndSeed_of_isPlugin hstart (by decide)) (Option.isNone_iff_eq_none.mp hopened)
  | false =>
    rw [if_neg (by simp [hstart])] at h
    cases hend : isCompactionEnd event with
    | true =>
      rw [if_pos hend] at h
      obtain ⟨hopened, h⟩ := Option.ite_none_right_eq_some.mp h
      obtain rfl := Option.some.inj h
      obtain ⟨start, hopened, hid⟩ := (Option.any_eq_true _ _).mp hopened
      exact .closes start hstart hend (isEndSeed_of_isPlugin hend (by decide)) hopened
        (of_decide_eq_true hid)
    | false =>
      rw [if_neg (by simp [hend])] at h
      cases hseed : isEndSeed event with
      | true =>
        rw [if_pos hseed] at h
        obtain rfl := Option.some.inj h
        exact .drops hstart hend hseed
      | false =>
        rw [if_neg (by simp [hseed])] at h
        obtain rfl := Option.some.inj h
        exact .passes hstart hend hseed

theorem lock_eq (hseq : events.map SessionEvent.seq = List.range events.length)
    (h : run bracketStep none events = some opened) (stage : String) :
    isOk (assertNoActiveCompaction events stage) = opened.isNone := by
  rw [isOk_assertNoActiveCompaction]
  induction events using List.reverseRecOn generalizing opened with
  | nil =>
    obtain rfl := Option.some.inj h
    rfl
  | append_singleton events event ih =>
    rw [run_snoc] at h
    obtain ⟨previous, hprevious, h⟩ := Option.bind_eq_some_iff.mp h
    rw [List.map_append, List.length_append, List.length_singleton, List.range_succ] at hseq
    obtain ⟨hseq, hlast⟩ := List.append_inj' hseq rfl
    replace hlast : event.seq = events.length := by simpa using hlast
    have hlt : ∀ other ∈ events, other.seq < event.seq := by
      intro other hother
      rw [hlast, ← List.mem_range, ← hseq]
      exact List.mem_map_of_mem hother
    rw [latest_snoc, latest_snoc]
    cases bracketStep_cases h with
    | opens hstart hseed _ =>
      cases hlatest : latest isEndSeed events with
      | none => simp [hstart, hseed]
      | some seed =>
        have hbefore := hlt seed (mem_of_latest hlatest)
        simp [hstart, hseed, hbefore.le]
    | closes start hstart hend => simp [hstart, hend]
    | drops hstart hend hseed =>
      cases hlatest : (latest (fun event => isCompactionStart event || isCompactionEnd event)
          events).filter isCompactionStart with
      | none => simp [hstart, hend, hlatest]
      | some start =>
        have hbefore := hlt start (mem_of_latest (Option.filter_eq_some_iff.mp hlatest).1)
        simp [hstart, hend, hseed, hlatest, hbefore]
    | passes hstart hend hseed => simpa [hstart, hend, hseed] using ih hseq hprevious

theorem bracketStep_passes (h : event.type ∉ compactionMarkers) :
    bracketStep opened event = some opened := by
  simp only [compactionMarkers, List.mem_cons, List.not_mem_nil, or_false, not_or] at h
  obtain ⟨hstart, hend, hseed⟩ := h
  have hstart : isCompactionStart event = false := beq_eq_false_iff_ne.mpr hstart
  have hend : isCompactionEnd event = false := beq_eq_false_iff_ne.mpr hend
  have hseed : isEndSeed event = false := beq_eq_false_iff_ne.mpr hseed
  simp [bracketStep, hstart, hend, hseed]

theorem bracketStep_endSeed (h : event.type = "session/end-seed") :
    bracketStep opened event = some none := by
  have hstart : isCompactionStart event = false := isPlugin_eq_false h (by decide)
  have hend : isCompactionEnd event = false := isPlugin_eq_false h (by decide)
  have hseed : isEndSeed event = true := beq_iff_eq.mpr h
  simp [bracketStep, hstart, hend, hseed]

variable {lifecycle : CompactionLifecycle} {error : Option String}

theorem lookup_lifecycle (lifecycle : CompactionLifecycle) {fields : List (String × Option Json)}
    (hnodup : ((lifecycleFields lifecycle ++ fields).map Prod.fst).Nodup) :
    (Json.obj (Json.presentFields (lifecycleFields lifecycle ++ fields))).get? "compactionId" =
      some (.str lifecycle.compactionId) := by
  rw [Json.get?_obj, Json.lookup_presentFields hnodup]
  rfl

theorem compactionIdOf_start (h : event.data = startData lifecycle) :
    compactionIdOf event = some (.str lifecycle.compactionId) := by
  unfold compactionIdOf
  rw [h]
  exact @lookup_lifecycle lifecycle [] (by simp [lifecycleFields])

theorem compactionIdOf_end (h : event.data = endData lifecycle error) :
    compactionIdOf event = some (.str lifecycle.compactionId) := by
  unfold compactionIdOf
  rw [h]
  exact lookup_lifecycle lifecycle (by simp [lifecycleFields])

theorem bracketStep_start (h : event.data = startData lifecycle) :
    bracketStep none event = some (some event) := by
  have hstart : isCompactionStart event = true := by
    rw [isCompactionStart, isPlugin, SessionEvent.type, h]
    rfl
  simp [bracketStep, hstart]

theorem bracketStep_end {start : SessionEvent} (hstart : start.data = startData lifecycle)
    (h : event.data = endData lifecycle error) : bracketStep (some start) event = some none := by
  have htype : event.type = "compaction/end" := by
    rw [SessionEvent.type, h]
    rfl
  have hopens : isCompactionStart event = false := isPlugin_eq_false htype (by decide)
  have hcloses : isCompactionEnd event = true := beq_iff_eq.mpr htype
  simp [bracketStep, hopens, hcloses, compactionIdOf_start hstart, compactionIdOf_end h]

end Brackets

section Publications

variable {log : EventLog}

inductive Published (log : EventLog) (data : EventData) (opts : Option AppendOpts) :
    Except String SessionEvent × EventLog → Prop
  | refused (message : String) : Published log data opts (.error message, log)
  | logged (event : SessionEvent) (fold : SurfaceFold) : event.data = data →
      snapshotField (surfaceField opts AppendOpts.surfaceOp) = some event.surfaceOp →
      runFold (log ++ [event]) = .ok fold → Published log data opts (.ok event, log ++ [event])

theorem publish_published (log : EventLog) (data : EventData) (opts : Option AppendOpts)
    (publication : Publication) : Published log data opts (publish log data opts publication) := by
  unfold publish
  dsimp only
  cases hresult : (log.append { data := .lossless data, opts, time := publication.time }
      { checks := [], veto := publication.veto, observers := [] }).1.result with
  | error message =>
    rw [EventLog.append_failed hresult]
    exact .refused message
  | ok event =>
    obtain ⟨hlog, hsnapshot, fold, hfold⟩ := EventLog.append_ok hresult
    obtain ⟨hdata, hop⟩ := snapshotCandidate_ok hsnapshot
    rw [hlog]
    exact .logged event fold hdata hop hfold

def logSurface (log : EventLog) : Except String (List Nat) :=
  (foldSurface log).map SurfaceFoldResult.nodes

theorem logSurface_eq {fold : SurfaceFold} (h : runFold log = .ok fold) :
    logSurface log = .ok fold.state.nodes := by
  rw [logSurface, foldSurface_of_runFold h]
  rfl

theorem logSurface_silent {event : SessionEvent} {fold : SurfaceFold}
    (h : runFold (log ++ [event]) = .ok fold) (hop : committedOp event = none) :
    logSurface (log ++ [event]) = logSurface log := by
  obtain ⟨previous, hprevious, _, hcommitted⟩ := runFold_snoc_committed h
  rw [logSurface_eq h, logSurface_eq hprevious, hcommitted.of_silent hop]

theorem surfaceOpOf_committed {event : SessionEvent} {fold : SurfaceFold}
    (h : runFold (log ++ [event]) = .ok fold) : surfaceOpOf event = .ok (committedOp event) := by
  rw [runFold_snoc] at h
  obtain ⟨_, _, h⟩ := bind_eq_ok.mp h
  obtain ⟨_, happly, _⟩ := map_eq_ok.mp h
  obtain ⟨_, hplan, _⟩ := bind_eq_ok.mp happly
  obtain ⟨_, _, hplan⟩ := bind_eq_ok.mp hplan
  obtain ⟨op, hop, _⟩ := bind_eq_ok.mp hplan
  rw [committedOp, hop]

theorem committedOp_marked {event : SessionEvent} {start endSeq : Nat}
    (h : surfaceOpOf event = .ok (committedOp event))
    (hkind : isSurfaceEligibleType event.type = true)
    (hop : event.surfaceOp = some (replaceOp start endSeq)) :
    committedOp event = some (.replace start endSeq) := by
  cases hcommitted : committedOp event with
  | none => simp [surfaceOpOf_none (hcommitted ▸ h)] at hkind
  | some op =>
    cases op with
    | append =>
      rw [hcommitted] at h
      unfold surfaceOpOf at h
      rw [hop, if_neg (by simp [hkind])] at h
      simp only [replaceOp] at h
      split at h <;> simp at h
    | replace start' endSeq' =>
      obtain ⟨rfl, rfl⟩ := committedOp_replaceOp hop hcommitted
      rfl

end Publications

section Landing

variable {log log' : EventLog} {transaction : RunningCompaction}

inductive Closing (lifecycle : CompactionLifecycle) (log : EventLog) : EventLog → Prop
  | refused : Closing lifecycle log log
  | written (event : SessionEvent) (error : Option String) (fold : SurfaceFold) :
      event.data = endData lifecycle error → runFold (log ++ [event]) = .ok fold →
      Closing lifecycle log (log ++ [event])

theorem Closing.grown {lifecycle : CompactionLifecycle} (h : Closing lifecycle log log') :
    log <+: log' := by
  cases h with
  | refused => exact List.prefix_refl _
  | written => exact List.prefix_append _ _

theorem Closing.surface {lifecycle : CompactionLifecycle} (h : Closing lifecycle log log') :
    logSurface log' = logSurface log := by
  cases h with
  | refused => rfl
  | written event error fold hdata hfold =>
    exact logSurface_silent hfold (committedOp_of_plugin hdata)

theorem Closing.accepted {lifecycle : CompactionLifecycle} (h : Closing lifecycle log log')
    (hlog : ∃ fold, runFold log = .ok fold) : ∃ fold, runFold log' = .ok fold := by
  cases h with
  | refused => exact hlog
  | written _ _ fold _ hfold => exact ⟨fold, hfold⟩

theorem Closing.bracket {lifecycle : CompactionLifecycle} (h : Closing lifecycle log log')
    {start : SessionEvent} (hopen : run bracketStep none log = some (some start))
    (hstart : start.data = startData lifecycle) :
    ∃ opened, run bracketStep none log' = some opened := by
  cases h with
  | refused => exact ⟨_, hopen⟩
  | written event error fold hdata =>
    refine ⟨none, ?_⟩
    rw [run_snoc, hopen]
    exact bracketStep_end hstart hdata

theorem publish_closing (log : EventLog) (lifecycle : CompactionLifecycle)
    (error : Option String) (publication : Publication) :
    Closing lifecycle log (publish log (endData lifecycle error) none publication).2 := by
  have h := publish_published log (endData lifecycle error) none publication
  generalize publish log (endData lifecycle error) none publication = published at h ⊢
  cases h with
  | refused => exact .refused
  | logged event fold hdata _ hfold => exact .written event error fold hdata hfold

theorem closeFailed_closing (log : EventLog) (lifecycle : CompactionLifecycle)
    (failure : TransactionFailure) (publication : Publication) :
    Closing lifecycle log (closeFailed log lifecycle failure publication).2 ∧
      ∃ error, (closeFailed log lifecycle failure publication).1.outcome = .error error := by
  have h := publish_closing log lifecycle (some failure.error.message) publication
  unfold closeFailed
  generalize publish log (endData lifecycle (some failure.error.message)) none publication =
    published at h ⊢
  obtain ⟨result, log'⟩ := published
  cases result with
  | error message => exact ⟨h, _, rfl⟩
  | ok event => exact ⟨h, _, rfl⟩

/-- The span of a transaction was selected, and priced, on the log as it was earlier. -/
def Selected (log : EventLog) (transaction : RunningCompaction) : Prop :=
  ∃ opened earlier, opened <+: earlier ∧ earlier <+: log ∧
    validateSurfaceRegion opened transaction.request.start transaction.request.endSeq =
      .ok transaction.prepared.selection ∧
    prepareCompaction earlier transaction.prepared.selection = .ok transaction.prepared

theorem Selected.mono (h : Selected log transaction) (hgrown : log <+: log') :
    Selected log' transaction := by
  obtain ⟨opened, earlier, hopened, hearlier, hselected⟩ := h
  exact ⟨opened, earlier, hopened, hearlier.trans hgrown, hselected⟩

/-- One checkpoint stands where the selected span stood, still priced as it was selected, and
costs less; the nodes around it are untouched. -/
def SpanReplaced (transaction : RunningCompaction) (before after : EventLog) : Prop :=
  ∃ (front back : List Nat) (checkpoint : SessionEvent) (message : UserMessage),
    logSurface before = .ok (front ++ transaction.prepared.selection.shadowedSeqs ++ back) ∧
    logSurface after = .ok (front ++ [checkpoint.seq] ++ back) ∧
    after[checkpoint.seq]? = some checkpoint ∧ checkpoint.data = .userMessage message ∧
    pricedNodes before transaction.prepared.selection.shadowedSeqs =
      transaction.prepared.selectedNodes ∧
    estimateMessage (.user message) < nodeTokens transaction.prepared.selectedNodes

theorem ready_ok {settlement : Settlement} {summarized : SummarizedCompaction}
    (h : ready log transaction settlement = .ok summarized) :
    summarized.prepared = transaction.prepared ∧
      estimateMessage (.user summarized.checkpointMessage) <
        transaction.prepared.shadowedTokenCount ∧
      assertStable transaction.request.stability log transaction.prepared = .ok () := by
  obtain ⟨result, _, h⟩ := bind_eq_ok.mp h
  obtain ⟨framed, hframed, h⟩ := bind_eq_ok.mp h
  obtain ⟨_, _, h⟩ := bind_eq_ok.mp h
  obtain ⟨_, hstable, h⟩ := bind_eq_ok.mp h
  obtain rfl := Except.ok.inj h
  unfold frameCheckpoint at hframed
  dsimp only at hframed
  split at hframed
  · simp at hframed
  · rename_i hsmaller
    obtain rfl := (Except.ok.inj hframed).symm
    exact ⟨rfl, Nat.lt_of_not_le hsmaller, hstable⟩

theorem Selected.slice (h : Selected log transaction)
    (hstable : assertStable transaction.request.stability log transaction.prepared = .ok ())
    {fold : SurfaceFold} (hfold : runFold log = .ok fold) :
    ∃ startIdx endIdx,
      fold.state.nodes.idxOf? transaction.prepared.selection.start = some startIdx ∧
      fold.state.nodes.idxOf? transaction.prepared.selection.endSeq = some endIdx ∧
      startIdx ≤ endIdx ∧
      nodeSlice fold.state.nodes startIdx endIdx = transaction.prepared.selection.shadowedSeqs ∧
      pricedNodes log transaction.prepared.selection.shadowedSeqs =
        transaction.prepared.selectedNodes ∧
      transaction.prepared.shadowedTokenCount =
        nodeTokens transaction.prepared.selectedNodes := by
  obtain ⟨opened, earlier, _, _, hvalid, hprepared⟩ := h
  obtain ⟨startIdx, endIdx, hstart, hend, hle, hslice⟩ :=
    stable_slice hvalid hprepared hstable hfold
  obtain ⟨_, _, hfirst, hlast, _⟩ := validateSurfaceRegion_ok hvalid
  obtain ⟨_, _, _, _, _, hseqs, htokens⟩ := prepareCompaction_ok hprepared
  have hspan : nodeSlice fold.state.nodes startIdx endIdx =
      transaction.prepared.selection.shadowedSeqs := by
    rw [← hseqs, ← hslice, map_nodeSlice, map_seq_pricedNodes]
  refine ⟨startIdx, endIdx, hfirst ▸ hstart, hlast ▸ hend, hle, hspan, ?_, htokens⟩
  rw [← hspan, ← hslice]
  exact map_nodeSlice _ _ _ _

theorem bracket_passes {event : SessionEvent} (h : event.type ∉ compactionMarkers) :
    run bracketStep none (log ++ [event]) = run bracketStep none log := by
  rw [run_snoc]
  cases run bracketStep none log with
  | none => rfl
  | some opened => exact bracketStep_passes h

/-- The summary record and the replacement: the surface is as it was, or the span is replaced. -/
theorem commitCompactionBody_cases {summarized : SummarizedCompaction} {fold : SurfaceFold}
    (hfold : runFold log = .ok fold) (hselected : Selected log transaction)
    (hprepared : summarized.prepared = transaction.prepared)
    (hsmaller : estimateMessage (.user summarized.checkpointMessage) <
      transaction.prepared.shadowedTokenCount)
    (hstable : assertStable transaction.request.stability log transaction.prepared = .ok ())
    (publications : CommitPublications) {committed : Except String Nat × EventLog}
    (h : commitCompactionBody log transaction summarized publications = committed) :
    log <+: committed.2 ∧ (∃ fold, runFold committed.2 = .ok fold) ∧
      run bracketStep none committed.2 = run bracketStep none log ∧
      ((∃ message, committed.1 = .error message) ∧ logSurface committed.2 = logSurface log ∨
        SpanReplaced transaction log committed.2) := by
  unfold commitCompactionBody at h
  dsimp only at h
  have hsummary := publish_published log (summaryData transaction.lifecycle summarized) none
    publications.summary
  generalize publish log (summaryData transaction.lifecycle summarized) none
    publications.summary = published at h hsummary
  cases hsummary with
  | refused message =>
    subst h
    exact ⟨List.prefix_refl _, ⟨fold, hfold⟩, rfl, .inl ⟨⟨message, rfl⟩, rfl⟩⟩
  | logged summary withSummary hdata _ hsummarized =>
    have hquiet := logSurface_silent hsummarized (committedOp_of_plugin hdata)
    have htype : summary.type ∉ compactionMarkers := by
      rw [SessionEvent.type, hdata]
      exact (by decide : compactionSummaryType.name ∉ compactionMarkers)
    have hpasses := @bracket_passes log summary htype
    dsimp only at h
    have hcheckpoint := publish_published (log ++ [summary]) (.userMessage summarized.checkpointMessage)
      (some (replaceIntent summarized.prepared.selection.start summarized.prepared.selection.endSeq
        (transaction.startSeq :: summary.seq :: summarized.prepared.selection.shadowedSeqs)))
      publications.checkpoint
    generalize publish (log ++ [summary]) (.userMessage summarized.checkpointMessage)
      (some (replaceIntent summarized.prepared.selection.start summarized.prepared.selection.endSeq
        (transaction.startSeq :: summary.seq :: summarized.prepared.selection.shadowedSeqs)))
      publications.checkpoint = published at h hcheckpoint
    cases hcheckpoint with
    | refused message =>
      subst h
      exact ⟨List.prefix_append _ _, ⟨_, hsummarized⟩, hpasses, .inl ⟨⟨message, rfl⟩, hquiet⟩⟩
    | logged checkpoint replaced hmessage hop hreplaced =>
      subst h
      have hkind : checkpoint.type = "user/message" := by
        rw [SessionEvent.type, hmessage]
        rfl
      have hneutral := @bracket_passes (log ++ [summary]) checkpoint (by rw [hkind]; decide)
      refine ⟨(List.prefix_append _ _).trans (List.prefix_append _ _), ⟨_, hreplaced⟩,
        hneutral.trans hpasses, .inr ?_⟩
      obtain ⟨startIdx, endIdx, hstart, hend, hle, hspan, hpriced, htokens⟩ :=
        hselected.slice hstable hfold
      have hmarked := committedOp_marked (surfaceOpOf_committed hreplaced) (by rw [hkind]; rfl)
        (Option.some.inj hop).symm
      rw [hprepared] at hmarked
      obtain ⟨previous, hprevious, hseq, hcommitted⟩ := runFold_snoc_committed hreplaced
      obtain rfl : previous = withSummary := Except.ok.inj (hprevious.symm.trans hsummarized)
      have hnodes : previous.state.nodes = fold.state.nodes := by
        rw [logSurface_eq hsummarized, logSurface_eq hfold] at hquiet
        exact Except.ok.inj hquiet
      rw [hnodes] at hcommitted
      refine ⟨fold.state.nodes.take startIdx, fold.state.nodes.drop (endIdx + 1), checkpoint,
        summarized.checkpointMessage, ?_, ?_, ?_, hmessage, hpriced, htokens ▸ hsmaller⟩
      · rw [logSurface_eq hfold, ← hspan, take_nodeSlice_drop _ hle]
      · rw [logSurface_eq hreplaced, hcommitted.of_replace hmarked hstart hend]
      · rw [hseq]
        exact List.getElem?_concat_length

theorem SpanReplaced.mono {before : EventLog} (h : SpanReplaced transaction before log)
    (hgrown : log <+: log') (hsurface : logSurface log' = logSurface log) :
    SpanReplaced transaction before log' := by
  obtain ⟨front, back, checkpoint, message, hbefore, hafter, hlogged, hrest⟩ := h
  refine ⟨front, back, checkpoint, message, hbefore, hsurface.trans hafter, ?_, hrest⟩
  obtain ⟨rest, rfl⟩ := hgrown
  rw [List.getElem?_append_left (List.getElem?_eq_some_iff.mp hlogged).1, hlogged]

/-- However a transaction lands, it leaves the surface alone or replaces its span. -/
structure Landed (transaction : RunningCompaction) (log : EventLog) (landed : Landing × EventLog) :
    Prop where
  grown : log <+: landed.2
  accepted : ∃ fold, runFold landed.2 = .ok fold
  bracket : ∃ opened, run bracketStep none landed.2 = some opened
  surface : (∃ failure, landed.1.outcome = .error failure) ∧
    logSurface landed.2 = logSurface log ∨ SpanReplaced transaction log landed.2

theorem landed_of_closing {lifecycle : CompactionLifecycle} {middle : EventLog}
    {landing : Landing} {start : SessionEvent} (hgrown : log <+: middle)
    (haccepted : ∃ fold, runFold middle = .ok fold)
    (hopen : run bracketStep none middle = some (some start))
    (hstart : start.data = startData lifecycle)
    (hsurface : (∃ failure, landing.outcome = .error failure) ∧
      logSurface middle = logSurface log ∨ SpanReplaced transaction log middle)
    (h : Closing lifecycle middle log') : Landed transaction log (landing, log') where
  grown := hgrown.trans h.grown
  accepted := h.accepted haccepted
  bracket := h.bracket hopen hstart
  surface := by
    cases hsurface with
    | inl hsame => exact .inl ⟨hsame.1, h.surface.trans hsame.2⟩
    | inr hreplaced => exact .inr (hreplaced.mono h.grown h.surface)

theorem land_landed {fold : SurfaceFold} {start : SessionEvent} (hfold : runFold log = .ok fold)
    (hselected : Selected log transaction) (hopen : run bracketStep none log = some (some start))
    (hstart : start.data = startData transaction.lifecycle) (settlement : Settlement) :
    Landed transaction log (land log transaction settlement) := by
  unfold land
  cases hready : ready log transaction settlement with
  | error error =>
    obtain ⟨hclosing, herror⟩ := closeFailed_closing log transaction.lifecycle
      { error, stage := .summary } settlement.publications.close
    exact landed_of_closing (List.prefix_refl _) ⟨fold, hfold⟩ hopen hstart (.inl ⟨herror, rfl⟩)
      hclosing
  | ok summarized =>
    obtain ⟨hprepared, hsmaller, hstable⟩ := ready_ok hready
    obtain ⟨hgrown, haccepted, hbracket, hsurface⟩ := commitCompactionBody_cases hfold hselected
      hprepared hsmaller hstable settlement.publications rfl
    dsimp only
    generalize commitCompactionBody log transaction summarized settlement.publications =
      committed at hgrown haccepted hbracket hsurface ⊢
    obtain ⟨result, middle⟩ := committed
    cases result with
    | error message =>
      obtain ⟨hclosing, herror⟩ := closeFailed_closing middle transaction.lifecycle
        { error := .thrown message, stage := .commit } settlement.publications.close
      exact landed_of_closing hgrown haccepted (hbracket.trans hopen) hstart
        (hsurface.imp_left fun hsame => ⟨herror, hsame.2⟩) hclosing
    | ok summarySeq =>
      have hreplaced : SpanReplaced transaction log middle := by
        cases hsurface with
        | inl hsame => simp at hsame
        | inr hreplaced => exact hreplaced
      have hclosing := publish_closing middle transaction.lifecycle none settlement.publications.close
      dsimp only
      generalize publish middle (endData transaction.lifecycle none) none
        settlement.publications.close = published at hclosing ⊢
      obtain ⟨closed, log'⟩ := published
      cases closed with
      | error message =>
        exact landed_of_closing hgrown haccepted (hbracket.trans hopen) hstart (.inr hreplaced)
          hclosing
      | ok endEvent =>
        exact landed_of_closing hgrown haccepted (hbracket.trans hopen) hstart (.inr hreplaced)
          hclosing

theorem outcome_of_completed {request : CompactionRequest} {landing : Landing}
    {aftermath : Aftermath} {result : CompactionResult}
    (h : report request landing aftermath = .completed result) : landing.outcome = .ok result := by
  unfold report at h
  split at h
  · simp at h
  · split at h
    · simp at h
    · rename_i houtcome
      split at h
      · split at h
        · simp at h
        · rw [houtcome, CompactionReply.completed.inj h]
      · rw [houtcome, CompactionReply.completed.inj h]

end Landing

section Restart

variable {log : EventLog}

theorem run_passes {events : List SessionEvent} {opened : Option SessionEvent}
    (h : ∀ event ∈ events, event.type ∉ compactionMarkers) :
    run bracketStep opened events = some opened := by
  induction events with
  | nil => rfl
  | cons event events ih =>
    rw [run_cons, bracketStep_passes (h event List.mem_cons_self), Option.bind_some]
    exact ih fun other hother => h other (List.mem_cons_of_mem _ hother)

theorem resultClosers_foreign {turn : Nat} {time : Int} {seq : Nat}
    {calls : List (CallId × PendingCall)} :
    ∀ event ∈ resultClosers turn time seq calls, event.type ∉ compactionMarkers := by
  induction calls generalizing seq with
  | nil => simp [resultClosers]
  | cons call calls ih =>
    intro event hevent
    cases List.mem_cons.mp hevent with
    | inl hfirst =>
      rw [hfirst]
      exact (by decide : "tool/result" ∉ compactionMarkers)
    | inr hrest => exact ih event hrest

theorem boundaryClosers_foreign {turn : Nat} {time : Int} {seq : Nat} {step : Option Nat} :
    ∀ event ∈ boundaryClosers turn time seq step, event.type ∉ compactionMarkers := by
  have hstep : "step/end" ∉ compactionMarkers := by decide
  have hturn : "turn/end" ∉ compactionMarkers := by decide
  cases step with
  | none => simpa [boundaryClosers, logOnly, SessionEvent.type, EventData.type] using hturn
  | some step =>
    simpa [boundaryClosers, logOnly, SessionEvent.type, EventData.type] using ⟨hstep, hturn⟩

theorem interruptedTurnClosers_foreign :
    ∀ event ∈ interruptedTurnClosers log, event.type ∉ compactionMarkers := by
  intro event hevent
  unfold interruptedTurnClosers at hevent
  dsimp only at hevent
  split at hevent
  · cases List.mem_append.mp hevent with
    | inl hresult => exact resultClosers_foreign event hresult
    | inr hboundary => exact boundaryClosers_foreign event hboundary
  · simp at hevent

theorem restart_bracket {opened : Option SessionEvent} (kept : Nat)
    (h : run bracketStep none log = some opened) {now : Int} {session : Session}
    (hcreate : Session.create (some ((CompactionState.restartSeed log kept).map .lossless)) now =
      .ok session) :
    (∃ fold, runFold session.logged = .ok fold) ∧
      run bracketStep none session.logged = some none := by
  obtain ⟨events, logged, hseed, hsession, hend⟩ := Session.create_seeded hcreate
  rw [hsession.logged]
  refine ⟨hsession.accepted, ?_⟩
  have hevents : CompactionState.restartSeed log kept = events :=
    List.map_injective_iff.mpr (fun _ _ heq => Supplied.lossless.inj heq) hseed
  have hrun : ∃ opened, run bracketStep none events = some opened := by
    rw [← hevents, CompactionState.restartSeed, run_append]
    rw [← List.take_append_drop kept log] at h
    obtain ⟨opened, hkept, _⟩ := run_front h
    rw [hkept]
    exact ⟨opened, run_passes interruptedTurnClosers_foreign⟩
  cases hend with
  | inl hended =>
    obtain ⟨rfl, hended⟩ := hended
    obtain ⟨last, hlast, htype⟩ := hended.resolve_left (by simp)
    obtain ⟨front, rfl⟩ := List.getLast?_eq_some_iff.mp hlast
    obtain ⟨opened, hrun⟩ := hrun
    obtain ⟨opened, hfront, _⟩ := run_front hrun
    rw [run_snoc, hfront]
    exact bracketStep_endSeed htype
  | inr hmarked =>
    obtain ⟨marker, rfl, hmarker⟩ := hmarked
    obtain ⟨opened, hrun⟩ := hrun
    rw [run_snoc, hrun]
    apply bracketStep_endSeed
    rw [SessionEvent.type, hmarker]
    rfl

end Restart

namespace CompactionState

/-- At most one transaction waits for its summary, and its bracket is the one the log has open. -/
inductive Held (log : EventLog) : Option SessionEvent → List RunningCompaction → Prop
  | idle (opened : Option SessionEvent) : Held log opened []
  | running (start : SessionEvent) (transaction : RunningCompaction) :
      start.data = startData transaction.lifecycle → Selected log transaction →
      Held log (some start) [transaction]

structure Consistent (state : CompactionState) : Prop where
  accepted : ∃ fold, runFold state.log = .ok fold
  held : ∃ opened, run bracketStep none state.log = some opened ∧
    Held state.log opened state.running

theorem initial_consistent : initial.Consistent where
  accepted := ⟨_, rfl⟩
  held := ⟨none, rfl, .idle none⟩

variable {state : CompactionState}

theorem Held.mono {log log' : EventLog} {opened : Option SessionEvent}
    {running : List RunningCompaction} (h : Held log opened running) (hgrown : log <+: log') :
    Held log' opened running := by
  cases h with
  | idle => exact .idle _
  | running start transaction hstart hselected =>
    exact .running start transaction hstart (hselected.mono hgrown)

theorem Consistent.other (h : state.Consistent) (foreign : ForeignCandidate)
    (dispatch : Session.Dispatch) : (state.step (.other foreign dispatch)).1.Consistent := by
  simp only [step]
  cases hresult : (state.log.append foreign.candidate dispatch).1.result with
  | error message =>
    rw [EventLog.append_failed hresult]
    exact h
  | ok event =>
    obtain ⟨hlog, hsnapshot, haccepted⟩ := EventLog.append_ok hresult
    obtain ⟨opened, hopened, hheld⟩ := h.held
    have htype : event.type ∉ compactionMarkers := by
      rw [(snapshotCandidate_envelope hsnapshot).2]
      exact foreign.foreign
    rw [hlog]
    exact ⟨haccepted, opened, (bracket_passes htype).trans hopened,
      hheld.mono (List.prefix_append _ _)⟩

theorem admitRequest_ok {log : EventLog} {request : CompactionRequest} {aborted : Bool}
    {admitted : SurfaceSelection × CompactionLifecycle}
    (h : admitRequest log request aborted = .ok admitted) :
    validateSurfaceRegion log request.start request.endSeq = .ok admitted.1 ∧
      isOk (assertNoActiveCompaction log "compaction") = true := by
  obtain ⟨_, _, h⟩ := bind_eq_ok.mp h
  obtain ⟨selection, hselection, h⟩ := bind_eq_ok.mp h
  obtain ⟨_, hinactive, h⟩ := bind_eq_ok.mp h
  obtain ⟨_, _, h⟩ := bind_eq_ok.mp h
  obtain rfl := Except.ok.inj h
  exact ⟨hselection, isOk_iff.mpr ⟨_, hinactive⟩⟩

theorem Consistent.enter (h : state.Consistent) (entry : Entry) :
    (state.enter entry).1.Consistent ∧
      logSurface (state.enter entry).1.log = logSurface state.log := by
  obtain ⟨fold, hfold⟩ := h.accepted
  obtain ⟨opened, hopened, hheld⟩ := h.held
  unfold CompactionState.enter
  cases hadmit : admitRequest state.log entry.request entry.aborted with
  | error message => exact ⟨h, rfl⟩
  | ok admitted =>
    obtain ⟨selection, lifecycle⟩ := admitted
    obtain ⟨hvalid, hinactive⟩ := admitRequest_ok hadmit
    have hnone : opened = none := by
      rw [lock_eq (runFold_seq hfold) hopened] at hinactive
      exact Option.isNone_iff_eq_none.mp hinactive
    subst hnone
    have hidle : state.running = [] := by
      generalize state.running = running at hheld
      cases hheld
      rfl
    have hstart := publish_published state.log (startData lifecycle) none entry.opening
    dsimp only
    generalize publish state.log (startData lifecycle) none entry.opening = published at hstart ⊢
    cases hstart with
    | refused message => exact ⟨h, rfl⟩
    | logged start started hdata _ hstarted =>
      have hquiet := logSurface_silent hstarted (committedOp_of_plugin hdata)
      have hlocked : run bracketStep none (state.log ++ [start]) = some (some start) := by
        rw [run_snoc, hopened]
        exact bracketStep_start hdata
      dsimp only
      cases hprepare : prepareCompaction (state.log ++ [start]) selection with
      | error error =>
        obtain ⟨hclosing, _⟩ := closeFailed_closing (state.log ++ [start]) lifecycle
          { error, stage := .summary } entry.closing
        obtain ⟨opened, hbracket⟩ := hclosing.bracket hlocked hdata
        refine ⟨⟨hclosing.accepted ⟨started, hstarted⟩, opened, hbracket, ?_⟩,
          hclosing.surface.trans hquiet⟩
        rw [hidle]
        exact .idle opened
      | ok prepared =>
        refine ⟨⟨⟨started, hstarted⟩, some start, hlocked, ?_⟩, hquiet⟩
        rw [hidle]
        obtain ⟨_, _, rfl, _⟩ := prepareCompaction_ok hprepare
        exact .running start _ hdata ⟨state.log, state.log ++ [start], List.prefix_append _ _,
          List.prefix_refl _, hvalid, hprepare⟩

theorem Held.eq_of_getElem? {log : EventLog} {opened : Option SessionEvent}
    {running : List RunningCompaction} (h : Held log opened running) {index : Nat}
    {transaction : RunningCompaction} (hindex : running[index]? = some transaction) :
    running.eraseIdx index = [] ∧ Selected log transaction ∧
      ∃ start, opened = some start ∧ start.data = startData transaction.lifecycle := by
  cases h with
  | idle => simp at hindex
  | running start transaction hstart hselected =>
    cases index with
    | zero =>
      obtain rfl := Option.some.inj hindex
      exact ⟨rfl, hselected, start, rfl, hstart⟩
    | succ index => simp at hindex

theorem Consistent.settle (h : state.Consistent) (index : Nat) (settlement : Settlement) :
    (state.settle index settlement).1.Consistent ∧
      ∀ transaction, state.running[index]? = some transaction →
        Selected state.log transaction ∧ state.log <+: (state.settle index settlement).1.log ∧
        (logSurface (state.settle index settlement).1.log = logSurface state.log ∨
          SpanReplaced transaction state.log (state.settle index settlement).1.log) ∧
        ∀ result, (state.settle index settlement).2 = .completed result →
          SpanReplaced transaction state.log (state.settle index settlement).1.log := by
  obtain ⟨fold, hfold⟩ := h.accepted
  obtain ⟨opened, hopened, hheld⟩ := h.held
  unfold CompactionState.settle
  cases hindex : state.running[index]? with
  | none => exact ⟨h, by simp⟩
  | some transaction =>
    obtain ⟨herased, hselected, start, rfl, hstart⟩ := hheld.eq_of_getElem? hindex
    have hlanded := land_landed hfold hselected hopened hstart settlement
    dsimp only
    generalize land state.log transaction settlement = landed at hlanded ⊢
    refine ⟨⟨hlanded.accepted, ?_⟩, ?_⟩
    · obtain ⟨opened, hbracket⟩ := hlanded.bracket
      refine ⟨opened, hbracket, ?_⟩
      rw [herased]
      exact .idle opened
    · intro other hother
      obtain rfl := Option.some.inj hother
      refine ⟨hselected, hlanded.grown, hlanded.surface.imp_left And.right, ?_⟩
      intro result hresult
      have houtcome := outcome_of_completed hresult
      cases hlanded.surface with
      | inl hsame => simp [houtcome] at hsame
      | inr hreplaced => exact hreplaced

theorem Consistent.crash (h : state.Consistent) (kept : Nat) (now : Int) :
    (state.crash kept now).Consistent ∧
      run bracketStep none (state.crash kept now).log = some none := by
  obtain ⟨opened, hopened, _⟩ := h.held
  unfold CompactionState.crash
  cases hcreate : Session.create (some ((restartSeed state.log kept).map .lossless)) now with
  | error message => exact ⟨initial_consistent, rfl⟩
  | ok session =>
    obtain ⟨haccepted, hbracket⟩ := restart_bracket kept hopened hcreate
    exact ⟨⟨haccepted, none, hbracket, .idle none⟩, hbracket⟩

theorem Consistent.step (h : state.Consistent) (label : CompactionLabel) :
    (state.step label).1.Consistent := by
  cases label with
  | other foreign dispatch => exact h.other foreign dispatch
  | enter entry => exact (h.enter entry).1
  | settle index settlement => exact (h.settle index settlement).1
  | crash kept now => exact (h.crash kept now).1

/-- Whatever happens around them: the markers of the transactions alternate and one at most is
open; one that ends has replaced the span it selected or left the surface alone, and has
replaced it if it reports success; and no restart finds the lock held. -/
theorem transactions_consistent (labels : List CompactionLabel) :
    let state := (transcript step initial labels).1
    (∃ nodes, logSurface state.log = .ok nodes) ∧
    (∃ opened, run bracketStep none state.log = some opened) ∧ state.running.length ≤ 1 ∧
    (∀ entry, logSurface (state.enter entry).1.log = logSurface state.log) ∧
    (∀ index transaction settlement, state.running[index]? = some transaction →
      let settled := state.settle index settlement
      Selected state.log transaction ∧ state.log <+: settled.1.log ∧
      (logSurface settled.1.log = logSurface state.log ∨
        SpanReplaced transaction state.log settled.1.log) ∧
      ∀ result, settled.2 = .completed result →
        SpanReplaced transaction state.log settled.1.log) ∧
    ∀ kept now stage, assertNoActiveCompaction (state.crash kept now).log stage = .ok () := by
  intro state
  have hstate : state.Consistent :=
    transcript_invariant Consistent (fun _ label h => h.step label) labels initial_consistent
  obtain ⟨fold, hfold⟩ := hstate.accepted
  obtain ⟨opened, hopened, hheld⟩ := hstate.held
  refine ⟨⟨_, logSurface_eq hfold⟩, ⟨opened, hopened⟩, ?_, fun entry => (hstate.enter entry).2, ?_, ?_⟩
  · generalize state.running = running at hheld
    cases hheld <;> simp
  · intro index transaction settlement hindex
    exact (hstate.settle index settlement).2 transaction hindex
  · intro kept now stage
    obtain ⟨⟨⟨fold, hfold⟩, _⟩, hbracket⟩ := hstate.crash kept now
    obtain ⟨_, hlock⟩ := isOk_iff.mp (lock_eq (runFold_seq hfold) hbracket stage)
    exact hlock

end CompactionState

end Harness
