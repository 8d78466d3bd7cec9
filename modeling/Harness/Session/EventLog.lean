import Harness.Session.Session
import Harness.Session.SurfaceHistory

/-! What a session is for: an event log that only grows, with every answer computed from the
whole of it.  The session with its planned transition, its snapshot and its incremental folds
answers like the bare log. -/

namespace Harness

open Harness.Foundation

abbrev EventLog := List SessionEvent

namespace EventLog

open Session

def read (log : EventLog) : Read → ReadReply
  | .nodes => replyOf .seqs ((foldSurface log).map SurfaceFoldResult.nodes)
  | .replaceGeneration => replyOf .count ((foldSurface log).map fun fold => fold.replacements.length)
  | .events => .events log
  | .seq => .count log.length
  | .requestHeader => .header (foldRequestHeader log none)
  | .requestContext => .context (foldRequestContext log none)
  | .deriveMessages =>
    replyOf .messages ((foldSurface log).map fun fold => fold.nodes.filterMap (deriveAt log))

def accept (log : EventLog) (event : SessionEvent) : Except String Unit := do
  let fold ← runFold log
  let _ ← planSurfaceEvent fold.state event log.length log 0
  return ()

def nested (log : EventLog) : Nested → NestedReply
  | .read read => .read (log.read read)
  | .append candidate => .threw (reentryError candidate log.length)

def append (log : EventLog) (candidate : Candidate) (dispatch : Dispatch) :
    AppendReply × EventLog :=
  match (do
    let event ← snapshotCandidate candidate log.length
    log.accept event
    return event : Except String SessionEvent) with
  | .error message => ({ checks := [], result := .error message, observers := [] }, log)
  | .ok event =>
    let checks := dispatch.checks.map log.nested
    match dispatch.veto with
    | some message => ({ checks, result := .error message, observers := [] }, log)
    | none =>
      let log := log ++ [event]
      ({ checks, result := .ok event, observers := dispatch.observers.map log.nested }, log)

def step (log : EventLog) : Op → EventLog × Reply
  | .read read => (log, .read (log.read read))
  | .append candidate dispatch =>
    let (reply, log) := log.append candidate dispatch
    (log, .append reply)

end EventLog

namespace SurfaceManager

variable {manager : SurfaceManager} {log : List EventObject} {nextRef : Nat}

def logged (log : List EventObject) : List SessionEvent := log.map EventObject.event

theorem map_event (log : List EventObject) : log.map EventObject.event = logged log := rfl

/-- The plan is the one a fold of the entries before it would make for the object. -/
def PlanFits (log : List EventObject) (pending : PendingPlan) (object : EventObject) : Prop :=
  pending.ref = object.ref → ∀ fold,
    runFold (logged (log.take pending.expectedSeq)) = .ok fold →
      planSurfaceEvent fold.state object.event pending.expectedSeq
        (logged (log.take pending.expectedSeq)) 0 = .ok pending.plan

/-- The manager has folded a prefix of the log, and its planned transition fits the entry it
was made for, should that entry be in the log. -/
structure Tracks (manager : SurfaceManager) (log : List EventObject) (nextRef : Nat) : Prop where
  base : manager.baseSeq = 0
  upTo : manager.nextSeq ≤ log.length
  state : ∃ fold, runFold (logged (log.take manager.nextSeq)) = .ok fold ∧
    fold.state = manager.state
  fresh : ∀ pending, manager.pendingPlan = some pending → pending.ref < nextRef
  fits : ∀ pending, manager.pendingPlan = some pending →
    ∀ object, log[pending.expectedSeq]? = some object → PlanFits log pending object

/-- What a later manager of the same log may have changed: it folded more, and may have let
its planned transition go. -/
structure Advances (manager manager' : SurfaceManager) : Prop where
  pending : ∀ pending, manager'.pendingPlan = some pending → manager.pendingPlan = some pending

theorem Advances.refl : manager.Advances manager := ⟨fun _ h => h⟩

theorem Advances.trans {manager' manager'' : SurfaceManager} (h : manager.Advances manager')
    (h' : manager'.Advances manager'') : manager.Advances manager'' :=
  ⟨fun pending hpending => h.pending pending (h'.pending pending hpending)⟩

theorem pendingFor_eq_some {object : EventObject} {pending : PendingPlan}
    (h : manager.pendingFor object = some pending) :
    manager.pendingPlan = some pending ∧ pending.ref = object.ref ∧
      pending.expectedSeq = manager.nextSeq := by
  obtain ⟨hpending, hmatch⟩ := Option.filter_eq_some_iff.mp h
  simpa [and_assoc] using And.intro hpending hmatch

theorem logged_take_succ {index : Nat} {object : EventObject} (h : log[index]? = some object) :
    logged (log.take (index + 1)) = logged (log.take index) ++ [object.event] := by
  simp [logged, List.take_add_one, h]

theorem logged_take_length {index : Nat} (h : index ≤ log.length) :
    (logged (log.take index)).length = index := by
  simp [logged, h]

theorem logged_take_append (log : List EventObject) (index : Nat) :
    logged log = logged (log.take index) ++ logged (log.drop index) := by
  rw [logged, logged, logged, ← List.map_append, List.take_append_drop]

/-- Folding one more entry of an accepted log succeeds, from the plan or from scratch alike. -/
theorem Tracks.processEvent (h : manager.Tracks log nextRef) {object : EventObject}
    (hobject : log[manager.nextSeq]? = some object) {whole : SurfaceFold}
    (haccepted : runFold (logged log) = .ok whole) :
    ∃ manager', manager.processEvent log object = .ok manager' ∧
      manager'.Tracks log nextRef ∧ manager'.nextSeq = manager.nextSeq + 1 ∧
      manager.Advances manager' := by
  obtain ⟨fold, hfold, hstate⟩ := h.state
  have hlt : manager.nextSeq < log.length := (List.getElem?_eq_some_iff.mp hobject).1
  have hlength := logged_take_length h.upTo
  rw [logged_take_append log (manager.nextSeq + 1)] at haccepted
  obtain ⟨fold', hfold'⟩ := runFold_front haccepted
  have hsnoc := hfold'
  rw [logged_take_succ hobject, runFold_snoc, hfold, hlength] at hsnoc
  obtain ⟨outcome, houtcome, hrecord⟩ := map_eq_ok.mp hsnoc
  have hnodes : ∀ seq ∈ fold.state.nodes, seq < manager.nextSeq := by
    simpa [hlength] using runFold_nodes_lt hfold
  have happly : applySurfaceEvent fold.state object.event manager.nextSeq (logged log) 0 =
      .ok outcome := by
    rw [← houtcome, logged_take_append log manager.nextSeq]
    apply applySurfaceEvent_congr
    intro seq hseq
    apply eventAt_append
    rw [hlength]
    exact hnodes seq hseq
  refine ⟨{ manager with
    state := outcome.1
    nextSeq := manager.nextSeq + 1
    pendingPlan := manager.pendingPlan.filter fun pending =>
      decide (manager.nextSeq < pending.expectedSeq) }, ?_, ?_, rfl, ?_⟩
  · unfold SurfaceManager.processEvent
    cases hpending : manager.pendingFor object with
    | none =>
      simp only [h.base, ← hstate, map_event, happly]
      rfl
    | some pending =>
      obtain ⟨hplan, href, hseq⟩ := pendingFor_eq_some hpending
      have hfits := h.fits pending hplan object (by rwa [hseq]) href
      rw [hseq] at hfits
      have hmade : applySurfaceEvent fold.state object.event manager.nextSeq
          (logged (log.take manager.nextSeq)) 0 = .ok (applySurfacePlan fold.state pending.plan) := by
        unfold applySurfaceEvent
        rw [hfits fold hfold]
        rfl
      have : outcome = applySurfacePlan fold.state pending.plan :=
        Except.ok.inj (houtcome.symm.trans hmade)
      simp [this, hstate]
  · exact
      { base := h.base
        upTo := hlt
        state := ⟨fold', hfold', by rw [← hrecord]; rfl⟩
        fresh := fun pending hpending => h.fresh pending (Option.filter_eq_some_iff.mp hpending).1
        fits := fun pending hpending => h.fits pending (Option.filter_eq_some_iff.mp hpending).1 }
  · exact ⟨fun pending hpending => (Option.filter_eq_some_iff.mp hpending).1⟩

theorem Tracks.processEvents {whole : SurfaceFold} (haccepted : runFold (logged log) = .ok whole)
    (rest : List EventObject) {manager : SurfaceManager} (h : manager.Tracks log nextRef)
    (hrest : rest = log.drop manager.nextSeq) :
    ∃ manager', SurfaceManager.processEvents log rest manager = (.ok (), manager') ∧
      manager'.Tracks log nextRef ∧ manager'.nextSeq = log.length ∧
      manager.Advances manager' := by
  induction rest generalizing manager with
  | nil =>
    have hle : log.length ≤ manager.nextSeq := List.drop_eq_nil_iff.mp hrest.symm
    exact ⟨manager, rfl, h, Nat.le_antisymm h.upTo hle, .refl⟩
  | cons object rest ih =>
    have hobject : log[manager.nextSeq]? = some object := by
      rw [← Nat.add_zero manager.nextSeq, ← List.getElem?_drop, ← hrest]
      rfl
    obtain ⟨manager', hstep, htracks, hseq, hadvances⟩ := h.processEvent hobject haccepted
    have hdrop : rest = log.drop manager'.nextSeq := by
      rw [hseq, ← List.drop_drop, ← hrest]
      rfl
    obtain ⟨manager'', hrun, htracks', hend, hadvances'⟩ := ih htracks hdrop
    refine ⟨manager'', ?_, htracks', hend, hadvances.trans hadvances'⟩
    rw [SurfaceManager.processEvents, hstep]
    exact hrun

theorem Tracks.processDelta (h : manager.Tracks log nextRef) {fold : SurfaceFold}
    (haccepted : runFold (logged log) = .ok fold) :
    ∃ manager', manager.processDelta log = (.ok (), manager') ∧ manager'.Tracks log nextRef ∧
      manager'.state = fold.state ∧ manager.Advances manager' := by
  obtain ⟨manager', hrun, htracks, hend, hadvances⟩ :=
    Tracks.processEvents haccepted _ h rfl
  refine ⟨manager', ?_, htracks, ?_, hadvances⟩
  · simpa [SurfaceManager.processDelta, h.base] using hrun
  · obtain ⟨fold', hfold', hstate⟩ := htracks.state
    rw [hend, List.take_length, haccepted] at hfold'
    rw [← hstate, Except.ok.inj hfold']

theorem Tracks.mono (h : manager.Tracks log nextRef) {nextRef' : Nat} (hle : nextRef ≤ nextRef') :
    manager.Tracks log nextRef' :=
  { h with fresh := fun pending hpending => Nat.lt_of_lt_of_le (h.fresh pending hpending) hle }

theorem Tracks.nodes (h : manager.Tracks log nextRef) {fold : SurfaceFold}
    (haccepted : runFold (logged log) = .ok fold) :
    ∃ manager', manager.nodes log = (.ok fold.state.nodes, manager') ∧
      manager'.Tracks log nextRef ∧ manager.Advances manager' := by
  obtain ⟨manager', hrun, htracks, hstate, hadvances⟩ := h.processDelta haccepted
  refine ⟨manager', ?_, htracks, hadvances⟩
  simp [SurfaceManager.nodes, hrun, hstate, Except.map]

theorem Tracks.replaceGeneration (h : manager.Tracks log nextRef) {fold : SurfaceFold}
    (haccepted : runFold (logged log) = .ok fold) :
    ∃ manager', manager.replaceGeneration log = (.ok fold.state.replaceGeneration, manager') ∧
      manager'.Tracks log nextRef ∧ manager.Advances manager' := by
  obtain ⟨manager', hrun, htracks, hstate, hadvances⟩ := h.processDelta haccepted
  refine ⟨manager', ?_, htracks, hadvances⟩
  simp [SurfaceManager.replaceGeneration, hrun, hstate, Except.map]

/-- Should the object enter the log next, the planned transition is the right one for it. -/
def Planned (manager : SurfaceManager) (log : List EventObject) (object : EventObject) : Prop :=
  ∀ pending, manager.pendingPlan = some pending → pending.expectedSeq = log.length →
    PlanFits log pending object

theorem Advances.planned {manager' : SurfaceManager} (h : manager.Advances manager')
    {object : EventObject} (hplanned : manager.Planned log object) :
    manager'.Planned log object :=
  fun pending hpending => hplanned pending (h.pending pending hpending)

/-- The candidate is judged as the whole log would judge it, and a plan is kept only for it. -/
theorem Tracks.validateNext (h : manager.Tracks log nextRef) {fold : SurfaceFold}
    (haccepted : runFold (logged log) = .ok fold) (object : EventObject)
    (href : object.ref = nextRef) :
    ∃ manager', manager.validateNext log object =
        (EventLog.accept (logged log) object.event, manager') ∧
      manager'.Tracks log (nextRef + 1) ∧
      (EventLog.accept (logged log) object.event = .ok () → manager'.Planned log object) := by
  obtain ⟨manager', hrun, htracks, hstate, _⟩ := h.processDelta haccepted
  have hlength : (logged log).length = log.length := by simp [logged]
  unfold SurfaceManager.validateNext EventLog.accept
  simp only [hrun, haccepted, ok_bind, htracks.base, Nat.zero_add, hstate, hlength, map_event]
  cases hplan : planSurfaceEvent fold.state object.event log.length (logged log) 0 with
  | error message =>
    exact ⟨manager', rfl, htracks.mono (Nat.le_succ _), by simp⟩
  | ok plan =>
    refine ⟨_, rfl, ?_, fun _ => ?_⟩
    · exact
        { base := rfl
          upTo := htracks.upTo
          state := by simpa only [hstate] using htracks.state
          fresh := by
            intro pending hpending
            obtain rfl := (Option.some.inj hpending).symm
            simp [href]
          fits := by
            intro pending hpending found hfound
            obtain rfl := (Option.some.inj hpending).symm
            simp at hfound }
    · intro pending hpending _ _ fold' hfold'
      obtain rfl := (Option.some.inj hpending).symm
      simp only [List.take_length] at hfold' ⊢
      obtain rfl := Except.ok.inj (haccepted.symm.trans hfold')
      exact hplan

theorem PlanFits.append {pending : PendingPlan} {object : EventObject} (back : List EventObject)
    (hle : pending.expectedSeq ≤ log.length) (h : PlanFits log pending object) :
    PlanFits (log ++ back) pending object := by
  unfold PlanFits
  rwa [List.take_append_of_le_length hle]

theorem Tracks.push (h : manager.Tracks log nextRef) {object : EventObject}
    (hplanned : manager.Planned log object) : manager.Tracks (log ++ [object]) nextRef where
  base := h.base
  upTo := by
    have := h.upTo
    simp
    omega
  state := by
    rw [List.take_append_of_le_length h.upTo]
    exact h.state
  fresh := h.fresh
  fits := by
    intro pending hpending found hfound
    rcases Nat.lt_trichotomy pending.expectedSeq log.length with hlt | heq | hgt
    · rw [List.getElem?_append_left hlt] at hfound
      exact (h.fits pending hpending found hfound).append _ (Nat.le_of_lt hlt)
    · rw [heq] at hfound
      obtain rfl : object = found := by simpa using hfound
      exact (hplanned pending hpending heq).append _ (Nat.le_of_eq heq)
    · rw [List.getElem?_eq_none (by simp; omega)] at hfound
      simp at hfound

end SurfaceManager

section Folds

theorem foldRequestHeader_append (front back : List SessionEvent) (state : Option EpochHeader) :
    foldRequestHeader (front ++ back) state =
      foldRequestHeader back (foldRequestHeader front state) := by
  simp [foldRequestHeader, List.foldl_append]

theorem foldRequestContext_append (front back : List SessionEvent)
    (state : Option RequestContext) :
    foldRequestContext (front ++ back) state =
      foldRequestContext back (foldRequestContext front state) := by
  simp [foldRequestContext, List.foldl_append]

theorem foldSurface_of_runFold {log : List SessionEvent} {fold : SurfaceFold}
    (h : runFold log = .ok fold) : foldSurface log =
      .ok { nodes := fold.state.nodes, replacements := fold.replacements } := by
  simp [foldSurface, h]

theorem deriveAt_append {front back : List SessionEvent} {seq : Nat} (h : seq < front.length) :
    Session.deriveAt (front ++ back) seq = Session.deriveAt front seq := by
  simp [Session.deriveAt, List.getElem?_append_left h]

end Folds

section Appends

theorem snapshotCandidate_ok {data : EventData} {opts : Option AppendOpts} {time : Int} {seq : Nat}
    {event : SessionEvent}
    (h : snapshotCandidate { data := .lossless data, opts, time } seq = .ok event) :
    event.data = data ∧
      snapshotField (surfaceField opts AppendOpts.surfaceOp) = some event.surfaceOp := by
  obtain ⟨_, _, h⟩ := bind_eq_ok.mp h
  split at h
  · rename_i hsurface _
    obtain rfl := Except.ok.inj h
    exact ⟨rfl, hsurface⟩
  · simp at h

theorem snapshotCandidate_envelope {candidate : Candidate} {seq : Nat} {event : SessionEvent}
    (h : snapshotCandidate candidate seq = .ok event) :
    event.seq = seq ∧ event.type = candidate.data.type := by
  obtain ⟨data, opts, time⟩ := candidate
  cases data with
  | exotic type => simp [snapshotCandidate] at h
  | lossless data =>
    obtain ⟨_, _, h⟩ := bind_eq_ok.mp h
    split at h
    · obtain rfl := Except.ok.inj h
      exact ⟨rfl, rfl⟩
    · simp at h

theorem EventLog.append_failed {log : EventLog} {candidate : Candidate}
    {dispatch : Session.Dispatch} {message : String}
    (h : (log.append candidate dispatch).1.result = .error message) :
    (log.append candidate dispatch).2 = log := by
  unfold EventLog.append at h ⊢
  split
  · rfl
  · cases hveto : dispatch.veto with
    | some message => rfl
    | none => simp_all

theorem EventLog.append_ok {log : EventLog} {candidate : Candidate}
    {dispatch : Session.Dispatch} {event : SessionEvent}
    (h : (log.append candidate dispatch).1.result = .ok event) :
    (log.append candidate dispatch).2 = log ++ [event] ∧
      snapshotCandidate candidate log.length = .ok event ∧
      ∃ fold, runFold (log ++ [event]) = .ok fold := by
  unfold EventLog.append at h ⊢
  split at h
  · simp at h
  · rename_i logged hlogged
    obtain ⟨snapshot, hsnapshot, hlogged⟩ := bind_eq_ok.mp hlogged
    obtain ⟨_, haccept, hlogged⟩ := bind_eq_ok.mp hlogged
    obtain rfl := Except.ok.inj hlogged
    cases hveto : dispatch.veto with
    | some message => simp [hveto] at h
    | none =>
      obtain rfl : snapshot = event := by simpa [hveto] using h
      obtain ⟨fold, hfold, haccept⟩ := bind_eq_ok.mp haccept
      obtain ⟨plan, hplan, _⟩ := bind_eq_ok.mp haccept
      refine ⟨by simp, hsnapshot, ?_⟩
      rw [runFold_snoc, hfold, ok_bind, applySurfaceEvent, hplan]
      exact ⟨_, rfl⟩

theorem EventLog.append_unvetoed {log : EventLog} {candidate : Candidate}
    {dispatch : Session.Dispatch} {event : SessionEvent}
    (h : (log.append candidate dispatch).1.result = .ok event) : dispatch.veto = none := by
  unfold EventLog.append at h
  split at h
  · simp at h
  · cases hveto : dispatch.veto with
    | none => rfl
    | some message => simp [hveto] at h

end Appends

namespace Session

/-- The session stands for a log: everything it caches is what that log, or a prefix of it,
determines. -/
structure Represents (session : Session) (log : EventLog) : Prop where
  logged : session.logged = log
  accepted : ∃ fold, runFold log = .ok fold
  manager : session.surfaceManager.Tracks session.log session.nextRef
  snapshot : ∀ snapshot, session.eventsSnapshot = some snapshot → snapshot = log
  headerSeq : session.headerFoldSeq ≤ log.length
  header : session.headerFold = foldRequestHeader (log.take session.headerFoldSeq) none
  contextSeq : session.contextFoldSeq ≤ log.length
  context : session.contextFold = foldRequestContext (log.take session.contextFoldSeq) none
  derived : ∃ front back fold, front ++ back = log ∧ runFold front = .ok fold ∧
    session.derivedNodes = fold.state.nodes.length ∧
    session.derivedGeneration = fold.state.replaceGeneration ∧
    session.derived = fold.state.nodes.filterMap (deriveAt log)

structure Keeps (session session' : Session) : Prop where
  log : session'.log = session.log
  nextRef : session'.nextRef = session.nextRef
  manager : session.surfaceManager.Advances session'.surfaceManager

variable {session : Session} {log : EventLog}

theorem Keeps.refl : session.Keeps session := ⟨rfl, rfl, .refl⟩

theorem Keeps.trans {session' session'' : Session} (h : session.Keeps session')
    (h' : session'.Keeps session'') : session.Keeps session'' :=
  ⟨h'.log.trans h.log, h'.nextRef.trans h.nextRef, h.manager.trans h'.manager⟩

theorem Represents.length (h : session.Represents log) : session.log.length = log.length := by
  rw [← h.logged, Session.logged, List.length_map]

theorem Represents.managerLogged (h : session.Represents log) :
    SurfaceManager.logged session.log = log := h.logged

theorem Represents.withManager (h : session.Represents log) {surfaceManager : SurfaceManager}
    (htracks : surfaceManager.Tracks session.log session.nextRef) :
    ({ session with surfaceManager } : Session).Represents log :=
  { h with manager := htracks }

theorem Represents.surfaceNodes (h : session.Represents log) {fold : SurfaceFold}
    (hfold : runFold log = .ok fold) :
    ∃ surfaceManager, session.surfaceNodes =
        (.ok fold.state.nodes, { session with surfaceManager }) ∧
      surfaceManager.Tracks session.log session.nextRef ∧
      session.surfaceManager.Advances surfaceManager := by
  rw [← h.managerLogged] at hfold
  obtain ⟨surfaceManager, hrun, htracks, hadvances⟩ := h.manager.nodes hfold
  exact ⟨surfaceManager, by simp [Session.surfaceNodes, hrun], htracks, hadvances⟩

theorem Represents.surfaceGeneration (h : session.Represents log) {fold : SurfaceFold}
    (hfold : runFold log = .ok fold) :
    ∃ surfaceManager, session.surfaceGeneration =
        (.ok fold.state.replaceGeneration, { session with surfaceManager }) ∧
      surfaceManager.Tracks session.log session.nextRef ∧
      session.surfaceManager.Advances surfaceManager := by
  rw [← h.managerLogged] at hfold
  obtain ⟨surfaceManager, hrun, htracks, hadvances⟩ := h.manager.replaceGeneration hfold
  exact ⟨surfaceManager, by simp [Session.surfaceGeneration, hrun], htracks, hadvances⟩

theorem Represents.extendDerived (h : session.Represents log) {fold : SurfaceFold}
    (hfold : runFold log = .ok fold) :
    let session' := (session.syncGeneration fold.state.replaceGeneration).extendDerived
      fold.state.nodes
    session'.derived = fold.state.nodes.filterMap (deriveAt log) ∧ session'.Represents log ∧
      session.Keeps session' := by
  obtain ⟨front, back, previous, rfl, hprevious, hnodes, hgeneration, hderived⟩ := h.derived
  have hlogged := h.logged
  intro session'
  have hkeeps : session.Keeps session' := by
    refine ⟨?_, ?_, ?_⟩ <;>
      simp only [session', Session.extendDerived, Session.syncGeneration] <;> split <;>
      first | rfl | exact .refl
  have hmessages : session'.derived = fold.state.nodes.filterMap (deriveAt (front ++ back)) := by
    simp only [session', Session.extendDerived, Session.syncGeneration]
    by_cases heq : fold.state.replaceGeneration = session.derivedGeneration
    · rw [if_neg (not_not_intro heq), hlogged, hderived, hnodes]
      have hgrow := (runFold_nodes_grow hprevious hfold).2 (hgeneration.symm.trans heq.symm)
      obtain ⟨added, hadded⟩ := hgrow
      rw [← hadded, List.drop_left, List.filterMap_append]
    · rw [if_pos heq]
      simp only [Session.logged] at hlogged ⊢
      rw [hlogged, List.drop_zero, List.nil_append]
  refine ⟨hmessages, ?_, hkeeps⟩
  have hgeneration' : session'.derivedGeneration = fold.state.replaceGeneration := by
    simp only [session', Session.extendDerived, Session.syncGeneration]
    split
    · rfl
    · rename_i heq
      exact (not_not.mp heq).symm
  have hsame : session' = { session with
      derived := session'.derived, derivedNodes := session'.derivedNodes
      derivedGeneration := session'.derivedGeneration } := by
    simp only [session', Session.extendDerived, Session.syncGeneration]
    split <;> rfl
  rw [hsame]
  exact
    { h with
      derived := ⟨front ++ back, [], fold, List.append_nil _, hfold, rfl, hgeneration', hmessages⟩ }

theorem Represents.events (h : session.Represents log) :
    session.events.1 = log ∧ session.events.2.Represents log ∧ session.Keeps session.events.2 := by
  unfold Session.events
  cases hsnapshot : session.eventsSnapshot with
  | some snapshot => exact ⟨h.snapshot snapshot hsnapshot, h, .refl⟩
  | none =>
    refine ⟨h.logged, { h with snapshot := ?_ }, rfl, rfl, .refl⟩
    intro snapshot hsome
    rw [← Option.some.inj hsome]
    exact h.logged

theorem Represents.requestHeader (h : session.Represents log) :
    session.requestHeader.1 = foldRequestHeader log none ∧
      session.requestHeader.2.Represents log ∧ session.Keeps session.requestHeader.2 := by
  have hfold : session.requestHeader.1 = foldRequestHeader log none := by
    simp only [Session.requestHeader]
    rw [h.logged, h.header, ← foldRequestHeader_append, List.take_append_drop]
  refine ⟨hfold, ?_, rfl, rfl, .refl⟩
  exact
    { h with
      headerSeq := Nat.le_of_eq h.length
      header := by
        refine hfold.trans ?_
        simp [Session.requestHeader, h.length] }

theorem Represents.requestContext (h : session.Represents log) :
    session.requestContext.1 = foldRequestContext log none ∧
      session.requestContext.2.Represents log ∧ session.Keeps session.requestContext.2 := by
  have hfold : session.requestContext.1 = foldRequestContext log none := by
    simp only [Session.requestContext]
    rw [h.logged, h.context, ← foldRequestContext_append, List.take_append_drop]
  refine ⟨hfold, ?_, rfl, rfl, .refl⟩
  exact
    { h with
      contextSeq := Nat.le_of_eq h.length
      context := by
        refine hfold.trans ?_
        simp [Session.requestContext, h.length] }

theorem Represents.deriveMessages (h : session.Represents log) {fold : SurfaceFold}
    (hfold : runFold log = .ok fold) :
    session.deriveMessages.1 = .ok (fold.state.nodes.filterMap (deriveAt log)) ∧
      session.deriveMessages.2.Represents log ∧ session.Keeps session.deriveMessages.2 := by
  obtain ⟨manager₁, hnodes, htracks₁, hadvances₁⟩ := h.surfaceNodes hfold
  have h₁ := h.withManager htracks₁
  obtain ⟨manager₂, hgeneration, htracks₂, hadvances₂⟩ := h₁.surfaceGeneration hfold
  have h₂ := h₁.withManager htracks₂
  obtain ⟨hmessages, hrepresents, hkeeps⟩ := h₂.extendDerived hfold
  have hkeeps₁ : session.Keeps { session with surfaceManager := manager₂ } :=
    ⟨rfl, rfl, hadvances₁.trans hadvances₂⟩
  simp only [Session.deriveMessages, hnodes, hgeneration]
  exact ⟨congrArg _ hmessages, hrepresents, hkeeps₁.trans hkeeps⟩

theorem Represents.read (h : session.Represents log) (read : Read) :
    (session.read read).1 = log.read read ∧ (session.read read).2.Represents log ∧
      session.Keeps (session.read read).2 := by
  obtain ⟨fold, hfold⟩ := h.accepted
  have hsurface := foldSurface_of_runFold hfold
  cases read with
  | nodes =>
    obtain ⟨manager, hnodes, htracks, hadvances⟩ := h.surfaceNodes hfold
    simp only [Session.read, EventLog.read, hnodes, hsurface]
    exact ⟨rfl, h.withManager htracks, rfl, rfl, hadvances⟩
  | replaceGeneration =>
    obtain ⟨manager, hgeneration, htracks, hadvances⟩ := h.surfaceGeneration hfold
    simp only [Session.read, EventLog.read, hgeneration, hsurface,
      (runFold_history hfold).generation]
    exact ⟨rfl, h.withManager htracks, rfl, rfl, hadvances⟩
  | events =>
    obtain ⟨hevents, hrepresents, hkeeps⟩ := h.events
    exact ⟨congrArg _ hevents, hrepresents, hkeeps⟩
  | seq => exact ⟨congrArg _ h.length, h, .refl⟩
  | requestHeader =>
    obtain ⟨hheader, hrepresents, hkeeps⟩ := h.requestHeader
    exact ⟨congrArg _ hheader, hrepresents, hkeeps⟩
  | requestContext =>
    obtain ⟨hcontext, hrepresents, hkeeps⟩ := h.requestContext
    exact ⟨congrArg _ hcontext, hrepresents, hkeeps⟩
  | deriveMessages =>
    obtain ⟨hmessages, hrepresents, hkeeps⟩ := h.deriveMessages hfold
    simp only [Session.read, EventLog.read, Prod.map, hmessages, hsurface]
    exact ⟨rfl, hrepresents, hkeeps⟩

theorem Represents.nested (h : session.Represents log) (action : Nested) :
    (session.nested action).1 = log.nested action ∧ (session.nested action).2.Represents log ∧
      session.Keeps (session.nested action).2 := by
  cases action with
  | read read =>
    obtain ⟨hreply, hrepresents, hkeeps⟩ := h.read read
    exact ⟨congrArg _ hreply, hrepresents, hkeeps⟩
  | append candidate =>
    refine ⟨?_, h, .refl⟩
    simp only [Session.nested, EventLog.nested, h.length]

theorem Represents.runNested (h : session.Represents log) (actions : List Nested) :
    (session.runNested actions).1 = actions.map log.nested ∧
      (session.runNested actions).2.Represents log ∧
      session.Keeps (session.runNested actions).2 := by
  induction actions generalizing session with
  | nil => exact ⟨rfl, h, .refl⟩
  | cons action actions ih =>
    obtain ⟨hreply, hrepresents, hkeeps⟩ := h.nested action
    obtain ⟨hreplies, hrepresents', hkeeps'⟩ := ih hrepresents
    refine ⟨?_, hrepresents', hkeeps.trans hkeeps'⟩
    simp only [Session.runNested, List.map_cons, hreply, hreplies]

theorem Represents.push (h : session.Represents log) (object : EventObject)
    (hagree : log.accept object.event = .ok ())
    (hplanned : session.surfaceManager.Planned session.log object) :
    (session.push object).Represents (log ++ [object.event]) := by
  obtain ⟨front, back, previous, hlog, hprevious, hnodes, hgeneration, hderived⟩ := h.derived
  refine
    { logged := ?logged, accepted := ?accepted, manager := h.manager.push hplanned
      snapshot := by simp [Session.push]
      headerSeq := Nat.le_trans h.headerSeq (by simp)
      header := ?header
      contextSeq := Nat.le_trans h.contextSeq (by simp)
      context := ?context, derived := ?derived }
  case logged => simpa [Session.push, Session.logged] using h.logged
  case accepted =>
    obtain ⟨fold, hfold⟩ := h.accepted
    simp only [EventLog.accept, hfold, ok_bind] at hagree
    obtain ⟨plan, hplan, _⟩ := bind_eq_ok.mp hagree
    rw [runFold_snoc, hfold]
    simp only [ok_bind, applySurfaceEvent, hplan]
    exact ⟨_, rfl⟩
  case header =>
    rw [Session.push, List.take_append_of_le_length h.headerSeq]
    exact h.header
  case context =>
    rw [Session.push, List.take_append_of_le_length h.contextSeq]
    exact h.context
  case derived =>
    refine ⟨front, back ++ [object.event], previous, ?_, hprevious, hnodes, hgeneration, ?_⟩
    · rw [← List.append_assoc, hlog]
    · refine hderived.trans (List.filterMap_congr ?_)
      intro seq hseq
      have hlt := runFold_nodes_lt hprevious seq hseq
      rw [deriveAt_append]
      rw [← hlog, List.length_append]
      omega

theorem Represents.append (h : session.Represents log) (candidate : Candidate)
    (dispatch : Dispatch) :
    (session.append candidate dispatch).1 = (log.append candidate dispatch).1 ∧
      (session.append candidate dispatch).2.Represents (log.append candidate dispatch).2 := by
  unfold Session.append EventLog.append
  rw [h.length]
  cases hcandidate : snapshotCandidate candidate log.length with
  | error message => exact ⟨rfl, h⟩
  | ok event =>
    obtain ⟨fold, hfold⟩ := h.accepted
    rw [← h.managerLogged] at hfold
    obtain ⟨manager, hvalidate, htracks, hplanned⟩ :=
      h.manager.validateNext hfold { ref := session.nextRef, event } rfl
    rw [h.managerLogged] at hvalidate hplanned
    have h' : ({ session with
        surfaceManager := manager, nextRef := session.nextRef + 1 } : Session).Represents log :=
      { h with manager := htracks }
    simp only [ok_bind, hvalidate]
    cases hagree : log.accept event with
    | error message => exact ⟨rfl, h'⟩
    | ok _ =>
      obtain ⟨hchecks, hrepresents, hkeeps⟩ := h'.runNested dispatch.checks
      simp only [ok_bind, pure_eq_ok]
      cases dispatch.veto with
      | some message => exact ⟨by simp only [hchecks], hrepresents⟩
      | none =>
        have hpush := hrepresents.push { ref := session.nextRef, event } hagree
          (by rw [hkeeps.log]; exact hkeeps.manager.planned (hplanned hagree))
        obtain ⟨hobservers, hrepresents', _⟩ := hpush.runNested dispatch.observers
        exact ⟨by simp only [hchecks, hobservers], hrepresents'⟩

theorem Represents.step (h : session.Represents log) (op : Op) :
    (session.step op).2 = (log.step op).2 ∧
      (session.step op).1.Represents (log.step op).1 := by
  cases op with
  | read read =>
    obtain ⟨hreply, hrepresents, _⟩ := h.read read
    exact ⟨congrArg _ hreply, hrepresents⟩
  | append candidate dispatch =>
    obtain ⟨hreply, hrepresents⟩ := h.append candidate dispatch
    exact ⟨congrArg _ hreply, hrepresents⟩

theorem Represents.transcript (h : session.Represents log) (ops : List Op) :
    (transcript Session.step session ops).2 = (transcript EventLog.step log ops).2 ∧
      (transcript Session.step session ops).1.Represents (transcript EventLog.step log ops).1 :=
  transcript_simulation Represents (fun _ _ op hrel => hrel.step op) ops h

theorem Represents.empty : Session.empty.Represents [] where
  logged := rfl
  accepted := ⟨.empty, rfl⟩
  manager :=
    { base := rfl
      upTo := Nat.le_refl 0
      state := ⟨.empty, rfl, rfl⟩
      fresh := by simp [Session.empty, SurfaceManager.create]
      fits := by simp [Session.empty, SurfaceManager.create] }
  snapshot := by simp [Session.empty]
  headerSeq := Nat.le_refl 0
  header := rfl
  contextSeq := Nat.le_refl 0
  context := rfl
  derived := ⟨[], [], .empty, rfl, rfl, rfl, rfl, rfl⟩

theorem snapshotJsonValue_some {α : Type} {source : Supplied α} {value : α}
    (h : snapshotJsonValue source = some value) : source = .lossless value := by
  cases source with
  | lossless value => rw [Option.some.inj h]
  | exotic => simp [snapshotJsonValue] at h

theorem Represents.seedEvent (h : session.Represents log) {source : Supplied SessionEvent}
    {session' : Session} (hseed : session.seedEvent source = .ok session') :
    ∃ event, source = .lossless event ∧ session'.Represents (log ++ [event]) := by
  unfold Session.seedEvent at hseed
  split at hseed
  · simp at hseed
  · rename_i snapshot hsource
    obtain ⟨_, _, hseed⟩ := bind_eq_ok.mp hseed
    obtain ⟨_, _, hseed⟩ := bind_eq_ok.mp hseed
    obtain ⟨_, _, hseed⟩ := bind_eq_ok.mp hseed
    obtain ⟨fold, hfold⟩ := h.accepted
    rw [← h.managerLogged] at hfold
    obtain ⟨manager, hvalidate, htracks, hplanned⟩ :=
      h.manager.validateNext hfold { ref := session.nextRef, event := snapshot } rfl
    rw [h.managerLogged] at hvalidate hplanned
    simp only [hvalidate] at hseed
    split at hseed
    · simp at hseed
    · rename_i hresult
      obtain ⟨hagree, rfl⟩ := Prod.mk.inj hresult
      obtain rfl := Except.ok.inj hseed
      have h' : ({ session with
          surfaceManager := manager, nextRef := session.nextRef + 1 } : Session).Represents log :=
        { h with manager := htracks }
      exact ⟨snapshot, snapshotJsonValue_some hsource, h'.push _ hagree (hplanned hagree)⟩

/-- A session built from a seed logs all of it, and the marker of its end unless the seed has
one there already. -/
theorem create_seeded {seed : Option (List (Supplied SessionEvent))} {now : Int}
    {session : Session} (h : Session.create seed now = .ok session) :
    ∃ events log, seed.getD [] = events.map .lossless ∧ session.Represents log ∧
      (log = events ∧
          (seed = none ∨ ∃ last, events.getLast? = some last ∧ last.type = "session/end-seed") ∨
        ∃ event, log = events ++ [event] ∧ event.data = .endSeed) := by
  obtain ⟨seeded, hseeded, h⟩ := bind_eq_ok.mp h
  have hlog : ∃ events, seed.getD [] = events.map .lossless ∧ seeded.Represents events := by
    apply foldOk_invariant (fun sources session =>
      ∃ events, sources = events.map .lossless ∧ session.Represents events) _ hseeded
      ⟨[], rfl, .empty⟩
    rintro _ session source session' ⟨events, rfl, hsession⟩ hstep
    obtain ⟨event, rfl, hevent⟩ := hsession.seedEvent hstep
    exact ⟨events ++ [event], by simp, hevent⟩
  obtain ⟨events, hseed, hlog⟩ := hlog
  have hlive : ({ seeded with firstLiveSeq := seeded.log.length } : Session).Represents events :=
    { hlog with }
  simp only at h
  split at h
  · rename_i hend
    obtain rfl := Except.ok.inj h
    refine ⟨events, events, hseed, hlive, .inl ⟨rfl, ?_⟩⟩
    rw [hlive.logged, Bool.or_eq_true, Option.isNone_iff_eq_none, Option.any_eq_true] at hend
    exact hend.imp_right fun ⟨last, hlast, htype⟩ => ⟨last, hlast, beq_iff_eq.mp htype⟩
  · obtain ⟨event, hevent, rfl⟩ := map_eq_ok.mp h
    obtain ⟨hreply, hrepresents⟩ := hlive.append
      { data := .lossless .endSeed, opts := none, time := now } .detached
    rw [hreply] at hevent
    obtain ⟨hgrown, hsnapshot, _⟩ := EventLog.append_ok hevent
    rw [hgrown] at hrepresents
    exact ⟨events, events ++ [event], hseed, hrepresents,
      .inr ⟨event, rfl, (snapshotCandidate_ok hsnapshot).1⟩⟩

theorem create_represents {seed : Option (List (Supplied SessionEvent))} {now : Int}
    {session : Session} (h : Session.create seed now = .ok session) :
    ∃ log, session.Represents log := by
  obtain ⟨_, log, _, hlog, _⟩ := create_seeded h
  exact ⟨log, hlog⟩

end Session

namespace Session

/-- After any run of appends and reads, with candidates refused, vetoed or taken in between,
the manager shows the fold of the log, and a failed append is as if it had not been made. -/
theorem surface_follows_log {seed : Option (List (Supplied SessionEvent))} {now : Int}
    {session : Session} (h : Session.create seed now = .ok session) (ops : List Op) :
    let reached := (transcript Session.step session ops).1
    (∃ result, foldSurface reached.logged = .ok result ∧
      (reached.surfaceManager.nodes reached.log).1 = .ok result.nodes ∧
      (reached.surfaceManager.replaceGeneration reached.log).1 =
        .ok result.replacements.length) ∧
    reached.logged.map SessionEvent.seq = List.range reached.logged.length ∧
    ∀ candidate dispatch message,
      (reached.append candidate dispatch).1.result = .error message →
        let failed := (reached.append candidate dispatch).2
        failed.logged = reached.logged ∧
          ∀ later, (transcript Session.step failed later).2 =
            (transcript Session.step reached later).2 := by
  obtain ⟨log, hlog⟩ := create_represents h
  intro reached
  have hreached : reached.Represents (transcript EventLog.step log ops).1 :=
    (hlog.transcript ops).2
  generalize (transcript EventLog.step log ops).1 = log at hreached
  obtain ⟨fold, hfold⟩ := hreached.accepted
  refine ⟨⟨_, by rw [hreached.logged]; exact foldSurface_of_runFold hfold, ?_, ?_⟩, ?_, ?_⟩
  · obtain ⟨_, hnodes, _⟩ := hreached.manager.nodes (by rwa [hreached.managerLogged])
    rw [hnodes]
  · obtain ⟨_, hgeneration, _⟩ :=
      hreached.manager.replaceGeneration (by rwa [hreached.managerLogged])
    rw [hgeneration, (runFold_history hfold).generation]
  · rw [hreached.logged]
    exact runFold_seq hfold
  · intro candidate dispatch message hfailed failed
    obtain ⟨hreply, hrepresents⟩ := hreached.append candidate dispatch
    rw [hreply] at hfailed
    rw [EventLog.append_failed hfailed] at hrepresents
    refine ⟨hrepresents.logged.trans hreached.logged.symm, fun later => ?_⟩
    rw [(hrepresents.transcript later).1, (hreached.transcript later).1]

def messageCandidate (surfaceOp : Json) (sources : Option Json) : Candidate where
  data := .lossless (.userMessage { id := "message", content := [], source := .user })
  opts := some
    { surfaceOp := some (some (.lossless surfaceOp))
      sourceEventSeqs := sources.map fun sources => some (.lossless sources), ignorable := false }
  time := 0

theorem vetoed_checkpoint_forgotten :
    let reached := (transcript Session.step Session.empty
      [.append (messageCandidate (.str "append") none) .detached]).1
    let checkpoint := messageCandidate
      (.obj [("op", .str "replace"), ("start", .nat 0), ("end", .nat 0)]) (some (.arr [.nat 0]))
    let later := [.append (messageCandidate (.str "append") none) .detached, .read .nodes]
    (transcript Session.step
        (reached.append checkpoint { checks := [], veto := some "vetoed", observers := [] }).2
        later).2 =
      (transcript Session.step reached later).2 :=
  ((@surface_follows_log none 0 _ rfl _).2.2 _ _ "vetoed" (by decide)).2 _

end Session

end Harness
