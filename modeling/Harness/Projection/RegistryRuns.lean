import Harness.Projection.RegistrySound

namespace Harness.Projection

open Harness.Foundation

variable {State Data View : Type}

def isReadable (session : ProjectedSession State Data View) (key : String) : Bool :=
  match session.registrations.get? key with
  | none => true
  | some registration => registration.cell.isSome || decide (key ∉ session.awaiting)

/-- The next unit of the drive throws neither from its transition nor from its view. -/
def drivable (session : ProjectedSession State Data View) : Bool :=
  match session.dispatch with
  | .driving (key :: _) =>
    match session.registrations.get? key, session.log.getLast? with
    | some registration, some data =>
      isOk (session.driveUnit registration ⟨session.log.length - 1, data⟩)
    | _, _ => true
  | _ => true

/-- No unit is first read between an event's commit and its own drive, no snapshot is taken while
a visible unit waits, no unit throws, and no listener throws while units wait. -/
def Undisturbed (session : ProjectedSession State Data View) :
    ProjectionOp State Data View → Prop
  | .stateOf key => isReadable session key = true
  | .snapshot => ∀ key ∈ session.wireKeys, key ∉ session.awaiting
  | .checkpoint => ∀ key ∈ session.registrations.keys, isReadable session key = true
  | .driveNext => drivable session = true
  | .listenerThrows => session.awaiting = []
  | _ => True

instance decidableUndisturbed (session : ProjectedSession State Data View)
    (op : ProjectionOp State Data View) : Decidable (Undisturbed session op) := by
  cases op <;> unfold Undisturbed <;> infer_instance

theorem readable_of {session : ProjectedSession State Data View} {key : String}
    (h : isReadable session key = true) : Readable session key := by
  intro registration hget hnone
  rw [isReadable, hget] at h
  simpa [hnone] using h

section Drive

variable {session after : ProjectedSession State Data View} {key : String} {front : List Data}
  {data : Data} {registration : Registration State Data View} {cell : UnitCell State}
  {value : Option View}

theorem driveUnit_eq_ok {event : CommittedEvent Data}
    (h : session.driveUnit registration event = .ok (cell, value)) :
    ∃ before next, session.driveCell registration event.seq = .ok before ∧
      registration.definition.apply before.state event = .ok next ∧
      cell = { state := next.getD before.state, observedSeq := event.seq } ∧
      (∀ made, value = some made → ∃ state view, next = some state ∧
        registration.definition.view = some view ∧ view state = .ok made) ∧
      (value = none → next.isSome = true → registration.definition.view.isSome = true →
        session.listeners.entries = []) := by
  obtain ⟨before, hbefore, h⟩ := bind_eq_ok.mp h
  obtain ⟨next, hnext, h⟩ := bind_eq_ok.mp h
  refine ⟨before, next, hbefore, hnext, ?_⟩
  dsimp only at h
  split at h
  · rename_i state view hview
    split at h
    · rename_i hempty
      cases h
      exact ⟨rfl, nofun, fun _ _ _ => List.isEmpty_iff.mp hempty⟩
    · obtain ⟨made, hmade, h⟩ := bind_eq_ok.mp h
      cases h
      exact ⟨rfl, fun _ hsome => ⟨state, view, rfl, hview, Option.some.inj hsome ▸ hmade⟩, nofun⟩
  · rename_i hnever
    cases h
    refine ⟨rfl, nofun, fun _ hsome hview => ?_⟩
    obtain ⟨state, rfl⟩ := Option.isSome_iff_exists.mp hsome
    obtain ⟨view, hview⟩ := Option.isSome_iff_exists.mp hview
    exact absurd hview (hnever state view rfl)

theorem driveCell_folds (h : Tracks session) (hlog : session.log = front ++ [data])
    (hawaits : key ∈ session.awaiting) (hget : session.registrations.get? key = some registration)
    (hcell : session.driveCell registration front.length = .ok cell) :
    Folds registration.definition session.seedLength front cell := by
  unfold ProjectedSession.driveCell at hcell
  split at hcell
  · rename_i found hfound
    cases hcell
    have hfolds := h.cells key registration _ hget hfound
    rwa [ProjectedSession.foldedLog, if_pos hawaits, hlog, List.dropLast_concat] at hfolds
  · rwa [take_committed, hlog, List.take_left] at hcell

theorem Folds.unique {definition : ProjectionDefinition State Data View} {seedLength : Nat}
    {log : List Data} {cell other : UnitCell State} (h : Folds definition seedLength log cell)
    (h' : Folds definition seedLength log other) : cell = other :=
  Except.ok.inj (h.symm.trans h')

/-- The next unit folds the event; a change of its view goes to the listeners of the moment. -/
theorem driveNext_eq (h : Tracks session) (hdrivable : drivable session = true)
    (hnext : session.driveNext = some after) :
    ∃ key pending registration front data cell, session.log = front ++ [data] ∧
      session.dispatch = .driving (key :: pending) ∧
      session.registrations.get? key = some registration ∧
      Folds registration.definition session.seedLength session.log cell ∧
      ((after = { session.setCell key registration cell with dispatch := .driving pending } ∧
          (registration.definition.view.isSome = true →
            Changed registration.definition session.seedLength session.log front.length →
              session.listeners.entries = [])) ∨
        ∃ value, after = { session.setCell key registration cell with
            dispatch := .telling session.listeners.keys pending
            changes := session.changes ++
              [⟨registration.definition, registration.serial, value, front.length, []⟩] } ∧
          Changed registration.definition session.seedLength session.log front.length ∧
          Views registration.definition session.seedLength session.log (front.length + 1) value) := by
  unfold ProjectedSession.driveNext at hnext
  split at hnext
  · rename_i key pending hdispatch
    have hawaits : key ∈ session.awaiting := by
      rw [ProjectedSession.awaiting, hdispatch]
      exact List.mem_cons_self
    have hactive : session.dispatch ≠ .idle := by
      rw [hdispatch]
      rintro ⟨⟩
    have hlength := h.ownedNow hactive
    split at hnext
    · rename_i registration data hget hlast
      obtain ⟨front, hlog⟩ := List.getLast?_eq_some_iff.mp hlast
      have hseq : session.log.length - 1 = front.length := by rw [hlog]; simp
      have howned : session.seedLength ≤ front.length := by
        rw [hlog, List.length_append] at hlength
        exact Nat.le_of_lt_succ hlength
      rw [drivable, hdispatch] at hdrivable
      simp only [hget, hlast] at hdrivable
      obtain ⟨⟨cell, value⟩, hdrive⟩ := isOk_iff.mp hdrivable
      dsimp only at hnext
      rw [hdrive] at hnext
      rw [hseq] at hdrive
      obtain ⟨before, next, hbefore, happly, hcell, hvalue, hsilent⟩ := driveUnit_eq_ok hdrive
      have hfront := driveCell_folds h hlog hawaits hget hbefore
      have hfolds : Folds registration.definition session.seedLength session.log cell := by
        rw [hlog, hcell]
        exact hfront.snoc howned happly
      have hchanged : Changed registration.definition session.seedLength session.log front.length ↔
          next.isSome = true := by
        constructor
        · rintro ⟨found, cell', state, hfound, hcell', happly'⟩
          rw [hlog, List.getElem?_concat_length] at hfound
          rw [hlog, List.take_left] at hcell'
          cases hfound
          cases hfront.unique hcell'
          rw [happly] at happly'
          cases happly'
          rfl
        · intro hsome
          obtain ⟨state, rfl⟩ := Option.isSome_iff_exists.mp hsome
          refine ⟨data, before, state, ?_, ?_, happly⟩
          · rw [hlog, List.getElem?_concat_length]
          · rw [hlog, List.take_left]
            exact hfront
      refine ⟨key, pending, registration, front, data, cell, hlog, hdispatch, hget, hfolds, ?_⟩
      cases value with
      | none =>
        simp only [Option.some.injEq] at hnext
        subst hnext
        exact .inl ⟨rfl, fun hview hchange => hsilent rfl (hchanged.mp hchange) hview⟩
      | some made =>
        simp only [Option.some.injEq, hseq] at hnext
        subst hnext
        obtain ⟨state, view, rfl, hview, hmade⟩ := hvalue made rfl
        refine .inr ⟨made, rfl, hchanged.mpr rfl, cell, view, ?_, hview, ?_⟩
        · rw [List.take_of_length_le (by rw [hlog]; simp)]
          exact hfolds
        · rw [hcell]
          exact hmade
    · rename_i hmissing
      obtain ⟨registration, hget⟩ := OrderedMap.get?_of_mem_keys (h.awaitsKeys key hawaits)
      have hnonempty : session.log ≠ [] := by
        intro hnil
        rw [hnil] at hlength
        exact absurd hlength (Nat.not_lt_zero _)
      exact absurd (List.getLast?_eq_some_getLast hnonempty) (hmissing registration _ hget)
  · cases hnext

theorem Tracks.driveNext (h : Tracks session) (hguard : Undisturbed session .driveNext)
    (hnext : session.driveNext = some after) : Tracks after := by
  obtain ⟨key, pending, registration, front, data, cell, hlog, hdispatch, hget, hfolds, hafter⟩ :=
    driveNext_eq h hguard hnext
  rcases hafter with ⟨rfl, -⟩ | ⟨value, rfl, hchanged, hviews⟩
  · have hdriven := h.driven hlog hdispatch hget hfolds
      (List.forall_mem_nil _) (Nat.zero_le 1) (.inl rfl)
    rwa [List.append_nil] at hdriven
  · refine h.driven hlog hdispatch hget hfolds ?_ (Nat.le_of_eq List.length_singleton) (.inr ⟨_, rfl⟩)
    rw [List.forall_mem_singleton]
    refine ⟨rfl, rfl, ?_, hchanged, hviews⟩
    rw [hlog]
    simp

end Drive

theorem Tracks.step (session : ProjectedSession State Data View)
    (op : ProjectionOp State Data View) (after : ProjectedSession State Data View)
    (h : Tracks session) (hguard : Undisturbed session op) (hstep : session.step op = some after) :
    Tracks after := by
  cases op with
  | commit data => exact h.commit hstep
  | startDrive => exact h.startDrive hstep
  | driveNext => exact h.driveNext hguard hstep
  | tell => exact h.tell hstep
  | told => exact h.told_ hstep
  | listenerThrows => exact h.listenerThrows hguard hstep
  | finish => exact h.finish hstep
  | register definition =>
    unfold ProjectedSession.step at hstep
    dsimp only at hstep
    split at hstep
    · cases hstep
      exact h.register ‹_›
    · cases hstep
      exact h
  | dispose key =>
    cases hstep
    exact h.dispose key
  | onChanged listener =>
    cases hstep
    exact h.onChanged listener
  | offChanged listener =>
    cases hstep
    exact h.offChanged listener
  | stateOf key =>
    cases hstep
    exact (stateOf_readOnly h (readable_of hguard)).tracks h
  | snapshot =>
    cases hstep
    exact h.readSnapshot hguard
  | checkpoint =>
    cases hstep
    exact (visit_readOnly h fun key hkey => readable_of (hguard key hkey)).tracks h

theorem tracks_entered {log : List Data} {seedLength : Nat} (hseed : seedLength ≤ log.length) :
    Tracks (.entered log seedLength : ProjectedSession State Data View) where
  owned := hseed
  ownedNow := fun hne => absurd rfl hne
  awaitsOnce := List.nodup_nil
  awaitsKeys := fun _ hmem => absurd hmem List.not_mem_nil
  cells := fun _ _ _ hget => nomatch hget
  serials := fun _ _ hget => nomatch hget
  distinct := fun _ _ _ _ hget => nomatch hget
  told := fun _ hmem => absurd hmem List.not_mem_nil
  once := List.nodup_nil
  known := fun _ hmem => absurd hmem List.not_mem_nil
  early := fun _ _ hget => nomatch hget
  cuts := fun _ hmem => absurd hmem List.not_mem_nil

def collector (key : String) : ProjectionDefinition (List Nat) Nat (List Nat) where
  key := key
  parse := .ok
  init := []
  apply := fun state event => .ok (some (state ++ [event.data]))
  view := some .ok
  ownedSuffix := false
  stateVersion := 1

end Harness.Projection
