import Harness.Projection.Registry
import Mathlib.Data.List.Induction

namespace Harness.Projection

open Harness.Foundation

variable {State Data View : Type}

@[simp] theorem committed_length (log : List Data) : (committed log).length = log.length := by
  simp [committed]

theorem committed_snoc (log : List Data) (data : Data) :
    committed (log ++ [data]) = committed log ++ [⟨log.length, data⟩] := by
  simp [committed, List.zipIdx_append]

theorem committed_append (log rest : List Data) :
    ∃ events, committed (log ++ rest) = committed log ++ events := by
  rw [committed, List.zipIdx_append, List.map_append]
  exact ⟨_, rfl⟩

theorem take_committed (log : List Data) (n : Nat) :
    (committed log).take n = committed (log.take n) := by
  conv_lhs => rw [← List.take_append_drop n log]
  obtain ⟨events, hevents⟩ := committed_append (log.take n) (log.drop n)
  rw [hevents]
  by_cases hn : n ≤ log.length
  · rw [List.take_append_of_le_length (by simp [hn]), List.take_of_length_le (by simp)]
  · have hall : log.take n = log := List.take_of_length_le (by omega)
    have hnone : events = [] := by
      have hlength := congrArg List.length hevents
      rw [hall, List.drop_eq_nil_of_le (by omega)] at hlength
      simpa using hlength
    rw [hnone, List.append_nil, List.take_of_length_le (by simp)]

theorem lastSeq_committed (log : List Data) : lastSeq (committed log) (-1) = log.length - 1 := by
  induction log using List.reverseRecOn with
  | nil => rfl
  | append_singleton log data ih =>
    rw [committed_snoc, lastSeq, List.getLast?_concat]
    simp

abbrev Folds (definition : ProjectionDefinition State Data View) (seedLength : Nat)
    (log : List Data) (cell : UnitCell State) : Prop :=
  definition.buildCell (committed log) seedLength = .ok cell

theorem folds_iff {definition : ProjectionDefinition State Data View} {seedLength : Nat}
    {log : List Data} {cell : UnitCell State} :
    Folds definition seedLength log cell ↔
      foldOk (definition.applyOwned seedLength) definition.init (committed log) = .ok cell.state ∧
        cell.observedSeq = log.length - 1 := by
  rw [Folds, ProjectionDefinition.buildCell, bind_eq_ok]
  simp only [lastSeq_committed]
  constructor
  · rintro ⟨state, hstate, hcell⟩
    cases hcell
    exact ⟨hstate, rfl⟩
  · rintro ⟨hstate, hseq⟩
    refine ⟨cell.state, hstate, ?_⟩
    rw [← hseq]
    rfl

theorem Folds.snoc {definition : ProjectionDefinition State Data View} {seedLength : Nat}
    {log : List Data} {cell : UnitCell State} {data : Data} {next : Option State}
    (h : Folds definition seedLength log cell) (howned : seedLength ≤ log.length)
    (hnext : definition.apply cell.state ⟨log.length, data⟩ = .ok next) :
    Folds definition seedLength (log ++ [data])
      { state := next.getD cell.state, observedSeq := log.length } := by
  obtain ⟨hstate, -⟩ := folds_iff.mp h
  refine folds_iff.mpr ⟨?_, by simp⟩
  rw [committed_snoc, foldOk_snoc, hstate, ok_bind, ProjectionDefinition.applyOwned,
    if_neg (by simp; omega), hnext]
  rfl

namespace ProjectedSession

/-- How much of the log a registered unit has folded, or will have when it is next built. -/
def foldedLog (session : ProjectedSession State Data View) (key : String) : List Data :=
  if key ∈ session.awaiting then session.log.dropLast else session.log

end ProjectedSession

def Changed (definition : ProjectionDefinition State Data View) (seedLength : Nat)
    (log : List Data) (seq : Nat) : Prop :=
  ∃ data cell state, log[seq]? = some data ∧ Folds definition seedLength (log.take seq) cell ∧
    definition.apply cell.state ⟨seq, data⟩ = .ok (some state)

def Views (definition : ProjectionDefinition State Data View) (seedLength : Nat) (log : List Data)
    (count : Nat) (value : View) : Prop :=
  ∃ cell view, Folds definition seedLength (log.take count) cell ∧
    definition.view = some view ∧ view cell.state = .ok value

structure Told (seedLength : Nat) (log : List Data) (change : ProjectionChange State Data View) :
    Prop where
  published : change.seq < log.length
  changed : Changed change.definition seedLength log change.seq
  value : Views change.definition seedLength log (change.seq + 1) change.value

def Cut (seedLength : Nat) (log : List Data) (snapshot : ProjectionSnapshot State Data View) :
    Prop :=
  ∃ count ≤ log.length, snapshot.asOfSeq = count - 1 ∧
    ∀ entry ∈ snapshot.values, Views entry.1 seedLength log count entry.2

section Grow

variable {definition : ProjectionDefinition State Data View} {seedLength seq count : Nat}
  {log : List Data} {data : Data} {value : View}

theorem changed_snoc (h : seq < log.length) :
    Changed definition seedLength (log ++ [data]) seq ↔ Changed definition seedLength log seq := by
  unfold Changed
  rw [List.getElem?_append_left h, List.take_append_of_le_length (Nat.le_of_lt h)]

theorem views_snoc (h : count ≤ log.length) :
    Views definition seedLength (log ++ [data]) count value ↔
      Views definition seedLength log count value := by
  unfold Views
  rw [List.take_append_of_le_length h]

theorem Told.snoc {change : ProjectionChange State Data View} (h : Told seedLength log change) :
    Told seedLength (log ++ [data]) change where
  published := by
    rw [List.length_append]
    exact Nat.lt_add_right _ h.published
  changed := (changed_snoc h.published).mpr h.changed
  value := (views_snoc h.published).mpr h.value

theorem Cut.snoc {snapshot : ProjectionSnapshot State Data View} (h : Cut seedLength log snapshot) :
    Cut seedLength (log ++ [data]) snapshot := by
  obtain ⟨count, hcount, hseq, hvalues⟩ := h
  refine ⟨count, ?_, hseq, fun entry hentry => (views_snoc hcount).mpr (hvalues entry hentry)⟩
  rw [List.length_append]
  exact Nat.le_add_right_of_le hcount

end Grow

structure Tracks (session : ProjectedSession State Data View) : Prop where
  owned : session.seedLength ≤ session.log.length
  ownedNow : session.dispatch ≠ .idle → session.seedLength < session.log.length
  awaitsOnce : session.awaiting.Nodup
  awaitsKeys : ∀ key ∈ session.awaiting, key ∈ session.registrations.keys
  cells : ∀ key registration cell, session.registrations.get? key = some registration →
    registration.cell = some cell →
      Folds registration.definition session.seedLength (session.foldedLog key) cell
  serials : ∀ key registration, session.registrations.get? key = some registration →
    registration.serial < session.nextSerial
  distinct : ∀ key other registration same, session.registrations.get? key = some registration →
    session.registrations.get? other = some same → registration.serial = same.serial → key = other
  told : ∀ change ∈ session.changes, Told session.seedLength session.log change
  once : (session.changes.map fun change => (change.serial, change.seq)).Nodup
  known : ∀ change ∈ session.changes, change.serial < session.nextSerial
  early : ∀ key registration, session.registrations.get? key = some registration →
    key ∈ session.awaiting → ∀ change ∈ session.changes, change.serial = registration.serial →
      change.seq + 1 < session.log.length
  cuts : ∀ snapshot ∈ session.snapshots, Cut session.seedLength session.log snapshot

/-- The same log and feed, and registrations that are what they were but for their cells. -/
structure SameFeed (before after : ProjectedSession State Data View) : Prop where
  log : after.log = before.log
  seedLength : after.seedLength = before.seedLength
  listeners : after.listeners = before.listeners
  untold : after.untold = before.untold
  nextSerial : after.nextSerial = before.nextSerial
  changes : after.changes = before.changes
  snapshots : after.snapshots = before.snapshots
  registrations : ∀ key registration, after.registrations.get? key = some registration →
    ∃ old, before.registrations.get? key = some old ∧ registration.definition = old.definition ∧
      registration.serial = old.serial ∧ registration.since = old.since ∧
      ∀ cell, registration.cell = some cell → old.cell = some cell ∨
        Folds registration.definition before.seedLength (before.foldedLog key) cell
  awaiting : ∀ key ∈ after.registrations.keys, key ∈ after.awaiting ↔ key ∈ before.awaiting

theorem Tracks.sameFeed {before after : ProjectedSession State Data View} (h : Tracks before)
    (hsame : SameFeed before after)
    (hdispatch : after.dispatch ≠ .idle → before.dispatch ≠ .idle)
    (honce : after.awaiting.Nodup) (hkeys : ∀ key ∈ after.awaiting, key ∈ after.registrations.keys) :
    Tracks after := by
  constructor
  · rw [hsame.seedLength, hsame.log]
    exact h.owned
  · rw [hsame.seedLength, hsame.log]
    exact fun hne => h.ownedNow (hdispatch hne)
  · exact honce
  · exact hkeys
  · intro key registration cell hget hcell
    obtain ⟨old, hold, hdefinition, -, -, hcells⟩ := hsame.registrations key registration hget
    have hlog : after.foldedLog key = before.foldedLog key := by
      simp only [ProjectedSession.foldedLog, hsame.awaiting key (OrderedMap.mem_keys_of_get? hget), hsame.log]
    rw [hsame.seedLength, hlog]
    rcases hcells cell hcell with hsame | hnew
    · rw [hdefinition]
      exact h.cells key old cell hold hsame
    · exact hnew
  · intro key registration hget
    obtain ⟨old, hold, -, hserial, -⟩ := hsame.registrations key registration hget
    rw [hserial, hsame.nextSerial]
    exact h.serials key old hold
  · intro key other registration same hget hother heq
    obtain ⟨old, hold, -, hserial, -⟩ := hsame.registrations key registration hget
    obtain ⟨old', hold', -, hserial', -⟩ := hsame.registrations other same hother
    exact h.distinct key other old old' hold hold' (by rw [← hserial, ← hserial', heq])
  · rw [hsame.changes, hsame.seedLength, hsame.log]
    exact h.told
  · rw [hsame.changes]
    exact h.once
  · rw [hsame.changes, hsame.nextSerial]
    exact h.known
  · intro key registration hget hawaits
    obtain ⟨old, hold, -, hserial, -⟩ := hsame.registrations key registration hget
    rw [hsame.changes, hserial, hsame.log]
    exact h.early key old hold ((hsame.awaiting key (OrderedMap.mem_keys_of_get? hget)).mp hawaits)
  · rw [hsame.snapshots, hsame.seedLength, hsame.log]
    exact h.cuts

def Readable (session : ProjectedSession State Data View) (key : String) : Prop :=
  ∀ registration, session.registrations.get? key = some registration → registration.cell = none →
    key ∉ session.awaiting

structure ReadOnly (before after : ProjectedSession State Data View) : Prop where
  feed : SameFeed before after
  dispatch : after.dispatch = before.dispatch
  keys : after.registrations.keys = before.registrations.keys
  readable : ∀ key, Readable before key → Readable after key
  definitions : ∀ key registration, before.registrations.get? key = some registration →
    ∃ same, after.registrations.get? key = some same ∧ same.definition = registration.definition

theorem ReadOnly.awaiting {before after : ProjectedSession State Data View}
    (h : ReadOnly before after) : after.awaiting = before.awaiting := by
  rw [ProjectedSession.awaiting, h.dispatch, h.keys]
  rfl

theorem ReadOnly.foldedLog {before after : ProjectedSession State Data View}
    (h : ReadOnly before after) (key : String) : after.foldedLog key = before.foldedLog key := by
  rw [ProjectedSession.foldedLog, h.awaiting, h.feed.log]
  rfl

theorem ReadOnly.refl (session : ProjectedSession State Data View) : ReadOnly session session where
  feed := ⟨rfl, rfl, rfl, rfl, rfl, rfl, rfl,
    fun _ registration hget => ⟨registration, hget, rfl, rfl, rfl, fun _ hcell => .inl hcell⟩,
    fun _ _ => Iff.rfl⟩
  dispatch := rfl
  keys := rfl
  readable := fun _ h => h
  definitions := fun _ registration hget => ⟨registration, hget, rfl⟩

theorem ReadOnly.trans {first second third : ProjectedSession State Data View}
    (h : ReadOnly first second) (h' : ReadOnly second third) : ReadOnly first third where
  feed := by
    constructor
    · exact h'.feed.log.trans h.feed.log
    · exact h'.feed.seedLength.trans h.feed.seedLength
    · exact h'.feed.listeners.trans h.feed.listeners
    · exact h'.feed.untold.trans h.feed.untold
    · exact h'.feed.nextSerial.trans h.feed.nextSerial
    · exact h'.feed.changes.trans h.feed.changes
    · exact h'.feed.snapshots.trans h.feed.snapshots
    · intro key registration hget
      obtain ⟨middle, hmiddle, hdef, hserial, hsince, hcells⟩ :=
        h'.feed.registrations key registration hget
      obtain ⟨old, hold, hdef', hserial', hsince', hcells'⟩ := h.feed.registrations key middle hmiddle
      refine ⟨old, hold, hdef.trans hdef', hserial.trans hserial', hsince.trans hsince', ?_⟩
      intro cell hcell
      rcases hcells cell hcell with hkept | hnew
      · rcases hcells' cell hkept with hkept | hnew
        · exact .inl hkept
        · exact .inr (hdef ▸ hnew)
      · rw [h.feed.seedLength, h.foldedLog] at hnew
        exact .inr hnew
    · intro key hkey
      rw [h'.feed.awaiting key hkey]
      exact h.feed.awaiting key (h'.keys ▸ hkey)
  dispatch := h'.dispatch.trans h.dispatch
  keys := h'.keys.trans h.keys
  readable := fun key hreadable => h'.readable key (h.readable key hreadable)
  definitions := by
    intro key registration hget
    obtain ⟨middle, hmiddle, hdef⟩ := h.definitions key registration hget
    obtain ⟨last, hlast, hdef'⟩ := h'.definitions key middle hmiddle
    exact ⟨last, hlast, hdef'.trans hdef⟩

theorem ReadOnly.tracks {before after : ProjectedSession State Data View}
    (hread : ReadOnly before after) (h : Tracks before) : Tracks after := by
  apply h.sameFeed hread.feed
  · rw [hread.dispatch]
    exact fun hne => hne
  · rw [hread.awaiting]
    exact h.awaitsOnce
  · rw [hread.awaiting, hread.keys]
    exact h.awaitsKeys

section Read

variable {session after : ProjectedSession State Data View} {key : String}
  {registration : Registration State Data View} {cell : UnitCell State}

theorem setCell_readOnly (hget : session.registrations.get? key = some registration)
    (hcell : Folds registration.definition session.seedLength (session.foldedLog key) cell) :
    ReadOnly session (session.setCell key registration cell) := by
  have hkeys : (session.setCell key registration cell).registrations.keys =
      session.registrations.keys :=
    OrderedMap.keys_set_of_mem (OrderedMap.mem_keys_of_get? hget) _
  have hregistrations : ∀ other, (session.setCell key registration cell).registrations.get? other =
      if other = key then some { registration with cell := some cell }
      else session.registrations.get? other := fun other => OrderedMap.get?_set _ _ _ _
  have hawaiting : (session.setCell key registration cell).awaiting = session.awaiting := by
    rw [ProjectedSession.awaiting, hkeys]
    rfl
  refine ⟨⟨rfl, rfl, rfl, rfl, rfl, rfl, rfl, ?_, ?_⟩, rfl, hkeys, ?_, ?_⟩
  · intro other found hfound
    rw [hregistrations] at hfound
    split at hfound
    · rename_i heq
      subst heq
      cases hfound
      refine ⟨registration, hget, rfl, rfl, rfl, ?_⟩
      rintro _ ⟨⟩
      exact .inr hcell
    · exact ⟨found, hfound, rfl, rfl, rfl, fun _ hcell => .inl hcell⟩
  · intro other _
    rw [hawaiting]
  · intro other hreadable found hfound hnone
    rw [hregistrations] at hfound
    rw [hawaiting]
    split at hfound
    · cases hfound
      cases hnone
    · exact hreadable found hfound hnone
  · intro other found hfound
    rw [hregistrations]
    split
    · rename_i heq
      subst heq
      cases hget.symm.trans hfound
      exact ⟨_, rfl, rfl⟩
    · exact ⟨found, hfound, rfl⟩

theorem cellFor_eq_ok (h : Tracks session) (hreadable : Readable session key)
    (hget : session.registrations.get? key = some registration)
    (hcell : session.cellFor key registration = .ok (after, cell)) :
    ReadOnly session after ∧
      Folds registration.definition session.seedLength (session.foldedLog key) cell := by
  unfold ProjectedSession.cellFor at hcell
  split at hcell
  · rename_i found hfound
    cases hcell
    exact ⟨.refl _, h.cells key registration _ hget hfound⟩
  · rename_i hnone
    obtain ⟨built, hbuilt, hcell⟩ := bind_eq_ok.mp hcell
    cases hcell
    have hfolds : Folds registration.definition session.seedLength (session.foldedLog key) cell := by
      rw [ProjectedSession.foldedLog, if_neg (hreadable registration hget hnone)]
      exact hbuilt
    exact ⟨setCell_readOnly hget hfolds, hfolds⟩

theorem stateOf_readOnly (h : Tracks session) (hreadable : Readable session key) :
    ReadOnly session (session.stateOf key).1 := by
  unfold ProjectedSession.stateOf
  split
  · exact .refl _
  · rename_i registration hget
    split
    · exact .refl _
    · rename_i after cell hcell
      exact (cellFor_eq_ok h hreadable hget hcell).1

variable {β : Type} {f : Registration State Data View → UnitCell State → Except String β}

theorem visit_readOnly {keys : List String} (h : Tracks session)
    (hreadable : ∀ key ∈ keys, Readable session key) :
    ReadOnly session (ProjectedSession.visit f keys session).1 := by
  induction keys generalizing session with
  | nil => exact .refl _
  | cons key keys ih =>
    have hrest := fun other hmem => hreadable other (List.mem_cons_of_mem key hmem)
    rw [ProjectedSession.visit]
    split
    · exact ih h hrest
    · rename_i registration hget
      split
      · exact .refl _
      · rename_i after cell hcell
        have hread := (cellFor_eq_ok h (hreadable key List.mem_cons_self) hget hcell).1
        split
        · exact hread
        · exact hread.trans (ih (hread.tracks h) fun other hmem =>
            hread.readable other (hrest other hmem))

theorem visit_values {keys : List String} {values : List β} (h : Tracks session)
    (hreadable : ∀ key ∈ keys, Readable session key)
    (hvalues : (ProjectedSession.visit f keys session).2 = .ok values) :
    ∀ value ∈ values, ∃ key ∈ keys, ∃ registration cell,
      Folds registration.definition session.seedLength (session.foldedLog key) cell ∧
        f registration cell = .ok value ∧ ∃ old, session.registrations.get? key = some old ∧
          registration.definition = old.definition := by
  induction keys generalizing session values with
  | nil =>
    cases hvalues
    exact fun _ hmem => absurd hmem List.not_mem_nil
  | cons key keys ih =>
    have hrest := fun other hmem => hreadable other (List.mem_cons_of_mem key hmem)
    intro value hmem
    rw [ProjectedSession.visit] at hvalues
    split at hvalues
    · obtain ⟨other, hother, hmade⟩ := ih h hrest hvalues value hmem
      exact ⟨other, List.mem_cons_of_mem key hother, hmade⟩
    · rename_i registration hget
      split at hvalues
      · cases hvalues
      · rename_i after cell hcell
        obtain ⟨hread, hfolds⟩ := cellFor_eq_ok h (hreadable key List.mem_cons_self) hget hcell
        split at hvalues
        · cases hvalues
        · rename_i first hfirst
          obtain ⟨rest, hrestValues, rfl⟩ := map_eq_ok.mp hvalues
          rcases List.mem_cons.mp hmem with rfl | hmem
          · exact ⟨key, List.mem_cons_self, registration, cell, hfolds, hfirst, registration, hget, rfl⟩
          · obtain ⟨other, hother, made, cell', hfolds', hmade, middle, hmiddle, hsame⟩ :=
              ih (hread.tracks h) (fun other hmem => hread.readable other (hrest other hmem))
                hrestValues value hmem
            obtain ⟨old, hold, hdefinition, -⟩ := hread.feed.registrations other middle hmiddle
            rw [hread.feed.seedLength, hread.foldedLog] at hfolds'
            exact ⟨other, List.mem_cons_of_mem key hother, made, cell', hfolds', hmade, old, hold,
              hsame.trans hdefinition⟩

end Read

namespace Tracks

variable {session after : ProjectedSession State Data View}

theorem foldedLog_idle (hidle : session.dispatch = .idle) (key : String) :
    session.foldedLog key = session.log := by
  rw [ProjectedSession.foldedLog, ProjectedSession.awaiting, hidle, if_neg List.not_mem_nil]

theorem commit (h : Tracks session) {data : Data} (hcommit : session.commit data = some after) :
    Tracks after := by
  unfold ProjectedSession.commit at hcommit
  split at hcommit
  · rename_i hidle
    cases hcommit
    constructor
    · simpa using Nat.le_succ_of_le h.owned
    · intro _
      simpa using Nat.lt_succ_of_le h.owned
    · exact session.registrations.nodup
    · exact fun key hkey => hkey
    · intro key registration cell hget hcell
      have hold := h.cells key registration cell hget hcell
      rw [foldedLog_idle hidle] at hold
      have hawaits : key ∈ session.registrations.keys := OrderedMap.mem_keys_of_get? hget
      rw [ProjectedSession.foldedLog, ProjectedSession.awaiting, if_pos hawaits,
        List.dropLast_concat]
      exact hold
    · exact h.serials
    · exact h.distinct
    · exact fun change hmem => (h.told change hmem).snoc
    · exact h.once
    · exact h.known
    · intro key registration _ _ change hmem _
      simpa using (h.told change hmem).published
    · exact fun snapshot hmem => (h.cuts snapshot hmem).snoc
  · cases hcommit

theorem sameFeed_redispatch {dispatch : Dispatch}
    (hawaiting : { session with dispatch }.awaiting = session.awaiting)
    (huntold : { session with dispatch }.untold = session.untold) :
    SameFeed session { session with dispatch } := by
  refine ⟨rfl, rfl, rfl, huntold, rfl, rfl, rfl, fun key registration hget =>
    ⟨registration, hget, rfl, rfl, rfl, fun _ hcell => .inl hcell⟩, fun key _ => ?_⟩
  rw [hawaiting]

theorem relisten (h : Tracks session) {next : ProjectedSession State Data View}
    (hnext : next = { session with dispatch := next.dispatch, listeners := next.listeners })
    (hdispatch : next.dispatch ≠ .idle → session.dispatch ≠ .idle)
    (hawaiting : next.awaiting = session.awaiting) : Tracks next := by
  have hlog : ∀ key, next.foldedLog key = session.foldedLog key := by
    intro key
    rw [ProjectedSession.foldedLog, hawaiting, hnext]
    rfl
  constructor
  · rw [hnext]
    exact h.owned
  · rw [hnext]
    exact fun hne => h.ownedNow (hdispatch hne)
  · rw [hawaiting]
    exact h.awaitsOnce
  · rw [hawaiting, hnext]
    exact h.awaitsKeys
  · intro key registration cell hget
    rw [hlog]
    rw [hnext] at hget ⊢
    exact h.cells key registration cell hget
  · rw [hnext]
    exact h.serials
  · rw [hnext]
    exact h.distinct
  · rw [hnext]
    exact h.told
  · rw [hnext]
    exact h.once
  · rw [hnext]
    exact h.known
  · rw [hawaiting, hnext]
    exact h.early
  · rw [hnext]
    exact h.cuts

theorem startDrive (h : Tracks session) (hstart : session.startDrive = some after) :
    Tracks after := by
  unfold ProjectedSession.startDrive at hstart
  split at hstart
  · rename_i hcommitted
    cases hstart
    apply h.relisten rfl
    · rw [hcommitted]
      exact fun _ => nofun
    · simp only [ProjectedSession.awaiting, hcommitted]
  · cases hstart

theorem finish (h : Tracks session) (hfinish : session.finish = some after) : Tracks after := by
  unfold ProjectedSession.finish at hfinish
  split at hfinish
  · rename_i hdriven
    cases hfinish
    apply h.relisten rfl
    · exact fun hne => absurd rfl hne
    · simp only [ProjectedSession.awaiting, hdriven]
  · cases hfinish

theorem awaiting_register {key : String} {registration : Registration State Data View}
    (hnew : key ∉ session.registrations.keys)
    (hkeys : after.registrations = session.registrations.set key registration)
    (hdispatch : after.dispatch = ProjectedSession.awaitKey key session.dispatch) :
    after.awaiting = session.awaiting ∨ after.awaiting = session.awaiting ++ [key] := by
  unfold ProjectedSession.awaiting
  rw [hdispatch, hkeys, OrderedMap.keys_set_new hnew]
  cases session.dispatch with
  | idle => exact .inl rfl
  | committed => exact .inr rfl
  | driving pending | telling listeners pending => exact .inr rfl

theorem untold_awaitKey (key : String) {next : ProjectedSession State Data View}
    (hdispatch : next.dispatch = ProjectedSession.awaitKey key session.dispatch) :
    next.untold = session.untold := by
  rw [ProjectedSession.untold, ProjectedSession.untold, hdispatch]
  cases session.dispatch <;> rfl

theorem recounted {key : String} {registration : Registration State Data View} {refs : Nat}
    (hget : session.registrations.get? key = some registration) :
    SameFeed session
      { session with registrations := session.registrations.set key { registration with refs } } := by
  have hkeys := OrderedMap.keys_set_of_mem (OrderedMap.mem_keys_of_get? hget)
    { registration with refs }
  refine ⟨rfl, rfl, rfl, rfl, rfl, rfl, rfl, ?_, fun other _ => ?_⟩
  · intro other found hfound
    rw [OrderedMap.get?_set] at hfound
    split at hfound
    · rename_i heq
      subst heq
      cases hfound
      exact ⟨registration, hget, rfl, rfl, rfl, fun _ hcell => .inl hcell⟩
    · exact ⟨found, hfound, rfl, rfl, rfl, fun _ hcell => .inl hcell⟩
  · rw [ProjectedSession.awaiting, ProjectedSession.awaiting, ← hkeys]

theorem recount (h : Tracks session) {key : String} {registration : Registration State Data View}
    {refs : Nat} (hget : session.registrations.get? key = some registration) :
    Tracks { session with registrations := session.registrations.set key { registration with refs } } := by
  have hkeys := OrderedMap.keys_set_of_mem (OrderedMap.mem_keys_of_get? hget)
    { registration with refs }
  set counted : ProjectedSession State Data View :=
    { session with registrations := session.registrations.set key { registration with refs } }
  have hawaiting : counted.awaiting = session.awaiting := by
    rw [ProjectedSession.awaiting, ProjectedSession.awaiting, ← hkeys]
  apply h.sameFeed (recounted hget) (fun hne => hne)
  · rw [hawaiting]
    exact h.awaitsOnce
  · rw [hawaiting]
    intro other hother
    rw [show counted.registrations.keys = session.registrations.keys from hkeys]
    exact h.awaitsKeys other hother

theorem register (h : Tracks session) {definition : ProjectionDefinition State Data View}
    (hregister : session.register definition = .ok after) : Tracks after := by
  unfold ProjectedSession.register at hregister
  split at hregister
  · cases hregister
  · split at hregister
    · rename_i hnone
      have hnew := OrderedMap.notMem_keys_of_get? hnone
      cases hregister
      set added : Registration State Data View :=
        { definition, cell := none, refs := 1, serial := session.nextSerial, since := session.log.length }
      set joined : ProjectedSession State Data View := { session with
        registrations := session.registrations.set definition.key added
        nextSerial := session.nextSerial + 1
        dispatch := ProjectedSession.awaitKey definition.key session.dispatch } with hjoined
      have hget : ∀ key, joined.registrations.get? key =
          if key = definition.key then some added else session.registrations.get? key :=
        fun key => OrderedMap.get?_set_new hnew _ key
      have hawaiting : joined.awaiting = session.awaiting ∨
          joined.awaiting = session.awaiting ++ [definition.key] := awaiting_register hnew rfl rfl
      have hother : ∀ key, key ≠ definition.key →
          (key ∈ joined.awaiting ↔ key ∈ session.awaiting) := by
        intro key hne
        rcases hawaiting with heq | heq <;> simp [heq, hne]
      have hidle : joined.dispatch ≠ .idle → session.dispatch ≠ .idle := by
        intro hne heq
        exact hne (by rw [hjoined]; simp [ProjectedSession.awaitKey, heq])
      have hfresh : definition.key ∉ session.awaiting := fun hmem => hnew (h.awaitsKeys _ hmem)
      constructor
      · exact h.owned
      · exact fun hne => h.ownedNow (hidle hne)
      · rcases hawaiting with heq | heq
        · rw [heq]
          exact h.awaitsOnce
        · rw [heq]
          exact List.nodup_append.mpr ⟨h.awaitsOnce, List.nodup_singleton _, fun key hkey other hother =>
            fun hsame => hfresh (by rwa [← List.mem_singleton.mp hother, ← hsame])⟩
      · intro key hkey
        rw [hjoined]
        rw [OrderedMap.keys_set_new hnew, List.mem_append, List.mem_singleton]
        by_cases hne : key = definition.key
        · exact .inr hne
        · exact .inl (h.awaitsKeys key ((hother key hne).mp hkey))
      · intro key registration cell hfound hcell
        rw [hget] at hfound
        split at hfound
        · cases hfound
          cases hcell
        · rename_i hne
          have hlog : joined.foldedLog key = session.foldedLog key := by
            simp only [ProjectedSession.foldedLog, hother key hne]
            rfl
          rw [hlog]
          exact h.cells key registration cell hfound hcell
      · intro key registration hfound
        rw [hget] at hfound
        split at hfound
        · cases hfound
          exact Nat.lt_succ_self _
        · exact Nat.lt_succ_of_lt (h.serials key registration hfound)
      · intro key other registration same hkey hsame heq
        rw [hget] at hkey hsame
        split at hkey
        · rename_i hfirst
          split at hsame
          · rename_i hsecond
            rw [hfirst, hsecond]
          · cases hkey
            exact absurd heq.symm (Nat.ne_of_lt (h.serials other same hsame))
        · split at hsame
          · cases hsame
            exact absurd heq (Nat.ne_of_lt (h.serials key registration hkey))
          · exact h.distinct key other registration same hkey hsame heq
      · exact h.told
      · exact h.once
      · exact fun change hmem => Nat.lt_succ_of_lt (h.known change hmem)
      · intro key registration hfound hawaits change hmem heq
        rw [hget] at hfound
        split at hfound
        · cases hfound
          exact absurd heq (Nat.ne_of_lt (h.known change hmem))
        · rename_i hne
          exact h.early key registration hfound ((hother key hne).mp hawaits) change hmem heq
      · exact h.cuts
    · rename_i existing hexisting
      split at hregister
      · cases hregister
      · cases hregister
        exact h.recount hexisting

theorem awaiting_dispose {key : String} {left : ProjectedSession State Data View}
    (hkeys : left.registrations = session.registrations.delete key)
    (hdispatch : left.dispatch = ProjectedSession.forgetKey key session.dispatch) :
    left.awaiting = session.awaiting.filter (· ≠ key) := by
  unfold ProjectedSession.awaiting
  rw [hdispatch, hkeys, OrderedMap.keys_delete_eq]
  cases session.dispatch <;> rfl

theorem disposed (session : ProjectedSession State Data View) (key : String) :
    SameFeed session (session.dispose key) := by
  unfold ProjectedSession.dispose
  split
  · exact (ReadOnly.refl session).feed
  · rename_i live hlive
    split
    · have hawaiting : ProjectedSession.awaiting { session with
          registrations := session.registrations.delete key
          dispatch := ProjectedSession.forgetKey key session.dispatch } =
            session.awaiting.filter (· ≠ key) := awaiting_dispose rfl rfl
      refine ⟨rfl, rfl, rfl, ?_, rfl, rfl, rfl, ?_, ?_⟩
      · simp only [ProjectedSession.untold]
        cases session.dispatch <;> rfl
      · intro other registration hfound
        rw [OrderedMap.get?_delete] at hfound
        split at hfound
        · cases hfound
        · exact ⟨registration, hfound, rfl, rfl, rfl, fun _ hcell => .inl hcell⟩
      · intro other hother
        rw [OrderedMap.keys_delete_eq] at hother
        have hne : other ≠ key := of_decide_eq_true (List.mem_filter.mp hother).2
        rw [hawaiting, List.mem_filter]
        simp [hne]
    · exact recounted hlive

theorem dispose (h : Tracks session) (key : String) : Tracks (session.dispose key) := by
  have hfeed := disposed session key
  unfold ProjectedSession.dispose at hfeed ⊢
  split
  · exact h
  · rename_i live hlive
    split
    · rename_i hlast
      simp only [hlive, hlast, if_true] at hfeed
      have hawaiting : ProjectedSession.awaiting { session with
          registrations := session.registrations.delete key
          dispatch := ProjectedSession.forgetKey key session.dispatch } =
            session.awaiting.filter (· ≠ key) := awaiting_dispose rfl rfl
      apply h.sameFeed hfeed
      · intro hne heq
        exact hne (by simp [ProjectedSession.forgetKey, heq])
      · rw [hawaiting]
        exact h.awaitsOnce.filter _
      · intro other hother
        rw [hawaiting, List.mem_filter] at hother
        rw [OrderedMap.keys_delete_eq, List.mem_filter]
        exact ⟨h.awaitsKeys other hother.1, hother.2⟩
    · exact h.recount hlive

theorem awaiting_awaitListener {next : ProjectedSession State Data View} {listener : Nat}
    (hregistrations : next.registrations = session.registrations)
    (hdispatch : next.dispatch = ProjectedSession.awaitListener listener session.dispatch) :
    next.awaiting = session.awaiting := by
  rw [ProjectedSession.awaiting, ProjectedSession.awaiting, hregistrations, hdispatch]
  cases session.dispatch <;> rfl

theorem awaiting_forgetListener {next : ProjectedSession State Data View} {listener : Nat}
    (hregistrations : next.registrations = session.registrations)
    (hdispatch : next.dispatch = ProjectedSession.forgetListener listener session.dispatch) :
    next.awaiting = session.awaiting := by
  rw [ProjectedSession.awaiting, ProjectedSession.awaiting, hregistrations, hdispatch]
  cases session.dispatch <;> rfl

theorem onChanged (h : Tracks session) (listener : Nat) : Tracks (session.onChanged listener) := by
  unfold ProjectedSession.onChanged
  split
  · exact h
  · refine h.relisten rfl ?_ (awaiting_awaitListener rfl rfl)
    intro hne heq
    exact hne (by rw [heq]; rfl)

theorem offChanged (h : Tracks session) (listener : Nat) : Tracks (session.offChanged listener) := by
  refine h.relisten rfl ?_ (awaiting_forgetListener rfl rfl)
  intro hne heq
  exact hne (by rw [ProjectedSession.offChanged, heq]; rfl)

theorem forall_tellLast {changes : List (ProjectionChange State Data View)} {listener : Nat}
    {p : ProjectionChange State Data View → Prop}
    (hp : ∀ change, p change → p { change with listeners := change.listeners ++ [listener] })
    (h : ∀ change ∈ changes, p change) :
    ∀ change ∈ ProjectedSession.tellLast listener changes, p change := by
  induction changes with
  | nil => exact h
  | cons first changes ih =>
    cases changes with
    | nil =>
      intro change hmem
      rw [List.mem_singleton.mp hmem]
      exact hp first (h first List.mem_cons_self)
    | cons second changes =>
      rw [List.forall_mem_cons] at h
      intro change hmem
      rcases List.mem_cons.mp hmem with rfl | hmem
      · exact h.1
      · exact ih h.2 change hmem

theorem map_tellLast {β : Type} {changes : List (ProjectionChange State Data View)} {listener : Nat}
    {f : ProjectionChange State Data View → β}
    (hf : ∀ change, f { change with listeners := change.listeners ++ [listener] } = f change) :
    (ProjectedSession.tellLast listener changes).map f = changes.map f := by
  induction changes with
  | nil => rfl
  | cons first changes ih =>
    cases changes with
    | nil => exact congrArg (fun value => [value]) (hf first)
    | cons second changes => exact congrArg (f first :: ·) ih

theorem tell (h : Tracks session) (htell : session.tell = some after) : Tracks after := by
  unfold ProjectedSession.tell at htell
  split at htell
  · rename_i listener rest pending hdispatch
    cases htell
    have hawaiting : session.awaiting = pending := by rw [ProjectedSession.awaiting, hdispatch]
    have htold : Tracks { session with changes := ProjectedSession.tellLast listener session.changes } := by
      refine ⟨h.owned, h.ownedNow, h.awaitsOnce, h.awaitsKeys, h.cells, h.serials, h.distinct, ?_, ?_,
        ?_, ?_, h.cuts⟩
      · exact forall_tellLast (fun change hold => ⟨hold.published, hold.changed, hold.value⟩) h.told
      · rw [map_tellLast fun _ => rfl]
        exact h.once
      · exact forall_tellLast (fun _ hold => hold) h.known
      · intro key registration hget hkey
        exact forall_tellLast (fun _ hold => hold) (h.early key registration hget hkey)
    apply htold.relisten rfl
    · intro _ heq
      rw [heq] at hdispatch
      cases hdispatch
    · exact hawaiting.symm
  · cases htell

theorem told_ (h : Tracks session) (htold : session.told = some after) : Tracks after := by
  unfold ProjectedSession.told at htold
  split at htold
  · rename_i pending hdispatch
    cases htold
    apply h.relisten rfl
    · intro _ heq
      rw [heq] at hdispatch
      cases hdispatch
    · simp only [ProjectedSession.awaiting, hdispatch]
  · cases htold

theorem listenerThrows (h : Tracks session) (hdriven : session.awaiting = [])
    (hthrows : session.listenerThrows = some after) : Tracks after := by
  unfold ProjectedSession.listenerThrows at hthrows
  split at hthrows
  · cases hthrows
  · rename_i hheard
    cases hthrows
    apply h.relisten rfl
    · intro _ heq
      exact hheard (by rw [ProjectedSession.heardNow, heq])
    · exact hdriven.symm

theorem cut (h : Tracks session) {snapshot : ProjectionSnapshot State Data View}
    (hcut : Cut session.seedLength session.log snapshot) :
    Tracks { session with snapshots := session.snapshots ++ [snapshot] } where
  owned := h.owned
  ownedNow := h.ownedNow
  awaitsOnce := h.awaitsOnce
  awaitsKeys := h.awaitsKeys
  cells := h.cells
  serials := h.serials
  distinct := h.distinct
  told := h.told
  once := h.once
  known := h.known
  early := h.early
  cuts := by
    intro other hmem
    rcases List.mem_append.mp hmem with hold | hlast
    · exact h.cuts other hold
    · rw [List.mem_singleton.mp hlast]
      exact hcut

theorem readSnapshot (h : Tracks session)
    (hdriven : ∀ key ∈ session.wireKeys, key ∉ session.awaiting) : Tracks session.readSnapshot := by
  have hreadable : ∀ key ∈ session.wireKeys, Readable session key :=
    fun key hkey _ _ _ => hdriven key hkey
  unfold ProjectedSession.readSnapshot
  split
  · rename_i after snapshot hsnapshot
    have hafter : session.snapshot.1 = after := congrArg Prod.fst hsnapshot
    have hread : ReadOnly session after := by
      rw [← hafter]
      exact visit_readOnly h hreadable
    obtain ⟨values, hvalues, hcut⟩ := map_eq_ok.mp (congrArg Prod.snd hsnapshot)
    apply (hread.tracks h).cut
    rw [hread.feed.seedLength, hread.feed.log, ← hcut]
    refine ⟨session.log.length, Nat.le_refl _, rfl, fun entry hentry => ?_⟩
    obtain ⟨key, hkey, registration, cell, hfolds, hview, -⟩ :=
      visit_values h hreadable hvalues entry hentry
    rw [ProjectedSession.foldedLog, if_neg (hdriven key hkey)] at hfolds
    obtain ⟨view, hsome, hview⟩ := bind_eq_ok.mp hview
    obtain ⟨value, hvalue, hview⟩ := bind_eq_ok.mp hview
    cases hview
    refine ⟨cell, view, ?_, expect_eq_ok.mp hsome, hvalue⟩
    rw [List.take_length]
    exact hfolds
  · rename_i after message hsnapshot
    have hafter : session.snapshot.1 = after := congrArg Prod.fst hsnapshot
    have hread : ReadOnly session after := by
      rw [← hafter]
      exact visit_readOnly h hreadable
    exact hread.tracks h

/-- The unit at the head of the drive has folded the last event, and a change is on its way. -/
theorem driven (h : Tracks session) {key : String} {pending : List String} {front : List Data}
    {data : Data} {registration : Registration State Data View} {cell : UnitCell State}
    {new : List (ProjectionChange State Data View)} {dispatch : Dispatch} (hlog : session.log = front ++ [data])
    (hdispatch : session.dispatch = .driving (key :: pending))
    (hget : session.registrations.get? key = some registration)
    (hfolds : Folds registration.definition session.seedLength session.log cell)
    (hnew : ∀ change ∈ new, change.serial = registration.serial ∧ change.seq = front.length ∧
      Told session.seedLength session.log change)
    (honce : new.length ≤ 1)
    (hnext : dispatch = .driving pending ∨ ∃ listeners, dispatch = .telling listeners pending) :
    Tracks { session.setCell key registration cell with
      dispatch
      changes := session.changes ++ new } := by
  have hpending : ∀ {changes : List (ProjectionChange State Data View)},
      { session.setCell key registration cell with dispatch, changes }.awaiting = pending := by
    intro changes
    rcases hnext with rfl | ⟨listeners, rfl⟩ <;> rfl
  have hlength : session.log.length = front.length + 1 := by rw [hlog, List.length_append]; rfl
  have hawaits : session.awaiting = key :: pending := by
    rw [ProjectedSession.awaiting, hdispatch]
  have hnodup := h.awaitsOnce
  rw [hawaits, List.nodup_cons] at hnodup
  have hkeys : (session.registrations.set key { registration with cell := some cell }).keys =
      session.registrations.keys :=
    OrderedMap.keys_set_of_mem (OrderedMap.mem_keys_of_get? hget) _
  have hgets : ∀ other,
      (session.registrations.set key { registration with cell := some cell }).get? other =
        if other = key then some { registration with cell := some cell }
        else session.registrations.get? other := fun other => OrderedMap.get?_set _ _ _ _
  have hhead : key ∈ session.awaiting := by rw [hawaits]; exact List.mem_cons_self
  have htail : ∀ {other}, other ∈ pending → other ∈ session.awaiting := fun hmem => by
    rw [hawaits]
    exact List.mem_cons_of_mem key hmem
  have hserial : ∀ change ∈ session.changes, change.serial = registration.serial →
      change.seq ≠ front.length := by
    intro change hmem heq
    have := h.early key registration hget hhead change hmem heq
    omega
  constructor
  · exact h.owned
  · intro _
    exact h.ownedNow (by rw [hdispatch]; rintro ⟨⟩)
  · rw [hpending]
    exact hnodup.2
  · rw [hpending]
    intro other hother
    exact hkeys ▸ h.awaitsKeys other (htail hother)
  · intro other found kept hfound hkept
    replace hfound := (hgets other).symm.trans hfound
    rw [ProjectedSession.foldedLog, hpending]
    change Folds found.definition session.seedLength
      (if other ∈ pending then session.log.dropLast else session.log) kept
    split at hfound
    · rename_i heq
      subst heq
      cases hfound
      cases hkept
      rw [if_neg hnodup.1]
      exact hfolds
    · rename_i hne
      have hold := h.cells other found kept hfound hkept
      simp only [ProjectedSession.foldedLog, hawaits, List.mem_cons, hne, false_or] at hold
      exact hold
  · intro other found hfound
    replace hfound := (hgets other).symm.trans hfound
    split at hfound
    · cases hfound
      exact h.serials key registration hget
    · exact h.serials other found hfound
  · intro first second found same hfound hsame heq
    replace hfound := (hgets first).symm.trans hfound
    replace hsame := (hgets second).symm.trans hsame
    split at hfound
    · rename_i hfirst
      split at hsame
      · rename_i hsecond
        rw [hfirst, hsecond]
      · cases hfound
        rw [hfirst]
        exact h.distinct key second registration same hget hsame heq
    · split at hsame
      · rename_i hsecond
        cases hsame
        rw [hsecond]
        exact h.distinct first key found registration hfound hget heq
      · exact h.distinct first second found same hfound hsame heq
  · intro change hmem
    rcases List.mem_append.mp hmem with hold | hlast
    · exact h.told change hold
    · exact (hnew change hlast).2.2
  · rw [List.map_append, List.nodup_append]
    refine ⟨h.once, ?_, ?_⟩
    · rcases hmade : new with _ | ⟨change, _ | ⟨second, rest⟩⟩
      · exact List.nodup_nil
      · exact List.nodup_singleton _
      · rw [hmade, List.length_cons, List.length_cons] at honce
        omega
    · intro pair hpair other hother heq
      obtain ⟨change, hchange, rfl⟩ := List.mem_map.mp hpair
      obtain ⟨last, hlast, rfl⟩ := List.mem_map.mp hother
      obtain ⟨hserials, hseqs⟩ := Prod.mk.inj heq
      exact hserial change hchange (hserials.trans (hnew last hlast).1)
        (hseqs.trans (hnew last hlast).2.1)
  · intro change hmem
    rcases List.mem_append.mp hmem with hold | hlast
    · exact h.known change hold
    · rw [(hnew change hlast).1]
      exact h.serials key registration hget
  · intro other found hfound hother change hmem heq
    rw [hpending] at hother
    have hne : other ≠ key := fun hsame => hnodup.1 (hsame ▸ hother)
    replace hfound := (hgets other).symm.trans hfound
    rw [if_neg hne] at hfound
    rcases List.mem_append.mp hmem with hold | hlast
    · exact h.early other found hfound (htail hother) change hold heq
    · refine absurd (h.distinct key other registration found hget hfound ?_) (Ne.symm hne)
      rw [← heq, (hnew change hlast).1]
  · exact h.cuts

end Tracks

end Harness.Projection
