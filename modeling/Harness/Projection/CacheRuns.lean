import Harness.Projection.CacheSound

namespace Harness.Projection

open Harness.Foundation

variable {State Data View : Type}

namespace CachedSession

variable (state : CachedSession State Data View)

def current : List Data :=
  if state.residency = .cold then state.stored else state.session.log

def heldRecords : List (CheckpointRecord State) :=
  state.record.toList ++ state.reads.filterMap (·.record)

def anchored (read : ColdRead State) : Prop :=
  match read.floor with
  | some floor => Anchored state.session.definitions (rowsOf read.record) floor state.stored
  | none => True

instance decidableAnchored (definitions : List (ProjectionDefinition State Data View))
    (rows : ProjectionCheckpoint State) (floor : Nat) (log : List Data) :
    Decidable (Anchored definitions rows floor log) :=
  inferInstanceAs (Decidable (_ → _))

instance decidableAnchoredRead (read : ColdRead State) : Decidable (state.anchored read) := by
  unfold anchored
  split <;> infer_instance

def refolded (read : ColdRead State) : Except String (Restored State Data View) :=
  match read.floor with
  | some _ => refold state.session.definitions state.stored state.seedLength
  | none => .ok (restoredOf (state.stored.length - 1) [])

end CachedSession

/-- The stored log never grows over the watermark of a row that a crash left ahead of it, no unit
registered under way makes a row below the floor the end of a shorter log, and the registry is
left in peace. -/
def Steady (state : CachedSession State Data View) : CacheOp State Data View → Prop
  | .project op => Undisturbed state.session op
  | .write => ∀ key ∈ state.session.registrations.keys, isReadable state.session key = true
  | .openSession => state.seedLength ≤ state.stored.length
  | .persist count => ∀ record ∈ state.heldRecords, record.identity = state.identity →
      record.epoch ≠ state.epoch → ∀ entry ∈ record.rows.entries,
        (state.stored.length : Int) ≤ entry.2.seq → (count : Int) ≤ entry.2.seq
  | .finishCold index => ∀ read ∈ state.reads[index]?, state.anchored read
  | _ => True

instance decidableSteady (state : CachedSession State Data View)
    (op : CacheOp State Data View) : Decidable (Steady state op) := by
  cases op <;> unfold Steady <;> infer_instance

def Fresh (units : Catalogue State Data View) (seedLength : Nat) (log : List Data)
    (rows : ProjectionCheckpoint State) : Prop :=
  ∀ key row, rows.get? key = some row →
    row.seq < log.length ∧ RowHolds units seedLength log key row

/-- Rows of this lifetime are folds of its log; older ones, of what the stored log still has. -/
def RecordHolds (units : Catalogue State Data View) (state : CachedSession State Data View)
    (record : CheckpointRecord State) : Prop :=
  (record.epoch = state.epoch → Fresh units state.seedLength state.current record.rows) ∧
    RowsHold units state.seedLength state.stored record.rows

structure Consistent (units : Catalogue State Data View) (state : CachedSession State Data View) :
    Prop where
  tracks : Tracks state.session
  catalogued : ∀ key registration, state.session.registrations.get? key = some registration →
    units.Holds registration.definition ∧ registration.definition.key = key
  header : state.residency ≠ .cold → state.session.seedLength = state.seedLength
  extends_ : state.residency ≠ .cold → state.stored <+: state.session.log
  durable : state.durable ≤ state.stored.length
  writes : ∀ pending ∈ state.writes, Fresh units state.seedLength state.current pending.rows
  past : ∀ record ∈ state.heldRecords, record.epoch ≤ state.epoch
  records : ∀ record ∈ state.heldRecords, record.identity = state.identity →
    RecordHolds units state record

section Grow

variable {units : Catalogue State Data View} {seedLength : Nat} {log longer : List Data}
  {key : String} {row : ProjectionCheckpointRow State} {rows : ProjectionCheckpoint State}

theorem take_of_front (h : log <+: longer) {n : Nat} (hn : n ≤ log.length) :
    longer.take n = log.take n := by
  obtain ⟨rest, rfl⟩ := h
  exact List.take_append_of_le_length hn

theorem rowHolds_of_front (h : log <+: longer) (hseq : row.seq < log.length) :
    RowHolds units seedLength longer key row ↔ RowHolds units seedLength log key row := by
  have hlength := h.length_le
  unfold RowHolds
  constructor
  · rintro ⟨hlow, hfolds⟩
    refine ⟨hlow, fun hlt => ?_⟩
    have := hfolds (by omega)
    rwa [take_of_front h (by omega)] at this
  · rintro ⟨hlow, hfolds⟩
    refine ⟨hlow, fun _ => ?_⟩
    rw [take_of_front h (by omega)]
    exact hfolds hseq

theorem Fresh.grow (hfresh : Fresh units seedLength log rows) (h : log <+: longer) :
    Fresh units seedLength longer rows := by
  intro key row hget
  obtain ⟨hseq, hholds⟩ := hfresh key row hget
  have hlength := h.length_le
  exact ⟨by omega, (rowHolds_of_front h hseq).mpr hholds⟩

theorem Fresh.shrink (hfresh : Fresh units seedLength longer rows) (h : log <+: longer) :
    RowsHold units seedLength log rows := by
  intro key row hget
  obtain ⟨hseq, hlow, hfolds⟩ := hfresh key row hget
  refine ⟨hlow, fun hlt => ?_⟩
  rw [← take_of_front h (by omega)]
  exact hfolds hseq

theorem RowsHold.shrink (hrows : RowsHold units seedLength longer rows) (h : log <+: longer) :
    RowsHold units seedLength log rows := by
  intro key row hget
  obtain ⟨hlow, hfolds⟩ := hrows key row hget
  have hlength := h.length_le
  refine ⟨hlow, fun hlt => ?_⟩
  rw [← take_of_front h (by omega)]
  exact hfolds (by omega)

end Grow

structure Onward (session after : ProjectedSession State Data View)
    (added : Option (ProjectionDefinition State Data View)) : Prop where
  log : session.log <+: after.log
  seedLength : after.seedLength = session.seedLength
  definitions : ∀ key registration, after.registrations.get? key = some registration →
    (∃ old, session.registrations.get? key = some old ∧
      registration.definition = old.definition) ∨
        added = some registration.definition ∧ registration.definition.key = key

namespace Onward

variable {session after : ProjectedSession State Data View}
  {added : Option (ProjectionDefinition State Data View)}

theorem of_same (hlog : session.log <+: after.log) (hseed : after.seedLength = session.seedLength)
    (hregistrations : after.registrations = session.registrations) : Onward session after added where
  log := hlog
  seedLength := hseed
  definitions _ registration hget := .inl ⟨registration, hregistrations ▸ hget, rfl⟩

theorem of_set {key : String} {registration changed : Registration State Data View}
    (hlog : after.log = session.log) (hseed : after.seedLength = session.seedLength)
    (hget : session.registrations.get? key = some registration)
    (hset : after.registrations = session.registrations.set key changed)
    (hdefinition : changed.definition = registration.definition) : Onward session after added where
  log := hlog ▸ List.prefix_rfl
  seedLength := hseed
  definitions other found hfound := by
    rw [hset, OrderedMap.get?_set] at hfound
    split at hfound
    · rename_i heq
      cases hfound
      exact .inl ⟨registration, heq ▸ hget, hdefinition⟩
    · exact .inl ⟨found, hfound, rfl⟩

theorem of_readOnly (h : ReadOnly session after) : Onward session after added where
  log := h.feed.log ▸ List.prefix_rfl
  seedLength := h.feed.seedLength
  definitions key registration hget := by
    obtain ⟨old, hold, hdefinition, -⟩ := h.feed.registrations key registration hget
    exact .inl ⟨old, hold, hdefinition⟩

theorem register {definition : ProjectionDefinition State Data View}
    (h : session.register definition = .ok after) : Onward session after (some definition) := by
  unfold ProjectedSession.register at h
  split at h
  · cases h
  · split at h
    · cases h
      refine ⟨List.prefix_rfl, rfl, fun key registration hget => ?_⟩
      rw [OrderedMap.get?_set] at hget
      split at hget
      · rename_i heq
        cases hget
        exact .inr ⟨rfl, heq.symm⟩
      · exact .inl ⟨registration, hget, rfl⟩
    · rename_i existing hexisting
      split at h
      · cases h
      · cases h
        exact of_set rfl rfl hexisting rfl rfl

theorem dispose (key : String) : Onward session (session.dispose key) added := by
  unfold ProjectedSession.dispose
  split
  · exact of_same List.prefix_rfl rfl rfl
  · rename_i live hlive
    split
    · refine ⟨List.prefix_rfl, rfl, fun other registration hget => ?_⟩
      rw [OrderedMap.get?_delete] at hget
      split at hget
      · cases hget
      · exact .inl ⟨registration, hget, rfl⟩
    · exact of_set rfl rfl hlive rfl rfl

theorem driveNext (h : session.driveNext = some after) :
    Onward session after added := by
  unfold ProjectedSession.driveNext at h
  split at h
  · split at h
    · rename_i registration data hget _
      dsimp only at h
      split at h
      · cases h
        unfold ProjectedSession.abandon
        split
        · exact of_same List.prefix_rfl rfl rfl
        · exact of_set rfl rfl hget rfl rfl
      · split at h
        · cases h
          exact of_set rfl rfl hget rfl rfl
        · cases h
          exact of_set rfl rfl hget rfl rfl
    · cases h
      exact of_same List.prefix_rfl rfl rfl
  · cases h

theorem step {op : ProjectionOp State Data View} (htracks : Tracks session)
    (hguard : Undisturbed session op) (hop : CachedSession.isRegister op = false)
    (h : session.step op = some after) : Onward session after added := by
  cases op with
  | commit data =>
    simp only [ProjectedSession.step, ProjectedSession.commit] at h
    split at h
    · cases h
      exact of_same (List.prefix_append _ _) rfl rfl
    · cases h
  | startDrive =>
    simp only [ProjectedSession.step, ProjectedSession.startDrive] at h
    split at h
    · cases h
      exact of_same List.prefix_rfl rfl rfl
    · cases h
  | driveNext => exact driveNext h
  | tell =>
    simp only [ProjectedSession.step, ProjectedSession.tell] at h
    split at h
    · cases h
      exact of_same List.prefix_rfl rfl rfl
    · cases h
  | told =>
    simp only [ProjectedSession.step, ProjectedSession.told] at h
    split at h
    · cases h
      exact of_same List.prefix_rfl rfl rfl
    · cases h
  | listenerThrows =>
    simp only [ProjectedSession.step, ProjectedSession.listenerThrows] at h
    split at h
    · cases h
    · cases h
      exact of_same List.prefix_rfl rfl rfl
  | finish =>
    simp only [ProjectedSession.step, ProjectedSession.finish] at h
    split at h
    · cases h
      exact of_same List.prefix_rfl rfl rfl
    · cases h
  | register definition => cases hop
  | dispose key =>
    cases h
    exact dispose key
  | onChanged listener =>
    cases h
    unfold ProjectedSession.onChanged
    split <;> exact of_same List.prefix_rfl rfl rfl
  | offChanged listener =>
    cases h
    exact of_same List.prefix_rfl rfl rfl
  | stateOf key =>
    cases h
    exact of_readOnly (stateOf_readOnly htracks (readable_of hguard))
  | snapshot =>
    cases h
    have hread : ReadOnly session session.snapshot.1 :=
      visit_readOnly htracks fun key hkey _ _ _ => hguard key hkey
    unfold ProjectedSession.readSnapshot
    split
    · rename_i found snapshot hsnapshot
      rw [show session.snapshot.1 = found from congrArg Prod.fst hsnapshot] at hread
      have honward : Onward session found added := of_readOnly hread
      exact ⟨honward.log, honward.seedLength, honward.definitions⟩
    · rename_i found message hsnapshot
      rw [show session.snapshot.1 = found from congrArg Prod.fst hsnapshot] at hread
      exact of_readOnly hread
  | checkpoint =>
    cases h
    exact of_readOnly (visit_readOnly htracks fun key hkey => readable_of (hguard key hkey))

end Onward

theorem tracks_reenter {session : ProjectedSession State Data View} (h : Tracks session)
    {log : List Data} {seedLength : Nat} (hseed : seedLength ≤ log.length) :
    Tracks (session.reenter log seedLength) := by
  have hget : ∀ key registration,
      (session.reenter log seedLength).registrations.get? key = some registration →
        ∃ old, session.registrations.get? key = some old ∧ registration.cell = none ∧
          registration.serial = old.serial := by
    intro key registration hfound
    rw [ProjectedSession.reenter, OrderedMap.get?_mapValues] at hfound
    obtain ⟨old, hold, rfl⟩ := Option.map_eq_some_iff.mp hfound
    exact ⟨old, hold, rfl, rfl⟩
  constructor
  · exact hseed
  · exact fun hne => absurd rfl hne
  · exact List.nodup_nil
  · exact fun _ hmem => absurd hmem List.not_mem_nil
  · intro key registration cell hfound hcell
    obtain ⟨-, -, hnone, -⟩ := hget key registration hfound
    rw [hnone] at hcell
    cases hcell
  · intro key registration hfound
    obtain ⟨old, hold, -, hserial⟩ := hget key registration hfound
    rw [hserial]
    exact h.serials key old hold
  · intro key other registration same hfound hsame heq
    obtain ⟨old, hold, -, hserial⟩ := hget key registration hfound
    obtain ⟨old', hold', -, hserial'⟩ := hget other same hsame
    exact h.distinct key other old old' hold hold' (by rw [← hserial, ← hserial', heq])
  · exact fun _ hmem => absurd hmem List.not_mem_nil
  · exact List.nodup_nil
  · exact fun _ hmem => absurd hmem List.not_mem_nil
  · exact fun _ _ _ hmem => absurd hmem List.not_mem_nil
  · exact fun _ hmem => absurd hmem List.not_mem_nil

namespace Consistent

variable {units : Catalogue State Data View} {state after : CachedSession State Data View}

theorem stored_current (h : Consistent units state) : state.stored <+: state.current := by
  unfold CachedSession.current
  split
  · exact List.prefix_rfl
  · exact h.extends_ ‹_›

theorem definitions_hold (h : Consistent units state) :
    ∀ definition ∈ state.session.definitions, units.Holds definition := by
  intro definition hmem
  obtain ⟨registration, hregistration, rfl⟩ := List.mem_map.mp hmem
  obtain ⟨key, hget⟩ := OrderedMap.mem_values_iff.mp hregistration
  exact (h.catalogued key registration hget).1

theorem carry (h : Consistent units state) (hidentity : after.identity = state.identity)
    (hseed : after.seedLength = state.seedLength) (hepoch : after.epoch = state.epoch)
    (htracks : Tracks after.session)
    (hunits : ∀ key registration, after.session.registrations.get? key = some registration →
      units.Holds registration.definition ∧ registration.definition.key = key)
    (hheader : after.residency ≠ .cold → after.session.seedLength = after.seedLength)
    (hextends : after.residency ≠ .cold → after.stored <+: after.session.log)
    (hdurable : after.durable ≤ after.stored.length) (hcurrent : state.current <+: after.current)
    (hstored : after.stored = state.stored)
    (hwrites : ∀ pending ∈ after.writes, pending ∈ state.writes ∨
      Fresh units state.seedLength after.current pending.rows)
    (hrecords : ∀ record ∈ after.heldRecords, record ∈ state.heldRecords) :
    Consistent units after where
  tracks := htracks
  catalogued := hunits
  header := hheader
  extends_ := hextends
  durable := hdurable
  writes := by
    intro pending hmem
    rw [hseed]
    rcases hwrites pending hmem with hold | hnew
    · exact (h.writes pending hold).grow hcurrent
    · exact hnew
  past := fun record hmem => hepoch ▸ h.past record (hrecords record hmem)
  records := by
    intro record hmem hid
    obtain ⟨hfresh, hrows⟩ := h.records record (hrecords record hmem) (hid.trans hidentity)
    unfold RecordHolds
    rw [hepoch, hseed, hstored]
    exact ⟨fun heq => (hfresh heq).grow hcurrent, hrows⟩

theorem onward (h : Consistent units state) {session : ProjectedSession State Data View}
    {added : Option (ProjectionDefinition State Data View)} (htracks : Tracks session)
    (honward : Onward state.session session added)
    (hadded : ∀ definition, added = some definition → units.Holds definition)
    {writes : List (PendingWrite State)}
    (hwrites : ∀ pending ∈ writes, pending ∈ state.writes ∨
      Fresh units state.seedLength state.current pending.rows) :
    Consistent units { state with session, writes } := by
  have hcurrent : state.current <+: { state with session, writes }.current := by
    unfold CachedSession.current
    dsimp only
    split
    · exact List.prefix_rfl
    · exact honward.log
  refine h.carry rfl rfl rfl htracks ?_ ?_ ?_ h.durable hcurrent rfl ?_ fun _ hmem => hmem
  · intro key registration hget
    rcases honward.definitions key registration hget with ⟨old, hold, heq⟩ | ⟨heq, hkey⟩
    · rw [heq]
      exact h.catalogued key old hold
    · exact ⟨hadded _ heq, hkey⟩
  · intro hwarm
    exact honward.seedLength.trans (h.header hwarm)
  · intro hwarm
    exact (h.extends_ hwarm).trans honward.log
  · intro pending hmem
    rcases hwrites pending hmem with hold | hnew
    · exact .inl hold
    · exact .inr (hnew.grow hcurrent)

theorem holds_unit (units : Catalogue State Data View) (name : String) (version : Int) :
    units.Holds (units.unit name version) := by
  rw [Catalogue.Holds, units.key, units.stateVersion]

theorem register (h : Consistent units state) {name : String} {version : Int}
    (hstep : state.register (units.unit name version) = some after) : Consistent units after := by
  obtain ⟨session, hsession, rfl⟩ := Option.map_eq_some_iff.mp hstep
  have htracks : Tracks session :=
    Tracks.step state.session (.register (units.unit name version)) session h.tracks trivial hsession
  unfold ProjectedSession.step at hsession
  dsimp only at hsession
  split at hsession
  · cases hsession
    refine h.onward htracks (Onward.register ‹_›) ?_ fun _ hmem => .inl hmem
    rintro definition ⟨⟩
    exact holds_unit units name version
  · cases hsession
    exact h

theorem dispose (h : Consistent units state) (key : String) : Consistent units (state.dispose key) :=
  h.onward (h.tracks.dispose key) (@Onward.dispose _ _ _ _ none key) nofun fun _ hmem => .inl hmem

theorem project (h : Consistent units state) {op : ProjectionOp State Data View}
    (hguard : Undisturbed state.session op) (hstep : state.project op = some after) :
    Consistent units after := by
  unfold CachedSession.project at hstep
  split at hstep
  · rename_i hop
    obtain ⟨session, hsession, rfl⟩ := Option.map_eq_some_iff.mp hstep
    exact h.onward (h.tracks.step _ _ _ hguard hsession)
      (@Onward.step _ _ _ _ _ none _ h.tracks hguard hop.1 hsession) nofun fun _ hmem => .inl hmem
  · cases hstep

theorem foldedLog_take (session : ProjectedSession State Data View) (key : String) :
    session.log.take (session.foldedLog key).length = session.foldedLog key := by
  unfold ProjectedSession.foldedLog
  split
  · rw [List.dropLast_eq_take, List.length_take, Nat.min_eq_left (Nat.sub_le _ _)]
  · exact List.take_length

theorem foldedLog_length (session : ProjectedSession State Data View) (key : String) :
    (session.foldedLog key).length ≤ session.log.length := by
  unfold ProjectedSession.foldedLog
  split
  · rw [List.length_dropLast]
    exact Nat.sub_le _ _
  · exact Nat.le_refl _

theorem fresh_checkpoint (h : Consistent units state)
    (hguard : ∀ key ∈ state.session.registrations.keys, isReadable state.session key = true)
    (hwarm : state.residency ≠ .cold) {rows : ProjectionCheckpoint State}
    (hrows : state.session.checkpoint.2 = .ok rows) :
    Fresh units state.seedLength state.current rows := by
  obtain ⟨entries, hentries, rfl⟩ := map_eq_ok.mp hrows
  intro key row hget
  have hcurrent : state.current = state.session.log := if_neg hwarm
  rw [hcurrent]
  rcases OrderedMap.mem_entries_insertAll (OrderedMap.mem_entries_iff.mpr hget) with hnone | hmem
  · exact absurd hnone List.not_mem_nil
  · obtain ⟨name, -, registration, cell, hfolds, hrow, old, hold, hsame⟩ :=
      visit_values h.tracks (fun key hkey => readable_of (hguard key hkey)) hentries _ hmem
    cases hrow
    obtain ⟨hunit, -⟩ := h.catalogued name old hold
    rw [← hsame] at hunit
    have hobserved := (folds_iff.mp hfolds).2
    have hlength := foldedLog_length state.session name
    have hcount : (cell.observedSeq + 1).toNat = (state.session.foldedLog name).length := by omega
    refine ⟨by dsimp only; omega, by dsimp only; omega, fun _ => ?_⟩
    dsimp only
    rw [hcount, foldedLog_take, ← hunit, ← h.header hwarm]
    exact hfolds

theorem write (h : Consistent units state)
    (hguard : ∀ key ∈ state.session.registrations.keys, isReadable state.session key = true)
    (hstep : state.write = some after) : Consistent units after := by
  have hread : ReadOnly state.session state.session.checkpoint.1 :=
    visit_readOnly h.tracks fun key hkey => readable_of (hguard key hkey)
  unfold CachedSession.write at hstep
  split at hstep
  · cases hstep
  · rename_i hwarm
    split at hstep
    · rename_i session message hcheckpoint
      rw [show state.session.checkpoint.1 = session from congrArg Prod.fst hcheckpoint] at hread
      cases hstep
      exact h.onward (hread.tracks h.tracks) (@Onward.of_readOnly _ _ _ _ _ none hread) nofun
        fun _ hmem => .inl hmem
    · rename_i session rows hcheckpoint
      rw [show state.session.checkpoint.1 = session from congrArg Prod.fst hcheckpoint] at hread
      have hfresh := h.fresh_checkpoint hguard hwarm (congrArg Prod.snd hcheckpoint)
      cases hstep
      apply h.onward (hread.tracks h.tracks) (@Onward.of_readOnly _ _ _ _ _ none hread) nofun
      intro pending hmem
      rcases List.mem_append.mp hmem with hold | hlast
      · exact .inl hold
      · rw [List.mem_singleton.mp hlast]
        exact .inr hfresh

theorem aside (h : Consistent units state) {writes : List (PendingWrite State)}
    {reads : List (ColdRead State)} {record : Option (CheckpointRecord State)}
    (hwrites : ∀ pending ∈ writes, pending ∈ state.writes ∨
      Fresh units state.seedLength state.current pending.rows)
    (hpast : ∀ held ∈ { state with writes, reads, record }.heldRecords, held.epoch ≤ state.epoch)
    (hrecords : ∀ held ∈ { state with writes, reads, record }.heldRecords,
      held.identity = state.identity → RecordHolds units state held) :
    Consistent units { state with writes, reads, record } where
  tracks := h.tracks
  catalogued := h.catalogued
  header := h.header
  extends_ := h.extends_
  durable := h.durable
  writes := fun pending hmem => (hwrites pending hmem).elim (h.writes pending) id
  past := hpast
  records := hrecords

theorem mem_held_reads {reads : List (ColdRead State)} {record : CheckpointRecord State}
    (hsub : ∀ read ∈ reads, read ∈ state.reads)
    (hmem : record ∈ { state with reads }.heldRecords) : record ∈ state.heldRecords := by
  rcases List.mem_append.mp hmem with htable | hread
  · exact List.mem_append_left _ htable
  · obtain ⟨read, hread, heq⟩ := List.mem_filterMap.mp hread
    exact List.mem_append_right _ (List.mem_filterMap.mpr ⟨read, hsub read hread, heq⟩)

theorem put (h : Consistent units state) {index : Nat} {lost : Bool}
    (hstep : state.put index lost = some after) : Consistent units after := by
  unfold CachedSession.put at hstep
  split at hstep
  · cases hstep
  · rename_i pending hpending
    have hfresh := h.writes pending (List.mem_of_getElem? hpending)
    have hrest : ∀ other ∈ state.writes.eraseIdx index, other ∈ state.writes ∨
        Fresh units state.seedLength state.current other.rows :=
      fun other hmem => .inl (List.mem_of_mem_eraseIdx hmem)
    dsimp only at hstep
    split at hstep
    · cases hstep
      exact h.aside hrest h.past h.records
    · split at hstep
      · cases hstep
        refine h.aside hrest (fun held hmem => ?_) fun held hmem hid => ?_
        · rcases List.mem_append.mp hmem with htable | hread
          · cases List.mem_singleton.mp htable
            exact Nat.le_refl _
          · exact h.past held (List.mem_append_right _ hread)
        · rcases List.mem_append.mp hmem with htable | hread
          · cases List.mem_singleton.mp htable
            exact ⟨fun _ => hfresh, hfresh.shrink h.stored_current⟩
          · exact h.records held (List.mem_append_right _ hread) hid
      · cases hstep

theorem beginCold (h : Consistent units state) : Consistent units state.beginCold := by
  suffices hheld : ∀ held ∈ state.beginCold.heldRecords, held ∈ state.heldRecords from
    h.aside (fun _ hmem => .inl hmem) (fun held hmem => h.past held (hheld held hmem))
      fun held hmem => h.records held (hheld held hmem)
  intro held hmem
  rcases List.mem_append.mp hmem with htable | hread
  · exact List.mem_append_left _ htable
  · have hreads : state.beginCold.reads = state.reads ++
        [⟨state.record, restoreFloor state.session.definitions (rowsOf state.record)⟩] := rfl
    rw [hreads, List.filterMap_append, List.mem_append] at hread
    rcases hread with hold | hlast
    · exact List.mem_append_right _ hold
    · obtain ⟨read, hread, heq⟩ := List.mem_filterMap.mp hlast
      rw [List.mem_singleton.mp hread] at heq
      exact List.mem_append_left _ (Option.mem_toList.mpr heq)

theorem coldAnswer_eq (h : Consistent units state) {read : ColdRead State}
    (hmem : read ∈ state.reads) (hanchored : state.anchored read) :
    state.coldAnswer read = state.refolded read := by
  unfold CachedSession.coldAnswer CachedSession.refolded
  unfold CachedSession.anchored at hanchored
  cases hfloor : read.floor with
  | none =>
    rw [readFrom, List.drop_zero, lastSeq_committed]
  | some floor =>
    rw [hfloor] at hanchored
    dsimp only
    rw [restore_whole]
    split
    · rename_i hrelated
      have hrows : RowsHold units state.seedLength state.stored (rowsOf read.record) := by
        cases hrecord : read.record with
        | none => exact fun _ _ hget => by cases hget
        | some record =>
          rw [ColdRead.isRelated, hrecord] at hrelated
          have hheld : record ∈ state.heldRecords :=
            List.mem_append_right _ (List.mem_filterMap.mpr ⟨read, hmem, hrecord⟩)
          exact (h.records record hheld (of_decide_eq_true hrelated)).2
      split
      · rename_i restored hrestored
        exact (restore_refold h.definitions_hold hrows hanchored hrestored).symm
      · rfl
    · rfl

theorem fresh_refold {definitions : List (ProjectionDefinition State Data View)} {log : List Data}
    {seedLength : Nat} {restored : Restored State Data View}
    (hunits : ∀ definition ∈ definitions, units.Holds definition)
    (hrefold : refold definitions log seedLength = .ok restored) :
    Fresh units seedLength log restored.checkpoint := by
  obtain ⟨made, hmade, heq⟩ := bind_eq_ok.mp hrefold
  cases heq
  intro key row hget
  rcases OrderedMap.mem_entries_insertAll (OrderedMap.mem_entries_iff.mpr hget) with hnone | hmem
  · exact absurd hnone List.not_mem_nil
  · obtain ⟨unit, hunit, hrow⟩ := List.mem_map.mp hmem
    obtain ⟨definition, hdefinition, hrefolded⟩ := mapM_mem_of_result hmade hunit
    obtain ⟨cell, hcell, hrestored⟩ := bind_eq_ok.mp hrefolded
    have hobserved := (folds_iff.mp hcell).2
    have hrows : unit.row = (definition.key, ⟨definition.stateVersion, cell.observedSeq, cell.state⟩) := by
      unfold ProjectionDefinition.restoredUnit at hrestored
      dsimp only at hrestored
      split at hrestored
      · cases hrestored
        rfl
      · obtain ⟨value, -, heq⟩ := bind_eq_ok.mp hrestored
        cases heq
        rfl
    rw [hrows] at hrow
    cases hrow
    have hcount : (cell.observedSeq + 1).toNat = log.length := by omega
    refine ⟨by dsimp only; omega, by dsimp only; omega, fun _ => ?_⟩
    dsimp only
    rw [hcount, List.take_length, ← hunits definition hdefinition]
    exact hcell

theorem finishCold (h : Consistent units state) {index : Nat}
    (hguard : ∀ read ∈ state.reads[index]?, state.anchored read)
    (hstep : state.finishCold index = some after) : Consistent units after := by
  unfold CachedSession.finishCold at hstep
  split at hstep
  · cases hstep
  · rename_i read hread
    have hmem := List.mem_of_getElem? hread
    have hanswer := h.coldAnswer_eq hmem (hguard read hread)
    have hheld : ∀ held ∈ { state with reads := state.reads.eraseIdx index }.heldRecords,
        held ∈ state.heldRecords := fun held hheld =>
      mem_held_reads (fun _ hmem => List.mem_of_mem_eraseIdx hmem) hheld
    have hpast : ∀ held ∈ { state with reads := state.reads.eraseIdx index }.heldRecords,
        held.epoch ≤ state.epoch := fun held hmem => h.past held (hheld held hmem)
    have hrecords : ∀ held ∈ { state with reads := state.reads.eraseIdx index }.heldRecords,
        held.identity = state.identity → RecordHolds units state held := fun held hmem =>
      h.records held (hheld held hmem)
    dsimp only at hstep
    split at hstep
    · rename_i floor restored hfloor hok
      cases hstep
      rw [hanswer, CachedSession.refolded, hfloor] at hok
      have hfresh := (fresh_refold h.definitions_hold hok).grow h.stored_current
      refine h.aside (fun pending hpending => ?_) hpast hrecords
      rcases List.mem_append.mp hpending with hold | hlast
      · exact .inl hold
      · rw [List.mem_singleton.mp hlast]
        exact .inr hfresh
    · cases hstep
      exact h.aside (fun _ hmem => .inl hmem) hpast hrecords

theorem persist (h : Consistent units state) {count : Nat}
    (hguard : ∀ record ∈ state.heldRecords, record.identity = state.identity →
      record.epoch ≠ state.epoch → ∀ entry ∈ record.rows.entries,
        (state.stored.length : Int) ≤ entry.2.seq → (count : Int) ≤ entry.2.seq)
    (hstep : state.persist count = some after) : Consistent units after := by
  unfold CachedSession.persist at hstep
  split at hstep
  · rename_i hcond
    obtain ⟨hwarm, hgrow, hcount⟩ := hcond
    cases hstep
    have hstored : state.stored <+: state.session.log.take count :=
      List.prefix_take_iff.mpr ⟨h.extends_ hwarm, hgrow⟩
    have hlength : (state.session.log.take count).length = count := by
      rw [List.length_take, Nat.min_eq_left hcount]
    have hcurrent : state.current = state.session.log := if_neg hwarm
    have hsame : { state with stored := state.session.log.take count }.current = state.current := by
      rw [hcurrent]
      exact if_neg hwarm
    refine ⟨h.tracks, h.catalogued, h.header, fun _ => List.take_prefix _ _, ?_, ?_, h.past, ?_⟩
    · rw [hlength]
      exact Nat.le_trans h.durable hgrow
    · rw [hsame]
      exact h.writes
    · intro record hmem hid
      obtain ⟨hfresh, hrows⟩ := h.records record hmem hid
      refine ⟨fun heq => hsame ▸ hfresh heq, fun key row hget => ?_⟩
      obtain ⟨hlow, hfolds⟩ := hrows key row hget
      by_cases hepoch : record.epoch = state.epoch
      · have hshrunk := (hfresh hepoch).shrink
          (show state.session.log.take count <+: state.current from hcurrent ▸ List.take_prefix _ _)
        exact hshrunk key row hget
      · refine ⟨hlow, fun hlt => ?_⟩
        rw [hlength] at hlt
        have hcovered : row.seq < state.stored.length := by
          by_contra hahead
          have hshort : (count : Int) ≤ row.seq := hguard record hmem hid hepoch _
            (OrderedMap.mem_entries_iff.mpr hget) (Int.not_lt.mp hahead)
          omega
        exact ((rowHolds_of_front hstored hcovered).mpr ⟨hlow, hfolds⟩).2 (by rw [hlength]; omega)
  · cases hstep

theorem sync (h : Consistent units state) {count : Nat} (hstep : state.sync count = some after) :
    Consistent units after := by
  unfold CachedSession.sync at hstep
  split at hstep
  · rename_i hcond
    cases hstep
    exact ⟨h.tracks, h.catalogued, h.header, h.extends_, hcond.2, h.writes, h.past, h.records⟩
  · cases hstep

theorem detach (h : Consistent units state) (hstep : state.detach = some after) :
    Consistent units after := by
  unfold CachedSession.detach at hstep
  split at hstep
  · rename_i hcond
    cases hstep
    have hwarm : state.residency ≠ .cold := by rw [hcond.1]; nofun
    have hsame : { state with residency := .draining }.current = state.current := by
      rw [show state.current = state.session.log from if_neg hwarm]
      exact if_neg nofun
    refine h.carry rfl rfl rfl h.tracks h.catalogued (fun _ => h.header hwarm)
      (fun _ => h.extends_ hwarm) h.durable ?_ rfl (fun _ hmem => .inl hmem) fun _ hmem => hmem
    exact hsame ▸ List.prefix_rfl
  · cases hstep

theorem drained (h : Consistent units state) (hstep : state.drained = some after) :
    Consistent units after := by
  unfold CachedSession.drained at hstep
  split at hstep
  · rename_i hcond
    cases hstep
    have hwarm : state.residency ≠ .cold := by rw [hcond.1]; nofun
    have hall : state.stored = state.session.log := (h.extends_ hwarm).eq_of_length hcond.2
    have hsame : { state with residency := .cold }.current = state.current := by
      rw [show state.current = state.session.log from if_neg hwarm, ← hall]
      exact if_pos rfl
    refine h.carry rfl rfl rfl h.tracks h.catalogued (fun hne => absurd rfl hne)
      (fun hne => absurd rfl hne) h.durable ?_ rfl (fun _ hmem => .inl hmem) fun _ hmem => hmem
    exact hsame ▸ List.prefix_rfl
  · cases hstep

theorem openSession (h : Consistent units state) (hguard : state.seedLength ≤ state.stored.length)
    (hstep : state.openSession = some after) : Consistent units after := by
  unfold CachedSession.openSession at hstep
  split at hstep
  · rename_i hcold
    cases hstep
    refine h.carry rfl rfl rfl (tracks_reenter h.tracks hguard) ?_ (fun _ => rfl)
      (fun _ => List.prefix_rfl) h.durable ?_ rfl (fun _ hmem => .inl hmem) fun _ hmem => hmem
    · intro key registration hget
      rw [ProjectedSession.reenter, OrderedMap.get?_mapValues] at hget
      obtain ⟨old, hold, rfl⟩ := Option.map_eq_some_iff.mp hget
      exact h.catalogued key old hold
    · rw [show state.current = state.stored from if_pos hcold]
      exact List.prefix_rfl
  · cases hstep

theorem crash (h : Consistent units state) {count : Nat} (hstep : state.crash count = some after) :
    Consistent units after := by
  unfold CachedSession.crash at hstep
  split at hstep
  · rename_i hcond
    cases hstep
    have hfront : state.stored.take count <+: state.stored := List.take_prefix _ _
    have hheld : ∀ record ∈ { state with
        residency := .cold
        stored := state.stored.take count
        writes := []
        reads := []
        epoch := state.epoch + 1 }.heldRecords, record ∈ state.heldRecords := by
      intro record hmem
      rcases List.mem_append.mp hmem with htable | hread
      · exact List.mem_append_left _ htable
      · exact absurd hread List.not_mem_nil
    refine ⟨h.tracks, h.catalogued, fun hne => absurd rfl hne, fun hne => absurd rfl hne, ?_,
      fun _ hmem => absurd hmem List.not_mem_nil, ?_, ?_⟩
    · rw [List.length_take, Nat.min_eq_left hcond.2]
      exact hcond.1
    · intro record hmem
      exact Nat.le_succ_of_le (h.past record (hheld record hmem))
    · intro record hmem hid
      refine ⟨fun heq => ?_, (h.records record (hheld record hmem) hid).2.shrink hfront⟩
      exact absurd heq (Nat.ne_of_lt (Nat.lt_succ_of_le (h.past record (hheld record hmem))))
  · cases hstep

theorem step (h : Consistent units state) (op : CacheOp State Data View)
    (hguard : Steady state op) (hstep : state.step units op = some after) :
    Consistent units after := by
  cases op with
  | register name version => exact h.register hstep
  | dispose key =>
    cases hstep
    exact h.dispose key
  | project op => exact h.project hguard hstep
  | openSession => exact h.openSession hguard hstep
  | detach => exact h.detach hstep
  | drained => exact h.drained hstep
  | persist count => exact h.persist hguard hstep
  | sync count => exact h.sync hstep
  | write => exact h.write hguard hstep
  | put index lost => exact h.put hstep
  | beginCold =>
    cases hstep
    exact h.beginCold
  | finishCold index => exact h.finishCold hguard hstep
  | crash count => exact h.crash hstep

end Consistent

def Unrelated (identity : CheckpointIdentity) (record : Option (CheckpointRecord State)) : Prop :=
  ∀ held ∈ record, held.identity ≠ identity ∧ held.epoch = 0

theorem consistent_stored {units : Catalogue State Data View} {identity : CheckpointIdentity}
    {seedLength : Nat} {log : List Data} {record : Option (CheckpointRecord State)}
    (hrecord : Unrelated identity record) :
    Consistent units (.stored_ identity seedLength log record) := by
  have hheld : ∀ held ∈
      (.stored_ identity seedLength log record : CachedSession State Data View).heldRecords,
      held ∈ record := by
    intro held hmem
    rcases List.mem_append.mp hmem with htable | hread
    · exact Option.mem_toList.mp htable
    · exact absurd hread List.not_mem_nil
  constructor
  · exact tracks_entered (Nat.zero_le 0)
  · exact fun _ _ hget => nomatch hget
  · exact fun hne => absurd rfl hne
  · exact fun hne => absurd rfl hne
  · exact Nat.le_refl _
  · exact fun _ hmem => absurd hmem List.not_mem_nil
  · intro held hmem
    rw [(hrecord held (hheld held hmem)).2]
    exact Nat.zero_le _
  · exact fun held hmem hid => absurd hid (hrecord held (hheld held hmem)).1

structure Truthful (units : Catalogue State Data View) (state : CachedSession State Data View) :
    Prop where
  answers : ∀ read ∈ state.reads, state.anchored read → state.coldAnswer read = state.refolded read
  writes : ∀ pending ∈ state.writes, Fresh units state.seedLength state.current pending.rows
  record : ∀ held ∈ state.record, held.identity = state.identity →
    RowsHold units state.seedLength state.stored held.rows

theorem Consistent.truthful {units : Catalogue State Data View}
    {state : CachedSession State Data View} (h : Consistent units state) : Truthful units state where
  answers := fun _ hmem hanchored => h.coldAnswer_eq hmem hanchored
  writes := h.writes
  record := fun held hmem hid =>
    (h.records held (List.mem_append_left _ (Option.mem_toList.mpr hmem)) hid).2

/-- In every steady run, cold reads answer the refold of the stored log, and what is written back
is a fold of it. -/
theorem coldReads_refold {units : Catalogue State Data View} {identity : CheckpointIdentity}
    {seedLength : Nat} {log : List Data} {record : Option (CheckpointRecord State)}
    {ops : List (CacheOp State Data View)} {state : CachedSession State Data View}
    (hrecord : Unrelated identity record)
    (hrun : run (CachedSession.step units) (.stored_ identity seedLength log record) ops = some state)
    (hguard : Along (CachedSession.step units) Steady (.stored_ identity seedLength log record) ops) :
    Truthful units state :=
  (run_invariant_along (Consistent units)
    (fun _ op _ hinv hsteady hstep => hinv.step op hsteady hstep) hrun hguard
    (consistent_stored hrecord)).truthful

def collectors : Catalogue (List Nat) Nat (List Nat) where
  unit := fun name version => { collector name with stateVersion := version }
  key := fun _ _ => rfl
  stateVersion := fun _ _ => rfl
  parse := fun _ _ _ _ h => (Except.ok.inj h).symm

def emptyStore : CachedSession (List Nat) Nat (List Nat) := .stored_ ⟨0, none⟩ 0 [] none

def detachRun : List (CacheOp (List Nat) Nat (List Nat)) :=
  [.register "first" 1, .openSession, .project (.commit 7), .project .startDrive,
    .project .driveNext, .project .finish, .persist 1, .sync 1, .detach, .write, .drained,
    .put 0 false, .register "second" 1, .beginCold]

def detachEnd : CachedSession (List Nat) Nat (List Nat) :=
  (run (CachedSession.step collectors) emptyStore detachRun).get (by decide +kernel)

theorem detachRun_refold : Truthful collectors detachEnd :=
  coldReads_refold (fun _ hmem => absurd hmem (Option.not_mem_none _)) (Option.some_get _).symm
    (by decide +kernel : Along (CachedSession.step collectors) Steady emptyStore detachRun)

/-- A record is put at detach, its event is lost, another one takes its place, and the process dies
before the next checkpoint. -/
def overreachRun : List (CacheOp (List Nat) Nat (List Nat)) :=
  [.register "first" 1, .openSession, .project (.commit 1), .project .startDrive,
    .project .driveNext, .project .finish, .detach, .write, .put 0 false, .crash 0,
    .openSession, .project (.commit 2), .project .startDrive, .project .driveNext,
    .project .finish, .persist 1, .sync 1, .crash 1, .beginCold]

def overreachEnd : CachedSession (List Nat) Nat (List Nat) :=
  (run (CachedSession.step collectors) emptyStore overreachRun).get (by decide +kernel)

def overreachRead : ColdRead (List Nat) :=
  overreachEnd.reads[0]?.get (by decide +kernel)

def answered (answer : Except String (Restored (List Nat) Nat (List Nat))) : List (List Nat) :=
  match answer with
  | .ok restored => restored.snapshot.values.map (·.2)
  | .error _ => []

theorem overreachRun_serves : ¬ ∀ state : CachedSession (List Nat) Nat (List Nat),
    run (CachedSession.step collectors) emptyStore overreachRun = some state →
      Truthful collectors state := by
  intro h
  have htruthful := h overreachEnd (Option.some_get _).symm
  have hmem : overreachRead ∈ overreachEnd.reads :=
    List.mem_of_getElem? (Option.some_get _).symm
  have hanchored : overreachEnd.anchored overreachRead := by decide +kernel
  have hanswer := congrArg answered (htruthful.answers overreachRead hmem hanchored)
  have hserved : answered (overreachEnd.coldAnswer overreachRead) = [[1]] := by decide +kernel
  have hrefold : answered (overreachEnd.refolded overreachRead) = [[2]] := by decide +kernel
  rw [hserved, hrefold] at hanswer
  exact absurd hanswer (by decide)

end Harness.Projection
