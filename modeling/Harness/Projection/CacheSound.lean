import Harness.Projection.Cache

namespace Harness.Projection

open Harness.Foundation

variable {State Data View : Type}

theorem getElem?_committed (log : List Data) (n : Nat) :
    (committed log)[n]? = log[n]?.map fun data => ⟨n, data⟩ := by
  rw [committed, List.getElem?_map, List.getElem?_zipIdx, Option.map_map]
  cases log[n]? with
  | none => rfl
  | some data => simp

theorem seq_of_mem_take {log : List Data} {n : Nat} {event : CommittedEvent Data}
    (h : event ∈ (committed log).take n) : event.seq < n := by
  obtain ⟨i, hi, heq⟩ := List.mem_iff_getElem.mp h
  have hget := List.getElem?_eq_getElem hi
  rw [heq, List.getElem?_take_of_lt (by rw [List.length_take] at hi; omega), getElem?_committed] at hget
  obtain ⟨data, -, rfl⟩ := Option.map_eq_some_iff.mp hget
  rw [List.length_take] at hi
  exact Nat.lt_of_lt_of_le hi (Nat.min_le_left _ _)

theorem seq_of_mem_drop {log : List Data} {n : Nat} {event : CommittedEvent Data}
    (h : event ∈ (committed log).drop n) : n ≤ event.seq := by
  obtain ⟨i, hi, heq⟩ := List.mem_iff_getElem.mp h
  have hget := List.getElem?_eq_getElem hi
  rw [heq, List.getElem?_drop, getElem?_committed] at hget
  obtain ⟨data, -, rfl⟩ := Option.map_eq_some_iff.mp hget
  exact Nat.le_add_right n i

theorem filter_readFrom (log : List Data) {floor n : Nat} {fromSeq : Int} (hfloor : floor ≤ n)
    (hn : (n : Int) = fromSeq + 1) :
    (readFrom log floor).filter (fun event => decide (fromSeq < event.seq)) =
      (committed log).drop n := by
  have hsplit : readFrom log floor =
      ((committed log).drop floor).take (n - floor) ++ (committed log).drop n := by
    conv_lhs => rw [readFrom, ← List.take_append_drop (n - floor) ((committed log).drop floor)]
    rw [List.drop_drop, Nat.add_sub_cancel' hfloor]
  have hfront : (((committed log).drop floor).take (n - floor)).filter
      (fun event => decide (fromSeq < event.seq)) = [] := by
    apply List.filter_eq_nil_iff.mpr
    intro event hmem
    rw [List.take_drop, Nat.add_sub_cancel' hfloor] at hmem
    have := seq_of_mem_take (List.mem_of_mem_drop hmem)
    simp only [decide_eq_true_eq]
    omega
  have hback : ((committed log).drop n).filter (fun event => decide (fromSeq < event.seq)) =
      (committed log).drop n := by
    apply List.filter_eq_self.mpr
    intro event hmem
    have := seq_of_mem_drop hmem
    simp only [decide_eq_true_eq]
    omega
  rw [hsplit, List.filter_append, hfront, hback, List.nil_append]

def Catalogue.Holds (units : Catalogue State Data View)
    (definition : ProjectionDefinition State Data View) : Prop :=
  definition = units.unit definition.key definition.stateVersion

/-- A row is the fold of the events up to its watermark, as far as the log has them. -/
def RowHolds (units : Catalogue State Data View) (seedLength : Nat) (log : List Data) (key : String)
    (row : ProjectionCheckpointRow State) : Prop :=
  -1 ≤ row.seq ∧ (row.seq < log.length →
    Folds (units.unit key row.ver) seedLength (log.take (row.seq + 1).toNat) ⟨row.val, row.seq⟩)

def RowsHold (units : Catalogue State Data View) (seedLength : Nat) (log : List Data)
    (rows : ProjectionCheckpoint State) : Prop :=
  ∀ key row, rows.get? key = some row → RowHolds units seedLength log key row

def refoldUnit (log : List Data) (seedLength : Nat)
    (definition : ProjectionDefinition State Data View) :
    Except String (RestoredUnit State Data View) := do
  let cell ← definition.buildCell (committed log) seedLength
  definition.restoredUnit cell.state cell.observedSeq

def refold (definitions : List (ProjectionDefinition State Data View)) (log : List Data)
    (seedLength : Nat) : Except String (Restored State Data View) := do
  let units ← definitions.mapM (refoldUnit log seedLength)
  return restoredOf (log.length - 1) units

theorem refoldUnit_eq (log : List Data) (seedLength : Nat)
    (definition : ProjectionDefinition State Data View) :
    refoldUnit log seedLength definition =
      foldOk (definition.applyOwned seedLength) definition.init (committed log) >>= fun state =>
        definition.restoredUnit state (log.length - 1) := by
  rw [refoldUnit, ProjectionDefinition.buildCell, lastSeq_committed]
  cases foldOk (definition.applyOwned seedLength) definition.init (committed log) <;> rfl

theorem restore_whole (definitions : List (ProjectionDefinition State Data View)) (log : List Data)
    (seedLength : Nat) :
    restore definitions .empty (readFrom log 0) 0 seedLength = refold definitions log seedLength := by
  have hend : lastSeq (readFrom log 0) (((0 : Nat) : Int) - 1) = log.length - 1 := by
    rw [readFrom, List.drop_zero]
    exact lastSeq_committed log
  have hunit : (fun definition : ProjectionDefinition State Data View =>
      definition.restoreUnit .empty (readFrom log 0) 0 (log.length - 1) seedLength) =
        refoldUnit log seedLength := by
    funext definition
    rw [refoldUnit_eq]
    have hall : (readFrom log 0).filter
        (fun event => decide (((0 : Nat) : Int) - 1 < event.seq)) = committed log :=
      filter_readFrom log (Nat.le_refl 0) (by simp)
    have hrow : definition.usableRow .empty 0 (log.length - 1) = none := rfl
    rw [ProjectionDefinition.restoreUnit, hrow]
    dsimp only
    rw [if_neg (Nat.lt_irrefl 0), ProjectionDefinition.restoreFrom, hall]
  rw [restore, refold, hend, hunit]

section Restore

variable {units : Catalogue State Data View} {log : List Data} {seedLength : Nat}
  {rows : ProjectionCheckpoint State} {definition : ProjectionDefinition State Data View}
  {baseSeq : Nat} {endSeq : Int} {restored : RestoredUnit State Data View}

theorem usableRow_eq_some {row : ProjectionCheckpointRow State}
    (h : definition.usableRow rows baseSeq endSeq = some row) :
    rows.get? definition.key = some row ∧ row.ver = definition.stateVersion ∧
      (baseSeq : Int) - 1 ≤ row.seq ∧ row.seq ≤ endSeq := by
  obtain ⟨hget, huse⟩ := Option.filter_eq_some_iff.mp h
  simp only [Bool.and_eq_true, decide_eq_true_eq] at huse
  exact ⟨hget, huse.1.1, huse.1.2, huse.2⟩

theorem restoreUnit_refold (hunit : units.Holds definition)
    (hrows : RowsHold units seedLength log rows)
    (h : definition.restoreUnit rows (readFrom log baseSeq) baseSeq (log.length - 1) seedLength =
      .ok restored) : refoldUnit log seedLength definition = .ok restored := by
  rw [refoldUnit_eq]
  unfold ProjectionDefinition.restoreUnit at h
  split at h
  · rename_i row hrow
    obtain ⟨initial, hparse, h⟩ := bind_eq_ok.mp h
    obtain ⟨state, hstate, hrestored⟩ := bind_eq_ok.mp h
    obtain ⟨hget, hver, hlow, hhigh⟩ := usableRow_eq_some hrow
    obtain ⟨hseq, hfolds⟩ := hrows definition.key row hget
    have hcount : ((row.seq + 1).toNat : Int) = row.seq + 1 := by omega
    have hfolds := (folds_iff.mp (hfolds (by omega))).1
    rw [hver, ← hunit] at hfolds
    have hinitial : initial = row.val := by
      rw [hunit] at hparse
      exact units.parse _ _ _ _ hparse
    rw [filter_readFrom log (by omega) hcount, hinitial] at hstate
    rw [← List.take_append_drop (row.seq + 1).toNat (committed log), foldOk_append, take_committed,
      hfolds, ok_bind, hstate, ok_bind]
    exact hrestored
  · split at h
    · cases h
    · rename_i hbase
      obtain rfl : baseSeq = 0 := Nat.eq_zero_of_not_pos hbase
      rw [ProjectionDefinition.restoreFrom, filter_readFrom log (Nat.le_refl 0) (by simp),
        List.drop_zero] at h
      exact h

theorem readFrom_eq_nil {log : List Data} (h : log.length ≤ baseSeq) : readFrom log baseSeq = [] :=
  List.drop_eq_nil_of_le (by simpa using h)

theorem lastSeq_readFrom {log : List Data} {fallback : Int} (h : baseSeq < log.length) :
    lastSeq (readFrom log baseSeq) fallback = log.length - 1 := by
  have hlast : (readFrom log baseSeq).getLast? = (committed log).getLast? := by
    rw [readFrom, List.getLast?_drop, if_neg (by simpa using h)]
  have hwhole := lastSeq_committed log
  unfold lastSeq at hwhole ⊢
  rw [hlast]
  cases hevent : (committed log).getLast? with
  | some event => simpa [hevent] using hwhole
  | none =>
    have hlength := congrArg List.length (List.getLast?_eq_none_iff.mp hevent)
    rw [committed_length, List.length_nil] at hlength
    omega

theorem restore_end {definitions : List (ProjectionDefinition State Data View)} {floor : Nat}
    {result : List (RestoredUnit State Data View)} (hanchored : Anchored definitions rows floor log)
    (h : definitions.mapM (fun definition => definition.restoreUnit rows (readFrom log floor) floor
      (lastSeq (readFrom log floor) ((floor : Int) - 1)) seedLength) = .ok result) :
    lastSeq (readFrom log floor) ((floor : Int) - 1) = log.length - 1 := by
  rcases Nat.lt_trichotomy log.length floor with hlt | heq | hgt
  · exfalso
    obtain ⟨definition, hmem, hnone⟩ := List.any_eq_true.mp (hanchored hlt)
    obtain ⟨unit, -, hunit⟩ := mapM_mem h hmem
    rw [readFrom_eq_nil (Nat.le_of_lt hlt)] at hunit
    unfold ProjectionDefinition.restoreUnit at hunit
    split at hunit
    · rename_i row hrow
      obtain ⟨hget, hver, hlow, hhigh⟩ := usableRow_eq_some hrow
      have hbelow : row.seq = (floor : Int) - 1 := Int.le_antisymm hhigh hlow
      simp [hget, hver, hbelow] at hnone
    · rw [if_pos (Nat.zero_lt_of_lt hlt)] at hunit
      cases hunit
  · rw [readFrom_eq_nil (Nat.le_of_eq heq), heq]
    rfl
  · exact lastSeq_readFrom hgt

theorem restore_refold {definitions : List (ProjectionDefinition State Data View)} {floor : Nat}
    {result : Restored State Data View} (hunits : ∀ definition ∈ definitions, units.Holds definition)
    (hrows : RowsHold units seedLength log rows) (hanchored : Anchored definitions rows floor log)
    (h : restore definitions rows (readFrom log floor) floor seedLength = .ok result) :
    refold definitions log seedLength = .ok result := by
  obtain ⟨restored, hrestored, hresult⟩ := bind_eq_ok.mp h
  have hend := restore_end hanchored hrestored
  rw [hend] at hrestored hresult
  have hrefold := mapM_mono hrestored fun definition hmem unit hunit =>
    restoreUnit_refold (hunits definition hmem) hrows hunit
  rw [refold, hrefold]
  exact hresult

end Restore

end Harness.Projection
