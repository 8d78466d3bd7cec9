import Harness.Schedule.ReplaySound
import Mathlib.Data.Int.ModEq
import Mathlib.Order.Bounds.Basic

namespace Harness.Schedule

open Harness.Foundation

section Occurrence

def lastAligned (anchor interval time : Int) : Int :=
  anchor + (time - anchor) / interval * interval

variable (anchor interval time : Int)

theorem lastAligned_modEq : lastAligned anchor interval time ≡ anchor [ZMOD interval] := by
  unfold lastAligned
  exact (Int.modEq_iff_dvd.mpr ⟨-((time - anchor) / interval), by ring⟩)

theorem lastAligned_le (h : 0 < interval) : lastAligned anchor interval time ≤ time := by
  have hdiv := Int.ediv_mul_le (time - anchor) (Int.ne_of_gt h)
  unfold lastAligned
  omega

theorem lt_lastAligned_add (h : 0 < interval) :
    time < lastAligned anchor interval time + interval := by
  have hdiv := Int.lt_ediv_add_one_mul_self (time - anchor) h
  rw [Int.add_mul, Int.one_mul] at hdiv
  unfold lastAligned
  omega

theorem lastAligned_greatest (h : 0 < interval) :
    IsGreatest {point | point ≡ anchor [ZMOD interval] ∧ point ≤ time}
      (lastAligned anchor interval time) := by
  refine ⟨⟨lastAligned_modEq anchor interval time, lastAligned_le anchor interval time h⟩, ?_⟩
  rintro point ⟨hpoint, hle⟩
  have hlt := lt_lastAligned_add anchor interval time h
  have hmod : point ≡ lastAligned anchor interval time [ZMOD interval] :=
    hpoint.trans (lastAligned_modEq anchor interval time).symm
  obtain ⟨steps, hsteps⟩ := hmod.symm.dvd
  by_contra hafter
  have hsteps_pos : 1 ≤ steps := by
    by_contra hsteps_le
    have := Int.mul_nonpos_of_nonneg_of_nonpos (Int.le_of_lt h) (by omega : steps ≤ 0)
    omega
  have := Int.mul_le_mul_of_nonneg_left hsteps_pos (Int.le_of_lt h)
  omega

theorem lastAligned_congr {anchor interval other : Int} (h : 0 < interval)
    (hanchor : anchor ≡ other [ZMOD interval]) (time : Int) :
    lastAligned anchor interval time = lastAligned other interval time := by
  apply (lastAligned_greatest anchor interval time h).unique
  have hgrid : ∀ point, point ≡ anchor [ZMOD interval] ↔ point ≡ other [ZMOD interval] :=
    fun point => ⟨fun hpoint => hpoint.trans hanchor, fun hpoint => hpoint.trans hanchor.symm⟩
  simp only [hgrid]
  exact lastAligned_greatest other interval time h

theorem lastAligned_mono {later : Int} (h : 0 < interval) (hle : time ≤ later) :
    lastAligned anchor interval time ≤ lastAligned anchor interval later := by
  apply (lastAligned_greatest anchor interval later h).2
  exact ⟨lastAligned_modEq anchor interval time, (lastAligned_le anchor interval time h).trans hle⟩

end Occurrence

section Dispatch

def nextAligned (scheduledAt everySeconds acceptedAt : Int) : Int :=
  lastAligned scheduledAt (everySeconds * 1000) acceptedAt + everySeconds * 1000

theorem decodeRule_every {everySeconds : Int} (h : decodeRule (.every everySeconds) = .ok ()) :
    isSafe (everySeconds * 1000) = true ∧ 0 < everySeconds * 1000 := by
  simp only [decodeRule, require_eq_ok, Bool.and_eq_true, decide_eq_true_eq] at h
  have hleast : 300 ≤ everySeconds := h.1.2
  exact ⟨h.2, by omega⟩

theorem nextAligned_modEq {scheduledAt everySeconds acceptedAt : Int} :
    nextAligned scheduledAt everySeconds acceptedAt ≡ scheduledAt
      [ZMOD everySeconds * 1000] := by
  unfold nextAligned
  have hstep := lastAligned_modEq scheduledAt (everySeconds * 1000) acceptedAt
  simpa using hstep.add_right (everySeconds * 1000)

theorem Instant.isSafe (instant : Instant) : isSafe instant.epoch = true := by
  have hyear := instant.fourDigitYear
  rw [isSafe_iff]
  unfold minFourDigitYearMs maxFourDigitYearMs at hyear
  omega

theorem instant?_eq_some {epoch : Int} {instant : Instant} :
    instant? epoch = some instant ↔ instant.epoch = epoch := by
  unfold instant?
  constructor
  · intro h
    split at h
    · cases h
      rfl
    · cases h
  · rintro rfl
    rw [dif_pos instant.fourDigitYear]

theorem instant?_eq_none {epoch : Int} :
    instant? epoch = none ↔ epoch < minFourDigitYearMs ∨ maxFourDigitYearMs < epoch := by
  unfold instant?
  split
  · simp only [reduceCtorEq, false_iff]
    omega
  · simp only [true_iff]
    omega

variable {record : ScheduleRecord} {everySeconds : Int}

theorem resolveEveryOccurrence_due {scheduledAt acceptedAt : Instant}
    (hrule : decodeRule (.every everySeconds) = .ok ())
    (hdue : scheduledAt.epoch ≤ acceptedAt.epoch) :
    resolveEveryOccurrence everySeconds scheduledAt acceptedAt.epoch = .ok {
      occurrenceAt := lastAligned scheduledAt.epoch (everySeconds * 1000) acceptedAt.epoch
      nextScheduledAt := instant? (nextAligned scheduledAt.epoch everySeconds acceptedAt.epoch) } := by
  obtain ⟨hsafe, hpos⟩ := decodeRule_every hrule
  have hle := lastAligned_le scheduledAt.epoch _ acceptedAt.epoch hpos
  have hge : scheduledAt.epoch ≤
      lastAligned scheduledAt.epoch (everySeconds * 1000) acceptedAt.epoch :=
    (lastAligned_greatest scheduledAt.epoch _ acceptedAt.epoch hpos).2 ⟨Int.ModEq.refl _, hdue⟩
  have hoccurrence :
      isSafe (lastAligned scheduledAt.epoch (everySeconds * 1000) acceptedAt.epoch) = true := by
    have hlow := isSafe_iff.mp scheduledAt.isSafe
    have hhigh := isSafe_iff.mp acceptedAt.isSafe
    exact isSafe_iff.mpr ⟨by omega, by omega⟩
  have hnext : minFourDigitYearMs ≤ nextAligned scheduledAt.epoch everySeconds acceptedAt.epoch := by
    have := scheduledAt.fourDigitYear
    unfold nextAligned
    omega
  have hyear := acceptedAt.fourDigitYear
  unfold resolveEveryOccurrence
  simp only [acceptedAt.isSafe, hyear, hsafe, hpos, hdue, Bool.and_self, decide_true,
    require_true, ok_bind]
  change (require (isSafe (lastAligned scheduledAt.epoch (everySeconds * 1000) acceptedAt.epoch)
      && decide (scheduledAt.epoch ≤
        lastAligned scheduledAt.epoch (everySeconds * 1000) acceptedAt.epoch)
      && decide (lastAligned scheduledAt.epoch (everySeconds * 1000) acceptedAt.epoch ≤
        acceptedAt.epoch)) _ >>= _) = _
  simp only [hoccurrence, hge, hle, Bool.and_self, decide_true, require_true, ok_bind]
  change (if !isSafe (nextAligned scheduledAt.epoch everySeconds acceptedAt.epoch)
      || decide (maxFourDigitYearMs < nextAligned scheduledAt.epoch everySeconds acceptedAt.epoch)
    then _ else _) = _
  split
  · rename_i hafter
    rw [instant?_eq_none.mpr]
    · rfl
    · right
      by_contra hbefore
      have hnextSafe := (Instant.mk _ ⟨hnext, Int.not_lt.mp hbefore⟩).isSafe
      simp [hnextSafe, hbefore] at hafter
  · rfl

theorem advance_due (record : ScheduleRecord) (hrule : record.rule = .every everySeconds)
    (hdecode : decodeRule record.rule = .ok ()) {acceptedAt : Instant}
    (hdue : record.scheduledAt.epoch ≤ acceptedAt.epoch) :
    advanceDispatchedSchedule record (some acceptedAt) =
      .ok ((instant? (nextAligned record.scheduledAt.epoch everySeconds acceptedAt.epoch)).map
        fun next => { record with scheduledAt := next }) := by
  rw [hrule] at hdecode
  simp only [advanceDispatchedSchedule, hrule, resolveEveryOccurrence_due hdecode hdue]
  rfl

theorem due_of_advance (hrule : record.rule = .every everySeconds) {acceptedAt : Instant}
    {next : Option ScheduleRecord}
    (h : advanceDispatchedSchedule record (some acceptedAt) = .ok next) :
    record.scheduledAt.epoch ≤ acceptedAt.epoch := by
  simp only [advanceDispatchedSchedule, hrule] at h
  obtain ⟨occurrence, hresolve, -⟩ := bind_eq_ok.mp h
  obtain ⟨_, -, hinterval⟩ := bind_eq_ok.mp hresolve
  obtain ⟨_, -, htarget⟩ := bind_eq_ok.mp hinterval
  obtain ⟨_, hdue, -⟩ := bind_eq_ok.mp htarget
  exact of_decide_eq_true (require_eq_ok.mp hdue)

theorem advance_advanced (hrule : record.rule = .every everySeconds)
    (hdecode : decodeRule record.rule = .ok ()) {first second : Instant}
    {advanced : ScheduleRecord}
    (hfirst : advanceDispatchedSchedule record (some first) = .ok (some advanced))
    (hdue : advanced.scheduledAt.epoch ≤ second.epoch) :
    advanceDispatchedSchedule advanced (some second) =
      advanceDispatchedSchedule record (some second) := by
  have hfirstDue := due_of_advance hrule hfirst
  obtain ⟨-, hpos⟩ := decodeRule_every (hrule ▸ hdecode)
  rw [advance_due record hrule hdecode hfirstDue, Except.ok.injEq] at hfirst
  obtain ⟨next, hnext, rfl⟩ := Option.map_eq_some_iff.mp hfirst
  have hepoch := instant?_eq_some.mp hnext
  have hlater : first.epoch < next.epoch := by
    rw [hepoch]
    exact lt_lastAligned_add _ _ _ hpos
  have hsecond : record.scheduledAt.epoch ≤ second.epoch :=
    (hfirstDue.trans (Int.le_of_lt hlater)).trans hdue
  have hadvanced : advanceDispatchedSchedule { record with scheduledAt := next } (some second) =
      .ok ((instant? (nextAligned next.epoch everySeconds second.epoch)).map
        fun next => { record with scheduledAt := next }) :=
    advance_due { record with scheduledAt := next } hrule hdecode hdue
  rw [advance_due record hrule hdecode hsecond, hadvanced]
  have hgrid : nextAligned next.epoch everySeconds second.epoch =
      nextAligned record.scheduledAt.epoch everySeconds second.epoch := by
    unfold nextAligned
    rw [lastAligned_congr hpos]
    rw [hepoch]
    exact nextAligned_modEq
  simp only [hgrid]

theorem advance_exhausted (hrule : record.rule = .every everySeconds)
    (hdecode : decodeRule record.rule = .ok ()) {first second : Instant}
    (hfirst : advanceDispatchedSchedule record (some first) = .ok none)
    (hle : first.epoch ≤ second.epoch) :
    advanceDispatchedSchedule record (some second) = .ok none := by
  have hdue := due_of_advance hrule hfirst
  obtain ⟨-, hpos⟩ := decodeRule_every (hrule ▸ hdecode)
  rw [advance_due record hrule hdecode hdue, Except.ok.injEq, Option.map_eq_none_iff,
    instant?_eq_none] at hfirst
  rw [advance_due record hrule hdecode (hdue.trans hle), Except.ok.injEq, Option.map_eq_none_iff,
    instant?_eq_none]
  have hmono : nextAligned record.scheduledAt.epoch everySeconds first.epoch ≤
      nextAligned record.scheduledAt.epoch everySeconds second.epoch := by
    have := lastAligned_mono record.scheduledAt.epoch _ _ hpos hle
    unfold nextAligned
    omega
  have hlow : minFourDigitYearMs ≤ nextAligned record.scheduledAt.epoch everySeconds first.epoch := by
    have := lt_lastAligned_add record.scheduledAt.epoch _ first.epoch hpos
    have := first.fourDigitYear
    unfold nextAligned
    omega
  omega

end Dispatch

section Replayed

variable {record : ScheduleRecord} {everySeconds : Int} {replay after : Replay} {id : String}

theorem applyDispatch_active (hget : replay.retained.get? id = some ⟨record, false⟩)
    (acceptedAt : Option Instant) :
    replay.applyDispatch id acceptedAt =
      (advanceDispatchedSchedule record acceptedAt >>= fun next => match next with
        | none => .ok (replay.drop id)
        | some kept => .ok (replay.keep id kept false)) := by
  unfold Replay.applyDispatch
  rw [target?_eq_some.mpr hget]
  rfl

theorem applyDispatch_again (hget : replay.retained.get? id = some ⟨record, false⟩)
    (hrule : record.rule = .every everySeconds) (hdecode : decodeRule record.rule = .ok ())
    {first second : Instant} {advanced : ScheduleRecord}
    (hadvance : advanceDispatchedSchedule record (some first) = .ok (some advanced))
    (hdue : advanced.scheduledAt.epoch ≤ second.epoch) :
    (replay.keep id advanced false).applyDispatch id (some second) =
      replay.applyDispatch id (some second) := by
  have hkept : (replay.keep id advanced false).retained.get? id = some ⟨advanced, false⟩ :=
    OrderedMap.get?_set_self _ _ _
  rw [applyDispatch_active hkept, applyDispatch_active hget,
    advance_advanced hrule hdecode hadvance hdue]
  congr 1
  funext next
  cases next with
  | none => simp only [Replay.drop, Replay.keep, OrderedMap.delete_set]
  | some kept => simp only [Replay.keep, OrderedMap.set_set]

theorem dispatches_absorbed (hget : replay.retained.get? id = some ⟨record, false⟩)
    (hrule : record.rule = .every everySeconds) (hdecode : decodeRule record.rule = .ok ())
    {times : List Instant} {last : Instant}
    (h : (times ++ [last]).foldlM (fun replay time => replay.applyDispatch id (some time)) replay =
      .ok after) :
    replay.applyDispatch id (some last) = .ok after := by
  induction times generalizing replay record with
  | nil =>
    simp only [List.nil_append, List.foldlM_cons, List.foldlM_nil, bind_pure] at h
    exact h
  | cons first times ih =>
    rw [List.cons_append, List.foldlM_cons] at h
    obtain ⟨between, hfirst, hrest⟩ := bind_eq_ok.mp h
    obtain ⟨kept, next, hactive, hadvance, hbetween⟩ := applyDispatch_eq_ok hfirst
    cases hget.symm.trans hactive
    cases next with
    | none =>
      obtain ⟨second, rest, heq⟩ := List.exists_cons_of_ne_nil (List.append_ne_nil_of_right_ne_nil
        times (List.cons_ne_nil last []))
      rw [heq, List.foldlM_cons, hbetween] at hrest
      obtain ⟨_, hsecond, -⟩ := bind_eq_ok.mp hrest
      obtain ⟨gone, -, hgone, -⟩ := applyDispatch_eq_ok hsecond
      rw [Replay.drop, OrderedMap.get?_delete, if_pos rfl] at hgone
      cases hgone
    | some advanced =>
      have hadvanced := (advance_eq_ok hadvance).2 advanced rfl
      have hkept : between.retained.get? id = some ⟨advanced, false⟩ := by
        rw [hbetween]
        exact OrderedMap.get?_set_self _ _ _
      have hlast := ih hkept (hadvanced.2.trans hrule) (by rw [hadvanced.2]; exact hdecode) hrest
      obtain ⟨found, _, hfound, hsecond, -⟩ := applyDispatch_eq_ok hlast
      cases hkept.symm.trans hfound
      have hdue := due_of_advance (hadvanced.2.trans hrule) hsecond
      rw [hbetween] at hlast
      rw [← applyDispatch_again hget hrule hdecode hadvance hdue]
      exact hlast

/-- A dispatch takes the last point of the grid, leaves the first point after, and makes every
earlier dispatch immaterial. -/
theorem every_dispatch {anchor : Int} {first second : Instant}
    (hrule : record.rule = .every everySeconds) (hdecode : decodeScheduleRecord record = .ok ())
    (hanchor : record.scheduledAt.epoch ≡ anchor [ZMOD everySeconds * 1000])
    (hdue : record.scheduledAt.epoch ≤ first.epoch) (hle : first.epoch ≤ second.epoch) :
    ∃ occurrence,
      resolveEveryOccurrence everySeconds record.scheduledAt first.epoch = .ok occurrence ∧
      advanceDispatchedSchedule record (some first) =
        .ok (occurrence.nextScheduledAt.map fun next => { record with scheduledAt := next }) ∧
      IsGreatest {point | point ≡ anchor [ZMOD everySeconds * 1000] ∧ point ≤ first.epoch}
        occurrence.occurrenceAt ∧
      (∀ next, occurrence.nextScheduledAt = some next →
        next.epoch = occurrence.occurrenceAt + everySeconds * 1000 ∧
        next.epoch ≡ anchor [ZMOD everySeconds * 1000] ∧ first.epoch < next.epoch) ∧
      (occurrence.nextScheduledAt = none ↔
        maxFourDigitYearMs < occurrence.occurrenceAt + everySeconds * 1000) ∧
      (occurrence.nextScheduledAt = none →
        advanceDispatchedSchedule record (some second) = .ok none) ∧
      (∀ next, occurrence.nextScheduledAt = some next → next.epoch ≤ second.epoch →
        advanceDispatchedSchedule { record with scheduledAt := next } (some second) =
          advanceDispatchedSchedule record (some second) ∧
        ∀ (replay after : Replay) (id : String),
          replay.retained.get? id = some ⟨record, false⟩ →
          replay.applyDispatch id (some first) = .ok after →
          after.applyDispatch id (some second) = replay.applyDispatch id (some second)) := by
  obtain ⟨_, -, hrest⟩ := bind_eq_ok.mp hdecode
  obtain ⟨_, hvalid, -⟩ := bind_eq_ok.mp hrest
  obtain ⟨-, hpos⟩ := decodeRule_every (hrule ▸ hvalid)
  have hadvance := advance_due record hrule hvalid hdue
  refine ⟨_, resolveEveryOccurrence_due (hrule ▸ hvalid) hdue, hadvance, ?_, ?_, ?_, ?_, ?_⟩
  · simp only [lastAligned_congr hpos hanchor]
    exact lastAligned_greatest anchor _ first.epoch hpos
  · intro next hnext
    have hepoch := instant?_eq_some.mp hnext
    refine ⟨hepoch, ?_, ?_⟩
    · rw [hepoch]
      exact nextAligned_modEq.trans hanchor
    · rw [hepoch]
      exact lt_lastAligned_add _ _ _ hpos
  · change instant? (nextAligned _ _ _) = none ↔ maxFourDigitYearMs < nextAligned _ _ _
    rw [instant?_eq_none]
    have hlow := first.fourDigitYear
    have hnext := lt_lastAligned_add record.scheduledAt.epoch _ first.epoch hpos
    unfold nextAligned
    omega
  · intro hnone
    have hnone : instant? (nextAligned _ _ _) = none := hnone
    apply advance_exhausted hrule hvalid _ hle
    rw [hadvance, hnone, Option.map_none]
  · intro next hnext hsecond
    have hnext : instant? (nextAligned _ _ _) = some next := hnext
    have hfirst : advanceDispatchedSchedule record (some first) =
        .ok (some { record with scheduledAt := next }) := by
      rw [hadvance, hnext, Option.map_some]
    refine ⟨advance_advanced hrule hvalid hfirst hsecond, ?_⟩
    intro replay after id hget hafter
    rw [applyDispatch_active hget, hfirst, ok_bind] at hafter
    cases hafter
    exact applyDispatch_again hget hrule hvalid hfirst hsecond

theorem every_dispatch_fiveMinutes :
    ∃ occurrence, resolveEveryOccurrence 300 ⟨0, by decide⟩ 600001 = .ok occurrence ∧
      IsGreatest {point | point ≡ 0 [ZMOD 300 * 1000] ∧ point ≤ 600001} occurrence.occurrenceAt := by
  have hrule : (⟨"tea", "Time for tea", .every 300, ⟨0, by decide⟩⟩ : ScheduleRecord).rule =
      .every 300 := rfl
  have hle : (⟨600001, by decide⟩ : Instant).epoch ≤ (⟨900000, by decide⟩ : Instant).epoch := by
    decide
  obtain ⟨occurrence, hresolve, -, hgreatest, -⟩ :=
    every_dispatch hrule (by decide +kernel) (Int.ModEq.refl 0) (by decide) hle
  exact ⟨occurrence, hresolve, hgreatest⟩

end Replayed

end Harness.Schedule
