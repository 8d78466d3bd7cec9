import Mathlib.Tactic
import Harness.Persistence.Preparations

namespace Harness.Persistence

open Harness.Foundation (OrderedMap)

namespace SessionPreparations

variable {Source CommitState : Type}

structure WellKept (p : SessionPreparations Source CommitState) : Prop where
  entry_id : ∀ id h, p.at? id = some h → h < p.nextEntry ∧ (p.heap h).id = id
  loading : ∀ id h, p.at? id = some h → ((p.heap h).phase = .loading ↔ (p.heap h).result = none)
  promised : ∀ id h, p.at? id = some h →
    ((p.heap h).phase.held = true ↔ (p.heap h).reservationSettled.isSome)
  granted : ∀ id h, p.at? id = some h → (p.heap h).phase = .reserved →
    ∃ r reservation, (p.heap h).reservation = some r ∧
      p.reservations[r]? = some reservation ∧ reservation.entry = h

/-- What leaves the table takes its promise along; everything else stays as it was. -/
structure Dropped (p q : SessionPreparations Source CommitState) : Prop where
  nextEntry : q.nextEntry = p.nextEntry
  reservations : q.reservations = p.reservations
  entry : ∀ h, ∃ w, q.heap h = { p.heap h with reservationSettled := w }
  at? : ∀ id, q.at? id = p.at? id ∨ q.at? id = none
  kept : ∀ id h, q.at? id = some h → q.heap h = p.heap h
  settled : ∀ w, p.settled w = true → q.settled w = true
  waiters : ∀ id h w, p.at? id = some h → q.at? id = none →
    (p.heap h).reservationSettled = some w → q.settled w = true

theorem inTable_iff {p : SessionPreparations Source CommitState} (hp : p.WellKept) {h : Nat} :
    p.InTable h ↔ ∃ id, p.at? id = some h := by
  constructor
  · intro hin
    exact ⟨_, hin⟩
  · rintro ⟨id, hat⟩
    rw [InTable, (hp.entry_id id h hat).2]
    exact hat

theorem Dropped.wellKept {p q : SessionPreparations Source CommitState} (hp : p.WellKept)
    (h : Dropped p q) : q.WellKept := by
  have hold : ∀ id k, q.at? id = some k → p.at? id = some k := by
    intro id k hk
    rcases h.at? id with hsame | hnone
    · rw [← hsame]
      exact hk
    · rw [hnone] at hk
      cases hk
  constructor
  · intro id k hk
    rw [h.kept id k hk, h.nextEntry]
    exact hp.entry_id id k (hold id k hk)
  · intro id k hk
    rw [h.kept id k hk]
    exact hp.loading id k (hold id k hk)
  · intro id k hk
    rw [h.kept id k hk]
    exact hp.promised id k (hold id k hk)
  · intro id k hk
    rw [h.kept id k hk, h.reservations]
    exact hp.granted id k (hold id k hk)

theorem Dropped.refl (p : SessionPreparations Source CommitState) : Dropped p p where
  nextEntry := rfl
  reservations := rfl
  entry h := ⟨_, rfl⟩
  at? id := .inl rfl
  kept id h _ := rfl
  settled w hw := hw
  waiters id h w hsome hnone := by rw [hsome] at hnone; cases hnone

@[simp] theorem at?_drop (p : SessionPreparations Source CommitState) (id other : String) :
    (p.drop id).at? other = if other = id then none else p.at? other :=
  OrderedMap.get?_delete p.entries id other

theorem readyCount_drop (p : SessionPreparations Source CommitState) (id : String) :
    p.readyCount = (p.drop id).readyCount +
      (p.entries.entries.filter fun entry => !decide (entry.1 ≠ id)).countP p.isReady :=
  List.countP_eq_countP_filter_add _ _ _

theorem readyCount_drop_le (p : SessionPreparations Source CommitState) (id : String) :
    (p.drop id).readyCount ≤ p.readyCount := by
  have := readyCount_drop p id
  omega

theorem readyCount_drop_lt {p : SessionPreparations Source CommitState} {id : String} {h : Nat}
    (hmem : (id, h) ∈ p.entries.entries) (hready : p.isReady (id, h) = true) :
    (p.drop id).readyCount < p.readyCount := by
  have hpos : 0 < (p.entries.entries.filter fun entry =>
      !decide (entry.1 ≠ id)).countP p.isReady := by
    apply List.countP_pos_iff.mpr
    exact ⟨_, List.mem_filter.mpr ⟨hmem, by simp⟩, hready⟩
  have := readyCount_drop p id
  omega

theorem readyCount_congr {p q : SessionPreparations Source CommitState}
    (hentries : q.entries = p.entries) (hphase : ∀ h, (q.heap h).phase = (p.heap h).phase) :
    q.readyCount = p.readyCount := by
  rw [readyCount, readyCount, hentries]
  apply List.countP_congr
  intro entry _
  rw [isReady, isReady, hphase]

theorem phase_settle (p : SessionPreparations Source CommitState) (h k : Nat) :
    ((p.settle h).heap k).phase = (p.heap k).phase := by
  by_cases hk : k = h
  · subst hk
    simp [settle]
  · simp [settle, hk]

theorem readyCount_remove_le (p : SessionPreparations Source CommitState) (h : Nat) :
    (p.remove h).readyCount ≤ p.readyCount := by
  rw [remove]
  split
  case isFalse => exact Nat.le_refl _
  case isTrue =>
    rw [@readyCount_congr _ _ (p.drop (p.heap h).id) ((p.drop (p.heap h).id).settle h) rfl
      fun k => phase_settle _ h k]
    exact readyCount_drop_le p _

@[simp] theorem capacity_remove (p : SessionPreparations Source CommitState) (h : Nat) :
    (p.remove h).capacity = p.capacity := by
  rw [remove]
  split <;> rfl

theorem remove_dropped {p : SessionPreparations Source CommitState} (hp : p.WellKept) (h : Nat) :
    Dropped p (p.remove h) := by
  rw [remove]
  split
  case isFalse => exact .refl p
  case isTrue hin =>
    have hat : ∀ id, ((p.drop (p.heap h).id).settle h).at? id =
        if id = (p.heap h).id then none else p.at? id := at?_drop p _
    constructor
    · rfl
    · rfl
    · intro k
      by_cases hk : k = h
      · subst hk
        exact ⟨none, by simp [settle, drop]⟩
      · exact ⟨(p.heap k).reservationSettled, by simp [settle, drop, hk]⟩
    · intro id
      rw [hat]
      split
      · exact .inr rfl
      · exact .inl rfl
    · intro id k hk
      rw [hat] at hk
      split at hk
      · cases hk
      · rename_i hid
        have hne : k ≠ h := by
          rintro rfl
          exact hid (hp.entry_id id k hk).2.symm
        simp [settle, drop, hne]
    · intro w hw
      simp [settle, drop, hw]
    · intro id k w hk hnone hw
      rw [hat] at hnone
      split at hnone
      · rename_i hid
        rw [hid, hin] at hk
        obtain rfl := Option.some.inj hk
        simp [settle, drop, hw]
      · rw [hk] at hnone
        cases hnone

theorem at?_moveToEnd {p : SessionPreparations Source CommitState} {h : Nat} (hin : p.InTable h)
    (id : String) : (p.moveToEnd h).at? id = p.at? id := by
  rw [at?, moveToEnd, OrderedMap.get?_set_new (OrderedMap.keys_delete _ _), OrderedMap.get?_delete]
  by_cases hid : id = (p.heap h).id
  · rw [if_pos hid, hid]
    exact hin.symm
  · rw [if_neg hid, if_neg hid]

theorem readyCount_moveToEnd_le {p : SessionPreparations Source CommitState} {h : Nat}
    (hin : p.InTable h) : (p.moveToEnd h).readyCount ≤ p.readyCount := by
  have hentries := OrderedMap.entries_set_new (OrderedMap.keys_delete p.entries (p.heap h).id) h
  have hcount : (p.moveToEnd h).readyCount =
      (p.drop (p.heap h).id).readyCount + [((p.heap h).id, h)].countP p.isReady := by
    rw [readyCount, moveToEnd, hentries]
    exact List.countP_append
  rw [hcount]
  by_cases hready : p.isReady ((p.heap h).id, h) = true
  · have := readyCount_drop_lt (OrderedMap.mem_entries_iff.mpr hin) hready
    simp only [List.countP_singleton, hready, if_true]
    omega
  · simp only [List.countP_singleton, hready]
    exact readyCount_drop_le p _

theorem evict_dropped {p : SessionPreparations Source CommitState}
    (hpromised : ∀ id h, p.at? id = some h → (p.heap h).phase = .ready →
      (p.heap h).reservationSettled = none) : Dropped p p.evict := by
  rw [evict]
  split
  case h_2 => exact .refl p
  case h_1 id h hfound =>
    have hready : (p.heap h).phase = .ready := by
      have := List.find?_some hfound
      simpa [isReady] using this
    have hin : p.at? id = some h := OrderedMap.mem_entries_iff.mp (List.mem_of_find?_eq_some hfound)
    constructor
    · rfl
    · rfl
    · intro k
      exact ⟨_, rfl⟩
    · intro other
      rw [at?_drop]
      split
      · exact .inr rfl
      · exact .inl rfl
    · intro _ _ _
      rfl
    · intro w hw
      exact hw
    · intro other k w hk hnone hw
      rw [at?_drop] at hnone
      split at hnone
      · rename_i hother
        rw [hother, hin] at hk
        obtain rfl := Option.some.inj hk
        rw [hpromised id h hin hready] at hw
        cases hw
      · rw [hk] at hnone
        cases hnone

theorem readyCount_evict {p : SessionPreparations Source CommitState}
    (h : p.readyCount ≤ p.capacity + 1) (hover : ¬ p.readyCount ≤ p.capacity) :
    p.evict.readyCount ≤ p.capacity := by
  rw [evict]
  split
  case h_1 id k hfound =>
    have := readyCount_drop_lt (List.mem_of_find?_eq_some hfound) (List.find?_some hfound)
    omega
  case h_2 hnone =>
    have hzero : p.readyCount = 0 := by
      apply List.countP_eq_zero.mpr
      intro entry hentry
      simpa using List.find?_eq_none.mp hnone entry hentry
    omega

@[simp] theorem capacity_evict (p : SessionPreparations Source CommitState) :
    p.evict.capacity = p.capacity := by
  rw [evict]
  split <;> rfl

@[simp] theorem capacity_touch (p : SessionPreparations Source CommitState) (h : Nat) :
    (p.touch h).capacity = p.capacity := by
  rw [touch]
  split
  · rfl
  · exact capacity_evict _

theorem readyCount_touch {p : SessionPreparations Source CommitState} {h : Nat}
    (hin : p.InTable h) (hcount : p.readyCount ≤ p.capacity + 1) :
    (p.touch h).readyCount ≤ p.capacity := by
  rw [touch]
  split
  case isTrue hle => exact hle
  case isFalse hgt => exact readyCount_evict ((readyCount_moveToEnd_le hin).trans hcount) hgt

theorem moveToEnd_dropped {p : SessionPreparations Source CommitState} {h : Nat}
    (hin : p.InTable h) : Dropped p (p.moveToEnd h) :=
  { Dropped.refl p with
    at? := fun id => .inl (at?_moveToEnd hin id)
    kept := fun _ _ _ => rfl
    waiters := by
      intro id k w hk hnone
      rw [at?_moveToEnd hin, hk] at hnone
      cases hnone }

theorem Dropped.trans {p q r : SessionPreparations Source CommitState} (hpq : Dropped p q)
    (hqr : Dropped q r) : Dropped p r := by
  have hback : ∀ id k, r.at? id = some k → q.at? id = some k := by
    intro id k hk
    rcases hqr.at? id with hsame | hnone
    · rw [← hsame]
      exact hk
    · rw [hnone] at hk
      cases hk
  constructor
  · exact hqr.nextEntry.trans hpq.nextEntry
  · exact hqr.reservations.trans hpq.reservations
  · intro h
    obtain ⟨v, hv⟩ := hpq.entry h
    obtain ⟨w, hw⟩ := hqr.entry h
    exact ⟨w, by rw [hw, hv]⟩
  · intro id
    rcases hqr.at? id with hsame | hnone
    · rw [hsame]
      exact hpq.at? id
    · exact .inr hnone
  · intro id h hat
    rw [hqr.kept id h hat]
    exact hpq.kept id h (hback id h hat)
  · intro w hw
    exact hqr.settled w (hpq.settled w hw)
  · intro id h w hat hnone hw
    rcases hpq.at? id with hsame | hgone
    · have hq : q.at? id = some h := hsame.trans hat
      apply hqr.waiters id h w hq hnone
      rw [hpq.kept id h hq]
      exact hw
    · exact hqr.settled w (hpq.waiters id h w hat hgone hw)

theorem touch_dropped {p : SessionPreparations Source CommitState} {h : Nat} (hin : p.InTable h)
    (hpromised : ∀ id h, p.at? id = some h → (p.heap h).phase = .ready →
      (p.heap h).reservationSettled = none) : Dropped p (p.touch h) := by
  rw [touch]
  split
  case isTrue => exact moveToEnd_dropped hin
  case isFalse =>
    apply (moveToEnd_dropped hin).trans
    apply evict_dropped
    intro id k hk
    rw [at?_moveToEnd hin] at hk
    exact hpromised id k hk

theorem not_inTable_remove {p : SessionPreparations Source CommitState} (h : Nat) :
    ¬ (p.remove h).InTable h := by
  rw [remove]
  split
  case isFalse hout => exact hout
  case isTrue =>
    have hid : (((p.drop (p.heap h).id).settle h).heap h).id = (p.heap h).id := by
      simp [settle, drop]
    rw [InTable, hid]
    intro hbad
    have := (at?_drop p (p.heap h).id (p.heap h).id).symm.trans hbad
    simp at this

structure Revised (p q : SessionPreparations Source CommitState) (h : Nat) : Prop where
  entries : q.entries = p.entries
  nextEntry : q.nextEntry = p.nextEntry
  capacity : q.capacity = p.capacity
  other : ∀ k, k ≠ h → q.heap k = p.heap k
  id : (q.heap h).id = (p.heap h).id
  settled : ∀ w, p.settled w = true → q.settled w = true
  waiters : ∀ w, (p.heap h).reservationSettled = some w →
    q.settled w = true ∨ (q.heap h).reservationSettled = some w

theorem Revised.at? {p q : SessionPreparations Source CommitState} {h : Nat}
    (hr : Revised p q h) (id : String) : q.at? id = p.at? id := by
  rw [SessionPreparations.at?, hr.entries]

theorem Revised.inTable {p q : SessionPreparations Source CommitState} {h : Nat}
    (hr : Revised p q h) (k : Nat) : q.InTable k ↔ p.InTable k := by
  by_cases hk : k = h
  · rw [InTable, hr.at?, hk, hr.id]
  · rw [InTable, hr.at?, hr.other k hk]

theorem Revised.wellKept {p q : SessionPreparations Source CommitState} {h : Nat}
    (hp : p.WellKept) (hr : Revised p q h)
    (hloading : p.InTable h → ((q.heap h).phase = .loading ↔ (q.heap h).result = none))
    (hpromised : p.InTable h →
      ((q.heap h).phase.held = true ↔ (q.heap h).reservationSettled.isSome))
    (hgranted : p.InTable h → (q.heap h).phase = .reserved →
      ∃ r reservation, (q.heap h).reservation = some r ∧
        q.reservations[r]? = some reservation ∧ reservation.entry = h)
    (hreservations : p.reservations <+: q.reservations) : q.WellKept := by
  have hin : ∀ {id}, p.at? id = some h → p.InTable h :=
    fun hk => (inTable_iff hp).mpr ⟨_, hk⟩
  constructor
  · intro id k hk
    rw [hr.at?] at hk
    rw [hr.nextEntry]
    by_cases hkh : k = h
    · rw [hkh, hr.id, ← hkh]
      exact hp.entry_id id k hk
    · rw [hr.other k hkh]
      exact hp.entry_id id k hk
  · intro id k hk
    rw [hr.at?] at hk
    by_cases hkh : k = h
    · subst hkh
      exact hloading (hin hk)
    · rw [hr.other k hkh]
      exact hp.loading id k hk
  · intro id k hk
    rw [hr.at?] at hk
    by_cases hkh : k = h
    · subst hkh
      exact hpromised (hin hk)
    · rw [hr.other k hkh]
      exact hp.promised id k hk
  · intro id k hk hphase
    rw [hr.at?] at hk
    by_cases hkh : k = h
    · subst hkh
      exact hgranted (hin hk) hphase
    · rw [hr.other k hkh] at hphase ⊢
      obtain ⟨r, reservation, hheld, hfound, hentry⟩ := hp.granted id k hk hphase
      refine ⟨r, reservation, hheld, ?_, hentry⟩
      obtain ⟨new, hnew⟩ := hreservations
      rw [← hnew, List.getElem?_append_left (List.getElem?_eq_some_iff.mp hfound).1]
      exact hfound

theorem entries_of_key_le_one (m : OrderedMap String Nat) (key : String) :
    (m.entries.filter fun entry => !decide (entry.1 ≠ key)).length ≤ 1 := by
  have hnodup : ((m.entries.filter fun entry => !decide (entry.1 ≠ key)).map Prod.fst).Nodup :=
    (List.filter_sublist.map Prod.fst).nodup m.nodup
  have hall : (m.entries.filter fun entry => !decide (entry.1 ≠ key)).map Prod.fst =
      List.replicate (m.entries.filter fun entry => !decide (entry.1 ≠ key)).length key := by
    rw [List.eq_replicate_iff]
    refine ⟨by simp, ?_⟩
    intro k hk
    obtain ⟨entry, hentry, rfl⟩ := List.mem_map.mp hk
    simpa using (List.mem_filter.mp hentry).2
  rw [hall, List.nodup_replicate] at hnodup
  exact hnodup

theorem Revised.readyCount_le {p q : SessionPreparations Source CommitState} {h : Nat}
    (hp : p.WellKept) (hr : Revised p q h) : q.readyCount ≤ p.readyCount + 1 := by
  have hsplit := readyCount_drop q (p.heap h).id
  have hone : (q.entries.entries.filter fun entry =>
      !decide (entry.1 ≠ (p.heap h).id)).countP q.isReady ≤ 1 :=
    List.countP_le_length.trans (entries_of_key_le_one q.entries (p.heap h).id)
  have hsame : (q.drop (p.heap h).id).readyCount = (p.drop (p.heap h).id).readyCount := by
    rw [readyCount, readyCount, drop, drop, hr.entries]
    apply List.countP_congr
    intro entry hentry
    have hne : entry.2 ≠ h := by
      rintro rfl
      obtain ⟨hmem, hkey⟩ := List.mem_filter.mp hentry
      have hid := (hp.entry_id entry.1 entry.2 (OrderedMap.mem_entries_iff.mp hmem)).2
      simp [hid] at hkey
    rw [isReady, isReady]
    change decide ((q.heap entry.2).phase = .ready) = true ↔
      decide ((p.heap entry.2).phase = .ready) = true
    rw [hr.other _ hne]
  have := readyCount_drop_le p (p.heap h).id
  omega

theorem Revised.readyCount_mono {p q : SessionPreparations Source CommitState} {h : Nat}
    (hr : Revised p q h) (hphase : (q.heap h).phase = .ready → (p.heap h).phase = .ready) :
    q.readyCount ≤ p.readyCount := by
  rw [readyCount, readyCount, hr.entries]
  apply List.countP_mono_left
  intro entry _ hready
  by_cases hk : entry.2 = h
  · simp only [isReady, hk, decide_eq_true_eq] at hready ⊢
    exact hphase hready
  · rw [isReady, hr.other _ hk] at hready
    exact hready

/-- What a step may do to the table: nothing that left it returns or is granted again. -/
structure Moves (p q : SessionPreparations Source CommitState) : Prop where
  capacity : q.capacity = p.capacity
  bounded : p.readyCount ≤ p.capacity → q.readyCount ≤ q.capacity
  nextEntry : p.nextEntry ≤ q.nextEntry
  stale : ∀ h, h < p.nextEntry → q.InTable h → p.InTable h
  reservations : ∃ new, q.reservations = p.reservations ++ new ∧
    ∀ reservation ∈ new, p.InTable reservation.entry

theorem Moves.refl (p : SessionPreparations Source CommitState) : Moves p p where
  capacity := rfl
  bounded h := h
  nextEntry := Nat.le_refl _
  stale _ _ h := h
  reservations := ⟨[], (List.append_nil _).symm, nofun⟩

theorem Dropped.moves {p q : SessionPreparations Source CommitState} (hd : Dropped p q)
    (hcapacity : q.capacity = p.capacity)
    (hbounded : p.readyCount ≤ p.capacity → q.readyCount ≤ q.capacity) : Moves p q where
  capacity := hcapacity
  bounded := hbounded
  nextEntry := Nat.le_of_eq hd.nextEntry.symm
  stale h _ hin := by
    obtain ⟨w, hw⟩ := hd.entry h
    rw [InTable, hw] at hin
    rcases hd.at? (p.heap h).id with hsame | hnone
    · rw [InTable, ← hsame]
      exact hin
    · rw [hnone] at hin
      cases hin
  reservations := ⟨[], by rw [hd.reservations, List.append_nil], nofun⟩

theorem Revised.moves {p q : SessionPreparations Source CommitState} {h : Nat}
    (hr : Revised p q h) (hphase : (q.heap h).phase = .ready → (p.heap h).phase = .ready)
    (hreservations : ∃ new, q.reservations = p.reservations ++ new ∧
      ∀ reservation ∈ new, p.InTable reservation.entry) : Moves p q where
  capacity := hr.capacity
  bounded hle := by
    rw [hr.capacity]
    exact (hr.readyCount_mono hphase).trans hle
  nextEntry := Nat.le_of_eq hr.nextEntry.symm
  stale k _ hin := (hr.inTable k).mp hin
  reservations := hreservations

theorem remove_moves {p : SessionPreparations Source CommitState} (hp : p.WellKept) (h : Nat) :
    Moves p (p.remove h) := by
  apply (remove_dropped hp h).moves (capacity_remove p h)
  intro hle
  rw [capacity_remove]
  exact (readyCount_remove_le p h).trans hle

theorem WellKept.ready_unpromised {p : SessionPreparations Source CommitState}
    (hp : p.WellKept) {id : String} {h : Nat} (hat : p.at? id = some h)
    (hready : (p.heap h).phase = .ready) : (p.heap h).reservationSettled = none := by
  cases hpromise : (p.heap h).reservationSettled with
  | none => rfl
  | some w =>
    have := (hp.promised id h hat).mpr (by rw [hpromise]; rfl)
    rw [hready] at this
    cases this

theorem touch_moves {p : SessionPreparations Source CommitState} (hp : p.WellKept) {h : Nat}
    (hin : p.InTable h) : Moves p (p.touch h) := by
  apply (touch_dropped hin fun id k => hp.ready_unpromised).moves (capacity_touch p h)
  intro hle
  rw [capacity_touch]
  exact readyCount_touch hin (Nat.le_succ_of_le hle)

@[simp] theorem write_self (p : SessionPreparations Source CommitState) (h : Nat) :
    p.write h (p.heap h) = p := by
  simp [write]

def readied (p : SessionPreparations Source CommitState) (h : Nat)
    (entry : PreparationEntry Source) : SessionPreparations Source CommitState :=
  (p.write h { entry with phase := .ready }).settle h

theorem makeReady_write {p : SessionPreparations Source CommitState} {h : Nat}
    {entry : PreparationEntry Source} (hid : entry.id = (p.heap h).id) (hin : p.InTable h) :
    (p.write h entry).makeReady h = (p.readied h entry).touch h := by
  have hin' : (p.write h entry).InTable h := by
    simp only [InTable, write, Function.update_self, hid]
    exact hin
  rw [makeReady, if_pos hin', readied]
  simp [write]

theorem readied_heap (p : SessionPreparations Source CommitState) (h : Nat)
    (entry : PreparationEntry Source) : (p.readied h entry).heap h =
      { entry with phase := .ready, reservationSettled := none } := by
  simp [readied, write, settle]

theorem readied_revised {p : SessionPreparations Source CommitState} {h : Nat}
    {entry : PreparationEntry Source} (hid : entry.id = (p.heap h).id)
    (hpromise : entry.reservationSettled = (p.heap h).reservationSettled) :
    Revised p (p.readied h entry) h where
  entries := rfl
  nextEntry := rfl
  capacity := rfl
  other k hk := by simp [readied, write, settle, hk]
  id := by simp [readied, write, settle, hid]
  settled w hw := by simp [readied, write, settle, hw]
  waiters w hw := by
    left
    simp [readied, write, settle, hpromise, hw]

theorem settleResult_heap (p : SessionPreparations Source CommitState) (h : Nat)
    (result : Except String Source) :
    (p.settleResult h result).heap h = { p.heap h with result := some result } := by
  simp [settleResult, write]

theorem settleResult_heap_of_ne (p : SessionPreparations Source CommitState) {h k : Nat}
    (result : Except String Source) (hk : k ≠ h) :
    (p.settleResult h result).heap k = p.heap k := by
  simp [settleResult, write, hk]

theorem Revised.settleResult {p q : SessionPreparations Source CommitState} {h : Nat}
    (hr : Revised p q h) (result : Except String Source) :
    Revised p (q.settleResult h result) h where
  entries := hr.entries
  nextEntry := hr.nextEntry
  capacity := hr.capacity
  other k hk := (settleResult_heap_of_ne q result hk).trans (hr.other k hk)
  id := by
    rw [settleResult_heap]
    exact hr.id
  settled := hr.settled
  waiters w hw := by
    rw [settleResult_heap]
    exact hr.waiters w hw

theorem Revised.refl (p : SessionPreparations Source CommitState) (h : Nat) : Revised p p h where
  entries := rfl
  nextEntry := rfl
  capacity := rfl
  other _ _ := rfl
  id := rfl
  settled _ hw := hw
  waiters _ hw := .inr hw

theorem Dropped.settleResult {p q : SessionPreparations Source CommitState} (hd : Dropped p q)
    (h : Nat) (result : Except String Source) :
    Dropped (p.settleResult h result) (q.settleResult h result) where
  nextEntry := hd.nextEntry
  reservations := hd.reservations
  entry k := by
    obtain ⟨w, hw⟩ := hd.entry k
    refine ⟨w, ?_⟩
    by_cases hk : k = h
    · rw [hk] at hw ⊢
      rw [settleResult_heap, settleResult_heap, hw]
    · rw [settleResult_heap_of_ne q result hk, settleResult_heap_of_ne p result hk, hw]
  at? := hd.at?
  kept id k hat := by
    by_cases hk : k = h
    · subst hk
      rw [settleResult_heap, settleResult_heap, hd.kept id k hat]
    · rw [settleResult_heap_of_ne q result hk, settleResult_heap_of_ne p result hk,
        hd.kept id k hat]
  settled := hd.settled
  waiters id k w hat hnone hw := by
    apply hd.waiters id k w hat hnone
    by_cases hk : k = h
    · subst hk
      rw [settleResult_heap] at hw
      exact hw
    · rw [settleResult_heap_of_ne p result hk] at hw
      exact hw

theorem readyCount_settleResult (p : SessionPreparations Source CommitState) (h : Nat)
    (result : Except String Source) : (p.settleResult h result).readyCount = p.readyCount := by
  apply @readyCount_congr _ _ p (p.settleResult h result) rfl
  intro k
  by_cases hk : k = h
  · rw [hk, settleResult_heap]
  · rw [settleResult_heap_of_ne p result hk]

theorem settleResult_inTable (p : SessionPreparations Source CommitState) (h k : Nat)
    (result : Except String Source) : (p.settleResult h result).InTable k ↔ p.InTable k :=
  ((Revised.refl p h).settleResult result).inTable k

theorem Moves.settleResult {p q : SessionPreparations Source CommitState} (hm : Moves p q)
    (h : Nat) (result : Except String Source) : Moves p (q.settleResult h result) where
  capacity := hm.capacity
  bounded hle := by
    rw [readyCount_settleResult]
    exact hm.bounded hle
  nextEntry := hm.nextEntry
  stale k hlt hin := hm.stale k hlt ((settleResult_inTable q h k result).mp hin)
  reservations := hm.reservations

theorem Revised.touch_moves {p q : SessionPreparations Source CommitState} {h : Nat}
    (hp : p.WellKept) (hr : Revised p q h) (hin : p.InTable h)
    (hd : Dropped q (q.touch h)) (hreservations : q.reservations = p.reservations) :
    Moves p (q.touch h) where
  capacity := (capacity_touch q h).trans hr.capacity
  bounded hle := by
    rw [capacity_touch]
    apply readyCount_touch ((hr.inTable h).mpr hin)
    rw [hr.capacity]
    exact (hr.readyCount_le hp).trans (Nat.succ_le_succ hle)
  nextEntry := Nat.le_of_eq (hd.nextEntry.trans hr.nextEntry).symm
  stale k _ hk := by
    obtain ⟨w, hw⟩ := hd.entry k
    apply (hr.inTable k).mp
    rw [InTable, hw] at hk
    rcases hd.at? (q.heap k).id with hsame | hnone
    · rw [InTable, ← hsame]
      exact hk
    · rw [hnone] at hk
      cases hk
  reservations := ⟨[], by rw [hd.reservations, hreservations, List.append_nil], nofun⟩

theorem readied_dropped {p : SessionPreparations Source CommitState} (hp : p.WellKept) {h : Nat}
    {entry : PreparationEntry Source} (hid : entry.id = (p.heap h).id)
    (hpromise : entry.reservationSettled = (p.heap h).reservationSettled) (hin : p.InTable h) :
    Dropped (p.readied h entry) ((p.readied h entry).touch h) := by
  have hr := readied_revised hid hpromise
  apply touch_dropped ((hr.inTable h).mpr hin)
  intro id k hat hready
  by_cases hk : k = h
  · rw [hk, readied_heap]
  · rw [hr.other k hk] at hready ⊢
    rw [hr.at?] at hat
    exact hp.ready_unpromised hat hready

theorem create_moves {p : SessionPreparations Source CommitState} (hp : p.WellKept) {id : String}
    (hnone : p.at? id = none) : Moves p (p.create id) := by
  have hnew := OrderedMap.notMem_keys_of_get? hnone
  have hat : ∀ other, (p.create id).at? other =
      if other = id then some p.nextEntry else p.at? other := OrderedMap.get?_set_new hnew _
  have hheap : ∀ k, k < p.nextEntry → (p.create id).heap k = p.heap k := by
    intro k hk
    simp [create, Nat.ne_of_lt hk]
  constructor
  · rfl
  · intro hle
    have hsame : (p.create id).readyCount = p.readyCount := by
      rw [readyCount, readyCount, create, OrderedMap.entries_set_new hnew, List.countP_append]
      have hlast : List.countP (p.create id).isReady [(id, p.nextEntry)] = 0 := by
        simp [isReady, create, PreparationEntry.fresh]
      have hfront : List.countP (p.create id).isReady p.entries.entries =
          List.countP p.isReady p.entries.entries := by
        apply List.countP_congr
        intro entry hentry
        have hlt := (hp.entry_id entry.1 entry.2 (OrderedMap.mem_entries_iff.mp hentry)).1
        rw [isReady, isReady, hheap _ hlt]
      exact hlast ▸ hfront
    exact hsame ▸ hle
  · exact Nat.le_succ _
  · intro k hk hin
    rw [InTable, hheap k hk, hat] at hin
    split at hin
    · have := Option.some.inj hin
      omega
    · exact hin
  · exact ⟨[], (List.append_nil _).symm, nofun⟩

end SessionPreparations

end Harness.Persistence
