import Harness.Foundation.OrderedMap
import Mathlib.Data.List.Induction

namespace Harness.Client

open Harness.Foundation

variable {V : Type}

structure ProjectionsBaseline (V : Type) where
  asOfSeq : Int
  values : OrderedMap String V

structure Row (V : Type) where
  value : V
  seq : Int

structure ProjectionValueStore (V : Type) where
  rows : OrderedMap String (Row V)

namespace ProjectionValueStore

def fresh : ProjectionValueStore V := ⟨.empty⟩

variable (store : ProjectionValueStore V)

def get (key : String) : Option V := (store.rows.get? key).map Row.value

def apply (key : String) (value : V) (seq : Int) : ProjectionValueStore V :=
  match store.rows.get? key with
  | some row => if seq ≤ row.seq then store else ⟨store.rows.set key ⟨value, seq⟩⟩
  | none => ⟨store.rows.set key ⟨value, seq⟩⟩

def seed (baseline : ProjectionsBaseline V) : ProjectionValueStore V :=
  let applied := baseline.values.entries.foldl
    (fun store entry => store.apply entry.1 entry.2 baseline.asOfSeq) store
  ⟨applied.rows.filter fun key row =>
    baseline.values.has key || decide (baseline.asOfSeq < row.seq)⟩

def truncate (lastSeq : Int) : ProjectionValueStore V :=
  ⟨store.rows.filter fun _ row => decide (row.seq ≤ lastSeq)⟩

end ProjectionValueStore

inductive Report (V : Type)
  | frame (key : String) (value : V) (seq : Int)
  | baseline (page : ProjectionsBaseline V)

/-- What a report says of a key: its value as of a seq, or that it has none. -/
def Report.about (key : String) : Report V → Option (Int × Option V)
  | .frame other value seq => if key = other then some (seq, some value) else none
  | .baseline page => some (page.asOfSeq, page.values.get? key)

namespace ProjectionValueStore

def receive (store : ProjectionValueStore V) : Report V → ProjectionValueStore V
  | .frame key value seq => store.apply key value seq
  | .baseline page => store.seed page

def deliver (store : ProjectionValueStore V) (reports : List (Report V)) :
    ProjectionValueStore V :=
  reports.foldl receive store

end ProjectionValueStore

def Row.take (seq : Int) : Option V → Option (Row V) → Option (Row V)
  | none, none => none
  | none, some row => if seq < row.seq then some row else none
  | some value, none => some ⟨value, seq⟩
  | some value, some row => if seq ≤ row.seq then some row else some ⟨value, seq⟩

namespace ProjectionValueStore

variable (store : ProjectionValueStore V)

theorem get?_apply (key other : String) (value : V) (seq : Int) :
    (store.apply key value seq).rows.get? other =
      if other = key then Row.take seq (some value) (store.rows.get? other)
      else store.rows.get? other := by
  by_cases hkey : other = key
  · subst hkey
    rw [if_pos rfl, apply]
    cases hrow : store.rows.get? other with
    | none => exact OrderedMap.get?_set_self _ _ _
    | some row =>
      simp only [Row.take]
      by_cases hseq : seq ≤ row.seq
      · rw [if_pos hseq, if_pos hseq, hrow]
      · rw [if_neg hseq, if_neg hseq]
        exact OrderedMap.get?_set_self _ _ _
  · rw [if_neg hkey, apply]
    cases store.rows.get? key with
    | none => rw [OrderedMap.get?_set, if_neg hkey]
    | some row =>
      dsimp only
      split
      · rfl
      · rw [OrderedMap.get?_set, if_neg hkey]

theorem get?_applyAll (entries : List (String × V)) (hdistinct : (entries.map Prod.fst).Nodup)
    (seq : Int) (key : String) :
    (entries.foldl (fun store entry => store.apply entry.1 entry.2 seq) store).rows.get? key =
      match entries.lookup key with
      | some value => Row.take seq (some value) (store.rows.get? key)
      | none => store.rows.get? key := by
  induction entries generalizing store with
  | nil => rfl
  | cons entry entries ih =>
    obtain ⟨name, value⟩ := entry
    rw [List.map_cons, List.nodup_cons] at hdistinct
    rw [List.foldl_cons, ih _ hdistinct.2, get?_apply, List.lookup_cons]
    by_cases hkey : key = name
    · subst hkey
      have habsent : entries.lookup key = none := by
        rw [List.lookup_eq_none_iff]
        intro entry hentry
        rw [bne_iff_ne]
        intro hkey
        exact hdistinct.1 (List.mem_map.mpr ⟨entry, hentry, hkey.symm⟩)
      rw [habsent, beq_self_eq_true, if_pos rfl]
    · rw [if_neg hkey, beq_false_of_ne hkey]

theorem get?_seed (baseline : ProjectionsBaseline V) (key : String) :
    (store.seed baseline).rows.get? key =
      Row.take baseline.asOfSeq (baseline.values.get? key) (store.rows.get? key) := by
  have happlied := get?_applyAll store baseline.values.entries baseline.values.nodup
    baseline.asOfSeq key
  change _ = (match baseline.values.get? key with
    | some value => Row.take baseline.asOfSeq (some value) (store.rows.get? key)
    | none => store.rows.get? key) at happlied
  rw [seed, OrderedMap.get?_filter, happlied]
  cases hvalue : baseline.values.get? key with
  | some value =>
    have hhas := OrderedMap.has_iff.mpr (OrderedMap.mem_keys_of_get? hvalue)
    simp only [hhas, Bool.true_or]
    cases Row.take baseline.asOfSeq (some value) (store.rows.get? key) <;> rfl
  | none =>
    have hhas : baseline.values.has key = false :=
      decide_eq_false (OrderedMap.notMem_keys_of_get? hvalue)
    cases store.rows.get? key with
    | none => rfl
    | some row =>
      simp only [hhas, Bool.false_or, Option.filter_some, Row.take, decide_eq_true_eq]

theorem get?_receive (report : Report V) (key : String) :
    (store.receive report).rows.get? key =
      match report.about key with
      | some (seq, value) => Row.take seq value (store.rows.get? key)
      | none => store.rows.get? key := by
  cases report with
  | frame name value seq =>
    rw [receive, get?_apply, Report.about]
    by_cases hkey : key = name
    · rw [if_pos hkey, if_pos hkey]
    · rw [if_neg hkey, if_neg hkey]
  | baseline page => exact get?_seed store page key

theorem deliver_snoc (reports : List (Report V)) (report : Report V) :
    store.deliver (reports ++ [report]) = (store.deliver reports).receive report := by
  rw [deliver, List.foldl_append]
  rfl

end ProjectionValueStore

section Order

variable {reports front back : List (Report V)} {report : Report V} {key : String}

def Agree (reports : List (Report V)) : Prop :=
  ∀ key seq first second, (∃ report ∈ reports, report.about key = some (seq, first)) →
    (∃ report ∈ reports, report.about key = some (seq, second)) → first = second

structure Deliveries (V : Type) where
  reports : List (Report V)
  agree : Agree reports

structure Latest (reports : List (Report V)) (key : String) (seq : Int) (value : Option V) :
    Prop where
  reported : ∃ report ∈ reports, report.about key = some (seq, value)
  greatest : ∀ report ∈ reports, ∀ other otherValue,
    report.about key = some (other, otherValue) → other ≤ seq

def Unreported (reports : List (Report V)) (key : String) : Prop :=
  ∀ report ∈ reports, report.about key = none

def Stale (front : List (Report V)) (report : Report V) (key : String) : Prop :=
  ∃ seq value, report.about key = some (seq, value) ∧
    ∃ earlier ∈ front, ∃ other otherValue,
      earlier.about key = some (other, otherValue) ∧ seq ≤ other

/-- Each key has what the report of the greatest seq about it says, and no stale report changes
one. -/
structure Ordered (reports : List (Report V)) : Prop where
  latest : ∀ key, let value := (ProjectionValueStore.fresh.deliver reports).get key
    Unreported reports key ∧ value = none ∨ ∃ seq, Latest reports key seq value
  steady : ∀ front report back, reports = front ++ report :: back → ∀ key, Stale front report key →
    (ProjectionValueStore.fresh.deliver (front ++ [report])).get key =
      (ProjectionValueStore.fresh.deliver front).get key

/-- A value that comes behind an omission of its key at its seq or past it has a newer value than
that omission before it. -/
def Preceded (front : List (Report V)) (report : Report V) (key : String) : Prop :=
  ∀ seq value, report.about key = some (seq, some value) →
    ∀ omission ∈ front, ∀ cut, omission.about key = some (cut, none) → seq ≤ cut →
      ∃ newer ∈ front, ∃ other otherValue,
        newer.about key = some (other, some otherValue) ∧ cut < other

def NoneBehindOmission (reports : List (Report V)) : Prop :=
  ∀ front report back, reports = front ++ report :: back → ∀ key, Preceded front report key

def Current (reports : List (Report V)) (key : String) : Option (Row V) → Prop
  | some row => Latest reports key row.seq (some row.value)
  | none => Unreported reports key ∨ ∃ seq, Latest reports key seq none

theorem Agree.of_append (h : Agree (front ++ back)) : Agree front := by
  rintro key seq first second ⟨report, hreport, hfirst⟩ ⟨other, hother, hsecond⟩
  exact h key seq first second ⟨report, List.mem_append_left _ hreport, hfirst⟩
    ⟨other, List.mem_append_left _ hother, hsecond⟩

theorem Latest.keep {seq : Int} {value : Option V} (h : Latest front key seq value)
    (hreport : ∀ other otherValue, report.about key = some (other, otherValue) → other ≤ seq) :
    Latest (front ++ [report]) key seq value where
  reported := by
    obtain ⟨earlier, hearlier, hvalue⟩ := h.reported
    exact ⟨earlier, List.mem_append_left _ hearlier, hvalue⟩
  greatest := by
    intro other hother
    rcases List.mem_append.mp hother with hother | hother
    · exact h.greatest other hother
    · cases List.mem_singleton.mp hother
      exact hreport

theorem Latest.new {seq : Int} {value : Option V} (hvalue : report.about key = some (seq, value))
    (h : ∀ earlier ∈ front, ∀ other otherValue,
      earlier.about key = some (other, otherValue) → other ≤ seq) :
    Latest (front ++ [report]) key seq value where
  reported := ⟨report, List.mem_append_right _ (List.mem_singleton_self report), hvalue⟩
  greatest := by
    intro other hother
    rcases List.mem_append.mp hother with hother | hother
    · exact h other hother
    · cases List.mem_singleton.mp hother
      intro seq' value' heq
      rw [hvalue, Option.some.injEq, Prod.mk.injEq] at heq
      exact Int.le_of_eq heq.1.symm

theorem Current.idle {row : Option (Row V)} (h : Current front key row)
    (hreport : report.about key = none) : Current (front ++ [report]) key row := by
  have hkeep : ∀ {seq value}, Latest front key seq value →
      Latest (front ++ [report]) key seq value := by
    intro seq value hlatest
    apply hlatest.keep
    intro other otherValue heq
    rw [hreport] at heq
    cases heq
  cases row with
  | some row => exact hkeep h
  | none =>
    rcases h with hnone | ⟨seq, hlatest⟩
    · left
      intro other hother
      rcases List.mem_append.mp hother with hother | hother
      · exact hnone other hother
      · cases List.mem_singleton.mp hother
        exact hreport
    · exact Or.inr ⟨seq, hkeep hlatest⟩

theorem Latest.next {seq other : Int} {value otherValue : Option V}
    (h : Latest front key other otherValue) (hvalue : report.about key = some (seq, value))
    (hseq : other ≤ seq) : Latest (front ++ [report]) key seq value := by
  apply Latest.new hvalue
  intro earlier hearlier seq' value' heq
  exact Int.le_trans (h.greatest earlier hearlier seq' value' heq) hseq

theorem Latest.past {seq other : Int} {value otherValue : Option V}
    (h : Latest front key other otherValue) (hvalue : report.about key = some (seq, value))
    (hseq : seq ≤ other) : Latest (front ++ [report]) key other otherValue := by
  apply h.keep
  intro seq' value' heq
  rw [hvalue, Option.some.injEq, Prod.mk.injEq] at heq
  rw [← heq.1]
  exact hseq

theorem Latest.first {seq : Int} {value : Option V} (h : Unreported front key)
    (hvalue : report.about key = some (seq, value)) :
    Latest (front ++ [report]) key seq value := by
  apply Latest.new hvalue
  intro earlier hearlier seq' value' heq
  rw [h earlier hearlier] at heq
  cases heq

theorem Preceded.of_latest {seq cut : Int} {value : V} (h : Preceded front report key)
    (hvalue : report.about key = some (seq, some value)) (hlatest : Latest front key cut none) :
    cut < seq := by
  by_contra hseq
  obtain ⟨omission, homission, habout⟩ := hlatest.reported
  obtain ⟨newer, hnewer, other, otherValue, hother, hlt⟩ :=
    h seq value hvalue omission homission cut habout (Int.not_lt.mp hseq)
  have hle := hlatest.greatest newer hnewer other (some otherValue) hother
  exact absurd hlt (Int.not_lt.mpr hle)

theorem Current.take {row : Option (Row V)} {seq : Int} {value : Option V}
    (h : Current front key row) (hvalue : report.about key = some (seq, value))
    (hpreceded : Preceded front report key) :
    Current (front ++ [report]) key (Row.take seq value row) := by
  cases row with
  | some row =>
    cases value with
    | some value =>
      rw [Row.take]
      split
      · next hseq => exact Latest.past h hvalue hseq
      · next hseq => exact Latest.next h hvalue (Int.le_of_lt (Int.not_le.mp hseq))
    | none =>
      rw [Row.take]
      split
      · next hseq => exact Latest.past h hvalue (Int.le_of_lt hseq)
      · next hseq => exact Or.inr ⟨seq, Latest.next h hvalue (Int.not_lt.mp hseq)⟩
  | none =>
    cases value with
    | some value =>
      rw [Row.take]
      rcases h with hnone | ⟨cut, hlatest⟩
      · exact Latest.first hnone hvalue
      · exact hlatest.next hvalue (Int.le_of_lt (hpreceded.of_latest hvalue hlatest))
    | none =>
      rw [Row.take]
      right
      rcases h with hnone | ⟨cut, hlatest⟩
      · exact ⟨seq, Latest.first hnone hvalue⟩
      · rcases Int.le_total seq cut with hseq | hseq
        · exact ⟨cut, hlatest.past hvalue hseq⟩
        · exact ⟨seq, hlatest.next hvalue hseq⟩

theorem Current.receive {store : ProjectionValueStore V}
    (h : Current front key (store.rows.get? key)) (hpreceded : Preceded front report key) :
    Current (front ++ [report]) key ((store.receive report).rows.get? key) := by
  rw [ProjectionValueStore.get?_receive]
  cases habout : report.about key with
  | none => exact h.idle habout
  | some about => exact h.take habout hpreceded

theorem noneBehindOmission_snoc :
    NoneBehindOmission (front ++ [report]) ↔
      NoneBehindOmission front ∧ ∀ key, Preceded front report key := by
  constructor
  · intro h
    constructor
    · intro first middle last heq key
      apply h first middle (last ++ [report])
      rw [heq, List.append_assoc, List.cons_append]
    · exact h front report [] rfl
  · rintro ⟨hfront, hreport⟩ first middle last heq
    rcases List.eq_nil_or_concat last with rfl | ⟨last, final, rfl⟩
    · obtain ⟨rfl, hmiddle⟩ := List.append_inj' heq rfl
      cases hmiddle
      exact hreport
    · rw [List.concat_eq_append, ← List.cons_append, ← List.append_assoc] at heq
      exact hfront first middle last (List.append_inj_left' heq rfl)

theorem NoneBehindOmission.current {reports : List (Report V)} (h : NoneBehindOmission reports)
    (key : String) :
    Current reports key ((ProjectionValueStore.fresh.deliver reports).rows.get? key) := by
  induction reports using List.reverseRecOn with
  | nil =>
    left
    intro report hreport
    cases hreport
  | append_singleton front report ih =>
    rw [noneBehindOmission_snoc] at h
    rw [ProjectionValueStore.deliver_snoc]
    exact (ih h.1).receive (h.2 key)

theorem Current.stale {row : Option (Row V)} {seq : Int} {value : Option V}
    (h : Current front key row) (hagree : Agree (front ++ report :: back))
    (hvalue : report.about key = some (seq, value)) (hstale : Stale front report key)
    (hpreceded : Preceded front report key) : Row.take seq value row = row := by
  obtain ⟨seq', value', habout, earlier, hearlier, other, otherValue, hother, hseq⟩ := hstale
  rw [hvalue, Option.some.injEq, Prod.mk.injEq] at habout
  rw [← habout.1] at hseq
  have hreport : report ∈ front ++ report :: back :=
    List.mem_append_right _ List.mem_cons_self
  cases row with
  | some row =>
    have hle := Int.le_trans hseq (h.greatest earlier hearlier other otherValue hother)
    cases value with
    | some value => exact if_pos hle
    | none =>
      apply if_pos
      apply lt_of_le_of_ne hle
      rintro rfl
      obtain ⟨latest, hlatest, heq⟩ := h.reported
      have hsame := hagree key row.seq (some row.value) none
        ⟨latest, List.mem_append_left _ hlatest, heq⟩ ⟨report, hreport, hvalue⟩
      cases hsame
  | none =>
    cases value with
    | none => rfl
    | some value =>
      rcases h with hnone | ⟨cut, hlatest⟩
      · rw [hnone earlier hearlier] at hother
        cases hother
      · have hlt := hpreceded.of_latest hvalue hlatest
        have hle := hlatest.greatest earlier hearlier other otherValue hother
        exact absurd hlt (Int.not_lt.mpr (Int.le_trans hseq hle))

theorem NoneBehindOmission.steady (h : NoneBehindOmission (front ++ report :: back))
    (hagree : Agree (front ++ report :: back)) (hstale : Stale front report key) :
    (ProjectionValueStore.fresh.deliver (front ++ [report])).get key =
      (ProjectionValueStore.fresh.deliver front).get key := by
  have hfront : NoneBehindOmission front := by
    intro first middle last heq
    apply h first middle (last ++ report :: back)
    rw [heq, List.append_assoc, List.cons_append]
  have hpreceded := h front report back rfl key
  have hcurrent := hfront.current key
  obtain ⟨seq, value, habout, hlater⟩ := id hstale
  rw [ProjectionValueStore.get, ProjectionValueStore.deliver_snoc,
    ProjectionValueStore.get?_receive, habout]
  simp only [hcurrent.stale hagree habout hstale hpreceded]
  rfl

theorem NoneBehindOmission.latest {reports : List (Report V)} (h : NoneBehindOmission reports)
    (key : String) :
    let value := (ProjectionValueStore.fresh.deliver reports).get key
    Unreported reports key ∧ value = none ∨ ∃ seq, Latest reports key seq value := by
  have hcurrent := h.current key
  rw [ProjectionValueStore.get]
  cases hrow : (ProjectionValueStore.fresh.deliver reports).rows.get? key with
  | some row =>
    rw [hrow] at hcurrent
    exact Or.inr ⟨row.seq, hcurrent⟩
  | none =>
    rw [hrow] at hcurrent
    rcases hcurrent with hnone | ⟨seq, hlatest⟩
    · exact Or.inl ⟨hnone, rfl⟩
    · exact Or.inr ⟨seq, hlatest⟩

theorem Preceded.of_steady (hagree : Agree (front ++ [report]))
    (hfront : NoneBehindOmission front)
    (hsteady : Stale front report key →
      (ProjectionValueStore.fresh.deliver (front ++ [report])).get key =
        (ProjectionValueStore.fresh.deliver front).get key) :
    Preceded front report key := by
  intro seq value hvalue omission homission cut hcut hseq
  have hcurrent := hfront.current key
  have hsame := hsteady ⟨seq, some value, hvalue, omission, homission, cut, none, hcut, hseq⟩
  rw [ProjectionValueStore.get, ProjectionValueStore.get, ProjectionValueStore.deliver_snoc,
    ProjectionValueStore.get?_receive, hvalue] at hsame
  cases hrow : (ProjectionValueStore.fresh.deliver front).rows.get? key with
  | none =>
    rw [hrow] at hsame
    cases hsame
  | some row =>
    rw [hrow] at hcurrent
    obtain ⟨newer, hnewer, habout⟩ := hcurrent.reported
    refine ⟨newer, hnewer, row.seq, row.value, habout, ?_⟩
    apply lt_of_le_of_ne (hcurrent.greatest omission homission cut none hcut)
    rintro rfl
    have hboth := hagree.of_append key row.seq (some row.value) none
      ⟨newer, hnewer, habout⟩ ⟨omission, homission, hcut⟩
    cases hboth

theorem Ordered.noneBehindOmission {reports : List (Report V)} (hagree : Agree reports)
    (h : ∀ front report back, reports = front ++ report :: back → ∀ key, Stale front report key →
      (ProjectionValueStore.fresh.deliver (front ++ [report])).get key =
        (ProjectionValueStore.fresh.deliver front).get key) :
    NoneBehindOmission reports := by
  induction reports using List.reverseRecOn with
  | nil =>
    intro first middle last heq
    cases List.append_eq_nil_iff.mp heq.symm |>.2
  | append_singleton front report ih =>
    have hfront : NoneBehindOmission front := by
      apply ih hagree.of_append
      intro first middle last heq
      apply h first middle (last ++ [report])
      rw [heq, List.append_assoc, List.cons_append]
    rw [noneBehindOmission_snoc]
    exact ⟨hfront, fun key => Preceded.of_steady hagree hfront (h front report [] rfl key)⟩

end Order

theorem ordered_iff (deliveries : Deliveries V) :
    Ordered deliveries.reports ↔ NoneBehindOmission deliveries.reports := by
  constructor
  · intro h
    exact Ordered.noneBehindOmission deliveries.agree h.steady
  · intro h
    constructor
    · exact h.latest
    · intro front report back heq key hstale
      have hagree := deliveries.agree
      rw [heq] at h hagree
      exact h.steady hagree hstale

def revived : Deliveries Nat where
  reports := [.baseline ⟨5, .empty⟩, .frame "title" 1 3]
  agree := by
    rintro key seq first second ⟨report, hreport, hfirst⟩ ⟨other, hother, hsecond⟩
    simp only [List.mem_cons, List.not_mem_nil, or_false] at hreport hother
    rcases hreport with rfl | rfl <;> rcases hother with rfl | rfl <;>
      simp only [Report.about, Option.ite_none_right_eq_some, Option.some.injEq,
        Prod.mk.injEq] at hfirst hsecond
    · exact hfirst.2.symm.trans hsecond.2
    · omega
    · omega
    · exact hfirst.2.2.symm.trans hsecond.2.2

theorem not_ordered_revived : ¬ Ordered revived.reports := by
  intro h
  have hsteady := h.steady [.baseline ⟨5, .empty⟩] (.frame "title" 1 3) [] rfl "title"
    ⟨3, some 1, rfl, .baseline ⟨5, .empty⟩, List.mem_singleton_self _, 5, none, rfl, by decide⟩
  exact absurd hsteady (by decide)

end Harness.Client
