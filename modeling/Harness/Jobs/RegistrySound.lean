import Harness.Jobs.Registry

namespace Harness.Jobs

open Harness.Foundation

namespace JobEvent

def claim? : JobEvent → Option Nat
  | claimed job => some job
  | _ => none

def cancel? : JobEvent → Option Nat
  | cancelled job => some job
  | _ => none

def settle? : JobEvent → Option (Nat × JobSnapshot × List Nat)
  | settled job snapshot live => some (job, snapshot, live)
  | _ => none

def tell? : JobEvent → Option (Nat × Nat)
  | told listener job _ => some (listener, job)
  | _ => none

end JobEvent

def claims (log : List JobEvent) : List Nat := log.filterMap JobEvent.claim?

def cancels (log : List JobEvent) : List Nat := log.filterMap JobEvent.cancel?

def settlements (log : List JobEvent) : List (Nat × JobSnapshot × List Nat) :=
  log.filterMap JobEvent.settle?

def notices (log : List JobEvent) : List (Nat × Nat) := log.filterMap JobEvent.tell?

section Log

variable (log added : List JobEvent)

@[simp] theorem claims_append : claims (log ++ added) = claims log ++ claims added :=
  List.filterMap_append

@[simp] theorem cancels_append : cancels (log ++ added) = cancels log ++ cancels added :=
  List.filterMap_append

@[simp] theorem settlements_append :
    settlements (log ++ added) = settlements log ++ settlements added :=
  List.filterMap_append

@[simp] theorem notices_append : notices (log ++ added) = notices log ++ notices added :=
  List.filterMap_append

end Log

def isLiveOf (waits : List Wait) (job wait : Nat) : Bool :=
  (waits[wait]?).any fun record => decide (record.job = job) && record.phase.isLive

def liveOf (waits : List Wait) (job : Nat) : List Nat :=
  (List.range waits.length).filter (isLiveOf waits job)

theorem mem_liveOf {waits : List Wait} {job wait : Nat} :
    wait ∈ liveOf waits job ↔
      ∃ record, waits[wait]? = some record ∧ record.job = job ∧ record.phase.isLive = true := by
  unfold liveOf isLiveOf
  rw [List.mem_filter, List.mem_range]
  constructor
  · rintro ⟨-, hany⟩
    cases hrecord : waits[wait]? with
    | none =>
      rw [hrecord] at hany
      cases hany
    | some record =>
      rw [hrecord, Option.any_some, Bool.and_eq_true, decide_eq_true_iff] at hany
      exact ⟨record, rfl, hany⟩
  · rintro ⟨record, hrecord, hjob, hlive⟩
    refine ⟨(List.getElem?_eq_some_iff.mp hrecord).1, ?_⟩
    rw [hrecord, Option.any_some, hlive, decide_eq_true hjob]
    rfl

theorem nodup_liveOf (waits : List Wait) (job : Nat) : (liveOf waits job).Nodup :=
  List.nodup_range.filter _

theorem liveOf_congr {waits others : List Wait} {job : Nat} (hlength : others.length = waits.length)
    (h : ∀ wait, isLiveOf others job wait = isLiveOf waits job wait) :
    liveOf others job = liveOf waits job := by
  unfold liveOf
  rw [hlength]
  exact List.filter_congr fun wait _ => h wait

theorem liveOf_append (waits : List Wait) (record : Wait) (job : Nat) :
    liveOf (waits ++ [record]) job =
      liveOf waits job ++
        if record.job = job ∧ record.phase.isLive = true then [waits.length] else [] := by
  unfold liveOf
  rw [List.length_append, List.length_singleton, List.range_succ, List.filter_append]
  congr 1
  · apply List.filter_congr
    intro wait hwait
    unfold isLiveOf
    rw [List.getElem?_append_left (List.mem_range.mp hwait)]
  · have hlast : isLiveOf (waits ++ [record]) job waits.length =
        (decide (record.job = job) && record.phase.isLive) := by
      unfold isLiveOf
      rw [List.getElem?_append_right le_rfl, Nat.sub_self]
      rfl
    simp only [List.filter_singleton, hlast, cond_eq_ite, Bool.and_eq_true, decide_eq_true_iff]

theorem isLiveOf_set {waits : List Wait} {wait : Nat} {record : Wait} (job other : Nat)
    (hwait : wait < waits.length) :
    isLiveOf (waits.set wait record) job other =
      if other = wait then decide (record.job = job) && record.phase.isLive
      else isLiveOf waits job other := by
  unfold isLiveOf
  by_cases heq : other = wait
  · subst heq
    rw [List.getElem?_set_self hwait, if_pos rfl]
    rfl
  · rw [List.getElem?_set_ne (Ne.symm heq), if_neg heq]

theorem liveOf_set_same {waits : List Wait} {wait : Nat} {record next : Wait} {job : Nat}
    (hget : waits[wait]? = some record) (hjob : next.job = record.job)
    (hlive : next.phase.isLive = record.phase.isLive) :
    liveOf (waits.set wait next) job = liveOf waits job := by
  have hlength := (List.getElem?_eq_some_iff.mp hget).1
  apply liveOf_congr List.length_set
  intro other
  rw [isLiveOf_set job other hlength]
  split
  · rename_i heq
    subst heq
    unfold isLiveOf
    rw [hget, hjob, hlive]
    rfl
  · rfl

theorem liveOf_set_out {waits : List Wait} {wait : Nat} {record next : Wait}
    (hget : waits[wait]? = some record) (hout : next.phase.isLive = false) (job : Nat) :
    liveOf (waits.set wait next) job = (liveOf waits job).filter (· ≠ wait) := by
  have hlength := (List.getElem?_eq_some_iff.mp hget).1
  unfold liveOf
  rw [List.length_set, List.filter_filter]
  apply List.filter_congr
  intro other _
  rw [isLiveOf_set job other hlength]
  split
  · rename_i heq
    simp [heq, hout]
  · rename_i hne
    simp [hne]

theorem length_filter_ne {entries : List Nat} {entry : Nat} (h : entries.Nodup)
    (hmem : entry ∈ entries) : (entries.filter (· ≠ entry)).length = entries.length - 1 := by
  have herase : entries.filter (· ≠ entry) = entries.erase entry := by
    rw [List.Nodup.erase_eq_filter h]
    apply List.filter_congr
    intro other _
    by_cases heq : other = entry <;> simp [heq]
  rw [herase, List.length_erase_of_mem hmem]

theorem getElem?_resolveWaits (waits : List Wait) (resolvers : List Nat) (wait : Nat) :
    (LocalJobRegistry.resolveWaits waits resolvers)[wait]? =
      (waits[wait]?).map fun record =>
        if wait ∈ resolvers then { record with phase := .resolved } else record := by
  unfold LocalJobRegistry.resolveWaits
  rw [List.getElem?_mapIdx]

theorem liveOf_resolveWaits {waits : List Wait} {resolvers : List Nat}
    (h : ∀ wait ∈ resolvers, ∃ record, waits[wait]? = some record ∧ record.phase = .pending)
    (job : Nat) : liveOf (LocalJobRegistry.resolveWaits waits resolvers) job = liveOf waits job := by
  apply liveOf_congr
  · rw [LocalJobRegistry.resolveWaits, List.length_mapIdx]
  · intro wait
    unfold isLiveOf
    rw [getElem?_resolveWaits]
    by_cases hmem : wait ∈ resolvers
    · obtain ⟨record, hrecord, hphase⟩ := h wait hmem
      rw [hrecord, Option.map_some, if_pos hmem, Option.any_some, Option.any_some, hphase]
      rfl
    · cases waits[wait]? with
      | none => rfl
      | some record => rw [Option.map_some, if_neg hmem]

def Owed (waits : List Wait) (job : Nat) (status : JobStatus) (wait : Nat) : Prop :=
  ∃ record, waits[wait]? = some record ∧ record.job = job ∧
    (record.phase = .resolved ∨ ∃ snapshot, record.phase = .returned snapshot ∧ snapshot.status = status)

structure Attended (waits : List Wait) (job : Nat) (tracked : TrackedTask) : Prop where
  counted : tracked.waiters = (liveOf waits job).length
  resolvers : ∀ wait, wait ∈ tracked.waitResolvers ↔
    ∃ record, waits[wait]? = some record ∧ record.job = job ∧ record.phase = .pending

structure Concluded (jobs : List TrackedTask) (waits : List Wait) (log : List JobEvent) (job : Nat)
    (snapshot : JobSnapshot) (live : List Nat) : Prop where
  found : ∃ tracked, jobs[job]? = some tracked ∧ tracked.status = snapshot.status ∧
    tracked.status.isTerminal = true
  reported : snapshot.reported = true ↔ job ∈ claims log ∨ live ≠ []
  owed : ∀ wait ∈ live, Owed waits job snapshot.status wait

structure Kept (jobs : List TrackedTask) (waits : List Wait) (log : List JobEvent) : Prop where
  attended : ∀ (job : Nat) (tracked : TrackedTask), jobs[job]? = some tracked →
    Attended waits job tracked
  placed : ∀ (wait : Nat) (record : Wait), waits[wait]? = some record → record.job < jobs.length
  claimed : ∀ (job : Nat) (tracked : TrackedTask), jobs[job]? = some tracked →
    tracked.status.isTerminal = false → (tracked.reported = true ↔ job ∈ claims log)
  ended : ∀ (job : Nat) (tracked : TrackedTask), jobs[job]? = some tracked →
    tracked.status.isTerminal = true → tracked.waitResolvers = []
  concluded : ∀ entry ∈ settlements log, Concluded jobs waits log entry.1 entry.2.1 entry.2.2
  settledOnce : ((settlements log).map Prod.fst).Nodup
  told : ∀ notice ∈ notices log, ∃ tracked, jobs[notice.2]? = some tracked ∧
    tracked.status.isTerminal = true
  toldOnce : (notices log).Nodup
  claimsPlaced : ∀ job ∈ claims log, job < jobs.length

theorem kept_nil : Kept [] [] [] where
  attended := fun _ _ h => by cases h
  placed := fun _ _ h => by cases h
  claimed := fun _ _ h => by cases h
  ended := fun _ _ h => by cases h
  concluded := fun _ hmem => absurd hmem List.not_mem_nil
  settledOnce := List.nodup_nil
  told := fun _ hmem => absurd hmem List.not_mem_nil
  toldOnce := List.nodup_nil
  claimsPlaced := fun _ hmem => absurd hmem List.not_mem_nil

theorem getElem?_set_cases {α : Type} {entries : List α} {index other : Nat} {next found : α}
    (h : (entries.set index next)[other]? = some found) :
    (other = index ∧ found = next ∧ index < entries.length) ∨
      (other ≠ index ∧ entries[other]? = some found) := by
  by_cases heq : other = index
  · subst heq
    have hlt := (List.getElem?_eq_some_iff.mp h).1
    rw [List.length_set] at hlt
    rw [List.getElem?_set_self hlt] at h
    exact .inl ⟨rfl, (Option.some.inj h).symm, hlt⟩
  · rw [List.getElem?_set_ne (Ne.symm heq)] at h
    exact .inr ⟨heq, h⟩

theorem getElem?_snoc {α : Type} {entries : List α} {new found : α} {index : Nat}
    (h : (entries ++ [new])[index]? = some found) :
    entries[index]? = some found ∨ (index = entries.length ∧ found = new) := by
  rcases Nat.lt_or_ge index entries.length with hlt | hge
  · rw [List.getElem?_append_left hlt] at h
    exact .inl h
  · have hlength := (List.getElem?_eq_some_iff.mp h).1
    rw [List.length_append, List.length_singleton] at hlength
    have heq : index = entries.length := by omega
    rw [heq, List.getElem?_append_right le_rfl, Nat.sub_self] at h
    exact .inr ⟨heq, (Option.some.inj h).symm⟩

/-- An ended job is found among the jobs after a change that leaves ended jobs as they are. -/
def Lasting (jobs others : List TrackedTask) : Prop :=
  ∀ (job : Nat) (tracked : TrackedTask), jobs[job]? = some tracked → tracked.status.isTerminal = true →
    ∃ other, others[job]? = some other ∧ other.status = tracked.status

theorem lasting_set {jobs : List TrackedTask} {job : Nat} {tracked next : TrackedTask}
    (hjob : jobs[job]? = some tracked)
    (hstatus : tracked.status.isTerminal = true → next.status = tracked.status) :
    Lasting jobs (jobs.set job next) := by
  intro other found hother hterminal
  by_cases heq : other = job
  · subst heq
    rw [hjob] at hother
    cases hother
    exact ⟨next, List.getElem?_set_self (List.getElem?_eq_some_iff.mp hjob).1, hstatus hterminal⟩
  · exact ⟨found, (List.getElem?_set_ne (Ne.symm heq)).trans hother, rfl⟩

theorem Concluded.lasting {jobs others : List TrackedTask} {waits nexts : List Wait}
    {log added : List JobEvent} {job : Nat} {snapshot : JobSnapshot} {live : List Nat}
    (h : Concluded jobs waits log job snapshot live) (hjobs : Lasting jobs others)
    (hwaits : ∀ wait, Owed waits job snapshot.status wait → Owed nexts job snapshot.status wait)
    (hclaims : job ∉ claims added) : Concluded others nexts (log ++ added) job snapshot live where
  found := by
    obtain ⟨tracked, hget, hstatus, hterminal⟩ := h.found
    obtain ⟨other, hother, hsame⟩ := hjobs job tracked hget hterminal
    exact ⟨other, hother, hsame.trans hstatus, by rw [hsame]; exact hterminal⟩
  reported := by
    rw [h.reported, claims_append, List.mem_append]
    constructor
    · exact Or.imp_left Or.inl
    · exact Or.imp_left fun hmem => hmem.resolve_right hclaims
  owed := fun wait hmem => hwaits wait (h.owed wait hmem)

namespace Kept

variable {jobs : List TrackedTask} {waits : List Wait} {log : List JobEvent}

structure Neutral (added : List JobEvent) : Prop where
  claims : claims added = []
  settlements : settlements added = []
  notices : notices added = []

theorem note (h : Kept jobs waits log) {added : List JobEvent} (hadded : Neutral added) :
    Kept jobs waits (log ++ added) where
  attended := h.attended
  placed := h.placed
  claimed := by
    rw [claims_append, hadded.claims, List.append_nil]
    exact h.claimed
  ended := h.ended
  concluded := by
    rw [settlements_append, hadded.settlements, List.append_nil]
    intro entry hmem
    refine (h.concluded entry hmem).lasting (fun _ tracked hget _ => ⟨tracked, hget, rfl⟩)
      (fun _ howed => howed) ?_
    rw [hadded.claims]
    exact List.not_mem_nil
  settledOnce := by
    rw [settlements_append, hadded.settlements, List.append_nil]
    exact h.settledOnce
  told := by
    rw [notices_append, hadded.notices, List.append_nil]
    exact h.told
  toldOnce := by
    rw [notices_append, hadded.notices, List.append_nil]
    exact h.toldOnce
  claimsPlaced := by
    rw [claims_append, hadded.claims, List.append_nil]
    exact h.claimsPlaced

theorem mark (h : Kept jobs waits log) {job : Nat} {tracked next : TrackedTask}
    (hjob : jobs[job]? = some tracked) (hstatus : next.status = tracked.status)
    (hwaiters : next.waiters = tracked.waiters) (hresolvers : next.waitResolvers = tracked.waitResolvers)
    (hreported : tracked.status.isTerminal = false → next.reported = tracked.reported) :
    Kept (jobs.set job next) waits log where
  attended := by
    intro other found hother
    rcases getElem?_set_cases hother with ⟨rfl, rfl, -⟩ | ⟨-, hother⟩
    · have hold := h.attended other tracked hjob
      exact ⟨hwaiters.trans hold.counted, by rw [hresolvers]; exact hold.resolvers⟩
    · exact h.attended other found hother
  placed := by
    rw [List.length_set]
    exact h.placed
  claimed := by
    intro other found hother hactive
    rcases getElem?_set_cases hother with ⟨rfl, rfl, -⟩ | ⟨-, hother⟩
    · rw [hstatus] at hactive
      rw [hreported hactive]
      exact h.claimed other tracked hjob hactive
    · exact h.claimed other found hother hactive
  ended := by
    intro other found hother hterminal
    rcases getElem?_set_cases hother with ⟨rfl, rfl, -⟩ | ⟨-, hother⟩
    · rw [hresolvers]
      exact h.ended other tracked hjob (hstatus ▸ hterminal)
    · exact h.ended other found hother hterminal
  concluded := by
    intro entry hmem
    have hlasting : Concluded (jobs.set job next) waits (log ++ []) entry.1 entry.2.1 entry.2.2 :=
      (h.concluded entry hmem).lasting (lasting_set hjob fun _ => hstatus) (fun _ howed => howed)
        (show entry.1 ∉ claims [] from List.not_mem_nil)
    rwa [List.append_nil] at hlasting
  settledOnce := h.settledOnce
  told := by
    intro notice hmem
    obtain ⟨found, hfound, hterminal⟩ := h.told notice hmem
    obtain ⟨other, hother, hsame⟩ := lasting_set hjob (fun _ => hstatus) notice.2 found hfound hterminal
    exact ⟨other, hother, by rw [hsame]; exact hterminal⟩
  toldOnce := h.toldOnce
  claimsPlaced := by
    rw [List.length_set]
    exact h.claimsPlaced

theorem claim (h : Kept jobs waits log) {job : Nat} {tracked next : TrackedTask} {added : List JobEvent}
    (hjob : jobs[job]? = some tracked) (hactive : tracked.status.isTerminal = false)
    (hnext : next.status.isTerminal = false) (hwaiters : next.waiters = tracked.waiters)
    (hresolvers : next.waitResolvers = tracked.waitResolvers) (hreported : next.reported = true)
    (hclaims : claims added = [job]) (hsettlements : settlements added = [])
    (hnotices : notices added = []) : Kept (jobs.set job next) waits (log ++ added) where
  attended := by
    intro other found hother
    rcases getElem?_set_cases hother with ⟨rfl, rfl, -⟩ | ⟨-, hother⟩
    · have hold := h.attended other tracked hjob
      exact ⟨hwaiters.trans hold.counted, by rw [hresolvers]; exact hold.resolvers⟩
    · exact h.attended other found hother
  placed := by
    rw [List.length_set]
    exact h.placed
  claimed := by
    intro other found hother hfound
    rw [claims_append, hclaims, List.mem_append, List.mem_singleton]
    rcases getElem?_set_cases hother with ⟨rfl, rfl, -⟩ | ⟨hne, hother⟩
    · exact ⟨fun _ => .inr rfl, fun _ => hreported⟩
    · rw [h.claimed other found hother hfound]
      exact ⟨.inl, fun hmem => hmem.resolve_right hne⟩
  ended := by
    intro other found hother hterminal
    rcases getElem?_set_cases hother with ⟨rfl, rfl, -⟩ | ⟨-, hother⟩
    · rw [hnext] at hterminal
      cases hterminal
    · exact h.ended other found hother hterminal
  concluded := by
    rw [settlements_append, hsettlements, List.append_nil]
    intro entry hmem
    have hconcluded := h.concluded entry hmem
    refine hconcluded.lasting (lasting_set hjob ?_) (fun _ howed => howed) ?_
    · intro hterminal
      rw [hactive] at hterminal
      cases hterminal
    · rw [hclaims, List.mem_singleton]
      intro heq
      obtain ⟨found, hfound, -, hterminal⟩ := hconcluded.found
      rw [heq, hjob] at hfound
      cases hfound
      rw [hactive] at hterminal
      cases hterminal
  settledOnce := by
    rw [settlements_append, hsettlements, List.append_nil]
    exact h.settledOnce
  told := by
    rw [notices_append, hnotices, List.append_nil]
    intro notice hmem
    obtain ⟨found, hfound, hterminal⟩ := h.told notice hmem
    have hlasting : Lasting jobs (jobs.set job next) := lasting_set hjob fun hended => by
      rw [hactive] at hended
      cases hended
    obtain ⟨other, hother, hsame⟩ := hlasting notice.2 found hfound hterminal
    exact ⟨other, hother, by rw [hsame]; exact hterminal⟩
  toldOnce := by
    rw [notices_append, hnotices, List.append_nil]
    exact h.toldOnce
  claimsPlaced := by
    rw [claims_append, hclaims, List.length_set]
    intro other hmem
    rcases List.mem_append.mp hmem with hold | hnew
    · exact h.claimsPlaced other hold
    · cases List.mem_singleton.mp hnew
      exact (List.getElem?_eq_some_iff.mp hjob).1

theorem settle (h : Kept jobs waits log) {job : Nat} {tracked next : TrackedTask}
    {added : List JobEvent} {listeners : List Nat}
    (hjob : jobs[job]? = some tracked) (hactive : tracked.status.isTerminal = false)
    (hnext : next.status.isTerminal = true) (hwaiters : next.waiters = tracked.waiters)
    (hresolvers : next.waitResolvers = [])
    (hreported : next.reported = (tracked.reported || decide (0 < tracked.waiters)))
    (hclaims : claims added = [])
    (hsettlements : settlements added = [(job, next.snapshot, liveOf waits job)])
    (hnotices : notices added = listeners.map fun listener => (listener, job))
    (hlisteners : listeners.Nodup) :
    Kept (jobs.set job next) (LocalJobRegistry.resolveWaits waits tracked.waitResolvers)
      (log ++ added) := by
  have hattended := h.attended job tracked hjob
  have hpending : ∀ wait ∈ tracked.waitResolvers,
      ∃ record, waits[wait]? = some record ∧ record.phase = .pending := fun wait hmem =>
    let ⟨record, hrecord, _, hphase⟩ := (hattended.resolvers wait).mp hmem
    ⟨record, hrecord, hphase⟩
  have hlive := liveOf_resolveWaits hpending
  have hlasting : Lasting jobs (jobs.set job next) := lasting_set hjob fun hended => by
    rw [hactive] at hended
    cases hended
  have howed : ∀ {other status wait}, Owed waits other status wait →
      Owed (LocalJobRegistry.resolveWaits waits tracked.waitResolvers) other status wait := by
    rintro other status wait ⟨record, hrecord, hother, hphase⟩
    refine ⟨_, (getElem?_resolveWaits _ _ wait).trans (by rw [hrecord]; rfl), ?_, ?_⟩
    · split
      · exact hother
      · exact hother
    · split
      · exact .inl rfl
      · exact hphase
  have hfresh : job ∉ (settlements log).map Prod.fst := by
    intro hmem
    obtain ⟨entry, hentry, rfl⟩ := List.mem_map.mp hmem
    obtain ⟨found, hfound, -, hterminal⟩ := (h.concluded entry hentry).found
    rw [hjob] at hfound
    cases hfound
    rw [hactive] at hterminal
    cases hterminal
  refine ⟨?_, ?_, ?_, ?_, ?_, ?_, ?_, ?_, ?_⟩
  · intro other found hother
    rcases getElem?_set_cases hother with ⟨rfl, rfl, -⟩ | ⟨hne, hother⟩
    · refine ⟨by rw [hlive, hwaiters]; exact hattended.counted, fun wait => ?_⟩
      rw [hresolvers, getElem?_resolveWaits]
      refine ⟨fun hmem => absurd hmem List.not_mem_nil, ?_⟩
      rintro ⟨record, hrecord, hjob', hphase⟩
      obtain ⟨old, hold, rfl⟩ := Option.map_eq_some_iff.mp hrecord
      split at hphase
      · cases hphase
      · rename_i hnot
        rw [if_neg hnot] at hjob'
        exact absurd ((hattended.resolvers wait).mpr ⟨old, hold, hjob', hphase⟩) hnot
    · have hold := h.attended other found hother
      refine ⟨by rw [hlive]; exact hold.counted, fun wait => ?_⟩
      rw [hold.resolvers wait, getElem?_resolveWaits]
      constructor
      · rintro ⟨record, hrecord, hrecordJob, hphase⟩
        have hnot : wait ∉ tracked.waitResolvers := by
          intro hmem
          obtain ⟨same, hsame, hsameJob, -⟩ := (hattended.resolvers wait).mp hmem
          rw [hrecord] at hsame
          cases hsame
          exact hne (hrecordJob.symm.trans hsameJob)
        refine ⟨record, ?_, hrecordJob, hphase⟩
        rw [hrecord, Option.map_some, if_neg hnot]
      · rintro ⟨record, hrecord, hrecordJob, hphase⟩
        obtain ⟨old, hold, rfl⟩ := Option.map_eq_some_iff.mp hrecord
        split at hphase
        · cases hphase
        · rename_i hnot
          rw [if_neg hnot] at hrecordJob
          exact ⟨old, hold, hrecordJob, hphase⟩
  · intro wait record hrecord
    rw [getElem?_resolveWaits] at hrecord
    obtain ⟨old, hold, rfl⟩ := Option.map_eq_some_iff.mp hrecord
    rw [List.length_set]
    split
    · exact h.placed wait old hold
    · exact h.placed wait old hold
  · intro other found hother hfound
    rw [claims_append, hclaims, List.append_nil]
    rcases getElem?_set_cases hother with ⟨rfl, rfl, -⟩ | ⟨-, hother⟩
    · rw [hnext] at hfound
      cases hfound
    · exact h.claimed other found hother hfound
  · intro other found hother hterminal
    rcases getElem?_set_cases hother with ⟨rfl, rfl, -⟩ | ⟨-, hother⟩
    · exact hresolvers
    · exact h.ended other found hother hterminal
  · rw [settlements_append, hsettlements]
    intro entry hmem
    rcases List.mem_append.mp hmem with hold | hnew
    · refine (h.concluded entry hold).lasting hlasting (fun _ => howed) ?_
      rw [hclaims]
      exact List.not_mem_nil
    · cases List.mem_singleton.mp hnew
      refine ⟨⟨next, List.getElem?_set_self (List.getElem?_eq_some_iff.mp hjob).1, rfl, hnext⟩, ?_, ?_⟩
      · rw [claims_append, hclaims, List.append_nil]
        show next.reported = true ↔ _
        rw [hreported, Bool.or_eq_true, h.claimed job tracked hjob hactive, decide_eq_true_iff,
          hattended.counted, List.length_pos_iff]
      · intro wait hwait
        obtain ⟨record, hrecord, hrecordJob, hphase⟩ := mem_liveOf.mp hwait
        refine ⟨_, (getElem?_resolveWaits _ _ wait).trans (by rw [hrecord]; rfl), ?_, .inl ?_⟩
        · split
          · exact hrecordJob
          · exact hrecordJob
        · split
          · rfl
          · rename_i hnot
            cases hkind : record.phase with
            | pending =>
              exact absurd ((hattended.resolvers wait).mpr ⟨record, hrecord, hrecordJob, hkind⟩) hnot
            | resolved => rfl
            | _ =>
              rw [hkind] at hphase
              cases hphase
  · rw [settlements_append, hsettlements, List.map_append, List.nodup_append]
    refine ⟨h.settledOnce, List.nodup_cons.mpr ⟨List.not_mem_nil, List.nodup_nil⟩, ?_⟩
    intro other hother last hlast heq
    cases List.mem_singleton.mp hlast
    rw [show other = job from heq] at hother
    exact hfresh hother
  · rw [notices_append, hnotices]
    intro notice hmem
    rcases List.mem_append.mp hmem with hold | hnew
    · obtain ⟨found, hfound, hterminal⟩ := h.told notice hold
      obtain ⟨other, hother, hsame⟩ := hlasting notice.2 found hfound hterminal
      exact ⟨other, hother, by rw [hsame]; exact hterminal⟩
    · obtain ⟨listener, -, rfl⟩ := List.mem_map.mp hnew
      exact ⟨next, List.getElem?_set_self (List.getElem?_eq_some_iff.mp hjob).1, hnext⟩
  · rw [notices_append, hnotices, List.nodup_append]
    refine ⟨h.toldOnce, hlisteners.map fun _ _ heq => (Prod.mk.inj heq).1, ?_⟩
    intro notice hnotice last hlast heq
    obtain ⟨listener, -, rfl⟩ := List.mem_map.mp hlast
    obtain ⟨found, hfound, hterminal⟩ := h.told notice hnotice
    rw [heq, hjob] at hfound
    cases hfound
    rw [hactive] at hterminal
    cases hterminal
  · rw [claims_append, hclaims, List.append_nil, List.length_set]
    exact h.claimsPlaced

theorem register (h : Kept jobs waits log) {new : TrackedTask}
    (hactive : new.status.isTerminal = false) (hreported : new.reported = false)
    (hwaiters : new.waiters = 0) (hresolvers : new.waitResolvers = []) :
    Kept (jobs ++ [new]) waits log := by
  have hlasting : Lasting jobs (jobs ++ [new]) := by
    intro job found hfound _
    exact ⟨found, (List.getElem?_append_left (List.getElem?_eq_some_iff.mp hfound).1).trans hfound, rfl⟩
  have hlt : ∀ {job}, job < jobs.length → job < (jobs ++ [new]).length := by
    intro job hjob
    rw [List.length_append]
    exact Nat.lt_add_right _ hjob
  refine ⟨?_, fun wait record hrecord => hlt (h.placed wait record hrecord), ?_, ?_, ?_,
    h.settledOnce, ?_, h.toldOnce, fun job hmem => hlt (h.claimsPlaced job hmem)⟩
  · intro job found hfound
    rcases getElem?_snoc hfound with hold | ⟨rfl, rfl⟩
    · exact h.attended job found hold
    · have hnone : ∀ (wait : Nat) (record : Wait), waits[wait]? = some record →
          record.job ≠ jobs.length :=
        fun wait record hrecord => (h.placed wait record hrecord).ne
      refine ⟨?_, fun wait => ?_⟩
      · rw [hwaiters]
        apply Eq.symm
        apply List.length_eq_zero_iff.mpr
        apply List.eq_nil_iff_forall_not_mem.mpr
        intro wait hwait
        obtain ⟨record, hrecord, hjob, -⟩ := mem_liveOf.mp hwait
        exact hnone wait record hrecord hjob
      · rw [hresolvers]
        refine ⟨fun hmem => absurd hmem List.not_mem_nil, ?_⟩
        rintro ⟨record, hrecord, hjob, -⟩
        exact absurd hjob (hnone wait record hrecord)
  · intro job found hfound hlive
    rcases getElem?_snoc hfound with hold | ⟨rfl, rfl⟩
    · exact h.claimed job found hold hlive
    · rw [hreported]
      exact ⟨nofun, fun hmem => absurd rfl (h.claimsPlaced _ hmem).ne⟩
  · intro job found hfound hterminal
    rcases getElem?_snoc hfound with hold | ⟨rfl, rfl⟩
    · exact h.ended job found hold hterminal
    · exact hresolvers
  · intro entry hmem
    have hconcluded : Concluded (jobs ++ [new]) waits (log ++ []) entry.1 entry.2.1 entry.2.2 :=
      (h.concluded entry hmem).lasting hlasting (fun _ howed => howed)
        (show entry.1 ∉ claims [] from List.not_mem_nil)
    rwa [List.append_nil] at hconcluded
  · intro notice hmem
    obtain ⟨found, hfound, hterminal⟩ := h.told notice hmem
    obtain ⟨other, hother, hsame⟩ := hlasting notice.2 found hfound hterminal
    exact ⟨other, hother, by rw [hsame]; exact hterminal⟩

theorem owed_append {other : Nat} {status : JobStatus} {wait : Nat} (record : Wait)
    (h : Owed waits other status wait) : Owed (waits ++ [record]) other status wait := by
  obtain ⟨found, hfound, hfacts⟩ := h
  exact ⟨found, (List.getElem?_append_left (List.getElem?_eq_some_iff.mp hfound).1).trans hfound, hfacts⟩

theorem attend (h : Kept jobs waits log) {job : Nat} {tracked next : TrackedTask} {record : Wait}
    (hjob : jobs[job]? = some tracked) (hrecord : record.job = job)
    (hstatus : next.status = tracked.status)
    (hreported : tracked.status.isTerminal = false → next.reported = tracked.reported)
    (hended : tracked.status.isTerminal = true → next.waitResolvers = [])
    (hwaiters : next.waiters = tracked.waiters + if record.phase.isLive = true then 1 else 0)
    (hresolvers : next.waitResolvers =
      tracked.waitResolvers ++ if record.phase = .pending then [waits.length] else []) :
    Kept (jobs.set job next) (waits ++ [record]) log := by
  have hlasting : Lasting jobs (jobs.set job next) := lasting_set hjob fun _ => hstatus
  refine ⟨?_, ?_, ?_, ?_, ?_, h.settledOnce, ?_, h.toldOnce, ?_⟩
  · intro other found hother
    rcases getElem?_set_cases hother with ⟨rfl, rfl, -⟩ | ⟨hne, hother⟩
    · have hold := h.attended other tracked hjob
      refine ⟨?_, fun wait => ?_⟩
      · rw [liveOf_append, List.length_append, hwaiters, hold.counted]
        by_cases hlive : record.phase.isLive = true
        · rw [if_pos hlive, if_pos ⟨hrecord, hlive⟩, List.length_singleton]
        · rw [if_neg hlive, if_neg fun hboth => hlive hboth.2, List.length_nil]
      · rw [hresolvers, List.mem_append, hold.resolvers wait]
        constructor
        · rintro (⟨old, hold, hfacts⟩ | hnew)
          · exact ⟨old, (List.getElem?_append_left (List.getElem?_eq_some_iff.mp hold).1).trans hold,
              hfacts⟩
          · split at hnew
            · rename_i hphase
              cases List.mem_singleton.mp hnew
              refine ⟨record, ?_, hrecord, hphase⟩
              rw [List.getElem?_append_right le_rfl, Nat.sub_self]
              rfl
            · cases hnew
        · rintro ⟨old, hold, hfacts⟩
          rcases getElem?_snoc hold with hold | ⟨rfl, rfl⟩
          · exact .inl ⟨old, hold, hfacts⟩
          · rw [if_pos hfacts.2]
            exact .inr (List.mem_singleton_self _)
    · have hold := h.attended other found hother
      refine ⟨?_, fun wait => ?_⟩
      · rw [liveOf_append, if_neg fun hboth => hne (hboth.1.symm.trans hrecord), List.append_nil]
        exact hold.counted
      · rw [hold.resolvers wait]
        constructor
        · rintro ⟨old, hold, hfacts⟩
          exact ⟨old, (List.getElem?_append_left (List.getElem?_eq_some_iff.mp hold).1).trans hold,
            hfacts⟩
        · rintro ⟨old, hold, hfacts⟩
          rcases getElem?_snoc hold with hold | ⟨rfl, rfl⟩
          · exact ⟨old, hold, hfacts⟩
          · exact absurd (hfacts.1.symm.trans hrecord) hne
  · intro wait found hfound
    rw [List.length_set]
    rcases getElem?_snoc hfound with hold | ⟨rfl, rfl⟩
    · exact h.placed wait found hold
    · rw [hrecord]
      exact (List.getElem?_eq_some_iff.mp hjob).1
  · intro other found hother hactive
    rcases getElem?_set_cases hother with ⟨rfl, rfl, -⟩ | ⟨-, hother⟩
    · rw [hstatus] at hactive
      rw [hreported hactive]
      exact h.claimed other tracked hjob hactive
    · exact h.claimed other found hother hactive
  · intro other found hother hterminal
    rcases getElem?_set_cases hother with ⟨rfl, rfl, -⟩ | ⟨-, hother⟩
    · exact hended (hstatus ▸ hterminal)
    · exact h.ended other found hother hterminal
  · intro entry hmem
    have hconcluded : Concluded (jobs.set job next) (waits ++ [record]) (log ++ []) entry.1 entry.2.1
        entry.2.2 :=
      (h.concluded entry hmem).lasting hlasting (fun _ => owed_append record)
        (show entry.1 ∉ claims [] from List.not_mem_nil)
    rwa [List.append_nil] at hconcluded
  · intro notice hmem
    obtain ⟨found, hfound, hterminal⟩ := h.told notice hmem
    obtain ⟨other, hother, hsame⟩ := hlasting notice.2 found hfound hterminal
    exact ⟨other, hother, by rw [hsame]; exact hterminal⟩
  · rw [List.length_set]
    exact h.claimsPlaced

theorem progress (h : Kept jobs waits log) {wait : Nat} {record : Wait} {tracked next : TrackedTask}
    {phase : WaitPhase} (hget : waits[wait]? = some record) (hjob : jobs[record.job]? = some tracked)
    (hstatus : next.status = tracked.status)
    (hreported : tracked.status.isTerminal = false → next.reported = tracked.reported)
    (hresolvers : ∀ other, other ∈ next.waitResolvers ↔ other ∈ tracked.waitResolvers ∧ other ≠ wait)
    (hphase : phase ≠ .pending)
    (hcounted : (phase.isLive = record.phase.isLive ∧ next.waiters = tracked.waiters) ∨
      (phase.isLive = false ∧ record.phase.isLive = true ∧ next.waiters = tracked.waiters - 1))
    (hresolved : record.phase = .resolved →
      ∃ snapshot, phase = .returned snapshot ∧ snapshot.status = tracked.status)
    (hreturned : ∀ snapshot, record.phase ≠ .returned snapshot) :
    Kept (jobs.set record.job next) (waits.set wait { record with phase := phase }) log := by
  have hwait := (List.getElem?_eq_some_iff.mp hget).1
  have hlasting : Lasting jobs (jobs.set record.job next) := lasting_set hjob fun _ => hstatus
  have hlive : ∀ job, job ≠ record.job →
      liveOf (waits.set wait { record with phase := phase }) job = liveOf waits job := by
    intro job hne
    rcases hcounted with ⟨hsame, -⟩ | ⟨hout, -, -⟩
    · exact liveOf_set_same hget rfl hsame
    · rw [liveOf_set_out hget hout]
      apply List.filter_eq_self.mpr
      intro other hother
      apply decide_eq_true
      rintro rfl
      obtain ⟨found, hfound, hfoundJob, -⟩ := mem_liveOf.mp hother
      rw [hget] at hfound
      cases hfound
      exact hne hfoundJob.symm
  have hpending : ∀ job other,
      (∃ found, (waits.set wait { record with phase := phase })[other]? = some found ∧
        found.job = job ∧ found.phase = .pending) ↔
      (∃ found, waits[other]? = some found ∧ found.job = job ∧ found.phase = .pending) ∧
        other ≠ wait := by
    intro job other
    constructor
    · rintro ⟨found, hfound, hfacts⟩
      rcases getElem?_set_cases hfound with ⟨rfl, rfl, -⟩ | ⟨hne, hold⟩
      · exact absurd hfacts.2 hphase
      · exact ⟨⟨found, hold, hfacts⟩, hne⟩
    · rintro ⟨⟨found, hfound, hfacts⟩, hne⟩
      exact ⟨found, (List.getElem?_set_ne hne.symm).trans hfound, hfacts⟩
  refine ⟨?_, ?_, ?_, ?_, ?_, h.settledOnce, ?_, h.toldOnce, ?_⟩
  · intro job found hfound
    rcases getElem?_set_cases hfound with ⟨rfl, rfl, -⟩ | ⟨hne, hfound⟩
    · have hold := h.attended record.job tracked hjob
      refine ⟨?_, fun other => ?_⟩
      · rcases hcounted with ⟨hsame, hwaiters⟩ | ⟨hout, hin, hwaiters⟩
        · have hkeep : liveOf (waits.set wait { record with phase := phase }) record.job =
              liveOf waits record.job := liveOf_set_same hget rfl hsame
          rw [hkeep, hwaiters]
          exact hold.counted
        · have hmem : wait ∈ liveOf waits record.job := mem_liveOf.mpr ⟨record, hget, rfl, hin⟩
          rw [liveOf_set_out hget hout, length_filter_ne (nodup_liveOf _ _) hmem, hwaiters, hold.counted]
      · rw [hresolvers, hpending, hold.resolvers]
    · have hold := h.attended job found hfound
      refine ⟨by rw [hlive job hne]; exact hold.counted, fun other => ?_⟩
      rw [hpending, hold.resolvers]
      refine ⟨fun hsome => ⟨hsome, ?_⟩, fun hboth => hboth.1⟩
      rintro rfl
      obtain ⟨same, hsame, hsameJob, -⟩ := hsome
      rw [hget] at hsame
      cases hsame
      exact hne hsameJob.symm
  · intro other found hfound
    rw [List.length_set]
    rcases getElem?_set_cases hfound with ⟨rfl, rfl, -⟩ | ⟨-, hold⟩
    · exact h.placed other record hget
    · exact h.placed other found hold
  · intro job found hfound hactive
    rcases getElem?_set_cases hfound with ⟨rfl, rfl, -⟩ | ⟨-, hfound⟩
    · rw [hstatus] at hactive
      rw [hreported hactive]
      exact h.claimed record.job tracked hjob hactive
    · exact h.claimed job found hfound hactive
  · intro job found hfound hterminal
    rcases getElem?_set_cases hfound with ⟨rfl, rfl, -⟩ | ⟨-, hfound⟩
    · have hnil := h.ended record.job tracked hjob (hstatus ▸ hterminal)
      apply List.eq_nil_iff_forall_not_mem.mpr
      intro other hother
      have hmem := ((hresolvers other).mp hother).1
      rw [hnil] at hmem
      exact absurd hmem List.not_mem_nil
    · exact h.ended job found hfound hterminal
  · intro entry hmem
    have hold := h.concluded entry hmem
    have hconcluded : Concluded (jobs.set record.job next)
        (waits.set wait { record with phase := phase }) (log ++ []) entry.1 entry.2.1 entry.2.2 := by
      refine hold.lasting hlasting ?_ (show entry.1 ∉ claims [] from List.not_mem_nil)
      rintro other ⟨found, hfound, hfoundJob, hfoundPhase⟩
      by_cases heq : other = wait
      · subst heq
        rw [hget] at hfound
        cases hfound
        obtain ⟨ended, hended, hendedStatus, -⟩ := hold.found
        rw [← hfoundJob, hjob] at hended
        cases hended
        refine ⟨_, List.getElem?_set_self hwait, hfoundJob, .inr ?_⟩
        rcases hfoundPhase with hphase | ⟨snapshot, hphase, -⟩
        · obtain ⟨snapshot, hsnapshot, hsame⟩ := hresolved hphase
          exact ⟨snapshot, hsnapshot, hsame.trans hendedStatus⟩
        · exact absurd hphase (hreturned snapshot)
      · exact ⟨found, (List.getElem?_set_ne (Ne.symm heq)).trans hfound, hfoundJob, hfoundPhase⟩
    rwa [List.append_nil] at hconcluded
  · intro notice hmem
    obtain ⟨found, hfound, hterminal⟩ := h.told notice hmem
    obtain ⟨other, hother, hsame⟩ := hlasting notice.2 found hfound hterminal
    exact ⟨other, hother, by rw [hsame]; exact hterminal⟩
  · rw [List.length_set]
    exact h.claimsPlaced

end Kept

end Harness.Jobs
