import Harness.Foundation.Machine
import Harness.Persistence.PreparationTable

namespace Harness.Persistence

open Harness.Foundation

def ChainOp.isCommit : ChainOp → Bool
  | .commit _ _ => true
  | _ => false

/-- Which operation may stand before which in the chain of an id that `table` maps. -/
structure ChainOp.Before (table : Option Nat) (earlier later : ChainOp) : Prop where
  quiet : later ≠ .append true
  single : earlier.isCommit = true → later.isCommit = false
  load : ∀ h, earlier = .load h → later ≠ .load h ∧ (table = some h → later.isCommit = false)

namespace PreparationState

variable {Source CommitState : Type} {s : PreparationState Source CommitState}

def Owns (s : PreparationState Source CommitState) (call h : Nat) : Prop :=
  s.calls call = .committing h ∨ ∃ outcome, s.calls call = .committed h outcome

def Awaits (s : PreparationState Source CommitState) :
    PreparationCall Source CommitState → Prop
  | .inspecting h | .reserving h => h < s.pool.nextEntry
  | .waiting h w => h < s.pool.nextEntry ∧ (s.pool.heap h).result ≠ none ∧
      (s.pool.settled w = true ∨
        s.pool.InTable h ∧ (s.pool.heap h).reservationSettled = some w)
  | .committing _ | .committed _ _ => False
  | .idle | .inspected _ | .returned _ | .rejected _ => True

structure Orderly (s : PreparationState Source CommitState) : Prop where
  kept : s.pool.WellKept
  pending : ∀ h, h < s.pool.nextEntry → (s.pool.heap h).result = none →
    (s.arrived h).isSome ∨ .load h ∈ s.chains (s.pool.heap h).id
  arrived : ∀ h outcome, s.arrived h = some outcome →
    h < s.pool.nextEntry ∧ (s.pool.heap h).result = none
  load : ∀ id h, .load h ∈ s.chains id → h < s.pool.nextEntry ∧ (s.pool.heap h).id = id ∧
    (s.pool.heap h).result = none ∧ s.arrived h = none
  commit : ∀ id call started, .commit call started ∈ s.chains id →
    ∃ h, s.calls call = .committing h ∧ (s.pool.heap h).id = id ∧
      ∀ k, s.pool.at? id = some k →
        k = h ∧ (s.pool.heap h).phase = .committing ∨ .load k ∈ s.chains id
  ordered : ∀ id, (s.chains id).Pairwise (ChainOp.Before (s.pool.at? id))
  writing : ∀ id h, .append true ∈ s.chains id → s.pool.at? id = some h →
    (s.pool.heap h).phase.held = true → ∃ call started, .commit call started ∈ s.chains id
  awaits : ∀ call, (∀ h, ¬ s.Owns call h) → s.Awaits (s.calls call)
  owner : ∀ call other h, s.Owns call h → s.Owns other h → call = other
  owned : ∀ call h, s.Owns call h → h < s.pool.nextEntry ∧ (s.pool.heap h).result ≠ none ∧
    (s.pool.InTable h → (s.pool.heap h).phase = .committing)
  queued : ∀ call h, s.calls call = .committing h →
    ∃ started, .commit call started ∈ s.chains (s.pool.heap h).id
  held : ∀ id h, s.pool.at? id = some h → (s.pool.heap h).phase = .committing →
    ∃ call, s.Owns call h
  fresh : ∀ call, s.nextCall ≤ call → s.calls call = .idle

theorem start_orderly (capacity : Nat) :
    (start capacity : PreparationState Source CommitState).Orderly := by
  have hempty : ∀ id, (start capacity : PreparationState Source CommitState).pool.at? id = none :=
    fun _ => rfl
  constructor
  · constructor
    all_goals
      intro id h hat
      rw [hempty] at hat
      cases hat
  · intro h hlt
    exact absurd hlt (Nat.not_lt_zero h)
  · intro h outcome harrived
    cases harrived
  · intro id h hmem
    cases hmem
  · intro id call started hmem
    cases hmem
  · intro id
    exact .nil
  · intro id h hmem
    cases hmem
  · intro call _
    trivial
  · intro call other h howns
    rcases howns with hcall | ⟨_, hcall⟩ <;> cases hcall
  · intro call h howns
    rcases howns with hcall | ⟨_, hcall⟩ <;> cases hcall
  · intro call h hcall
    cases hcall
  · intro id h hat
    rw [hempty] at hat
    cases hat
  · intro call _
    rfl

end PreparationState

namespace SessionPreparations.Dropped

variable {Source CommitState : Type} {p q : SessionPreparations Source CommitState}

theorem back (hd : Dropped p q) {id : String} {h : Nat} (hat : q.at? id = some h) :
    p.at? id = some h := by
  rcases hd.at? id with hsame | hnone
  · rw [← hsame]
    exact hat
  · rw [hnone] at hat
    cases hat

theorem id_eq (hd : Dropped p q) (h : Nat) : (q.heap h).id = (p.heap h).id := by
  obtain ⟨w, hw⟩ := hd.entry h
  rw [hw]

theorem phase_eq (hd : Dropped p q) (h : Nat) : (q.heap h).phase = (p.heap h).phase := by
  obtain ⟨w, hw⟩ := hd.entry h
  rw [hw]

theorem result_eq (hd : Dropped p q) (h : Nat) : (q.heap h).result = (p.heap h).result := by
  obtain ⟨w, hw⟩ := hd.entry h
  rw [hw]

end SessionPreparations.Dropped

namespace PreparationState

variable {Source CommitState : Type} {s : PreparationState Source CommitState}

theorem Before.weaken {table table' : Option Nat} {earlier later : ChainOp}
    (h : ∀ k, table' = some k → table = some k) (hb : ChainOp.Before table earlier later) :
    ChainOp.Before table' earlier later where
  quiet := hb.quiet
  single := hb.single
  load k hk := ⟨(hb.load k hk).1, fun htable => (hb.load k hk).2 (h k htable)⟩

theorem Orderly.dropped (hs : s.Orderly) {q : SessionPreparations Source CommitState}
    (hd : s.pool.Dropped q) : (s.setPool q).Orderly := by
  have howns : ∀ call h, (s.setPool q).Owns call h → s.Owns call h := fun _ _ h => h
  constructor
  · exact hd.wellKept hs.kept
  · intro h hlt hresult
    rw [setPool, hd.id_eq]
    rw [setPool, hd.nextEntry] at hlt
    rw [setPool, hd.result_eq] at hresult
    exact hs.pending h hlt hresult
  · intro h outcome harrived
    rw [setPool, hd.nextEntry, hd.result_eq]
    exact hs.arrived h outcome harrived
  · intro id h hmem
    rw [setPool, hd.nextEntry, hd.result_eq, hd.id_eq]
    exact hs.load id h hmem
  · intro id call started hmem
    obtain ⟨h, hcall, hid, htable⟩ := hs.commit id call started hmem
    refine ⟨h, hcall, (hd.id_eq h).trans hid, ?_⟩
    intro k hk
    rw [setPool, hd.phase_eq]
    exact htable k (hd.back hk)
  · intro id
    apply (hs.ordered id).imp
    intro earlier later hb
    exact Before.weaken (fun k hk => hd.back hk) hb
  · intro id h hmem hat hheld
    rw [setPool, hd.phase_eq] at hheld
    exact hs.writing id h hmem (hd.back hat) hheld
  · intro call hnone
    have hold := hs.awaits call hnone
    change (s.setPool q).Awaits (s.calls call)
    cases hcall : s.calls call with
    | waiting h w =>
      rw [hcall] at hold
      obtain ⟨hlt, hresult, hwait⟩ := hold
      refine ⟨?_, ?_, ?_⟩
      · rw [setPool, hd.nextEntry]
        exact hlt
      · rw [setPool, hd.result_eq]
        exact hresult
      · rcases hwait with hsettled | ⟨hin, hpromise⟩
        · exact .inl (hd.settled w hsettled)
        · rcases hd.at? (s.pool.heap h).id with hsame | hgone
          · right
            have hin' : q.at? (s.pool.heap h).id = some h := hsame.trans hin
            refine ⟨?_, ?_⟩
            · rw [SessionPreparations.InTable, setPool, hd.id_eq]
              exact hin'
            · rw [setPool, hd.kept _ h hin']
              exact hpromise
          · exact .inl (hd.waiters _ h w hin hgone hpromise)
    | inspecting h =>
      rw [hcall] at hold
      change h < q.nextEntry
      rw [hd.nextEntry]
      exact hold
    | reserving h =>
      rw [hcall] at hold
      change h < q.nextEntry
      rw [hd.nextEntry]
      exact hold
    | committing h => exact absurd (.inl hcall) (hnone h)
    | committed h outcome => exact absurd (.inr ⟨outcome, hcall⟩) (hnone h)
    | idle | inspected | returned | rejected => trivial
  · intro call other h hcall hother
    exact hs.owner call other h hcall hother
  · intro call h hcall
    obtain ⟨hlt, hresult, hphase⟩ := hs.owned call h hcall
    rw [setPool, hd.nextEntry, hd.result_eq, hd.phase_eq]
    refine ⟨hlt, hresult, fun hin => hphase ?_⟩
    rw [SessionPreparations.InTable, hd.id_eq] at hin
    exact hd.back hin
  · intro call h hcall
    rw [setPool, hd.id_eq]
    exact hs.queued call h hcall
  · intro id h hat hphase
    rw [setPool, hd.phase_eq] at hphase
    exact hs.held id h (hd.back hat) hphase
  · exact hs.fresh

theorem setChain_chains (s : PreparationState Source CommitState) (id other : String)
    (chain : List ChainOp) :
    (s.setChain id chain).chains other = if other = id then chain else s.chains other := by
  by_cases h : other = id
  · subst h
    simp [setChain]
  · simp [setChain, h]

theorem serialize_chains (s : PreparationState Source CommitState) (id other : String)
    (op : ChainOp) : (s.serialize id op).chains other =
      if other = id then s.chains other ++ [op] else s.chains other := by
  rw [PreparationState.serialize, setChain_chains]
  split
  · rename_i heq
    rw [heq]
  · rfl

theorem mem_serialize {id other : String} {op new : ChainOp} :
    op ∈ (s.serialize id new).chains other ↔ op ∈ s.chains other ∨ other = id ∧ op = new := by
  rw [serialize_chains]
  split
  · rename_i heq
    rw [List.mem_append, List.mem_singleton, and_iff_right heq]
  · rename_i hne
    rw [or_iff_left fun h => hne h.1]

theorem Orderly.setChain (hs : s.Orderly) {id : String} {chain : List ChainOp}
    (hload : ∀ h, .load h ∈ chain ↔ .load h ∈ s.chains id)
    (hcommit : ∀ call, (∃ started, .commit call started ∈ chain) ↔
      ∃ started, .commit call started ∈ s.chains id)
    (hordered : chain.Pairwise (ChainOp.Before (s.pool.at? id)))
    (hwriting : .append true ∈ chain → .append true ∈ s.chains id ∨
      ∀ h, s.pool.at? id = some h → (s.pool.heap h).phase.held = false) :
    (s.setChain id chain).Orderly := by
  have hloads : ∀ other h, .load h ∈ (s.setChain id chain).chains other ↔
      .load h ∈ s.chains other := by
    intro other h
    rw [setChain_chains]
    split
    · rename_i heq
      rw [heq]
      exact hload h
    · rfl
  have hcommits : ∀ other call, (∃ started, .commit call started ∈
      (s.setChain id chain).chains other) ↔ ∃ started, .commit call started ∈ s.chains other := by
    intro other call
    rw [setChain_chains]
    split
    · rename_i heq
      rw [heq]
      exact hcommit call
    · rfl
  constructor
  · exact hs.kept
  · intro h hlt hresult
    rw [hloads]
    exact hs.pending h hlt hresult
  · exact hs.arrived
  · intro other h hmem
    exact hs.load other h ((hloads other h).mp hmem)
  · intro other call started hmem
    obtain ⟨started', hmem'⟩ := (hcommits other call).mp ⟨started, hmem⟩
    obtain ⟨h, hcall, hid, htable⟩ := hs.commit other call started' hmem'
    refine ⟨h, hcall, hid, ?_⟩
    intro k hk
    rw [hloads]
    exact htable k hk
  · intro other
    rw [setChain_chains]
    split
    · rename_i heq
      rw [heq]
      exact hordered
    · exact hs.ordered other
  · intro other h hmem hat hheld
    have hold : .append true ∈ s.chains other := by
      rw [setChain_chains] at hmem
      split at hmem
      · rename_i heq
        subst heq
        rcases hwriting hmem with hold | hfree
        · exact hold
        · have hnot := hfree h hat
          have hyes : (s.pool.heap h).phase.held = true := hheld
          rw [hyes] at hnot
          cases hnot
      · exact hmem
    obtain ⟨call, hcall⟩ := hs.writing other h hold hat hheld
    exact ⟨call, (hcommits other call).mpr hcall⟩
  · exact hs.awaits
  · exact hs.owner
  · exact hs.owned
  · intro call h hcall
    exact (hcommits _ call).mpr (hs.queued call h hcall)
  · exact hs.held
  · exact hs.fresh

theorem Orderly.pop (hs : s.Orderly) {id : String} {op : ChainOp} {rest : List ChainOp}
    (hchain : s.chains id = op :: rest) (hload : ∀ h, op ≠ .load h)
    (hcommit : op.isCommit = false) : (s.setChain id rest).Orderly := by
  have hordered := hs.ordered id
  rw [hchain, List.pairwise_cons] at hordered
  apply hs.setChain
  · intro h
    rw [hchain, List.mem_cons, or_iff_right (Ne.symm (hload h))]
  · intro call
    rw [hchain]
    constructor
    · rintro ⟨started, hmem⟩
      exact ⟨started, List.mem_cons_of_mem _ hmem⟩
    · rintro ⟨started, hmem⟩
      rcases List.mem_cons.mp hmem with hop | hmem
      · rw [← hop] at hcommit
        cases hcommit
      · exact ⟨started, hmem⟩
  · exact hordered.2
  · intro hmem
    exact absurd rfl (hordered.1 _ hmem).quiet

theorem Orderly.serialize (hs : s.Orderly) (id : String) {op : ChainOp}
    (hload : ∀ h, op ≠ .load h) (hcommit : op.isCommit = false) (hquiet : op ≠ .append true) :
    (s.serialize id op).Orderly := by
  apply hs.setChain
  · intro h
    rw [List.mem_append, List.mem_singleton, or_iff_left (Ne.symm (hload h))]
  · intro call
    constructor
    · rintro ⟨started, hmem⟩
      rcases List.mem_append.mp hmem with hmem | hop
      · exact ⟨started, hmem⟩
      · rw [← List.mem_singleton.mp hop] at hcommit
        cases hcommit
    · rintro ⟨started, hmem⟩
      exact ⟨started, List.mem_append_left _ hmem⟩
  · rw [List.pairwise_append]
    refine ⟨hs.ordered id, List.pairwise_singleton _ _, ?_⟩
    intro earlier _ later hlater
    obtain rfl := List.mem_singleton.mp hlater
    exact ⟨hquiet, fun _ => hcommit, fun h _ => ⟨hload h, fun _ => hcommit⟩⟩
  · intro hmem
    rcases List.mem_append.mp hmem with hmem | hop
    · exact .inl hmem
    · exact absurd (List.mem_singleton.mp hop).symm hquiet

theorem Orderly.replaceHead (hs : s.Orderly) {id : String} {op op' : ChainOp}
    {rest : List ChainOp} (hchain : s.chains id = op :: rest)
    (hload : ∀ h, op ≠ .load h ∧ op' ≠ .load h)
    (hcommit : ∀ call, (∃ started, op = .commit call started) ↔ ∃ started, op' = .commit call started)
    (hwriting : op' = .append true →
      ∀ h, s.pool.at? id = some h → (s.pool.heap h).phase.held = false) :
    (s.setChain id (op' :: rest)).Orderly := by
  have hordered := hs.ordered id
  rw [hchain, List.pairwise_cons] at hordered
  apply hs.setChain
  · intro h
    rw [hchain, List.mem_cons, List.mem_cons, or_iff_right (Ne.symm (hload h).1),
      or_iff_right (Ne.symm (hload h).2)]
  · intro call
    rw [hchain]
    have hhead := hcommit call
    constructor
    · rintro ⟨started, hmem⟩
      rcases List.mem_cons.mp hmem with hop | hmem
      · obtain ⟨started', hop'⟩ := hhead.mpr ⟨started, hop.symm⟩
        exact ⟨started', hop' ▸ List.mem_cons_self⟩
      · exact ⟨started, List.mem_cons_of_mem _ hmem⟩
    · rintro ⟨started, hmem⟩
      rcases List.mem_cons.mp hmem with hop | hmem
      · obtain ⟨started', hop'⟩ := hhead.mp ⟨started, hop.symm⟩
        exact ⟨started', hop' ▸ List.mem_cons_self⟩
      · exact ⟨started, List.mem_cons_of_mem _ hmem⟩
  · rw [List.pairwise_cons]
    refine ⟨?_, hordered.2⟩
    intro later hlater
    have hb := hordered.1 later hlater
    refine ⟨hb.quiet, ?_, fun h hop => absurd hop (hload h).2⟩
    intro hcommitted
    apply hb.single
    cases op' with
    | commit call started =>
      obtain ⟨started', rfl⟩ := (hcommit call).mpr ⟨started, rfl⟩
      rfl
    | load | append | other => cases hcommitted
  · intro hmem
    rcases List.mem_cons.mp hmem with hop | hmem
    · exact .inr (hwriting hop.symm)
    · exact absurd rfl (hordered.1 _ hmem).quiet

theorem setCall_calls_self (s : PreparationState Source CommitState) (call : Nat)
    (place : PreparationCall Source CommitState) : (s.setCall call place).calls call = place := by
  simp [PreparationState.setCall]

theorem setCall_calls_of_ne (s : PreparationState Source CommitState) {call other : Nat}
    (place : PreparationCall Source CommitState) (hne : other ≠ call) :
    (s.setCall call place).calls other = s.calls other := by
  simp [PreparationState.setCall, hne]

/-- A call that waits owns nothing. -/
theorem owns_setCall {t : PreparationState Source CommitState} {call other h : Nat}
    {place : PreparationCall Source CommitState} (hplace : t.Awaits place) :
    (s.setCall call place).Owns other h ↔ other ≠ call ∧ s.Owns other h := by
  by_cases hne : other = call
  · subst hne
    rw [Owns, setCall_calls_self]
    refine iff_of_false ?_ fun hbad => hbad.1 rfl
    rintro (rfl | ⟨outcome, rfl⟩)
    · exact hplace
    · exact hplace
  · rw [Owns, setCall_calls_of_ne s place hne, and_iff_right hne]
    rfl

theorem Orderly.setCall (hs : s.Orderly) {call : Nat} {place : PreparationCall Source CommitState}
    {next : Nat} (hfree : ∀ id started, .commit call started ∉ s.chains id)
    (hcommitting : ∀ h, s.Owns call h → ¬ s.pool.InTable h) (hplace : s.Awaits place)
    (hnext : s.nextCall ≤ next) (hcall : call < next) :
    ({ s.setCall call place with nextCall := next } : PreparationState Source CommitState).Orderly := by
  have hsame : ∀ other, other ≠ call → (s.setCall call place).calls other = s.calls other :=
    fun _ => setCall_calls_of_ne s place
  have howns : ∀ other h, (s.setCall call place).Owns other h → other ≠ call ∧ s.Owns other h :=
    fun _ _ => (owns_setCall hplace).mp
  have hkept : ∀ other h, other ≠ call → s.Owns other h → (s.setCall call place).Owns other h :=
    fun _ _ hne howned => (owns_setCall hplace).mpr ⟨hne, howned⟩
  constructor
  · exact hs.kept
  · exact hs.pending
  · exact hs.arrived
  · exact hs.load
  · intro id other started hmem
    obtain ⟨h, hother, hrest⟩ := hs.commit id other started hmem
    refine ⟨h, ?_, hrest⟩
    have hne : other ≠ call := by
      rintro rfl
      exact hfree id started hmem
    exact (hsame other hne).trans hother
  · exact hs.ordered
  · exact hs.writing
  · intro other hnone
    by_cases hother : other = call
    · subst hother
      change s.Awaits ((s.setCall other place).calls other)
      rw [setCall_calls_self]
      exact hplace
    · change s.Awaits ((s.setCall call place).calls other)
      rw [hsame other hother]
      exact hs.awaits other fun h howned => hnone h (hkept other h hother howned)
  · intro first second h hfirst hsecond
    exact hs.owner first second h (howns first h hfirst).2 (howns second h hsecond).2
  · intro other h howned
    exact hs.owned other h (howns other h howned).2
  · intro other h hother
    have hne := (howns other h (.inl hother)).1
    exact hs.queued other h ((hsame other hne).symm.trans hother)
  · intro id h hat hphase
    obtain ⟨other, hother⟩ := hs.held id h hat hphase
    refine ⟨other, hkept other h ?_ hother⟩
    rintro rfl
    exact hcommitting h hother ((SessionPreparations.inTable_iff hs.kept).mpr ⟨id, hat⟩)
  · intro other hother
    have hne : other ≠ call := by
      rintro rfl
      exact absurd hcall (Nat.not_lt.mpr hother)
    exact (hsame other hne).trans (hs.fresh other (hnext.trans hother))

/-- One entry is revised and one call is placed where it owns nothing. -/
structure Advance (s : PreparationState Source CommitState) (h call : Nat)
    (place : PreparationCall Source CommitState) (q : SessionPreparations Source CommitState)
    (arrivals : Nat → Option (Except String Source)) : Prop where
  revised : SessionPreparations.Revised s.pool q h
  kept : q.WellKept
  result : (q.heap h).result ≠ none
  phase : s.pool.InTable h → (q.heap h).phase = .ready ∨
    (q.heap h).phase = .reserved ∧ .append true ∉ s.chains (s.pool.heap h).id
  arrived : arrivals h = none
  others : ∀ k, k ≠ h → arrivals k = s.arrived k
  load : .load h ∉ s.chains (s.pool.heap h).id
  commit : s.pool.InTable h → ∀ other started,
    .commit other started ∉ s.chains (s.pool.heap h).id
  owner : ∀ other, s.Owns other h → s.pool.InTable h → other = call
  free : ∀ k, s.calls call ≠ .committing k
  owned : ∀ k, s.Owns call k → k = h
  awaits : ∀ t : PreparationState Source CommitState, t.Awaits place
  fresh : s.nextCall ≤ call → place = .idle

namespace Advance

variable {h call : Nat} {place : PreparationCall Source CommitState}
  {q : SessionPreparations Source CommitState} {arrivals : Nat → Option (Except String Source)}

theorem id_eq (ha : s.Advance h call place q arrivals) (k : Nat) :
    (q.heap k).id = (s.pool.heap k).id := by
  by_cases hk : k = h
  · rw [hk]
    exact ha.revised.id
  · rw [ha.revised.other k hk]

theorem pending (ha : s.Advance h call place q arrivals) (hs : s.Orderly) {k : Nat}
    (hlt : k < q.nextEntry) (hnone : (q.heap k).result = none) :
    (arrivals k).isSome ∨ .load k ∈ s.chains (q.heap k).id := by
  by_cases hk : k = h
  · subst hk
    exact absurd hnone ha.result
  · rw [ha.others k hk, ha.revised.other k hk]
    refine hs.pending k ?_ ?_
    · rw [← ha.revised.nextEntry]
      exact hlt
    · rw [← ha.revised.other k hk]
      exact hnone

theorem arrivals_none (ha : s.Advance h call place q arrivals) (hs : s.Orderly) {k : Nat}
    {outcome : Except String Source} (hk : arrivals k = some outcome) :
    k < q.nextEntry ∧ (q.heap k).result = none := by
  by_cases hkh : k = h
  · subst hkh
    rw [ha.arrived] at hk
    cases hk
  · rw [ha.others k hkh] at hk
    rw [ha.revised.nextEntry, ha.revised.other k hkh]
    exact hs.arrived k outcome hk

theorem loads (ha : s.Advance h call place q arrivals) (hs : s.Orderly) {id : String} {k : Nat}
    (hmem : .load k ∈ s.chains id) :
    k < q.nextEntry ∧ (q.heap k).id = id ∧ (q.heap k).result = none ∧ arrivals k = none := by
  obtain ⟨hlt, hkid, hnone, hquiet⟩ := hs.load id k hmem
  have hk : k ≠ h := by
    rintro rfl
    have hload := ha.load
    rw [hkid] at hload
    exact hload hmem
  rw [ha.revised.nextEntry, ha.revised.other k hk, ha.others k hk]
  exact ⟨hlt, hkid, hnone, hquiet⟩

theorem commits (ha : s.Advance h call place q arrivals) (hs : s.Orderly) {id : String}
    {other : Nat} {started : Bool} (hmem : .commit other started ∈ s.chains id) :
    ∃ k, ((s.setPool q).setCall call place).calls other = .committing k ∧ (q.heap k).id = id ∧
      ∀ j, q.at? id = some j →
        j = k ∧ (q.heap k).phase = .committing ∨ .load j ∈ s.chains id := by
  obtain ⟨k, hcommitting, hkid, htable⟩ := hs.commit id other started hmem
  have hne : other ≠ call := by
    rintro rfl
    exact ha.free k hcommitting
  refine ⟨k, (setCall_calls_of_ne _ place hne).trans hcommitting, (ha.id_eq k).trans hkid, ?_⟩
  intro j hj
  rw [ha.revised.at?] at hj
  have hjh : j ≠ h := by
    rintro rfl
    rw [← (hs.kept.entry_id _ _ hj).2] at hmem
    exact ha.commit ((SessionPreparations.inTable_iff hs.kept).mpr ⟨_, hj⟩) other started hmem
  refine (htable j hj).imp ?_ fun hloading => hloading
  rintro ⟨rfl, hcommitted⟩
  rw [ha.revised.other j hjh]
  exact ⟨rfl, hcommitted⟩

theorem writing (ha : s.Advance h call place q arrivals) (hs : s.Orderly) {id : String} {k : Nat}
    (hmem : .append true ∈ s.chains id) (hk : s.pool.at? id = some k)
    (hheld : (q.heap k).phase.held = true) :
    ∃ other started, .commit other started ∈ s.chains id := by
  by_cases hkh : k = h
  · subst hkh
    rcases ha.phase ((SessionPreparations.inTable_iff hs.kept).mpr ⟨_, hk⟩) with
      hready | ⟨_, hquiet⟩
    · rw [hready] at hheld
      cases hheld
    · rw [(hs.kept.entry_id _ _ hk).2] at hquiet
      exact absurd hmem hquiet
  · rw [ha.revised.other k hkh] at hheld
    exact hs.writing id k hmem hk hheld

theorem waits (ha : s.Advance h call place q arrivals) (hs : s.Orderly) {other : Nat}
    (hfree : ∀ k, ¬ s.Owns other k) : (s.setPool q).Awaits (s.calls other) := by
  have hold := hs.awaits other hfree
  cases hplace : s.calls other with
  | inspecting k | reserving k =>
    rw [hplace] at hold
    change k < q.nextEntry
    rw [ha.revised.nextEntry]
    exact hold
  | waiting k w =>
    rw [hplace] at hold
    obtain ⟨hlt, hsome, hwait⟩ := hold
    change k < q.nextEntry ∧ (q.heap k).result ≠ none ∧
      (q.settled w = true ∨ q.InTable k ∧ (q.heap k).reservationSettled = some w)
    rw [ha.revised.nextEntry, ha.revised.inTable]
    by_cases hkh : k = h
    · subst hkh
      refine ⟨hlt, ha.result, ?_⟩
      rcases hwait with hw | ⟨hkin, hw⟩
      · exact .inl (ha.revised.settled w hw)
      · exact (ha.revised.waiters w hw).imp id fun hw => ⟨hkin, hw⟩
    · rw [ha.revised.other k hkh]
      exact ⟨hlt, hsome, hwait.imp (ha.revised.settled w) id⟩
  | committing k => exact absurd (.inl hplace) (hfree k)
  | committed k outcome => exact absurd (.inr ⟨outcome, hplace⟩) (hfree k)
  | idle | inspected | returned | rejected => trivial

theorem owners (ha : s.Advance h call place q arrivals) (hs : s.Orderly) {other k : Nat}
    (hne : other ≠ call) (howned : s.Owns other k) :
    k < q.nextEntry ∧ (q.heap k).result ≠ none ∧
      (q.InTable k → (q.heap k).phase = .committing) := by
  obtain ⟨hlt, hsome, hcommitting⟩ := hs.owned other k howned
  rw [ha.revised.nextEntry, ha.revised.inTable]
  by_cases hkh : k = h
  · subst hkh
    exact ⟨hlt, ha.result, fun hkin => absurd (ha.owner other howned hkin) hne⟩
  · rw [ha.revised.other k hkh]
    exact ⟨hlt, hsome, hcommitting⟩

theorem held (ha : s.Advance h call place q arrivals) (hs : s.Orderly) {id : String} {k : Nat}
    (hk : s.pool.at? id = some k) (hcommitting : (q.heap k).phase = .committing) :
    ∃ other, other ≠ call ∧ s.Owns other k := by
  have hkh : k ≠ h := by
    rintro rfl
    rcases ha.phase ((SessionPreparations.inTable_iff hs.kept).mpr ⟨_, hk⟩) with
      hready | ⟨hreserved, _⟩
    · rw [hready] at hcommitting
      cases hcommitting
    · rw [hreserved] at hcommitting
      cases hcommitting
  rw [ha.revised.other k hkh] at hcommitting
  obtain ⟨other, howned⟩ := hs.held id k hk hcommitting
  refine ⟨other, ?_, howned⟩
  rintro rfl
  exact hkh (ha.owned k howned)

end Advance

theorem Orderly.advance (hs : s.Orderly) {h call : Nat}
    {place : PreparationCall Source CommitState} {q : SessionPreparations Source CommitState}
    {arrivals : Nat → Option (Except String Source)} (ha : s.Advance h call place q arrivals) :
    ({ (s.setPool q).setCall call place with arrived := arrivals } :
      PreparationState Source CommitState).Orderly := by
  have hcalls : ∀ other, other ≠ call →
      ((s.setPool q).setCall call place).calls other = s.calls other :=
    fun _ => setCall_calls_of_ne _ place
  have howns : ∀ other k, ((s.setPool q).setCall call place).Owns other k ↔
      other ≠ call ∧ s.Owns other k := fun _ _ => owns_setCall (ha.awaits s)
  constructor
  · exact ha.kept
  · exact fun k => ha.pending hs
  · exact fun k outcome => ha.arrivals_none hs
  · exact fun id k => ha.loads hs
  · exact fun id other started => ha.commits hs
  · intro id
    change (s.chains id).Pairwise (ChainOp.Before (q.at? id))
    rw [ha.revised.at?]
    exact hs.ordered id
  · intro id k hmem hk
    change q.at? id = some k at hk
    rw [ha.revised.at?] at hk
    exact ha.writing hs hmem hk
  · intro other hnone
    by_cases hne : other = call
    · subst hne
      change Awaits _ (((s.setPool q).setCall other place).calls other)
      rw [setCall_calls_self]
      exact ha.awaits _
    · change Awaits _ (((s.setPool q).setCall call place).calls other)
      rw [hcalls other hne]
      exact ha.waits hs fun k howned => hnone k ((howns other k).mpr ⟨hne, howned⟩)
  · intro first second k hfirst hsecond
    exact hs.owner first second k ((howns first k).mp hfirst).2 ((howns second k).mp hsecond).2
  · intro other k howned
    obtain ⟨hne, hold⟩ := (howns other k).mp howned
    exact ha.owners hs hne hold
  · intro other k hcommitting
    have hne := ((howns other k).mp (.inl hcommitting)).1
    change ∃ started, .commit other started ∈ s.chains (q.heap k).id
    rw [ha.id_eq]
    exact hs.queued other k ((hcalls other hne).symm.trans hcommitting)
  · intro id k hk hcommitting
    change q.at? id = some k at hk
    rw [ha.revised.at?] at hk
    obtain ⟨other, howned⟩ := ha.held hs hk hcommitting
    exact ⟨other, (howns other k).mpr howned⟩
  · intro other hle
    by_cases hne : other = call
    · subst hne
      exact (setCall_calls_self _ _ _).trans (ha.fresh hle)
    · exact (hcalls other hne).trans (hs.fresh other hle)

theorem Orderly.commit_unique (hs : s.Orderly) {id id' : String} {call : Nat}
    {started started' : Bool} (h : .commit call started ∈ s.chains id)
    (h' : .commit call started' ∈ s.chains id') : id = id' := by
  obtain ⟨k, hcall, hid, _⟩ := hs.commit id call started h
  obtain ⟨k', hcall', hid', _⟩ := hs.commit id' call started' h'
  rw [hcall] at hcall'
  cases hcall'
  exact hid.symm.trans hid'

section Popped

variable {id : String} {first : ChainOp} {rest : List ChainOp}

theorem mem_of_popped (hchain : s.chains id = first :: rest) (other : String) (op : ChainOp)
    (hop : op ∈ (s.setChain id rest).chains other) : op ∈ s.chains other := by
  rw [setChain_chains] at hop
  split at hop
  · rename_i heq
    subst heq
    rw [hchain]
    exact List.mem_cons_of_mem _ hop
  · exact hop

theorem mem_popped (hchain : s.chains id = first :: rest) (other : String) (op : ChainOp)
    (hne : op ≠ first) (hop : op ∈ s.chains other) : op ∈ (s.setChain id rest).chains other := by
  rw [setChain_chains]
  split
  · rename_i heq
    subst heq
    rw [hchain] at hop
    exact (List.mem_cons.mp hop).resolve_left hne
  · exact hop

theorem Orderly.ordered_popped (hs : s.Orderly) (hchain : s.chains id = first :: rest)
    (other : String) :
    ((s.setChain id rest).chains other).Pairwise (ChainOp.Before (s.pool.at? other)) := by
  have hordered := hs.ordered id
  rw [hchain, List.pairwise_cons] at hordered
  rw [setChain_chains]
  split
  · rename_i heq
    rw [heq]
    exact hordered.2
  · exact hs.ordered other

end Popped

theorem Orderly.loaded (hs : s.Orderly) {id : String} {h : Nat} {rest : List ChainOp}
    (hchain : s.chains id = .load h :: rest) (outcome : Except String Source) :
    ({ s.setChain id rest with arrived := Function.update s.arrived h (some outcome) } :
      PreparationState Source CommitState).Orderly := by
  have hordered := hs.ordered id
  rw [hchain, List.pairwise_cons] at hordered
  obtain ⟨hlt, hid, hresult, _⟩ := hs.load id h (hchain ▸ List.mem_cons_self)
  have hmem := mem_of_popped hchain
  have hstill := mem_popped hchain
  constructor
  · exact hs.kept
  · intro k hklt hnone
    by_cases hk : k = h
    · subst hk
      left
      simp
    · rcases hs.pending k hklt hnone with harrived | hload
      · left
        simpa [hk] using harrived
      · exact .inr (hstill _ _ (by simpa using hk) hload)
  · intro k found hk
    by_cases hkh : k = h
    · subst hkh
      exact ⟨hlt, hresult⟩
    · apply hs.arrived k found
      simpa [hkh] using hk
  · intro other k hk
    obtain ⟨hklt, hkid, hkresult, hkarrived⟩ := hs.load other k (hmem _ _ hk)
    have hne : k ≠ h := by
      rintro rfl
      have hother : other = id := hkid.symm.trans hid
      rw [hother, setChain_chains, if_pos rfl] at hk
      exact ((hordered.1 _ hk).load k rfl).1 rfl
    refine ⟨hklt, hkid, hkresult, ?_⟩
    simpa [hne] using hkarrived
  · intro other call started hcommit
    obtain ⟨k, hcall, hkid, htable⟩ := hs.commit other call started (hmem _ _ hcommit)
    refine ⟨k, hcall, hkid, ?_⟩
    intro j hj
    refine (htable j hj).imp (fun hheld => hheld) fun hload => ?_
    apply hstill _ _ _ hload
    intro hbad
    cases hbad
    -- the load at the head would stand before a commit of another entry
    have hother : other = id := (hs.load other h hload).2.1.symm.trans hid
    change s.pool.at? other = some h at hj
    rw [hother, setChain_chains, if_pos rfl] at hcommit
    rw [hother] at hj
    have := ((hordered.1 _ hcommit).load h rfl).2 hj
    cases this
  · intro other
    exact hs.ordered_popped hchain other
  · intro other k happend hat hheld
    obtain ⟨call, started, hcommit⟩ := hs.writing other k (hmem _ _ happend) hat hheld
    exact ⟨call, started, hstill _ _ (by simp) hcommit⟩
  · exact hs.awaits
  · exact hs.owner
  · exact hs.owned
  · intro call k hcall
    obtain ⟨started, hcommit⟩ := hs.queued call k hcall
    exact ⟨started, hstill _ _ (by simp) hcommit⟩
  · exact hs.held
  · exact hs.fresh

theorem Orderly.finishCommit (hs : s.Orderly) {id : String} {call h : Nat}
    {rest : List ChainOp} (hchain : s.chains id = .commit call true :: rest)
    (hcall : s.calls call = .committing h)
    (outcome : Except String (Option (Source × CommitState))) :
    ((s.setChain id rest).setCall call (.committed h outcome)).Orderly := by
  have hordered := hs.ordered id
  rw [hchain, List.pairwise_cons] at hordered
  have hhead : .commit call true ∈ s.chains id := hchain ▸ List.mem_cons_self
  have hmem := mem_of_popped hchain
  have hstill := mem_popped hchain
  have hgone : ∀ other first started,
      .commit first started ∈ (s.setChain id rest).chains other → first ≠ call := by
    rintro other first started hop rfl
    have heq := hs.commit_unique hhead (hmem _ _ hop)
    rw [← heq, setChain_chains, if_pos rfl] at hop
    have := (hordered.1 _ hop).single rfl
    cases this
  have hcalls : ∀ other, other ≠ call →
      ((s.setChain id rest).setCall call (.committed h outcome)).calls other = s.calls other := by
    intro other hne
    simp [PreparationState.setChain, PreparationState.setCall, hne]
  have howns : ∀ other k, ((s.setChain id rest).setCall call (.committed h outcome)).Owns other k ↔
      s.Owns other k := by
    intro other k
    by_cases hne : other = call
    · subst hne
      simp [Owns, PreparationState.setChain, PreparationState.setCall, hcall]
    · rw [Owns, hcalls other hne]
      rfl
  constructor
  · exact hs.kept
  · intro k hlt hnone
    exact (hs.pending k hlt hnone).imp (fun harrived => harrived) (hstill _ _ (by simp))
  · exact hs.arrived
  · intro other k hk
    exact hs.load other k (hmem _ _ hk)
  · intro other first started hop
    obtain ⟨k, hfirst, hkid, htable⟩ := hs.commit other first started (hmem _ _ hop)
    refine ⟨k, (hcalls first (hgone other first started hop)).trans hfirst, hkid, ?_⟩
    intro j hj
    exact (htable j hj).imp (fun hheld => hheld) (hstill _ _ (by simp))
  · intro other
    exact hs.ordered_popped hchain other
  · intro other k happend hat hheld
    change .append true ∈ (s.setChain id rest).chains other at happend
    rw [setChain_chains] at happend
    split at happend
    · exact absurd rfl (hordered.1 _ happend).quiet
    · rename_i hne
      obtain ⟨first, started, hop⟩ := hs.writing other k happend hat hheld
      refine ⟨first, started, ?_⟩
      change _ ∈ (s.setChain id rest).chains other
      rw [setChain_chains, if_neg hne]
      exact hop
  · intro other hnone
    have hne : other ≠ call := by
      rintro rfl
      exact hnone h ((howns _ _).mpr (.inl hcall))
    rw [hcalls other hne]
    exact hs.awaits other fun k howned => hnone k ((howns other k).mpr howned)
  · intro first second k hfirst hsecond
    exact hs.owner first second k ((howns _ _).mp hfirst) ((howns _ _).mp hsecond)
  · intro other k howned
    exact hs.owned other k ((howns _ _).mp howned)
  · intro other k hother
    have hne : other ≠ call := by
      rintro rfl
      simp [PreparationState.setCall] at hother
    rw [hcalls other hne] at hother
    obtain ⟨started, hop⟩ := hs.queued other k hother
    exact ⟨started, hstill _ _ (by simp [hne]) hop⟩
  · intro other k hat hcommitting
    obtain ⟨first, howned⟩ := hs.held other k hat hcommitting
    exact ⟨first, (howns _ _).mpr howned⟩
  · intro other hle
    have hne : other ≠ call := by
      rintro rfl
      have := hs.fresh other hle
      rw [hcall] at this
      cases this
    exact (hcalls other hne).trans (hs.fresh other hle)

theorem Orderly.ready_free (hs : s.Orderly) {h : Nat} (hin : s.pool.InTable h)
    (hready : (s.pool.heap h).phase = .ready) :
    (∀ call, ¬ s.Owns call h) ∧
      ∀ call started, .commit call started ∉ s.chains (s.pool.heap h).id := by
  constructor
  · intro call howned
    have := (hs.owned call h howned).2.2 hin
    rw [hready] at this
    cases this
  · intro call started hmem
    obtain ⟨k, _, _, htable⟩ := hs.commit _ call started hmem
    rcases htable h hin with ⟨rfl, hphase⟩ | hload
    · rw [hready] at hphase
      cases hphase
    · have hloading := (hs.kept.loading _ h hin).mpr (hs.load _ h hload).2.2.1
      rw [hready] at hloading
      cases hloading

section BeginCommit

variable {h call : Nat}

theorem beginCommit_heap (p : SessionPreparations Source CommitState) (h k : Nat) :
    (p.beginCommit h).heap k = if k = h then { p.heap h with
      phase := .committing, reservationSettled := some p.nextPromise } else p.heap k := by
  by_cases hk : k = h
  · subst hk
    simp [SessionPreparations.beginCommit, SessionPreparations.write]
  · simp [SessionPreparations.beginCommit, SessionPreparations.write, hk]

theorem beginCommit_heap_of_ne (p : SessionPreparations Source CommitState) {k : Nat} (hk : k ≠ h) :
    (p.beginCommit h).heap k = p.heap k := by
  rw [beginCommit_heap, if_neg hk]

theorem beginCommit_id (p : SessionPreparations Source CommitState) (h k : Nat) :
    ((p.beginCommit h).heap k).id = (p.heap k).id := by
  rw [beginCommit_heap]
  split
  · rename_i hk
    rw [hk]
  · rfl

theorem beginCommit_result (p : SessionPreparations Source CommitState) (h k : Nat) :
    ((p.beginCommit h).heap k).result = (p.heap k).result := by
  rw [beginCommit_heap]
  split
  · rename_i hk
    rw [hk]
  · rfl

theorem beginCommit_wellKept {p : SessionPreparations Source CommitState} (hp : p.WellKept)
    (hresult : (p.heap h).result ≠ none) : (p.beginCommit h).WellKept := by
  have hself : (p.beginCommit h).heap h = { p.heap h with
      phase := .committing, reservationSettled := some p.nextPromise } := by
    rw [beginCommit_heap, if_pos rfl]
  constructor
  · intro id k hk
    rw [beginCommit_id]
    exact hp.entry_id id k hk
  · intro id k hk
    by_cases hkh : k = h
    · subst hkh
      rw [hself]
      exact iff_of_false nofun hresult
    · rw [beginCommit_heap_of_ne p hkh]
      exact hp.loading id k hk
  · intro id k hk
    by_cases hkh : k = h
    · subst hkh
      rw [hself]
      exact ⟨fun _ => rfl, fun _ => rfl⟩
    · rw [beginCommit_heap_of_ne p hkh]
      exact hp.promised id k hk
  · intro id k hk hphase
    by_cases hkh : k = h
    · subst hkh
      rw [hself] at hphase
      cases hphase
    · rw [beginCommit_heap_of_ne p hkh] at hphase
      obtain ⟨r, reservation, hfound⟩ := hp.granted id k hk hphase
      refine ⟨r, reservation, ?_⟩
      rw [beginCommit_heap_of_ne p hkh]
      exact hfound

/-- The commit of an entry waits in the chain of its id. -/
abbrev begun (s : PreparationState Source CommitState) (h call : Nat) :
    PreparationState Source CommitState :=
  ((s.setPool (s.pool.beginCommit h)).serialize (s.pool.heap h).id
    (.commit call false)).setCall call (.committing h)

theorem mem_begun {id : String} {op : ChainOp} : op ∈ (s.begun h call).chains id ↔
    op ∈ s.chains id ∨ id = (s.pool.heap h).id ∧ op = .commit call false :=
  mem_serialize

theorem begun_calls {other : Nat} (hne : other ≠ call) :
    (s.begun h call).calls other = s.calls other := by
  simp [begun, PreparationState.setCall, hne, PreparationState.serialize,
    PreparationState.setChain, setPool]

theorem begun_owns (hcall : ∀ k, ¬ s.Owns call k) (other k : Nat) :
    (s.begun h call).Owns other k ↔ other = call ∧ k = h ∨ s.Owns other k := by
  by_cases hne : other = call
  · subst hne
    have hplace : (s.begun h other).calls other = .committing h := by
      simp [begun, PreparationState.setCall]
    rw [Owns, hplace]
    constructor
    · rintro (hk | ⟨_, hk⟩)
      · cases hk
        exact .inl ⟨rfl, rfl⟩
      · cases hk
    · rintro (⟨_, rfl⟩ | hbad)
      · exact .inl rfl
      · exact absurd hbad (hcall k)
  · rw [Owns, begun_calls hne]
    simp [hne, Owns]

theorem Orderly.begun_committing (hs : s.Orderly) (hin : s.pool.InTable h)
    (hready : (s.pool.heap h).phase = .ready) (hcall : ∀ k, ¬ s.Owns call k) {id : String}
    {other : Nat} {started : Bool} (hop : .commit other started ∈ (s.begun h call).chains id) :
    ∃ k, (s.begun h call).calls other = .committing k ∧ ((s.begun h call).pool.heap k).id = id ∧
      ∀ j, (s.begun h call).pool.at? id = some j →
        j = k ∧ ((s.begun h call).pool.heap k).phase = .committing ∨
          .load j ∈ (s.begun h call).chains id := by
  rcases mem_begun.mp hop with hold | ⟨rfl, hnew⟩
  · obtain ⟨k, hcommitting, hkid, htable⟩ := hs.commit id other started hold
    have hne : other ≠ call := by
      rintro rfl
      exact hcall k (.inl hcommitting)
    refine ⟨k, (begun_calls hne).trans hcommitting, (beginCommit_id _ h k).trans hkid, ?_⟩
    intro j hj
    have hjh : j ≠ h := by
      rintro rfl
      rw [← (hs.kept.entry_id _ _ hj).2] at hold
      exact (hs.ready_free hin hready).2 other started hold
    refine (htable j hj).imp (fun hold => ⟨hold.1, ?_⟩) fun hload => mem_begun.mpr (.inl hload)
    change ((s.pool.beginCommit h).heap k).phase = .committing
    rw [← hold.1, beginCommit_heap_of_ne _ hjh, hold.1]
    exact hold.2
  · cases hnew
    refine ⟨h, by simp [begun, PreparationState.setCall], beginCommit_id _ h h, ?_⟩
    intro k hk
    have hkh : k = h := Option.some.inj (hk.symm.trans hin)
    refine .inl ⟨hkh, ?_⟩
    change ((s.pool.beginCommit h).heap h).phase = .committing
    rw [beginCommit_heap, if_pos rfl]

theorem Orderly.begun_ordered (hs : s.Orderly) (hin : s.pool.InTable h)
    (hready : (s.pool.heap h).phase = .ready) (hresult : (s.pool.heap h).result ≠ none)
    (id : String) : ((s.begun h call).chains id).Pairwise (ChainOp.Before (s.pool.at? id)) := by
  change ((PreparationState.serialize _ _ _).chains id).Pairwise _
  rw [serialize_chains]
  split
  case isFalse => exact hs.ordered id
  case isTrue heq =>
    rw [heq, List.pairwise_append]
    refine ⟨hs.ordered _, List.pairwise_singleton _ _, ?_⟩
    intro earlier hearlier later hlater
    obtain rfl := List.mem_singleton.mp hlater
    constructor
    · simp
    · intro hcommit
      cases earlier with
      | commit other started =>
        exact absurd hearlier ((hs.ready_free hin hready).2 other started)
      | load | append | other => cases hcommit
    · rintro k rfl
      refine ⟨by simp, ?_⟩
      intro hk
      have hkh : k = h := Option.some.inj (hk.symm.trans hin)
      rw [hkh] at hearlier
      exact absurd (hs.load _ h hearlier).2.2.1 hresult

theorem Orderly.begun_writing (hs : s.Orderly) {id : String} {k : Nat}
    (happend : .append true ∈ (s.begun h call).chains id) (hk : s.pool.at? id = some k)
    (hheld : ((s.pool.beginCommit h).heap k).phase.held = true) :
    ∃ other started, .commit other started ∈ (s.begun h call).chains id := by
  have hold : .append true ∈ s.chains id := by
    rcases mem_begun.mp happend with hold | ⟨_, hbad⟩
    · exact hold
    · cases hbad
  by_cases hkh : k = h
  · subst hkh
    rw [← (hs.kept.entry_id _ _ hk).2]
    exact ⟨call, false, mem_begun.mpr (.inr ⟨rfl, rfl⟩)⟩
  · rw [beginCommit_heap_of_ne _ hkh] at hheld
    obtain ⟨other, started, hop⟩ := hs.writing id k hold hk hheld
    exact ⟨other, started, mem_begun.mpr (.inl hop)⟩

theorem Orderly.begun_awaits (hs : s.Orderly) (hready : (s.pool.heap h).phase = .ready)
    (hcall : ∀ k, ¬ s.Owns call k) {other : Nat} (hnone : ∀ k, ¬ (s.begun h call).Owns other k) :
    (s.begun h call).Awaits ((s.begun h call).calls other) := by
  have hne : other ≠ call := by
    rintro rfl
    exact hnone h ((begun_owns hcall _ _).mpr (.inl ⟨rfl, rfl⟩))
  have hfree : ∀ k, ¬ s.Owns other k := fun k howned =>
    hnone k ((begun_owns hcall other k).mpr (.inr howned))
  have hold := hs.awaits other hfree
  rw [begun_calls hne]
  cases hplace : s.calls other with
  | inspecting k | reserving k =>
    rw [hplace] at hold
    exact hold
  | waiting k w =>
    rw [hplace] at hold
    obtain ⟨hklt, hsome, hwait⟩ := hold
    change k < s.pool.nextEntry ∧ ((s.pool.beginCommit h).heap k).result ≠ none ∧
      (s.pool.settled w = true ∨ s.pool.at? ((s.pool.beginCommit h).heap k).id = some k ∧
        ((s.pool.beginCommit h).heap k).reservationSettled = some w)
    rw [beginCommit_result, beginCommit_id]
    refine ⟨hklt, hsome, ?_⟩
    rcases hwait with hw | ⟨hkin, hw⟩
    · exact .inl hw
    · by_cases hkh : k = h
      · subst hkh
        have hpromised := (hs.kept.promised _ k hkin).mpr (by rw [hw]; rfl)
        rw [hready] at hpromised
        cases hpromised
      · rw [beginCommit_heap_of_ne _ hkh]
        exact .inr ⟨hkin, hw⟩
  | committing k => exact absurd (.inl hplace) (hfree k)
  | committed k outcome => exact absurd (.inr ⟨outcome, hplace⟩) (hfree k)
  | idle | inspected | returned | rejected => trivial

theorem Orderly.begun_owner (hs : s.Orderly) (hcall : ∀ k, ¬ s.Owns call k)
    (hfree : ∀ call, ¬ s.Owns call h) {first second k : Nat}
    (hfirst : (s.begun h call).Owns first k) (hsecond : (s.begun h call).Owns second k) :
    first = second := by
  rcases (begun_owns hcall first k).mp hfirst with ⟨hfirstCall, hk⟩ | holdFirst
  · rcases (begun_owns hcall second k).mp hsecond with ⟨hsecondCall, _⟩ | holdSecond
    · exact hfirstCall.trans hsecondCall.symm
    · exact absurd (hk ▸ holdSecond) (hfree second)
  · rcases (begun_owns hcall second k).mp hsecond with ⟨_, hk⟩ | holdSecond
    · exact absurd (hk ▸ holdFirst) (hfree first)
    · exact hs.owner first second k holdFirst holdSecond

theorem Orderly.begun_queued (hs : s.Orderly) (hcall : ∀ k, ¬ s.Owns call k) {other k : Nat}
    (hcommitting : (s.begun h call).calls other = .committing k) :
    ∃ started, .commit other started ∈ (s.begun h call).chains (s.pool.heap k).id := by
  by_cases hne : other = call
  · subst hne
    have hk : k = h := by
      rcases (begun_owns hcall other k).mp (.inl hcommitting) with ⟨_, hk⟩ | hbad
      · exact hk
      · exact absurd hbad (hcall k)
    rw [hk]
    exact ⟨false, mem_begun.mpr (.inr ⟨rfl, rfl⟩)⟩
  · rw [begun_calls hne] at hcommitting
    obtain ⟨started, hop⟩ := hs.queued other k hcommitting
    exact ⟨started, mem_begun.mpr (.inl hop)⟩

theorem Orderly.beginCommit (hs : s.Orderly) (hin : s.pool.InTable h)
    (hready : (s.pool.heap h).phase = .ready) (hcall : ∀ k, ¬ s.Owns call k)
    (hlt : call < s.nextCall) : (s.begun h call).Orderly := by
  obtain ⟨hfreeOwner, hfree⟩ := hs.ready_free hin hready
  have hresult : (s.pool.heap h).result ≠ none := by
    intro hnone
    have := (hs.kept.loading _ h hin).mpr hnone
    rw [hready] at this
    cases this
  have hids := beginCommit_id s.pool h
  have hresults := beginCommit_result s.pool h
  constructor
  · exact beginCommit_wellKept hs.kept hresult
  · intro k hklt hnone
    change ((s.pool.beginCommit h).heap k).result = none at hnone
    rw [hresults] at hnone
    refine (hs.pending k hklt hnone).imp (fun harrived => harrived) fun hload => ?_
    change .load k ∈ (s.begun h call).chains ((s.pool.beginCommit h).heap k).id
    rw [hids]
    exact mem_begun.mpr (.inl hload)
  · intro k outcome hk
    change k < s.pool.nextEntry ∧ ((s.pool.beginCommit h).heap k).result = none
    rw [hresults]
    exact hs.arrived k outcome hk
  · intro id k hk
    change k < s.pool.nextEntry ∧ ((s.pool.beginCommit h).heap k).id = id ∧
      ((s.pool.beginCommit h).heap k).result = none ∧ s.arrived k = none
    rw [hids, hresults]
    rcases mem_begun.mp hk with hold | ⟨_, hbad⟩
    · exact hs.load id k hold
    · cases hbad
  · exact fun id other started => hs.begun_committing hin hready hcall
  · exact hs.begun_ordered hin hready hresult
  · exact fun id k => hs.begun_writing
  · exact fun other => hs.begun_awaits hready hcall
  · exact fun first second k => hs.begun_owner hcall hfreeOwner
  · intro other k howned
    change k < s.pool.nextEntry ∧ ((s.pool.beginCommit h).heap k).result ≠ none ∧
      (s.pool.at? ((s.pool.beginCommit h).heap k).id = some k →
        ((s.pool.beginCommit h).heap k).phase = .committing)
    rw [hresults, hids]
    rcases (begun_owns hcall other k).mp howned with ⟨rfl, rfl⟩ | hold
    · refine ⟨(hs.kept.entry_id _ _ hin).1, hresult, fun _ => ?_⟩
      rw [beginCommit_heap, if_pos rfl]
    · have hkh : k ≠ h := by
        rintro rfl
        exact hfreeOwner other hold
      rw [beginCommit_heap_of_ne _ hkh]
      exact hs.owned other k hold
  · intro other k hcommitting
    change ∃ started, .commit other started ∈
      (s.begun h call).chains ((s.pool.beginCommit h).heap k).id
    rw [hids]
    exact hs.begun_queued hcall hcommitting
  · intro id k hk hcommitting
    by_cases hkh : k = h
    · exact ⟨call, (begun_owns hcall call k).mpr (.inl ⟨rfl, hkh⟩)⟩
    · change ((s.pool.beginCommit h).heap k).phase = .committing at hcommitting
      rw [beginCommit_heap_of_ne _ hkh] at hcommitting
      obtain ⟨other, howned⟩ := hs.held id k hk hcommitting
      exact ⟨other, (begun_owns hcall other k).mpr (.inr howned)⟩
  · intro other hle
    have hne : other ≠ call := by
      rintro rfl
      exact absurd hlt (Nat.not_lt.mpr hle)
    exact (begun_calls hne).trans (hs.fresh other hle)

end BeginCommit

theorem stillborn_wellKept {p q : SessionPreparations Source CommitState} (hp : p.WellKept)
    (hat : ∀ id, q.at? id = p.at? id) (hnext : q.nextEntry = p.nextEntry + 1)
    (hother : ∀ k, k < p.nextEntry → q.heap k = p.heap k)
    (hreservations : q.reservations = p.reservations) : q.WellKept := by
  have hold : ∀ {id k}, p.at? id = some k → q.heap k = p.heap k :=
    fun hk => hother _ (hp.entry_id _ _ hk).1
  constructor
  · intro id k hk
    rw [hat] at hk
    obtain ⟨hlt, hid⟩ := hp.entry_id id k hk
    rw [hold hk]
    exact ⟨by omega, hid⟩
  · intro id k hk
    rw [hat] at hk
    rw [hold hk]
    exact hp.loading id k hk
  · intro id k hk
    rw [hat] at hk
    rw [hold hk]
    exact hp.promised id k hk
  · intro id k hk hphase
    rw [hat] at hk
    rw [hold hk] at hphase ⊢
    rw [hreservations]
    exact hp.granted id k hk hphase

theorem Orderly.stillborn (hs : s.Orderly) {q : SessionPreparations Source CommitState}
    (hat : ∀ id, q.at? id = s.pool.at? id) (hnext : q.nextEntry = s.pool.nextEntry + 1)
    (hother : ∀ k, k < s.pool.nextEntry → q.heap k = s.pool.heap k)
    (hresult : (q.heap s.pool.nextEntry).result ≠ none) (hsettled : q.settled = s.pool.settled)
    (hreservations : q.reservations = s.pool.reservations) : (s.setPool q).Orderly := by
  have hold : ∀ {id k}, s.pool.at? id = some k → q.heap k = s.pool.heap k :=
    fun hk => hother _ (hs.kept.entry_id _ _ hk).1
  have hin : ∀ k, k < s.pool.nextEntry → (q.InTable k ↔ s.pool.InTable k) := by
    intro k hk
    rw [SessionPreparations.InTable, hother k hk, hat]
  constructor
  · exact stillborn_wellKept hs.kept hat hnext hother hreservations
  · intro k hlt hnone
    change (q.heap k).result = none at hnone
    have hk : k < s.pool.nextEntry := by
      change k < q.nextEntry at hlt
      rcases Nat.lt_succ_iff_lt_or_eq.mp (hnext ▸ hlt) with hk | rfl
      · exact hk
      · exact absurd hnone hresult
    rw [hother k hk] at hnone
    change (s.arrived k).isSome ∨ ChainOp.load k ∈ s.chains (q.heap k).id
    rw [hother k hk]
    exact hs.pending k hk hnone
  · intro k outcome harrived
    obtain ⟨hlt, hnone⟩ := hs.arrived k outcome harrived
    change k < q.nextEntry ∧ (q.heap k).result = none
    rw [hother k hlt]
    exact ⟨by omega, hnone⟩
  · intro id k hmem
    obtain ⟨hlt, hrest⟩ := hs.load id k hmem
    change k < q.nextEntry ∧ (q.heap k).id = id ∧ (q.heap k).result = none ∧ s.arrived k = none
    rw [hother k hlt]
    exact ⟨by omega, hrest⟩
  · intro id call started hmem
    obtain ⟨k, hcall, hid, htable⟩ := hs.commit id call started hmem
    have hlt := (hs.owned call k (.inl hcall)).1
    refine ⟨k, hcall, ?_, ?_⟩
    · change (q.heap k).id = id
      rw [hother k hlt]
      exact hid
    · intro j hj
      change q.at? id = some j at hj
      rw [hat] at hj
      change j = k ∧ (q.heap k).phase = .committing ∨ .load j ∈ s.chains id
      rw [hother k hlt]
      exact htable j hj
  · intro id
    change (s.chains id).Pairwise (ChainOp.Before (q.at? id))
    rw [hat]
    exact hs.ordered id
  · intro id k hmem hk hheld
    change q.at? id = some k at hk
    rw [hat] at hk
    change (q.heap k).phase.held = true at hheld
    rw [hold hk] at hheld
    exact hs.writing id k hmem hk hheld
  · intro call hnone
    have hawaits := hs.awaits call hnone
    change Awaits _ (s.calls call)
    cases hplace : s.calls call with
    | inspecting k =>
      rw [hplace] at hawaits
      change k < s.pool.nextEntry at hawaits
      change k < q.nextEntry
      omega
    | reserving k =>
      rw [hplace] at hawaits
      change k < s.pool.nextEntry at hawaits
      change k < q.nextEntry
      omega
    | waiting k w =>
      rw [hplace] at hawaits
      obtain ⟨hlt, hsome, hwait⟩ := hawaits
      change k < q.nextEntry ∧ (q.heap k).result ≠ none ∧
        (q.settled w = true ∨ q.InTable k ∧ (q.heap k).reservationSettled = some w)
      rw [hin k hlt, hother k hlt, hsettled]
      exact ⟨by omega, hsome, hwait⟩
    | committing k => exact absurd (.inl hplace) (hnone k)
    | committed k outcome => exact absurd (.inr ⟨outcome, hplace⟩) (hnone k)
    | idle | inspected | returned | rejected => trivial
  · exact hs.owner
  · intro call k howned
    obtain ⟨hlt, hrest⟩ := hs.owned call k howned
    change k < q.nextEntry ∧ (q.heap k).result ≠ none ∧
      (q.InTable k → (q.heap k).phase = .committing)
    rw [hin k hlt, hother k hlt]
    exact ⟨by omega, hrest⟩
  · intro call k hcall
    change ∃ started, ChainOp.commit call started ∈ s.chains (q.heap k).id
    rw [hother k (hs.owned call k (.inl hcall)).1]
    exact hs.queued call k hcall
  · intro id k hk hphase
    change q.at? id = some k at hk
    rw [hat] at hk
    change (q.heap k).phase = .committing at hphase
    rw [hold hk] at hphase
    exact hs.held id k hk hphase
  · exact hs.fresh

theorem create_at? {p : SessionPreparations Source CommitState} {id : String}
    (hnone : p.at? id = none) (other : String) :
    (p.create id).at? other = if other = id then some p.nextEntry else p.at? other :=
  OrderedMap.get?_set_new (OrderedMap.notMem_keys_of_get? hnone) _ _

theorem create_heap_of_lt {p : SessionPreparations Source CommitState} {id : String} {k : Nat}
    (hk : k < p.nextEntry) : (p.create id).heap k = p.heap k := by
  simp [SessionPreparations.create, Nat.ne_of_lt hk]

theorem create_heap_new (p : SessionPreparations Source CommitState) (id : String) :
    (p.create id).heap p.nextEntry = .fresh id := by
  simp [SessionPreparations.create]

section Create

variable {id : String}

theorem create_cases {p : SessionPreparations Source CommitState} (hnone : p.at? id = none)
    {other : String} {k : Nat} : (p.create id).at? other = some k ↔
      other = id ∧ k = p.nextEntry ∨ p.at? other = some k := by
  rw [create_at? hnone]
  split
  · rename_i heq
    rw [heq, hnone, Option.some.injEq, and_iff_right rfl, or_iff_left nofun, eq_comm]
  · rename_i hne
    rw [or_iff_right fun h => hne h.1]

theorem create_wellKept {p : SessionPreparations Source CommitState} (hp : p.WellKept)
    (hnone : p.at? id = none) : (p.create id).WellKept := by
  have hold : ∀ {other k}, p.at? other = some k → (p.create id).heap k = p.heap k :=
    fun hk => create_heap_of_lt (hp.entry_id _ _ hk).1
  have hnew := create_heap_new p id
  constructor
  · intro other k hk
    change k < p.nextEntry + 1 ∧ _
    rcases (create_cases hnone).mp hk with ⟨rfl, rfl⟩ | hk
    · rw [hnew]
      exact ⟨Nat.lt_succ_self _, rfl⟩
    · rw [hold hk]
      obtain ⟨hlt, hid⟩ := hp.entry_id other k hk
      exact ⟨by omega, hid⟩
  · intro other k hk
    rcases (create_cases hnone).mp hk with ⟨rfl, rfl⟩ | hk
    · rw [hnew]
      exact ⟨fun _ => rfl, fun _ => rfl⟩
    · rw [hold hk]
      exact hp.loading other k hk
  · intro other k hk
    rcases (create_cases hnone).mp hk with ⟨rfl, rfl⟩ | hk
    · rw [hnew]
      simp [PreparationEntry.fresh, PreparationPhase.held]
    · rw [hold hk]
      exact hp.promised other k hk
  · intro other k hk hphase
    rcases (create_cases hnone).mp hk with ⟨rfl, rfl⟩ | hk
    · rw [hnew] at hphase
      cases hphase
    · rw [hold hk] at hphase ⊢
      exact hp.granted other k hk hphase

/-- The load of a new entry waits in the chain of its id. -/
abbrev created (s : PreparationState Source CommitState) (id : String) :
    PreparationState Source CommitState :=
  (s.setPool (s.pool.create id)).serialize id (.load s.pool.nextEntry)

theorem mem_created {other : String} {op : ChainOp} : op ∈ (s.created id).chains other ↔
    op ∈ s.chains other ∨ other = id ∧ op = .load s.pool.nextEntry :=
  mem_serialize

theorem created_inTable (hnone : s.pool.at? id = none) {k : Nat} (hk : k < s.pool.nextEntry) :
    (s.pool.create id).InTable k ↔ s.pool.InTable k := by
  rw [SessionPreparations.InTable, create_heap_of_lt hk, create_cases hnone,
    or_iff_right fun h => Nat.ne_of_lt hk h.2]

theorem Orderly.created_pending (hs : s.Orderly) {k : Nat} (hlt : k < s.pool.nextEntry + 1)
    (hresult : ((s.pool.create id).heap k).result = none) :
    (s.arrived k).isSome ∨
      .load k ∈ (s.created id).chains ((s.pool.create id).heap k).id := by
  rcases Nat.lt_succ_iff_lt_or_eq.mp hlt with hk | rfl
  · rw [create_heap_of_lt hk] at hresult ⊢
    exact (hs.pending k hk hresult).imp (fun harrived => harrived) fun hload =>
      mem_created.mpr (.inl hload)
  · rw [create_heap_new]
    exact .inr (mem_created.mpr (.inr ⟨rfl, rfl⟩))

theorem Orderly.created_load (hs : s.Orderly) {other : String} {k : Nat}
    (hk : .load k ∈ (s.created id).chains other) :
    k < s.pool.nextEntry + 1 ∧ ((s.pool.create id).heap k).id = other ∧
      ((s.pool.create id).heap k).result = none ∧ s.arrived k = none := by
  rcases mem_created.mp hk with hold | ⟨heq, hload⟩
  · obtain ⟨hlt, hrest⟩ := hs.load other k hold
    rw [create_heap_of_lt hlt]
    exact ⟨by omega, hrest⟩
  · cases hload
    rw [create_heap_new, heq]
    refine ⟨Nat.lt_succ_self _, rfl, rfl, ?_⟩
    cases harrived : s.arrived s.pool.nextEntry with
    | none => rfl
    | some outcome => exact absurd (hs.arrived _ _ harrived).1 (Nat.lt_irrefl _)

theorem Orderly.created_commit (hs : s.Orderly) (hnone : s.pool.at? id = none) {other : String}
    {call : Nat} {started : Bool} (hop : .commit call started ∈ (s.created id).chains other) :
    ∃ k, s.calls call = .committing k ∧ ((s.pool.create id).heap k).id = other ∧
      ∀ j, (s.pool.create id).at? other = some j →
        j = k ∧ ((s.pool.create id).heap k).phase = .committing ∨
          .load j ∈ (s.created id).chains other := by
  rcases mem_created.mp hop with hop | ⟨_, hbad⟩
  · obtain ⟨k, hcall, hid, htable⟩ := hs.commit other call started hop
    refine ⟨k, hcall, ?_⟩
    rw [create_heap_of_lt (hs.owned call k (.inl hcall)).1]
    refine ⟨hid, fun j hj => ?_⟩
    rcases (create_cases hnone).mp hj with ⟨heq, rfl⟩ | hj
    · exact .inr (mem_created.mpr (.inr ⟨heq, rfl⟩))
    · exact (htable j hj).imp (fun hheld => hheld) fun hload => mem_created.mpr (.inl hload)
  · cases hbad

theorem Orderly.created_ordered (hs : s.Orderly) (hnone : s.pool.at? id = none) (other : String) :
    ((s.created id).chains other).Pairwise (ChainOp.Before ((s.pool.create id).at? other)) := by
  change ((PreparationState.serialize _ _ _).chains other).Pairwise _
  rw [serialize_chains, create_at? hnone]
  split
  case isFalse => exact hs.ordered other
  case isTrue heq =>
    have hload : ∀ k, .load k ∈ s.chains other → k ≠ s.pool.nextEntry :=
      fun k hk => Nat.ne_of_lt (hs.load other k hk).1
    rw [List.pairwise_append]
    refine ⟨?_, List.pairwise_singleton _ _, ?_⟩
    · apply (hs.ordered other).imp_of_mem
      intro earlier later hearlier _ hb
      refine ⟨hb.quiet, hb.single, ?_⟩
      rintro k rfl
      refine ⟨(hb.load k rfl).1, ?_⟩
      intro hk
      exact absurd (Option.some.inj hk).symm (hload k hearlier)
    · intro earlier hearlier later hlater
      obtain rfl := List.mem_singleton.mp hlater
      refine ⟨by simp, fun _ => rfl, ?_⟩
      rintro k rfl
      exact ⟨by simpa using (hload k hearlier).symm, fun _ => rfl⟩

theorem Orderly.created_awaits (hs : s.Orderly) (hnone : s.pool.at? id = none) {call : Nat}
    (hfree : ∀ k, ¬ s.Owns call k) : (s.created id).Awaits (s.calls call) := by
  have hawaits := hs.awaits call hfree
  cases hplace : s.calls call with
  | inspecting k | reserving k =>
    rw [hplace] at hawaits
    exact Nat.lt_succ_of_lt hawaits
  | waiting k w =>
    rw [hplace] at hawaits
    obtain ⟨hlt, hsome, hwait⟩ := hawaits
    change k < s.pool.nextEntry + 1 ∧ ((s.pool.create id).heap k).result ≠ none ∧
      (s.pool.settled w = true ∨ (s.pool.create id).InTable k ∧
        ((s.pool.create id).heap k).reservationSettled = some w)
    rw [created_inTable hnone hlt, create_heap_of_lt hlt]
    exact ⟨by omega, hsome, hwait⟩
  | committing k => exact absurd (.inl hplace) (hfree k)
  | committed k outcome => exact absurd (.inr ⟨outcome, hplace⟩) (hfree k)
  | idle | inspected | returned | rejected => trivial

theorem Orderly.create (hs : s.Orderly) (hnone : s.pool.at? id = none) :
    (s.created id).Orderly := by
  have hold : ∀ {other k}, s.pool.at? other = some k →
      (s.pool.create id).heap k = s.pool.heap k :=
    fun hk => create_heap_of_lt (hs.kept.entry_id _ _ hk).1
  have hnew := create_heap_new s.pool id
  constructor
  · exact create_wellKept hs.kept hnone
  · exact fun k => hs.created_pending
  · intro k outcome harrived
    obtain ⟨hlt, hresult⟩ := hs.arrived k outcome harrived
    change k < s.pool.nextEntry + 1 ∧ ((s.pool.create id).heap k).result = none
    rw [create_heap_of_lt hlt]
    exact ⟨by omega, hresult⟩
  · exact fun other k => hs.created_load
  · exact fun other call started => hs.created_commit hnone
  · exact hs.created_ordered hnone
  · intro other k happend hk hheld
    change ((s.pool.create id).heap k).phase.held = true at hheld
    rcases (create_cases hnone).mp hk with ⟨_, rfl⟩ | hk
    · rw [hnew] at hheld
      cases hheld
    · rw [hold hk] at hheld
      rcases mem_created.mp happend with happend | ⟨_, hbad⟩
      · obtain ⟨call, started, hop⟩ := hs.writing other k happend hk hheld
        exact ⟨call, started, mem_created.mpr (.inl hop)⟩
      · cases hbad
  · exact fun call => hs.created_awaits hnone
  · exact hs.owner
  · intro call k howned
    obtain ⟨hlt, hrest⟩ := hs.owned call k howned
    change k < s.pool.nextEntry + 1 ∧ ((s.pool.create id).heap k).result ≠ none ∧
      ((s.pool.create id).InTable k → ((s.pool.create id).heap k).phase = .committing)
    rw [created_inTable hnone hlt, create_heap_of_lt hlt]
    exact ⟨by omega, hrest⟩
  · intro call k hcall
    change ∃ started, _ ∈ (s.created id).chains ((s.pool.create id).heap k).id
    rw [create_heap_of_lt (hs.owned call k (.inl hcall)).1]
    obtain ⟨started, hop⟩ := hs.queued call k hcall
    exact ⟨started, mem_created.mpr (.inl hop)⟩
  · intro other k hk hphase
    change ((s.pool.create id).heap k).phase = .committing at hphase
    rcases (create_cases hnone).mp hk with ⟨_, rfl⟩ | hk
    · rw [hnew] at hphase
      cases hphase
    · rw [hold hk] at hphase
      exact hs.held other k hk hphase
  · exact hs.fresh

end Create

section Withdraw

variable {call h : Nat}

/-- The commit of an entry is no more than a wait in the chain of its id. -/
abbrev withdrawn (s : PreparationState Source CommitState) (call h : Nat) :
    PreparationState Source CommitState :=
  s.setChain (s.pool.heap h).id ((s.chains (s.pool.heap h).id).map fun op =>
    if op = .commit call false then .other else op)

theorem Orderly.mem_of_withdrawn (hs : s.Orderly)
    (hwaits : .commit call false ∈ s.chains (s.pool.heap h).id) {other : String} {op : ChainOp}
    (hne : op ≠ .other) (hop : op ∈ (s.withdrawn call h).chains other) :
    op ∈ s.chains other ∧ op ≠ .commit call false := by
  rw [setChain_chains] at hop
  split at hop
  · rename_i heq
    rw [heq]
    obtain ⟨old, hold, hsame⟩ := List.mem_map.mp hop
    split at hsame
    · exact absurd hsame.symm hne
    · rename_i hkeep
      rw [← hsame]
      exact ⟨hold, hkeep⟩
  · refine ⟨hop, ?_⟩
    rintro rfl
    rename_i hbad
    exact hbad (hs.commit_unique hop hwaits)

theorem withdrawn_of_mem {other : String} {op : ChainOp} (hne : op ≠ .commit call false)
    (hop : op ∈ s.chains other) : op ∈ (s.withdrawn call h).chains other := by
  rw [setChain_chains]
  split
  · rename_i heq
    rw [heq] at hop
    exact List.mem_map.mpr ⟨op, hop, if_neg hne⟩
  · exact hop

/-- Two commits of one chain are one operation. -/
theorem Orderly.commit_started (hs : s.Orderly) {id : String} {started other : Bool}
    (hfirst : .commit call started ∈ s.chains id) (hsecond : .commit call other ∈ s.chains id) :
    started = other := by
  have hordered := hs.ordered id
  obtain ⟨i, hi, hget⟩ := List.getElem_of_mem hfirst
  obtain ⟨j, hj, hget'⟩ := List.getElem_of_mem hsecond
  rw [List.pairwise_iff_getElem] at hordered
  rcases Nat.lt_trichotomy i j with hij | hij | hij
  · have := (hordered i j hi hj hij).single
    rw [hget, hget'] at this
    cases this rfl
  · subst hij
    rw [hget] at hget'
    cases hget'
    rfl
  · have := (hordered j i hj hi hij).single
    rw [hget, hget'] at this
    cases this rfl

theorem Orderly.withdrawn_commit (hs : s.Orderly)
    (hwaits : .commit call false ∈ s.chains (s.pool.heap h).id) {other : String} {first : Nat}
    {started : Bool} (hop : .commit first started ∈ (s.withdrawn call h).chains other) :
    first ≠ call := by
  rintro rfl
  obtain ⟨hold, hne⟩ := hs.mem_of_withdrawn hwaits (by simp) hop
  rw [hs.commit_unique hold hwaits] at hold
  exact hne (congrArg _ (hs.commit_started hold hwaits))

theorem Orderly.withdrawn_ordered (hs : s.Orderly) (other : String) :
    ((s.withdrawn call h).chains other).Pairwise (ChainOp.Before (s.pool.at? other)) := by
  rw [setChain_chains]
  split
  case isFalse => exact hs.ordered other
  case isTrue heq =>
    rw [heq, List.pairwise_map]
    apply (hs.ordered _).imp
    intro earlier later hb
    by_cases hlater : later = .commit call false
    · rw [if_pos hlater]
      exact ⟨by simp, fun _ => rfl, fun _ _ => ⟨by simp, fun _ => rfl⟩⟩
    · rw [if_neg hlater]
      by_cases hearlier : earlier = .commit call false
      · rw [if_pos hearlier]
        exact ⟨hb.quiet, nofun, nofun⟩
      · rw [if_neg hearlier]
        exact hb

theorem Orderly.withdrawn_writing (hs : s.Orderly) (hcall : s.calls call = .committing h)
    (hin : ¬ s.pool.InTable h) (hwaits : .commit call false ∈ s.chains (s.pool.heap h).id)
    {other : String} {k : Nat} (happend : .append true ∈ (s.withdrawn call h).chains other)
    (hk : s.pool.at? other = some k) (hheld : (s.pool.heap k).phase.held = true) :
    ∃ first started, .commit first started ∈ (s.withdrawn call h).chains other := by
  obtain ⟨first, started, hop⟩ :=
    hs.writing other k (hs.mem_of_withdrawn hwaits (by simp) happend).1 hk hheld
  refine ⟨first, started, withdrawn_of_mem ?_ hop⟩
  intro hbad
  cases hbad
  obtain ⟨j, hj, _, htable⟩ := hs.commit other call false hop
  obtain rfl : h = j := by
    rw [hcall] at hj
    cases hj
    rfl
  rcases htable k hk with ⟨rfl, _⟩ | hload
  · exact hin ((SessionPreparations.inTable_iff hs.kept).mpr ⟨_, hk⟩)
  · rw [(hs.kept.loading _ k hk).mpr (hs.load _ k hload).2.2.1] at hheld
    cases hheld

theorem Orderly.withdraw (hs : s.Orderly) (error : String) (hcall : s.calls call = .committing h)
    (hin : ¬ s.pool.InTable h) (hwaits : .commit call false ∈ s.chains (s.pool.heap h).id) :
    ((s.withdrawn call h).setCall call (.rejected error)).Orderly := by
  have hrejected : s.Awaits (.rejected error) := trivial
  have hcalls : ∀ other, other ≠ call →
      ((s.withdrawn call h).setCall call (.rejected error)).calls other = s.calls other :=
    fun _ => setCall_calls_of_ne _ _
  have howns : ∀ other k, ((s.withdrawn call h).setCall call (.rejected error)).Owns other k ↔
      other ≠ call ∧ s.Owns other k := fun _ _ => owns_setCall hrejected
  constructor
  · exact hs.kept
  · intro k hlt hnone
    exact (hs.pending k hlt hnone).imp (fun harrived => harrived) (withdrawn_of_mem (by simp))
  · exact hs.arrived
  · intro other k hk
    exact hs.load other k (hs.mem_of_withdrawn hwaits (by simp) hk).1
  · intro other first started hop
    obtain ⟨k, hfirst, hkid, htable⟩ :=
      hs.commit other first started (hs.mem_of_withdrawn hwaits (by simp) hop).1
    refine ⟨k, (hcalls first (hs.withdrawn_commit hwaits hop)).trans hfirst, hkid, ?_⟩
    intro j hj
    exact (htable j hj).imp (fun hheld => hheld) (withdrawn_of_mem (by simp))
  · exact hs.withdrawn_ordered
  · exact fun other k => hs.withdrawn_writing hcall hin hwaits
  · intro other hnone
    by_cases hne : other = call
    · subst hne
      rw [setCall_calls_self]
      trivial
    · rw [hcalls other hne]
      exact hs.awaits other fun k howned => hnone k ((howns other k).mpr ⟨hne, howned⟩)
  · intro first second k hfirst hsecond
    exact hs.owner first second k ((howns first k).mp hfirst).2 ((howns second k).mp hsecond).2
  · intro other k howned
    exact hs.owned other k ((howns other k).mp howned).2
  · intro other k hcommitting
    have hne := ((howns other k).mp (.inl hcommitting)).1
    rw [hcalls other hne] at hcommitting
    obtain ⟨started, hop⟩ := hs.queued other k hcommitting
    exact ⟨started, withdrawn_of_mem (by simp [hne]) hop⟩
  · intro id k hk hphase
    obtain ⟨other, howned⟩ := hs.held id k hk hphase
    refine ⟨other, (howns other k).mpr ⟨?_, howned⟩⟩
    rintro rfl
    obtain rfl : h = k := by
      rcases howned with hc | ⟨_, hc⟩
      · rw [hcall] at hc
        cases hc
        rfl
      · rw [hcall] at hc
        cases hc
    exact hin ((SessionPreparations.inTable_iff hs.kept).mpr ⟨_, hk⟩)
  · intro other hle
    have hne : other ≠ call := by
      rintro rfl
      have := hs.fresh other hle
      rw [hcall] at this
      cases this
    exact (hcalls other hne).trans (hs.fresh other hle)

end Withdraw

open SessionPreparations (Moves Revised)

def Goes (s t : PreparationState Source CommitState) : Prop :=
  t.Orderly ∧ Moves s.pool t.pool

theorem setCall_self (s : PreparationState Source CommitState) {call : Nat}
    {place : PreparationCall Source CommitState} (h : s.calls call = place) :
    s.setCall call place = s := by
  rw [PreparationState.setCall, ← h, Function.update_eq_self]

theorem Orderly.no_commit_of (hs : s.Orderly) {call : Nat}
    (h : ∀ k, s.calls call ≠ .committing k) (id : String) (started : Bool) :
    .commit call started ∉ s.chains id := by
  intro hmem
  obtain ⟨k, hcall, _⟩ := hs.commit id call started hmem
  exact h k hcall

theorem Orderly.lt_nextCall (hs : s.Orderly) {call : Nat} (h : s.calls call ≠ .idle) :
    call < s.nextCall := by
  by_contra hle
  exact h (hs.fresh call (Nat.le_of_not_lt hle))

theorem Orderly.place (hs : s.Orderly) {call : Nat} {place : PreparationCall Source CommitState}
    (hcommit : ∀ k, s.calls call ≠ .committing k)
    (howns : ∀ h, s.Owns call h → ¬ s.pool.InTable h) (hplace : s.Awaits place)
    (hlt : call < s.nextCall) : (s.setCall call place).Orderly :=
  @Orderly.setCall _ _ s hs call place s.nextCall (hs.no_commit_of hcommit) howns hplace
    (Nat.le_refl _) hlt

theorem Orderly.newCall (hs : s.Orderly) {place : PreparationCall Source CommitState}
    (hplace : s.Awaits place) : (s.newCall place).Orderly := by
  have hidle := hs.fresh s.nextCall (Nat.le_refl _)
  apply hs.setCall
  · apply hs.no_commit_of
    intro k
    rw [hidle]
    nofun
  · intro h howned
    rw [Owns, hidle] at howned
    rcases howned with hbad | ⟨_, hbad⟩ <;> cases hbad
  · exact hplace
  · exact Nat.le_succ _
  · exact Nat.lt_succ_self _

theorem remove_goes (hs : s.Orderly) (h : Nat) : s.Goes (s.setPool (s.pool.remove h)) :=
  ⟨hs.dropped (SessionPreparations.remove_dropped hs.kept h),
    SessionPreparations.remove_moves hs.kept h⟩

theorem goes_refl (hs : s.Orderly) : s.Goes s := ⟨hs, .refl _⟩

theorem invalidate_goes (hs : s.Orderly) (id : String) :
    s.Goes (s.setPool (s.pool.invalidate id)) := by
  rw [SessionPreparations.invalidate]
  split
  · exact remove_goes hs _
  · exact goes_refl hs

theorem entryFor_threw_goes (hs : s.Orderly) {id : String} (hat : s.pool.at? id = none)
    (error : String) : s.Goes (s.setPool (((s.pool.create id).remove s.pool.nextEntry).settleResult
      s.pool.nextEntry (.error error))) ∧
      s.pool.nextEntry < (((s.pool.create id).remove s.pool.nextEntry).settleResult
        s.pool.nextEntry (.error error)).nextEntry := by
  have hnew := create_heap_new s.pool id
  have hin : (s.pool.create id).InTable s.pool.nextEntry := by
    rw [SessionPreparations.InTable, hnew, create_at? hat]
    exact if_pos rfl
  have hremoved : ∀ other, ((s.pool.create id).remove s.pool.nextEntry).at? other =
      s.pool.at? other := by
    intro other
    rw [SessionPreparations.remove, if_pos hin, hnew]
    change ((s.pool.create id).drop id).at? other = _
    rw [SessionPreparations.at?_drop, create_at? hat]
    split
    · rename_i heq
      rw [heq, hat]
    · rfl
  have hheap : ∀ k, k < s.pool.nextEntry →
      ((s.pool.create id).remove s.pool.nextEntry).heap k = s.pool.heap k := by
    intro k hk
    rw [SessionPreparations.remove, if_pos hin]
    simp [SessionPreparations.settle, SessionPreparations.drop, Nat.ne_of_lt hk,
      create_heap_of_lt hk]
  have hcreated := (hs.create hat).kept
  refine ⟨⟨?_, ?_⟩, ?_⟩
  · apply hs.stillborn
    · exact hremoved
    · rw [SessionPreparations.remove, if_pos hin]
      rfl
    · intro k hk
      exact (SessionPreparations.settleResult_heap_of_ne _ _ (Nat.ne_of_lt hk)).trans (hheap k hk)
    · rw [SessionPreparations.settleResult_heap]
      simp
    · rw [SessionPreparations.remove, if_pos hin]
      funext w
      simp [SessionPreparations.settleResult, SessionPreparations.settle,
        SessionPreparations.write, SessionPreparations.drop, hnew, PreparationEntry.fresh]
      rfl
    · rw [SessionPreparations.remove, if_pos hin]
      rfl
  · apply Moves.settleResult
    have hmoved := SessionPreparations.create_moves hs.kept hat
    have hdropped := SessionPreparations.remove_moves hcreated s.pool.nextEntry
    exact {
      capacity := hdropped.capacity.trans hmoved.capacity
      bounded := fun hle => hdropped.bounded (hmoved.bounded hle)
      nextEntry := hmoved.nextEntry.trans hdropped.nextEntry
      stale := fun k hk hkin =>
        hmoved.stale k hk (hdropped.stale k (Nat.lt_succ_of_lt hk) hkin)
      reservations := ⟨[], by
        rw [SessionPreparations.remove, if_pos hin, List.append_nil]
        rfl, by rintro _ ⟨⟩⟩ }
  · rw [SessionPreparations.remove, if_pos hin]
    exact Nat.lt_succ_self _

theorem entryFor_goes (hs : s.Orderly) (id : String) (failure : Option String) :
    s.Goes (s.entryFor id failure) ∧
      s.entryOf id < (s.entryFor id failure).pool.nextEntry := by
  cases hat : s.pool.at? id with
  | some h =>
    have hsame : s.entryFor id failure = s := by simp [entryFor, hat]
    rw [hsame, entryOf, hat]
    exact ⟨goes_refl hs, (hs.kept.entry_id id h hat).1⟩
  | none =>
    cases failure with
    | none =>
      have hnew : s.entryFor id none =
          (s.setPool (s.pool.create id)).serialize id (.load s.pool.nextEntry) := by
        simp [entryFor, hat]
      rw [hnew, entryOf, hat]
      exact ⟨⟨hs.create hat, SessionPreparations.create_moves hs.kept hat⟩, Nat.lt_succ_self _⟩
    | some error =>
      have hnew : s.entryFor id (some error) =
          s.setPool (((s.pool.create id).remove s.pool.nextEntry).settleResult s.pool.nextEntry
            (.error error)) := by
        simp [entryFor, hat]
      rw [hnew, entryOf, hat]
      exact entryFor_threw_goes hs hat error

theorem Orderly.arrived_quiet (hs : s.Orderly) {h : Nat} (hresult : (s.pool.heap h).result ≠ none) :
    s.arrived h = none := by
  cases harrived : s.arrived h with
  | none => rfl
  | some outcome => exact absurd (hs.arrived h outcome harrived).2 hresult

theorem Orderly.no_load (hs : s.Orderly) {h : Nat}
    (hquiet : (s.pool.heap h).result ≠ none ∨ s.arrived h ≠ none) (id : String) :
    .load h ∉ s.chains id := by
  intro hmem
  obtain ⟨_, _, hnone, hidle⟩ := hs.load id h hmem
  rcases hquiet with hsome | hsome
  · exact hsome hnone
  · exact hsome hidle

theorem Orderly.revise (hs : s.Orderly) {h : Nat} {q : SessionPreparations Source CommitState}
    (hr : Revised s.pool q h) (hq : q.WellKept) (hresult : (s.pool.heap h).result ≠ none)
    (hresult' : (q.heap h).result ≠ none)
    (hphase : s.pool.InTable h → (q.heap h).phase = .ready)
    (hcommit : s.pool.InTable h → ∀ other started,
      .commit other started ∉ s.chains (s.pool.heap h).id)
    (howner : s.pool.InTable h → ∀ other, ¬ s.Owns other h) : (s.setPool q).Orderly := by
  have hidle := hs.fresh s.nextCall (Nat.le_refl _)
  have ha : s.Advance h s.nextCall .idle q s.arrived :=
    { revised := hr
      kept := hq
      result := hresult'
      phase := fun hin => .inl (hphase hin)
      arrived := hs.arrived_quiet hresult
      others := fun _ _ => rfl
      load := hs.no_load (.inl hresult) _
      commit := hcommit
      owner := fun other howned hin => absurd howned (howner hin other)
      free := by simp [hidle]
      owned := by simp [Owns, hidle]
      awaits := fun _ => trivial
      fresh := fun _ => rfl }
  have hadvanced := hs.advance ha
  have hself := setCall_self (s.setPool q) hidle
  rw [hself] at hadvanced
  exact hadvanced

theorem Orderly.settleLoad (hs : s.Orderly) {h : Nat} {q : SessionPreparations Source CommitState}
    (hr : Revised s.pool q h) (hq : q.WellKept) (harrived : s.arrived h ≠ none)
    (hresult : (q.heap h).result ≠ none)
    (hphase : s.pool.InTable h → (q.heap h).phase = .ready) :
    ({ s.setPool q with arrived := Function.update s.arrived h none } :
      PreparationState Source CommitState).Orderly := by
  have hidle := hs.fresh s.nextCall (Nat.le_refl _)
  have hnone : (s.pool.heap h).result = none := by
    cases hfound : s.arrived h with
    | none => exact absurd hfound harrived
    | some outcome => exact (hs.arrived h outcome hfound).2
  have hloading : s.pool.InTable h → (s.pool.heap h).phase = .loading :=
    fun hin => (hs.kept.loading _ h hin).mpr hnone
  have hcommit : s.pool.InTable h → ∀ other started,
      .commit other started ∉ s.chains (s.pool.heap h).id := by
    intro hin other started hmem
    obtain ⟨k, _, _, htable⟩ := hs.commit _ other started hmem
    rcases htable h hin with ⟨rfl, hcommitting⟩ | hload
    · rw [hloading hin] at hcommitting
      cases hcommitting
    · exact hs.no_load (.inr harrived) _ hload
  have ha : s.Advance h s.nextCall .idle q (Function.update s.arrived h none) :=
    { revised := hr
      kept := hq
      result := hresult
      phase := fun hin => .inl (hphase hin)
      arrived := Function.update_self _ _ _
      others := fun k hk => Function.update_of_ne hk _ _
      load := hs.no_load (.inr harrived) _
      commit := hcommit
      owner := fun other howned _ => absurd hnone (hs.owned other h howned).2.1
      free := by simp [hidle]
      owned := by simp [Owns, hidle]
      awaits := fun _ => trivial
      fresh := fun _ => rfl }
  have hadvanced := hs.advance ha
  have hself := setCall_self (s.setPool q) hidle
  rw [hself] at hadvanced
  exact hadvanced

theorem loadSettled_goes (hs : s.Orderly) {h : Nat} {outcome : Except String Source}
    (harrived : s.arrived h = some outcome) :
    s.Goes { s.setPool (s.pool.loadSettled h outcome) with
      arrived := Function.update s.arrived h none } := by
  have hsome : s.arrived h ≠ none := by simp [harrived]
  cases outcome with
  | error error =>
    have hremoved := remove_goes hs h
    have hout := @SessionPreparations.not_inTable_remove _ _ s.pool h
    refine ⟨?_, hremoved.2.settleResult h _⟩
    have hr := (Revised.refl (s.pool.remove h) h).settleResult (.error error)
    have hq := hr.wellKept hremoved.1.kept (fun hin => absurd hin hout)
      (fun hin => absurd hin hout) (fun hin => absurd hin hout) (List.prefix_refl _)
    apply hremoved.1.settleLoad hr hq hsome
    · rw [SessionPreparations.settleResult_heap]
      simp
    · intro hin
      exact absurd hin hout
  | ok source =>
    by_cases hin : s.pool.InTable h
    · let entry := { s.pool.heap h with source := some source }
      have hrevised : Revised s.pool (s.pool.readied h entry) h :=
        SessionPreparations.readied_revised rfl rfl
      have hdropped : SessionPreparations.Dropped (s.pool.readied h entry)
          ((s.pool.readied h entry).touch h) :=
        SessionPreparations.readied_dropped hs.kept rfl rfl hin
      have hpool : s.pool.loadSettled h (.ok source) =
          ((s.pool.readied h entry).touch h).settleResult h (.ok source) := by
        rw [SessionPreparations.loadSettled, if_pos hin]
        exact congrArg (fun pool => pool.settleResult h (.ok source))
          (@SessionPreparations.makeReady_write _ _ s.pool h entry rfl hin)
      have hr := hrevised.settleResult (.ok source)
      have hheap : ((s.pool.readied h entry).settleResult h (.ok source)).heap h =
          { entry with phase := .ready, reservationSettled := none, result := some (.ok source) } := by
        rw [SessionPreparations.settleResult_heap, SessionPreparations.readied_heap]
      have hq := hr.wellKept hs.kept (by simp [hheap]) (by simp [hheap, PreparationPhase.held])
        (by simp [hheap]) (List.prefix_refl _)
      have hready := hs.settleLoad hr hq hsome (by simp [hheap]) (by simp [hheap])
      refine ⟨?_, ?_⟩
      · rw [hpool]
        exact hready.dropped (hdropped.settleResult h _)
      · rw [hpool]
        exact (hrevised.touch_moves hs.kept hin hdropped rfl).settleResult h _
    · have hpool : s.pool.loadSettled h (.ok source) = s.pool.settleResult h (.ok source) := by
        rw [SessionPreparations.loadSettled, if_neg hin]
      rw [hpool]
      refine ⟨?_, (Moves.refl s.pool).settleResult h _⟩
      have hr := (Revised.refl s.pool h).settleResult (.ok source)
      have hq := hr.wellKept hs.kept (fun hbad => absurd hbad hin) (fun hbad => absurd hbad hin)
        (fun hbad => absurd hbad hin) (List.prefix_refl _)
      apply hs.settleLoad hr hq hsome
      · rw [SessionPreparations.settleResult_heap]
        simp
      · intro hbad
        exact absurd hbad hin

theorem contend_goes (hs : s.Orderly) {call h : Nat} (hfree : ∀ k, ¬ s.Owns call k)
    (hlt : call < s.nextCall) (hentry : h < s.pool.nextEntry)
    (hresult : (s.pool.heap h).result ≠ none) : s.Goes (s.contend call h) := by
  have hplace : ∀ place, s.Awaits place → (s.setCall call place).Orderly := fun place hawaits =>
    hs.place (fun k hk => hfree k (.inl hk)) (fun k hk => absurd hk (hfree k)) hawaits hlt
  rw [contend]
  split
  case isFalse => exact ⟨hplace _ trivial, .refl _⟩
  case isTrue hin =>
    split
    case isTrue hready =>
      refine ⟨hs.beginCommit hin hready hfree hlt, ?_⟩
      have hr : Revised s.pool (s.pool.beginCommit h) h := {
        entries := rfl
        nextEntry := rfl
        capacity := rfl
        other := fun k hk => by rw [beginCommit_heap, if_neg hk]
        id := by rw [beginCommit_heap, if_pos rfl]
        settled := fun _ hw => hw
        waiters := fun w hw => by
          rw [hs.kept.ready_unpromised hin hready] at hw
          cases hw }
      apply hr.moves
      · intro _
        exact hready
      · exact ⟨[], (List.append_nil _).symm, nofun⟩
    case isFalse hnot =>
      split
      · rename_i w hw
        exact ⟨hplace (.waiting h w) ⟨hentry, hresult, .inr ⟨hin, hw⟩⟩, .refl _⟩
      · exact ⟨hplace _ trivial, .refl _⟩

theorem observe_goes (hs : s.Orderly) (h : Nat) : s.Goes (s.setPool (s.pool.observe h)) := by
  rw [SessionPreparations.observe]
  split
  case isFalse => exact goes_refl hs
  case isTrue hready =>
    exact ⟨hs.dropped (SessionPreparations.touch_dropped hready.1 fun id k =>
      hs.kept.ready_unpromised), SessionPreparations.touch_moves hs.kept hready.1⟩

theorem owns_free {call : Nat}
    (hcommitting : ∀ k, s.calls call ≠ .committing k)
    (hcommitted : ∀ k outcome, s.calls call ≠ .committed k outcome) (h : Nat) :
    ¬ s.Owns call h := by
  rintro (hbad | ⟨outcome, hbad⟩)
  · exact hcommitting h hbad
  · exact hcommitted h outcome hbad

theorem resume_goes (hs : s.Orderly) {call : Nat} {t : PreparationState Source CommitState}
    (h : s.resume call = some t) : s.Goes t := by
  rw [resume] at h
  cases hcall : s.calls call with
  | inspecting k =>
    have hfree := @owns_free _ _ s call (by simp [hcall]) (by simp [hcall])
    have hlt := @Orderly.lt_nextCall _ _ s hs call (by simp [hcall])
    rw [hcall] at h
    simp only at h
    split at h
    · cases h
      obtain ⟨hobserved, hmoves⟩ := observe_goes hs k
      exact ⟨hobserved.place (fun j hj => hfree j (.inl hj)) (fun j hj => absurd hj (hfree j))
        trivial hlt, hmoves⟩
    · cases h
      exact ⟨hs.place (fun j hj => hfree j (.inl hj)) (fun j hj => absurd hj (hfree j)) trivial hlt,
        .refl _⟩
    · cases h
  | reserving k =>
    have hfree := @owns_free _ _ s call (by simp [hcall]) (by simp [hcall])
    have hlt := @Orderly.lt_nextCall _ _ s hs call (by simp [hcall])
    have hawaits := hs.awaits call hfree
    rw [hcall] at h hawaits
    simp only at h
    split at h
    · rename_i hresult
      cases h
      exact contend_goes hs hfree hlt hawaits (by simp [hresult])
    · cases h
      exact ⟨hs.place (fun j hj => hfree j (.inl hj)) (fun j hj => absurd hj (hfree j)) trivial hlt,
        .refl _⟩
    · cases h
  | waiting k w =>
    have hfree := @owns_free _ _ s call (by simp [hcall]) (by simp [hcall])
    have hlt := @Orderly.lt_nextCall _ _ s hs call (by simp [hcall])
    have hawaits := hs.awaits call hfree
    rw [hcall] at h hawaits
    simp only at h
    split at h
    · cases h
      exact contend_goes hs hfree hlt hawaits.1 hawaits.2.1
    · cases h
  | idle | inspected | committing | committed | returned | rejected =>
    rw [hcall] at h
    cases h

theorem abort_goes (hs : s.Orderly) {call : Nat} {error : String}
    {t : PreparationState Source CommitState} (h : s.abort call error = some t) : s.Goes t := by
  rw [abort] at h
  cases hcall : s.calls call with
  | inspecting k | reserving k | waiting k w =>
    have hfree := @owns_free _ _ s call (by simp [hcall]) (by simp [hcall])
    have hlt := @Orderly.lt_nextCall _ _ s hs call (by simp [hcall])
    rw [hcall] at h
    cases h
    exact ⟨hs.place (fun j hj => hfree j (.inl hj)) (fun j hj => absurd hj (hfree j)) trivial hlt,
      .refl _⟩
  | committing k =>
    rw [hcall] at h
    simp only at h
    split at h
    · rename_i hwaits
      cases h
      obtain ⟨hremoved, hmoves⟩ := remove_goes hs k
      refine ⟨?_, hmoves⟩
      have hid := (SessionPreparations.remove_dropped hs.kept k).id_eq k
      have hwithdrawn := hremoved.withdraw error hcall
        (SessionPreparations.not_inTable_remove k)
        (by
          change _ ∈ s.chains ((s.pool.remove k).heap k).id
          rw [hid]
          exact hwaits)
      have hchain : ((s.setPool (s.pool.remove k)).pool.heap k).id = (s.pool.heap k).id := hid
      rw [withdrawn, hchain] at hwithdrawn
      exact hwithdrawn
    · cases h
  | idle | inspected | committed | returned | rejected =>
    rw [hcall] at h
    cases h

theorem committed_owns {call h k : Nat}
    {outcome : Except String (Option (Source × CommitState))}
    (hcall : s.calls call = .committed h outcome) (howned : s.Owns call k) : k = h := by
  rcases howned with hbad | ⟨_, hsame⟩
  · rw [hcall] at hbad
    cases hbad
  · rw [hcall] at hsame
    cases hsame
    rfl

theorem Orderly.committed_free (hs : s.Orderly) {call h : Nat}
    {outcome : Except String (Option (Source × CommitState))}
    (hcall : s.calls call = .committed h outcome) (hin : s.pool.InTable h) (other : Nat)
    (started : Bool) : .commit other started ∉ s.chains (s.pool.heap h).id := by
  intro hmem
  obtain ⟨k, hother, _, htable⟩ := hs.commit _ other started hmem
  rcases htable h hin with ⟨rfl, _⟩ | hload
  · have heq := hs.owner other call h (.inl hother) (.inr ⟨outcome, hcall⟩)
    rw [heq, hcall] at hother
    cases hother
  · exact hs.no_load (.inl (hs.owned call h (.inr ⟨outcome, hcall⟩)).2.1) _ hload

theorem Orderly.letGo (hs : s.Orderly) {call h : Nat}
    {outcome : Except String (Option (Source × CommitState))}
    {place : PreparationCall Source CommitState} {q : SessionPreparations Source CommitState}
    (hcall : s.calls call = .committed h outcome) (hr : Revised s.pool q h) (hq : q.WellKept)
    (hresult : (q.heap h).result ≠ none)
    (hphase : s.pool.InTable h → (q.heap h).phase = .ready ∨ (q.heap h).phase = .reserved)
    (hplace : ∀ t : PreparationState Source CommitState, t.Awaits place) :
    ((s.setPool q).setCall call place).Orderly := by
  have howns : s.Owns call h := .inr ⟨outcome, hcall⟩
  have hsome := (hs.owned call h howns).2.1
  apply hs.advance
  constructor
  case revised => exact hr
  case kept => exact hq
  case result => exact hresult
  case arrived => exact hs.arrived_quiet hsome
  case others => exact fun _ _ => rfl
  case load => exact hs.no_load (.inl hsome) _
  case commit => exact hs.committed_free hcall
  case owner => exact fun other howned _ => hs.owner other call h howned howns
  case free => simp [hcall]
  case owned => exact fun k => committed_owns hcall
  case awaits => exact hplace
  case phase =>
    intro hin
    refine (hphase hin).imp (fun hready => hready) fun hreserved => ⟨hreserved, ?_⟩
    intro hwriting
    have hheld : (s.pool.heap h).phase.held = true := by
      rw [(hs.owned call h howns).2.2 hin]
      rfl
    obtain ⟨other, started, hmem⟩ := hs.writing _ h hwriting hin hheld
    exact hs.committed_free hcall hin other started hmem
  case fresh =>
    intro hle
    have hidle := hs.fresh call hle
    rw [hcall] at hidle
    cases hidle

theorem continueCommit_goes (hs : s.Orderly) {call : Nat} {aborted : Option String}
    {t : PreparationState Source CommitState} (h : s.continueCommit call aborted = some t) :
    s.Goes t := by
  rw [continueCommit] at h
  cases hcall : s.calls call with
  | committed k outcome =>
    have howns : s.Owns call k := .inr ⟨outcome, hcall⟩
    obtain ⟨_, hsome, hphase⟩ := hs.owned call k howns
    have hlt := @Orderly.lt_nextCall _ _ s hs call (by simp [hcall])
    have hremove : ∀ place, (∀ u : PreparationState Source CommitState, u.Awaits place) →
        s.Goes ((s.setPool (s.pool.remove k)).setCall call place) := by
      intro place hplace
      obtain ⟨hremoved, hmoves⟩ := remove_goes hs k
      refine ⟨hremoved.place ?_ ?_ (hplace _) hlt, hmoves⟩
      · intro j hj
        change s.calls call = _ at hj
        rw [hcall] at hj
        cases hj
      · intro j hj
        rw [committed_owns hcall hj]
        exact SessionPreparations.not_inTable_remove k
    rw [hcall] at h
    cases outcome with
    | error error =>
      cases h
      exact hremove _ fun _ => trivial
    | ok found =>
      cases found with
      | none =>
        cases h
        exact hremove _ fun _ => trivial
      | some pair =>
        obtain ⟨source, state⟩ := pair
        let entry := { s.pool.heap k with source := some source }
        have hentry : (s.pool.setSource k source).heap k = entry := by
          simp [SessionPreparations.setSource, SessionPreparations.write, entry]
        have hsource : Revised s.pool (s.pool.setSource k source) k := {
          entries := rfl
          nextEntry := rfl
          capacity := rfl
          other := fun j hj => by
            simp [SessionPreparations.setSource, SessionPreparations.write, hj]
          id := by rw [hentry]
          settled := fun _ hw => hw
          waiters := fun w hw => by
            rw [hentry]
            exact .inr hw }
        have hsourceMoves : Moves s.pool (s.pool.setSource k source) := by
          apply hsource.moves
          · rw [hentry]
            exact fun hready => hready
          · exact ⟨[], (List.append_nil _).symm, by rintro _ ⟨⟩⟩
        cases aborted with
        | some error =>
          cases h
          by_cases hin : s.pool.InTable k
          · have hpool : (s.pool.setSource k source).makeReady k =
                (s.pool.readied k entry).touch k :=
              @SessionPreparations.makeReady_write _ _ s.pool k entry rfl hin
            rw [hpool]
            have hrevised : Revised s.pool (s.pool.readied k entry) k :=
              SessionPreparations.readied_revised rfl rfl
            have hheap := SessionPreparations.readied_heap s.pool k entry
            have hdropped : SessionPreparations.Dropped (s.pool.readied k entry)
                ((s.pool.readied k entry).touch k) :=
              SessionPreparations.readied_dropped hs.kept rfl rfl hin
            have hq := hrevised.wellKept hs.kept (fun _ => by simpa [hheap, entry] using hsome)
              (by simp [hheap, PreparationPhase.held]) (by simp [hheap]) (List.prefix_refl _)
            have hready := @Orderly.letGo _ _ s hs call k _ (.rejected error) _ hcall hrevised hq
              (by simpa [hheap, entry] using hsome) (by simp [hheap]) (fun _ => trivial)
            exact ⟨hready.dropped hdropped, hrevised.touch_moves hs.kept hin hdropped rfl⟩
          · have hpool : (s.pool.setSource k source).makeReady k = s.pool.setSource k source := by
              rw [SessionPreparations.makeReady, if_neg]
              rwa [hsource.inTable]
            rw [hpool]
            have hq := hsource.wellKept hs.kept (fun hbad => absurd hbad hin)
              (fun hbad => absurd hbad hin) (fun hbad => absurd hbad hin) (List.prefix_refl _)
            exact ⟨hs.letGo hcall hsource hq (by rw [hentry]; exact hsome)
              (fun hbad => absurd hbad hin) (fun _ => trivial), hsourceMoves⟩
        | none =>
          simp only at h
          split at h
          · rename_i hin
            rw [hsource.inTable] at hin
            cases h
            let pool := s.pool.setSource k source
            have hgranted : (pool.grant k source state).heap k = { entry with
                phase := .reserved, reservation := some s.pool.reservations.length } := by
              simp [pool, SessionPreparations.grant, SessionPreparations.write, hentry]
              rfl
            have hgrant : Revised s.pool (pool.grant k source state) k := {
              entries := rfl
              nextEntry := rfl
              capacity := rfl
              other := fun j hj => by
                simp [pool, SessionPreparations.grant, SessionPreparations.setSource,
                  SessionPreparations.write, hj]
              id := by rw [hgranted]
              settled := fun _ hw => hw
              waiters := fun w hw => by
                rw [hgranted]
                exact .inr hw }
            have hpromised := (hs.kept.promised _ k hin).mp (by rw [hphase hin]; rfl)
            have hq := hgrant.wellKept hs.kept
              (by
                intro _
                rw [hgranted]
                exact ⟨(by rintro ⟨⟩), fun hbad => absurd hbad hsome⟩)
              (by
                intro _
                rw [hgranted]
                exact ⟨fun _ => hpromised, fun _ => rfl⟩)
              (by
                intro _ _
                rw [hgranted]
                exact ⟨_, ⟨k, source, state⟩, rfl, by
                  change (s.pool.reservations ++ [_])[_]? = _
                  simp, rfl⟩)
              (List.prefix_append _ _)
            refine ⟨hs.letGo hcall hgrant hq (by rw [hgranted]; exact hsome)
              (fun _ => .inr (by rw [hgranted])) (fun _ => trivial), ?_⟩
            apply hgrant.moves
            · rw [hgranted]
              rintro ⟨⟩
            · refine ⟨[⟨k, source, state⟩], rfl, ?_⟩
              intro reservation hmem
              obtain rfl := List.mem_singleton.mp hmem
              exact hin
          · rename_i hout
            rw [hsource.inTable] at hout
            cases h
            have hq := hsource.wellKept hs.kept (fun hbad => absurd hbad hout)
              (fun hbad => absurd hbad hout) (fun hbad => absurd hbad hout) (List.prefix_refl _)
            exact ⟨hs.letGo hcall hsource hq (by rw [hentry]; exact hsome)
              (fun hbad => absurd hbad hout) (fun _ => trivial), hsourceMoves⟩
  | idle | inspecting | inspected | reserving | waiting | committing | returned | rejected =>
    rw [hcall] at h
    cases h

theorem release_goes (hs : s.Orderly) (r h : Nat) (reusable : Bool) :
    s.Goes (s.setPool (s.pool.release r h reusable)) := by
  rw [SessionPreparations.release]
  split
  case isFalse => exact goes_refl hs
  case isTrue hheld =>
    obtain ⟨hin, _, hreserved⟩ := hheld
    cases reusable with
    | false => exact remove_goes hs h
    | true =>
      let entry := { s.pool.heap h with reservation := none }
      have hpool : (s.pool.write h entry).makeReady h = (s.pool.readied h entry).touch h :=
        @SessionPreparations.makeReady_write _ _ s.pool h entry rfl hin
      have hresult : (s.pool.heap h).result ≠ none := by
        intro hnone
        have := (hs.kept.loading _ h hin).mpr hnone
        rw [hreserved] at this
        cases this
      have hrevised : Revised s.pool (s.pool.readied h entry) h :=
        SessionPreparations.readied_revised rfl rfl
      have hheap := SessionPreparations.readied_heap s.pool h entry
      have hdropped : SessionPreparations.Dropped (s.pool.readied h entry)
          ((s.pool.readied h entry).touch h) :=
        SessionPreparations.readied_dropped hs.kept rfl rfl hin
      have hq := hrevised.wellKept hs.kept (fun _ => by simpa [hheap, entry] using hresult)
        (by simp [hheap, PreparationPhase.held]) (by simp [hheap]) (List.prefix_refl _)
      have hready := hs.revise hrevised hq hresult (by simpa [hheap, entry] using hresult)
        (by simp [hheap])
        (by
          intro _ other started hmem
          obtain ⟨k, _, _, htable⟩ := hs.commit _ other started hmem
          rcases htable h hin with ⟨rfl, hcommitting⟩ | hload
          · rw [hreserved] at hcommitting
            cases hcommitting
          · exact hs.no_load (.inl hresult) _ hload)
        (by
          intro _ other howned
          have hcommitting := (hs.owned other h howned).2.2 hin
          rw [hreserved] at hcommitting
          cases hcommitting)
      rw [if_pos rfl]
      change s.Goes (s.setPool ((s.pool.write h entry).makeReady h))
      rw [hpool]
      exact ⟨hready.dropped hdropped, hrevised.touch_moves hs.kept hin hdropped rfl⟩

theorem step_goes [DecidableEq Source] (hs : s.Orderly) {label : PreparationStep Source CommitState}
    {t : PreparationState Source CommitState} (h : s.step label = some t) : s.Goes t := by
  cases label with
  | inspect id failure =>
    cases h
    obtain ⟨⟨hentry, hmoves⟩, hlt⟩ := entryFor_goes hs id failure
    exact ⟨hentry.newCall hlt, hmoves⟩
  | reserve id failure =>
    cases h
    obtain ⟨⟨hentry, hmoves⟩, hlt⟩ := entryFor_goes hs id failure
    exact ⟨hentry.newCall hlt, hmoves⟩
  | loaded id outcome =>
    rw [step] at h
    split at h
    · rename_i hchain
      cases h
      exact ⟨hs.loaded hchain outcome, .refl _⟩
    · cases h
  | loadSettled entry =>
    rw [step] at h
    obtain ⟨outcome, harrived, rfl⟩ := Option.map_eq_some_iff.mp h
    exact loadSettled_goes hs harrived
  | resume call => exact resume_goes hs h
  | abort call error => exact abort_goes hs h
  | startCommit id =>
    rw [step] at h
    split at h
    · rename_i call rest hchain
      cases h
      refine ⟨hs.replaceHead hchain (fun _ => ⟨by simp, by simp⟩) ?_ (by simp), .refl _⟩
      intro other
      simp
    · cases h
  | finishCommit id outcome =>
    rw [step] at h
    split at h
    · rename_i call rest hchain
      split at h
      · rename_i k hcall
        cases h
        exact ⟨hs.finishCommit hchain hcall outcome, .refl _⟩
      · cases h
    · cases h
  | continueCommit call aborted => exact continueCommit_goes hs h
  | attach r =>
    rw [step] at h
    obtain ⟨reservation, _, rfl⟩ := Option.map_eq_some_iff.mp h
    simp only [SessionPreparations.attach]
    split
    · rename_i hattached
      split at hattached
      · cases hattached
        exact remove_goes hs _
      · cases hattached
    · exact goes_refl hs
  | discard r =>
    rw [step] at h
    obtain ⟨reservation, _, rfl⟩ := Option.map_eq_some_iff.mp h
    rw [SessionPreparations.discard]
    split
    · exact remove_goes hs _
    · exact goes_refl hs
  | release r reusable =>
    rw [step] at h
    obtain ⟨reservation, _, rfl⟩ := Option.map_eq_some_iff.mp h
    exact release_goes hs r _ reusable
  | invalidate id =>
    cases h
    exact invalidate_goes hs id
  | discardReady id expected =>
    cases h
    rw [SessionPreparations.discardReady]
    split
    · exact goes_refl hs
    · split
      · exact goes_refl hs
      · split
        · exact goes_refl hs
        · exact remove_goes hs _
  | takeReady id =>
    cases h
    rw [SessionPreparations.takeReady]
    split
    · exact goes_refl hs
    · split
      · exact remove_goes hs _
      · exact goes_refl hs
  | append id =>
    cases h
    exact ⟨hs.serialize id (by simp) rfl (by simp), .refl _⟩
  | assertWritable id =>
    rw [step] at h
    split at h
    · rename_i rest hchain
      split at h
      · rename_i hwritable
        cases h
        refine ⟨hs.replaceHead hchain (by simp) (by simp) ?_, .refl _⟩
        intro _ k hk
        rw [SessionPreparations.assertWritable, hk] at hwritable
        simp only at hwritable
        split at hwritable
        · cases hwritable
        · rename_i hfree
          simpa using hfree
      · cases h
        exact ⟨hs.pop hchain (by simp) rfl, .refl _⟩
    · cases h
  | finishAppend id written =>
    rw [step] at h
    split at h
    · rename_i writing rest hchain
      have hpopped := hs.pop hchain (by simp) rfl
      split at h
      · split at h
        · cases h
          exact invalidate_goes hpopped id
        · cases h
      · cases h
        exact ⟨hpopped, .refl _⟩
    · cases h
  | other id =>
    cases h
    exact ⟨hs.serialize id (by simp) rfl (by simp), .refl _⟩
  | finishOther id =>
    rw [step] at h
    split at h
    · rename_i rest hchain
      cases h
      exact ⟨hs.pop hchain (by simp) rfl, .refl _⟩
    · cases h

/-- An entry has a holder from its commit on, and while that commit is still in the chain even
after the entry left the table. -/
def Holds (s : PreparationState Source CommitState) (id : String) (h : Nat) : Prop :=
  s.pool.at? id = some h ∧ (s.pool.heap h).phase.held = true ∨
    ∃ call started, .commit call started ∈ s.chains id ∧ s.calls call = .committing h

def Guarded (s : PreparationState Source CommitState) : Prop :=
  ∀ id h, s.pool.at? id = some h → (s.pool.heap h).phase = .reserved →
    .append true ∉ s.chains id ∧ ∀ call started, .commit call started ∉ s.chains id

/-- Who still has to settle what a call awaits: the load of the entry, the call that commits it
or the reservation that holds it. -/
def Outstanding (s : PreparationState Source CommitState) :
    PreparationCall Source CommitState → Prop
  | .inspecting h | .reserving h => (s.arrived h).isSome ∨ .load h ∈ s.chains (s.pool.heap h).id
  | .waiting h w => s.pool.InTable h ∧ (s.pool.heap h).reservationSettled = some w ∧
      ((s.pool.heap h).phase = .committing ∧ (∃ holder,
          s.calls holder = .committing h ∧
            (∃ started, .commit holder started ∈ s.chains (s.pool.heap h).id) ∨
          ∃ outcome, s.calls holder = .committed h outcome) ∨
        (s.pool.heap h).phase = .reserved ∧ ∃ r reservation,
          (s.pool.heap h).reservation = some r ∧ s.pool.reservations[r]? = some reservation ∧
            reservation.entry = h)
  | _ => False

def Queued : PreparationCall Source CommitState → Prop
  | .inspecting _ | .reserving _ | .waiting _ _ => True
  | _ => False

/-- A queued call can go on at once, or what it awaits is still held by somebody. -/
def Attended (s : PreparationState Source CommitState) : Prop :=
  ∀ call, Queued (s.calls call) → (s.resume call).isSome ∨ s.Outstanding (s.calls call)

theorem Orderly.exclusive (hs : s.Orderly) {id : String} {h k : Nat} (hh : s.Holds id h)
    (hk : s.Holds id k) : h = k := by
  have hboth : ∀ {h k : Nat}, s.pool.at? id = some h → (s.pool.heap h).phase.held = true →
      (∃ call started, .commit call started ∈ s.chains id ∧ s.calls call = .committing k) →
      h = k := by
    rintro h k hat hheld ⟨call, started, hmem, hcall⟩
    obtain ⟨j, hj, _, htable⟩ := hs.commit id call started hmem
    rw [hcall] at hj
    cases hj
    rcases htable h hat with ⟨hsame, _⟩ | hload
    · exact hsame
    · rw [(hs.kept.loading id h hat).mpr (hs.load id h hload).2.2.1] at hheld
      cases hheld
  rcases hh with ⟨hat, hheld⟩ | hcommit
  · rcases hk with ⟨hat', _⟩ | hcommit'
    · exact Option.some.inj (hat.symm.trans hat')
    · exact hboth hat hheld hcommit'
  · rcases hk with ⟨hat', hheld'⟩ | ⟨call', started', hmem', hcall'⟩
    · exact (hboth hat' hheld' hcommit).symm
    · obtain ⟨call, started, hmem, hcall⟩ := hcommit
      obtain ⟨i, hi, hget⟩ := List.getElem_of_mem hmem
      obtain ⟨j, hj, hget'⟩ := List.getElem_of_mem hmem'
      have hordered := hs.ordered id
      rw [List.pairwise_iff_getElem] at hordered
      rcases Nat.lt_trichotomy i j with hij | hij | hij
      · have := (hordered i j hi hj hij).single
        rw [hget, hget'] at this
        cases this rfl
      · subst hij
        rw [hget] at hget'
        cases hget'
        rw [hcall] at hcall'
        cases hcall'
        rfl
      · have := (hordered j i hj hi hij).single
        rw [hget, hget'] at this
        cases this rfl

theorem Orderly.guarded (hs : s.Orderly) : s.Guarded := by
  intro id h hat hreserved
  have hcommit : ∀ call started, .commit call started ∉ s.chains id := by
    intro call started hmem
    obtain ⟨k, _, _, htable⟩ := hs.commit id call started hmem
    rcases htable h hat with ⟨rfl, hcommitting⟩ | hload
    · rw [hreserved] at hcommitting
      cases hcommitting
    · have hloading := (hs.kept.loading id h hat).mpr (hs.load id h hload).2.2.1
      rw [hreserved] at hloading
      cases hloading
  refine ⟨?_, hcommit⟩
  intro hwriting
  obtain ⟨call, started, hmem⟩ := hs.writing id h hwriting hat (by rw [hreserved]; rfl)
  exact hcommit call started hmem

theorem Orderly.attended (hs : s.Orderly) : s.Attended := by
  have hresumes : ∀ {call h}, s.calls call = .inspecting h ∨ s.calls call = .reserving h →
      (s.pool.heap h).result ≠ none → (s.resume call).isSome := by
    intro call h hcall hresult
    rcases hcall with hcall | hcall
    all_goals
      rw [resume, hcall]
      simp only
      cases hfound : (s.pool.heap h).result with
      | none => exact absurd hfound hresult
      | some outcome => cases outcome <;> rfl
  intro call hqueued
  cases hcall : s.calls call with
  | inspecting h =>
    have hlt := hs.awaits call
      (@owns_free _ _ s call (by simp [hcall]) (by simp [hcall]))
    rw [hcall] at hlt
    by_cases hresult : (s.pool.heap h).result = none
    · exact .inr (hs.pending h hlt hresult)
    · exact .inl (hresumes (.inl hcall) hresult)
  | reserving h =>
    have hlt := hs.awaits call
      (@owns_free _ _ s call (by simp [hcall]) (by simp [hcall]))
    rw [hcall] at hlt
    by_cases hresult : (s.pool.heap h).result = none
    · exact .inr (hs.pending h hlt hresult)
    · exact .inl (hresumes (.inr hcall) hresult)
  | waiting h w =>
    have hawaits := hs.awaits call
      (@owns_free _ _ s call (by simp [hcall]) (by simp [hcall]))
    rw [hcall] at hawaits
    obtain ⟨_, _, hsettled | ⟨hin, hpromise⟩⟩ := hawaits
    · left
      rw [resume, hcall]
      simp [hsettled]
    · right
      refine ⟨hin, hpromise, ?_⟩
      have hheld := (hs.kept.promised _ h hin).mpr (by rw [hpromise]; rfl)
      cases hphase : (s.pool.heap h).phase with
      | loading | ready =>
        rw [hphase] at hheld
        cases hheld
      | committing =>
        left
        obtain ⟨holder, howned⟩ := hs.held _ h hin hphase
        refine ⟨rfl, holder, ?_⟩
        exact howned.imp (fun hcommit => ⟨hcommit, hs.queued holder h hcommit⟩) fun hdone => hdone
      | reserved => exact .inr ⟨rfl, hs.kept.granted _ h hin hphase⟩
  | idle | inspected | committing | committed | returned | rejected =>
    rw [hcall] at hqueued
    cases hqueued

section Runs

variable [DecidableEq Source]

theorem run_orderly {labels : List (PreparationStep Source CommitState)} {t : PreparationState
    Source CommitState} (hs : s.Orderly) (h : run step s labels = some t) : t.Orderly :=
  run_invariant Orderly (fun _ _ _ hr hstep => (step_goes hr hstep).1) h hs

theorem run_bounded {capacity : Nat} {labels : List (PreparationStep Source CommitState)}
    {t : PreparationState Source CommitState} (h : run step (start capacity) labels = some t) :
    t.pool.readyCount ≤ capacity := by
  have hinv := run_invariant
    (fun s : PreparationState Source CommitState =>
      s.Orderly ∧ s.pool.capacity = capacity ∧ s.pool.readyCount ≤ s.pool.capacity)
    (by
      rintro s label r ⟨hs, hcapacity, hbounded⟩ hstep
      obtain ⟨hr, hmoves⟩ := step_goes hs hstep
      exact ⟨hr, hmoves.capacity.trans hcapacity, hmoves.bounded hbounded⟩)
    h ⟨start_orderly capacity, rfl, Nat.zero_le _⟩
  obtain ⟨_, hcapacity, hbounded⟩ := hinv
  rw [← hcapacity]
  exact hbounded

theorem run_stale {s₀ : PreparationState Source CommitState} {h : Nat}
    {labels : List (PreparationStep Source CommitState)} {t : PreparationState Source CommitState}
    (hs : s₀.Orderly) (hlt : h < s₀.pool.nextEntry) (hout : ¬ s₀.pool.InTable h)
    (hrun : run step s₀ labels = some t) :
    ¬ t.pool.InTable h ∧ ∃ new, t.pool.reservations = s₀.pool.reservations ++ new ∧
      ∀ reservation ∈ new, reservation.entry ≠ h := by
  have hinv := run_invariant
    (fun s : PreparationState Source CommitState => s.Orderly ∧ h < s.pool.nextEntry ∧
      ¬ s.pool.InTable h ∧ ∃ new, s.pool.reservations = s₀.pool.reservations ++ new ∧
        ∀ reservation ∈ new, reservation.entry ≠ h)
    (by
      rintro s label r ⟨hs, hlt, hout, new, hnew, hother⟩ hstep
      obtain ⟨hr, hmoves⟩ := step_goes hs hstep
      obtain ⟨more, hmore, hin⟩ := hmoves.reservations
      refine ⟨hr, Nat.lt_of_lt_of_le hlt hmoves.nextEntry,
        fun hbad => hout (hmoves.stale h hlt hbad), new ++ more, ?_, ?_⟩
      · rw [hmore, hnew, List.append_assoc]
      · intro reservation hmem
        rcases List.mem_append.mp hmem with hmem | hmem
        · exact hother reservation hmem
        · rintro rfl
          exact hout (hin reservation hmem))
    hrun ⟨hs, hlt, hout, [], (List.append_nil _).symm, nofun⟩
  exact hinv.2.2

def Invalidates (label : PreparationStep Source CommitState) (id : String) : Prop :=
  label = .invalidate id ∨ label = .finishAppend id true

theorem invalidated_out (hs : s.Orderly) {label : PreparationStep Source CommitState} {id : String}
    {h : Nat} (hlabel : Invalidates label id) (hat : s.pool.at? id = some h)
    {t : PreparationState Source CommitState} (hstep : s.step label = some t) :
    h < t.pool.nextEntry ∧ ¬ t.pool.InTable h ∧ t.pool.reservations = s.pool.reservations := by
  have hpool : t.pool = s.pool.remove h := by
    have hinvalidate : s.pool.invalidate id = s.pool.remove h := by
      rw [SessionPreparations.invalidate, hat]
    rcases hlabel with rfl | rfl
    · cases hstep
      exact hinvalidate
    · rw [step] at hstep
      split at hstep
      · rename_i writing rest hchain
        rw [if_pos rfl] at hstep
        split at hstep
        · cases hstep
          exact hinvalidate
        · cases hstep
      · cases hstep
  have hdropped := SessionPreparations.remove_dropped hs.kept h
  rw [hpool]
  refine ⟨?_, SessionPreparations.not_inTable_remove h, hdropped.reservations⟩
  rw [hdropped.nextEntry]
  exact (hs.kept.entry_id id h hat).1

omit [DecidableEq Source] in
theorem Orderly.reservationFor_entry (hs : s.Orderly) {Session : Type} [DecidableEq Session]
    {sessionOf : Source → Session} {id : String} {session : Session} {r : Nat}
    {reservation : SessionPreparationReservation Source CommitState}
    (h : s.pool.reservationFor sessionOf id session = .ok (some r))
    (hr : s.pool.reservations[r]? = some reservation) :
    s.pool.at? id = some reservation.entry := by
  rw [SessionPreparations.reservationFor] at h
  cases hat : s.pool.at? id with
  | none =>
    rw [hat] at h
    cases h
  | some k =>
    rw [hat] at h
    simp only at h
    split at h
    · rename_i r' hheld
      split at h
      · rename_i hreserved
        cases h
        obtain ⟨r', found, hheld', hfound, hentry⟩ := hs.kept.granted id k hat hreserved.1
        rw [hheld] at hheld'
        cases hheld'
        rw [hr] at hfound
        cases hfound
        rw [hentry]
      · cases h
    · cases h

theorem preparations_exclusive (capacity : Nat)
    {labels : List (PreparationStep Source CommitState)} {t : PreparationState Source CommitState}
    (h : run step (start capacity) labels = some t) :
    (∀ id h k, t.Holds id h → t.Holds id k → h = k) ∧ t.Guarded ∧ t.Attended ∧
      t.pool.readyCount ≤ capacity ∧
      ∀ before label after id h s, labels = before ++ label :: after → Invalidates label id →
        run step (start capacity) before = some s → s.pool.at? id = some h →
        (∀ id, t.pool.at? id ≠ some h) ∧
        (∀ (Session : Type) [DecidableEq Session] (sessionOf : Source → Session) id session r
          reservation, t.pool.reservationFor sessionOf id session = .ok (some r) →
          t.pool.reservations[r]? = some reservation → reservation.entry ≠ h) ∧
        ∃ new, t.pool.reservations = s.pool.reservations ++ new ∧
          ∀ reservation ∈ new, reservation.entry ≠ h := by
  have hstart := @start_orderly Source CommitState capacity
  have ht := run_orderly hstart h
  refine ⟨fun id h k => ht.exclusive, ht.guarded, ht.attended, run_bounded h, ?_⟩
  rintro before label after id h' s rfl hlabel hbefore hat
  have hs := run_orderly hstart hbefore
  obtain ⟨s', hs', hrest⟩ := run_front h
  rw [hbefore] at hs'
  obtain rfl := Option.some.inj hs'
  obtain ⟨m, hstep, hafter⟩ := Option.bind_eq_some_iff.mp hrest
  obtain ⟨hlt, hout, hsame⟩ := invalidated_out hs hlabel hat hstep
  obtain ⟨hgone, new, hnew, hother⟩ := run_stale (step_goes hs hstep).1 hlt hout hafter
  have habsent : ∀ other, t.pool.at? other ≠ some h' := fun other hfound =>
    hgone ((SessionPreparations.inTable_iff ht.kept).mpr ⟨other, hfound⟩)
  refine ⟨habsent, ?_, new, ?_, hother⟩
  · rintro Session _ sessionOf other session r reservation hfor hr rfl
    exact habsent other (ht.reservationFor_entry hfor hr)
  · rw [hnew, hsame]

end Runs

/-- A second caller waits for the first one's reservation, which an append is kept from. -/
def sharedReservation : List (PreparationStep Nat Nat) :=
  [.reserve "a" none, .loaded "a" (.ok 7), .loadSettled 0, .resume 0, .startCommit "a",
    .reserve "a" none, .resume 1, .finishCommit "a" (.ok (some (7, 3))), .continueCommit 0 none,
    .append "a", .assertWritable "a", .invalidate "a", .resume 1]

theorem sharedReservation_exclusive :
    ∃ t, run step (start 1) sharedReservation = some t ∧
      (∀ id h k, t.Holds id h → t.Holds id k → h = k) ∧ t.Guarded ∧ t.Attended ∧
      t.pool.readyCount ≤ 1 := by
  have hruns : (run step (start 1) sharedReservation).isSome = true := by decide
  obtain ⟨t, ht⟩ := Option.isSome_iff_exists.mp hruns
  obtain ⟨hexclusive, hguarded, hattended, hbounded, _⟩ := preparations_exclusive 1 ht
  exact ⟨t, ht, hexclusive, hguarded, hattended, hbounded⟩

end PreparationState

end Harness.Persistence
