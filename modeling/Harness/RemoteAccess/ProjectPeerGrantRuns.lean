import Harness.RemoteAccess.ProjectPeerGrantSound

namespace Harness.RemoteAccess

open Harness.Foundation
open Attempt

/-- What a reconciled scope has at the relay: the digests of its live grants, which are all eligible. -/
def Settled (projectId : Option PlatformId) (state : RemoteAccess) : Prop :=
  ∀ key record, state.records.get? key = some record → record.inScope projectId = true →
    record.supersededCredentialDigest = none ∧
      (state.carries record = true ↔ record.isLive = true ∧ state.isEligible record = true) ∧
        (record.isLive = true → state.isEligible record = true)

/-- A grant that is handed out has a credential that is neither revoked nor superseded. -/
def Current (state : RemoteAccess) (grant : SealedProjectPeerGrant) : Prop :=
  ∃ key record, state.records.get? key = some record ∧ record.isLive = true ∧
    grant = ⟨record.projectId, record.grantId, record.credentialDigest, record.sealedCredential⟩ ∧
      record.sealedCredential.credential = record.credentialDigest ∧
        (record.sealedCredential.routeId, record.credentialDigest) ∈ state.registered ∧
          record.credentialDigest ∉ state.retired

namespace Reconciling

variable {projectId : Option PlatformId} {start state : RemoteAccess}
  {record : ProjectPeerGrantRecord}

theorem toSettled (h : Reconciling projectId start [] state) : Settled projectId state := by
  intro key record hget hscope
  obtain ⟨hcleared, heligible⟩ := h.settled key record hget hscope List.not_mem_nil
  refine ⟨hcleared, ⟨fun hcarries => ?_, fun hboth => ?_⟩, heligible⟩
  · cases halive : record.isLive with
    | false =>
      exact absurd (of_decide_eq_true hcarries) (h.kept.ended key record hget halive).2
    | true => exact ⟨rfl, heligible halive⟩
  · exact h.carried key record hget hscope hboth.1 hboth.2

theorem again (h : Reconciling projectId start [] state) {key : String}
    (hget : state.records.get? key = some record) : Reconciling projectId start [record] state where
  kept := h.kept
  desktops := h.desktops
  members := h.members
  stored := by
    intro found hmem
    rw [List.mem_singleton.mp hmem, h.kept.keyed key record hget]
    exact hget
  nodup := List.nodup_singleton _
  same := h.same
  carried := h.carried
  settled := fun key found hfound hscope _ => h.settled key found hfound hscope List.not_mem_nil

end Reconciling

theorem key_scope {record : ProjectPeerGrantRecord} {projectId peerAccountId : PlatformId}
    {peerInstallationId : String}
    (h : record.key = grantKey projectId peerAccountId peerInstallationId) :
    record.inScope (some projectId) = true :=
  decide_eq_true (grantKey_inj h).1

theorem isEligible_intro {state : RemoteAccess} {record : ProjectPeerGrantRecord}
    (hroute : state.desktops record.grantorAccountId record.grantorInstallationId = some record.routeId)
    (hgrantor : record.grantorAccountId ∈ state.members record.projectId)
    (hpeer : record.peerAccountId ∈ state.members record.projectId) :
    state.isEligible record = true := by
  unfold RemoteAccess.isEligible RemoteAccess.roster
  rw [if_pos hgrantor, Option.any_some, decide_eq_true hroute, decide_eq_true hpeer]
  rfl

theorem roster_eq_some {state : RemoteAccess} {accountId projectId : PlatformId}
    {members : List PlatformId} (h : state.roster accountId projectId = some members) :
    accountId ∈ state.members projectId ∧ members = state.members projectId := by
  unfold RemoteAccess.roster at h
  split at h
  · rename_i hmem
    exact ⟨hmem, (Option.some.inj h).symm⟩
  · cases h

theorem ends_required {α : Type} {value : Option α} {e : GrantError}
    {Q : α → RemoteAccess → Prop} {E : GrantError → RemoteAccess → Prop} {state : RemoteAccess}
    (hsome : ∀ a, value = some a → Q a state) (hnone : E e state) :
    Ends (required value e) Q E state := by
  cases value with
  | none => exact hnone
  | some a => exact hsome a rfl

theorem ends_check {α : Type} {condition : Bool} {e : GrantError} {x : Grants α}
    {Q : α → RemoteAccess → Prop} {E : GrantError → RemoteAccess → Prop} {state : RemoteAccess}
    (h : condition = true → Ends x Q E state) (he : E e state) :
    Ends (guarded condition e >>= fun _ => x) Q E state :=
  ends_bind.mpr (ends_guarded.mpr ⟨h, fun _ => he⟩)

theorem requireRoster_ends {α : Type} {accountId projectId : PlatformId}
    {f : List PlatformId → Grants α} {Q : α → RemoteAccess → Prop}
    {E : GrantError → RemoteAccess → Prop} {state : RemoteAccess}
    (h : accountId ∈ state.members projectId → Ends (f (state.members projectId)) Q E state)
    (he : ∀ e, E e state) : Ends (requireProjectRoster accountId projectId >>= f) Q E state := by
  refine Ends.bind (Q := fun members after => after = state ∧ accountId ∈ state.members projectId ∧
    members = state.members projectId) ?_ ?_
  · unfold requireProjectRoster
    refine ends_bind.mpr (ends_required (fun members hroster => ⟨rfl, roster_eq_some hroster⟩) (he _))
  · rintro _ _ ⟨rfl, hmem, rfl⟩
    exact h hmem

section Issue

variable {state : RemoteAccess}

theorem replaced_reconciling {start : RemoteAccess} {caller : Caller} {input : GrantInput}
    {routeId : String} {registered : List (String × Nat)} {retired : List Nat} {generated : Nat}
    {next : ProjectPeerGrantRecord}
    (h : Reconciling (some input.projectId) start [] state)
    (hnext : next = newRecord caller input routeId state.generated (state.records.get? input.key))
    (hkept : Kept none { state with
      records := state.records.set next.key next
      registered := registered
      generated := generated
      retired := retired })
    (hregistered : registered = (routeId, state.generated) :: state.registered) :
    Reconciling (some input.projectId)
      { state with
        records := state.records.set next.key next
        registered := registered
        generated := generated
        retired := retired }
      [next]
      { state with
        records := state.records.set next.key next
        registered := registered
        generated := generated
        retired := retired } := by
  have hcases : ∀ {key found}, (state.records.set next.key next).get? key = some found →
      (key = next.key ∧ found = next) ∨ state.records.get? key = some found := by
    intro key found hfound
    rw [OrderedMap.get?_set] at hfound
    split at hfound
    · rename_i heq
      exact .inl ⟨heq, (Option.some.inj hfound).symm⟩
    · exact .inr hfound
  refine ⟨hkept, rfl, rfl, ?_, List.nodup_singleton _, fun key record hget => ⟨record, hget, .refl record⟩,
    ?_, ?_⟩
  · intro record hmem
    rw [List.mem_singleton.mp hmem]
    dsimp only
    rw [OrderedMap.get?_set, if_pos rfl]
  · intro key found hfound hscope halive heligible
    apply decide_eq_true
    dsimp only
    rw [hregistered]
    rcases hcases hfound with ⟨rfl, rfl⟩ | hold
    · rw [hnext]
      exact List.mem_cons_self
    · exact List.mem_cons_of_mem _ (of_decide_eq_true (h.carried key found hold hscope halive heligible))
  · intro key found hfound hscope hout
    rcases hcases hfound with ⟨rfl, rfl⟩ | hold
    · exact absurd (List.mem_singleton_self _) hout
    · exact h.settled key found hold hscope List.not_mem_nil

theorem issue_ends {start : RemoteAccess} {caller : Caller} {input : GrantInput} {calls : GrantCalls}
    {routeId : String} (h : Reconciling (some input.projectId) start [] state)
    (hroute : state.desktops caller.account caller.installation = some routeId)
    (hgrantor : caller.account ∈ state.members input.projectId)
    (hpeer : input.peerAccountId ∈ state.members input.projectId)
    (hprior : ∀ prior, state.records.get? input.key = some prior → prior.isLive = true →
      prior.routeId = routeId)
    (hregistration : calls.registration ≠ .lost)
    (hcompensation : calls.sealing = false → calls.compensation ≠ .refused)
    (hwrite : calls.sealing = true → calls.write ≠ .refused) :
    Ends (issue caller input calls routeId (state.records.get? input.key))
      (fun _ after => Kept none after ∧ Settled (some input.projectId) after)
      (fun _ after => Kept none after) state := by
  have hregistered := h.kept.register routeId
  unfold issue
  refine ends_bind.mpr ?_
  change Ends (registerCredentialDigest routeId state.generated calls.registration >>= _) _ _
    { state with generated := state.generated + 1 }
  refine Ends.bind (ends_perform (Q := fun _ after => after = { state with
    generated := state.generated + 1
    registered := (routeId, state.generated) :: state.registered }) rfl (fun _ => h.kept.generate)
      (fun hlost => absurd hlost hregistration)) ?_
  rintro _ _ rfl
  refine Ends.bind (Q := fun _ after => calls.sealing = true ∧ after = { state with
    generated := state.generated + 1
    registered := (routeId, state.generated) :: state.registered }) ?_ ?_
  · unfold sealOrRevoke
    split
    · rename_i hsealed
      exact ⟨hsealed, rfl⟩
    · rename_i hfailed
      have hrevoked := hregistered.revoke routeId state.generated
        (fun _ heq => (Option.some.inj heq).symm) (Nat.lt_succ_self _) (by
          intro key record hget heq
          exact absurd (h.kept.numbered key record hget _ List.mem_cons_self)
            (heq ▸ Nat.lt_irrefl _))
      refine Ends.bind (ends_perform (Q := fun _ after => Kept none after) hrevoked
        (fun hrefused => absurd hrefused (hcompensation (Bool.eq_false_iff.mpr hfailed)))
        (fun _ => hrevoked)) ?_
      exact fun _ _ hafter => hafter
  · rintro _ _ ⟨hsealed, rfl⟩
    generalize hnext : newRecord caller input routeId state.generated
      (state.records.get? input.key) = next
    have hkey : next.key = input.key := by
      rw [← hnext]
      rfl
    have hreplaced := hregistered.replace next (((state.records.get? next.key).elim []
        fun prior => if prior.credentialDigest = next.credentialDigest then []
          else [prior.credentialDigest]) ++ state.retired)
      (by rw [← hnext]; rfl) (by rw [← hnext]; rfl) (by rw [← hnext]; rfl)
      (by rw [← hnext]; exact ⟨rfl, rfl⟩) (by rw [hkey, ← hnext]; rfl)
      (by
        intro prior hfound
        have hfound : state.records.get? input.key = some prior := by
          rw [← hkey]
          exact hfound
        have hscope : prior.inScope (some input.projectId) = true :=
          key_scope (h.kept.keyed _ prior hfound)
        exact ⟨(h.settled _ prior hfound hscope List.not_mem_nil).1, hprior prior hfound⟩)
      (by
        intro digest hmem
        rcases List.mem_append.mp hmem with hnew | hold
        · right
          cases hfound : state.records.get? next.key with
          | none =>
            rw [hfound] at hnew
            exact absurd hnew List.not_mem_nil
          | some prior =>
            rw [hfound, Option.elim_some] at hnew
            split at hnew
            · exact absurd hnew List.not_mem_nil
            · exact ⟨prior, rfl, List.mem_singleton.mp hnew⟩
        · exact .inl hold)
    have hleft := replaced_reconciling h hnext.symm hreplaced rfl
    refine Ends.bind (ends_perform (Q := fun _ after => after = _) rfl
      (fun hrefused => absurd hrefused (hwrite hsealed)) (fun _ => hreplaced)) ?_
    rintro _ _ rfl
    refine Ends.bind (hleft.superseded_ends calls.rotation) ?_
    rintro retained after ⟨hafter, hcleared, hdescends⟩
    have hdone := hafter.drop hcleared fun _ => by
      rw [isEligible_congr hafter.desktops hafter.members, hdescends.eligible, ← hnext]
      exact isEligible_intro hroute hgrantor hpeer
    exact ⟨hdone.kept, hdone.toSettled⟩

end Issue

def PeerOp.scope? : PeerOp → Option (Option PlatformId)
  | .grant _ input _ => some (some input.projectId)
  | .list _ projectId _ _ => some projectId
  | .revoke _ projectId _ _ _ _ _ => some (some projectId)
  | .get _ projectId _ _ => some (some projectId)
  | .setMembers _ _ => none
  | .setDesktop _ _ _ => none

/-- No live grant in the scope that is eligible has had its credential revoked while the tombstone
was not written.  A new grant replaces one of the same route, its registration does not fail after
it has taken effect, a failed sealing is taken back, and the store takes the new record. -/
def Careful (state : RemoteAccess) (op : PeerOp) : Prop :=
  (∀ scope ∈ op.scope?, ∀ record ∈ state.records.values, record.inScope scope = true →
    record.isLive = true → state.isEligible record = true → state.carries record = true) ∧
    match op with
    | .grant caller input calls =>
      calls.registration ≠ .lost ∧ (calls.sealing = false → calls.compensation ≠ .refused) ∧
        (calls.sealing = true → calls.write ≠ .refused) ∧
          ∀ prior ∈ state.records.values, prior.key = input.key → prior.isLive = true →
            state.isEligible prior = true →
              state.desktops caller.account caller.installation = some prior.routeId
    | _ => True

instance decidableCareful (state : RemoteAccess) (op : PeerOp) : Decidable (Careful state op) := by
  unfold Careful
  cases op <;> infer_instance

section Operations

variable {state : RemoteAccess} {caller : Caller}

theorem carried_of_careful {op : PeerOp} {scope : Option PlatformId} (hcareful : Careful state op)
    (hscope : op.scope? = some scope) : Carried scope state := by
  intro key record hget hin halive heligible
  exact hcareful.1 scope hscope record (OrderedMap.mem_values_iff.mpr ⟨key, hget⟩) hin halive heligible

theorem grant_ends {input : GrantInput} {calls : GrantCalls} (h : Kept none state)
    (hcareful : Careful state (.grant caller input calls)) :
    Ends (grantProjectPeer caller input calls)
      (fun _ after => Kept none after ∧ Settled (some input.projectId) after)
      (fun _ after => Kept none after) state := by
  obtain ⟨hregistration, hcompensation, hwrite, hprior⟩ := hcareful.2
  unfold grantProjectPeer
  refine ends_check (fun _ => ends_check (fun _ => ends_check (fun _ => ends_check (fun _ =>
    ends_check (fun _ => ?_) h) h) h) h) h
  refine (reconcile_ends h (carried_of_careful hcareful rfl) caller.now calls.reconcile).bind ?_
  intro _ reconciled hreconciled
  have hkept := hreconciled.kept
  refine requireRoster_ends (fun hgrantor => ?_) fun _ => hkept
  refine ends_check (fun hpeer => ?_) hkept
  refine ends_bind.mpr (ends_ask.mpr ?_)
  refine ends_bind.mpr (ends_required (fun routeId hroute => ?_) hkept)
  refine ends_check (fun _ => ?_) hkept
  refine ends_bind.mpr (ends_ask.mpr ?_)
  refine ends_check (fun _ => ?_) hkept
  refine ends_bind.mpr (ends_ask.mpr ?_)
  refine ends_check (fun _ => ?_) hkept
  refine issue_ends hreconciled hroute hgrantor (of_decide_eq_true hpeer) ?_ hregistration
    hcompensation hwrite
  intro prior hfound halive
  obtain ⟨before, hbefore, hdescends⟩ := hreconciled.same _ prior hfound
  have hscope : prior.inScope (some input.projectId) = true := key_scope (hkept.keyed _ prior hfound)
  have heligible := (hreconciled.settled _ prior hfound hscope List.not_mem_nil).2 halive
  rw [hdescends.eligible, isEligible_congr hreconciled.desktops hreconciled.members] at heligible
  have hsame := hprior before (OrderedMap.mem_values_iff.mpr ⟨_, hbefore⟩)
    (h.keyed _ before hbefore) (hdescends.alive halive) heligible
  rw [hreconciled.desktops, hsame] at hroute
  rw [hdescends.same]
  exact Option.some.inj hroute

theorem list_ends {projectId : Option PlatformId} {calls : ReconcileCalls} {relisting : Bool}
    (h : Kept none state) (hcareful : Careful state (.list caller projectId calls relisting)) :
    Ends (listProjectPeerGrants caller projectId calls relisting)
      (fun _ after => Kept none after ∧ Settled projectId after)
      (fun _ after => Kept none after) state := by
  unfold listProjectPeerGrants
  refine ends_check (fun _ => ends_check (fun _ => ?_) h) h
  refine (reconcile_ends h (carried_of_careful hcareful rfl) caller.now calls).bind ?_
  intro _ reconciled hreconciled
  refine ends_check (fun _ => ?_) hreconciled.kept
  exact ⟨hreconciled.kept, hreconciled.toSettled⟩

theorem revoke_ends {projectId peerAccountId : PlatformId} {peerInstallationId : String}
    {calls : ReconcileCalls} {reading : Bool} {own : RecordCalls} (h : Kept none state)
    (hcareful : Careful state
      (.revoke caller projectId peerAccountId peerInstallationId calls reading own)) :
    Ends (revokeProjectPeerGrant caller projectId peerAccountId peerInstallationId calls reading own)
      (fun _ after => Kept none after ∧ Settled (some projectId) after)
      (fun _ after => Kept none after) state := by
  unfold revokeProjectPeerGrant
  refine ends_check (fun _ => ends_check (fun _ => ends_check (fun _ =>
    ends_check (fun _ => ?_) h) h) h) h
  refine (reconcile_ends h (carried_of_careful hcareful rfl) caller.now calls).bind ?_
  intro _ reconciled hreconciled
  refine ends_check (fun _ => ?_) hreconciled.kept
  refine ends_bind.mpr (ends_ask.mpr ?_)
  unfold revokeRead
  split
  · exact ⟨hreconciled.kept, hreconciled.toSettled⟩
  · rename_i record hfound
    obtain ⟨hfound, -⟩ := Option.filter_eq_some_iff.mp hfound
    refine ends_check (fun _ => ?_) hreconciled.kept
    have hscope : record.inScope (some projectId) = true :=
      key_scope (hreconciled.kept.keyed _ record hfound)
    have hcleared := (hreconciled.settled _ record hfound hscope List.not_mem_nil).1
    exact ((hreconciled.again hfound).revoked_ends hcleared caller.now own).imp
      (fun _ after hafter => ⟨hafter.kept, hafter.toSettled⟩) fun _ _ hafter => hafter

theorem get_ends {projectId : PlatformId} {calls : ReconcileCalls} {reading : Bool}
    (h : Kept none state) (hcareful : Careful state (.get caller projectId calls reading)) :
    Ends (getProjectPeerGrant caller projectId calls reading)
      (fun grant after => Kept none after ∧ Settled (some projectId) after ∧ Current after grant)
      (fun _ after => Kept none after) state := by
  unfold getProjectPeerGrant
  refine ends_check (fun _ => ends_check (fun _ => ?_) h) h
  refine (reconcile_ends h (carried_of_careful hcareful rfl) caller.now calls).bind ?_
  intro _ reconciled hreconciled
  have hkept := hreconciled.kept
  refine requireRoster_ends (fun _ => ?_) fun _ => hkept
  refine ends_check (fun _ => ?_) hkept
  refine ends_bind.mpr (ends_ask.mpr ?_)
  refine ends_bind.mpr (ends_required (fun record hfound => ?_) hkept)
  obtain ⟨hfound, halive⟩ := Option.filter_eq_some_iff.mp hfound
  have hscope : record.inScope (some projectId) = true := key_scope (hkept.keyed _ record hfound)
  have heligible := (hreconciled.settled _ record hfound hscope List.not_mem_nil).2 halive
  have hcarries := of_decide_eq_true (hreconciled.carried _ record hfound hscope halive heligible)
  obtain ⟨hroute, hcredential⟩ := hkept.sealed _ record hfound
  refine ⟨hkept, hreconciled.toSettled, _, record, hfound, halive, rfl, hcredential, ?_, ?_⟩
  · rw [hroute]
    exact hcarries
  · exact fun hretired => hkept.spent _ record hfound hretired hcarries

theorem attempt_ends {op : PeerOp} (h : Kept none state) (hcareful : Careful state op) :
    Ends op.attempt
      (fun reply after => Kept none after ∧ (∀ scope, op.scope? = some scope → Settled scope after) ∧
        ∀ grant, reply = .opened grant → Current after grant)
      (fun _ after => Kept none after) state := by
  cases op with
  | grant caller input calls =>
    refine ends_map.mpr ((grant_ends h hcareful).imp (fun _ after hafter => ?_) fun _ _ he => he)
    exact ⟨hafter.1, fun _ heq => Option.some.inj heq ▸ hafter.2, nofun⟩
  | list caller projectId calls relisting =>
    refine ends_map.mpr ((list_ends h hcareful).imp (fun _ after hafter => ?_) fun _ _ he => he)
    exact ⟨hafter.1, fun _ heq => Option.some.inj heq ▸ hafter.2, nofun⟩
  | revoke caller projectId peerAccountId peerInstallationId calls reading own =>
    refine ends_map.mpr ((revoke_ends h hcareful).imp (fun _ after hafter => ?_) fun _ _ he => he)
    exact ⟨hafter.1, fun _ heq => Option.some.inj heq ▸ hafter.2, nofun⟩
  | get caller projectId calls reading =>
    refine ends_map.mpr ((get_ends h hcareful).imp (fun grant after hafter => ?_) fun _ _ he => he)
    refine ⟨hafter.1, fun _ heq => Option.some.inj heq ▸ hafter.2.1, fun opened heq => ?_⟩
    cases heq
    exact hafter.2.2
  | setMembers projectId members =>
    exact ⟨⟨h.keyed, h.numbered, h.apart, h.distinct, h.covered, h.issuing, h.ended, h.spent, h.drawn,
      h.sealed⟩, nofun, nofun⟩
  | setDesktop account installation route =>
    exact ⟨⟨h.keyed, h.numbered, h.apart, h.distinct, h.covered, h.issuing, h.ended, h.spent, h.drawn,
      h.sealed⟩, nofun, nofun⟩

end Operations

/-- Every digest that is registered and not revoked is the live or the superseded digest of a stored
record, on the record's route. -/
def Held (state : RemoteAccess) : Prop :=
  ∀ entry ∈ state.registered, ∃ key record, state.records.get? key = some record ∧
    record.routeId = entry.1 ∧
      (record.credentialDigest = entry.2 ∨ record.supersededCredentialDigest = some entry.2)

theorem Kept.held {state : RemoteAccess} (h : Kept none state) : Held state := by
  intro entry hmem
  rcases h.covered entry hmem with heq | ⟨key, record, hget, hroute, hdigest⟩
  · cases heq
  · refine ⟨key, record, hget, hroute, ?_⟩
    rcases List.mem_cons.mp hdigest with heq | hsuperseded
    · exact .inl heq.symm
    · exact .inr (Option.mem_toList.mp hsuperseded)

theorem run_kept {ops : List PeerOp} (h : Throughout RemoteAccess.step Careful .fresh ops) :
    Kept none (transcript RemoteAccess.step .fresh ops).1 := by
  refine transcript_invariant_throughout (fun state => Kept none state) ?_ h fresh_kept
  intro state op hkept hcareful
  exact ((attempt_ends hkept hcareful).imp (fun _ _ hafter => hafter.1) fun _ _ he => he).state

theorem peerGrants_held {ops : List PeerOp} (h : Throughout RemoteAccess.step Careful .fresh ops) :
    Held (transcript RemoteAccess.step .fresh ops).1 ∧
      ∀ op, Careful (transcript RemoteAccess.step .fresh ops).1 op → ∀ after reply,
        RemoteAccess.step (transcript RemoteAccess.step .fresh ops).1 op = (after, .ok reply) →
          (∀ scope, op.scope? = some scope → Settled scope after) ∧
            ∀ grant, reply = .opened grant → Current after grant := by
  have hkept := run_kept h
  refine ⟨hkept.held, fun op hcareful after reply hstep => ?_⟩
  obtain ⟨hafter, hreply⟩ := Prod.mk.inj hstep
  have hends := (attempt_ends hkept hcareful).ok (Prod.ext hreply hafter)
  exact hends.2

theorem held_iff {state : RemoteAccess} : Held state ↔ ∀ entry ∈ state.registered,
    ∃ record ∈ state.records.values, record.routeId = entry.1 ∧
      (record.credentialDigest = entry.2 ∨ record.supersededCredentialDigest = some entry.2) := by
  constructor
  · intro h entry hmem
    obtain ⟨key, record, hget, hrest⟩ := h entry hmem
    exact ⟨record, OrderedMap.mem_values_iff.mpr ⟨key, hget⟩, hrest⟩
  · intro h entry hmem
    obtain ⟨record, hvalue, hrest⟩ := h entry hmem
    obtain ⟨key, hget⟩ := OrderedMap.mem_values_iff.mp hvalue
    exact ⟨key, record, hget, hrest⟩

section Runs

def project : PlatformId := ⟨"p", by decide⟩

def alice : PlatformId := ⟨"alice", by decide⟩

def bob : PlatformId := ⟨"bob", by decide⟩

def carol : PlatformId := ⟨"carol", by decide⟩

def desktopOf (account : PlatformId) : Caller := ⟨account, "desktop", true, false, 1⟩

def phoneOf (account : PlatformId) : Caller := ⟨account, "phone", false, false, 1⟩

def allDone : RecordCalls := ⟨.done, .done, .done, .done⟩

def allListed : ReconcileCalls := ⟨true, fun _ => allDone⟩

def grantDone : GrantCalls := ⟨allListed, true, true, .done, true, .done, .done, allDone⟩

def toBob (grantId : String) : GrantInput := ⟨project, bob, "phone", grantId, 1⟩

def openProject : List PeerOp :=
  [.setMembers project [alice, bob, carol], .setDesktop alice "desktop" (some "route-a"),
    .setDesktop carol "desktop" (some "route-c")]

/-- A grant, a rotation whose clearing fails, a retrieval, and a revocation. -/
def rotatedRun : List PeerOp :=
  openProject ++
    [.grant (desktopOf alice) (toBob "g1") grantDone,
      .grant (desktopOf alice) (toBob "g2")
        { grantDone with rotation := { allDone with superseded := .refused } },
      .get (phoneOf bob) project allListed true,
      .revoke (desktopOf alice) project bob "phone" allListed true allDone]

theorem rotatedRun_held : Held (transcript RemoteAccess.step .fresh rotatedRun).1 ∧
    ∀ op, Careful (transcript RemoteAccess.step .fresh rotatedRun).1 op → ∀ after reply,
      RemoteAccess.step (transcript RemoteAccess.step .fresh rotatedRun).1 op = (after, .ok reply) →
        (∀ scope, op.scope? = some scope → Settled scope after) ∧
          ∀ grant, reply = .opened grant → Current after grant :=
  peerGrants_held (by decide +kernel)

def changedRun : List PeerOp :=
  openProject ++
    [.grant (desktopOf alice) (toBob "g1") grantDone, .grant (desktopOf carol) (toBob "g2") grantDone]

def unwrittenRun : List PeerOp :=
  openProject ++ [.grant (desktopOf alice) (toBob "g1") { grantDone with write := .refused }]

def unburiedRun : List PeerOp :=
  openProject ++
    [.grant (desktopOf alice) (toBob "g1") grantDone,
      .revoke (desktopOf alice) project bob "phone" allListed true
        { allDone with tombstone := .refused }]

def revivedGrant : SealedProjectPeerGrant := ⟨project, "g1", 0, ⟨"route-a", 0, 1, "g1"⟩⟩

/-- The first loses a registered credential, the second too, and the third hands out one that has
been revoked. -/
theorem changedRun_loses :
    ¬ Held (transcript RemoteAccess.step .fresh changedRun).1 ∧
      ¬ Held (transcript RemoteAccess.step .fresh unwrittenRun).1 ∧
        (RemoteAccess.step (transcript RemoteAccess.step .fresh unburiedRun).1
          (.get (phoneOf bob) project allListed true)).2 = .ok (.opened revivedGrant) ∧
            ¬ Current (RemoteAccess.step (transcript RemoteAccess.step .fresh unburiedRun).1
              (.get (phoneOf bob) project allListed true)).1 revivedGrant := by
  refine ⟨?_, ?_, by decide +kernel, ?_⟩
  · rw [held_iff]
    decide +kernel
  · rw [held_iff]
    decide +kernel
  · rintro ⟨key, record, -, -, hgrant, -, -, hretired⟩
    have hdigest : record.credentialDigest = 0 :=
      (congrArg SealedProjectPeerGrant.credentialFingerprint hgrant).symm
    rw [hdigest] at hretired
    exact absurd (by decide +kernel) hretired

end Runs

end Harness.RemoteAccess
