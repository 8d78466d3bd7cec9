import Harness.RemoteAccess.ProjectPeerGrant

namespace Harness.RemoteAccess

open Harness.Foundation
open Attempt

theorem append_cons_inj {α : Type} {mark : α} {front front' back back' : List α}
    (hfront : mark ∉ front) (hfront' : mark ∉ front')
    (h : front ++ mark :: back = front' ++ mark :: back') : front = front' ∧ back = back' := by
  induction front generalizing front' with
  | nil =>
    cases front' with
    | nil =>
      cases h
      exact ⟨rfl, rfl⟩
    | cons head tail =>
      cases h
      exact absurd List.mem_cons_self hfront'
  | cons head tail ih =>
    cases front' with
    | nil =>
      cases h
      exact absurd List.mem_cons_self hfront
    | cons head' tail' =>
      rw [List.cons_append, List.cons_append, List.cons.injEq] at h
      obtain ⟨htail, hback⟩ := ih (fun hmem => hfront (List.mem_cons_of_mem _ hmem))
        (fun hmem => hfront' (List.mem_cons_of_mem _ hmem)) h.2
      exact ⟨by rw [h.1, htail], hback⟩

theorem PlatformId.eq_of_text {a b : PlatformId} (h : a.text.toList = b.text.toList) : a = b := by
  obtain ⟨a, ha⟩ := a
  obtain ⟨b, hb⟩ := b
  have heq : a = b := String.toList_inj.mp h
  subst heq
  rfl

theorem toList_grantKey (projectId peerAccountId : PlatformId) (peerInstallationId : String) :
    (grantKey projectId peerAccountId peerInstallationId).toList =
      projectId.text.toList ++ nul :: (peerAccountId.text.toList ++ nul :: peerInstallationId.toList) := by
  unfold grantKey
  simp only [String.toList_append, String.toList_singleton, List.append_assoc, List.cons_append,
    List.nil_append]

theorem grantKey_inj {projectId otherId accountId other : PlatformId} {installation place : String}
    (h : grantKey projectId accountId installation = grantKey otherId other place) :
    projectId = otherId ∧ accountId = other ∧ installation = place := by
  have hlist := congrArg String.toList h
  rw [toList_grantKey, toList_grantKey] at hlist
  obtain ⟨hproject, hrest⟩ := append_cons_inj projectId.clean otherId.clean hlist
  obtain ⟨haccount, hplace⟩ := append_cons_inj accountId.clean other.clean hrest
  exact ⟨PlatformId.eq_of_text hproject, PlatformId.eq_of_text haccount, String.toList_inj.mp hplace⟩

def ProjectPeerGrantRecord.digests (record : ProjectPeerGrantRecord) : List Nat :=
  record.credentialDigest :: record.supersededCredentialDigest.toList

/-- A registered digest is that of a stored record on its route, or the one that is being issued. -/
structure Kept (loose : Option (String × Nat)) (state : RemoteAccess) : Prop where
  keyed : ∀ key record, state.records.get? key = some record → record.key = key
  numbered : ∀ key record, state.records.get? key = some record →
    ∀ digest ∈ record.digests, digest < state.generated
  apart : ∀ key record, state.records.get? key = some record → record.digests.Nodup
  distinct : ∀ key record other found digest, state.records.get? key = some record →
    state.records.get? other = some found → digest ∈ record.digests → digest ∈ found.digests →
      key = other
  covered : ∀ entry ∈ state.registered, some entry = loose ∨ ∃ key record,
    state.records.get? key = some record ∧ record.routeId = entry.1 ∧ entry.2 ∈ record.digests
  issuing : ∀ entry, loose = some entry → entry.2 < state.generated ∧
    (∀ key record, state.records.get? key = some record → entry.2 ∉ record.digests) ∧
      entry.2 ∉ state.retired
  ended : ∀ key record, state.records.get? key = some record → record.isLive = false →
    record.supersededCredentialDigest = none ∧
      (record.routeId, record.credentialDigest) ∉ state.registered
  spent : ∀ key record, state.records.get? key = some record →
    record.credentialDigest ∈ state.retired →
      (record.routeId, record.credentialDigest) ∉ state.registered
  drawn : ∀ digest ∈ state.retired, digest < state.generated
  sealed : ∀ key record, state.records.get? key = some record →
    record.sealedCredential.routeId = record.routeId ∧
      record.sealedCredential.credential = record.credentialDigest

theorem fresh_kept : Kept none .fresh where
  keyed := fun _ _ h => by cases h
  numbered := fun _ _ h => by cases h
  apart := fun _ _ h => by cases h
  distinct := fun _ _ _ _ _ h => by cases h
  covered := fun _ hmem => absurd hmem List.not_mem_nil
  issuing := fun _ h => by cases h
  ended := fun _ _ h => by cases h
  spent := fun _ _ h => by cases h
  drawn := fun _ hmem => absurd hmem List.not_mem_nil
  sealed := fun _ _ h => by cases h

namespace Kept

variable {loose : Option (String × Nat)} {state : RemoteAccess}

theorem revoke (h : Kept loose state) (routeId : String) (digest : Nat)
    (hloose : ∀ entry, loose = some entry → entry = (routeId, digest))
    (hdrawn : digest < state.generated)
    (hroute : ∀ key record, state.records.get? key = some record →
      record.credentialDigest = digest → record.routeId = routeId) :
    Kept none { state with
      registered := state.registered.filter (· ≠ (routeId, digest))
      retired := digest :: state.retired } where
  keyed := h.keyed
  numbered := h.numbered
  apart := h.apart
  distinct := h.distinct
  covered := by
    intro entry hmem
    obtain ⟨hmem, hne⟩ := List.mem_filter.mp hmem
    have hne : entry ≠ (routeId, digest) := of_decide_eq_true hne
    rcases h.covered entry hmem with heq | hfound
    · exact absurd (hloose entry heq.symm) hne
    · exact .inr hfound
  issuing := fun _ heq => by cases heq
  ended := by
    intro key record hget hdead
    obtain ⟨hsuperseded, hgone⟩ := h.ended key record hget hdead
    exact ⟨hsuperseded, fun hmem => hgone (List.mem_filter.mp hmem).1⟩
  spent := by
    intro key record hget hretired hmem
    obtain ⟨hmem, hne⟩ := List.mem_filter.mp hmem
    rcases List.mem_cons.mp hretired with heq | hold
    · exact of_decide_eq_true hne (by rw [hroute key record hget heq, heq])
    · exact h.spent key record hget hold hmem
  drawn := by
    intro other hmem
    rcases List.mem_cons.mp hmem with rfl | hold
    · exact hdrawn
    · exact h.drawn other hold
  sealed := h.sealed

theorem generate (h : Kept none state) : Kept none { state with generated := state.generated + 1 } where
  keyed := h.keyed
  numbered := fun key record hget digest hmem =>
    Nat.lt_succ_of_lt (h.numbered key record hget digest hmem)
  apart := h.apart
  distinct := h.distinct
  covered := h.covered
  issuing := fun _ heq => by cases heq
  ended := h.ended
  spent := h.spent
  drawn := fun digest hmem => Nat.lt_succ_of_lt (h.drawn digest hmem)
  sealed := h.sealed

theorem register (h : Kept none state) (routeId : String) :
    Kept (some (routeId, state.generated)) { state with
      generated := state.generated + 1
      registered := (routeId, state.generated) :: state.registered } where
  keyed := h.keyed
  numbered := h.generate.numbered
  apart := h.apart
  distinct := h.distinct
  covered := by
    intro entry hmem
    rcases List.mem_cons.mp hmem with rfl | hold
    · exact .inl rfl
    · rcases h.covered entry hold with heq | hfound
      · cases heq
      · exact .inr hfound
  issuing := by
    intro entry heq
    cases heq
    refine ⟨Nat.lt_succ_self _, fun key record hget hmem => ?_, fun hmem => ?_⟩
    · exact absurd (h.numbered key record hget _ hmem) (Nat.lt_irrefl _)
    · exact absurd (h.drawn _ hmem) (Nat.lt_irrefl _)
  ended := by
    intro key record hget hdead
    obtain ⟨hsuperseded, hgone⟩ := h.ended key record hget hdead
    refine ⟨hsuperseded, fun hmem => ?_⟩
    rcases List.mem_cons.mp hmem with heq | hold
    · have hlt := h.numbered key record hget _ List.mem_cons_self
      rw [(Prod.mk.inj heq).2] at hlt
      exact absurd hlt (Nat.lt_irrefl _)
    · exact hgone hold
  spent := by
    intro key record hget hretired hmem
    rcases List.mem_cons.mp hmem with heq | hold
    · have hlt := h.numbered key record hget _ List.mem_cons_self
      rw [(Prod.mk.inj heq).2] at hlt
      exact absurd hlt (Nat.lt_irrefl _)
    · exact h.spent key record hget hretired hold
  drawn := h.generate.drawn
  sealed := h.sealed

/-- A record is written over one that has the same digest; a superseded digest goes when it is no
longer registered. -/
theorem rewrite (h : Kept none state) {record : ProjectPeerGrantRecord} (next : ProjectPeerGrantRecord)
    (hget : state.records.get? record.key = some record) (hkey : next.key = record.key)
    (hroute : next.routeId = record.routeId) (hdigest : next.credentialDigest = record.credentialDigest)
    (hsealed : next.sealedCredential = record.sealedCredential)
    (hcleared : next.supersededCredentialDigest = none)
    (hgone : ∀ digest, record.supersededCredentialDigest = some digest →
      (record.routeId, digest) ∉ state.registered)
    (hdead : next.isLive = false → (record.routeId, record.credentialDigest) ∉ state.registered) :
    Kept none { state with records := state.records.set record.key next } := by
  have hdigests : next.digests = [record.credentialDigest] := by
    unfold ProjectPeerGrantRecord.digests
    rw [hcleared, hdigest]
    rfl
  have hsub : ∀ {digest}, digest ∈ next.digests → digest ∈ record.digests := by
    intro digest hmem
    rw [hdigests] at hmem
    rw [List.mem_singleton.mp hmem]
    exact List.mem_cons_self
  have hcases : ∀ {key found}, (state.records.set record.key next).get? key = some found →
      (key = record.key ∧ found = next) ∨ state.records.get? key = some found := by
    intro key found hfound
    exact (OrderedMap.of_get?_set hfound).imp_right And.right
  refine ⟨?_, ?_, ?_, ?_, ?_, (fun _ heq => by cases heq), ?_, ?_, h.drawn, ?_⟩
  · intro key found hfound
    rcases hcases hfound with ⟨rfl, rfl⟩ | hold
    · exact hkey
    · exact h.keyed key found hold
  · intro key found hfound digest hmem
    rcases hcases hfound with ⟨rfl, rfl⟩ | hold
    · exact h.numbered _ record hget digest (hsub hmem)
    · exact h.numbered key found hold digest hmem
  · intro key found hfound
    rcases hcases hfound with ⟨rfl, rfl⟩ | hold
    · rw [hdigests]
      exact List.nodup_singleton _
    · exact h.apart key found hold
  · intro key found other second digest hfound hsecond hmem hmem'
    rcases hcases hfound with ⟨rfl, rfl⟩ | hold
    · rcases hcases hsecond with ⟨rfl, rfl⟩ | hold'
      · rfl
      · exact h.distinct _ record other second digest hget hold' (hsub hmem) hmem'
    · rcases hcases hsecond with ⟨rfl, rfl⟩ | hold'
      · exact h.distinct key found _ record digest hold hget hmem (hsub hmem')
      · exact h.distinct key found other second digest hold hold' hmem hmem'
  · intro entry hmem
    rcases h.covered entry hmem with heq | ⟨key, found, hfound, hsame, hin⟩
    · cases heq
    · right
      by_cases heq : key = record.key
      · subst heq
        rw [hget] at hfound
        cases hfound
        refine ⟨record.key, next, ?_, hroute.trans hsame, ?_⟩
        · rw [OrderedMap.get?_set, if_pos rfl]
        · rw [hdigests]
          rcases List.mem_cons.mp hin with hlive | hsuperseded
          · exact List.mem_singleton.mpr hlive
          · have hold := Option.mem_toList.mp hsuperseded
            refine absurd hmem ?_
            rw [show entry = (record.routeId, entry.2) by rw [hsame]]
            exact hgone entry.2 hold
      · refine ⟨key, found, ?_, hsame, hin⟩
        rw [OrderedMap.get?_set, if_neg heq]
        exact hfound
  · intro key found hfound hended
    rcases hcases hfound with ⟨rfl, rfl⟩ | hold
    · refine ⟨hcleared, ?_⟩
      rw [hroute, hdigest]
      exact hdead hended
    · exact h.ended key found hold hended
  · intro key found hfound hretired
    rcases hcases hfound with ⟨rfl, rfl⟩ | hold
    · rw [hroute, hdigest]
      rw [hdigest] at hretired
      exact h.spent _ record hget hretired
    · exact h.spent key found hold hretired
  · intro key found hfound
    rcases hcases hfound with ⟨rfl, rfl⟩ | hold
    · rw [hsealed, hroute, hdigest]
      exact h.sealed _ record hget
    · exact h.sealed key found hold

/-- The credential that is being issued gets its record, on the route of the one it replaces. -/
theorem replace {routeId : String} {credential : Nat} (h : Kept (some (routeId, credential)) state)
    (next : ProjectPeerGrantRecord) (retired : List Nat) (hroute : next.routeId = routeId)
    (hdigest : next.credentialDigest = credential) (hlive : next.isLive = true)
    (hsealed : next.sealedCredential.routeId = routeId ∧ next.sealedCredential.credential = credential)
    (hsuperseded : next.supersededCredentialDigest =
      ((state.records.get? next.key).filter (·.isLive)).map (·.credentialDigest))
    (hprior : ∀ prior, state.records.get? next.key = some prior →
      prior.supersededCredentialDigest = none ∧ (prior.isLive = true → prior.routeId = routeId))
    (hretired : ∀ digest ∈ retired, digest ∈ state.retired ∨
      ∃ prior, state.records.get? next.key = some prior ∧ digest = prior.credentialDigest) :
    Kept none { state with records := state.records.set next.key next, retired := retired } := by
  obtain ⟨hdrawn, hunused, hnew⟩ := h.issuing _ rfl
  have hdigests : ∀ {digest}, digest ∈ next.digests → digest = credential ∨
      ∃ prior, state.records.get? next.key = some prior ∧ prior.isLive = true ∧
        digest = prior.credentialDigest := by
    intro digest hmem
    rcases List.mem_cons.mp hmem with heq | hold
    · exact .inl (heq.trans hdigest)
    · rw [hsuperseded] at hold
      obtain ⟨prior, hfound, heq⟩ := Option.map_eq_some_iff.mp (Option.mem_toList.mp hold)
      obtain ⟨hfound, halive⟩ := Option.filter_eq_some_iff.mp hfound
      exact .inr ⟨prior, hfound, halive, heq.symm⟩
  have hcases : ∀ {key found}, (state.records.set next.key next).get? key = some found →
      (key = next.key ∧ found = next) ∨ (key ≠ next.key ∧ state.records.get? key = some found) := by
    intro key found hfound
    exact OrderedMap.of_get?_set hfound
  have hother : ∀ {key found digest}, key ≠ next.key → state.records.get? key = some found →
      digest ∈ found.digests → digest ∉ next.digests := by
    intro key found digest hne hfound hmem hin
    rcases hdigests hin with rfl | ⟨prior, hprior, -, rfl⟩
    · exact hunused key found hfound hmem
    · exact hne (h.distinct key found _ prior _ hfound hprior hmem List.mem_cons_self)
  refine ⟨?_, ?_, ?_, ?_, ?_, (fun _ heq => by cases heq), ?_, ?_, ?_, ?_⟩
  · intro key found hfound
    rcases hcases hfound with ⟨rfl, rfl⟩ | ⟨-, hold⟩
    · rfl
    · exact h.keyed key found hold
  · intro key found hfound digest hmem
    rcases hcases hfound with ⟨rfl, rfl⟩ | ⟨-, hold⟩
    · rcases hdigests hmem with rfl | ⟨prior, hprior, -, rfl⟩
      · exact hdrawn
      · exact h.numbered _ prior hprior _ List.mem_cons_self
    · exact h.numbered key found hold digest hmem
  · intro key found hfound
    rcases hcases hfound with ⟨rfl, rfl⟩ | ⟨-, hold⟩
    · unfold ProjectPeerGrantRecord.digests
      rw [hsuperseded, hdigest]
      cases hfilter : (state.records.get? found.key).filter (·.isLive) with
      | none => exact List.nodup_singleton _
      | some prior =>
        obtain ⟨hprior, -⟩ := Option.filter_eq_some_iff.mp hfilter
        refine List.nodup_cons.mpr ⟨fun hmem => ?_, List.nodup_singleton _⟩
        apply hunused _ prior hprior
        rw [List.mem_singleton.mp hmem]
        exact List.mem_cons_self
    · exact h.apart key found hold
  · intro key found other second digest hfound hsecond hmem hmem'
    rcases hcases hfound with ⟨rfl, rfl⟩ | ⟨hne, hold⟩
    · rcases hcases hsecond with ⟨rfl, rfl⟩ | ⟨hne', hold'⟩
      · rfl
      · exact absurd hmem (hother hne' hold' hmem')
    · rcases hcases hsecond with ⟨rfl, rfl⟩ | ⟨hne', hold'⟩
      · exact absurd hmem' (hother hne hold hmem)
      · exact h.distinct key found other second digest hold hold' hmem hmem'
  · intro entry hmem
    right
    have hself : (state.records.set next.key next).get? next.key = some next := by
      rw [OrderedMap.get?_set, if_pos rfl]
    rcases h.covered entry hmem with heq | ⟨key, found, hfound, hsame, hin⟩
    · cases heq
      exact ⟨next.key, next, hself, hroute, by rw [← hdigest]; exact List.mem_cons_self⟩
    · by_cases heq : key = next.key
      · subst heq
        obtain ⟨hnone, hon⟩ := hprior found hfound
        have hin : entry.2 = found.credentialDigest := by
          unfold ProjectPeerGrantRecord.digests at hin
          rw [hnone] at hin
          exact List.mem_singleton.mp hin
        cases halive : found.isLive with
        | false =>
          have hgone := (h.ended _ found hfound halive).2
          rw [hsame, ← hin] at hgone
          exact absurd hmem hgone
        | true =>
          refine ⟨next.key, next, hself, ?_, ?_⟩
          · rw [hroute, ← hon halive, hsame]
          · apply List.mem_cons_of_mem
            rw [hsuperseded, hfound, Option.filter_some, if_pos halive, hin]
            exact List.mem_singleton_self _
      · refine ⟨key, found, ?_, hsame, hin⟩
        rw [OrderedMap.get?_set, if_neg heq]
        exact hfound
  · intro key found hfound hended
    rcases hcases hfound with ⟨rfl, rfl⟩ | ⟨-, hold⟩
    · rw [hlive] at hended
      cases hended
    · exact h.ended key found hold hended
  · intro key found hfound hmem
    rcases hcases hfound with ⟨rfl, rfl⟩ | ⟨hne, hold⟩
    · rw [hdigest] at hmem
      rcases hretired _ hmem with hin | ⟨prior, hprior, heq⟩
      · exact absurd hin hnew
      · exact absurd (heq ▸ List.mem_cons_self) (hunused _ prior hprior)
    · rcases hretired _ hmem with hin | ⟨prior, hprior, heq⟩
      · exact h.spent key found hold hin
      · exact absurd (h.distinct key found _ prior _ hold hprior (heq ▸ List.mem_cons_self)
          List.mem_cons_self) hne
  · intro digest hmem
    rcases hretired digest hmem with hin | ⟨prior, hprior, rfl⟩
    · exact h.drawn digest hin
    · exact h.numbered _ prior hprior _ List.mem_cons_self
  · intro key found hfound
    rcases hcases hfound with ⟨rfl, rfl⟩ | ⟨-, hold⟩
    · rw [hroute, hdigest]
      exact hsealed
    · exact h.sealed key found hold

end Kept

section Calls

variable {state : RemoteAccess}

theorem ends_perform {call : Call} {effect : RemoteAccess → RemoteAccess}
    {Q : PUnit → RemoteAccess → Prop} {E : GrantError → RemoteAccess → Prop}
    (hok : Q ⟨⟩ (effect state)) (hrefused : call = .refused → E .call state)
    (hlost : call = .lost → E .call (effect state)) : Ends (perform call effect) Q E state := by
  cases call with
  | done => exact hok
  | refused => exact hrefused rfl
  | lost => exact hlost rfl

theorem put_ends {record next : ProjectPeerGrantRecord} {call : Call}
    {Q : PUnit → RemoteAccess → Prop} {E : GrantError → RemoteAccess → Prop}
    (hget : state.records.get? record.key = some record) (hkey : next.key = record.key)
    (hdigest : next.credentialDigest = record.credentialDigest)
    (hok : Q ⟨⟩ { state with records := state.records.set record.key next }) (hrefused : E .call state)
    (hlost : E .call { state with records := state.records.set record.key next }) :
    Ends (putProjectPeerGrant next call) Q E state := by
  have hretired : ((state.records.get? next.key).elim [] fun prior =>
      if prior.credentialDigest = next.credentialDigest then [] else [prior.credentialDigest]) ++
        state.retired = state.retired := by
    rw [hkey, hget, Option.elim_some, if_pos hdigest.symm]
    rfl
  unfold putProjectPeerGrant
  apply ends_perform
  · rw [hretired, hkey]
    exact hok
  · exact fun _ => hrefused
  · intro _
    rw [hretired, hkey]
    exact hlost

end Calls

theorem isEligible_congr {state after : RemoteAccess} (hdesktops : after.desktops = state.desktops)
    (hmembers : after.members = state.members) (record : ProjectPeerGrantRecord) :
    after.isEligible record = state.isEligible record := by
  unfold RemoteAccess.isEligible RemoteAccess.roster
  rw [hdesktops, hmembers]

structure Descends (before record : ProjectPeerGrantRecord) : Prop where
  same : record = { before with
    supersededCredentialDigest := record.supersededCredentialDigest, revokedAt := record.revokedAt }
  alive : record.isLive = true → before.isLive = true

theorem Descends.refl (record : ProjectPeerGrantRecord) : Descends record record := ⟨rfl, fun h => h⟩

theorem Descends.trans {a b c : ProjectPeerGrantRecord} (hab : Descends a b) (hbc : Descends b c) :
    Descends a c where
  same := by
    rw [hbc.same, hab.same]
  alive := fun h => hab.alive (hbc.alive h)

theorem Descends.eligible {before record : ProjectPeerGrantRecord} (h : Descends before record)
    (state : RemoteAccess) : state.isEligible record = state.isEligible before := by
  rw [h.same]
  rfl

/-- Every live grant of the scope that is eligible still has its digest at the relay. -/
def Carried (projectId : Option PlatformId) (state : RemoteAccess) : Prop :=
  ∀ key record, state.records.get? key = some record → record.inScope projectId = true →
    record.isLive = true → state.isEligible record = true → state.carries record = true

structure Reconciling (projectId : Option PlatformId) (start : RemoteAccess)
    (left : List ProjectPeerGrantRecord) (state : RemoteAccess) : Prop where
  kept : Kept none state
  desktops : state.desktops = start.desktops
  members : state.members = start.members
  stored : ∀ record ∈ left, state.records.get? record.key = some record
  nodup : (left.map (·.key)).Nodup
  same : ∀ key record, state.records.get? key = some record →
    ∃ before, start.records.get? key = some before ∧ Descends before record
  carried : Carried projectId state
  settled : ∀ key record, state.records.get? key = some record → record.inScope projectId = true →
    record ∉ left → record.supersededCredentialDigest = none ∧
      (record.isLive = true → state.isEligible record = true)

namespace Reconciling

variable {projectId : Option PlatformId} {start state : RemoteAccess}
  {record next : ProjectPeerGrantRecord} {rest : List ProjectPeerGrantRecord}

theorem write (h : Reconciling projectId start (record :: rest) state)
    {registered : List (String × Nat)} {retired : List Nat}
    (hkept : Kept none { state with
      records := state.records.set record.key next, registered := registered, retired := retired })
    (hdescends : Descends record next)
    (hregistered : ∀ entry ∈ state.registered, entry.2 ∉ record.digests → entry ∈ registered)
    (hown : next.isLive = true → (record.routeId, record.credentialDigest) ∈ state.registered →
      (record.routeId, record.credentialDigest) ∈ registered) :
    Reconciling projectId start (next :: rest) { state with
      records := state.records.set record.key next, registered := registered, retired := retired } := by
  have hkey : next.key = record.key := by
    rw [hdescends.same]
    rfl
  have hself := h.stored record List.mem_cons_self
  have hfirst := (List.nodup_cons.mp h.nodup).1
  have hcases : ∀ {key found}, (state.records.set record.key next).get? key = some found →
      (key = record.key ∧ found = next) ∨ (key ≠ record.key ∧ state.records.get? key = some found) := by
    intro key found hfound
    exact OrderedMap.of_get?_set hfound
  refine ⟨hkept, h.desktops, h.members, ?_, ?_, ?_, ?_, ?_⟩
  · intro found hmem
    dsimp only
    rw [OrderedMap.get?_set]
    rcases List.mem_cons.mp hmem with rfl | hrest
    · rw [if_pos hkey]
    · rw [if_neg]
      · exact h.stored found (List.mem_cons_of_mem _ hrest)
      · exact fun heq => hfirst (List.mem_map.mpr ⟨found, hrest, heq⟩)
  · rw [List.map_cons, hkey]
    exact h.nodup
  · intro key found hfound
    rcases hcases hfound with ⟨rfl, rfl⟩ | ⟨-, hold⟩
    · obtain ⟨before, hbefore, hsame⟩ := h.same _ record hself
      exact ⟨before, hbefore, hsame.trans hdescends⟩
    · exact h.same key found hold
  · intro key found hfound hscope halive heligible
    rcases hcases hfound with ⟨rfl, rfl⟩ | ⟨hne, hold⟩
    · have hscope' : record.inScope projectId = true := by
        rw [hdescends.same] at hscope
        exact hscope
      have heligible' : state.isEligible record = true := by
        rw [← hdescends.eligible state]
        exact heligible
      have hcarries := of_decide_eq_true
        (h.carried _ record hself hscope' (hdescends.alive halive) heligible')
      apply decide_eq_true
      rw [hdescends.same]
      exact hown halive hcarries
    · have hcarries := of_decide_eq_true (h.carried key found hold hscope halive heligible)
      refine decide_eq_true (hregistered _ hcarries fun hmem => hne ?_)
      exact h.kept.distinct key found _ record _ hold hself List.mem_cons_self hmem
  · intro key found hfound hscope hout
    rcases hcases hfound with ⟨rfl, rfl⟩ | ⟨hne, hold⟩
    · exact absurd List.mem_cons_self hout
    · refine h.settled key found hold hscope fun hmem => ?_
      rcases List.mem_cons.mp hmem with rfl | hrest
      · exact hne (h.kept.keyed key found hold).symm
      · exact hout (List.mem_cons_of_mem _ hrest)

theorem drop (h : Reconciling projectId start (record :: rest) state)
    (hcleared : record.supersededCredentialDigest = none)
    (heligible : record.isLive = true → state.isEligible record = true) :
    Reconciling projectId start rest state where
  kept := h.kept
  desktops := h.desktops
  members := h.members
  stored := fun found hmem => h.stored found (List.mem_cons_of_mem _ hmem)
  nodup := (List.nodup_cons.mp h.nodup).2
  same := h.same
  carried := h.carried
  settled := by
    intro key found hfound hscope hout
    by_cases heq : found = record
    · subst heq
      exact ⟨hcleared, heligible⟩
    · exact h.settled key found hfound hscope fun hmem =>
        (List.mem_cons.mp hmem).elim heq hout

theorem superseded_ends (h : Reconciling projectId start (record :: rest) state)
    (calls : RecordCalls) :
    Ends (revokeProjectPeerSupersededDigest record calls)
      (fun retained after => Reconciling projectId start (retained :: rest) after ∧
        retained.supersededCredentialDigest = none ∧ Descends record retained)
      (fun _ after => Kept none after) state := by
  have hself := h.stored record List.mem_cons_self
  unfold revokeProjectPeerSupersededDigest
  cases hsuperseded : record.supersededCredentialDigest with
  | none => exact ⟨h, hsuperseded, .refl record⟩
  | some superseded =>
    have hmem : superseded ∈ record.digests := by
      unfold ProjectPeerGrantRecord.digests
      rw [hsuperseded]
      exact List.mem_cons_of_mem _ (List.mem_singleton_self _)
    have hne : record.credentialDigest ≠ superseded := by
      have hapart := h.kept.apart _ record hself
      unfold ProjectPeerGrantRecord.digests at hapart
      rw [hsuperseded] at hapart
      exact fun heq => (List.nodup_cons.mp hapart).1 (heq ▸ List.mem_singleton_self _)
    have hrevoked := h.kept.revoke record.routeId superseded (fun _ heq => by cases heq)
      (h.kept.numbered _ record hself _ hmem) (by
        intro key found hfound heq
        have hsame := h.kept.distinct key found _ record superseded hfound hself
          (heq ▸ List.mem_cons_self) hmem
        subst hsame
        rw [hself] at hfound
        cases hfound
        rfl)
    refine Ends.bind (ends_perform (Q := fun _ after => after = { state with
      registered := state.registered.filter (· ≠ (record.routeId, superseded))
      retired := superseded :: state.retired }) rfl (fun _ => h.kept) (fun _ => hrevoked)) ?_
    rintro _ _ rfl
    have hkept := hrevoked.rewrite { record with supersededCredentialDigest := none } hself rfl rfl rfl
      rfl rfl
      (by
        intro digest heq hin
        rw [hsuperseded] at heq
        cases heq
        exact of_decide_eq_true (List.mem_filter.mp hin).2 rfl)
      (by
        intro hdead hin
        exact (h.kept.ended _ record hself hdead).2 (List.mem_filter.mp hin).1)
    refine Ends.bind (put_ends hself rfl rfl ?_ hrevoked hkept) fun _ after hafter => hafter
    have hdescends : Descends record { record with supersededCredentialDigest := none } :=
      ⟨rfl, fun halive => halive⟩
    refine ⟨h.write hkept hdescends ?_ ?_, rfl, hdescends⟩
    · intro entry hin hout
      refine List.mem_filter.mpr ⟨hin, decide_eq_true fun heq => hout ?_⟩
      rw [heq]
      exact hmem
    · intro _ hin
      exact List.mem_filter.mpr ⟨hin, decide_eq_true fun heq => hne (Prod.mk.inj heq).2⟩

theorem revoked_ends (h : Reconciling projectId start (record :: rest) state)
    (hcleared : record.supersededCredentialDigest = none) (revokedAt : Nat) (calls : RecordCalls) :
    Ends (revokeProjectPeerGrantRecord record revokedAt calls)
      (fun _ after => Reconciling projectId start rest after)
      (fun _ after => Kept none after) state := by
  have hself := h.stored record List.mem_cons_self
  have hrevoked := h.kept.revoke record.routeId record.credentialDigest (fun _ heq => by cases heq)
    (h.kept.numbered _ record hself _ List.mem_cons_self) (by
      intro key found hfound heq
      have hsame := h.kept.distinct key found _ record _ hfound hself
        List.mem_cons_self (heq ▸ List.mem_cons_self)
      subst hsame
      rw [hself] at hfound
      cases hfound
      rfl)
  unfold revokeProjectPeerGrantRecord
  refine Ends.bind (ends_perform (Q := fun _ after => after = { state with
    registered := state.registered.filter (· ≠ (record.routeId, record.credentialDigest))
    retired := record.credentialDigest :: state.retired }) rfl (fun _ => h.kept) (fun _ => hrevoked)) ?_
  rintro _ _ rfl
  have hgone : (record.routeId, record.credentialDigest) ∉
      state.registered.filter (· ≠ (record.routeId, record.credentialDigest)) :=
    fun hin => of_decide_eq_true (List.mem_filter.mp hin).2 rfl
  have hkept := hrevoked.rewrite { record with
    supersededCredentialDigest := none, revokedAt := some revokedAt } hself rfl rfl rfl rfl rfl
    (by
      intro digest heq
      rw [hcleared] at heq
      cases heq)
    (fun _ => hgone)
  refine put_ends hself rfl rfl ?_ hrevoked hkept
  refine (h.write hkept ⟨rfl, nofun⟩ ?_ nofun).drop rfl nofun
  intro entry hin hout
  refine List.mem_filter.mpr ⟨hin, decide_eq_true fun heq => hout ?_⟩
  rw [heq]
  exact List.mem_cons_self

theorem live_ends (h : Reconciling projectId start (record :: rest) state)
    (hcleared : record.supersededCredentialDigest = none) (now : Nat) (calls : RecordCalls) :
    Ends (reconcileLive now calls record)
      (fun _ after => Reconciling projectId start rest after)
      (fun _ after => Kept none after) state := by
  have hrevoke := h.revoked_ends hcleared now calls
  unfold reconcileLive
  refine ends_bind.mpr ?_
  change Ends (ite _ _ _) _ _ state
  split
  · exact hrevoke
  · rename_i hroute
    refine ends_bind.mpr (ends_ask.mpr ?_)
    cases hroster : state.roster record.grantorAccountId record.projectId with
    | none => exact hrevoke
    | some members =>
      dsimp only
      split
      · rename_i hmember
        refine h.drop hcleared fun _ => ?_
        unfold RemoteAccess.isEligible
        rw [hroster, Option.any_some, decide_eq_true hmember, decide_eq_true (not_not.mp hroute)]
        rfl
      · exact hrevoke

theorem record_ends (h : Reconciling projectId start (record :: rest) state) (now : Nat)
    (calls : String → RecordCalls) :
    Ends (reconcileRecord now calls record)
      (fun _ after => Reconciling projectId start rest after)
      (fun _ after => Kept none after) state := by
  unfold reconcileRecord
  refine (h.superseded_ends (calls record.key)).bind ?_
  rintro retained after ⟨hafter, hcleared, -⟩
  split
  · rename_i hdead
    refine hafter.drop hcleared fun halive => ?_
    unfold ProjectPeerGrantRecord.isLive at halive
    rw [Option.isNone_iff_eq_none.mp halive] at hdead
    cases hdead
  · exact hafter.live_ends hcleared now (calls record.key)

end Reconciling

theorem values_keys {state : RemoteAccess} (h : Kept none state) :
    state.records.values.map (·.key) = state.records.keys := by
  unfold OrderedMap.values OrderedMap.keys
  rw [List.map_map]
  apply List.map_congr_left
  intro entry hmem
  exact h.keyed entry.1 entry.2 (OrderedMap.mem_entries_iff.mp hmem)

theorem mem_listed {state : RemoteAccess} {projectId : Option PlatformId}
    {record : ProjectPeerGrantRecord} : record ∈ state.listed projectId ↔
      record ∈ state.records.values ∧ record.inScope projectId = true := by
  unfold RemoteAccess.listed
  rw [List.mem_insertionSort, List.mem_filter]

theorem get_of_values {state : RemoteAccess} (h : Kept none state) {record : ProjectPeerGrantRecord}
    (hmem : record ∈ state.records.values) : state.records.get? record.key = some record := by
  obtain ⟨key, hget⟩ := OrderedMap.mem_values_iff.mp hmem
  rw [h.keyed key record hget]
  exact hget

/-- A reconciliation that succeeds leaves nothing to do in its scope; one that fails loses nothing. -/
theorem reconcile_ends {state : RemoteAccess} (h : Kept none state) {projectId : Option PlatformId}
    (hcarried : Carried projectId state) (now : Nat) (calls : ReconcileCalls) :
    Ends (reconcileProjectPeerGrants projectId now calls)
      (fun _ after => Reconciling projectId state [] after)
      (fun _ after => Kept none after) state := by
  unfold reconcileProjectPeerGrants
  refine ends_bind.mpr (ends_guarded.mpr ⟨fun _ => ?_, fun _ => h⟩)
  refine ends_bind.mpr ?_
  refine ends_forM (fun left after => Reconciling projectId state left after)
    (fun record rest after hafter => hafter.record_ends now calls.records) ?_
  refine ⟨h, rfl, rfl, ?_, ?_, fun key record hget => ⟨record, hget, .refl record⟩, hcarried, ?_⟩
  · intro record hmem
    exact get_of_values h (mem_listed.mp hmem).1
  · have hperm : (state.listed projectId).Perm (state.records.values.filter (·.inScope projectId)) :=
      List.perm_insertionSort _ _
    refine (hperm.map _).nodup_iff.mpr ?_
    refine (List.filter_sublist.map _).nodup ?_
    rw [values_keys h]
    exact state.records.nodup
  · intro key record hget hscope hout
    exact absurd (mem_listed.mpr ⟨OrderedMap.mem_values_iff.mpr ⟨key, hget⟩, hscope⟩) hout

end Harness.RemoteAccess
