import Mathlib.Tactic
import Harness.Account.BackendSound

namespace Harness.Account

open Harness.Foundation

namespace MemoryAccountBackend

/-- Every session of the first state is in the second, as it was or with a higher revision. -/
def Carried (s t : MemoryAccountBackend) : Prop :=
  ∀ id session, s.sessions.get? id = some session → ∃ session', t.sessions.get? id = some session' ∧
    (session' = session ∨ session.revision < session'.revision)

def Rising (s t : MemoryAccountBackend) : Prop :=
  ∀ id session session', s.sessions.get? id = some session → t.sessions.get? id = some session' →
    session' = session ∨ session.revision < session'.revision

def AttemptsMove (s t : MemoryAccountBackend) : Prop :=
  ∀ id attempt', t.attempts.get? id = some attempt' → ∃ attempt, s.attempts.get? id = some attempt ∧
    (attempt.status = .used → attempt'.status = .used)

def Raised (s t : MemoryAccountBackend) (id : AccountSessionId) : Prop :=
  ∃ session session', s.sessions.get? id = some session ∧ t.sessions.get? id = some session' ∧
    session.revision < session'.revision

/-- An active session that the second state has inactive, with a higher revision. -/
def Ended (s t : MemoryAccountBackend) (id : AccountSessionId) : Prop :=
  ∃ session session', s.sessions.get? id = some session ∧ session.active = true ∧
    t.sessions.get? id = some session' ∧ session'.active = false ∧
    session.revision < session'.revision

def rotatedBy : BackendOp → BackendReply → List AccountSessionId
  | .rotateRefresh sessionId _ _, .rotated (some _) => [sessionId]
  | _, _ => []

/-- The sessions that one operation revoked: by what it replied, or because they are active and
of the installation or the Account that the operation is about. -/
def revokedBy (s : MemoryAccountBackend) : BackendOp → BackendReply → List AccountSessionId
  | .revokeSession sessionId, .revoked true => [sessionId]
  | .consumeAuthorizedAttempt .., .created created => created.replacedSessionId.toList
  | .revokeMobileInstallation initiating installationId, .invalidations _ =>
    (s.sessions.entries.filter fun entry => live initiating.accountId .mobile entry.2 &&
      entry.2.installationId = installationId).map Prod.fst
  | .beginAccountDeletion record _, .deletion _ =>
    (s.sessions.entries.filter fun entry => entry.2.active &&
      entry.2.accountId = record.accountId).map Prod.fst
  | _, _ => []

variable {s t u : MemoryAccountBackend}

theorem Carried.refl (s : MemoryAccountBackend) : Carried s s :=
  fun _ session h => ⟨session, h, .inl rfl⟩

theorem Carried.trans (h : Carried s t) (h' : Carried t u) : Carried s u := by
  intro id session hget
  obtain ⟨middle, hmiddle, hle⟩ := h id session hget
  obtain ⟨last, hlast, hle'⟩ := h' id middle hmiddle
  refine ⟨last, hlast, ?_⟩
  rcases hle with rfl | hlt
  · exact hle'
  · rcases hle' with rfl | hlt'
    · exact .inr hlt
    · exact .inr (hlt.trans hlt')

theorem Carried.rising (h : Carried s t) : Rising s t := by
  intro id session session' hget hget'
  obtain ⟨last, hlast, hle⟩ := h id session hget
  rw [hlast] at hget'
  cases hget'
  exact hle

theorem Carried.of_eq (h : t.sessions = s.sessions) : Carried s t := by
  intro id session hget
  exact ⟨session, h ▸ hget, .inl rfl⟩

theorem Rising.refl (s : MemoryAccountBackend) : Rising s s := (Carried.refl s).rising

theorem AttemptsMove.of_eq (h : t.attempts = s.attempts) : AttemptsMove s t :=
  fun _ attempt hget => ⟨attempt, h ▸ hget, fun hused => hused⟩

theorem Carried.set {id : AccountSessionId} {session session' : SessionRecord}
    (hget : s.sessions.get? id = some session) (hlt : session.revision < session'.revision)
    (hsessions : t.sessions = s.sessions.set id session') : Carried s t := by
  intro other found hfound
  rw [hsessions, OrderedMap.get?_set]
  by_cases hsame : other = id
  · subst hsame
    rw [hget] at hfound
    cases hfound
    exact ⟨session', if_pos rfl, .inr hlt⟩
  · exact ⟨found, (if_neg hsame).trans hfound, .inl rfl⟩

theorem Carried.ended (h : Carried s t) {id : AccountSessionId} {session : SessionRecord}
    (hget : s.sessions.get? id = some session) (hactive : session.active = true)
    (hidle : ∀ session', t.sessions.get? id = some session' → session'.active = false) :
    Ended s t id := by
  obtain ⟨session', hget', hchange⟩ := h id session hget
  have hactive' := hidle session' hget'
  rcases hchange with rfl | hlt
  · rw [hactive] at hactive'
    cases hactive'
  · exact ⟨session, session', hget, hactive, hget', hactive', hlt⟩

theorem carried_revoke (s : MemoryAccountBackend) (id : AccountSessionId) :
    Carried s (s.revoke id) := by
  rcases revoke_cases s id with ⟨heq, _⟩ | ⟨session, hget, _, heq⟩
  · rw [heq]
    exact .refl s
  · rw [heq]
    exact .set hget (Nat.lt_succ_self session.revision) rfl

theorem carried_foldl_revoke (s : MemoryAccountBackend) (ids : List AccountSessionId) :
    Carried s (ids.foldl revoke s) := by
  induction ids generalizing s with
  | nil => exact .refl s
  | cons id ids ih => exact (carried_revoke s id).trans (ih (s.revoke id))

theorem carried_foldl_revokeInstallation (s : MemoryAccountBackend) (current : SessionRecord)
    (installationId : InstallationId) (ids : List AccountSessionId) :
    Carried s (ids.foldl (revokeInstallation current installationId) s) := by
  induction ids generalizing s with
  | nil => exact .refl s
  | cons id ids ih =>
    apply Carried.trans _ (ih _)
    exact (carried_revoke s id).trans (.of_eq rfl)

theorem active_foldl_revokeInstallation {current : SessionRecord} {installationId : InstallationId}
    {ids : List AccountSessionId} {other : AccountSessionId} {session : SessionRecord}
    (h : (ids.foldl (revokeInstallation current installationId) s).sessions.get? other = some session)
    (hactive : session.active = true) :
    other ∉ ids ∧ s.sessions.get? other = some session := by
  induction ids generalizing s with
  | nil => exact ⟨List.not_mem_nil, h⟩
  | cons id ids ih =>
    obtain ⟨hnot, hget⟩ := ih h
    have hrevoked : (s.revoke id).sessions.get? other = some session := hget
    obtain ⟨hne, hbefore⟩ := active_revoke hrevoked hactive
    exact ⟨by simp [hne, hnot], hbefore⟩

theorem Sound.foldl_revokeInstallation (h : Sound s) (current : SessionRecord)
    (installationId : InstallationId) (ids : List AccountSessionId) :
    Sound (ids.foldl (revokeInstallation current installationId) s) := by
  induction ids generalizing s with
  | nil => exact h
  | cons id ids ih => exact ih ((h.revoke id).congr rfl rfl rfl rfl)

theorem attempts_foldl_revokeInstallation (s : MemoryAccountBackend) (current : SessionRecord)
    (installationId : InstallationId) (ids : List AccountSessionId) :
    (ids.foldl (revokeInstallation current installationId) s).attempts = s.attempts := by
  induction ids generalizing s with
  | nil => rfl
  | cons id ids ih =>
    rw [List.foldl_cons, ih]
    exact attempts_revoke s id

theorem attemptsMove_cancelAttempts (s : MemoryAccountBackend) (current : SessionRecord)
    (installationId : InstallationId) (account : AccountRecord) :
    AttemptsMove s (s.cancelAttempts current installationId account) := by
  intro id attempt' hget
  rw [cancelAttempts, OrderedMap.get?_mapValues] at hget
  obtain ⟨attempt, hattempt, rfl⟩ := Option.map_eq_some_iff.mp hget
  refine ⟨attempt, hattempt, ?_⟩
  intro hused
  split
  · rfl
  · exact hused

theorem attemptsMove_createSession {id : LoginAttemptId} {attempt : LoginAttemptRecord}
    (hattempts : t.attempts = s.attempts) (hget : s.attempts.get? id = some attempt)
    (session : SessionRecord) : AttemptsMove s (t.createSession id attempt session) := by
  intro other attempt' hget'
  rw [createSession, hattempts, OrderedMap.get?_set] at hget'
  split at hget'
  · rename_i hsame
    cases hget'
    subst hsame
    exact ⟨attempt, hget, fun _ => rfl⟩
  · exact ⟨attempt', hget', fun hused => hused⟩

theorem used_createSession (s : MemoryAccountBackend) (id : LoginAttemptId)
    (attempt : LoginAttemptRecord) (session : SessionRecord) :
    ∀ found, (s.createSession id attempt session).attempts.get? id = some found →
      found.status = .used := by
  intro found hget
  rw [createSession, OrderedMap.get?_set, if_pos rfl] at hget
  cases hget
  rfl

/-- The condition under which an authorized attempt keeps the quota: the login is refused for a
deletion; it replaces a session of the same Account and kind; the Account has room; or it is refused
for the quota and the Account is stored as the identity describes it. -/
def Fits (s : MemoryAccountBackend) (attempt : LoginAttemptRecord) (identity : GitHubIdentity)
    (accountUuid : PlatformAccountId) : Prop :=
  let accountId := s.chosenAccountId attempt identity accountUuid
  (s.accountIndex.get? (identityKey attempt.identityNamespace
      identity.providerSubject)).any s.deleting = true ∨
    s.activeInstallationCount accountId attempt.installationKind <
      installationLimit attempt.installationKind ∨
    match s.replacedSessionId (keyOf attempt) with
    | some replaced =>
      (s.sessions.get? replaced).any (live accountId attempt.installationKind) = true
    | none => s.accounts.get? accountId = some (accountOf attempt identity accountId)

/-- What the random source and the callers promise about an operation: new ids and hashes are new,
a deletion is of the Account of the session that starts it, and progress is saved for an unfinished
deletion of the same Account. -/
def Promised (s : MemoryAccountBackend) : BackendOp → Prop
  | .consumeAuthorizedAttempt _ refreshHash _ accountUuid sessionUuid =>
    s.sessions.get? sessionUuid = none ∧
      (∀ session ∈ s.sessions.values,
        session.refreshHash ≠ refreshHash ∧ session.accountId ≠ accountUuid) ∧
      ∀ record ∈ s.deletions.values, record.accountId ≠ accountUuid
  | .rotateRefresh _ _ replacementHash =>
    ∀ session ∈ s.sessions.values, session.refreshHash ≠ replacementHash
  | .beginAccountDeletion record initiating =>
    ((s.sessions.get? initiating.id).all fun session => session.accountId = record.accountId) = true
  | .saveAccountDeletion record =>
    ((s.deletions.get? record.operationId).any fun stored =>
      stored.accountId = record.accountId ∧ stored.status ≠ .complete) = true
  | _ => True

def WithinQuota (s : MemoryAccountBackend) : BackendOp → Prop
  | .consumeAuthorizedAttempt id _ _ accountUuid _ =>
    ∀ attempt ∈ s.attempts.get? id, attempt.status = .authorized →
      ∀ identity ∈ attempt.identity, s.Fits attempt identity accountUuid
  | _ => True

theorem count_unknown {accountId : PlatformAccountId} (kind : InstallationKind)
    (h : ∀ session ∈ s.sessions.values, session.accountId ≠ accountId) :
    s.activeInstallationCount accountId kind = 0 := by
  rw [activeInstallationCount, List.countP_eq_zero]
  intro session hmem hlive
  simp only [live, Bool.and_eq_true, decide_eq_true_eq] at hlive
  exact h session hmem hlive.1.2

theorem selectAccount_same {attempt : LoginAttemptRecord} {identity : GitHubIdentity}
    {accountUuid : PlatformAccountId}
    (hindexed : s.accountIndex.get? (identityKey attempt.identityNamespace
      identity.providerSubject) ≠ none)
    (hstored : s.accounts.get? (s.chosenAccountId attempt identity accountUuid) =
      some (accountOf attempt identity (s.chosenAccountId attempt identity accountUuid))) :
    (s.selectAccount attempt identity accountUuid).2 = s := by
  rw [selectAccount]
  rw [chosenAccountId] at hstored
  cases hget : s.accountIndex.get?
      (identityKey attempt.identityNamespace identity.providerSubject) with
  | none => exact absurd hget hindexed
  | some accountId =>
    rw [hget, Option.getD_some] at hstored
    simp only [OrderedMap.set_same hstored]

theorem not_deleting_chosen {attempt : LoginAttemptRecord} {identity : GitHubIdentity}
    {accountUuid : PlatformAccountId}
    (hindexed : (s.accountIndex.get? (identityKey attempt.identityNamespace
      identity.providerSubject)).any s.deleting = false)
    (hfresh : ∀ record ∈ s.deletions.values, record.accountId ≠ accountUuid)
    {deletionId : AccountDeletionId} {record : AccountDeletionRecord}
    (hrecord : s.deletions.get? deletionId = some record) (hstatus : record.status ≠ .complete) :
    s.chosenAccountId attempt identity accountUuid ≠ record.accountId := by
  rw [chosenAccountId]
  cases hget : s.accountIndex.get?
      (identityKey attempt.identityNamespace identity.providerSubject) with
  | none =>
    intro hsame
    exact hfresh record (OrderedMap.mem_values_iff.mpr ⟨deletionId, hrecord⟩) hsame.symm
  | some accountId =>
    intro hsame
    rw [Option.getD_some] at hsame
    rw [hget, Option.any_some] at hindexed
    have := deleting_iff.mpr ⟨deletionId, record, hrecord, hsame.symm, hstatus⟩
    rw [hindexed] at this
    cases this

theorem sound_consume (h : Sound s) {id : LoginAttemptId} {attempt : LoginAttemptRecord}
    {identity : GitHubIdentity} {refreshHash : String} {refreshExpiresAt : Int}
    {accountUuid : PlatformAccountId} {sessionUuid : AccountSessionId}
    (hpromised : s.Promised
      (.consumeAuthorizedAttempt id refreshHash refreshExpiresAt accountUuid sessionUuid))
    (hfits : s.Fits attempt identity accountUuid) :
    Sound (s.consume id attempt identity refreshHash refreshExpiresAt accountUuid sessionUuid).2 := by
  obtain ⟨hsessions, hrefresh, hinstallation, hdeletions, _⟩ :=
    selectAccount_frame s attempt identity accountUuid
  have hselected : Sound (s.selectAccount attempt identity accountUuid).2 :=
    h.congr hsessions hrefresh hinstallation hdeletions
  obtain ⟨hnew, hvalues, hdeleted⟩ := hpromised
  have hhash : ∀ other found, s.sessions.get? other = some found →
      found.refreshHash ≠ refreshHash := fun other found hget =>
    (hvalues found (OrderedMap.mem_values_iff.mpr ⟨other, hget⟩)).1
  rcases consume_cases s id attempt identity refreshHash refreshExpiresAt accountUuid
    sessionUuid with ⟨_, _, heq⟩ | ⟨hindexed, ⟨replaced, _, hsome, heq⟩ |
      ⟨hnone, ⟨_, _, heq⟩ | ⟨hroom, _, heq⟩⟩⟩
  · rw [heq]
    exact h
  · rw [heq]
    obtain ⟨hindex, found, hfound, hlive⟩ := replacedSessionId_eq_some.mp hsome
    have hget : (s.selectAccount attempt identity accountUuid).2.sessions.get? replaced =
        some found := by rw [hsessions, hfound]
    have hcount := countP_revoke hget hlive (s.chosenAccountId attempt identity accountUuid)
      attempt.installationKind
    rw [count_selectAccount] at hcount
    apply (hselected.revoke replaced).createSession rfl rfl rfl
    · rw [get?_revoke_none, hsessions]
      exact hnew
    · intro other other' hother
      by_cases hne : other = replaced
      · subst hne
        rcases revoke_cases (s.selectAccount attempt identity accountUuid).2 other with
          ⟨_, hidle⟩ | ⟨revoked, hrevoked, _, hrevoke⟩
        · rw [hidle found hget] at hlive
          cases hlive
        · rw [hrevoke, OrderedMap.get?_set, if_pos rfl] at hother
          cases hother
          rw [hsessions] at hrevoked
          exact hhash other revoked hrevoked
      · rw [get?_revoke hne, hsessions] at hother
        exact hhash other other' hother
    · intro other other' hother hactive
      obtain ⟨hne, hother⟩ := active_revoke hother hactive
      rw [hsessions] at hother
      exact h.sole_of_some hsome hother hactive hne
    · change _ < installationLimit attempt.installationKind
      rcases hfits with hbusy | hroom | hmatch
      · rw [hindexed] at hbusy
        cases hbusy
      · refine Nat.lt_of_le_of_lt (countP_revoke_le _ replaced _ _) ?_
        rw [count_selectAccount]
        exact hroom
      · simp only [hsome, hfound, Option.any_some] at hmatch
        have hone : [found].countP (live (s.chosenAccountId attempt identity accountUuid)
            attempt.installationKind) = 1 := by
          rw [List.countP_singleton]
          exact if_pos hmatch
        have hquota := h.quota (s.chosenAccountId attempt identity accountUuid)
          attempt.installationKind
        change (revoke _ replaced).activeInstallationCount
          (s.chosenAccountId attempt identity accountUuid) attempt.installationKind < _
        omega
    · intro deletionId record hrecord hstatus
      rw [deletions_revoke, hdeletions] at hrecord
      exact not_deleting_chosen hindexed hdeleted hrecord hstatus
  · rw [heq]
    exact hselected
  · rw [heq]
    apply hselected.createSession rfl rfl rfl
    · rw [hsessions]
      exact hnew
    · rw [hsessions]
      exact hhash
    · rw [hsessions]
      intro other found hother hactive
      exact h.sole_of_none hnone hother hactive
    · rw [count_selectAccount]
      exact hroom
    · intro deletionId record hrecord hstatus
      rw [hdeletions] at hrecord
      exact not_deleting_chosen hindexed hdeleted hrecord hstatus

theorem sound_beginAccountDeletion (h : Sound s) {record : AccountDeletionRecord}
    {initiating : SessionRecord} : Sound (s.beginAccountDeletion record initiating).2 := by
  rcases beginAccountDeletion_cases s record initiating with ⟨_, heq⟩ | ⟨current, _, _, heq⟩
  · rw [heq]
    exact h
  · rw [heq]
    have hrevoked := h.foldl_revoke
      ((s.sessions.values.filter fun session => session.accountId = record.accountId).map
        SessionRecord.id)
    refine { hrevoked with deleting := ?_ }
    intro id found hfound hstatus sessionId session hget hactive
    simp only [OrderedMap.get?_set] at hfound
    obtain ⟨hnot, hbefore⟩ := active_foldl_revoke hget hactive
    split at hfound
    · cases hfound
      intro hsame
      apply hnot
      apply List.mem_map.mpr
      refine ⟨session, ?_, h.keyed sessionId session hbefore⟩
      apply List.mem_filter.mpr
      exact ⟨OrderedMap.mem_values_iff.mpr ⟨sessionId, hbefore⟩, decide_eq_true hsame⟩
    · exact h.deleting id found hfound hstatus sessionId session hbefore hactive

theorem sound_saveAccountDeletion (h : Sound s) {record : AccountDeletionRecord}
    (hpromised : s.Promised (.saveAccountDeletion record)) :
    Sound (s.saveAccountDeletion record) := by
  refine { h with deleting := ?_ }
  intro id found hfound hstatus
  simp only [saveAccountDeletion, OrderedMap.get?_set] at hfound
  split at hfound
  · cases hfound
    obtain ⟨stored, hstored, hsame⟩ := (Option.any_eq_true _ _).mp hpromised
    obtain ⟨haccount, hunfinished⟩ := of_decide_eq_true hsame
    rw [← haccount]
    exact h.deleting _ stored hstored hunfinished
  · exact h.deleting id found hfound hstatus

theorem Sound.eraseAttempts (h : Sound s) (record : AccountDeletionRecord)
    (account : Option AccountRecord) (installations : List InstallationId) :
    Sound (s.eraseAttempts record account installations) :=
  h.congr rfl rfl rfl rfl

structure ErasedFrom (s t : MemoryAccountBackend) : Prop where
  sound : Sound s → Sound t
  deletions : t.deletions = s.deletions
  attempts : AttemptsMove s t
  sessions : ∀ id session, t.sessions.get? id = some session → s.sessions.get? id = some session

theorem completeAccountDeletion_cases (s : MemoryAccountBackend) (id : AccountDeletionId)
    (completedAt : Int) :
    (∃ error, s.completeAccountDeletion id completedAt = (.error error, s)) ∨
      ∃ (record : AccountDeletionRecord) (t : MemoryAccountBackend), ErasedFrom s t ∧
        s.completeAccountDeletion id completedAt = (.ok (),
          { t with deletions := t.deletions.set id (record.finish completedAt) }) := by
  rw [completeAccountDeletion]
  cases s.deletions.get? id with
  | none => exact .inl ⟨_, rfl⟩
  | some record =>
    refine .inr ⟨record, _, ?_, rfl⟩
    constructor
    · intro h
      apply Sound.eraseAttempts
      apply Sound.foldl_eraseSession
      exact h.congr rfl rfl rfl rfl
    · simp only [eraseAttempts, deletions_foldl_eraseSession]
    · intro attemptId attempt hget
      simp only [eraseAttempts, OrderedMap.get?_filter, attempts_foldl_eraseSession] at hget
      exact ⟨attempt, (Option.filter_eq_some_iff.mp hget).1, fun hused => hused⟩
    · intro sessionId session hget
      simp only [eraseAttempts, get?_foldl_eraseSession] at hget
      split at hget
      · cases hget
      · exact hget

theorem sound_completeAccountDeletion (h : Sound s) {id : AccountDeletionId} {completedAt : Int} :
    Sound (s.completeAccountDeletion id completedAt).2 := by
  rcases completeAccountDeletion_cases s id completedAt with ⟨_, heq⟩ | ⟨record, t, herased, heq⟩
  · rw [heq]
    exact h
  · rw [heq]
    have hsound := herased.sound h
    refine { hsound.congr rfl rfl rfl rfl with deleting := ?_ }
    intro other found hfound hunfinished
    simp only [OrderedMap.get?_set] at hfound
    split at hfound
    · cases hfound
      exact absurd rfl hunfinished
    · exact hsound.deleting other found hfound hunfinished

theorem sound_expireAccountDeletions (h : Sound s) (completedBefore : Int) :
    Sound (s.expireAccountDeletions completedBefore) := by
  refine { h with deleting := ?_ }
  intro id record hrecord
  rw [expireAccountDeletions, OrderedMap.get?_filter, Option.filter_eq_some_iff] at hrecord
  exact h.deleting id record hrecord.1

theorem revokeSession_cases (s : MemoryAccountBackend) (id : AccountSessionId) :
    (s.revokeSession id).2 = s ∨ (s.revokeSession id).2 = s.revoke id := by
  rw [revokeSession]
  cases s.sessions.get? id with
  | none => exact .inl rfl
  | some session =>
    simp only
    split
    · exact .inl rfl
    · exact .inr rfl

theorem authorizeAttempt_cases (s : MemoryAccountBackend) (id : LoginAttemptId)
    (identity : GitHubIdentity) :
    (∃ error, s.authorizeAttempt id identity = (.error error, s)) ∨
      ∃ attempt stateIndex, s.attempts.get? id = some attempt ∧ attempt.status = .pending ∧
        s.authorizeAttempt id identity = (.ok (), { s with
          attempts :=
            s.attempts.set id { attempt with status := .authorized, identity := some identity }
          stateIndex }) := by
  rw [authorizeAttempt]
  cases hget : s.attempts.get? id with
  | none => exact .inl ⟨_, rfl⟩
  | some attempt =>
    simp only
    split
    · exact .inl ⟨_, rfl⟩
    · rename_i hpending
      exact .inr ⟨attempt, _, rfl, not_not.mp hpending, rfl⟩

theorem sound_step (h : Sound s) {op : BackendOp} (hpromised : s.Promised op)
    (hquota : s.WithinQuota op) : Sound (s.step op).1 := by
  cases op with
  | createAttempt record => exact h.congr rfl rfl rfl rfl
  | authorizeAttempt id identity =>
    rcases authorizeAttempt_cases s id identity with ⟨_, heq⟩ | ⟨_, _, _, _, heq⟩
    · simp only [step, heq]
      exact h
    · simp only [step, heq]
      exact h.congr rfl rfl rfl rfl
  | consumeAuthorizedAttempt id refreshHash refreshExpiresAt accountUuid sessionUuid =>
    rcases consumeAuthorizedAttempt_cases s id refreshHash refreshExpiresAt accountUuid
      sessionUuid with ⟨_, heq⟩ | ⟨attempt, identity, hget, hstatus, hidentity, heq⟩
    · simp only [step, heq]
      exact h
    · simp only [step, heq]
      exact sound_consume h hpromised (hquota attempt hget hstatus identity hidentity)
  | rotateRefresh sessionId expectedHash replacementHash =>
    apply h.rotateRefresh
    intro other found hget
    exact hpromised found (OrderedMap.mem_values_iff.mpr ⟨other, hget⟩)
  | revokeSession sessionId =>
    simp only [step]
    rcases revokeSession_cases s sessionId with heq | heq
    · rw [heq]
      exact h
    · rw [heq]
      exact h.revoke sessionId
  | revokeMobileInstallation initiating installationId =>
    rcases revokeMobileInstallation_cases s initiating installationId with
      ⟨_, heq⟩ | ⟨current, account, ids, heq⟩
    · simp only [step, heq]
      exact h
    · simp only [step, heq]
      apply Sound.foldl_revokeInstallation
      exact h.congr rfl rfl rfl rfl
  | completeMobileSessionInvalidation sessionId => exact h.congr rfl rfl rfl rfl
  | beginAccountDeletion record initiating => exact sound_beginAccountDeletion h
  | saveAccountDeletion record => exact sound_saveAccountDeletion h hpromised
  | completeAccountDeletion id completedAt => exact sound_completeAccountDeletion h
  | expireAccountDeletions completedBefore => exact sound_expireAccountDeletions h completedBefore
  | consumeProof jti expiresAt now =>
    simp only [step, consumeProof]
    split <;> exact h.congr rfl rfl rfl rfl

theorem rising_step (s : MemoryAccountBackend) {op : BackendOp} (hpromised : s.Promised op) :
    Rising s (s.step op).1 := by
  cases op with
  | createAttempt record => exact (Carried.of_eq rfl).rising
  | authorizeAttempt id identity =>
    rcases authorizeAttempt_cases s id identity with ⟨_, heq⟩ | ⟨_, _, _, _, heq⟩
    · simp only [step, heq]
      exact .refl s
    · simp only [step, heq]
      exact (Carried.of_eq rfl).rising
  | consumeAuthorizedAttempt id refreshHash refreshExpiresAt accountUuid sessionUuid =>
    rcases consumeAuthorizedAttempt_cases s id refreshHash refreshExpiresAt accountUuid
      sessionUuid with ⟨_, heq⟩ | ⟨attempt, identity, _, _, _, heq⟩
    · simp only [step, heq]
      exact .refl s
    · simp only [step, heq]
      obtain ⟨hsessions, _⟩ := selectAccount_frame s attempt identity accountUuid
      have hselected : Carried s (s.selectAccount attempt identity accountUuid).2 := .of_eq hsessions
      have hcreated : ∀ t : MemoryAccountBackend, Carried s t → ∀ session : SessionRecord,
          session.id = sessionUuid → Rising s (t.createSession id attempt session) := by
        rintro t hcarried session rfl other found found' hget hget'
        have hne : other ≠ session.id := by
          rintro rfl
          rw [hpromised.1] at hget
          cases hget
        rw [createSession, OrderedMap.get?_set, if_neg hne] at hget'
        exact hcarried.rising other found found' hget hget'
      rcases consume_cases s id attempt identity refreshHash refreshExpiresAt accountUuid
        sessionUuid with ⟨_, _, heq⟩ | ⟨_, ⟨replaced, _, _, heq⟩ | ⟨_, ⟨_, _, heq⟩ | ⟨_, _, heq⟩⟩⟩
      · rw [heq]
        exact .refl s
      · rw [heq]
        exact hcreated _ (hselected.trans (carried_revoke _ replaced)) _ rfl
      · rw [heq]
        exact hselected.rising
      · rw [heq]
        exact hcreated _ hselected _ rfl
  | rotateRefresh sessionId expectedHash replacementHash =>
    simp only [step]
    rcases rotateRefresh_cases s sessionId expectedHash replacementHash with
      heq | ⟨session, hget, _, _, heq⟩
    · rw [heq]
      exact .refl s
    · rw [heq]
      exact (Carried.set hget (Nat.lt_succ_self session.revision) rfl).rising
  | revokeSession sessionId =>
    simp only [step]
    rcases revokeSession_cases s sessionId with heq | heq
    · rw [heq]
      exact .refl s
    · rw [heq]
      exact (carried_revoke s sessionId).rising
  | revokeMobileInstallation initiating installationId =>
    rcases revokeMobileInstallation_cases s initiating installationId with
      ⟨_, heq⟩ | ⟨current, account, ids, heq⟩
    · simp only [step, heq]
      exact .refl s
    · simp only [step, heq]
      have hcancelled : Carried s (s.cancelAttempts current installationId account) := .of_eq rfl
      exact (hcancelled.trans (carried_foldl_revokeInstallation _ current installationId ids)).rising
  | completeMobileSessionInvalidation sessionId => exact (Carried.of_eq rfl).rising
  | beginAccountDeletion record initiating =>
    simp only [step]
    rcases beginAccountDeletion_cases s record initiating with ⟨_, heq⟩ | ⟨current, _, _, heq⟩
    · rw [heq]
      exact .refl s
    · rw [heq]
      exact ((carried_foldl_revoke s _).trans (.of_eq rfl)).rising
  | saveAccountDeletion record => exact (Carried.of_eq rfl).rising
  | completeAccountDeletion id completedAt =>
    simp only [step]
    rcases completeAccountDeletion_cases s id completedAt with ⟨_, heq⟩ | ⟨_, t, herased, heq⟩
    · rw [heq]
      exact .refl s
    · rw [heq]
      intro other found found' hget hget'
      left
      have hsame := herased.sessions other found' hget'
      rw [hget] at hsame
      exact (Option.some.inj hsame).symm
  | expireAccountDeletions completedBefore => exact (Carried.of_eq rfl).rising
  | consumeProof jti expiresAt now =>
    simp only [step, consumeProof]
    split <;> exact (Carried.of_eq rfl).rising

theorem rotated_step (s : MemoryAccountBackend) (op : BackendOp) {id : AccountSessionId}
    (hrotated : id ∈ rotatedBy op (s.step op).2) : Raised s (s.step op).1 id := by
  cases op with
  | rotateRefresh sessionId expectedHash replacementHash =>
    simp only [step] at hrotated ⊢
    rcases rotateRefresh_cases s sessionId expectedHash replacementHash with
      heq | ⟨session, hget, _, _, heq⟩
    · rw [heq] at hrotated
      exact absurd hrotated List.not_mem_nil
    · rw [heq] at hrotated ⊢
      obtain rfl := List.mem_singleton.mp hrotated
      exact ⟨session, _, hget, OrderedMap.get?_set_self .., Nat.lt_succ_self session.revision⟩
  | _ => exact absurd hrotated List.not_mem_nil

theorem ended_revokeSession {id : AccountSessionId} (hrevoked : (s.revokeSession id).1 = true) :
    Ended s (s.revokeSession id).2 id := by
  rw [revokeSession] at hrevoked ⊢
  cases hget : s.sessions.get? id with
  | none =>
    rw [hget] at hrevoked
    cases hrevoked
  | some session =>
    simp only [hget] at hrevoked ⊢
    split at hrevoked
    · cases hrevoked
    · rename_i hactive
      rw [if_neg hactive]
      apply (carried_revoke s id).ended hget (by simpa using hactive)
      intro session' hget'
      rw [← Bool.not_eq_true]
      intro hactive'
      exact (active_revoke hget' hactive').1 rfl

theorem ended_consume {id : LoginAttemptId} {attempt : LoginAttemptRecord}
    {identity : GitHubIdentity} {refreshHash : String} {refreshExpiresAt : Int}
    {accountUuid : PlatformAccountId} {sessionUuid replaced : AccountSessionId}
    {created : CreatedSession} (hnew : s.sessions.get? sessionUuid = none)
    (hcreated : (s.consume id attempt identity refreshHash refreshExpiresAt accountUuid
      sessionUuid).1 = .ok created) (hreplaced : created.replacedSessionId = some replaced) :
    Ended s (s.consume id attempt identity refreshHash refreshExpiresAt accountUuid sessionUuid).2
      replaced := by
  have hindexed := replaced_consume hcreated hreplaced
  obtain ⟨_, session, hget, hactive⟩ := replacedSessionId_eq_some.mp hindexed
  obtain ⟨hsessions, _⟩ := selectAccount_frame s attempt identity accountUuid
  have hselected : Carried s (s.selectAccount attempt identity accountUuid).2 := .of_eq hsessions
  rcases consume_cases s id attempt identity refreshHash refreshExpiresAt accountUuid
    sessionUuid with ⟨_, _, heq⟩ | ⟨_, ⟨found, _, hfound, heq⟩ | ⟨hnone, _⟩⟩
  · rw [heq] at hcreated
    cases hcreated
  · obtain rfl := Option.some.inj (hindexed.symm.trans hfound)
    rw [heq]
    have hne : replaced ≠ sessionUuid := by
      rintro rfl
      rw [hnew] at hget
      cases hget
    obtain ⟨before, after, hbefore, hlive, hafter, hended⟩ :=
      (hselected.trans (carried_revoke _ replaced)).ended hget hactive (by
        intro session' hget'
        rw [← Bool.not_eq_true]
        intro hactive'
        exact (active_revoke hget' hactive').1 rfl)
    refine ⟨before, after, hbefore, hlive, ?_, hended⟩
    rw [createSession, OrderedMap.get?_set]
    exact (if_neg hne).trans hafter
  · rw [hnone] at hindexed
    cases hindexed

theorem ended_revokeMobileInstallation (h : Sound s) {initiating : SessionRecord}
    {installationId : InstallationId} {ids : List AccountSessionId}
    (hreply : (s.revokeMobileInstallation initiating installationId).1 = .ok ids)
    {id : AccountSessionId} {session : SessionRecord} (hget : s.sessions.get? id = some session)
    (hlive : live initiating.accountId .mobile session = true)
    (hinstallation : session.installationId = installationId) :
    Ended s (s.revokeMobileInstallation initiating installationId).2 id := by
  rw [revokeMobileInstallation] at hreply ⊢
  split
  · rename_i hdeleting
    rw [if_pos hdeleting] at hreply
    cases hreply
  · rename_i hdeleting
    rw [if_neg hdeleting] at hreply
    cases hcurrent : s.sessions.get? initiating.id with
    | none =>
      rw [hcurrent] at hreply
      cases hreply
    | some current =>
      simp only [hcurrent] at hreply ⊢
      split
      · rename_i hchanged
        rw [if_pos hchanged] at hreply
        cases hreply
      · rename_i hchanged
        rw [if_neg hchanged] at hreply
        have haccount : current.accountId = initiating.accountId := by
          simp only [Bool.or_eq_true, decide_eq_true_eq, not_or, not_not, ne_eq] at hchanged
          exact hchanged.1.2
        have htarget : session ∈ s.sessions.values.filter fun session =>
            live current.accountId .mobile session &&
              session.installationId = installationId := by
          apply List.mem_filter.mpr
          refine ⟨OrderedMap.mem_values_iff.mpr ⟨id, hget⟩, ?_⟩
          rw [haccount, hlive, decide_eq_true hinstallation, Bool.and_self]
        have hsome := List.ne_nil_of_mem htarget
        rw [if_neg hsome] at hreply ⊢
        cases haccountRow : s.accounts.get? current.accountId with
        | none =>
          rw [haccountRow] at hreply
          cases hreply
        | some account =>
          have hcancelled : Carried s (s.cancelAttempts current installationId account) :=
            .of_eq rfl
          have hactive : session.active = true := by
            simp only [live, Bool.and_eq_true] at hlive
            exact hlive.1.1
          apply (hcancelled.trans (carried_foldl_revokeInstallation _ current installationId
            _)).ended hget hactive
          intro session' hget'
          rw [← Bool.not_eq_true]
          intro hactive'
          obtain ⟨hnot, _⟩ := active_foldl_revokeInstallation hget' hactive'
          apply hnot
          exact List.mem_map.mpr ⟨session, htarget, h.keyed id session hget⟩

theorem ended_beginAccountDeletion (h : Sound s) {record accepted : AccountDeletionRecord}
    {initiating : SessionRecord} (hreply : (s.beginAccountDeletion record initiating).1 = .ok accepted)
    {id : AccountSessionId} {session : SessionRecord} (hget : s.sessions.get? id = some session)
    (hactive : session.active = true) (haccount : session.accountId = record.accountId) :
    Ended s (s.beginAccountDeletion record initiating).2 id := by
  rcases beginAccountDeletion_cases s record initiating with ⟨_, heq⟩ | ⟨current, _, _, heq⟩
  · rw [heq] at hreply
    cases hreply
  · rw [heq]
    apply ((carried_foldl_revoke s _).trans (.of_eq rfl)).ended hget hactive
    intro session' hget'
    rw [← Bool.not_eq_true]
    intro hactive'
    apply (active_foldl_revoke hget' hactive').1
    apply List.mem_map.mpr
    refine ⟨session, ?_, h.keyed id session hget⟩
    exact List.mem_filter.mpr
      ⟨OrderedMap.mem_values_iff.mpr ⟨id, hget⟩, decide_eq_true haccount⟩

theorem revoked_step (h : Sound s) {op : BackendOp} (hpromised : s.Promised op)
    {id : AccountSessionId} (hrevoked : id ∈ revokedBy s op (s.step op).2) :
    Ended s (s.step op).1 id := by
  cases op with
  | revokeSession sessionId =>
    simp only [step] at hrevoked ⊢
    cases hreply : (s.revokeSession sessionId).1 with
    | false =>
      rw [hreply] at hrevoked
      exact absurd hrevoked List.not_mem_nil
    | true =>
      rw [hreply] at hrevoked
      obtain rfl := List.mem_singleton.mp hrevoked
      exact ended_revokeSession hreply
  | consumeAuthorizedAttempt attemptId refreshHash refreshExpiresAt accountUuid sessionUuid =>
    rcases consumeAuthorizedAttempt_cases s attemptId refreshHash refreshExpiresAt accountUuid
      sessionUuid with ⟨_, heq⟩ | ⟨attempt, identity, _, _, _, heq⟩
    · simp only [step, heq, BackendReply.settle] at hrevoked
      exact absurd hrevoked List.not_mem_nil
    · simp only [step, heq] at hrevoked ⊢
      cases hreply : (s.consume attemptId attempt identity refreshHash refreshExpiresAt accountUuid
          sessionUuid).1 with
      | error error =>
        rw [hreply] at hrevoked
        exact absurd hrevoked List.not_mem_nil
      | ok created =>
        rw [hreply] at hrevoked
        exact ended_consume hpromised.1 hreply (Option.mem_toList.mp hrevoked)
  | revokeMobileInstallation initiating installationId =>
    simp only [step] at hrevoked ⊢
    cases hreply : (s.revokeMobileInstallation initiating installationId).1 with
    | error error =>
      rw [hreply] at hrevoked
      exact absurd hrevoked List.not_mem_nil
    | ok ids =>
      rw [hreply] at hrevoked
      obtain ⟨entry, hentry, rfl⟩ := List.mem_map.mp hrevoked
      obtain ⟨hmem, htarget⟩ := List.mem_filter.mp hentry
      simp only [Bool.and_eq_true, decide_eq_true_eq] at htarget
      exact ended_revokeMobileInstallation h hreply (OrderedMap.mem_entries_iff.mp hmem) htarget.1
        htarget.2
  | beginAccountDeletion record initiating =>
    simp only [step] at hrevoked ⊢
    cases hreply : (s.beginAccountDeletion record initiating).1 with
    | error error =>
      rw [hreply] at hrevoked
      exact absurd hrevoked List.not_mem_nil
    | ok accepted =>
      rw [hreply] at hrevoked
      obtain ⟨entry, hentry, rfl⟩ := List.mem_map.mp hrevoked
      obtain ⟨hmem, htarget⟩ := List.mem_filter.mp hentry
      simp only [Bool.and_eq_true, decide_eq_true_eq] at htarget
      exact ended_beginAccountDeletion h hreply (OrderedMap.mem_entries_iff.mp hmem) htarget.1
        htarget.2
  | _ => exact absurd hrevoked List.not_mem_nil

theorem attemptsMove_step (s : MemoryAccountBackend) {op : BackendOp}
    (hop : ∀ record, op ≠ .createAttempt record) : AttemptsMove s (s.step op).1 := by
  cases op with
  | createAttempt record => exact absurd rfl (hop record)
  | authorizeAttempt id identity =>
    rcases authorizeAttempt_cases s id identity with ⟨_, heq⟩ | ⟨attempt, _, hget, hstatus, heq⟩
    · simp only [step, heq]
      exact .of_eq rfl
    · simp only [step, heq]
      intro other attempt' hget'
      simp only [OrderedMap.get?_set] at hget'
      split at hget'
      · rename_i hsame
        subst hsame
        refine ⟨attempt, hget, ?_⟩
        rw [hstatus]
        rintro ⟨⟩
      · exact ⟨attempt', hget', fun hused => hused⟩
  | consumeAuthorizedAttempt id refreshHash refreshExpiresAt accountUuid sessionUuid =>
    rcases consumeAuthorizedAttempt_cases s id refreshHash refreshExpiresAt accountUuid
      sessionUuid with ⟨_, heq⟩ | ⟨attempt, identity, hget, _, _, heq⟩
    · simp only [step, heq]
      exact .of_eq rfl
    · simp only [step, heq]
      obtain ⟨_, _, _, _, hattempts⟩ := selectAccount_frame s attempt identity accountUuid
      rcases consume_cases s id attempt identity refreshHash refreshExpiresAt accountUuid
        sessionUuid with ⟨_, _, heq⟩ | ⟨_, ⟨replaced, _, _, heq⟩ | ⟨_, ⟨_, _, heq⟩ | ⟨_, _, heq⟩⟩⟩
      · rw [heq]
        exact .of_eq rfl
      · rw [heq]
        apply attemptsMove_createSession _ hget
        rw [attempts_revoke, hattempts]
      · rw [heq]
        exact .of_eq hattempts
      · rw [heq]
        exact attemptsMove_createSession hattempts hget _
  | rotateRefresh sessionId expectedHash replacementHash =>
    simp only [step]
    rcases rotateRefresh_cases s sessionId expectedHash replacementHash with heq | ⟨_, _, _, _, heq⟩
    · rw [heq]
      exact .of_eq rfl
    · rw [heq]
      exact .of_eq rfl
  | revokeSession sessionId =>
    simp only [step]
    rcases revokeSession_cases s sessionId with heq | heq
    · rw [heq]
      exact .of_eq rfl
    · rw [heq]
      exact .of_eq (attempts_revoke s sessionId)
  | revokeMobileInstallation initiating installationId =>
    rcases revokeMobileInstallation_cases s initiating installationId with
      ⟨_, heq⟩ | ⟨current, account, ids, heq⟩
    · simp only [step, heq]
      exact .of_eq rfl
    · simp only [step, heq]
      intro id attempt' hget
      rw [attempts_foldl_revokeInstallation] at hget
      exact attemptsMove_cancelAttempts s current installationId account id attempt' hget
  | completeMobileSessionInvalidation sessionId => exact .of_eq rfl
  | beginAccountDeletion record initiating =>
    simp only [step]
    rcases beginAccountDeletion_cases s record initiating with ⟨_, heq⟩ | ⟨current, _, _, heq⟩
    · rw [heq]
      exact .of_eq rfl
    · rw [heq]
      exact .of_eq (attempts_foldl_revoke s _)
  | saveAccountDeletion record => exact .of_eq rfl
  | completeAccountDeletion id completedAt =>
    simp only [step]
    rcases completeAccountDeletion_cases s id completedAt with ⟨_, heq⟩ | ⟨_, t, herased, heq⟩
    · rw [heq]
      exact .of_eq rfl
    · rw [heq]
      exact herased.attempts
  | expireAccountDeletions completedBefore => exact .of_eq rfl
  | consumeProof jti expiresAt now =>
    simp only [step, consumeProof]
    split <;> exact .of_eq rfl

theorem created_step {id : LoginAttemptId} {refreshHash : String} {refreshExpiresAt : Int}
    {accountUuid : PlatformAccountId} {sessionUuid : AccountSessionId} {created : CreatedSession}
    (h : (s.step (.consumeAuthorizedAttempt id refreshHash refreshExpiresAt accountUuid
      sessionUuid)).2 = .created created) :
    (∃ attempt, s.attempts.get? id = some attempt ∧ attempt.status = .authorized) ∧
      ∀ attempt, (s.step (.consumeAuthorizedAttempt id refreshHash refreshExpiresAt accountUuid
        sessionUuid)).1.attempts.get? id = some attempt → attempt.status = .used := by
  rcases consumeAuthorizedAttempt_cases s id refreshHash refreshExpiresAt accountUuid
    sessionUuid with ⟨_, heq⟩ | ⟨attempt, identity, hget, hstatus, _, heq⟩
  · simp only [step, heq, BackendReply.settle] at h
    cases h
  · simp only [step, heq] at h ⊢
    refine ⟨⟨attempt, hget, hstatus⟩, ?_⟩
    rcases consume_cases s id attempt identity refreshHash refreshExpiresAt accountUuid
      sessionUuid with ⟨_, _, heq⟩ | ⟨_, ⟨replaced, _, _, heq⟩ | ⟨_, ⟨_, _, heq⟩ | ⟨_, _, heq⟩⟩⟩
    · rw [heq] at h
      cases h
    · rw [heq]
      exact used_createSession _ id attempt _
    · rw [heq] at h
      cases h
    · rw [heq]
      exact used_createSession _ id attempt _

theorem rejected_step {op : BackendOp} (hpromised : s.Promised op) (hquota : s.WithinQuota op)
    {error : AccountError} (h : (s.step op).2 = .rejected error) : (s.step op).1 = s := by
  cases op with
  | createAttempt record => cases h
  | authorizeAttempt id identity =>
    rcases authorizeAttempt_cases s id identity with ⟨_, heq⟩ | ⟨_, _, _, _, heq⟩
    · simp only [step, heq]
    · simp only [step, heq, BackendReply.settle] at h
      cases h
  | consumeAuthorizedAttempt id refreshHash refreshExpiresAt accountUuid sessionUuid =>
    rcases consumeAuthorizedAttempt_cases s id refreshHash refreshExpiresAt accountUuid
      sessionUuid with ⟨_, heq⟩ | ⟨attempt, identity, hget, hstatus, hidentity, heq⟩
    · simp only [step, heq]
    · simp only [step, heq] at h ⊢
      rcases consume_cases s id attempt identity refreshHash refreshExpiresAt accountUuid
        sessionUuid with ⟨_, _, heq⟩ | ⟨hindexed, ⟨replaced, _, _, heq⟩ |
          ⟨hnone, ⟨hfull, _, heq⟩ | ⟨_, _, heq⟩⟩⟩
      · rw [heq]
      · rw [heq] at h
        cases h
      · rw [heq]
        have hfits := hquota attempt hget hstatus identity hidentity
        rcases hfits with hbusy | hroom | hstored
        · rw [hindexed] at hbusy
          cases hbusy
        · exact absurd hfull (Nat.not_le_of_lt hroom)
        · simp only [hnone] at hstored
          apply selectAccount_same _ hstored
          intro hunknown
          rw [chosenAccountId, hunknown, Option.getD_none] at hfull
          rw [count_unknown attempt.installationKind fun session hmem =>
            (hpromised.2.1 session hmem).2] at hfull
          cases hkind : attempt.installationKind <;> rw [hkind] at hfull <;> cases hfull
      · rw [heq] at h
        cases h
  | rotateRefresh sessionId expectedHash replacementHash => cases h
  | revokeSession sessionId => cases h
  | revokeMobileInstallation initiating installationId =>
    rcases revokeMobileInstallation_cases s initiating installationId with
      ⟨_, heq⟩ | ⟨_, _, _, heq⟩
    · simp only [step, heq]
    · simp only [step, heq, BackendReply.settle] at h
      cases h
  | completeMobileSessionInvalidation sessionId => cases h
  | beginAccountDeletion record initiating =>
    rcases beginAccountDeletion_cases s record initiating with ⟨_, heq⟩ | ⟨_, _, _, heq⟩
    · simp only [step, heq]
    · simp only [step, heq, BackendReply.settle] at h
      cases h
  | saveAccountDeletion record => cases h
  | completeAccountDeletion id completedAt =>
    rcases completeAccountDeletion_cases s id completedAt with ⟨_, heq⟩ | ⟨_, _, _, heq⟩
    · simp only [step, heq]
    · simp only [step, heq, BackendReply.settle] at h
      cases h
  | expireAccountDeletions completedBefore => cases h
  | consumeProof jti expiresAt now => cases h

/-- The state part: one active session for an installation, the refresh index over the active
sessions, the installation quota, and no active session under a deletion. -/
structure Consistent (s : MemoryAccountBackend) : Prop where
  single : ∀ id id' session session', s.sessions.get? id = some session →
    s.sessions.get? id' = some session' → session.active = true → session'.active = true →
    session.identityNamespace = session'.identityNamespace →
    session.installationId = session'.installationId → id = id'
  refresh : ∀ hash id, s.refreshIndex.get? hash = some id ↔
    ∃ session, s.sessions.get? id = some session ∧ session.active = true ∧
      session.refreshHash = hash
  quota : ∀ accountId kind, s.activeInstallationCount accountId kind ≤ installationLimit kind
  deleting : ∀ id record, s.deletions.get? id = some record → record.status ≠ .complete →
    ∀ sessionId session, s.sessions.get? sessionId = some session → session.active = true →
      session.accountId ≠ record.accountId

theorem Sound.consistent (h : Sound s) : Consistent s where
  single := by
    intro id id' session session' hget hget' hactive hactive' hnamespace hinstallation
    have hindexed := h.installed id session hget hactive
    rw [hnamespace, hinstallation, h.installed id' session' hget' hactive'] at hindexed
    exact (Option.some.inj hindexed).symm
  refresh := h.refresh
  quota := h.quota
  deleting := h.deleting

theorem consumeAuthorizedAttempt_authorized {id : LoginAttemptId} {attempt : LoginAttemptRecord}
    {identity : GitHubIdentity} (hget : s.attempts.get? id = some attempt)
    (hstatus : attempt.status = .authorized) (hidentity : attempt.identity = some identity)
    (refreshHash : String) (refreshExpiresAt : Int) (accountUuid : PlatformAccountId)
    (sessionUuid : AccountSessionId) :
    s.consumeAuthorizedAttempt id refreshHash refreshExpiresAt accountUuid sessionUuid =
      s.consume id attempt identity refreshHash refreshExpiresAt accountUuid sessionUuid := by
  simp only [consumeAuthorizedAttempt, hget, hstatus, hidentity, reduceCtorEq, if_false]

theorem accounts_selectAccount (s : MemoryAccountBackend) (attempt : LoginAttemptRecord)
    (identity : GitHubIdentity) (accountUuid : PlatformAccountId) :
    (s.selectAccount attempt identity accountUuid).2.accounts.get?
        (s.chosenAccountId attempt identity accountUuid) =
      some (accountOf attempt identity (s.chosenAccountId attempt identity accountUuid)) := by
  rw [selectAccount, chosenAccountId]
  cases s.accountIndex.get? (identityKey attempt.identityNamespace identity.providerSubject) with
  | none =>
    rw [OrderedMap.get?_set]
    exact if_pos rfl
  | some accountId =>
    rw [OrderedMap.get?_set]
    exact if_pos rfl

theorem fits_of_consistent {id : LoginAttemptId} {refreshHash : String} {refreshExpiresAt : Int}
    {accountUuid : PlatformAccountId} {sessionUuid : AccountSessionId}
    (hpromised : s.Promised
      (.consumeAuthorizedAttempt id refreshHash refreshExpiresAt accountUuid sessionUuid))
    {attempt : LoginAttemptRecord} {identity : GitHubIdentity}
    (hget : s.attempts.get? id = some attempt) (hstatus : attempt.status = .authorized)
    (hidentity : attempt.identity = some identity)
    (hconsistent : (s.step (.consumeAuthorizedAttempt id refreshHash refreshExpiresAt accountUuid
      sessionUuid)).1.Consistent)
    (hunchanged : ∀ error, (s.step (.consumeAuthorizedAttempt id refreshHash refreshExpiresAt
      accountUuid sessionUuid)).2 = .rejected error →
        (s.step (.consumeAuthorizedAttempt id refreshHash refreshExpiresAt accountUuid
          sessionUuid)).1 = s) : s.Fits attempt identity accountUuid := by
  simp only [step, consumeAuthorizedAttempt_authorized hget hstatus hidentity]
    at hconsistent hunchanged
  obtain ⟨hsessions, _, _, _, _⟩ := selectAccount_frame s attempt identity accountUuid
  by_cases hroom : s.activeInstallationCount (s.chosenAccountId attempt identity accountUuid)
      attempt.installationKind < installationLimit attempt.installationKind
  · exact .inr (.inl hroom)
  cases hbusy : (s.accountIndex.get? (identityKey attempt.identityNamespace
      identity.providerSubject)).any s.deleting with
  | true => exact .inl hbusy
  | false =>
    right
    right
    rcases consume_cases s id attempt identity refreshHash refreshExpiresAt accountUuid
      sessionUuid with ⟨hrefused, _⟩ | ⟨_, ⟨replaced, _, hsome, heq⟩ | ⟨hnone, ⟨_, _, heq⟩ |
        ⟨hless, _⟩⟩⟩
    · rw [hbusy] at hrefused
      cases hrefused
    · obtain ⟨_, found, hfound, hlive⟩ := replacedSessionId_eq_some.mp hsome
      have hselected : (s.selectAccount attempt identity accountUuid).2.sessions.get? replaced =
          some found := by rw [hsessions, hfound]
      have hrevoked := countP_revoke hselected hlive
        (s.chosenAccountId attempt identity accountUuid) attempt.installationKind
      simp only [hsome, hfound, Option.any_some]
      by_contra hother
      rw [heq] at hconsistent
      have hquota := hconsistent.quota (s.chosenAccountId attempt identity accountUuid)
        attempt.installationKind
      have hfresh : ((s.selectAccount attempt identity accountUuid).2.revoke
          replaced).sessions.get? sessionUuid = none := by
        rw [get?_revoke_none, hsessions]
        exact hpromised.1
      rw [count_createSession hfresh, List.countP_singleton, if_pos] at hquota
      · rw [List.countP_singleton, if_neg hother, count_selectAccount] at hrevoked
        change (revoke _ replaced).activeInstallationCount _ _ + 1 ≤ _ at hquota
        omega
      · simp [live, sessionOf]
    · have hsame := hunchanged _ (by rw [heq]; rfl)
      rw [heq] at hsame
      simp only [hnone]
      rw [← accounts_selectAccount, hsame]
    · exact absurd hless hroom

end MemoryAccountBackend

open MemoryAccountBackend

/-- A backend with the attempts created so far and those that yielded a session, in order. -/
structure AccountHistory where
  backend : MemoryAccountBackend
  created : List LoginAttemptId
  yielded : List LoginAttemptId

namespace AccountHistory

def empty : AccountHistory where
  backend := .empty
  created := []
  yielded := []

def createdBy : BackendOp → List LoginAttemptId
  | .createAttempt record => [record.id]
  | _ => []

def yieldedBy : BackendOp → BackendReply → List LoginAttemptId
  | .consumeAuthorizedAttempt id _ _ _ _, .created _ => [id]
  | _, _ => []

def step (h : AccountHistory) (op : BackendOp) : AccountHistory × BackendReply :=
  let result := h.backend.step op
  ({ backend := result.1
     created := h.created ++ createdBy op
     yielded := h.yielded ++ yieldedBy op result.2 }, result.2)

/-- Login attempts get new ids; the rest is promised by the state of the backend. -/
def Promised (h : AccountHistory) (op : BackendOp) : Prop :=
  (∀ id ∈ createdBy op, id ∉ h.created) ∧ h.backend.Promised op

/-- What one step owes: a consistent state, no attempt that yields twice, revisions that rise (at
every rotation and revocation), and a rejection without effect. -/
structure Honours (h : AccountHistory) (op : BackendOp) : Prop where
  consistent : (h.step op).1.backend.Consistent
  once : (h.step op).1.yielded.Nodup
  rising : h.backend.Rising (h.step op).1.backend
  rotated : ∀ id ∈ MemoryAccountBackend.rotatedBy op (h.step op).2, h.backend.Raised (h.step op).1.backend id
  revoked : ∀ id ∈ h.backend.revokedBy op (h.step op).2, h.backend.Ended (h.step op).1.backend id
  unchanged : ∀ error, (h.step op).2 = .rejected error → (h.step op).1.backend = h.backend

structure Recorded (h : AccountHistory) : Prop where
  sound : h.backend.Sound
  known : ∀ id attempt, h.backend.attempts.get? id = some attempt → id ∈ h.created
  spent : ∀ id ∈ h.yielded, id ∈ h.created ∧
    ∀ attempt, h.backend.attempts.get? id = some attempt → attempt.status = .used
  once : h.yielded.Nodup

theorem recorded_empty : Recorded empty where
  sound := sound_empty
  known := nofun
  spent := nofun
  once := List.nodup_nil

theorem yieldedBy_cases (op : BackendOp) (reply : BackendReply) :
    yieldedBy op reply = [] ∨ ∃ id refreshHash refreshExpiresAt accountUuid sessionUuid created,
      op = .consumeAuthorizedAttempt id refreshHash refreshExpiresAt accountUuid sessionUuid ∧
        reply = .created created ∧ yieldedBy op reply = [id] := by
  cases op with
  | consumeAuthorizedAttempt id refreshHash refreshExpiresAt accountUuid sessionUuid =>
    cases reply with
    | created created => exact .inr ⟨id, _, _, _, _, created, rfl, rfl, rfl⟩
    | _ => exact .inl rfl
  | _ => exact .inl rfl

theorem createdBy_cases (op : BackendOp) :
    (∃ record, op = .createAttempt record) ∨
      (∀ record, op ≠ .createAttempt record) ∧ createdBy op = [] := by
  cases op with
  | createAttempt record => exact .inl ⟨record, rfl⟩
  | _ =>
    refine .inr ⟨?_, rfl⟩
    intro record heq
    cases heq

theorem Recorded.step {h : AccountHistory} (hrecorded : Recorded h) {op : BackendOp}
    (hpromised : h.Promised op) (hquota : h.backend.WithinQuota op) :
    Recorded (h.step op).1 := by
  have hsound := sound_step hrecorded.sound hpromised.2 hquota
  rcases createdBy_cases op with ⟨record, rfl⟩ | ⟨hother, hcreated⟩
  · have hnew := hpromised.1 record.id List.mem_cons_self
    refine ⟨hsound, ?_, ?_, ?_⟩
    · intro id attempt hget
      change (h.backend.attempts.set record.id record).get? id = some attempt at hget
      rw [OrderedMap.get?_set] at hget
      apply List.mem_append.mpr
      split at hget
      · rename_i hsame
        exact .inr (List.mem_singleton.mpr hsame)
      · exact .inl (hrecorded.known id attempt hget)
    · intro id hyielded
      change id ∈ h.yielded ++ [] at hyielded
      rw [List.append_nil] at hyielded
      obtain ⟨hold, hused⟩ := hrecorded.spent id hyielded
      refine ⟨List.mem_append.mpr (.inl hold), ?_⟩
      intro attempt hget
      change (h.backend.attempts.set record.id record).get? id = some attempt at hget
      rw [OrderedMap.get?_set, if_neg] at hget
      · exact hused attempt hget
      · rintro rfl
        exact hnew hold
    · change (h.yielded ++ []).Nodup
      rw [List.append_nil]
      exact hrecorded.once
  · have hmove := attemptsMove_step h.backend hother
    have hknown : ∀ id attempt, (h.step op).1.backend.attempts.get? id = some attempt →
        id ∈ (h.step op).1.created := by
      intro id attempt hget
      obtain ⟨before, hbefore, _⟩ := hmove id attempt hget
      exact List.mem_append.mpr (.inl (hrecorded.known id before hbefore))
    have hspent : ∀ id ∈ h.yielded, id ∈ (h.step op).1.created ∧
        ∀ attempt, (h.step op).1.backend.attempts.get? id = some attempt →
          attempt.status = .used := by
      intro id hyielded
      obtain ⟨hold, hused⟩ := hrecorded.spent id hyielded
      refine ⟨List.mem_append.mpr (.inl hold), ?_⟩
      intro attempt hget
      obtain ⟨before, hbefore, hstill⟩ := hmove id attempt hget
      exact hstill (hused before hbefore)
    rcases yieldedBy_cases op (h.step op).2 with
      hnone | ⟨id, _, _, _, _, created, rfl, hreply, hyields⟩
    · have hsame : (h.step op).1.yielded = h.yielded := by
        change h.yielded ++ yieldedBy op (h.step op).2 = _
        rw [hnone, List.append_nil]
      refine ⟨hsound, hknown, ?_, ?_⟩
      · rw [hsame]
        exact hspent
      · rw [hsame]
        exact hrecorded.once
    · obtain ⟨⟨attempt, hattempt, hauthorized⟩, hused⟩ := created_step hreply
      have hmore : ∀ op : BackendOp, yieldedBy op (h.step op).2 = [id] →
          (h.step op).1.yielded = h.yielded ++ [id] := by
        intro op hop
        change h.yielded ++ yieldedBy op (h.step op).2 = _
        rw [hop]
      refine ⟨hsound, hknown, ?_, ?_⟩
      · rw [hmore _ hyields]
        intro other hmem
        rcases List.mem_append.mp hmem with hold | hnew
        · exact hspent other hold
        · rw [List.mem_singleton.mp hnew]
          exact ⟨List.mem_append.mpr (.inl (hrecorded.known id attempt hattempt)), hused⟩
      · rw [hmore _ hyields]
        refine List.nodup_append.mpr ⟨hrecorded.once, List.nodup_singleton id, ?_⟩
        rintro other hmem _ hlast rfl
        have hstatus := (hrecorded.spent other hmem).2 attempt (List.mem_singleton.mp hlast ▸ hattempt)
        rw [hauthorized] at hstatus
        cases hstatus

theorem Recorded.honours {h : AccountHistory} (hrecorded : Recorded h) {op : BackendOp}
    (hpromised : h.Promised op) (hquota : h.backend.WithinQuota op) : Honours h op where
  consistent := (hrecorded.step hpromised hquota).sound.consistent
  once := (hrecorded.step hpromised hquota).once
  rising := rising_step h.backend hpromised.2
  rotated _ hrotated := rotated_step h.backend op hrotated
  revoked _ hrevoked := revoked_step hrecorded.sound hpromised.2 hrevoked
  unchanged _ hrejected := rejected_step hpromised.2 hquota hrejected

theorem Honours.withinQuota {h : AccountHistory} {op : BackendOp}
    (hhonours : Honours h op) (hpromised : h.Promised op) : h.backend.WithinQuota op := by
  cases op with
  | consumeAuthorizedAttempt id refreshHash refreshExpiresAt accountUuid sessionUuid =>
    intro attempt hget hstatus identity hidentity
    exact fits_of_consistent hpromised.2 hget hstatus hidentity hhonours.consistent
      hhonours.unchanged
  | _ => trivial

end AccountHistory

theorem account_consistent_iff (ops : List BackendOp)
    (hpromised : Throughout AccountHistory.step AccountHistory.Promised .empty ops) :
    Throughout AccountHistory.step AccountHistory.Honours .empty ops ↔
      Throughout AccountHistory.step (fun h op => h.backend.WithinQuota op) .empty ops := by
  apply throughout_iff_of_invariant AccountHistory.Recorded _ _ hpromised
    AccountHistory.recorded_empty
  · intro h op hrecorded hguard hquota
    exact hrecorded.step hguard hquota
  · intro h op hrecorded hguard
    exact ⟨fun hhonours => hhonours.withinQuota hguard, hrecorded.honours hguard⟩

def login (name : String) (installationId : InstallationId) (providerSubject : Nat) :
    List BackendOp :=
  [.createAttempt
    { id := s!"attempt-{name}"
      environment := .development
      identityNamespace := "github"
      installationId
      installationKind := .desktop
      presentation := none
      publicKey := .null
      state := s!"state-{name}"
      codeVerifier := "verifier"
      expiresAt := 300000
      status := .pending
      identity := none },
    .authorizeAttempt s!"attempt-{name}" { providerSubject, login := "octocat", avatarUrl := "avatar" },
    .consumeAuthorizedAttempt s!"attempt-{name}" s!"hash-{name}" 2592000000 s!"account-{name}"
      s!"session-{name}"]

instance (s : MemoryAccountBackend) : ∀ op, Decidable (s.Promised op)
  | .consumeAuthorizedAttempt .. => inferInstanceAs (Decidable (_ ∧ _ ∧ _))
  | .rotateRefresh .. => inferInstanceAs (Decidable (∀ session ∈ s.sessions.values, _))
  | .beginAccountDeletion .. => inferInstanceAs (Decidable (_ = true))
  | .saveAccountDeletion .. => inferInstanceAs (Decidable (_ = true))
  | .createAttempt .. | .authorizeAttempt .. | .revokeSession .. | .revokeMobileInstallation ..
  | .completeMobileSessionInvalidation .. | .completeAccountDeletion .. | .expireAccountDeletions ..
  | .consumeProof .. => isTrue trivial

instance (h : AccountHistory) (op : BackendOp) : Decidable (h.Promised op) :=
  inferInstanceAs (Decidable (_ ∧ _))

instance (s : MemoryAccountBackend) (attempt : LoginAttemptRecord) (identity : GitHubIdentity)
    (accountUuid : PlatformAccountId) : Decidable (s.Fits attempt identity accountUuid) :=
  have : Decidable (match s.replacedSessionId (keyOf attempt) with
      | some replaced => (s.sessions.get? replaced).any (live (s.chosenAccountId attempt identity
          accountUuid) attempt.installationKind) = true
      | none => s.accounts.get? (s.chosenAccountId attempt identity accountUuid) =
          some (accountOf attempt identity (s.chosenAccountId attempt identity accountUuid))) :=
    match s.replacedSessionId (keyOf attempt) with
    | some _ => inferInstanceAs (Decidable (_ = true))
    | none => inferInstanceAs (Decidable (_ = some _))
  inferInstanceAs (Decidable (_ ∨ _ ∨ _))

instance (s : MemoryAccountBackend) : ∀ op, Decidable (s.WithinQuota op)
  | .consumeAuthorizedAttempt id .. =>
    inferInstanceAs (Decidable (∀ attempt ∈ s.attempts.get? id,
      attempt.status = .authorized → ∀ identity ∈ attempt.identity, s.Fits attempt identity _))
  | .createAttempt .. | .authorizeAttempt .. | .rotateRefresh .. | .revokeSession ..
  | .revokeMobileInstallation .. | .completeMobileSessionInvalidation ..
  | .beginAccountDeletion .. | .saveAccountDeletion .. | .completeAccountDeletion ..
  | .expireAccountDeletions .. | .consumeProof .. => isTrue trivial

theorem sharedDesktop_honours : Throughout AccountHistory.step AccountHistory.Honours .empty
    (login "first" "shared" 1 ++ login "second" "shared" 2 ++
      [.rotateRefresh "session-second" "hash-second" "hash-third",
        .revokeSession "session-second"]) :=
  (account_consistent_iff _ (by decide +kernel)).mpr (by decide +kernel)

/-- Ten desktops of one Account, and an eleventh that another Account used first. -/
def movingDesktop : List BackendOp :=
  ((List.range 10).map fun n => login s!"{n}" s!"desktop-{n}" 1).flatten ++
    login "other" "shared" 2 ++ (login "moved" "shared" 1).dropLast

theorem movingDesktop_exceeds : ¬ ∀ ops,
    Throughout AccountHistory.step AccountHistory.Promised .empty ops →
      Throughout AccountHistory.step AccountHistory.Honours .empty ops := by
  intro h
  have hlast := (h (movingDesktop ++ [.consumeAuthorizedAttempt "attempt-moved" "hash-moved"
    2592000000 "account-moved" "session-moved"]) (by decide +kernel)).last
  have hquota := hlast.consistent.quota "account-0" .desktop
  have hcount : ((transcript AccountHistory.step .empty movingDesktop).1.step
      (.consumeAuthorizedAttempt "attempt-moved" "hash-moved" 2592000000 "account-moved"
        "session-moved")).1.backend.activeInstallationCount "account-0" .desktop = 11 := by
    decide +kernel
  rw [hcount] at hquota
  exact absurd hquota (by decide)

end Harness.Account
