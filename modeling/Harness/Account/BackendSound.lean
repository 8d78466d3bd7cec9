import Mathlib.Tactic
import Harness.Account.Backend

namespace Harness.Account

open Harness.Foundation

namespace MemoryAccountBackend

variable {s t : MemoryAccountBackend}

theorem revoke_cases (s : MemoryAccountBackend) (id : AccountSessionId) :
    (s.revoke id = s ∧ ∀ session, s.sessions.get? id = some session → session.active = false) ∨
      ∃ session, s.sessions.get? id = some session ∧ session.active = true ∧
        s.revoke id = { s with
          sessions := s.sessions.set id
            { session with active := false, revision := session.revision + 1 }
          refreshIndex := s.refreshIndex.delete session.refreshHash } := by
  rw [revoke]
  cases hget : s.sessions.get? id with
  | none => exact .inl ⟨rfl, nofun⟩
  | some session =>
    cases hactive : session.active with
    | false =>
      left
      simp only [hactive, Bool.false_eq_true, if_false, true_and]
      rintro _ ⟨⟩
      exact hactive
    | true =>
      right
      exact ⟨session, rfl, hactive, by simp only [hactive, if_true]⟩

@[simp] theorem deletions_revoke (s : MemoryAccountBackend) (id : AccountSessionId) :
    (s.revoke id).deletions = s.deletions := by
  rcases revoke_cases s id with ⟨heq, _⟩ | ⟨_, _, _, heq⟩ <;> rw [heq]

@[simp] theorem attempts_revoke (s : MemoryAccountBackend) (id : AccountSessionId) :
    (s.revoke id).attempts = s.attempts := by
  rcases revoke_cases s id with ⟨heq, _⟩ | ⟨_, _, _, heq⟩ <;> rw [heq]

@[simp] theorem installationIndex_revoke (s : MemoryAccountBackend) (id : AccountSessionId) :
    (s.revoke id).installationIndex = s.installationIndex := by
  rcases revoke_cases s id with ⟨heq, _⟩ | ⟨_, _, _, heq⟩ <;> rw [heq]

theorem active_revoke {id other : AccountSessionId} {session : SessionRecord}
    (h : (s.revoke id).sessions.get? other = some session) (hactive : session.active = true) :
    other ≠ id ∧ s.sessions.get? other = some session := by
  rcases revoke_cases s id with ⟨heq, hidle⟩ | ⟨revoked, _, _, heq⟩
  · rw [heq] at h
    refine ⟨?_, h⟩
    rintro rfl
    rw [hidle session h] at hactive
    cases hactive
  · rw [heq, OrderedMap.get?_set] at h
    split at h
    · cases h
      cases hactive
    · rename_i hne
      exact ⟨hne, h⟩

theorem get?_revoke {id other : AccountSessionId} (hne : other ≠ id) :
    (s.revoke id).sessions.get? other = s.sessions.get? other := by
  rcases revoke_cases s id with ⟨heq, _⟩ | ⟨revoked, _, _, heq⟩
  · rw [heq]
  · rw [heq, OrderedMap.get?_set, if_neg hne]

theorem get?_revoke_none {id other : AccountSessionId} :
    (s.revoke id).sessions.get? other = none ↔ s.sessions.get? other = none := by
  by_cases hne : other = id
  · subst hne
    rcases revoke_cases s other with ⟨heq, _⟩ | ⟨revoked, hget, _, heq⟩
    · rw [heq]
    · rw [heq, OrderedMap.get?_set, if_pos rfl, hget]
      simp
  · rw [get?_revoke hne]

/-- The sessions, the indexes over them and the deletions agree with each other. -/
structure Sound (s : MemoryAccountBackend) : Prop where
  keyed : ∀ id session, s.sessions.get? id = some session → session.id = id
  installed : ∀ id session, s.sessions.get? id = some session → session.active = true →
    s.installationIndex.get?
      (installationKey session.identityNamespace session.installationId) = some id
  refresh : ∀ hash id, s.refreshIndex.get? hash = some id ↔
    ∃ session, s.sessions.get? id = some session ∧ session.active = true ∧
      session.refreshHash = hash
  quota : ∀ accountId kind, s.activeInstallationCount accountId kind ≤ installationLimit kind
  deleting : ∀ id record, s.deletions.get? id = some record → record.status ≠ .complete →
    ∀ sessionId session, s.sessions.get? sessionId = some session → session.active = true →
      session.accountId ≠ record.accountId

theorem sound_empty : Sound empty where
  keyed := nofun
  installed := nofun
  refresh _ _ := ⟨nofun, nofun⟩
  quota _ _ := Nat.zero_le _
  deleting := nofun

theorem Sound.congr (h : Sound s) (hsessions : t.sessions = s.sessions)
    (hrefresh : t.refreshIndex = s.refreshIndex)
    (hinstallation : t.installationIndex = s.installationIndex)
    (hdeletions : t.deletions = s.deletions) : Sound t where
  keyed := by
    rw [hsessions]
    exact h.keyed
  installed := by
    rw [hsessions, hinstallation]
    exact h.installed
  refresh := by
    rw [hsessions, hrefresh]
    exact h.refresh
  quota := by
    rw [funext fun accountId => funext fun kind =>
      show t.activeInstallationCount accountId kind = s.activeInstallationCount accountId kind by
        rw [activeInstallationCount, hsessions, activeInstallationCount]]
    exact h.quota
  deleting := by
    rw [hsessions, hdeletions]
    exact h.deleting

theorem Sound.hash_unique (h : Sound s) {id id' : AccountSessionId}
    {session session' : SessionRecord} (hget : s.sessions.get? id = some session)
    (hget' : s.sessions.get? id' = some session') (hactive : session.active = true)
    (hactive' : session'.active = true) (hhash : session.refreshHash = session'.refreshHash) :
    id = id' := by
  have hindexed := (h.refresh session.refreshHash id).mpr ⟨session, hget, hactive, rfl⟩
  have hindexed' := (h.refresh session.refreshHash id').mpr ⟨session', hget', hactive', hhash.symm⟩
  rw [hindexed] at hindexed'
  exact Option.some.inj hindexed'

theorem countP_revoke {id : AccountSessionId} {session : SessionRecord}
    (hget : s.sessions.get? id = some session) (hactive : session.active = true)
    (accountId : PlatformAccountId) (kind : InstallationKind) :
    (s.revoke id).activeInstallationCount accountId kind +
      [session].countP (live accountId kind) = s.activeInstallationCount accountId kind := by
  rcases revoke_cases s id with ⟨_, hidle⟩ | ⟨revoked, hrevoked, _, heq⟩
  · rw [hidle session hget] at hactive
    cases hactive
  · rw [hget] at hrevoked
    cases hrevoked
    have hcount := OrderedMap.countP_values_set s.sessions id
      { session with active := false, revision := session.revision + 1 } (live accountId kind)
    rw [hget, Option.toList_some] at hcount
    rw [heq, activeInstallationCount, hcount]
    rfl

theorem countP_revoke_le (s : MemoryAccountBackend) (id : AccountSessionId)
    (accountId : PlatformAccountId) (kind : InstallationKind) :
    (s.revoke id).activeInstallationCount accountId kind ≤
      s.activeInstallationCount accountId kind := by
  rcases revoke_cases s id with ⟨heq, _⟩ | ⟨session, hget, hactive, _⟩
  · rw [heq]
  · have := countP_revoke hget hactive accountId kind
    omega

theorem Sound.revoke (h : Sound s) (id : AccountSessionId) : Sound (s.revoke id) where
  keyed := by
    intro other session hget
    rcases revoke_cases s id with ⟨heq, _⟩ | ⟨revoked, hrevoked, _, heq⟩
    · rw [heq] at hget
      exact h.keyed other session hget
    · rw [heq, OrderedMap.get?_set] at hget
      split at hget
      · rename_i hsame
        cases hget
        subst hsame
        exact h.keyed other revoked hrevoked
      · exact h.keyed other session hget
  installed := by
    intro other session hget hactive
    rw [installationIndex_revoke]
    exact h.installed other session (active_revoke hget hactive).2 hactive
  refresh := by
    intro hash other
    rcases revoke_cases s id with ⟨heq, _⟩ | ⟨revoked, hrevoked, hactive, heq⟩
    · rw [heq]
      exact h.refresh hash other
    · rw [heq, OrderedMap.get?_delete, OrderedMap.get?_set]
      constructor
      · intro hindexed
        split at hindexed
        · cases hindexed
        · rename_i hne
          obtain ⟨session, hget, hlive, rfl⟩ := (h.refresh hash other).mp hindexed
          have hother : other ≠ id := by
            rintro rfl
            rw [hrevoked] at hget
            cases hget
            exact hne rfl
          rw [if_neg hother]
          exact ⟨session, hget, hlive, rfl⟩
      · rintro ⟨session, hget, hlive, rfl⟩
        split at hget
        · cases hget
          cases hlive
        · rename_i hother
          rw [if_neg]
          · exact (h.refresh _ other).mpr ⟨session, hget, hlive, rfl⟩
          · intro hhash
            exact hother (h.hash_unique hget hrevoked hlive hactive hhash)
  quota := by
    intro accountId kind
    exact (countP_revoke_le s id accountId kind).trans (h.quota accountId kind)
  deleting := by
    intro deletionId record hrecord hstatus other session hget hactive
    rw [deletions_revoke] at hrecord
    exact h.deleting deletionId record hrecord hstatus other session
      (active_revoke hget hactive).2 hactive

theorem Sound.foldl_revoke (h : Sound s) (ids : List AccountSessionId) :
    Sound (ids.foldl MemoryAccountBackend.revoke s) := by
  induction ids generalizing s with
  | nil => exact h
  | cons id ids ih => exact ih (h.revoke id)

theorem active_foldl_revoke {ids : List AccountSessionId} {other : AccountSessionId}
    {session : SessionRecord} (h : (ids.foldl revoke s).sessions.get? other = some session)
    (hactive : session.active = true) : other ∉ ids ∧ s.sessions.get? other = some session := by
  induction ids generalizing s with
  | nil => exact ⟨List.not_mem_nil, h⟩
  | cons id ids ih =>
    obtain ⟨hnot, hget⟩ := ih h
    obtain ⟨hne, hget⟩ := active_revoke hget hactive
    exact ⟨by simp [hne, hnot], hget⟩

@[simp] theorem deletions_foldl_revoke (s : MemoryAccountBackend) (ids : List AccountSessionId) :
    (ids.foldl revoke s).deletions = s.deletions := by
  induction ids generalizing s with
  | nil => rfl
  | cons id ids ih => rw [List.foldl_cons, ih, deletions_revoke]

@[simp] theorem attempts_foldl_revoke (s : MemoryAccountBackend) (ids : List AccountSessionId) :
    (ids.foldl revoke s).attempts = s.attempts := by
  induction ids generalizing s with
  | nil => rfl
  | cons id ids ih => rw [List.foldl_cons, ih, attempts_revoke]

theorem get?_eraseSession (s : MemoryAccountBackend) (id other : AccountSessionId) :
    (s.eraseSession id).sessions.get? other = if other = id then none else s.sessions.get? other := by
  rw [eraseSession, OrderedMap.get?_delete]
  split
  · rfl
  · rename_i hne
    exact get?_revoke hne

theorem Sound.eraseSession (h : Sound s) (id : AccountSessionId) : Sound (s.eraseSession id) where
  keyed := by
    intro other session hget
    rw [get?_eraseSession] at hget
    split at hget
    · cases hget
    · exact h.keyed other session hget
  installed := by
    intro other session hget hactive
    rw [get?_eraseSession] at hget
    split at hget
    · cases hget
    · change (s.revoke id).installationIndex.get? _ = _
      rw [installationIndex_revoke]
      exact h.installed other session hget hactive
  refresh := by
    intro hash other
    rw [get?_eraseSession]
    refine ((h.revoke id).refresh hash other).trans ?_
    constructor
    · rintro ⟨session, hget, hactive, hhash⟩
      obtain ⟨hne, hget⟩ := active_revoke hget hactive
      exact ⟨session, by rw [if_neg hne, hget], hactive, hhash⟩
    · rintro ⟨session, hget, hactive, hhash⟩
      split at hget
      · cases hget
      · rename_i hne
        exact ⟨session, (get?_revoke hne).trans hget, hactive, hhash⟩
  quota := by
    intro accountId kind
    have hcount := OrderedMap.countP_values_delete (s.revoke id).sessions id (live accountId kind)
    have hquota := (h.revoke id).quota accountId kind
    rw [activeInstallationCount] at hquota
    change ((s.revoke id).sessions.delete id).values.countP (live accountId kind) ≤ _
    omega
  deleting := by
    intro deletionId record hrecord hstatus other session hget hactive
    rw [get?_eraseSession] at hget
    split at hget
    · cases hget
    · exact h.deleting deletionId record ((deletions_revoke s id) ▸ hrecord) hstatus other session
        hget hactive

theorem Sound.foldl_eraseSession (h : Sound s) (ids : List AccountSessionId) :
    Sound (ids.foldl MemoryAccountBackend.eraseSession s) := by
  induction ids generalizing s with
  | nil => exact h
  | cons id ids ih => exact ih (h.eraseSession id)

theorem get?_foldl_eraseSession (s : MemoryAccountBackend) (ids : List AccountSessionId)
    (other : AccountSessionId) : (ids.foldl eraseSession s).sessions.get? other =
      if other ∈ ids then none else s.sessions.get? other := by
  induction ids generalizing s with
  | nil => simp
  | cons id ids ih =>
    rw [List.foldl_cons, ih, get?_eraseSession]
    by_cases hne : other = id <;> simp [hne]

@[simp] theorem deletions_foldl_eraseSession (s : MemoryAccountBackend)
    (ids : List AccountSessionId) : (ids.foldl eraseSession s).deletions = s.deletions := by
  induction ids generalizing s with
  | nil => rfl
  | cons id ids ih =>
    rw [List.foldl_cons, ih]
    exact deletions_revoke s id

@[simp] theorem attempts_foldl_eraseSession (s : MemoryAccountBackend)
    (ids : List AccountSessionId) : (ids.foldl eraseSession s).attempts = s.attempts := by
  induction ids generalizing s with
  | nil => rfl
  | cons id ids ih =>
    rw [List.foldl_cons, ih]
    exact attempts_revoke s id

theorem count_createSession {session : SessionRecord} (hfresh : s.sessions.get? session.id = none)
    (id : LoginAttemptId) (attempt : LoginAttemptRecord) (accountId : PlatformAccountId)
    (kind : InstallationKind) :
    (s.createSession id attempt session).activeInstallationCount accountId kind =
      s.activeInstallationCount accountId kind + [session].countP (live accountId kind) := by
  have hcount := OrderedMap.countP_values_set s.sessions session.id session (live accountId kind)
  rw [hfresh, Option.toList_none, List.countP_nil, Nat.add_zero] at hcount
  exact hcount

theorem Sound.createSession (h : Sound s) {id : LoginAttemptId} {attempt : LoginAttemptRecord}
    {session : SessionRecord} (hnamespace : session.identityNamespace = attempt.identityNamespace)
    (hinstallation : session.installationId = attempt.installationId)
    (hactive : session.active = true) (hfresh : s.sessions.get? session.id = none)
    (hhash : ∀ other found, s.sessions.get? other = some found →
      found.refreshHash ≠ session.refreshHash)
    (hsole : ∀ other found, s.sessions.get? other = some found → found.active = true →
      installationKey found.identityNamespace found.installationId ≠
        installationKey attempt.identityNamespace attempt.installationId)
    (hroom : s.activeInstallationCount session.accountId session.installationKind <
      installationLimit session.installationKind)
    (hkept : ∀ deletionId record, s.deletions.get? deletionId = some record →
      record.status ≠ .complete → session.accountId ≠ record.accountId) :
    Sound (s.createSession id attempt session) where
  keyed := by
    intro other found hget
    change (s.sessions.set session.id session).get? other = some found at hget
    rw [OrderedMap.get?_set] at hget
    split at hget
    · rename_i hsame
      cases hget
      exact hsame.symm
    · exact h.keyed other found hget
  installed := by
    intro other found hget hlive
    change (s.sessions.set session.id session).get? other = some found at hget
    change (s.installationIndex.set _ session.id).get? _ = some other
    rw [OrderedMap.get?_set] at hget ⊢
    split at hget
    · rename_i hsame
      cases hget
      rw [if_pos (by rw [hnamespace, hinstallation]), hsame]
    · rw [if_neg (hsole other found hget hlive)]
      exact h.installed other found hget hlive
  refresh := by
    intro hash other
    change (s.refreshIndex.set session.refreshHash session.id).get? hash = some other ↔
      ∃ found, (s.sessions.set session.id session).get? other = some found ∧ _
    simp only [OrderedMap.get?_set]
    constructor
    · intro hindexed
      split at hindexed
      · rename_i hsame
        cases hindexed
        exact ⟨session, if_pos rfl, hactive, hsame.symm⟩
      · obtain ⟨found, hget, hlive, hfound⟩ := (h.refresh hash other).mp hindexed
        have hne : other ≠ session.id := by
          rintro rfl
          rw [hfresh] at hget
          cases hget
        exact ⟨found, (if_neg hne).trans hget, hlive, hfound⟩
    · rintro ⟨found, hget, hlive, rfl⟩
      split at hget
      · rename_i hsame
        cases hget
        rw [if_pos rfl, hsame]
      · rw [if_neg (hhash other found hget)]
        exact (h.refresh _ other).mpr ⟨found, hget, hlive, rfl⟩
  quota := by
    intro accountId kind
    rw [count_createSession hfresh]
    by_cases hlive : live accountId kind session = true
    · have hmine := hlive
      simp only [live, Bool.and_eq_true, decide_eq_true_eq] at hmine
      obtain ⟨⟨_, rfl⟩, rfl⟩ := hmine
      rw [List.countP_singleton, if_pos hlive]
      exact hroom
    · rw [List.countP_singleton, if_neg hlive]
      exact h.quota accountId kind
  deleting := by
    intro deletionId record hrecord hstatus other found hget hlive
    change (s.sessions.set session.id session).get? other = some found at hget
    rw [OrderedMap.get?_set] at hget
    split at hget
    · cases hget
      exact hkept deletionId record hrecord hstatus
    · exact h.deleting deletionId record hrecord hstatus other found hget hlive

theorem rotateRefresh_cases (s : MemoryAccountBackend) (id : AccountSessionId)
    (expectedHash replacementHash : String) :
    s.rotateRefresh id expectedHash replacementHash = (none, s) ∨
      ∃ session, s.sessions.get? id = some session ∧ session.active = true ∧
        session.refreshHash = expectedHash ∧
        s.rotateRefresh id expectedHash replacementHash =
          (some { session with refreshHash := replacementHash, revision := session.revision + 1 },
            { s with
              sessions := s.sessions.set id
                { session with refreshHash := replacementHash, revision := session.revision + 1 }
              refreshIndex :=
                (s.refreshIndex.delete expectedHash).set replacementHash session.id }) := by
  rw [rotateRefresh]
  cases hget : s.sessions.get? id with
  | none => exact .inl rfl
  | some session =>
    simp only
    split
    · exact .inl rfl
    · rename_i hcurrent
      simp only [Bool.or_eq_true, Bool.not_eq_true', decide_eq_true_eq, not_or, ne_eq,
        not_not, Bool.not_eq_false] at hcurrent
      exact .inr ⟨session, rfl, hcurrent.1, hcurrent.2, rfl⟩

theorem Sound.rotateRefresh (h : Sound s) {id : AccountSessionId}
    {expectedHash replacementHash : String}
    (hhash : ∀ other found, s.sessions.get? other = some found →
      found.refreshHash ≠ replacementHash) :
    Sound (s.rotateRefresh id expectedHash replacementHash).2 := by
  rcases rotateRefresh_cases s id expectedHash replacementHash with
    heq | ⟨session, hsession, hactive, rfl, heq⟩
  · rw [heq]
    exact h
  · rw [heq]
    have hid := h.keyed id session hsession
    constructor
    · intro other found hget
      rw [OrderedMap.get?_set] at hget
      split at hget
      · rename_i hsame
        cases hget
        exact hid.trans hsame.symm
      · exact h.keyed other found hget
    · intro other found hget hlive
      rw [OrderedMap.get?_set] at hget
      split at hget
      · rename_i hsame
        cases hget
        subst hsame
        exact h.installed other session hsession hactive
      · exact h.installed other found hget hlive
    · intro hash other
      simp only [OrderedMap.get?_set, OrderedMap.get?_delete]
      constructor
      · intro hindexed
        split at hindexed
        · rename_i hsame
          cases hindexed
          exact ⟨_, if_pos hid, hactive, hsame.symm⟩
        · split at hindexed
          · cases hindexed
          · rename_i hne
            obtain ⟨found, hget, hlive, rfl⟩ := (h.refresh hash other).mp hindexed
            have hother : other ≠ id := by
              rintro rfl
              rw [hsession] at hget
              cases hget
              exact hne rfl
            exact ⟨found, (if_neg hother).trans hget, hlive, rfl⟩
      · rintro ⟨found, hget, hlive, rfl⟩
        split at hget
        · rename_i hsame
          cases hget
          rw [if_pos rfl, hid, hsame]
        · rename_i hother
          rw [if_neg (hhash other found hget), if_neg]
          · exact (h.refresh _ other).mpr ⟨found, hget, hlive, rfl⟩
          · intro hsame
            exact hother (h.hash_unique hget hsession hlive hactive hsame)
    · intro accountId kind
      have hcount := OrderedMap.countP_values_set s.sessions id
        { session with refreshHash := replacementHash, revision := session.revision + 1 }
        (live accountId kind)
      rw [hsession, Option.toList_some] at hcount
      have hsame : [{ session with
          refreshHash := replacementHash, revision := session.revision + 1 }].countP
          (live accountId kind) = [session].countP (live accountId kind) := rfl
      have hquota := h.quota accountId kind
      rw [activeInstallationCount] at hquota
      change (s.sessions.set id _).values.countP (live accountId kind) ≤ _
      omega
    · intro deletionId record hrecord hstatus other found hget hlive
      rw [OrderedMap.get?_set] at hget
      split at hget
      · cases hget
        exact h.deleting deletionId record hrecord hstatus id session hsession hactive
      · exact h.deleting deletionId record hrecord hstatus other found hget hlive

theorem deleting_iff {accountId : PlatformAccountId} : s.deleting accountId = true ↔
    ∃ id record, s.deletions.get? id = some record ∧ record.accountId = accountId ∧
      record.status ≠ .complete := by
  rw [deleting, List.any_eq_true]
  constructor
  · rintro ⟨record, hmem, hrecord⟩
    obtain ⟨id, hget⟩ := OrderedMap.mem_values_iff.mp hmem
    exact ⟨id, record, hget, of_decide_eq_true hrecord⟩
  · rintro ⟨id, record, hget, hrecord⟩
    exact ⟨record, OrderedMap.mem_values_iff.mpr ⟨id, hget⟩, decide_eq_true hrecord⟩

theorem replacedSessionId_eq_some {key : String} {id : AccountSessionId} :
    s.replacedSessionId key = some id ↔ s.installationIndex.get? key = some id ∧
      ∃ session, s.sessions.get? id = some session ∧ session.active = true := by
  rw [replacedSessionId, Option.filter_eq_some_iff, Option.any_eq_true]

theorem Sound.sole_of_none (h : Sound s) {key : String} (hnone : s.replacedSessionId key = none)
    {id : AccountSessionId} {session : SessionRecord} (hget : s.sessions.get? id = some session)
    (hactive : session.active = true) :
    installationKey session.identityNamespace session.installationId ≠ key := by
  rintro rfl
  have := replacedSessionId_eq_some.mpr ⟨h.installed id session hget hactive, session, hget, hactive⟩
  rw [hnone] at this
  cases this

theorem Sound.sole_of_some (h : Sound s) {key : String} {replaced : AccountSessionId}
    (hsome : s.replacedSessionId key = some replaced) {id : AccountSessionId}
    {session : SessionRecord} (hget : s.sessions.get? id = some session)
    (hactive : session.active = true) (hne : id ≠ replaced) :
    installationKey session.identityNamespace session.installationId ≠ key := by
  rintro rfl
  have hindexed := h.installed id session hget hactive
  rw [(replacedSessionId_eq_some.mp hsome).1] at hindexed
  exact hne (Option.some.inj hindexed).symm

theorem selectAccount_id (s : MemoryAccountBackend) (attempt : LoginAttemptRecord)
    (identity : GitHubIdentity) (accountUuid : PlatformAccountId) :
    (s.selectAccount attempt identity accountUuid).1 = accountOf attempt identity
      ((s.accountIndex.get? (identityKey attempt.identityNamespace
        identity.providerSubject)).getD accountUuid) := by
  rw [selectAccount]
  cases s.accountIndex.get? (identityKey attempt.identityNamespace identity.providerSubject) <;> rfl

theorem selectAccount_frame (s : MemoryAccountBackend) (attempt : LoginAttemptRecord)
    (identity : GitHubIdentity) (accountUuid : PlatformAccountId) :
    (s.selectAccount attempt identity accountUuid).2.sessions = s.sessions ∧
      (s.selectAccount attempt identity accountUuid).2.refreshIndex = s.refreshIndex ∧
      (s.selectAccount attempt identity accountUuid).2.installationIndex = s.installationIndex ∧
      (s.selectAccount attempt identity accountUuid).2.deletions = s.deletions ∧
      (s.selectAccount attempt identity accountUuid).2.attempts = s.attempts := by
  rw [selectAccount]
  cases s.accountIndex.get? (identityKey attempt.identityNamespace identity.providerSubject) <;>
    exact ⟨rfl, rfl, rfl, rfl, rfl⟩

theorem count_selectAccount (s : MemoryAccountBackend) (attempt : LoginAttemptRecord)
    (identity : GitHubIdentity) (accountUuid accountId : PlatformAccountId)
    (kind : InstallationKind) :
    (s.selectAccount attempt identity accountUuid).2.activeInstallationCount accountId kind =
      s.activeInstallationCount accountId kind := by
  rw [activeInstallationCount, (selectAccount_frame s attempt identity accountUuid).1,
    activeInstallationCount]

def chosenAccountId (s : MemoryAccountBackend) (attempt : LoginAttemptRecord)
    (identity : GitHubIdentity) (accountUuid : PlatformAccountId) : PlatformAccountId :=
  (s.accountIndex.get? (identityKey attempt.identityNamespace identity.providerSubject)).getD
    accountUuid

def keyOf (attempt : LoginAttemptRecord) : String :=
  installationKey attempt.identityNamespace attempt.installationId

/-- How a checked attempt ends: refused for a deletion, as a replacement, refused for the quota, or
as a session more. -/
theorem consume_cases (s : MemoryAccountBackend) (id : LoginAttemptId)
    (attempt : LoginAttemptRecord) (identity : GitHubIdentity) (refreshHash : String)
    (refreshExpiresAt : Int) (accountUuid : PlatformAccountId) (sessionUuid : AccountSessionId) :
    let result := s.consume id attempt identity refreshHash refreshExpiresAt accountUuid sessionUuid
    let accountId := s.chosenAccountId attempt identity accountUuid
    let selected := (s.selectAccount attempt identity accountUuid).2
    let session := sessionOf attempt accountId refreshHash refreshExpiresAt sessionUuid
    ((s.accountIndex.get? (identityKey attempt.identityNamespace
          identity.providerSubject)).any s.deleting = true ∧
        ∃ error, result = (.error error, s)) ∨
      ((s.accountIndex.get? (identityKey attempt.identityNamespace
          identity.providerSubject)).any s.deleting = false ∧
        ((∃ replaced created, s.replacedSessionId (keyOf attempt) = some replaced ∧
            result = (.ok created, (selected.revoke replaced).createSession id attempt session)) ∨
          (s.replacedSessionId (keyOf attempt) = none ∧
            ((installationLimit attempt.installationKind ≤
                s.activeInstallationCount accountId attempt.installationKind ∧
                ∃ error, result = (.error error, selected)) ∨
              (s.activeInstallationCount accountId attempt.installationKind <
                installationLimit attempt.installationKind ∧
                ∃ created, result = (.ok created, selected.createSession id attempt session)))))) := by
  obtain ⟨hsessions, _, hinstallation, _, _⟩ := selectAccount_frame s attempt identity accountUuid
  have hid : (s.selectAccount attempt identity accountUuid).1.id =
      s.chosenAccountId attempt identity accountUuid := by
    rw [selectAccount_id]
    rfl
  have hreplaced : (s.selectAccount attempt identity accountUuid).2.replacedSessionId
      (keyOf attempt) = s.replacedSessionId (keyOf attempt) := by
    rw [replacedSessionId, hsessions, hinstallation, replacedSessionId]
  simp only [consume]
  cases hdeleting : (s.accountIndex.get? (identityKey attempt.identityNamespace
      identity.providerSubject)).any s.deleting with
  | true => exact .inl ⟨rfl, _, rfl⟩
  | false =>
    right
    refine ⟨rfl, ?_⟩
    simp only [Bool.false_eq_true, if_false]
    rw [← keyOf, hreplaced, hid, count_selectAccount]
    cases s.replacedSessionId (keyOf attempt) with
    | some replaced => exact .inl ⟨replaced, _, rfl, rfl⟩
    | none =>
      right
      refine ⟨rfl, ?_⟩
      simp only
      split
      · rename_i hfull
        exact .inl ⟨hfull, _, rfl⟩
      · rename_i hroom
        exact .inr ⟨Nat.lt_of_not_le hroom, _, rfl⟩

theorem replaced_consume {id : LoginAttemptId} {attempt : LoginAttemptRecord}
    {identity : GitHubIdentity} {refreshHash : String} {refreshExpiresAt : Int}
    {accountUuid : PlatformAccountId} {sessionUuid replaced : AccountSessionId}
    {created : CreatedSession}
    (hcreated : (s.consume id attempt identity refreshHash refreshExpiresAt accountUuid
      sessionUuid).1 = .ok created) (hreplaced : created.replacedSessionId = some replaced) :
    s.replacedSessionId (keyOf attempt) = some replaced := by
  obtain ⟨hsessions, _, hinstallation, _, _⟩ := selectAccount_frame s attempt identity accountUuid
  have hsame : (s.selectAccount attempt identity accountUuid).2.replacedSessionId
      (keyOf attempt) = s.replacedSessionId (keyOf attempt) := by
    rw [replacedSessionId, hsessions, hinstallation, replacedSessionId]
  simp only [consume] at hcreated
  split at hcreated
  · cases hcreated
  · rw [← keyOf, hsame] at hcreated
    cases hfound : s.replacedSessionId (keyOf attempt) with
    | some found =>
      rw [hfound] at hcreated
      cases hcreated
      exact hreplaced
    | none =>
      rw [hfound] at hcreated
      simp only at hcreated
      split at hcreated
      · cases hcreated
      · cases hcreated
        cases hreplaced

theorem consumeAuthorizedAttempt_cases (s : MemoryAccountBackend) (id : LoginAttemptId)
    (refreshHash : String) (refreshExpiresAt : Int) (accountUuid : PlatformAccountId)
    (sessionUuid : AccountSessionId) :
    (∃ error, s.consumeAuthorizedAttempt id refreshHash refreshExpiresAt accountUuid sessionUuid =
        (.error error, s)) ∨
      ∃ attempt identity, s.attempts.get? id = some attempt ∧ attempt.status = .authorized ∧
        attempt.identity = some identity ∧
        s.consumeAuthorizedAttempt id refreshHash refreshExpiresAt accountUuid sessionUuid =
          s.consume id attempt identity refreshHash refreshExpiresAt accountUuid sessionUuid := by
  rw [consumeAuthorizedAttempt]
  cases hget : s.attempts.get? id with
  | none => exact .inl ⟨_, rfl⟩
  | some attempt =>
    simp only
    split
    · exact .inl ⟨_, rfl⟩
    · split
      · rename_i identity hstatus hidentity
        exact .inr ⟨attempt, identity, rfl, hstatus, hidentity, rfl⟩
      · exact .inl ⟨_, rfl⟩

theorem revokeMobileInstallation_cases (s : MemoryAccountBackend) (initiating : SessionRecord)
    (installationId : InstallationId) :
    (∃ result, s.revokeMobileInstallation initiating installationId = (result, s)) ∨
      ∃ current account sessionIds, s.revokeMobileInstallation initiating installationId =
        (.ok sessionIds, sessionIds.foldl (revokeInstallation current installationId)
          (s.cancelAttempts current installationId account)) := by
  rw [revokeMobileInstallation]
  split
  · exact .inl ⟨_, rfl⟩
  · cases s.sessions.get? initiating.id with
    | none => exact .inl ⟨_, rfl⟩
    | some current =>
      simp only
      split
      · exact .inl ⟨_, rfl⟩
      · split
        · split
          · exact .inl ⟨_, rfl⟩
          · exact .inl ⟨_, rfl⟩
        · cases s.accounts.get? current.accountId with
          | none => exact .inl ⟨_, rfl⟩
          | some account => exact .inr ⟨current, account, _, rfl⟩

theorem beginAccountDeletion_cases (s : MemoryAccountBackend) (record : AccountDeletionRecord)
    (initiating : SessionRecord) :
    (∃ error, s.beginAccountDeletion record initiating = (.error error, s)) ∨
      ∃ current, s.sessions.get? initiating.id = some current ∧ current.active = true ∧
        let sessionIds := (s.sessions.values.filter fun session =>
          session.accountId = record.accountId).map SessionRecord.id
        s.beginAccountDeletion record initiating = (.ok { record with sessionIds },
          { sessionIds.foldl revoke s with
            deletions := s.deletions.set record.operationId { record with sessionIds } }) := by
  rw [beginAccountDeletion]
  cases s.deletions.get? record.operationId with
  | some existing => exact .inl ⟨_, rfl⟩
  | none =>
    cases hcurrent : s.sessions.get? initiating.id with
    | none => exact .inl ⟨_, rfl⟩
    | some current =>
      simp only
      split
      · exact .inl ⟨_, rfl⟩
      · rename_i hactive
        simp only [Bool.or_eq_true, Bool.not_eq_true', decide_eq_true_eq, not_or, ne_eq,
          not_not, Bool.not_eq_false] at hactive
        right
        refine ⟨current, rfl, hactive.1, ?_⟩
        rw [deletions_foldl_revoke]

end MemoryAccountBackend

end Harness.Account
