import Mathlib.Tactic
import Harness.Account.Connections

/-! Revoked sessions keep no connection, and no Account tracks too many, as long as every admission
comes before the invalidation and finds the Account's live sessions counted. -/

namespace Harness.Account

open Harness.Foundation

namespace PlatformAccount

theorem closersOf_set (p : PlatformAccount) (sessionId : AccountSessionId)
    (closers : List ConnectionId) (other : AccountSessionId) :
    closersOf { p with connections := p.connections.set sessionId closers } other =
      if other = sessionId then closers else p.closersOf other := by
  rw [closersOf, OrderedMap.get?_set]
  split <;> rfl

theorem closersOf_delete (p : PlatformAccount) (sessionId other : AccountSessionId) :
    closersOf { p with connections := p.connections.delete sessionId } other =
      if other = sessionId then [] else p.closersOf other := by
  rw [closersOf, OrderedMap.get?_delete]
  split <;> rfl

theorem closersOf_release (p : PlatformAccount) (sessionId : AccountSessionId)
    (close : ConnectionId) (other : AccountSessionId) :
    (p.release sessionId close).closersOf other =
      if other = sessionId then (p.closersOf sessionId).filter fun kept => kept ≠ close
      else p.closersOf other := by
  rw [release]
  cases hget : p.connections.get? sessionId with
  | none =>
    simp only
    split
    · rename_i hsame
      rw [hsame, closersOf, hget]
      rfl
    · rfl
  | some current =>
    have hcurrent : p.closersOf sessionId = current := by rw [closersOf, hget, Option.getD_some]
    simp only
    split
    · rename_i hempty
      rw [closersOf_delete, hcurrent, hempty]
    · rw [closersOf_set, hcurrent]

theorem sum_release_le (p : PlatformAccount) (sessionId : AccountSessionId) (close : ConnectionId)
    (counted : AccountSessionId → Bool) :
    ((p.release sessionId close).connections.sum fun other closers =>
        if counted other then closers.length else 0) ≤
      p.connections.sum fun other closers => if counted other then closers.length else 0 := by
  rw [release]
  cases hget : p.connections.get? sessionId with
  | none => exact le_rfl
  | some current =>
    have hless : (current.filter fun kept => decide (kept ≠ close)).length ≤ current.length :=
      List.length_filter_le _ _
    simp only
    split
    · have hsum := OrderedMap.sum_delete p.connections sessionId
        fun other closers => if counted other then closers.length else 0
      exact Nat.le.intro hsum
    · have hsum := OrderedMap.sum_set p.connections sessionId
        (current.filter fun kept => decide (kept ≠ close))
        fun other closers => if counted other then closers.length else 0
      rw [hget, Option.map_some, Option.getD_some] at hsum
      change (p.connections.set sessionId
        (current.filter fun kept => decide (kept ≠ close))).sum _ ≤ _
      cases hcounted : counted sessionId with
      | true =>
        simp only [hcounted, if_true] at hsum
        omega
      | false =>
        simp only [hcounted, Bool.false_eq_true, if_false] at hsum
        omega

theorem get?_release {p : PlatformAccount} {sessionId other : AccountSessionId}
    {close : ConnectionId} {closers : List ConnectionId}
    (h : (p.release sessionId close).connections.get? other = some closers) :
    ∃ before, p.connections.get? other = some before := by
  rw [release] at h
  cases hget : p.connections.get? sessionId with
  | none =>
    rw [hget] at h
    exact ⟨closers, h⟩
  | some current =>
    simp only [hget] at h
    split at h
    · rw [OrderedMap.get?_delete] at h
      split at h
      · cases h
      · exact ⟨closers, h⟩
    · rw [OrderedMap.get?_set] at h
      split at h
      · rename_i hsame
        exact ⟨current, hsame ▸ hget⟩
      · exact ⟨closers, h⟩

theorem trackConnection_cases (p : PlatformAccount) (sessionId : AccountSessionId)
    (close : ConnectionId) (answer : Option SessionRecord) :
    (∃ error, (p.trackConnection sessionId close answer).1 = .error error ∧
        (p.trackConnection sessionId close answer).2.connections = p.connections) ∨
      ∃ session, answer = some session ∧ session.active = true ∧
        countAccountConnections
            { p with sessionAccounts := p.sessionAccounts.set sessionId session.accountId }
            session.accountId < accountConcurrentConnectionLimit ∧
        (p.trackConnection sessionId close answer).1 = .ok () ∧
        (p.trackConnection sessionId close answer).2.connections =
          p.connections.set sessionId (if close ∈ p.closersOf sessionId then p.closersOf sessionId
            else p.closersOf sessionId ++ [close]) := by
  rw [trackConnection]
  cases hanswer : answer.filter SessionRecord.active with
  | none => exact .inl ⟨_, rfl, rfl⟩
  | some session =>
    obtain ⟨rfl, hactive⟩ := Option.filter_eq_some_iff.mp hanswer
    simp only
    split
    · exact .inl ⟨_, rfl, rfl⟩
    · rename_i hroom
      exact .inr ⟨session, rfl, hactive, Nat.lt_of_not_le hroom, rfl, rfl⟩

end PlatformAccount

theorem sum_map_set {α : Type} (f : α → Nat) {l : List α} {i : Nat} {old : α}
    (h : l[i]? = some old) (new : α) :
    ((l.set i new).map f).sum + f old = (l.map f).sum + f new := by
  induction l generalizing i with
  | nil => cases h
  | cons a l ih =>
    cases i with
    | zero =>
      cases h
      simp only [List.set_cons_zero, List.map_cons, List.sum_cons]
      omega
    | succ i =>
      have := ih h
      simp only [List.set_cons_succ, List.map_cons, List.sum_cons]
      omega

namespace PlatformInstance

variable {s : PlatformInstance}

/-- The condition of an admission: a call that would be admitted goes on before the session's
invalidation is delivered; and the other live sessions of the Account with connections are all
counted, so none of them waits for a revocation to commit, or there is room without counting. -/
def Guarded (s : PlatformInstance) : InstanceOp → Prop
  | .resume close =>
    match s.calls.get? close with
    | some { sessionId, answer := some (some session) } =>
      session.active = true →
      PlatformAccount.countAccountConnections { s.account with
          sessionAccounts := s.account.sessionAccounts.set sessionId session.accountId }
        session.accountId < accountConcurrentConnectionLimit →
      (∀ delivery ∈ s.deliveries, delivery.1 ≠ sessionId) ∧
        ((∀ entry ∈ s.account.connections.entries, s.liveOf session.accountId entry.1 = true →
            entry.1 ≠ sessionId →
              s.account.sessionAccounts.get? entry.1 = some session.accountId) ∨
          s.liveConnections session.accountId < accountConcurrentConnectionLimit)
    | _ => True
  | _ => True

def awaiting (s : PlatformInstance) (sessionId : AccountSessionId) (close : ConnectionId) : Nat :=
  (s.closings.map fun loop => if loop.1 = sessionId then loop.2.count close else 0).sum

/-- What the claim promises of a state: once the calls of a delivery are over the session has no
tracked connection, and once the closing loops are over too, each of its connections was released
or closed exactly once. -/
structure Settled (s : PlatformInstance) : Prop where
  untracked : ∀ sessionId inflight, (sessionId, inflight) ∈ s.deliveries →
    (∀ close ∈ inflight, s.calls.get? close = none) → s.account.connections.get? sessionId = none
  closedOnce : ∀ sessionId inflight, (sessionId, inflight) ∈ s.deliveries →
    (∀ close ∈ inflight, s.calls.get? close = none) →
    (∀ loop ∈ s.closings, loop.1 = sessionId → loop.2 = []) →
    ∀ close, (sessionId, close) ∈ s.admitted →
      s.released.count (sessionId, close) + s.closed.count (sessionId, close) = 1
  limited : ∀ accountId, s.liveConnections accountId ≤ accountConcurrentConnectionLimit

structure Kept (s : PlatformInstance) : Prop where
  known : ∀ sessionId closers, s.account.connections.get? sessionId = some closers →
    ∃ session, s.sessions.get? sessionId = some session
  answered : ∀ close sessionId session,
    s.calls.get? close = some { sessionId, answer := some (some session) } →
    ∃ now, s.sessions.get? sessionId = some now ∧ now.accountId = session.accountId
  delivered : ∀ delivery ∈ s.deliveries, s.account.connections.get? delivery.1 = none
  limited : ∀ accountId, s.liveConnections accountId ≤ accountConcurrentConnectionLimit
  waiting : ∀ close call, s.calls.get? close = some call →
    close ∈ s.brought ∧ ∀ sessionId, (sessionId, close) ∉ s.admitted
  brought : ∀ pair ∈ s.admitted, pair.2 ∈ s.brought
  distinct : s.admitted.Nodup
  balanced : ∀ sessionId close, (s.account.closersOf sessionId).count close +
    s.awaiting sessionId close + s.closed.count (sessionId, close) +
      s.released.count (sessionId, close) = s.admitted.count (sessionId, close)

theorem kept_empty : Kept empty where
  known := nofun
  answered := nofun
  delivered := nofun
  limited _ := Nat.zero_le _
  waiting := nofun
  brought := nofun
  distinct := List.nodup_nil
  balanced _ _ := rfl

theorem Kept.settled (h : Kept s) : Settled s where
  untracked sessionId inflight hmem _ := h.delivered (sessionId, inflight) hmem
  closedOnce := by
    intro sessionId inflight hmem _ hover close hadmitted
    have hbalanced := h.balanced sessionId close
    have hnone := h.delivered (sessionId, inflight) hmem
    have hclosers : s.account.closersOf sessionId = [] := by
      rw [PlatformAccount.closersOf, hnone, Option.getD_none]
    have hawaiting : s.awaiting sessionId close = 0 := by
      apply List.sum_eq_zero
      intro n hn
      obtain ⟨loop, hloop, rfl⟩ := List.mem_map.mp hn
      split
      · rename_i hsame
        rw [hover loop hloop hsame, List.count_nil]
      · rfl
    rw [hclosers, hawaiting, List.count_nil,
      List.count_eq_one_of_mem h.distinct hadmitted] at hbalanced
    omega
  limited := h.limited

theorem Kept.commit (h : Kept s) (sessionId : AccountSessionId) : Kept (s.commit sessionId) := by
  have hstill : ∀ other session, s.sessions.get? other = some session →
      ∃ now, (s.commit sessionId).sessions.get? other = some now ∧
        now.accountId = session.accountId ∧ (now.active = true → session.active = true) := by
    intro other session hget
    rw [PlatformInstance.commit, OrderedMap.get?_modify, hget]
    split
    · refine ⟨_, rfl, ?_, ?_⟩
      · dsimp only
        split <;> rfl
      · dsimp only
        split
        · nofun
        · exact id
    · exact ⟨session, rfl, rfl, id⟩
  refine { h with known := ?_, answered := ?_, limited := ?_ }
  · intro other closers hget
    obtain ⟨session, hsession⟩ := h.known other closers hget
    obtain ⟨now, hnow, _⟩ := hstill other session hsession
    exact ⟨now, hnow⟩
  · intro close other session hcall
    obtain ⟨before, hbefore, hsame⟩ := h.answered close other session hcall
    obtain ⟨now, hnow, hid, _⟩ := hstill other before hbefore
    exact ⟨now, hnow, hid.trans hsame⟩
  · intro accountId
    refine le_trans (OrderedMap.sum_le_sum ?_) (h.limited accountId)
    intro other closers hget
    obtain ⟨session, hsession⟩ := h.known other closers hget
    obtain ⟨now, hnow, hid, hactive⟩ := hstill other session hsession
    by_cases hlive : (s.commit sessionId).liveOf accountId other = true
    · have hbefore : s.liveOf accountId other = true := by
        rw [liveOf, hnow, Option.any_some, Bool.and_eq_true, decide_eq_true_eq] at hlive
        rw [liveOf, hsession, Option.any_some, Bool.and_eq_true, decide_eq_true_eq]
        exact ⟨hactive hlive.1, hid ▸ hlive.2⟩
      rw [if_pos hlive, if_pos hbefore]
    · rw [if_neg hlive]
      exact Nat.zero_le _

theorem Kept.login (h : Kept s) {session : SessionRecord} (hnew : session.id ∉ s.sessions.keys) :
    Kept { s with sessions := s.sessions.set session.id session } := by
  have hother : ∀ other found, s.sessions.get? other = some found → other ≠ session.id := by
    rintro other found hget rfl
    rw [OrderedMap.get?_eq_none_of_notMem hnew] at hget
    cases hget
  refine { h with known := ?_, answered := ?_, limited := ?_ }
  · intro other closers hget
    obtain ⟨found, hfound⟩ := h.known other closers hget
    refine ⟨found, ?_⟩
    rw [OrderedMap.get?_set, if_neg (hother other found hfound)]
    exact hfound
  · intro close other answer hcall
    obtain ⟨found, hfound, hsame⟩ := h.answered close other answer hcall
    refine ⟨found, ?_, hsame⟩
    rw [OrderedMap.get?_set, if_neg (hother other found hfound)]
    exact hfound
  · intro accountId
    refine le_trans (OrderedMap.sum_le_sum ?_) (h.limited accountId)
    intro other closers hget
    obtain ⟨found, hfound⟩ := h.known other closers hget
    simp only [liveOf, OrderedMap.get?_set, if_neg (hother other found hfound)]
    exact le_rfl

theorem Kept.track (h : Kept s) {sessionId : AccountSessionId} {close : ConnectionId}
    (hnew : close ∉ s.brought) : Kept { s with
      calls := s.calls.set close { sessionId, answer := none }
      brought := s.brought ++ [close] } := by
  refine { h with answered := ?_, waiting := ?_, brought := ?_ }
  · intro other otherId session hcall
    rw [OrderedMap.get?_set] at hcall
    split at hcall
    · cases hcall
    · exact h.answered other otherId session hcall
  · intro other call hcall
    rw [OrderedMap.get?_set] at hcall
    split at hcall
    · rename_i hsame
      subst hsame
      refine ⟨List.mem_append.mpr (.inr List.mem_cons_self), ?_⟩
      intro otherId hadmitted
      exact hnew (h.brought _ hadmitted)
    · obtain ⟨hbrought, hfree⟩ := h.waiting other call hcall
      exact ⟨List.mem_append.mpr (.inl hbrought), hfree⟩
  · intro pair hpair
    exact List.mem_append.mpr (.inl (h.brought pair hpair))

theorem Kept.read (h : Kept s) {close : ConnectionId} {call : TrackCall}
    (hcall : s.calls.get? close = some call) : Kept { s with
      calls := s.calls.set close
        { sessionId := call.sessionId, answer := some (s.sessions.get? call.sessionId) } } := by
  refine { h with answered := ?_, waiting := ?_ }
  · intro other otherId session hget
    rw [OrderedMap.get?_set] at hget
    split at hget
    · simp only [Option.some.injEq, TrackCall.mk.injEq] at hget
      obtain ⟨rfl, hsession⟩ := hget
      exact ⟨session, hsession, rfl⟩
    · exact h.answered other otherId session hget
  · intro other otherCall hget
    rw [OrderedMap.get?_set] at hget
    split at hget
    · rename_i hsame
      subst hsame
      exact h.waiting other call hcall
    · exact h.waiting other otherCall hget

theorem Kept.delete (h : Kept s) (close : ConnectionId) :
    Kept { s with calls := s.calls.delete close } := by
  refine { h with answered := ?_, waiting := ?_ }
  · intro other otherId session hget
    rw [OrderedMap.get?_delete] at hget
    split at hget
    · cases hget
    · exact h.answered other otherId session hget
  · intro other call hget
    rw [OrderedMap.get?_delete] at hget
    split at hget
    · cases hget
    · exact h.waiting other call hget

theorem Kept.refused (h : Kept s) {close : ConnectionId} {account : PlatformAccount}
    (hsame : account.connections = s.account.connections) :
    Kept { s with account, calls := s.calls.delete close } := by
  have hdeleted := h.delete close
  refine { hdeleted with known := ?_, delivered := ?_, limited := ?_, balanced := ?_ }
  · simp only [hsame]
    exact h.known
  · simp only [hsame]
    exact h.delivered
  · simp only [liveConnections, hsame]
    exact h.limited
  · simp only [PlatformAccount.closersOf, hsame]
    exact h.balanced

theorem live_admitted (s : PlatformInstance) (sessionId : AccountSessionId)
    (close : ConnectionId) (accountId : PlatformAccountId) :
    (s.account.connections.set sessionId (s.account.closersOf sessionId ++ [close])).sum
        (fun other closers => if s.liveOf accountId other then closers.length else 0) =
      s.liveConnections accountId + if s.liveOf accountId sessionId then 1 else 0 := by
  have hsum := OrderedMap.sum_set s.account.connections sessionId
    (s.account.closersOf sessionId ++ [close])
    fun other closers => if s.liveOf accountId other then closers.length else 0
  rw [liveConnections]
  cases hget : s.account.connections.get? sessionId with
  | none =>
    rw [PlatformAccount.closersOf, hget, Option.getD_none] at hsum ⊢
    simpa using hsum
  | some closers =>
    rw [PlatformAccount.closersOf, hget, Option.getD_some] at hsum ⊢
    cases hlive : s.liveOf accountId sessionId with
    | true =>
      simp only [hlive, if_true, Option.map_some, Option.getD_some, List.length_append,
        List.length_singleton] at hsum ⊢
      omega
    | false =>
      simp only [hlive, Bool.false_eq_true, if_false, Option.map_some, Option.getD_some] at hsum ⊢
      omega

theorem Kept.resume (h : Kept s) {close : ConnectionId} {sessionId : AccountSessionId}
    {answer : Option SessionRecord}
    (hcall : s.calls.get? close = some { sessionId, answer := some answer })
    (hguard : s.Guarded (.resume close)) :
    Kept (s.resume close { sessionId, answer := some answer } answer) := by
  rcases s.account.trackConnection_cases sessionId close answer with
    ⟨error, hresult, hconnections⟩ | ⟨session, rfl, hactive, hroom, hresult, hconnections⟩
  · have hsame : s.resume close { sessionId, answer := some answer } answer = { s with
        account := (s.account.trackConnection sessionId close answer).2
        calls := s.calls.delete close } := by
      simp only [PlatformInstance.resume, hresult]
      rfl
    rw [hsame]
    exact h.refused hconnections
  · simp only [Guarded, hcall] at hguard
    obtain ⟨hpending, hcounted⟩ := hguard hactive hroom
    obtain ⟨now, hnow, haccount⟩ := h.answered close sessionId session hcall
    obtain ⟨hbrought, hfree⟩ := h.waiting close _ hcall
    have hfresh : close ∉ s.account.closersOf sessionId := by
      intro hmem
      have hbalanced := h.balanced sessionId close
      have hpositive := List.count_pos_iff.mpr hmem
      rw [List.count_eq_zero_of_not_mem (hfree sessionId)] at hbalanced
      omega
    rw [if_neg hfresh] at hconnections
    have hsame : s.resume close { sessionId, answer := some (some session) } (some session) =
        { s with
          account := (s.account.trackConnection sessionId close (some session)).2
          calls := s.calls.delete close
          admitted := s.admitted ++ [(sessionId, close)] } := by
      simp only [PlatformInstance.resume, hresult]
      rfl
    have hdeleted := h.delete close
    rw [hsame]
    constructor
    · intro other closers hget
      simp only [hconnections, OrderedMap.get?_set] at hget
      split at hget
      · rename_i hself
        rw [hself]
        exact ⟨now, hnow⟩
      · exact h.known other closers hget
    · exact hdeleted.answered
    · intro delivery hmem
      simp only [hconnections, OrderedMap.get?_set]
      rw [if_neg (hpending delivery hmem)]
      exact h.delivered delivery hmem
    · intro accountId
      simp only [liveConnections, hconnections]
      change (s.account.connections.set sessionId _).sum
        (fun other closers => if s.liveOf accountId other then closers.length else 0) ≤ _
      rw [s.live_admitted]
      cases hlive : s.liveOf accountId sessionId with
      | false => exact h.limited accountId
      | true =>
        rw [liveOf, hnow, Option.any_some, Bool.and_eq_true, decide_eq_true_eq] at hlive
        obtain rfl : session.accountId = accountId := haccount ▸ hlive.2
        rcases hcounted with hcounted | hcounted
        swap
        · exact hcounted
        refine Nat.lt_of_le_of_lt (OrderedMap.sum_le_sum ?_) hroom
        intro other closers hget
        by_cases hother : s.liveOf session.accountId other = true
        · rw [if_pos hother, OrderedMap.get?_set]
          by_cases hself : other = sessionId
          · rw [if_pos hself, if_pos rfl]
          · have hmapped :=
              hcounted (other, closers) (OrderedMap.mem_entries_iff.mpr hget) hother hself
            rw [if_neg hself, if_pos hmapped]
        · rw [if_neg hother]
          exact Nat.zero_le _
    · intro other call hget
      obtain ⟨hkeep, hunadmitted⟩ := hdeleted.waiting other call hget
      refine ⟨hkeep, ?_⟩
      intro otherId hmem
      rcases List.mem_append.mp hmem with hold | hlast
      · exact hunadmitted otherId hold
      · cases List.mem_singleton.mp hlast
        rw [OrderedMap.get?_delete, if_pos rfl] at hget
        cases hget
    · intro pair hmem
      rcases List.mem_append.mp hmem with hold | hlast
      · exact h.brought pair hold
      · rw [List.mem_singleton.mp hlast]
        exact hbrought
    · refine List.nodup_append.mpr ⟨h.distinct, List.nodup_singleton _, ?_⟩
      rintro pair hold _ hlast rfl
      rw [List.mem_singleton.mp hlast] at hold
      exact hfree sessionId hold
    · intro otherId other
      have hbalanced := h.balanced otherId other
      have hclosers : PlatformAccount.closersOf
          (s.account.trackConnection sessionId close (some session)).2 otherId =
          if otherId = sessionId then s.account.closersOf sessionId ++ [close]
          else s.account.closersOf otherId := by
        rw [PlatformAccount.closersOf, hconnections, OrderedMap.get?_set]
        split <;> rfl
      change (PlatformAccount.closersOf _ otherId).count other + s.awaiting otherId other +
        s.closed.count (otherId, other) + s.released.count (otherId, other) =
          (s.admitted ++ [(sessionId, close)]).count (otherId, other)
      rw [hclosers, List.count_append]
      by_cases hself : otherId = sessionId
      · subst hself
        rw [if_pos rfl, List.count_append]
        have hlast : [close].count other = [(otherId, close)].count (otherId, other) := by
          simp [List.count_singleton]
        omega
      · rw [if_neg hself]
        have hlast : [(sessionId, close)].count (otherId, other) = 0 := by
          simp [Ne.symm hself]
        omega

theorem Kept.release (h : Kept s) {sessionId : AccountSessionId} {close : ConnectionId}
    (hadmitted : (sessionId, close) ∈ s.admitted) : Kept (s.release sessionId close) := by
  refine { h with known := ?_, delivered := ?_, limited := ?_, balanced := ?_ }
  · intro other closers hget
    obtain ⟨before, hbefore⟩ := PlatformAccount.get?_release hget
    exact h.known other before hbefore
  · intro delivery hmem
    cases hget : (s.release sessionId close).account.connections.get? delivery.1 with
    | none => rfl
    | some closers =>
      obtain ⟨before, hbefore⟩ := PlatformAccount.get?_release hget
      rw [h.delivered delivery hmem] at hbefore
      cases hbefore
  · intro accountId
    exact (s.account.sum_release_le sessionId close (s.liveOf accountId)).trans
      (h.limited accountId)
  · intro otherId other
    have hbalanced := h.balanced otherId other
    have honce := List.count_eq_one_of_mem h.distinct hadmitted
    change ((s.account.release sessionId close).closersOf otherId).count other +
      s.awaiting otherId other + s.closed.count (otherId, other) +
        (if close ∈ s.account.closersOf sessionId then s.released ++ [(sessionId, close)]
          else s.released).count (otherId, other) = s.admitted.count (otherId, other)
    rw [PlatformAccount.closersOf_release]
    by_cases hself : otherId = sessionId
    · subst hself
      rw [if_pos rfl]
      by_cases hother : other = close
      · subst hother
        have hgone : ((s.account.closersOf otherId).filter
            fun kept => decide (kept ≠ other)).count other = 0 := by
          apply List.count_eq_zero_of_not_mem
          intro hmem
          simpa using (List.mem_filter.mp hmem).2
        by_cases hmem : other ∈ s.account.closersOf otherId
        · have hpositive := List.count_pos_iff.mpr hmem
          rw [if_pos hmem, List.count_append, List.count_singleton_self]
          omega
        · rw [if_neg hmem]
          rw [List.count_eq_zero_of_not_mem hmem] at hbalanced
          omega
      · have hkept : ((s.account.closersOf otherId).filter
            fun kept => decide (kept ≠ close)).count other =
            (s.account.closersOf otherId).count other := by
          apply List.count_filter
          simpa using hother
        have hlast : [(otherId, close)].count (otherId, other) = 0 := by
          simp [Ne.symm hother]
        split
        · rw [List.count_append]
          omega
        · omega
    · rw [if_neg hself]
      have hlast : [(sessionId, close)].count (otherId, other) = 0 := by
        simp [Ne.symm hself]
      split
      · rw [List.count_append]
        omega
      · omega

theorem Kept.deliver (h : Kept s) (sessionId : AccountSessionId) : Kept (s.deliver sessionId) := by
  refine { h with known := ?_, delivered := ?_, limited := ?_, balanced := ?_ }
  · intro other closers hget
    change (s.account.connections.delete sessionId).get? other = some closers at hget
    rw [OrderedMap.get?_delete] at hget
    split at hget
    · cases hget
    · exact h.known other closers hget
  · intro delivery hmem
    change (s.account.connections.delete sessionId).get? delivery.1 = none
    rw [OrderedMap.get?_delete]
    rcases List.mem_append.mp hmem with hold | hlast
    · split
      · rfl
      · exact h.delivered delivery hold
    · rw [List.mem_singleton.mp hlast, if_pos rfl]
  · intro accountId
    have hsum := OrderedMap.sum_delete s.account.connections sessionId
      fun other closers => if s.liveOf accountId other then closers.length else 0
    exact (Nat.le.intro hsum).trans (h.limited accountId)
  · intro otherId other
    have hbalanced := h.balanced otherId other
    change (PlatformAccount.closersOf { s.account with
        connections := s.account.connections.delete sessionId } otherId).count other +
      ((s.closings ++ (s.account.connections.get? sessionId).toList.map
        (Prod.mk sessionId)).map fun loop =>
          if loop.1 = otherId then loop.2.count other else 0).sum +
        s.closed.count (otherId, other) + s.released.count (otherId, other) =
          s.admitted.count (otherId, other)
    rw [PlatformAccount.closersOf_delete, List.map_append, List.sum_append]
    rw [awaiting] at hbalanced
    by_cases hself : otherId = sessionId
    · subst hself
      rw [if_pos rfl, List.count_nil]
      have hdetached : (((s.account.connections.get? otherId).toList.map
          (Prod.mk otherId)).map fun loop =>
            if loop.1 = otherId then loop.2.count other else 0).sum =
          (s.account.closersOf otherId).count other := by
        rw [PlatformAccount.closersOf]
        cases s.account.connections.get? otherId <;> simp
      omega
    · rw [if_neg hself]
      have hdetached : (((s.account.connections.get? sessionId).toList.map
          (Prod.mk sessionId)).map fun loop =>
            if loop.1 = otherId then loop.2.count other else 0).sum = 0 := by
        cases s.account.connections.get? sessionId <;> simp [Ne.symm hself]
      omega

theorem Kept.closeNext (h : Kept s) {loop : Nat} {sessionId : AccountSessionId}
    {close : ConnectionId} {rest : List ConnectionId}
    (hloop : s.closings[loop]? = some (sessionId, close :: rest)) : Kept { s with
      closings := s.closings.set loop (sessionId, rest)
      closed := s.closed ++ [(sessionId, close)] } := by
  refine { h with balanced := ?_ }
  intro otherId other
  have hbalanced := h.balanced otherId other
  have hsum := sum_map_set (fun loop : AccountSessionId × List ConnectionId =>
    if loop.1 = otherId then loop.2.count other else 0) hloop (sessionId, rest)
  change (s.account.closersOf otherId).count other +
    ((s.closings.set loop (sessionId, rest)).map fun loop =>
      if loop.1 = otherId then loop.2.count other else 0).sum +
      (s.closed ++ [(sessionId, close)]).count (otherId, other) +
        s.released.count (otherId, other) = s.admitted.count (otherId, other)
  rw [awaiting] at hbalanced
  rw [List.count_append]
  by_cases hself : sessionId = otherId
  · subst hself
    have hlast : [(sessionId, close)].count (sessionId, other) = [close].count other := by
      simp [List.count_singleton]
    have hcons : (close :: rest).count other = [close].count other + rest.count other := by
      rw [← List.singleton_append, List.count_append]
    simp only [if_true] at hsum
    omega
  · have hlast : [(sessionId, close)].count (otherId, other) = 0 := by
      simp [hself]
    simp only [if_neg hself] at hsum
    omega

theorem Kept.step (h : Kept s) {op : InstanceOp} (hguard : s.Guarded op) {t : PlatformInstance}
    (hstep : s.step op = some t) : Kept t := by
  cases op with
  | login session =>
    rw [PlatformInstance.step] at hstep
    split at hstep
    · cases hstep
    · rename_i hnew
      cases hstep
      exact h.login hnew
  | commit sessionId =>
    cases hstep
    exact h.commit sessionId
  | remember sessionId =>
    obtain ⟨session, _, rfl⟩ := Option.map_eq_some_iff.mp hstep
    exact { h with }
  | forget sessionId =>
    cases hstep
    exact { h with }
  | track sessionId close =>
    rw [PlatformInstance.step] at hstep
    split at hstep
    · cases hstep
    · rename_i hnew
      cases hstep
      exact h.track hnew
  | read close =>
    rw [PlatformInstance.step] at hstep
    split at hstep
    · rename_i sessionId hcall
      cases hstep
      exact h.read hcall
    · cases hstep
  | fail close =>
    rw [PlatformInstance.step] at hstep
    split at hstep
    · cases hstep
      exact h.delete close
    · cases hstep
  | resume close =>
    rw [PlatformInstance.step] at hstep
    split at hstep
    · rename_i sessionId answer hcall
      cases hstep
      exact h.resume hcall hguard
    · cases hstep
  | release sessionId close =>
    rw [PlatformInstance.step] at hstep
    split at hstep
    · rename_i hadmitted
      cases hstep
      exact h.release hadmitted
    · cases hstep
  | deliver sessionId =>
    rw [PlatformInstance.step] at hstep
    split at hstep
    · cases hstep
      exact h.deliver sessionId
    · cases hstep
  | closeNext loop =>
    rw [PlatformInstance.step] at hstep
    split at hstep
    · rename_i sessionId close rest hloop
      cases hstep
      exact h.closeNext hloop
    · cases hstep

end PlatformInstance

theorem connections_settled {ops : List InstanceOp} {s : PlatformInstance}
    (hrun : run PlatformInstance.step .empty ops = some s)
    (hguard : Along PlatformInstance.step PlatformInstance.Guarded .empty ops) : s.Settled := by
  have hkept : s.Kept := run_invariant_along PlatformInstance.Kept
    (fun _ _ _ h hguarded hstep => h.step hguarded hstep) hrun hguard PlatformInstance.kept_empty
  exact hkept.settled

instance (s : PlatformInstance) : ∀ op, Decidable (s.Guarded op)
  | .resume close =>
    match hcall : s.calls.get? close with
    | some { sessionId := _, answer := some (some _) } =>
      decidable_of_iff _ (by simp only [PlatformInstance.Guarded, hcall]; exact Iff.rfl)
    | some { sessionId := _, answer := some none } =>
      isTrue (by simp only [PlatformInstance.Guarded, hcall])
    | some { sessionId := _, answer := none } =>
      isTrue (by simp only [PlatformInstance.Guarded, hcall])
    | none => isTrue (by simp only [PlatformInstance.Guarded, hcall])
  | .login _ | .commit _ | .remember _ | .forget _ | .track .. | .read _ | .fail _ | .release ..
  | .deliver _ | .closeNext _ => isTrue trivial

def activeSession (id : AccountSessionId) : SessionRecord where
  id := id
  identityNamespace := "github"
  accountId := "account"
  installationId := id
  installationKind := .desktop
  presentation := none
  publicKey := .null
  revision := 1
  active := true
  refreshHash := id
  refreshExpiresAt := 2592000000

def admission (sessionId : AccountSessionId) (close : ConnectionId) : List InstanceOp :=
  [.track sessionId close, .read close, .resume close]

theorem closedConnection_settled : ((run PlatformInstance.step .empty
    ([.login (activeSession "first")] ++ admission "first" 0 ++ admission "first" 1 ++
      [.release "first" 0, .forget "first", .commit "first", .deliver "first", .closeNext 0])).get
        (by decide +kernel)).Settled :=
  connections_settled (Option.some_get _).symm (by decide +kernel)

def lateAdmission : List InstanceOp :=
  [.login (activeSession "first"), .track "first" 0, .read 0, .commit "first", .deliver "first",
    .resume 0]

/-- The Account of a session with twenty connections is forgotten before its revocation commits. -/
def earlyForget : List InstanceOp :=
  [.login (activeSession "first"), .login (activeSession "second")] ++
    ((List.range 20).map (admission "first")).flatten ++ [.forget "first"] ++
      admission "second" 20

theorem lateAdmission_leaks :
    (¬ ∀ ops s, run PlatformInstance.step .empty ops = some s → s.Settled) ∧
      ¬ ∀ ops s, run PlatformInstance.step .empty ops = some s → ∀ accountId,
        s.liveConnections accountId ≤ accountConcurrentConnectionLimit := by
  constructor
  · intro h
    have hsettled := h lateAdmission _ (Option.some_get
      (show (run PlatformInstance.step .empty lateAdmission).isSome = true by decide +kernel)).symm
    have hnone := hsettled.untracked "first" [0] (by decide +kernel) (by decide +kernel)
    exact absurd hnone (by decide +kernel)
  · intro h
    have hlimited := h earlyForget _ (Option.some_get
      (show (run PlatformInstance.step .empty earlyForget).isSome = true by
        decide +kernel)).symm "account"
    exact absurd hlimited (by decide +kernel)

end Harness.Account
