import Harness.Account.Backend

namespace Harness.Account

open Harness.Foundation

def accountConcurrentConnectionLimit : Nat := 20

/-- A tracked connection is known by its close callback; every call brings one of its own. -/
abbrev ConnectionId := Nat

structure PlatformAccount where
  sessionAccounts : OrderedMap AccountSessionId PlatformAccountId
  connections : OrderedMap AccountSessionId (List ConnectionId)

namespace PlatformAccount

def countAccountConnections (p : PlatformAccount) (accountId : PlatformAccountId) : Nat :=
  p.connections.sum fun sessionId closers =>
    if p.sessionAccounts.get? sessionId = some accountId then closers.length else 0

def closersOf (p : PlatformAccount) (sessionId : AccountSessionId) : List ConnectionId :=
  (p.connections.get? sessionId).getD []

def trackConnection (p : PlatformAccount) (sessionId : AccountSessionId) (close : ConnectionId)
    (session : Option SessionRecord) : Except AccountError Unit × PlatformAccount :=
  match session.filter SessionRecord.active with
  | none => (.error ⟨.sessionRevoked, "Account Session is unavailable", none⟩, p)
  | some session =>
    let p := { p with sessionAccounts := p.sessionAccounts.set sessionId session.accountId }
    if p.countAccountConnections session.accountId ≥ accountConcurrentConnectionLimit then
      (.error ⟨.quota, "Platform Account has reached its concurrent connection limit",
        some openRegistrationHardCapRetryAfterSeconds⟩, p)
    else
      let closers := p.closersOf sessionId
      (.ok (), { p with
        connections := p.connections.set sessionId
          (if close ∈ closers then closers else closers ++ [close]) })

def release (p : PlatformAccount) (sessionId : AccountSessionId) (close : ConnectionId) :
    PlatformAccount :=
  match p.connections.get? sessionId with
  | none => p
  | some current =>
    let current := current.filter fun other => other ≠ close
    if current = [] then { p with connections := p.connections.delete sessionId }
    else { p with connections := p.connections.set sessionId current }

def detach (p : PlatformAccount) (sessionId : AccountSessionId) :
    Option (List ConnectionId) × PlatformAccount :=
  (p.connections.get? sessionId,
    { connections := p.connections.delete sessionId
      sessionAccounts := p.sessionAccounts.delete sessionId })

def forget (p : PlatformAccount) (sessionId : AccountSessionId) : PlatformAccount :=
  { p with sessionAccounts := p.sessionAccounts.delete sessionId }

def remember (p : PlatformAccount) (session : SessionRecord) : PlatformAccount :=
  { p with sessionAccounts := p.sessionAccounts.set session.id session.accountId }

end PlatformAccount

/-- A `trackConnection` call that waits for the backend, or for its turn once the backend has
answered. -/
structure TrackCall where
  sessionId : AccountSessionId
  answer : Option (Option SessionRecord)

/-- One Platform Instance over the sessions of the backend.  `closings` are the loops that call
detached closers.  The rest is history: the callbacks that calls brought, the connections admitted,
released and closed, and for each delivered invalidation the calls then in flight. -/
structure PlatformInstance where
  sessions : OrderedMap AccountSessionId SessionRecord
  account : PlatformAccount
  calls : OrderedMap ConnectionId TrackCall
  closings : List (AccountSessionId × List ConnectionId)
  brought : List ConnectionId
  admitted : List (AccountSessionId × ConnectionId)
  released : List (AccountSessionId × ConnectionId)
  closed : List (AccountSessionId × ConnectionId)
  deliveries : List (AccountSessionId × List ConnectionId)

inductive InstanceOp
  | login (session : SessionRecord)
  | commit (sessionId : AccountSessionId)
  | remember (sessionId : AccountSessionId)
  | forget (sessionId : AccountSessionId)
  | track (sessionId : AccountSessionId) (close : ConnectionId)
  | read (close : ConnectionId)
  | fail (close : ConnectionId)
  | resume (close : ConnectionId)
  | release (sessionId : AccountSessionId) (close : ConnectionId)
  | deliver (sessionId : AccountSessionId)
  | closeNext (loop : Nat)

namespace PlatformInstance

def empty : PlatformInstance where
  sessions := .empty
  account := { sessionAccounts := .empty, connections := .empty }
  calls := .empty
  closings := []
  brought := []
  admitted := []
  released := []
  closed := []
  deliveries := []

def commit (s : PlatformInstance) (sessionId : AccountSessionId) : PlatformInstance :=
  { s with
    sessions := s.sessions.modify sessionId fun session =>
      if session.active then { session with active := false, revision := session.revision + 1 }
      else session }

def resume (s : PlatformInstance) (close : ConnectionId) (call : TrackCall)
    (session : Option SessionRecord) : PlatformInstance :=
  let result := s.account.trackConnection call.sessionId close session
  { s with
    account := result.2
    calls := s.calls.delete close
    admitted := if result.1.isOk then s.admitted ++ [(call.sessionId, close)] else s.admitted }

def release (s : PlatformInstance) (sessionId : AccountSessionId) (close : ConnectionId) :
    PlatformInstance :=
  { s with
    account := s.account.release sessionId close
    released :=
      if close ∈ s.account.closersOf sessionId then s.released ++ [(sessionId, close)]
      else s.released }

def deliver (s : PlatformInstance) (sessionId : AccountSessionId) : PlatformInstance :=
  let detached := s.account.detach sessionId
  { s with
    account := detached.2
    closings := s.closings ++ detached.1.toList.map (Prod.mk sessionId)
    deliveries := s.deliveries ++ [(sessionId, s.calls.keys)] }

/-- One step of the instance or of its surroundings.  A revocation commits in the backend at any
time; the instance forgets the Account of a session when it starts a revocation or publishes an
invalidation, and learns it from any authorized request; an invalidation is published only once its
revocation is committed, and may be delivered again and again. -/
def step (s : PlatformInstance) : InstanceOp → Option PlatformInstance
  | .login session =>
    if session.id ∈ s.sessions.keys then none
    else some { s with sessions := s.sessions.set session.id session }
  | .commit sessionId => some (s.commit sessionId)
  | .remember sessionId =>
    (s.sessions.get? sessionId).map fun session =>
      { s with account := s.account.remember session }
  | .forget sessionId => some { s with account := s.account.forget sessionId }
  | .track sessionId close =>
    if close ∈ s.brought then none
    else some { s with
      calls := s.calls.set close { sessionId, answer := none }
      brought := s.brought ++ [close] }
  | .read close =>
    match s.calls.get? close with
    | some { sessionId, answer := none } => some { s with
        calls := s.calls.set close { sessionId, answer := some (s.sessions.get? sessionId) } }
    | _ => none
  | .fail close =>
    match s.calls.get? close with
    | some { sessionId := _, answer := none } => some { s with calls := s.calls.delete close }
    | _ => none
  | .resume close =>
    match s.calls.get? close with
    | some { sessionId, answer := some session } =>
      some (s.resume close { sessionId, answer := some session } session)
    | _ => none
  | .release sessionId close =>
    if (sessionId, close) ∈ s.admitted then some (s.release sessionId close) else none
  | .deliver sessionId =>
    if (s.sessions.get? sessionId).any fun session => !session.active then
      some (s.deliver sessionId)
    else none
  | .closeNext loop =>
    match s.closings[loop]? with
    | some (sessionId, close :: rest) => some { s with
        closings := s.closings.set loop (sessionId, rest)
        closed := s.closed ++ [(sessionId, close)] }
    | _ => none

def liveOf (s : PlatformInstance) (accountId : PlatformAccountId) (sessionId : AccountSessionId) :
    Bool :=
  (s.sessions.get? sessionId).any fun session => session.active && session.accountId = accountId

def liveConnections (s : PlatformInstance) (accountId : PlatformAccountId) : Nat :=
  s.account.connections.sum fun sessionId closers =>
    if s.liveOf accountId sessionId then closers.length else 0

end PlatformInstance

end Harness.Account
