import Harness.Session.EventLog

namespace Harness

open Harness.Foundation

def SessionEvent.requestContext? (event : SessionEvent) : Option RequestContext :=
  match event.data with
  | .requestContext context => some context
  | _ => none

theorem foldRequestContext_snoc (events : List SessionEvent) (event : SessionEvent)
    (state : Option RequestContext) :
    foldRequestContext (events ++ [event]) state =
      event.requestContext?.or (foldRequestContext events state) := by
  rw [foldRequestContext_append]
  unfold SessionEvent.requestContext?
  simp only [foldRequestContext, List.foldl_cons, List.foldl_nil]
  cases event.data <;> rfl

theorem foldRequestContext_eq_getLast? (events : List SessionEvent) :
    foldRequestContext events none =
      (events.filterMap SessionEvent.requestContext?).getLast? := by
  induction events using List.reverseRecOn with
  | nil => rfl
  | append_singleton events event ih =>
    rw [foldRequestContext_snoc, ih, List.filterMap_append]
    cases hcontext : event.requestContext? with
    | none => simp [hcontext]
    | some context => simp [hcontext]

namespace Session

variable {session : Session} {log : EventLog}

theorem Represents.projections (h : session.Represents log) :
    session.events.1 = log ∧
    (∃ fold, foldSurface log = .ok fold ∧ (∀ seq ∈ fold.nodes, seq < log.length) ∧
      session.deriveMessages.1 =
        .ok (fold.nodes.filterMap fun seq => log[seq]?.bind deriveEventMessage)) ∧
    session.requestHeader.1 = foldRequestHeader log none ∧
    session.requestContext.1 = (log.filterMap SessionEvent.requestContext?).getLast? := by
  obtain ⟨fold, hfold⟩ := h.accepted
  refine ⟨h.events.1, ⟨_, foldSurface_of_runFold hfold, runFold_nodes_lt hfold, ?_⟩,
    h.requestHeader.1, ?_⟩
  · exact (h.deriveMessages hfold).1
  · rw [← foldRequestContext_eq_getLast?]
    exact h.requestContext.1

/-- Whatever was read and appended before, also by listeners while an append was published. -/
theorem projections_follow_log {seed : Option (List (Supplied SessionEvent))} {now : Int}
    {session : Session} (h : Session.create seed now = .ok session) (ops : List Op) :
    (transcript Session.step session ops).2 =
      (transcript EventLog.step session.logged ops).2 ∧
    let reached := (transcript Session.step session ops).1
    let events := reached.logged
    reached.events.1 = events ∧
    (∃ fold, foldSurface events = .ok fold ∧ (∀ seq ∈ fold.nodes, seq < events.length) ∧
      reached.deriveMessages.1 =
        .ok (fold.nodes.filterMap fun seq => events[seq]?.bind deriveEventMessage)) ∧
    reached.requestHeader.1 = foldRequestHeader events none ∧
    reached.requestContext.1 = (events.filterMap SessionEvent.requestContext?).getLast? := by
  obtain ⟨log, hlog⟩ := create_represents h
  obtain ⟨hreplies, hreached⟩ := hlog.transcript ops
  rw [hlog.logged]
  refine ⟨hreplies, ?_⟩
  intro reached events
  have hevents : events = (transcript EventLog.step log ops).1 := hreached.logged
  rw [hevents]
  exact hreached.projections

def promptEvent (seq : Nat) : SessionEvent where
  seq := seq
  time := 0
  data := .userMessage { id := "prompt", content := [.text "hello"], source := .user }
  surfaceOp := some (.str "append")
  sourceEventSeqs := none
  ignorable := false

def promptedSession : Except String Session :=
  Session.create (some [.lossless (promptEvent 0), .lossless (promptEvent 1)]) 0

/-- A checkpoint that keeps the surface's length, followed by a prompt before the next read. -/
theorem rewrittenSeed_projections :
    let reached := (transcript Session.step (promptedSession.toOption.getD .empty)
      [.read .deriveMessages,
        .append (messageCandidate
          (.obj [("op", .str "replace"), ("start", .nat 1), ("end", .nat 1)])
          (some (.arr [.nat 1]))) .detached,
        .append (messageCandidate (.str "append") none) .detached]).1
    ∃ fold, foldSurface reached.logged = .ok fold ∧
      (∀ seq ∈ fold.nodes, seq < reached.logged.length) ∧
      reached.deriveMessages.1 =
        .ok (fold.nodes.filterMap fun seq => reached.logged[seq]?.bind deriveEventMessage) :=
  (@projections_follow_log (some [.lossless (promptEvent 0), .lossless (promptEvent 1)]) 0
    (promptedSession.toOption.getD .empty) (by decide) _).2.2.1

end Session

end Harness
