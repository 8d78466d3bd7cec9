import Harness.Agent.Inbox
import Mathlib.Data.List.Induction
import Mathlib.Data.List.Nodup

universe u v

namespace Harness

open Harness.Foundation

structure Occurrence where
  seq : Nat
  index : Nat
  message : UserMessage
  deriving DecidableEq, Repr

def AgentEvent.occurrences (event : AgentEvent) (seq : Nat) : List Occurrence :=
  match event with
  | .spliced splice =>
    splice.inserted.zipIdx.map fun entry => { seq, index := entry.2, message := entry.1 }
  | .other _ => []

/-- What the splices say of every message: a removal that is not canceled is a claim. -/
structure Ledger where
  pending : InboxState Occurrence
  claimed : List Occurrence
  discarded : List Occurrence
  deriving DecidableEq, Repr

namespace Ledger

def empty : Ledger := { pending := .empty, claimed := [], discarded := [] }

def settled (ledger : Ledger) : List Occurrence :=
  ledger.pending.pending ++ ledger.claimed ++ ledger.discarded

def record (ledger : Ledger) (event : AgentEvent) (seq : Nat) : Ledger :=
  match event with
  | .spliced splice =>
    let removed := removedBy (ledger.pending.get splice.target) splice.index splice.count
    { pending := ledger.pending.splice splice.target splice.index splice.count
        (event.occurrences seq)
      claimed := ledger.claimed ++ if splice.canceled then [] else removed
      discarded := ledger.discarded ++ if splice.canceled then removed else [] }
  | .other _ => ledger

def ofEvents (start : Nat) (events : List AgentEvent) : Ledger :=
  (events.zipIdx start).foldl (fun ledger entry => ledger.record entry.1 entry.2) .empty

end Ledger

def occurrencesOver (start : Nat) (events : List AgentEvent) : List Occurrence :=
  (events.zipIdx start).flatMap fun entry => entry.1.occurrences entry.2

namespace AgentLog

def ledger (log : AgentLog) : Ledger := Ledger.ofEvents log.seeded log.owned

def occurrences (log : AgentLog) : List Occurrence := occurrencesOver log.seeded log.owned

end AgentLog

section Lists

variable {α : Type u} {β : Type v}

@[simp] theorem InboxState.get_set (state : InboxState α) (target : InboxTarget)
    (items : List α) : (state.set target items).get target = items := by
  cases target <;> rfl

theorem InboxState.get_map (f : α → β) (state : InboxState α) (target : InboxTarget) :
    (state.map f).get target = (state.get target).map f := by
  cases target <;> rfl

theorem InboxState.map_splice (f : α → β) (state : InboxState α) (target : InboxTarget)
    (start count : Nat) (inserted : List α) :
    (state.splice target start count inserted).map f =
      (state.map f).splice target start count (inserted.map f) := by
  unfold InboxState.splice
  rw [InboxState.get_map, ← map_toSpliced]
  cases target <;> rfl

theorem InboxState.splice_perm (state : InboxState α) (target : InboxTarget)
    (start count : Nat) (inserted : List α) :
    ((state.splice target start count inserted).pending ++
      removedBy (state.get target) start count).Perm (state.pending ++ inserted) := by
  classical
  have hperm := List.perm_iff_count.mp (toSpliced_perm (state.get target) start count inserted)
  rw [List.perm_iff_count]
  intro item
  have hcount := hperm item
  cases target <;>
    simp only [InboxState.splice, InboxState.set, InboxState.get, InboxState.pending,
      List.count_append] at hcount ⊢ <;> omega

end Lists

section Occurrences

theorem AgentEvent.message_occurrences (splice : InboxSplice) (seq : Nat) :
    ((AgentEvent.spliced splice).occurrences seq).map Occurrence.message = splice.inserted := by
  simp only [AgentEvent.occurrences, List.map_map]
  exact List.zipIdx_map_fst 0 splice.inserted

theorem AgentEvent.seq_occurrences {event : AgentEvent} {seq : Nat} {occurrence : Occurrence}
    (h : occurrence ∈ event.occurrences seq) : occurrence.seq = seq := by
  cases event with
  | spliced splice =>
    obtain ⟨_, _, rfl⟩ := List.mem_map.mp h
    rfl
  | other data => simp [AgentEvent.occurrences] at h

theorem AgentEvent.nodup_occurrences (event : AgentEvent) (seq : Nat) :
    (event.occurrences seq).Nodup := by
  cases event with
  | spliced splice =>
    apply List.Nodup.of_map Occurrence.index
    have : ((AgentEvent.spliced splice).occurrences seq).map Occurrence.index =
        splice.inserted.zipIdx.map Prod.snd := by
      simp only [AgentEvent.occurrences, List.map_map]
      rfl
    rw [this, List.zipIdx_map_snd]
    exact List.nodup_range'
  | other data => exact List.nodup_nil

theorem occurrencesOver_snoc (start : Nat) (events : List AgentEvent) (event : AgentEvent) :
    occurrencesOver start (events ++ [event]) =
      occurrencesOver start events ++ event.occurrences (start + events.length) := by
  simp [occurrencesOver, List.zipIdx_append]

theorem Ledger.ofEvents_snoc (start : Nat) (events : List AgentEvent) (event : AgentEvent) :
    Ledger.ofEvents start (events ++ [event]) =
      (Ledger.ofEvents start events).record event (start + events.length) := by
  simp [Ledger.ofEvents, List.zipIdx_append]

theorem seq_occurrencesOver {start : Nat} {events : List AgentEvent} {occurrence : Occurrence}
    (h : occurrence ∈ occurrencesOver start events) : occurrence.seq < start + events.length := by
  induction events using List.reverseRecOn with
  | nil => simp [occurrencesOver] at h
  | append_singleton events event ih =>
    rw [occurrencesOver_snoc, List.mem_append] at h
    rw [List.length_append, List.length_singleton]
    cases h with
    | inl h => exact Nat.lt_succ_of_lt (ih h)
    | inr h =>
      rw [AgentEvent.seq_occurrences h]
      exact Nat.lt_succ_self _

theorem nodup_occurrencesOver (start : Nat) (events : List AgentEvent) :
    (occurrencesOver start events).Nodup := by
  induction events using List.reverseRecOn with
  | nil => exact List.nodup_nil
  | append_singleton events event ih =>
    rw [occurrencesOver_snoc]
    refine List.nodup_append.mpr ⟨ih, event.nodup_occurrences _, ?_⟩
    rintro occurrence hold _ hnew rfl
    exact Nat.lt_irrefl _ (AgentEvent.seq_occurrences hnew ▸ seq_occurrencesOver hold)

theorem Ledger.settled_record (ledger : Ledger) (event : AgentEvent) (seq : Nat) :
    (ledger.record event seq).settled.Perm (ledger.settled ++ event.occurrences seq) := by
  cases event with
  | spliced splice =>
    have hperm := List.perm_iff_count.mp (ledger.pending.splice_perm splice.target splice.index
      splice.count ((AgentEvent.spliced splice).occurrences seq))
    rw [List.perm_iff_count]
    intro occurrence
    have hcount := hperm occurrence
    unfold Ledger.record Ledger.settled
    cases hcanceled : splice.canceled <;>
      simp [hcanceled] at hcount ⊢ <;> omega
  | other data =>
    rw [AgentEvent.occurrences, List.append_nil]
    exact List.Perm.refl _

theorem Ledger.settled_ofEvents (start : Nat) (events : List AgentEvent) :
    (Ledger.ofEvents start events).settled.Perm (occurrencesOver start events) := by
  induction events using List.reverseRecOn with
  | nil => exact List.Perm.refl _
  | append_singleton events event ih =>
    rw [Ledger.ofEvents_snoc, occurrencesOver_snoc]
    exact (Ledger.settled_record _ _ _).trans (ih.append_right _)

end Occurrences

section Replay

theorem ids_of_assertUnpending {messages : List UserMessage} {ids : List MessageId}
    (h : assertUnpending messages = .ok ids) :
    ids = (messages.map UserMessage.id).reverse ∧ ids.Nodup := by
  apply foldOk_invariant
    (fun messages ids => ids = (messages.map UserMessage.id).reverse ∧ ids.Nodup) _ h
    ⟨rfl, List.nodup_nil⟩
  rintro seen ids message ids' ⟨hids, hnodup⟩ hstep
  split at hstep
  · simp at hstep
  · rename_i hfresh
    obtain rfl := Except.ok.inj hstep
    exact ⟨by simp [hids], List.nodup_cons.mpr ⟨hfresh, hnodup⟩⟩

theorem InboxState.apply_eq_ok {state state' : InboxState UserMessage} {splice : InboxSplice}
    (h : state.apply splice = .ok state') :
    state' = state.splice splice.target splice.index splice.count splice.inserted ∧
      (state'.pending.map UserMessage.id).Nodup := by
  obtain ⟨_, hvalid, hstate⟩ := bind_eq_ok.mp h
  obtain rfl := Except.ok.inj hstate
  obtain ⟨_, _, hvalid⟩ := bind_eq_ok.mp hvalid
  obtain ⟨ids, hids, _⟩ := bind_eq_ok.mp hvalid
  obtain ⟨rfl, hnodup⟩ := ids_of_assertUnpending hids
  exact ⟨rfl, List.nodup_reverse.mp hnodup⟩

theorem replay_ledger {start : Nat} {events : List AgentEvent}
    {reached : Nat × InboxState UserMessage}
    (h : foldOk Inbox.replayEvent (start, .empty) events = .ok reached) :
    reached.1 = start + events.length ∧
      reached.2 = (Ledger.ofEvents start events).pending.map Occurrence.message ∧
      (reached.2.pending.map UserMessage.id).Nodup := by
  apply foldOk_invariant (fun events reached => reached.1 = start + events.length ∧
    reached.2 = (Ledger.ofEvents start events).pending.map Occurrence.message ∧
    (reached.2.pending.map UserMessage.id).Nodup) _ h ⟨rfl, rfl, List.nodup_nil⟩
  rintro seen ⟨seq, state⟩ event reached' ⟨rfl, rfl, hnodup⟩ hstep
  rw [Ledger.ofEvents_snoc, List.length_append]
  cases event with
  | other data =>
    obtain rfl := Except.ok.inj hstep
    exact ⟨rfl, rfl, hnodup⟩
  | spliced splice =>
    simp only [Inbox.replayEvent] at hstep
    split at hstep
    · simp at hstep
    · rename_i state happly
      obtain rfl := Except.ok.inj hstep
      obtain ⟨rfl, hnodup'⟩ := InboxState.apply_eq_ok happly
      refine ⟨rfl, ?_, hnodup'⟩
      rw [Ledger.record, InboxState.map_splice, AgentEvent.message_occurrences]

namespace Inbox

variable {inbox : Inbox}

def Follows (inbox : Inbox) : Prop := Inbox.create inbox.log = .ok inbox

theorem Follows.replay (h : inbox.Follows) : ∃ seq,
    foldOk replayEvent (inbox.log.seeded, .empty) inbox.log.owned = .ok (seq, inbox.state) := by
  obtain ⟨⟨seq, state⟩, hreplay, hinbox⟩ := bind_eq_ok.mp h
  obtain rfl : state = inbox.state := congrArg Inbox.state (Except.ok.inj hinbox)
  exact ⟨seq, hreplay⟩

theorem Follows.state (h : inbox.Follows) :
    inbox.state = inbox.log.ledger.pending.map Occurrence.message := by
  obtain ⟨seq, hreplay⟩ := h.replay
  exact (replay_ledger hreplay).2.1

theorem Follows.nodup (h : inbox.Follows) :
    (inbox.state.pending.map UserMessage.id).Nodup := by
  obtain ⟨seq, hreplay⟩ := h.replay
  exact (replay_ledger hreplay).2.2

theorem create_follows {log : AgentLog} (h : Inbox.create log = .ok inbox) : inbox.Follows := by
  obtain ⟨reached, _, hinbox⟩ := bind_eq_ok.mp h
  obtain rfl := Except.ok.inj hinbox
  exact h

theorem owned_append (log : AgentLog) (event : AgentEvent) :
    (log.append event).owned = log.owned ++ [event] :=
  List.drop_append_of_le_length log.inherited

theorem seq_replay (h : inbox.Follows) :
    foldOk replayEvent (inbox.log.seeded, .empty) inbox.log.owned =
      .ok (inbox.log.seeded + inbox.log.owned.length, inbox.state) := by
  obtain ⟨seq, hreplay⟩ := h.replay
  rw [hreplay, ← (replay_ledger hreplay).1]

theorem Follows.spliced (h : inbox.Follows) {splice : InboxSplice}
    {state : InboxState UserMessage} (happly : inbox.state.apply splice = .ok state) :
    Follows { log := inbox.log.append (.spliced splice), state } := by
  unfold Follows Inbox.create
  rw [owned_append, foldOk_snoc]
  change (foldOk replayEvent (inbox.log.seeded, .empty) inbox.log.owned >>= _) >>= _ = _
  rw [seq_replay h]
  simp only [ok_bind, replayEvent, happly]
  rfl

theorem Follows.recorded (h : inbox.Follows) (data : EventData) :
    Follows { inbox with log := inbox.log.append (.other data) } := by
  unfold Follows Inbox.create
  rw [owned_append, foldOk_snoc]
  change (foldOk replayEvent (inbox.log.seeded, .empty) inbox.log.owned >>= _) >>= _ = _
  rw [seq_replay h]
  rfl

end Inbox

end Replay

namespace InboxNotice

@[simp] def inserted? : InboxNotice → Option UserMessage
  | .inserted message => some message
  | _ => none

@[simp] def discarded? : InboxNotice → Option UserMessage
  | .discarded message => some message
  | _ => none

@[simp] def claimed? : InboxNotice → Option UserMessage
  | .claimed message _ => some message
  | _ => none

end InboxNotice

namespace Inbox

/-- What happened to the ledger between two moments was published, the claims apart. -/
structure Accounts (before after : Inbox) (notices : List InboxNotice)
    (claimed : List UserMessage) : Prop where
  inserted : after.log.occurrences.map Occurrence.message =
    before.log.occurrences.map Occurrence.message ++ notices.filterMap InboxNotice.inserted?
  discarded : after.log.ledger.discarded.map Occurrence.message =
    before.log.ledger.discarded.map Occurrence.message ++
      notices.filterMap InboxNotice.discarded?
  claimed : after.log.ledger.claimed.map Occurrence.message =
    before.log.ledger.claimed.map Occurrence.message ++ claimed

theorem Accounts.refl (inbox : Inbox) : Accounts inbox inbox [] [] where
  inserted := by simp
  discarded := by simp
  claimed := by simp

theorem Accounts.trans {first second third : Inbox} {notices notices' : List InboxNotice}
    {claimed claimed' : List UserMessage} (h : Accounts first second notices claimed)
    (h' : Accounts second third notices' claimed') :
    Accounts first third (notices ++ notices') (claimed ++ claimed') where
  inserted := by rw [h'.inserted, h.inserted, List.filterMap_append, List.append_assoc]
  discarded := by rw [h'.discarded, h.discarded, List.filterMap_append, List.append_assoc]
  claimed := by rw [h'.claimed, h.claimed, List.append_assoc]

theorem ledger_append (log : AgentLog) (event : AgentEvent) :
    (log.append event).ledger = log.ledger.record event (log.seeded + log.owned.length) := by
  rw [AgentLog.ledger, owned_append]
  exact Ledger.ofEvents_snoc _ _ _

theorem occurrences_append (log : AgentLog) (event : AgentEvent) :
    (log.append event).occurrences =
      log.occurrences ++ event.occurrences (log.seeded + log.owned.length) := by
  rw [AgentLog.occurrences, owned_append]
  exact occurrencesOver_snoc _ _ _

structure Mutated (before : Inbox) (discard : Bool)
    (outcome : InboxOutcome (List UserMessage)) : Prop where
  follows : outcome.inbox.Follows
  accounts : ∀ removed, outcome.result = .ok removed →
    Accounts before outcome.inbox outcome.notices (if discard then [] else removed)
  unclaimed : outcome.notices.filterMap InboxNotice.claimed? = []
  failed : ∀ message, outcome.result = .error message →
    outcome.inbox = before ∧ outcome.notices = []

variable {inbox : Inbox}

@[simp] theorem index_normalized (target : InboxTarget) (start count : Nat)
    (inserted : List UserMessage) (discard : Bool) :
    (normalized target start count inserted discard).index = start := rfl

@[simp] theorem count_normalized (target : InboxTarget) (start count : Nat)
    (inserted : List UserMessage) (discard : Bool) :
    (normalized target start count inserted discard).count = count := by
  unfold InboxSplice.count normalized
  split
  · rename_i hcount
    rw [hcount]
    rfl
  · rfl

theorem Accounts.spliced (h : inbox.Follows) (target : InboxTarget) (start count : Nat)
    (inserted : List UserMessage) (discard : Bool) (state : InboxState UserMessage) :
    Accounts inbox
      { log := inbox.log.append (.spliced (normalized target start count inserted discard)), state }
      ((if discard then (removedBy (inbox.state.get target) start count).map .discarded else []) ++
        inserted.map .inserted)
      (if discard then [] else removedBy (inbox.state.get target) start count) := by
  have hremoved : (removedBy (inbox.log.ledger.pending.get target) start count).map
      Occurrence.message = removedBy (inbox.state.get target) start count := by
    rw [map_removedBy, ← InboxState.get_map, ← h.state]
  have htarget : (normalized target start count inserted discard).target = target := rfl
  have hinserted : (normalized target start count inserted discard).inserted = inserted := rfl
  have hcanceled : (normalized target start count inserted discard).canceled =
      (discard && decide (0 < count)) := rfl
  constructor
  case inserted =>
    rw [occurrences_append, List.map_append, AgentEvent.message_occurrences, hinserted]
    cases discard <;> simp [Function.comp_def]
  case discarded =>
    rw [ledger_append, Ledger.record, List.map_append, htarget, index_normalized,
      count_normalized, hcanceled]
    cases discard with
    | false => simp [Function.comp_def]
    | true =>
      cases count with
      | zero => simp [Function.comp_def, removedBy]
      | succ count => simp [Function.comp_def, hremoved]
  case claimed =>
    rw [ledger_append, Ledger.record, List.map_append, htarget, index_normalized,
      count_normalized, hcanceled]
    cases discard with
    | false => simp [hremoved]
    | true =>
      cases count with
      | zero => simp [removedBy]
      | succ count => simp

theorem Follows.mutate (h : inbox.Follows) (target : InboxTarget) (start deleteCount : JsNumber)
    (inserted : List UserMessage) (discard : Bool) (refusal : Option String) :
    Mutated inbox discard (inbox.mutate target start deleteCount inserted discard refusal) := by
  unfold Inbox.mutate
  simp only
  generalize actualStart (inbox.state.get target).length start = first
  generalize actualDeleteCount ((inbox.state.get target).length - first) deleteCount = count
  split
  · refine ⟨h, fun removed hremoved => ?_, rfl, by simp⟩
    obtain rfl := Except.ok.inj hremoved
    simpa using Accounts.refl inbox
  · split
    · exact ⟨h, by simp, rfl, fun _ _ => ⟨rfl, rfl⟩⟩
    · exact ⟨h, by simp, rfl, fun _ _ => ⟨rfl, rfl⟩⟩
    · rename_i hvalid
      have happly : inbox.state.apply (normalized target first count inserted discard) =
          .ok (inbox.state.splice target first count inserted) := by
        rw [InboxState.apply, hvalid, index_normalized, count_normalized]
        rfl
      refine ⟨h.spliced happly, fun removed hremoved => ?_, ?_, by simp⟩
      · obtain rfl := Except.ok.inj hremoved
        exact .spliced h target first count inserted discard _
      · cases discard <;> simp [Function.comp_def]

section Operations

variable {α : Type u} {β : Type v} {before : Inbox}

/-- Every insertion and every cancellation was published, and every claim that was returned. -/
def Published (before : Inbox) (outcome : InboxOutcome α) : Prop :=
  ∃ claimed, Accounts before outcome.inbox outcome.notices claimed ∧
    ∀ value, outcome.result = .ok value →
      outcome.notices.filterMap InboxNotice.claimed? = claimed

def Atomic (before : Inbox) (outcome : InboxOutcome α) : Prop :=
  ∀ message, outcome.result = .error message → outcome.inbox = before ∧ outcome.notices = []

structure Performed (before : Inbox) (outcome : InboxOutcome α) : Prop where
  follows : outcome.inbox.Follows
  published : Published before outcome
  atomic : Atomic before outcome

theorem map_ok {outcome : InboxOutcome α} {f : α → β} {value : β}
    (h : (outcome.map f).result = .ok value) : ∃ value, outcome.result = .ok value := by
  unfold InboxOutcome.map at h
  cases hresult : outcome.result with
  | error message => simp [hresult, Except.map] at h
  | ok value => exact ⟨value, rfl⟩

theorem map_error {outcome : InboxOutcome α} {f : α → β} {message : String}
    (h : (outcome.map f).result = .error message) : outcome.result = .error message := by
  unfold InboxOutcome.map at h
  cases hresult : outcome.result with
  | error message' => simpa [hresult, Except.map] using h
  | ok value => simp [hresult, Except.map] at h

theorem Performed.map {outcome : InboxOutcome α} (h : Performed before outcome) (f : α → β) :
    Performed before (outcome.map f) where
  follows := h.follows
  published := by
    obtain ⟨claimed, haccounts, hclaimed⟩ := h.published
    refine ⟨claimed, haccounts, fun value hvalue => ?_⟩
    obtain ⟨value, hvalue⟩ := map_ok hvalue
    exact hclaimed value hvalue
  atomic := fun message hmessage => h.atomic message (map_error hmessage)

theorem Performed.skipped (h : before.Follows) (value : α) :
    Performed before { result := .ok value, inbox := before, notices := [] } where
  follows := h
  published := ⟨[], .refl before, fun _ _ => rfl⟩
  atomic := by simp [Atomic]

theorem Mutated.published {discard : Bool} {outcome : InboxOutcome (List UserMessage)}
    (h : Mutated before discard outcome)
    (hclaimed : ∀ removed, outcome.result = .ok removed → discard = true) :
    Published before outcome := by
  cases hresult : outcome.result with
  | error message =>
    obtain ⟨hinbox, hnotices⟩ := h.failed message hresult
    refine ⟨[], ?_, by simp [hresult]⟩
    rw [hinbox, hnotices]
    exact .refl before
  | ok removed =>
    refine ⟨[], ?_, fun _ _ => h.unclaimed⟩
    have haccounts := h.accounts removed hresult
    rwa [hclaimed removed hresult] at haccounts

theorem Follows.splice (h : before.Follows) (target : InboxTarget)
    (start deleteCount : JsNumber) (inserted : List UserMessage) (refusal : Option String) :
    Performed before (before.splice target start deleteCount inserted refusal) := by
  have hmutated := h.mutate target start deleteCount inserted true refusal
  exact ⟨hmutated.follows, hmutated.published fun _ _ => rfl, hmutated.failed⟩

theorem Follows.replace (h : before.Follows) (messageId : MessageId) (newMessage : UserMessage)
    (refusal : Option String) : Performed before (before.replace messageId newMessage refusal) := by
  unfold Inbox.replace
  split
  · exact .skipped h false
  · exact (h.splice _ _ _ _ _).map _

theorem Follows.remove (h : before.Follows) (messageId : MessageId) (refusal : Option String) :
    Performed before (before.remove messageId refusal) := by
  unfold Inbox.remove
  split
  · exact .skipped h false
  · exact (h.splice _ _ _ _ _).map _

theorem Follows.record (h : before.Follows) (data : EventData) :
    Performed before (before.perform { op := .record data, refusals := ⟨none, none⟩ }) where
  follows := h.recorded data
  published := by
    refine ⟨[], ⟨?_, ?_, ?_⟩, fun _ _ => rfl⟩
    · simp [perform, occurrences_append, AgentEvent.occurrences]
    · simp [perform, ledger_append, Ledger.record]
    · simp [perform, ledger_append, Ledger.record]
  atomic := by simp [Atomic, perform]

/-- The next-step half of an operation on both lists, whose next-turn half threw. -/
def HalfDone (before : Inbox) (call : Call) (outcome : InboxOutcome Value) : Prop :=
  ∃ discard removed count message,
    (call.op = .clear ∧ discard = true ∨
      ∃ turn, call.op = .claim .nextTurn turn ∧ discard = false) ∧
    let half := before.mutate .nextStep (.finite 0) (before.lengthOf .nextStep) [] discard
      call.refusals.first
    half.result = .ok removed ∧ outcome.inbox = half.inbox ∧ outcome.notices = half.notices ∧
      (half.inbox.mutate .nextTurn (.finite 0) count [] discard call.refusals.second).result =
        .error message ∧ outcome.result = .error message

structure Settled (before : Inbox) (call : Call) (outcome : InboxOutcome Value) : Prop where
  follows : outcome.inbox.Follows
  published : Published before outcome
  failed : ∀ message, outcome.result = .error message →
    outcome.inbox = before ∧ outcome.notices = [] ∨ HalfDone before call outcome

theorem Performed.settled {call : Call} {outcome : InboxOutcome Value}
    (h : Performed before outcome) : Settled before call outcome :=
  ⟨h.follows, h.published, fun message hmessage => .inl (h.atomic message hmessage)⟩

theorem Mutated.failed_published {discard : Bool} {outcome : InboxOutcome (List UserMessage)}
    (h : Mutated before discard outcome) {message : String}
    (hresult : outcome.result = .error message) :
    Published before ({ outcome with result := .error message } : InboxOutcome α) := by
  obtain ⟨hinbox, hnotices⟩ := h.failed message hresult
  refine ⟨[], ?_, by simp⟩
  simp only [hinbox, hnotices]
  exact .refl before

theorem Follows.clear (h : before.Follows) (refusals : Refusals) :
    Settled before { op := .clear, refusals }
      ((before.clear refusals).map fun _ => Value.done) := by
  have hfirst := h.mutate .nextStep (.finite 0) (before.lengthOf .nextStep) [] true refusals.first
  unfold Inbox.clear Inbox.splice InboxOutcome.andThen
  generalize hhalf : before.mutate .nextStep (.finite 0) (before.lengthOf .nextStep) [] true
    refusals.first = half at hfirst ⊢
  cases hresult : half.result with
  | error message =>
    exact ⟨hfirst.follows, hfirst.failed_published hresult,
      fun _ _ => .inl (hfirst.failed message hresult)⟩
  | ok removed =>
    have hsecond := hfirst.follows.mutate .nextTurn (.finite 0) (half.inbox.lengthOf .nextTurn) []
      true refusals.second
    obtain ⟨claimed, haccounts, hclaimed⟩ := hsecond.published fun _ _ => rfl
    have hboth := (hfirst.accounts removed hresult).trans haccounts
    refine ⟨hsecond.follows, ⟨[] ++ claimed, hboth, fun value hvalue => ?_⟩,
      fun message hmessage => .inr ?_⟩
    · obtain ⟨_, hvalue⟩ := map_ok hvalue
      obtain ⟨queued, hqueued⟩ := map_ok hvalue
      rw [← hclaimed queued hqueued]
      simp only [InboxOutcome.map, List.filterMap_append, hfirst.unclaimed]
    · have hthrown := map_error (map_error hmessage)
      obtain ⟨hinbox, hnotices⟩ := hsecond.failed message hthrown
      refine ⟨true, removed, half.inbox.lengthOf .nextTurn, message, .inl ⟨rfl, rfl⟩, ?_⟩
      simp only [hhalf]
      refine ⟨hresult, hinbox, ?_, hthrown, hmessage⟩
      simp only [InboxOutcome.map, hnotices, List.append_nil]

theorem Accounts.claimedNotices {first second : Inbox} {notices : List InboxNotice}
    {claimed : List UserMessage} (h : Accounts first second notices claimed)
    (messages : List UserMessage) (turn : Nat) :
    Accounts first second (notices ++ messages.map (.claimed · turn)) claimed where
  inserted := by simpa [Function.comp_def] using h.inserted
  discarded := by simpa [Function.comp_def] using h.discarded
  claimed := h.claimed

theorem Follows.claim (h : before.Follows) (target : InboxTarget) (turn : Nat)
    (refusals : Refusals) :
    Settled before { op := .claim target turn, refusals }
      ((before.claim target turn refusals).map Value.messages) := by
  have hfirst := h.mutate .nextStep (.finite 0) (before.lengthOf .nextStep) [] false refusals.first
  unfold Inbox.claim InboxOutcome.andThen
  generalize hhalf : before.mutate .nextStep (.finite 0) (before.lengthOf .nextStep) [] false
    refusals.first = half at hfirst ⊢
  cases hresult : half.result with
  | error message =>
    exact ⟨hfirst.follows, hfirst.failed_published hresult,
      fun _ _ => .inl (hfirst.failed message hresult)⟩
  | ok removed =>
    have haccounts := hfirst.accounts removed hresult
    cases target with
    | nextStep =>
      refine ⟨hfirst.follows, ⟨removed, haccounts.claimedNotices removed turn, fun _ _ => ?_⟩, ?_⟩
      · simp [InboxOutcome.map, hfirst.unclaimed, Function.comp_def]
      · simp [InboxOutcome.map, Except.map]
    | nextTurn =>
      have hsecond := hfirst.follows.mutate .nextTurn (.finite 0) (.finite 1) [] false
        refusals.second
      dsimp only
      generalize hqueue : half.inbox.mutate .nextTurn (.finite 0) (.finite 1) [] false
        refusals.second = queue at hsecond ⊢
      cases hqueued : queue.result with
      | error message =>
        obtain ⟨hinbox, hnotices⟩ := hsecond.failed message hqueued
        refine ⟨?_, ⟨removed, ?_, ?_⟩, fun _ _ => .inr ?_⟩
        · simp [InboxOutcome.map, hqueued, Except.map, hsecond.follows]
        · simpa [InboxOutcome.map, hqueued, Except.map, hinbox, hnotices] using haccounts
        · simp [InboxOutcome.map, hqueued, Except.map]
        · refine ⟨false, removed, .finite 1, message, .inr ⟨turn, rfl, rfl⟩, ?_⟩
          simp only [hhalf]
          refine ⟨hresult, ?_, ?_, ?_, ?_⟩
          · simp [InboxOutcome.map, hqueued, Except.map, hinbox]
          · simp [InboxOutcome.map, hqueued, Except.map, hnotices]
          · rw [hqueue, hqueued]
          · simp [InboxOutcome.map, hqueued, Except.map]
      | ok queued =>
        have hboth := haccounts.trans (hsecond.accounts queued hqueued)
        refine ⟨?_, ⟨removed ++ queued, ?_, fun _ _ => ?_⟩, ?_⟩
        · simp [InboxOutcome.map, hqueued, Except.map, hsecond.follows]
        · simpa [InboxOutcome.map, hqueued, Except.map] using
            hboth.claimedNotices (removed ++ queued) turn
        · simp [InboxOutcome.map, hqueued, Except.map, hfirst.unclaimed, hsecond.unclaimed,
            Function.comp_def]
        · simp [InboxOutcome.map, hqueued, Except.map]

theorem Follows.perform (h : before.Follows) (call : Call) :
    Settled before call (before.perform call) := by
  obtain ⟨op, refusals⟩ := call
  cases op with
  | append target message => exact (((h.splice _ _ _ _ _).map _).map _).settled
  | prepend target message => exact (((h.splice _ _ _ _ _).map _).map _).settled
  | replace messageId newMessage => exact ((h.replace messageId newMessage _).map _).settled
  | remove messageId => exact ((h.remove messageId _).map _).settled
  | clear => exact h.clear refusals
  | claim target turn => exact h.claim target turn refusals
  | splice target start deleteCount inserted => exact ((h.splice _ _ _ _ _).map _).settled
  | record data => exact (h.record data).settled

theorem Follows.after (h : before.Follows) (calls : List Call) : (before.after calls).Follows := by
  induction calls generalizing before with
  | nil => exact h
  | cons call calls ih => exact ih (h.perform call).follows

/-- After any calls the live lists are a replay of the log, and the log accounts for every
insertion; a call that throws changes nothing, or was half done. -/
theorem inbox_follows_log {log : AgentLog} {inbox : Inbox} (h : Inbox.create log = .ok inbox)
    (calls : List Call) :
    let reached := inbox.after calls
    Inbox.create reached.log = .ok reached ∧
    (reached.state.pending.map UserMessage.id).Nodup ∧
    (reached.state = reached.log.ledger.pending.map Occurrence.message ∧
      reached.log.ledger.settled.Perm reached.log.occurrences ∧
      reached.log.occurrences.Nodup) ∧
    ∀ call, let outcome := reached.perform call
      Published reached outcome ∧
      ∀ message, outcome.result = .error message →
        outcome.inbox = reached ∧ outcome.notices = [] ∨ HalfDone reached call outcome := by
  intro reached
  have hreached : reached.Follows := (create_follows h).after calls
  refine ⟨hreached, hreached.nodup, ⟨hreached.state, ?_, ?_⟩, fun call => ?_⟩
  · exact Ledger.settled_ofEvents _ _
  · exact nodup_occurrencesOver _ _
  · have hsettled := hreached.perform call
    exact ⟨hsettled.published, hsettled.failed⟩

end Operations

def queued (id : MessageId) : UserMessage := { id, content := [], source := .user }

/-- A fork whose inherited prefix still holds a pending message of the parent. -/
def forkLog : AgentLog where
  events := [.spliced (normalized .nextTurn 0 0 [queued "parent"] true), .other .endSeed]
  seedLength := some 1
  inherited := by decide

def accept : Refusals := { first := none, second := none }

def forkCalls : List Call :=
  [{ op := .append .nextTurn (queued "turn"), refusals := accept },
    { op := .splice .nextStep .infinity .nan [queued "step", queued "other"], refusals := accept },
    { op := .remove "other", refusals := accept },
    { op := .append .nextStep (queued "turn"), refusals := accept }]

theorem fork_inbox_follows_log :
    let reached := Inbox.after { log := forkLog, state := .empty } forkCalls
    reached.log.ledger.settled.Perm reached.log.occurrences ∧
      Inbox.create reached.log = .ok reached :=
  have h := @inbox_follows_log forkLog { log := forkLog, state := .empty } (by decide) forkCalls
  ⟨h.2.2.1.2.1, h.1⟩

theorem refused_clear_half_done :
    let reached := Inbox.after { log := forkLog, state := .empty } forkCalls.dropLast
    let outcome := reached.perform
      { op := .clear, refusals := { first := none, second := some "vetoed" } }
    Inbox.create reached.log = .ok reached ∧ isOk outcome.result = false ∧
      outcome.inbox ≠ reached ∧ outcome.inbox.log ≠ reached.log := by
  decide

end Inbox

end Harness
