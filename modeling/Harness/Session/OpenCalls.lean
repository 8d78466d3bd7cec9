import Harness.Session.Repair
import Mathlib.Data.List.Induction

namespace Harness

open Harness.Foundation

def requestedCalls (event : SessionEvent) : List CallId :=
  match event.data with
  | .assistantMessage _ _ message _ _ => (toolCallBlocks message.content).map ToolCallBlock.id
  | _ => []

def callRecord (callId : CallId) (event : SessionEvent) : Option Nat :=
  match event.data with
  | .toolCall _ _ called _ _ => if called = callId then some event.seq else none
  | _ => none

def namesResult (event : SessionEvent) (callId : CallId) : Bool :=
  match event.data with
  | .toolResult data => data.message.source.callId == callId
  | _ => false

def answersCall (event : SessionEvent) (callId : CallId) : Bool :=
  namesResult event callId && SessionTrace.isAppend event

def rewritesResult (event : SessionEvent) (callId : CallId) : Bool :=
  namesResult event callId && !SessionTrace.isAppend event

def recordedAt (events : List SessionEvent) (callId : CallId) : Option Nat :=
  (events.filterMap (callRecord callId)).getLast?

/-- The requested calls that no later event ends, each with its latest record. -/
def callsOpen (ends : SessionEvent → CallId → Bool) :
    List SessionEvent → List (CallId × Option Nat)
  | [] => []
  | event :: rest =>
    ((requestedCalls event).filter fun callId => !rest.any fun later => ends later callId).map
        (fun callId => (callId, recordedAt rest callId))
      ++ callsOpen ends rest

def trackStep (tail : Option (List SessionEvent)) (event : SessionEvent) :
    Option (List SessionEvent) :=
  match event.data with
  | .stepStart _ _ => some []
  | .stepEnd _ _ | .turnStart _ | .turnEnd _ _ => none
  | _ => tail.map fun events => events ++ [event]

def openStepTail (log : List SessionEvent) : Option (List SessionEvent) := log.foldl trackStep none

def openStepEvents (log : List SessionEvent) : List SessionEvent := (openStepTail log).getD []

def unansweredCalls (log : List SessionEvent) : List (CallId × Option Nat) :=
  callsOpen answersCall (openStepEvents log)

def DistinctCalls (events : List SessionEvent) : Prop := (events.flatMap requestedCalls).Nodup

instance (events : List SessionEvent) : Decidable (DistinctCalls events) :=
  inferInstanceAs (Decidable (List.Nodup _))

def advanceCalls (ends : SessionEvent → CallId → Bool) (calls : List (CallId × Option Nat))
    (event : SessionEvent) : List (CallId × Option Nat) :=
  ((calls.filter fun call => !ends event call.1).map
      fun call => (call.1, (callRecord call.1 event).or call.2))
    ++ (requestedCalls event).map fun callId => (callId, none)

theorem recordedAt_snoc (events : List SessionEvent) (event : SessionEvent) (callId : CallId) :
    recordedAt (events ++ [event]) callId =
      (callRecord callId event).or (recordedAt events callId) := by
  unfold recordedAt
  rw [List.filterMap_append, List.getLast?_append]
  cases h : callRecord callId event <;> simp [h]

theorem callsOpen_snoc (ends : SessionEvent → CallId → Bool) (events : List SessionEvent)
    (event : SessionEvent) :
    callsOpen ends (events ++ [event]) = advanceCalls ends (callsOpen ends events) event := by
  induction events with
  | nil => simp [callsOpen, advanceCalls, recordedAt]
  | cons first rest ih =>
    simp only [List.cons_append, callsOpen, ih, advanceCalls, List.filter_append, List.map_append,
      List.append_assoc]
    congr 1
    simp only [List.filter_map, List.map_map, List.filter_filter]
    have hkept : (requestedCalls first).filter
        (fun callId => !(rest ++ [event]).any fun later => ends later callId) =
      (requestedCalls first).filter (fun callId =>
        ((fun call : CallId × Option Nat => !ends event call.1) ∘
          fun callId => (callId, recordedAt rest callId)) callId &&
        !rest.any fun later => ends later callId) := by
      congr 1
      funext callId
      simp [Bool.and_comm]
    rw [hkept]
    apply List.map_congr_left
    intro callId _
    simp [recordedAt_snoc]

theorem callsOpen_append (ends : SessionEvent → CallId → Bool)
    (events back : List SessionEvent) :
    callsOpen ends (events ++ back) = back.foldl (advanceCalls ends) (callsOpen ends events) := by
  induction back using List.reverseRecOn with
  | nil => simp
  | append_singleton back event ih =>
    rw [← List.append_assoc, callsOpen_snoc, ih, List.foldl_append]
    rfl

theorem mem_callsOpen_requested {ends : SessionEvent → CallId → Bool}
    {events : List SessionEvent} {call : CallId × Option Nat} (h : call ∈ callsOpen ends events) :
    call.1 ∈ events.flatMap requestedCalls := by
  induction events with
  | nil => simp [callsOpen] at h
  | cons event rest ih =>
    rw [List.flatMap_cons, List.mem_append]
    rcases List.mem_append.mp h with hfirst | hrest
    · obtain ⟨callId, hcall, rfl⟩ := List.mem_map.mp hfirst
      exact .inl (List.mem_filter.mp hcall).1
    · exact .inr (ih hrest)

theorem openStepTail_snoc (log : List SessionEvent) (event : SessionEvent) :
    openStepTail (log ++ [event]) = trackStep (openStepTail log) event := by
  simp [openStepTail, List.foldl_append]

/-- No call that is still unanswered had some result under its id rewritten since it was
requested. -/
def NoRewriteOfUnanswered (events : List SessionEvent) : Prop :=
  ∀ front event rest, events = front ++ event :: rest → ∀ callId ∈ requestedCalls event,
    (∀ later ∈ rest, answersCall later callId = false) →
      ∀ later ∈ rest, rewritesResult later callId = false

theorem namesResult_eq (event : SessionEvent) (callId : CallId) :
    namesResult event callId = (answersCall event callId || rewritesResult event callId) := by
  unfold answersCall rewritesResult
  cases namesResult event callId <;> simp

theorem any_namesResult (rest : List SessionEvent) (callId : CallId) :
    (rest.any fun later => namesResult later callId) =
      ((rest.any fun later => answersCall later callId) ||
        rest.any fun later => rewritesResult later callId) := by
  induction rest with
  | nil => rfl
  | cons event rest ih =>
    rw [List.any_cons, List.any_cons, List.any_cons, ih, namesResult_eq]
    ac_rfl

theorem noRewriteOfUnanswered_cons (event : SessionEvent) (rest : List SessionEvent) :
    NoRewriteOfUnanswered (event :: rest) ↔
      (∀ callId ∈ requestedCalls event, (rest.any fun later => answersCall later callId) = false →
        (rest.any fun later => rewritesResult later callId) = false) ∧
      NoRewriteOfUnanswered rest := by
  constructor
  · intro h
    refine ⟨?_, ?_⟩
    · intro callId hcall hnone
      simpa using h [] event rest rfl callId hcall (by simpa using hnone)
    · rintro front later rest' rfl callId hcall hnone
      exact h (event :: front) later rest' rfl callId hcall hnone
  · rintro ⟨hfirst, hrest⟩ front later rest' hsplit callId hcall hnone
    cases front with
    | nil =>
      obtain ⟨rfl, rfl⟩ := List.cons.inj hsplit
      simpa using hfirst callId hcall (by simpa using hnone)
    | cons first front =>
      obtain ⟨rfl, rfl⟩ := List.cons.inj hsplit
      exact hrest front later rest' rfl callId hcall hnone

theorem filter_namesResult_sublist (callIds : List CallId) (rest : List SessionEvent) :
    (callIds.filter fun callId => !rest.any fun later => namesResult later callId).Sublist
      (callIds.filter fun callId => !rest.any fun later => answersCall later callId) := by
  apply List.monotone_filter_right
  intro callId
  simp only [any_namesResult]
  cases rest.any fun later => answersCall later callId <;> simp

theorem callsOpen_sublist (events : List SessionEvent) :
    (callsOpen namesResult events).Sublist (callsOpen answersCall events) := by
  induction events with
  | nil => exact List.Sublist.refl _
  | cons event rest ih =>
    exact ((filter_namesResult_sublist (requestedCalls event) rest).map _).append ih

theorem filter_eq_filter_iff {α : Type} {p q : α → Bool} (as : List α)
    (h : ∀ a, p a = true → q a = true) :
    as.filter p = as.filter q ↔ ∀ a ∈ as, q a = true → p a = true := by
  constructor
  · intro heq a ha hq
    have : a ∈ as.filter p := by
      rw [heq]
      exact List.mem_filter.mpr ⟨ha, hq⟩
    exact (List.mem_filter.mp this).2
  · intro himp
    apply List.filter_congr
    intro a ha
    rw [Bool.eq_iff_iff]
    exact ⟨h a, himp a ha⟩

/-- Counting every result as an answer finds the same open calls exactly when no rewrite hid
one. -/
theorem callsOpen_namesResult_eq_iff (events : List SessionEvent) :
    callsOpen namesResult events = callsOpen answersCall events ↔
      NoRewriteOfUnanswered events := by
  induction events with
  | nil => simp [callsOpen, NoRewriteOfUnanswered]
  | cons event rest ih =>
    rw [noRewriteOfUnanswered_cons, ← ih]
    have hfirst : ((requestedCalls event).filter
          fun callId => !rest.any fun later => namesResult later callId) =
        ((requestedCalls event).filter
          fun callId => !rest.any fun later => answersCall later callId) ↔
        ∀ callId ∈ requestedCalls event, (rest.any fun later => answersCall later callId) = false →
          (rest.any fun later => rewritesResult later callId) = false := by
      rw [filter_eq_filter_iff]
      · simp only [any_namesResult, Bool.not_eq_true', Bool.or_eq_false_iff]
        constructor
        · exact fun h callId hcall hnone => (h callId hcall hnone).2
        · exact fun h callId hcall hnone => ⟨hnone, h callId hcall hnone⟩
      · intro callId
        simp only [any_namesResult, Bool.not_eq_true', Bool.or_eq_false_iff]
        exact And.left
    rw [← hfirst]
    constructor
    · intro heq
      simp only [callsOpen] at heq
      have hlength := congrArg List.length heq
      have hrest := (callsOpen_sublist rest).length_le
      have hsub := filter_namesResult_sublist (requestedCalls event) rest
      have hle := hsub.length_le
      simp only [List.length_append, List.length_map] at hlength
      obtain ⟨_, hcalls⟩ := List.append_inj heq (by simp only [List.length_map]; omega)
      exact ⟨hsub.eq_of_length (by omega), hcalls⟩
    · rintro ⟨hkept, hcalls⟩
      simp only [callsOpen, hkept, hcalls]

end Harness
