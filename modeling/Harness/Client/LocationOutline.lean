import Harness.Client.LocationIndex
import Harness.Foundation.Tabulate

namespace Harness.Client

open Harness.Foundation

structure Marks where
  start : Option SessionEvent
  stop : Option SessionEvent

def Marks.none : Marks := ⟨.none, .none⟩

structure Outline where
  turns : List Nat
  turnsNodup : turns.Nodup
  steps : Nat → List Nat
  stepsNodup : ∀ turn, (steps turn).Nodup
  turnMarks : Nat → Marks
  stepMarks : Nat → Nat → Marks

namespace Outline

def empty : Outline where
  turns := []
  turnsNodup := List.nodup_nil
  steps _ := []
  stepsNodup _ := List.nodup_nil
  turnMarks _ := .none
  stepMarks _ _ := .none

variable (outline : Outline)

def seeTurn (turn : Nat) : Outline where
  turns := insertLast outline.turns turn
  turnsNodup := nodup_insertLast outline.turnsNodup turn
  steps := outline.steps
  stepsNodup := outline.stepsNodup
  turnMarks := outline.turnMarks
  stepMarks := outline.stepMarks

def seeStep (turn step : Nat) : Outline where
  turns := outline.turns
  turnsNodup := outline.turnsNodup
  steps := Function.update outline.steps turn (insertLast (outline.steps turn) step)
  stepsNodup := by
    intro other
    rw [Function.update_apply]
    split
    · exact nodup_insertLast (outline.stepsNodup turn) step
    · exact outline.stepsNodup other
  turnMarks := outline.turnMarks
  stepMarks := outline.stepMarks

def markTurn (turn : Nat) (change : Marks → Marks) : Outline where
  turns := outline.turns
  turnsNodup := outline.turnsNodup
  steps := outline.steps
  stepsNodup := outline.stepsNodup
  turnMarks := Function.update outline.turnMarks turn (change (outline.turnMarks turn))
  stepMarks := outline.stepMarks

def markStep (turn step : Nat) (change : Marks → Marks) : Outline where
  turns := outline.turns
  turnsNodup := outline.turnsNodup
  steps := outline.steps
  stepsNodup := outline.stepsNodup
  turnMarks := outline.turnMarks
  stepMarks := Function.update outline.stepMarks turn
    (Function.update (outline.stepMarks turn) step (change (outline.stepMarks turn step)))

def see (coordinates : Coordinates) : Outline :=
  match coordinates.turn, coordinates.step with
  | none, _ => outline
  | some turn, none => outline.seeTurn turn
  | some turn, some step => (outline.seeTurn turn).seeStep turn step

def mark (event : SessionEvent) : Outline :=
  match event.data with
  | .turnStart turn => outline.markTurn turn fun marks => { marks with start := some event }
  | .turnEnd turn _ => outline.markTurn turn fun marks => { marks with stop := some event }
  | .stepStart turn step =>
    outline.markStep turn step fun marks => { marks with start := some event }
  | .stepEnd turn step => outline.markStep turn step fun marks => { marks with stop := some event }
  | _ => outline

abbrev Placed := SessionEvent × Coordinates

def observe (placed : Placed) : Outline := (outline.see placed.2).mark placed.1

def observeAll (placed : List Placed) : Outline := placed.foldl observe outline

def stepLocation (turn step : Nat) : StepLocation where
  turn := turn
  step := step
  start := (outline.stepMarks turn step).start
  stop := (outline.stepMarks turn step).stop
  status := statusOf (outline.stepMarks turn step).start (outline.stepMarks turn step).stop

def turnLocation (turn : Nat) : TurnLocation where
  turn := turn
  start := (outline.turnMarks turn).start
  stop := (outline.turnMarks turn).stop
  status := statusOf (outline.turnMarks turn).start (outline.turnMarks turn).stop
  steps := (outline.steps turn).map (outline.stepLocation turn)

def timeline : ConversationTimeline where
  turnOrder := outline.turns
  turns := .tabulate outline.turns outline.turnsNodup outline.turnLocation

structure Tidy : Prop where
  steps : ∀ turn ∉ outline.turns, outline.steps turn = []
  turnMarks : ∀ turn ∉ outline.turns, outline.turnMarks turn = .none
  stepMarks : ∀ turn, ∀ step ∉ outline.steps turn, outline.stepMarks turn step = .none

end Outline

def Fits (placed : Outline.Placed) : Prop :=
  match placed.1.data with
  | .turnStart turn => placed.2 = ⟨some turn, none⟩
  | .turnEnd turn _ => placed.2 = ⟨some turn, none⟩
  | .stepStart turn step => placed.2 = ⟨some turn, some step⟩
  | .stepEnd turn step => placed.2 = ⟨some turn, some step⟩
  | _ => True

namespace Outline

variable {outline : Outline}

theorem steps_seeStep (outline : Outline) (turn step other : Nat) :
    (outline.seeStep turn step).steps other =
      if other = turn then insertLast (outline.steps turn) step else outline.steps other :=
  Function.update_apply _ _ _ _

theorem turnMarks_markTurn (outline : Outline) (turn other : Nat) (change : Marks → Marks) :
    (outline.markTurn turn change).turnMarks other =
      if other = turn then change (outline.turnMarks turn) else outline.turnMarks other :=
  Function.update_apply _ _ _ _

theorem stepMarks_markStep (outline : Outline) (turn step other number : Nat)
    (change : Marks → Marks) :
    (outline.markStep turn step change).stepMarks other number =
      if other = turn ∧ number = step then change (outline.stepMarks turn step)
      else outline.stepMarks other number := by
  simp only [markStep, Function.update_apply]
  by_cases hturn : other = turn
  · rw [if_pos hturn, hturn, Function.update_apply]
    exact if_congr (and_iff_right rfl).symm rfl rfl
  · rw [if_neg hturn, if_neg fun h => hturn h.1]

theorem tidy_empty : empty.Tidy where
  steps _ _ := rfl
  turnMarks _ _ := rfl
  stepMarks _ _ _ := rfl

theorem Tidy.seeTurn (h : outline.Tidy) (turn : Nat) : (outline.seeTurn turn).Tidy where
  steps other hother := h.steps other fun hmem => hother (mem_insertLast.mpr (.inl hmem))
  turnMarks other hother := h.turnMarks other fun hmem => hother (mem_insertLast.mpr (.inl hmem))
  stepMarks := h.stepMarks

theorem Tidy.seeStep (h : outline.Tidy) {turn : Nat} (hturn : turn ∈ outline.turns) (step : Nat) :
    (outline.seeStep turn step).Tidy where
  steps other hother := by
    have hne : other ≠ turn := fun heq => hother (heq ▸ hturn)
    rw [steps_seeStep, if_neg hne]
    exact h.steps other hother
  turnMarks := h.turnMarks
  stepMarks other number hnumber := by
    apply h.stepMarks
    intro hmem
    apply hnumber
    rw [steps_seeStep]
    split
    · next heq => exact mem_insertLast.mpr (.inl (heq ▸ hmem))
    · exact hmem

theorem mem_seeTurn (outline : Outline) (turn : Nat) : turn ∈ (outline.seeTurn turn).turns :=
  mem_insertLast.mpr (.inr rfl)

theorem mem_seeStep (outline : Outline) (turn step : Nat) :
    step ∈ (outline.seeStep turn step).steps turn := by
  rw [steps_seeStep, if_pos rfl]
  exact mem_insertLast.mpr (.inr rfl)

theorem Tidy.see (h : outline.Tidy) (coordinates : Coordinates) :
    (outline.see coordinates).Tidy := by
  rw [Outline.see]
  split
  · exact h
  · exact h.seeTurn _
  · exact (h.seeTurn _).seeStep (mem_seeTurn outline _) _

theorem Tidy.markTurn (h : outline.Tidy) {turn : Nat} (hturn : turn ∈ outline.turns)
    (change : Marks → Marks) : (outline.markTurn turn change).Tidy where
  steps := h.steps
  turnMarks other hother := by
    have hne : other ≠ turn := fun heq => hother (heq ▸ hturn)
    rw [turnMarks_markTurn, if_neg hne]
    exact h.turnMarks other hother
  stepMarks := h.stepMarks

theorem Tidy.markStep (h : outline.Tidy) {turn step : Nat} (hstep : step ∈ outline.steps turn)
    (change : Marks → Marks) : (outline.markStep turn step change).Tidy where
  steps := h.steps
  turnMarks := h.turnMarks
  stepMarks other number hnumber := by
    rw [stepMarks_markStep, if_neg]
    · exact h.stepMarks other number hnumber
    · rintro ⟨rfl, rfl⟩
      exact hnumber hstep

theorem Tidy.observe (h : outline.Tidy) {placed : Placed} (hfits : Fits placed) :
    (outline.observe placed).Tidy := by
  obtain ⟨event, coordinates⟩ := placed
  have hsee := h.see coordinates
  rw [Outline.observe, Outline.mark]
  rw [Fits] at hfits
  cases hdata : event.data with
  | turnStart turn =>
    rw [hdata] at hfits
    rw [show coordinates = ⟨some turn, none⟩ from hfits] at hsee ⊢
    exact hsee.markTurn (mem_seeTurn outline turn) _
  | turnEnd turn reason =>
    rw [hdata] at hfits
    rw [show coordinates = ⟨some turn, none⟩ from hfits] at hsee ⊢
    exact hsee.markTurn (mem_seeTurn outline turn) _
  | stepStart turn step =>
    rw [hdata] at hfits
    rw [show coordinates = ⟨some turn, some step⟩ from hfits] at hsee ⊢
    exact hsee.markStep (mem_seeStep (outline.seeTurn turn) turn step) _
  | stepEnd turn step =>
    rw [hdata] at hfits
    rw [show coordinates = ⟨some turn, some step⟩ from hfits] at hsee ⊢
    exact hsee.markStep (mem_seeStep (outline.seeTurn turn) turn step) _
  | userMessage | assistantChunk | assistantMessage | toolCall | toolResult | todoWrite
  | requestHeader | requestContext | endSeed | plugin => exact hsee

theorem Tidy.observeAll (h : outline.Tidy) {placed : List Placed}
    (hfits : ∀ p ∈ placed, Fits p) : (outline.observeAll placed).Tidy := by
  induction placed generalizing outline with
  | nil => exact h
  | cons p rest ih =>
    exact ih (h.observe (hfits p List.mem_cons_self)) fun q hq => hfits q (List.mem_cons_of_mem p hq)

def seenTurns (known : List Nat) (placed : List Placed) : List Nat :=
  (placed.filterMap fun p => p.2.turn).foldl insertLast known

def seenSteps (turn : Nat) (known : List Nat) (placed : List Placed) : List Nat :=
  (placed.filterMap fun p => if p.2.turn = some turn then p.2.step else none).foldl insertLast known

theorem turns_mark (outline : Outline) (event : SessionEvent) :
    (outline.mark event).turns = outline.turns := by
  rw [mark]
  split <;> rfl

theorem steps_mark (outline : Outline) (event : SessionEvent) :
    (outline.mark event).steps = outline.steps := by
  rw [mark]
  split <;> rfl

theorem turns_observeAll (outline : Outline) (placed : List Placed) :
    (outline.observeAll placed).turns = seenTurns outline.turns placed := by
  induction placed generalizing outline with
  | nil => rfl
  | cons p rest ih =>
    have hfirst : (outline.observe p).turns = seenTurns outline.turns [p] := by
      rw [observe, turns_mark, see]
      split <;> simp only [seenTurns, List.filterMap_cons, List.filterMap_nil, *] <;> rfl
    rw [observeAll, List.foldl_cons, ← observeAll, ih, hfirst]
    simp only [seenTurns, ← List.foldl_append, ← List.filterMap_append, List.singleton_append]

theorem steps_observeAll (outline : Outline) (placed : List Placed) (turn : Nat) :
    (outline.observeAll placed).steps turn = seenSteps turn (outline.steps turn) placed := by
  induction placed generalizing outline with
  | nil => rfl
  | cons p rest ih =>
    have hfirst : (outline.observe p).steps turn = seenSteps turn (outline.steps turn) [p] := by
      obtain ⟨event, number, step⟩ := p
      rw [observe, steps_mark, seenSteps, List.filterMap_cons, List.filterMap_nil]
      cases number with
      | none => rfl
      | some number =>
        by_cases hturn : number = turn
        · rw [hturn, if_pos rfl]
          cases step with
          | none => rfl
          | some step => exact (steps_seeStep _ turn step turn).trans (if_pos rfl)
        · rw [if_neg fun heq => hturn (Option.some.inj heq)]
          cases step with
          | none => rfl
          | some step => exact (steps_seeStep _ number step turn).trans (if_neg (Ne.symm hturn))
    rw [observeAll, List.foldl_cons, ← observeAll, ih, hfirst]
    simp only [seenSteps, ← List.foldl_append, ← List.filterMap_append, List.singleton_append]

theorem mark_of_not_boundary (outline : Outline) {event : SessionEvent}
    (h : isBoundary event.data = false) : outline.mark event = outline := by
  rw [mark]
  cases hdata : event.data with
  | turnStart | turnEnd | stepStart | stepEnd =>
    rw [hdata] at h
    cases h
  | userMessage | assistantChunk | assistantMessage | toolCall | toolResult | todoWrite
  | requestHeader | requestContext | endSeed | plugin => rfl

structure SameMarks (outline other : Outline) : Prop where
  turnMarks : outline.turnMarks = other.turnMarks
  stepMarks : outline.stepMarks = other.stepMarks

theorem SameMarks.see {other : Outline} (h : SameMarks outline other) (coordinates : Coordinates) :
    SameMarks (outline.see coordinates) other := by
  rw [Outline.see]
  split
  · exact h
  · exact ⟨h.turnMarks, h.stepMarks⟩
  · exact ⟨h.turnMarks, h.stepMarks⟩

theorem SameMarks.symm {other : Outline} (h : SameMarks outline other) : SameMarks other outline :=
  ⟨h.turnMarks.symm, h.stepMarks.symm⟩

theorem SameMarks.mark {other : Outline} (h : SameMarks outline other) (event : SessionEvent) :
    SameMarks (outline.mark event) (other.mark event) := by
  rw [Outline.mark, Outline.mark]
  split
  · exact ⟨by simp only [markTurn, h.turnMarks], h.stepMarks⟩
  · exact ⟨by simp only [markTurn, h.turnMarks], h.stepMarks⟩
  · exact ⟨h.turnMarks, by simp only [markStep, h.stepMarks]⟩
  · exact ⟨h.turnMarks, by simp only [markStep, h.stepMarks]⟩
  · exact h

def boundariesOf (placed : List Placed) : List Placed := placed.filter fun p => isBoundary p.1.data

theorem SameMarks.observeAll {other : Outline} (h : SameMarks outline other)
    (placed : List Placed) :
    SameMarks (outline.observeAll placed) (other.observeAll (boundariesOf placed)) := by
  induction placed generalizing outline other with
  | nil => exact h
  | cons p rest ih =>
    rw [boundariesOf, List.filter_cons]
    split
    · exact ih (((h.see p.2).symm.see p.2).symm.mark p.1)
    · next hboundary =>
      apply ih
      rw [observe, mark_of_not_boundary _ (Bool.eq_false_iff.mpr hboundary)]
      exact h.see p.2

theorem timeline_eq_iff {other : Outline} (h : SameMarks outline other) :
    outline.timeline = other.timeline ↔
      outline.turns = other.turns ∧ ∀ turn ∈ outline.turns, outline.steps turn = other.steps turn := by
  have hstep : outline.stepLocation = other.stepLocation := by
    funext turn step
    rw [stepLocation, stepLocation, h.stepMarks]
  have hlocation (turn : Nat) : outline.turnLocation turn = other.turnLocation turn ↔
      outline.steps turn = other.steps turn := by
    constructor
    · intro heq
      have hsteps := congrArg (fun location => location.steps.map StepLocation.step) heq
      simp only [turnLocation, List.map_map] at hsteps
      have hid (o : Outline) : (StepLocation.step ∘ o.stepLocation turn) = id := rfl
      rwa [hid, hid, List.map_id, List.map_id] at hsteps
    · intro heq
      rw [turnLocation, turnLocation, h.turnMarks, heq, hstep]
  rw [timeline, timeline, ConversationTimeline.mk.injEq, OrderedMap.tabulate_eq_iff]
  simp only [hlocation, and_self_left]

end Outline

end Harness.Client
