import Harness.Client.LocationOutline

namespace Harness.Client

open Harness.Foundation

section Append

variable {outline : Outline}

theorem get?_turns (outline : Outline) (turn : Nat) :
    outline.timeline.turns.get? turn =
      if turn ∈ outline.turns then some (outline.turnLocation turn) else none :=
  OrderedMap.get?_tabulate outline.turnsNodup turn

theorem find?_steps {steps : List Nat} {location : Nat → StepLocation}
    (h : ∀ step, (location step).step = step) (number : Nat) :
    ((steps.map location).find? fun step => step.step = number) =
      if number ∈ steps then some (location number) else none := by
  induction steps with
  | nil => rfl
  | cons step rest ih =>
    rw [List.map_cons, List.find?_cons, ih, h step]
    by_cases hstep : step = number
    · rw [hstep, decide_eq_true rfl, if_pos (List.mem_cons_self)]
    · rw [decide_eq_false hstep]
      refine if_congr ?_ rfl rfl
      rw [List.mem_cons, or_iff_right (Ne.symm hstep)]

theorem replace_step {steps : List Nat} (hnodup : steps.Nodup) {location : Nat → StepLocation}
    (h : ∀ step, (location step).step = step) (number : Nat) (next : StepLocation) :
    (match (steps.map location).findIdx? fun step => step.step = number with
      | none => steps.map location ++ [next]
      | some found => (steps.map location).set found next) =
      (insertLast steps number).map (Function.update location number next) := by
  induction steps with
  | nil => rw [insertLast_of_notMem List.not_mem_nil, List.nil_append, List.map_singleton,
      Function.update_self]; rfl
  | cons step rest ih =>
    rw [List.nodup_cons] at hnodup
    rw [List.map_cons, List.findIdx?_cons, h step]
    by_cases hstep : step = number
    · rw [if_pos (decide_eq_true hstep), insertLast_of_mem (hstep ▸ List.mem_cons_self),
        List.map_cons, hstep, Function.update_self]
      refine congrArg (next :: ·) (List.map_congr_left fun other hother => ?_)
      have hne : other ≠ number := fun heq => hnodup.1 (hstep ▸ heq ▸ hother)
      rw [Function.update_of_ne hne]
    · have hinsert : insertLast (step :: rest) number = step :: insertLast rest number := by
        simp only [insertLast, List.mem_cons, or_iff_right (Ne.symm hstep)]
        split <;> rfl
      rw [if_neg (by rwa [decide_eq_true_eq]), hinsert, List.map_cons,
        Function.update_of_ne hstep, ← ih hnodup.2]
      cases (rest.map location).findIdx? fun step => step.step = number <;> rfl

theorem appendStep_steps (steps : List Nat) (hnodup : steps.Nodup) {location : Nat → StepLocation}
    (h : ∀ step, (location step).step = step) (turn : Nat) {event : SessionEvent} {number : Nat} :
    (∀ owner, event.data = .stepStart owner number →
      appendStep (steps.map location) turn event =
        (insertLast steps number).map (Function.update location number
          { turn, step := number, start := some event
            stop := if number ∈ steps then (location number).stop else none
            status := statusOf (some event)
              (if number ∈ steps then (location number).stop else none) })) ∧
    (∀ owner, event.data = .stepEnd owner number →
      appendStep (steps.map location) turn event =
        (insertLast steps number).map (Function.update location number
          { turn, step := number
            start := if number ∈ steps then (location number).start else none
            stop := some event, status := .closed })) := by
  constructor
  · intro owner hdata
    rw [appendStep, hdata]
    refine (replace_step hnodup h number _).trans ?_
    rw [find?_steps h]
    congr 2
    split <;> rfl
  · intro owner hdata
    rw [appendStep, hdata]
    refine (replace_step hnodup h number _).trans ?_
    rw [find?_steps h]
    congr 2
    split <;> rfl

theorem bind_turns (h : outline.Tidy) (turn : Nat) :
    (outline.timeline.turns.get? turn).bind TurnLocation.start = (outline.turnMarks turn).start ∧
      (outline.timeline.turns.get? turn).bind TurnLocation.stop = (outline.turnMarks turn).stop ∧
      ((outline.timeline.turns.get? turn).map TurnLocation.steps).getD [] =
        (outline.steps turn).map (outline.stepLocation turn) := by
  rw [get?_turns]
  split
  · exact ⟨rfl, rfl, rfl⟩
  · next hturn =>
    rw [h.turnMarks turn hturn, h.steps turn hturn]
    exact ⟨rfl, rfl, rfl⟩

theorem statusOf_eq (start stop : Option SessionEvent) :
    (if stop.isSome then LocationStatus.closed
      else if start.isSome then .isOpen else .unknown) = statusOf start stop := by
  rw [statusOf]
  cases start <;> rfl

theorem absent_step (h : outline.Tidy) {turn step : Nat} {part : StepLocation → Option SessionEvent}
    (hpart : outline.stepMarks turn step = .none → part (outline.stepLocation turn step) = none) :
    (if step ∈ outline.steps turn then part (outline.stepLocation turn step) else none) =
      part (outline.stepLocation turn step) := by
  split
  · rfl
  · next hstep => exact (hpart (h.stepMarks turn step hstep)).symm

theorem appendTurn_of {other : Outline} (h : outline.Tidy) {turn : Nat} {event : SessionEvent}
    (hturns : other.turns = insertLast outline.turns turn)
    (hother : ∀ number ≠ turn, other.turnLocation number = outline.turnLocation number)
    (hstart : startedBy event (outline.turnMarks turn).start = (other.turnMarks turn).start)
    (hstop : stoppedBy event (outline.turnMarks turn).stop = (other.turnMarks turn).stop)
    (hsteps : appendStep ((outline.steps turn).map (outline.stepLocation turn)) turn event =
      (other.steps turn).map (other.stepLocation turn)) :
    appendTurn outline.timeline turn event = other.timeline := by
  obtain ⟨hpreviousStart, hpreviousStop, hpreviousSteps⟩ := bind_turns h turn
  have horder : (if (outline.timeline.turns.get? turn).isNone then outline.turns ++ [turn]
      else outline.turns) = other.turns := by
    rw [hturns, get?_turns, insertLast]
    split <;> rfl
  have hlocation : ∀ number ∈ insertLast outline.turns turn,
      Function.update outline.turnLocation turn (other.turnLocation turn) number =
        other.turnLocation number := by
    intro number _
    by_cases hnumber : number = turn
    · rw [hnumber, Function.update_self]
    · rw [Function.update_of_ne hnumber, hother number hnumber]
  rw [appendTurn, hpreviousStart, hpreviousStop, hpreviousSteps, hsteps, statusOf_eq, hstart, hstop]
  refine congrArg₂ ConversationTimeline.mk horder ?_
  exact (OrderedMap.set_tabulate outline.turnsNodup turn _).trans
    ((OrderedMap.tabulate_eq_iff _ _).mpr ⟨hturns.symm, hlocation⟩)

theorem appendTurn_step (h : outline.Tidy) {turn step : Nat} {event : SessionEvent}
    {change : Marks → Marks} (hstart : ∀ previous, startedBy event previous = previous)
    (hstop : ∀ previous, stoppedBy event previous = previous)
    (hsteps : appendStep ((outline.steps turn).map (outline.stepLocation turn)) turn event =
      (insertLast (outline.steps turn) step).map (Function.update (outline.stepLocation turn) step
        { turn, step
          start := (change (outline.stepMarks turn step)).start
          stop := (change (outline.stepMarks turn step)).stop
          status := statusOf (change (outline.stepMarks turn step)).start
            (change (outline.stepMarks turn step)).stop })) :
    appendTurn outline.timeline turn event =
      (((outline.seeTurn turn).seeStep turn step).markStep turn step change).timeline := by
  have hlocation : ∀ other number,
      (((outline.seeTurn turn).seeStep turn step).markStep turn step change).stepLocation
        other number = if other = turn ∧ number = step then
          { turn, step
            start := (change (outline.stepMarks turn step)).start
            stop := (change (outline.stepMarks turn step)).stop
            status := statusOf (change (outline.stepMarks turn step)).start
              (change (outline.stepMarks turn step)).stop }
        else outline.stepLocation other number := by
    intro other number
    rw [Outline.stepLocation, Outline.stepMarks_markStep]
    split
    · next heq =>
      rw [heq.1, heq.2]
      rfl
    · rfl
  apply appendTurn_of h
  · rfl
  · intro other hother
    have hsame : (((outline.seeTurn turn).seeStep turn step).markStep turn step change).stepLocation
        other = outline.stepLocation other := by
      funext number
      rw [hlocation, if_neg fun heq => hother heq.1]
    have hseen : (((outline.seeTurn turn).seeStep turn step).markStep turn step change).steps other =
        outline.steps other := (Outline.steps_seeStep _ turn step other).trans (if_neg hother)
    rw [Outline.turnLocation, hsame, hseen]
    rfl
  · exact hstart _
  · exact hstop _
  · have hseen : (((outline.seeTurn turn).seeStep turn step).markStep turn step change).steps turn =
        insertLast (outline.steps turn) step :=
      (Outline.steps_seeStep _ turn step turn).trans (if_pos rfl)
    rw [hsteps, hseen]
    congr 1
    funext number
    rw [hlocation, Function.update_apply]
    exact if_congr (and_iff_right rfl).symm rfl rfl

theorem appendTurn_timeline (h : outline.Tidy) {placed : Outline.Placed} {turn : Nat}
    (hfits : Fits placed) (hboundary : isBoundary placed.1.data = true)
    (hturn : placed.2.turn = some turn) :
    appendTurn outline.timeline turn placed.1 = (outline.observe placed).timeline := by
  obtain ⟨event, coordinates⟩ := placed
  rw [Fits] at hfits
  dsimp only at hfits hboundary hturn ⊢
  cases hdata : event.data with
  | turnStart number =>
    rw [hdata] at hfits
    dsimp only at hfits
    rw [hfits, Option.some.injEq] at hturn
    rw [Outline.observe, hfits, Outline.see, Outline.mark, hdata, hturn]
    apply appendTurn_of h
    · rfl
    · intro other hother
      rw [Outline.turnLocation, Outline.turnMarks_markTurn, if_neg hother]
      rfl
    · rw [startedBy, hdata, Outline.turnMarks_markTurn, if_pos rfl]
    · rw [stoppedBy, hdata, Outline.turnMarks_markTurn, if_pos rfl]
      rfl
    · rw [appendStep, hdata]
      rfl
  | turnEnd number reason =>
    rw [hdata] at hfits
    dsimp only at hfits
    rw [hfits, Option.some.injEq] at hturn
    rw [Outline.observe, hfits, Outline.see, Outline.mark, hdata, hturn]
    apply appendTurn_of h
    · rfl
    · intro other hother
      rw [Outline.turnLocation, Outline.turnMarks_markTurn, if_neg hother]
      rfl
    · rw [startedBy, hdata, Outline.turnMarks_markTurn, if_pos rfl]
      rfl
    · rw [stoppedBy, hdata, Outline.turnMarks_markTurn, if_pos rfl]
    · rw [appendStep, hdata]
      rfl
  | stepStart number step =>
    rw [hdata] at hfits
    dsimp only at hfits
    rw [hfits, Option.some.injEq] at hturn
    rw [Outline.observe, hfits, Outline.see, Outline.mark, hdata, hturn]
    apply appendTurn_step h
    · intro previous
      rw [startedBy, hdata]
    · intro previous
      rw [stoppedBy, hdata]
    · rw [(appendStep_steps (outline.steps turn) (outline.stepsNodup turn) (fun _ => rfl)
        turn).1 number hdata, absent_step h]
      · rfl
      · intro hnone
        rw [Outline.stepLocation, hnone]
        rfl
  | stepEnd number step =>
    rw [hdata] at hfits
    dsimp only at hfits
    rw [hfits, Option.some.injEq] at hturn
    rw [Outline.observe, hfits, Outline.see, Outline.mark, hdata, hturn]
    apply appendTurn_step h
    · intro previous
      rw [startedBy, hdata]
    · intro previous
      rw [stoppedBy, hdata]
    · rw [(appendStep_steps (outline.steps turn) (outline.stepsNodup turn) (fun _ => rfl)
        turn).2 number hdata, absent_step h]
      · rfl
      · intro hnone
        rw [Outline.stepLocation, hnone]
        rfl
  | userMessage | assistantChunk | assistantMessage | toolCall | toolResult | todoWrite
  | requestHeader | requestContext | endSeed | plugin =>
    rw [hdata] at hboundary
    cases hboundary

end Append

section Drafts

structure Firsts where
  turn : Nat → Nat
  step : Nat → Nat → Nat

def Outline.stepDraft (outline : Outline) (firsts : Firsts) (turn step : Nat) : StepDraft where
  turn := turn
  step := step
  firstSeq := firsts.step turn step
  start := (outline.stepMarks turn step).start
  stop := (outline.stepMarks turn step).stop

def Outline.turnDraft (outline : Outline) (firsts : Firsts) (turn : Nat) : TurnDraft where
  turn := turn
  firstSeq := firsts.turn turn
  start := (outline.turnMarks turn).start
  stop := (outline.turnMarks turn).stop
  steps := .tabulate (outline.steps turn) (outline.stepsNodup turn) (outline.stepDraft firsts turn)

def Outline.drafts (outline : Outline) (firsts : Firsts) : Drafts :=
  .tabulate outline.turns outline.turnsNodup (outline.turnDraft firsts)

structure Firsts.Ordered (firsts : Firsts) (outline : Outline) (seq : Nat) : Prop where
  turns : (outline.turns.map firsts.turn).Pairwise (· ≤ ·)
  turnsBound : ∀ turn ∈ outline.turns, firsts.turn turn ≤ seq
  steps : ∀ turn, ((outline.steps turn).map (firsts.step turn)).Pairwise (· ≤ ·)
  stepsBound : ∀ turn, ∀ step ∈ outline.steps turn, firsts.step turn step ≤ seq

def Drawn (turns : Drafts) (outline : Outline) (seq : Nat) : Prop :=
  ∃ firsts : Firsts, turns = outline.drafts firsts ∧ firsts.Ordered outline seq

variable {turns : Drafts} {outline : Outline} {seq next turn step : Nat}

theorem Firsts.Ordered.later {firsts : Firsts} (h : firsts.Ordered outline seq)
    (hle : seq ≤ next) : firsts.Ordered outline next where
  turns := h.turns
  turnsBound turn hturn := Nat.le_trans (h.turnsBound turn hturn) hle
  steps := h.steps
  stepsBound turn step hstep := Nat.le_trans (h.stepsBound turn step hstep) hle

theorem pairwise_insertLast {keys : List Nat} {first : Nat → Nat} {key : Nat}
    (h : (keys.map first).Pairwise (· ≤ ·)) (hbound : ∀ other ∈ keys, first other ≤ next)
    (hkey : key ∉ keys) :
    ((insertLast keys key).map (Function.update first key next)).Pairwise (· ≤ ·) := by
  have hsame : keys.map (Function.update first key next) = keys.map first := by
    apply List.map_congr_left
    intro other hother
    have hne : other ≠ key := fun heq => hkey (heq ▸ hother)
    rw [Function.update_of_ne hne]
  rw [insertLast_of_notMem hkey, List.map_append, hsame, List.map_singleton, Function.update_self,
    List.pairwise_append]
  refine ⟨h, List.pairwise_singleton _ _, ?_⟩
  intro first hfirst last hlast
  obtain ⟨other, hother, rfl⟩ := List.mem_map.mp hfirst
  rw [List.mem_singleton.mp hlast]
  exact hbound other hother

theorem bound_insertLast {keys : List Nat} {first : Nat → Nat} {key : Nat}
    (hbound : ∀ other ∈ keys, first other ≤ next) :
    ∀ other ∈ insertLast keys key, Function.update first key next other ≤ next := by
  intro other hother
  rw [Function.update_apply]
  split
  · exact Nat.le_refl next
  · next hne => exact hbound other ((mem_insertLast.mp hother).resolve_right hne)

theorem seeTurn_of_mem (h : turn ∈ outline.turns) : outline.seeTurn turn = outline := by
  cases outline
  simp only [Outline.seeTurn, insertLast_of_mem h]

theorem seeStep_of_mem (h : step ∈ outline.steps turn) : outline.seeStep turn step = outline := by
  cases outline
  simp only [Outline.seeStep, insertLast_of_mem h, Function.update_eq_self]

theorem Drawn.turnDraft (h : Drawn turns outline seq) (htidy : outline.Tidy) (hle : seq ≤ next)
    (turn : Nat) : Drawn (turnDraft turns turn next) (outline.seeTurn turn) next := by
  obtain ⟨firsts, rfl, hordered⟩ := h
  have hlater := hordered.later hle
  rw [Client.turnDraft, Outline.drafts, OrderedMap.get?_tabulate]
  by_cases hturn : turn ∈ outline.turns
  · rw [if_pos hturn, seeTurn_of_mem hturn]
    refine ⟨firsts, ?_, hlater⟩
    have hmin : min (outline.turnDraft firsts turn).firstSeq next =
        (outline.turnDraft firsts turn).firstSeq := Nat.min_eq_left (hlater.turnsBound turn hturn)
    have hsame : { outline.turnDraft firsts turn with
        firstSeq := min (outline.turnDraft firsts turn).firstSeq next } =
          outline.turnDraft firsts turn :=
      congrArg (fun first => { outline.turnDraft firsts turn with firstSeq := first }) hmin
    dsimp only
    rw [hsame, OrderedMap.set_tabulate, Function.update_eq_self]
    exact (OrderedMap.tabulate_eq_iff _ _).mpr ⟨insertLast_of_mem hturn, fun _ _ => rfl⟩
  · rw [if_neg hturn]
    refine ⟨⟨Function.update firsts.turn turn next, firsts.step⟩, ?_, ?_⟩
    · dsimp only
      rw [OrderedMap.set_tabulate]
      refine (OrderedMap.tabulate_eq_iff _ _).mpr ⟨rfl, fun other _ => ?_⟩
      by_cases heq : other = turn
      · rw [heq, Function.update_self]
        have hmarks : (outline.seeTurn turn).turnMarks turn = .none := htidy.turnMarks turn hturn
        apply TurnDraft.ext
        · rfl
        · exact (Function.update_self turn next firsts.turn).symm
        · exact (congrArg Marks.start hmarks).symm
        · exact (congrArg Marks.stop hmarks).symm
        · exact (OrderedMap.tabulate_nil (outline.stepsNodup turn) (htidy.steps turn hturn)).symm
      · rw [Function.update_of_ne heq]
        apply TurnDraft.ext
        · rfl
        · exact (Function.update_of_ne heq next firsts.turn).symm
        · rfl
        · rfl
        · rfl
    · exact ⟨pairwise_insertLast hlater.turns hlater.turnsBound hturn,
        bound_insertLast hlater.turnsBound, hlater.steps, hlater.stepsBound⟩

theorem modify_drafts (outline other : Outline) (firsts others : Firsts) (turn : Nat)
    (change : TurnDraft → TurnDraft) (hturns : other.turns = outline.turns)
    (hother : ∀ number ≠ turn, other.turnDraft others number = outline.turnDraft firsts number)
    (hturn : other.turnDraft others turn = change (outline.turnDraft firsts turn)) :
    (outline.drafts firsts).modify turn change = other.drafts others := by
  rw [Outline.drafts, OrderedMap.modify_tabulate]
  refine (OrderedMap.tabulate_eq_iff _ _).mpr ⟨hturns.symm, fun number _ => ?_⟩
  rw [Function.update_apply]
  split
  · next heq => rw [heq, hturn]
  · next hne => exact (hother number hne).symm

theorem Drawn.stepDraft (h : Drawn turns outline seq) (htidy : outline.Tidy) (hle : seq ≤ next)
    (turn step : Nat) :
    Drawn (stepDraft turns turn step next) ((outline.seeTurn turn).seeStep turn step) next := by
  obtain ⟨firsts, hturns, hordered⟩ := h.turnDraft htidy hle turn
  have hseen := htidy.seeTurn turn
  rw [Client.stepDraft, hturns]
  generalize outline.seeTurn turn = outline at hordered hseen
  have hget : (outline.turnDraft firsts turn).steps.get? step =
      if step ∈ outline.steps turn then some (outline.stepDraft firsts turn step) else none :=
    OrderedMap.get?_tabulate (outline.stepsNodup turn) step
  by_cases hstep : step ∈ outline.steps turn
  · rw [if_pos hstep] at hget
    have hmin : min (outline.stepDraft firsts turn step).firstSeq next =
        (outline.stepDraft firsts turn step).firstSeq :=
      Nat.min_eq_left (hordered.stepsBound turn step hstep)
    have hsame : { outline.stepDraft firsts turn step with
        firstSeq := min (outline.stepDraft firsts turn step).firstSeq next } =
          outline.stepDraft firsts turn step :=
      congrArg (fun first => { outline.stepDraft firsts turn step with firstSeq := first }) hmin
    rw [seeStep_of_mem hstep]
    refine ⟨firsts, ?_, hordered⟩
    apply modify_drafts outline outline firsts firsts turn _ rfl fun _ _ => rfl
    rw [hget]
    dsimp only
    rw [hsame]
    apply TurnDraft.ext
    · rfl
    · rfl
    · rfl
    · rfl
    · refine Eq.trans ?_ (OrderedMap.set_tabulate (outline.stepsNodup turn) step _).symm
      rw [Function.update_eq_self]
      exact (OrderedMap.tabulate_eq_iff (outline.stepsNodup turn)
        (nodup_insertLast (outline.stepsNodup turn) step)).mpr
          ⟨(insertLast_of_mem hstep).symm, fun _ _ => rfl⟩
  · rw [if_neg hstep] at hget
    have hmarks : outline.stepMarks turn step = .none := hseen.stepMarks turn step hstep
    refine ⟨⟨firsts.turn, Function.update firsts.step turn
      (Function.update (firsts.step turn) step next)⟩, ?_, ?_⟩
    · apply modify_drafts outline (outline.seeStep turn step) firsts _ turn _ rfl
      · intro number hnumber
        apply TurnDraft.ext
        · rfl
        · rfl
        · rfl
        · rfl
        · refine (OrderedMap.tabulate_eq_iff ((outline.seeStep turn step).stepsNodup number)
            (outline.stepsNodup number)).mpr ⟨?_, fun other _ => ?_⟩
          · rw [Outline.steps_seeStep, if_neg hnumber]
          · apply StepDraft.ext
            · rfl
            · rfl
            · exact congrFun (Function.update_of_ne hnumber _ firsts.step) other
            · rfl
            · rfl
      · rw [hget]
        apply TurnDraft.ext
        · rfl
        · rfl
        · rfl
        · rfl
        · refine Eq.trans ?_ (OrderedMap.set_tabulate (outline.stepsNodup turn) step _).symm
          refine (OrderedMap.tabulate_eq_iff ((outline.seeStep turn step).stepsNodup turn)
            (nodup_insertLast (outline.stepsNodup turn) step)).mpr ⟨?_, fun other _ => ?_⟩
          · rw [Outline.steps_seeStep, if_pos rfl]
          · rw [Function.update_apply]
            split
            · next heq =>
              rw [heq]
              apply StepDraft.ext
              · rfl
              · rfl
              · simp only [Outline.stepDraft, Function.update_self]
              · exact congrArg Marks.start hmarks
              · exact congrArg Marks.stop hmarks
            · next hne =>
              apply StepDraft.ext
              · rfl
              · rfl
              · simp only [Outline.stepDraft, Function.update_self, Function.update_of_ne hne]
              · rfl
              · rfl
    · constructor
      · exact hordered.turns
      · exact hordered.turnsBound
      · intro number
        rw [Outline.steps_seeStep]
        dsimp only
        by_cases hnumber : number = turn
        · rw [if_pos hnumber, hnumber, Function.update_self]
          exact pairwise_insertLast (hordered.steps turn) (hordered.stepsBound turn) hstep
        · rw [if_neg hnumber, Function.update_of_ne hnumber]
          exact hordered.steps number
      · intro number
        rw [Outline.steps_seeStep]
        dsimp only
        by_cases hnumber : number = turn
        · rw [if_pos hnumber, hnumber, Function.update_self]
          exact bound_insertLast (hordered.stepsBound turn)
        · rw [if_neg hnumber, Function.update_of_ne hnumber]
          exact hordered.stepsBound number

theorem Drawn.markTurn (h : Drawn turns outline seq) {change : TurnDraft → TurnDraft}
    (mark : Marks → Marks) (turn : Nat)
    (hchange : ∀ draft : TurnDraft, change draft = { draft with
      start := (mark ⟨draft.start, draft.stop⟩).start
      stop := (mark ⟨draft.start, draft.stop⟩).stop }) :
    Drawn (turns.modify turn change) (outline.markTurn turn mark) seq := by
  obtain ⟨firsts, rfl, hordered⟩ := h
  refine ⟨firsts, ?_, hordered.turns, hordered.turnsBound, hordered.steps, hordered.stepsBound⟩
  apply modify_drafts outline (outline.markTurn turn mark) firsts firsts turn _ rfl
  · intro number hnumber
    have hmarks : (outline.markTurn turn mark).turnMarks number = outline.turnMarks number := by
      rw [Outline.turnMarks_markTurn, if_neg hnumber]
    rw [Outline.turnDraft, hmarks]
    rfl
  · have hmarks : (outline.markTurn turn mark).turnMarks turn = mark (outline.turnMarks turn) := by
      rw [Outline.turnMarks_markTurn, if_pos rfl]
    rw [hchange, Outline.turnDraft, hmarks]
    rfl

theorem Drawn.markStep (h : Drawn turns outline seq) {change : StepDraft → StepDraft}
    (mark : Marks → Marks) (turn step : Nat)
    (hchange : ∀ draft : StepDraft, change draft = { draft with
      start := (mark ⟨draft.start, draft.stop⟩).start
      stop := (mark ⟨draft.start, draft.stop⟩).stop }) :
    Drawn (turns.modify turn fun draft => { draft with steps := draft.steps.modify step change })
      (outline.markStep turn step mark) seq := by
  obtain ⟨firsts, rfl, hordered⟩ := h
  refine ⟨firsts, ?_, hordered.turns, hordered.turnsBound, hordered.steps, hordered.stepsBound⟩
  have hdraft : ∀ other number, (outline.markStep turn step mark).stepDraft firsts other number =
      if other = turn ∧ number = step then change (outline.stepDraft firsts turn step)
      else outline.stepDraft firsts other number := by
    intro other number
    rw [Outline.stepDraft, Outline.stepMarks_markStep]
    split
    · next heq =>
      rw [heq.1, heq.2, hchange]
      rfl
    · rfl
  apply modify_drafts outline (outline.markStep turn step mark) firsts firsts turn _ rfl
  · intro number hnumber
    have hsame : (outline.markStep turn step mark).stepDraft firsts number =
        outline.stepDraft firsts number := by
      funext other
      rw [hdraft, if_neg fun heq => hnumber heq.1]
    rw [Outline.turnDraft, hsame]
    rfl
  · have hsame : (outline.markStep turn step mark).stepDraft firsts turn =
        Function.update (outline.stepDraft firsts turn) step
          (change (outline.stepDraft firsts turn step)) := by
      funext other
      rw [hdraft, Function.update_apply]
      exact if_congr (and_iff_right rfl) rfl rfl
    rw [Outline.turnDraft, hsame, ← OrderedMap.modify_tabulate]
    rfl

theorem Drawn.later (h : Drawn turns outline seq) (hle : seq ≤ next) : Drawn turns outline next := by
  obtain ⟨firsts, hturns, hordered⟩ := h
  exact ⟨firsts, hturns, hordered.later hle⟩

theorem seeStep_again (outline : Outline) (turn step : Nat) :
    (((outline.seeTurn turn).seeStep turn step).seeTurn turn).seeStep turn step =
      (outline.seeTurn turn).seeStep turn step := by
  have hturn : turn ∈ ((outline.seeTurn turn).seeStep turn step).turns :=
    Outline.mem_seeTurn outline turn
  rw [seeTurn_of_mem hturn]
  exact seeStep_of_mem (Outline.mem_seeStep (outline.seeTurn turn) turn step)

theorem Drawn.see (h : Drawn turns outline seq) (htidy : outline.Tidy) (hle : seq ≤ next)
    (coordinates : Coordinates) :
    Drawn (match coordinates.turn, coordinates.step with
        | some turn, some step =>
          Client.stepDraft (match coordinates.turn with
            | none => turns
            | some turn => Client.turnDraft turns turn next) turn step next
        | _, _ => match coordinates.turn with
          | none => turns
          | some turn => Client.turnDraft turns turn next)
      (outline.see coordinates) next := by
  obtain ⟨turn, step⟩ := coordinates
  cases turn with
  | none => exact h.later hle
  | some turn =>
    have hturn := h.turnDraft htidy hle turn
    cases step with
    | none => exact hturn
    | some step =>
      have hstep := hturn.stepDraft (htidy.seeTurn turn) (Nat.le_refl next) turn step
      rwa [seeTurn_of_mem (Outline.mem_seeTurn outline turn)] at hstep

theorem Drawn.draftEvent (h : Drawn turns outline seq) (htidy : outline.Tidy)
    {event : SessionEvent} {coordinates : Coordinates} (hle : seq ≤ event.seq)
    (hfits : Fits (event, coordinates)) :
    Drawn (draftEvent turns coordinates event) (outline.observe (event, coordinates)) event.seq := by
  have hsee := h.see htidy hle coordinates
  have hseen := htidy.see coordinates
  rw [Outline.observe, Client.draftEvent, Outline.mark]
  rw [Fits] at hfits
  dsimp only at hfits ⊢
  cases hdata : event.data with
  | turnStart turn =>
    rw [hdata] at hfits
    dsimp only at hfits
    subst hfits
    have hagain := hsee.turnDraft hseen (Nat.le_refl event.seq) turn
    rw [Outline.see, seeTurn_of_mem (Outline.mem_seeTurn outline turn)] at hagain
    exact hagain.markTurn (fun marks => { marks with start := some event }) turn
      fun _ => rfl
  | turnEnd turn reason =>
    rw [hdata] at hfits
    dsimp only at hfits
    subst hfits
    have hagain := hsee.turnDraft hseen (Nat.le_refl event.seq) turn
    rw [Outline.see, seeTurn_of_mem (Outline.mem_seeTurn outline turn)] at hagain
    exact hagain.markTurn (fun marks => { marks with stop := some event }) turn
      fun _ => rfl
  | stepStart turn step =>
    rw [hdata] at hfits
    dsimp only at hfits
    subst hfits
    have hagain := hsee.stepDraft hseen (Nat.le_refl event.seq) turn step
    rw [Outline.see, seeStep_again] at hagain
    exact hagain.markStep (fun marks => { marks with start := some event }) turn step
      fun _ => rfl
  | stepEnd turn step =>
    rw [hdata] at hfits
    dsimp only at hfits
    subst hfits
    have hagain := hsee.stepDraft hseen (Nat.le_refl event.seq) turn step
    rw [Outline.see, seeStep_again] at hagain
    exact hagain.markStep (fun marks => { marks with stop := some event }) turn step
      fun _ => rfl
  | userMessage | assistantChunk | assistantMessage | toolCall | toolResult | todoWrite
  | requestHeader | requestContext | endSeed | plugin => exact hsee

theorem location_turnDraft {firsts : Firsts} (hordered : firsts.Ordered outline seq) (turn : Nat) :
    (outline.turnDraft firsts turn).location = outline.turnLocation turn := by
  have hvalues : (outline.turnDraft firsts turn).steps.values =
      (outline.steps turn).map (outline.stepDraft firsts turn) :=
    OrderedMap.values_tabulate (outline.stepsNodup turn)
  have hsorted : ((outline.steps turn).map (outline.stepDraft firsts turn)).Pairwise
      fun left right => decide (left.firstSeq ≤ right.firstSeq) = true := by
    have hsteps := hordered.steps turn
    rw [List.pairwise_map] at hsteps ⊢
    exact hsteps.imp fun hle => decide_eq_true hle
  rw [TurnDraft.location, hvalues, List.mergeSort_of_pairwise hsorted, List.map_map]
  rfl

theorem Drawn.timelineOf (h : Drawn turns outline seq) : timelineOf turns = outline.timeline := by
  obtain ⟨firsts, rfl, hordered⟩ := h
  have hvalues : (outline.drafts firsts).values = outline.turns.map (outline.turnDraft firsts) :=
    OrderedMap.values_tabulate outline.turnsNodup
  have hsorted : (outline.turns.map (outline.turnDraft firsts)).Pairwise
      fun left right => decide (left.firstSeq ≤ right.firstSeq) = true := by
    have hturns := hordered.turns
    rw [List.pairwise_map] at hturns ⊢
    exact hturns.imp fun hle => decide_eq_true hle
  have horder : (outline.turns.map (outline.turnDraft firsts)).map TurnDraft.turn = outline.turns := by
    rw [List.map_map]
    exact List.map_id outline.turns
  have hlocations : (fun (turns : OrderedMap Nat TurnLocation) turn =>
      turns.set (outline.turnDraft firsts turn).turn (outline.turnDraft firsts turn).location) =
        fun turns turn => turns.set turn (outline.turnLocation turn) := by
    funext turns turn
    rw [location_turnDraft hordered]
    rfl
  rw [Client.timelineOf, hvalues, List.mergeSort_of_pairwise hsorted, horder, List.foldl_map,
    hlocations, OrderedMap.foldl_set_tabulate outline.turnsNodup]
  rfl

end Drafts

end Harness.Client
