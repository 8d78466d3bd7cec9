import Harness.Foundation.Except
import Harness.Session.Event
import Mathlib.Data.List.Induction

namespace Harness.ToolResultPruner

open Harness.Foundation

def pruneMarker : String := "\n\n[... tool result middle pruned ...]\n\n"

structure ResolvedConfig where
  thresholdChars : Nat
  headChars : Nat
  tailChars : Nat
  positive : 0 < thresholdChars
  fits : headChars + pruneMarker.length + tailChars ≤ thresholdChars
  deriving DecidableEq, Repr

def configKeys : List String := ["thresholdChars", "headChars", "tailChars"]

/-- A field of the raw configuration, as a natural number that passes the check. -/
def resolveField (config : List (String × Int)) (name : String) (default : Int) (least : Int)
    (message : Int → String) : Except String Nat :=
  let value := (config.lookup name).getD default
  if least ≤ value then .ok value.toNat else .error (message value)

def positiveInteger (name : String) (value : Int) : String :=
  s!"ToolResultPruneConfig: {name} ({value}) must be a positive integer"

def nonNegativeInteger (name : String) (value : Int) : String :=
  s!"ToolResultPruneConfig: {name} ({value}) must be a non-negative integer"

def fitBudgets (thresholdChars headChars tailChars : Nat) : Except String ResolvedConfig :=
  let emittedChars := headChars + pruneMarker.length + tailChars
  if positive : 0 < thresholdChars then
    if fits : emittedChars ≤ thresholdChars then
      .ok { thresholdChars, headChars, tailChars, positive, fits }
    else
      .error (s!"ToolResultPruneConfig: headChars + marker + tailChars ({emittedChars}) "
        ++ s!"must be at most thresholdChars ({thresholdChars})")
  else .error (positiveInteger "thresholdChars" thresholdChars)

def resolveConfig (config : List (String × Int)) : Except String ResolvedConfig := do
  match (config.map Prod.fst).find? fun key => !configKeys.contains key with
  | some key =>
    .error (s!"ToolResultPruneConfig: unknown key \"{key}\" "
      ++ "(allowed: thresholdChars, headChars, tailChars)")
  | none => do
    let thresholdChars ← resolveField config "thresholdChars" 8192 1
      (positiveInteger "thresholdChars")
    let headChars ← resolveField config "headChars" 4096 0 (nonNegativeInteger "headChars")
    let tailChars ← resolveField config "tailChars" 1024 0 (nonNegativeInteger "tailChars")
    fitBudgets thresholdChars headChars tailChars

section Prune

def points : ContentBlock → Option (List Char)
  | .text text => some text.toList
  | _ => none

def measureContent (blocks : List ContentBlock) : Nat :=
  (blocks.filterMap points |>.map List.length).sum

structure PruneState where
  pruned : List ContentBlock
  consumed : Nat
  markerInserted : Bool
  deriving DecidableEq

def PruneState.start : PruneState := ⟨[], 0, false⟩

def pruneBlock (removedStart removedEnd : Nat) (state : PruneState) (block : ContentBlock) :
    PruneState :=
  match points block with
  | none => { state with pruned := state.pruned ++ [block] }
  | some points =>
    let blockStart := state.consumed
    let blockEnd := blockStart + points.length
    let headEnd := min points.length (removedStart - blockStart)
    let tailStart := min points.length (removedEnd - blockStart)
    let intersectsRemoved := decide (blockStart < removedEnd) && decide (removedStart < blockEnd)
    let marker := if intersectsRemoved && !state.markerInserted then pruneMarker.toList else []
    let text := points.take headEnd ++ marker ++ points.drop tailStart
    { pruned := if text = [] then state.pruned else state.pruned ++ [.text (String.ofList text)]
      consumed := blockEnd
      markerInserted := state.markerInserted || !marker.isEmpty }

def pruneContent (config : ResolvedConfig) (blocks : List ContentBlock) :
    Except String (Option (List ContentBlock)) := do
  let totalChars := measureContent blocks
  if totalChars ≤ config.thresholdChars then
    return none
  let removedStart := config.headChars
  let removedEnd := totalChars - config.tailChars
  let state := blocks.foldl (pruneBlock removedStart removedEnd) .start
  require state.markerInserted "tool-result prune: failed to locate the removed text span"
  let charsAfter := measureContent state.pruned
  require (!(decide (config.thresholdChars < charsAfter) || decide (totalChars ≤ charsAfter)))
    "tool-result prune: replacement must be smaller and within threshold"
  return some state.pruned

end Prune

section Text

def contentText (blocks : List ContentBlock) : List Char := (blocks.filterMap points).flatten

def richBlocks (blocks : List ContentBlock) : List ContentBlock :=
  blocks.filter fun block => (points block).isNone

theorem measureContent_eq (blocks : List ContentBlock) :
    measureContent blocks = (contentText blocks).length := by
  rw [contentText, List.length_flatten]
  rfl

theorem contentText_append (front back : List ContentBlock) :
    contentText (front ++ back) = contentText front ++ contentText back := by
  simp only [contentText, List.filterMap_append, List.flatten_append]

theorem contentText_rich {block : ContentBlock} (h : points block = none)
    (back : List ContentBlock) : contentText (block :: back) = contentText back := by
  rw [contentText, List.filterMap_cons_none h]
  rfl

theorem contentText_cons {block : ContentBlock} {text : List Char} (h : points block = some text)
    (back : List ContentBlock) : contentText (block :: back) = text ++ contentText back := by
  rw [contentText, List.filterMap_cons_some h]
  rfl

variable {removedStart removedEnd : Nat} {state : PruneState} {block : ContentBlock}

/-- What a text block contributes: the parts outside the span, and the marker where the span
begins. -/
def keptPoints (removedStart removedEnd consumed : Nat) (text : List Char) : List Char :=
  text.take (removedStart - consumed)
    ++ (if consumed ≤ removedStart ∧ removedStart < consumed + text.length then pruneMarker.toList
      else [])
    ++ text.drop (removedEnd - consumed)

theorem keptPoints_append (h : removedStart < removedEnd) (consumed : Nat) (text rest : List Char) :
    keptPoints removedStart removedEnd consumed (text ++ rest) =
      keptPoints removedStart removedEnd consumed text
        ++ keptPoints removedStart removedEnd (consumed + text.length) rest := by
  unfold keptPoints
  rw [List.take_append, List.drop_append, Nat.sub_sub, Nat.sub_sub, List.length_append,
    ← Nat.add_assoc]
  by_cases hinside : removedStart < consumed + text.length
  · have hlater : ¬consumed + text.length ≤ removedStart := Nat.not_le.mpr hinside
    have hrest : rest.take (removedStart - (consumed + text.length)) = [] := by
      rw [Nat.sub_eq_zero_of_le (Nat.le_of_lt hinside), List.take_zero]
    have hwhole : removedStart < consumed + text.length + rest.length :=
      Nat.lt_of_lt_of_le hinside (Nat.le_add_right _ _)
    simp only [hrest, hinside, hwhole, hlater, and_true, if_false, List.append_nil,
      List.nil_append, List.append_assoc]
  · have hbefore : consumed + text.length ≤ removedStart := Nat.not_lt.mp hinside
    have htext : text.drop (removedEnd - consumed) = [] := List.drop_eq_nil_of_le (by omega)
    have hconsumed : consumed ≤ removedStart := (Nat.le_add_right _ _).trans hbefore
    simp only [htext, hinside, hbefore, hconsumed, true_and, and_false, if_false, List.append_nil,
      List.nil_append, List.append_assoc]

/-- A text block of the loop, when the marker is in place exactly past the start of the span. -/
theorem pruneBlock_text (h : removedStart < removedEnd) {text : List Char}
    (hpoints : points block = some text)
    (hinserted : state.markerInserted = decide (removedStart < state.consumed)) :
    ∃ pruned, pruneBlock removedStart removedEnd state block =
        ⟨pruned, state.consumed + text.length,
          decide (removedStart < state.consumed + text.length)⟩ ∧
      contentText pruned =
        contentText state.pruned ++ keptPoints removedStart removedEnd state.consumed text ∧
      richBlocks pruned = richBlocks state.pruned := by
  have hmarker : (decide (state.consumed < removedEnd)
      && decide (removedStart < state.consumed + text.length) && !state.markerInserted) =
        decide (state.consumed ≤ removedStart ∧ removedStart < state.consumed + text.length) := by
    rw [hinserted, Bool.eq_iff_iff]
    simp only [Bool.and_eq_true, Bool.not_eq_true', decide_eq_true_eq, decide_eq_false_iff_not]
    omega
  have hflag : (state.markerInserted || !(if state.consumed ≤ removedStart ∧
      removedStart < state.consumed + text.length then pruneMarker.toList else []).isEmpty) =
        decide (removedStart < state.consumed + text.length) := by
    rw [hinserted, Bool.eq_iff_iff]
    split
    · rename_i hspan
      have hnonempty : pruneMarker.toList.isEmpty = false := by decide +kernel
      simp [hnonempty, hspan.2]
    · rename_i hspan
      simp only [List.isEmpty_nil, Bool.not_true, Bool.or_false, decide_eq_true_eq]
      omega
  have htake : text.take (min text.length (removedStart - state.consumed)) =
      text.take (removedStart - state.consumed) := by
    rw [Nat.min_comm, ← List.take_eq_take_min]
  have hdrop : text.drop (min text.length (removedEnd - state.consumed)) =
      text.drop (removedEnd - state.consumed) := by
    rw [Nat.min_comm, ← List.drop_eq_drop_min]
  have hstep : pruneBlock removedStart removedEnd state block =
      ⟨if keptPoints removedStart removedEnd state.consumed text = [] then state.pruned
        else state.pruned ++
          [.text (String.ofList (keptPoints removedStart removedEnd state.consumed text))],
        state.consumed + text.length,
        decide (removedStart < state.consumed + text.length)⟩ := by
    simp only [pruneBlock, hpoints, hmarker, decide_eq_true_eq, htake, hdrop, hflag]
    rfl
  refine ⟨_, hstep, ?_, ?_⟩
  · split
    · rename_i hnil
      rw [hnil, List.append_nil]
    · have hblock : points (.text (String.ofList
          (keptPoints removedStart removedEnd state.consumed text))) =
            some (keptPoints removedStart removedEnd state.consumed text) := by
        rw [points, String.toList_ofList]
      rw [contentText_append, contentText_cons hblock]
      exact congrArg _ (List.append_nil _)
  · split
    · rfl
    · rw [richBlocks, List.filter_append, List.filter_singleton]
      exact List.append_nil _

structure Pruned (removedStart removedEnd : Nat) (blocks : List ContentBlock)
    (state : PruneState) : Prop where
  consumed : state.consumed = (contentText blocks).length
  inserted : state.markerInserted = decide (removedStart < (contentText blocks).length)
  text : contentText state.pruned = keptPoints removedStart removedEnd 0 (contentText blocks)
  rich : richBlocks state.pruned = richBlocks blocks

theorem pruneBlock_pruned (h : removedStart < removedEnd) {blocks : List ContentBlock}
    (hpruned : Pruned removedStart removedEnd blocks state) (block : ContentBlock) :
    Pruned removedStart removedEnd (blocks ++ [block])
      (pruneBlock removedStart removedEnd state block) := by
  cases hpoints : points block with
  | none =>
    have htext : contentText [block] = [] := contentText_rich hpoints []
    have hstep : pruneBlock removedStart removedEnd state block =
        { state with pruned := state.pruned ++ [block] } := by
      simp only [pruneBlock, hpoints]
    rw [hstep]
    constructor
    · rw [contentText_append, htext, List.append_nil]
      exact hpruned.consumed
    · rw [contentText_append, htext, List.append_nil]
      exact hpruned.inserted
    · rw [contentText_append, contentText_append, htext, List.append_nil, List.append_nil]
      exact hpruned.text
    · have hrich := hpruned.rich
      simp only [richBlocks, List.filter_append] at hrich ⊢
      rw [hrich]
  | some text =>
    have htext : contentText [block] = text := by
      rw [contentText_cons hpoints]
      exact List.append_nil text
    have hinserted := hpruned.inserted
    rw [← hpruned.consumed] at hinserted
    obtain ⟨pruned, hstep, hkept, hrich⟩ := pruneBlock_text h hpoints hinserted
    have hconsumed : state.consumed + text.length = (contentText (blocks ++ [block])).length := by
      rw [contentText_append, htext, List.length_append, hpruned.consumed]
    rw [hstep]
    refine ⟨hconsumed, ?_, ?_, ?_⟩
    · rw [hconsumed]
    · rw [hkept, contentText_append, htext, hpruned.text, keptPoints_append h, Nat.zero_add,
        hpruned.consumed]
    · rw [hrich, hpruned.rich, richBlocks, richBlocks, List.filter_append, List.filter_singleton,
        hpoints]
      exact (List.append_nil _).symm

theorem pruned_blocks (h : removedStart < removedEnd) (blocks : List ContentBlock) :
    Pruned removedStart removedEnd blocks
      (blocks.foldl (pruneBlock removedStart removedEnd) .start) := by
  induction blocks using List.reverseRecOn with
  | nil =>
    refine ⟨rfl, ?_, ?_, rfl⟩
    · rfl
    · simp [keptPoints, contentText, PruneState.start]
  | append_singleton blocks block ih =>
    rw [List.foldl_append]
    exact pruneBlock_pruned h ih block

end Text

section Result

variable (config : ResolvedConfig) (blocks : List ContentBlock)

theorem pruneContent_within (h : measureContent blocks ≤ config.thresholdChars) :
    pruneContent config blocks = .ok none := by
  simp only [pruneContent, h, if_true]
  rfl

/-- Within the threshold nothing is pruned; past it the head, one marker and the tail are left, and
they are not pruned again. -/
theorem pruneContent_kept :
    measureContent blocks ≤ config.thresholdChars ∧ pruneContent config blocks = .ok none ∨
    config.thresholdChars < measureContent blocks ∧
      ∃ pruned head tail, pruneContent config blocks = .ok (some pruned) ∧
        head <+: contentText blocks ∧ head.length = config.headChars ∧
        tail <:+ contentText blocks ∧ tail.length = config.tailChars ∧
        contentText pruned = head ++ pruneMarker.toList ++ tail ∧
        richBlocks pruned = richBlocks blocks ∧
        measureContent pruned < measureContent blocks ∧
        measureContent pruned ≤ config.thresholdChars ∧
        pruneContent config pruned = .ok none := by
  by_cases hwithin : measureContent blocks ≤ config.thresholdChars
  · exact .inl ⟨hwithin, pruneContent_within config blocks hwithin⟩
  · refine .inr ⟨Nat.not_le.mp hwithin, ?_⟩
    have hfits := config.fits
    have hmarker : 0 < pruneMarker.length := by decide +kernel
    have hlength := measureContent_eq blocks
    have hspan : config.headChars < measureContent blocks - config.tailChars := by omega
    have hpruned := pruned_blocks hspan blocks
    generalize hstate : blocks.foldl (pruneBlock config.headChars
      (measureContent blocks - config.tailChars)) .start = state at hpruned
    have hhead : ((contentText blocks).take config.headChars).length = config.headChars := by
      rw [List.length_take]
      omega
    have htail : ((contentText blocks).drop (measureContent blocks - config.tailChars)).length =
        config.tailChars := by
      rw [List.length_drop]
      omega
    have htext : contentText state.pruned = (contentText blocks).take config.headChars
        ++ pruneMarker.toList
        ++ (contentText blocks).drop (measureContent blocks - config.tailChars) := by
      rw [hpruned.text, keptPoints, if_pos ⟨Nat.zero_le _, by omega⟩, Nat.sub_zero, Nat.sub_zero]
    have hmeasure : measureContent state.pruned =
        config.headChars + pruneMarker.length + config.tailChars := by
      rw [measureContent_eq, htext, List.length_append, List.length_append, hhead, htail,
        String.length_toList]
    have hinserted : state.markerInserted = true := by
      rw [hpruned.inserted, decide_eq_true_eq]
      omega
    refine ⟨state.pruned, _, _, ?_, List.take_prefix _ _, hhead, List.drop_suffix _ _, htail, htext,
      hpruned.rich, by omega, by omega, pruneContent_within config _ (by omega)⟩
    have hsmaller : (!(decide (config.thresholdChars < measureContent state.pruned)
        || decide (measureContent blocks ≤ measureContent state.pruned))) = true := by
      simp only [Bool.not_eq_true', Bool.or_eq_false_iff, decide_eq_false_iff_not]
      omega
    simp only [pruneContent, hwithin, if_false, hstate, hinserted, require_true, ok_bind,
      hsmaller]
    rfl

end Result

end Harness.ToolResultPruner
