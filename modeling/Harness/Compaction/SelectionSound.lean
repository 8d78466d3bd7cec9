import Harness.Compaction.ToolPairingSound
import Mathlib.Order.Bounds.Basic

namespace Harness

open Harness.Foundation

section Counts

variable {events : List SessionEvent} {nodes : List Nat}

def inProgressAt (events : List SessionEvent) (nodes : List Nat) (index : Nat) : Int :=
  ((nodes.take index).map fun seq => (events[seq]?.map eventDelta).getD 0).sum

def Readable (events : List SessionEvent) (nodes : List Nat) : Prop :=
  ∀ seq ∈ nodes, ∃ event, events[seq]? = some event ∧ event.seq = seq

theorem Readable.tail {seq : Nat} (h : Readable events (seq :: nodes)) : Readable events nodes :=
  List.forall_mem_of_forall_mem_cons h

theorem eventForSeq_eq {seq : Nat} {event : SessionEvent} (h : events[seq]? = some event)
    (hseq : event.seq = seq) : eventForSeq events seq = .ok event := by
  unfold eventForSeq
  rw [h, Option.filter_some, if_pos (by simp [hseq])]
  rfl

theorem inProgressAt_zero : inProgressAt events nodes 0 = 0 := rfl

theorem inProgressAt_succ {seq : Nat} {event : SessionEvent} (h : events[seq]? = some event)
    (index : Nat) :
    inProgressAt events (seq :: nodes) (index + 1) =
      eventDelta event + inProgressAt events nodes index := by
  simp only [inProgressAt, List.take_succ_cons, List.map_cons, List.sum_cons, h, Option.map_some,
    Option.getD_some]

theorem cutsAfter_cons (events : List SessionEvent) (inProgress : Int) (seq : Nat)
    (nodes : List Nat) :
    cutsAfter events inProgress (seq :: nodes) = do
      let event ← eventForSeq events seq
      require (decide (0 ≤ inProgress + eventDelta event))
        s!"tool-pairing balance: tool/result at surface seq {seq} has no matching tool-call (corrupt surface)"
      let cuts ← cutsAfter events (inProgress + eventDelta event) nodes
      return decide (inProgress + eventDelta event = 0) :: cuts := rfl

theorem cutsAfter_isOk (hread : Readable events nodes) {inProgress : Int} (h : 0 ≤ inProgress) :
    isOk (cutsAfter events inProgress nodes) = true ↔
      ∀ index ≤ nodes.length, 0 ≤ inProgress + inProgressAt events nodes index := by
  induction nodes generalizing inProgress with
  | nil =>
    refine ⟨fun _ index _ => ?_, fun _ => rfl⟩
    simpa [inProgressAt] using h
  | cons seq nodes ih =>
    obtain ⟨event, hevent, hseq⟩ := hread seq List.mem_cons_self
    rw [cutsAfter_cons, eventForSeq_eq hevent hseq, ok_bind]
    by_cases hdelta : 0 ≤ inProgress + eventDelta event
    · have hrest : isOk (do
          let cuts ← cutsAfter events (inProgress + eventDelta event) nodes
          return decide (inProgress + eventDelta event = 0) :: cuts) =
            isOk (cutsAfter events (inProgress + eventDelta event) nodes) := by
        cases cutsAfter events (inProgress + eventDelta event) nodes with
        | error message => rfl
        | ok cuts => rfl
      simp only [hdelta, decide_true, require_true, ok_bind]
      rw [hrest, ih hread.tail hdelta]
      constructor
      · intro hcounts index hindex
        cases index with
        | zero => simpa [inProgressAt_zero] using h
        | succ index =>
          rw [inProgressAt_succ hevent, ← Int.add_assoc]
          exact hcounts index (Nat.le_of_succ_le_succ hindex)
      · intro hcounts index hindex
        rw [Int.add_assoc, ← inProgressAt_succ hevent]
        exact hcounts (index + 1) (Nat.succ_le_succ hindex)
    · simp only [hdelta, decide_false, require_false, error_bind]
      refine ⟨nofun, fun hcounts => absurd ?_ hdelta⟩
      have hfirst := hcounts 1 (Nat.succ_le_succ (Nat.zero_le _))
      rwa [inProgressAt_succ hevent, inProgressAt_zero, Int.add_zero] at hfirst

theorem cutsAfter_get {inProgress : Int} {cuts : List Bool} (hread : Readable events nodes)
    (h : cutsAfter events inProgress nodes = .ok cuts) {index : Nat}
    (hindex : index ≤ nodes.length) :
    (decide (inProgress = 0) :: cuts)[index]? =
      some (decide (inProgress + inProgressAt events nodes index = 0)) := by
  induction nodes generalizing inProgress cuts index with
  | nil =>
    obtain rfl := Nat.le_zero.mp hindex
    rw [inProgressAt_zero, Int.add_zero]
    rfl
  | cons seq nodes ih =>
    obtain ⟨event, hevent, hseq⟩ := hread seq List.mem_cons_self
    rw [cutsAfter_cons, eventForSeq_eq hevent hseq, ok_bind] at h
    obtain ⟨_, -, h⟩ := bind_eq_ok.mp h
    obtain ⟨rest, hrest, h⟩ := bind_eq_ok.mp h
    cases h
    cases index with
    | zero =>
      rw [inProgressAt_zero, Int.add_zero]
      rfl
    | succ index =>
      rw [inProgressAt_succ hevent, ← Int.add_assoc, List.getElem?_cons_succ]
      exact ih hread.tail hrest (Nat.le_of_succ_le_succ hindex)

theorem idxOf?_getElem (hnodup : nodes.Nodup) {index : Nat} (h : index < nodes.length) :
    nodes.idxOf? nodes[index] = some index := by
  rw [List.idxOf?_eq_some_iff]
  refine ⟨h, rfl, ?_⟩
  intro earlier hlt heq
  exact absurd (hnodup.getElem_inj_iff.mp heq) (Nat.ne_of_lt hlt)

theorem cutBalance_get {cuts : List Bool} (hread : Readable events nodes)
    (hcuts : cutsAfter events 0 nodes = .ok cuts) (hnodup : nodes.Nodup) {index offset : Nat}
    {seq : Nat} (hseq : nodes[index]? = some seq) (hoffset : offset ≤ 1) :
    cutBalance events nodes seq offset =
      .ok (decide (inProgressAt events nodes (index + offset) = 0)) := by
  obtain ⟨hlt, hget⟩ := List.getElem?_eq_some_iff.mp hseq
  have hindex : nodes.idxOf? seq = some index := by
    rw [← hget]
    exact idxOf?_getElem hnodup hlt
  have hinside : index + offset ≤ nodes.length := by omega
  have hcut := cutsAfter_get hread hcuts hinside
  rw [Int.zero_add] at hcut
  unfold cutBalance
  rw [hcuts, ok_bind, hindex, Option.bind_some]
  exact expect_eq_ok.mpr hcut

end Counts

section Tail

theorem keepFromIdx_greatest (pricedNodes : List TokenSurfaceNode) (retainTokens : Nat)
    {index : Nat} (hpos : 0 < index) (hle : index ≤ pricedNodes.length) :
    IsGreatest {cut | cut < index ∧ (cut = 0 ∨ retainTokens ≤ nodeTokens (pricedNodes.drop cut))}
      (keepFromIdx pricedNodes retainTokens (nodeTokens (pricedNodes.drop index)) index) := by
  induction index with
  | zero => exact absurd hpos (Nat.lt_irrefl 0)
  | succ index ih =>
    have hprice : nodeTokens (pricedNodes.drop (index + 1)) +
        (pricedNodes[index]?.map TokenSurfaceNode.tokens).getD 0 =
          nodeTokens (pricedNodes.drop index) := by
      rw [List.drop_eq_getElem_cons hle, List.getElem?_eq_getElem hle]
      simp only [nodeTokens, List.map_cons, List.sum_cons, Option.map_some, Option.getD_some]
      exact Nat.add_comm _ _
    unfold keepFromIdx
    rw [hprice]
    dsimp only
    split
    · rename_i henough
      refine ⟨⟨Nat.lt_succ_self index, .inr henough⟩, ?_⟩
      rintro cut ⟨hcut, -⟩
      exact Nat.le_of_lt_succ hcut
    · rename_i hshort
      cases index with
      | zero =>
        refine ⟨⟨Nat.zero_lt_one, .inl rfl⟩, ?_⟩
        rintro cut ⟨hcut, -⟩
        exact Nat.le_of_lt_succ hcut
      | succ index =>
        obtain ⟨⟨hbefore, henough⟩, hbest⟩ := ih (Nat.succ_pos index) (Nat.le_of_succ_le hle)
        refine ⟨⟨Nat.lt_succ_of_lt hbefore, henough⟩, ?_⟩
        rintro cut ⟨hcut, hcutPrice⟩
        apply hbest
        refine ⟨Nat.lt_of_le_of_ne (Nat.le_of_lt_succ hcut) ?_, hcutPrice⟩
        rintro rfl
        rcases hcutPrice with hzero | hcutPrice
        · exact absurd hzero (Nat.succ_ne_zero index)
        · exact hshort hcutPrice

theorem keepFromIdx_last {pricedNodes : List TokenSurfaceNode} (hpos : pricedNodes ≠ [])
    (retainTokens : Nat) :
    IsGreatest {cut | cut < pricedNodes.length ∧
        (cut = 0 ∨ retainTokens ≤ nodeTokens (pricedNodes.drop cut))}
      (keepFromIdx pricedNodes retainTokens 0 pricedNodes.length) := by
  have hscan := keepFromIdx_greatest pricedNodes retainTokens (List.length_pos_iff.mpr hpos)
    (Nat.le_refl _)
  rw [List.drop_length] at hscan
  exact hscan

theorem nodeTokens_drop_le (pricedNodes : List TokenSurfaceNode) {cut later : Nat}
    (h : cut ≤ later) :
    nodeTokens (pricedNodes.drop later) ≤ nodeTokens (pricedNodes.drop cut) := by
  unfold nodeTokens
  obtain ⟨more, rfl⟩ := Nat.exists_eq_add_of_le h
  rw [← List.drop_drop]
  apply List.Sublist.sum_le_sum
  · exact (List.drop_sublist more _).map _
  · intro price _
    exact Nat.zero_le price

end Tail

section Selection

variable {events : List SessionEvent} {nodes : List Nat} {pricedNodes : List TokenSurfaceNode}
  {retainTokens : Nat}

theorem lowerToBalanced_greatest {cuts : List Bool} (hread : Readable events nodes)
    (hcuts : cutsAfter events 0 nodes = .ok cuts) (hnodup : nodes.Nodup) {index : Nat}
    (hindex : index < nodes.length) :
    ∃ cut, lowerToBalanced events nodes index = .ok cut ∧
      IsGreatest {cut | cut ≤ index ∧ inProgressAt events nodes cut = 0} cut := by
  induction index with
  | zero =>
    refine ⟨0, rfl, ⟨Nat.le_refl 0, inProgressAt_zero⟩, ?_⟩
    rintro cut ⟨hcut, -⟩
    exact hcut
  | succ index ih =>
    have hseq := List.getElem?_eq_getElem hindex
    have hbalance := cutBalance_get hread hcuts hnodup hseq (Nat.zero_le 1)
    unfold lowerToBalanced toolPairingBalancedBefore
    rw [hseq, expect_some, ok_bind, hbalance, ok_bind, Nat.add_zero]
    by_cases hzero : inProgressAt events nodes (index + 1) = 0
    · refine ⟨index + 1, by simp only [hzero]; rfl, ⟨Nat.le_refl _, hzero⟩, ?_⟩
      rintro cut ⟨hcut, -⟩
      exact hcut
    · obtain ⟨cut, hcut, ⟨hle, hbalanced⟩, hbest⟩ := ih (Nat.lt_of_succ_lt hindex)
      refine ⟨cut, by simp only [hzero]; exact hcut, ⟨Nat.le_succ_of_le hle, hbalanced⟩, ?_⟩
      rintro other ⟨hother, hotherBalanced⟩
      apply hbest
      refine ⟨Nat.le_of_lt_succ (Nat.lt_of_le_of_ne hother ?_), hotherBalanced⟩
      rintro rfl
      exact hzero hotherBalanced

structure IsCompactableCut (events : List SessionEvent) (nodes : List Nat)
    (pricedNodes : List TokenSurfaceNode) (retainTokens cut : Nat) : Prop where
  inside : 1 ≤ cut ∧ cut < nodes.length
  balanced : inProgressAt events nodes cut = 0
  retained : retainTokens ≤ nodeTokens (pricedNodes.drop cut)

theorem readable_of_runFold {fold : SurfaceFold} (h : runFold events = .ok fold) :
    Readable events fold.state.nodes := by
  have hseqs : ∀ index (event : SessionEvent), events[index]? = some event →
      event.seq = index := by
    apply runFold_invariant (fun log _ => ∀ index (event : SessionEvent),
      log[index]? = some event → event.seq = index) _ _ h
    · intro index event hevent
      rw [List.getElem?_nil] at hevent
      cases hevent
    · intro log _ event _ hlog hseq _ index other hother
      rw [List.getElem?_append] at hother
      split at hother
      · exact hlog index other hother
      · rename_i hle
        obtain ⟨hlast, heq⟩ := List.getElem?_eq_some_iff.mp hother
        rw [List.length_singleton] at hlast
        have hindex : index = log.length := by omega
        rw [List.getElem_singleton] at heq
        rw [← heq, hseq, hindex]
  intro seq hmem
  obtain ⟨event, hevent, -⟩ := (runFold_history h).eligible seq hmem
  exact ⟨event, hevent, hseqs seq event hevent⟩

theorem cutsAfter_error {inProgress : Int} {message : String} (hread : Readable events nodes)
    (h : cutsAfter events inProgress nodes = .error message) :
    ∃ seq ∈ nodes, message =
      s!"tool-pairing balance: tool/result at surface seq {seq} has no matching tool-call (corrupt surface)" := by
  induction nodes generalizing inProgress with
  | nil => cases h
  | cons seq nodes ih =>
    obtain ⟨event, hevent, hseq⟩ := hread seq List.mem_cons_self
    rw [cutsAfter_cons, eventForSeq_eq hevent hseq, ok_bind] at h
    cases hdelta : decide (0 ≤ inProgress + eventDelta event) with
    | false =>
      rw [hdelta, require_false, error_bind, Except.error.injEq] at h
      exact ⟨seq, List.mem_cons_self, h.symm⟩
    | true =>
      rw [hdelta, require_true, ok_bind] at h
      cases hrest : cutsAfter events (inProgress + eventDelta event) nodes with
      | ok cuts =>
        rw [hrest] at h
        cases h
      | error inner =>
        rw [hrest, error_bind] at h
        cases h
        obtain ⟨other, hother, hmessage⟩ := ih hread.tail hrest
        exact ⟨other, List.mem_cons_of_mem _ hother, hmessage⟩

theorem lowerToBalanced_corrupt {message : String} (h : cutsAfter events 0 nodes = .error message)
    {index : Nat} (hpos : 1 ≤ index) (hindex : index < nodes.length) :
    lowerToBalanced events nodes index = .error message := by
  obtain ⟨index, rfl⟩ := Nat.exists_eq_add_of_le' hpos
  unfold lowerToBalanced toolPairingBalancedBefore cutBalance
  rw [List.getElem?_eq_getElem hindex, expect_some, ok_bind, h]
  rfl

theorem selectCompactableRange_eq {fold : SurfaceFold} (hfold : runFold events = .ok fold)
    (hpriced : pricedNodes.map TokenSurfaceNode.seq = fold.state.nodes) (hpos : pricedNodes ≠ []) :
    selectCompactableRange events pricedNodes retainTokens = do
      let keepFrom ← lowerToBalanced events fold.state.nodes
        (keepFromIdx pricedNodes retainTokens 0 pricedNodes.length)
      match keepFrom with
      | 0 => return none
      | index + 1 =>
        return Option.map₂ Prod.mk fold.state.nodes[0]? fold.state.nodes[index]? := by
  unfold selectCompactableRange
  rw [if_neg (mt List.eq_nil_of_length_eq_zero hpos), foldSurface_of_runFold hfold, hpriced]
  simp only [ok_bind, decide_true]
  rfl

theorem validate_head {fold : SurfaceFold} (hfold : runFold events = .ok fold) {cuts : List Bool}
    (hcuts : cutsAfter events 0 fold.state.nodes = .ok cuts) {cut start endSeq : Nat}
    (hbalanced : inProgressAt events fold.state.nodes (cut + 1) = 0)
    (hstart : fold.state.nodes[0]? = some start) (hend : fold.state.nodes[cut]? = some endSeq) :
    validateSurfaceRegion events start endSeq = .ok {
      start, endSeq, startIdx := 0, endIdx := cut
      shadowedSeqs := fold.state.nodes.take (cut + 1) } := by
  have hread := readable_of_runFold hfold
  have hnodup := (runFold_history hfold).nodup
  have hindex : ∀ {index seq : Nat}, fold.state.nodes[index]? = some seq →
      fold.state.nodes.idxOf? seq = some index := by
    intro index seq hseq
    obtain ⟨hlt, hget⟩ := List.getElem?_eq_some_iff.mp hseq
    rw [← hget]
    exact idxOf?_getElem hnodup hlt
  unfold validateSurfaceRegion toolPairingBalancedBefore toolPairingBalancedAfter
  rw [foldSurface_of_runFold hfold, ok_bind]
  simp only [hindex hstart, hindex hend, expect_some, ok_bind, Nat.zero_le, decide_true,
    require_true, cutBalance_get hread hcuts hnodup hstart (Nat.zero_le 1),
    cutBalance_get hread hcuts hnodup hend (Nat.le_refl 1), hbalanced]
  rfl

section Surface

variable {fold : SurfaceFold} (hfold : runFold events = .ok fold)
  (hpriced : pricedNodes.map TokenSurfaceNode.seq = fold.state.nodes)

include hfold hpriced

theorem select_counted (hpos : pricedNodes ≠ [])
    (hcounts : ∀ index ≤ fold.state.nodes.length, 0 ≤ inProgressAt events fold.state.nodes index) :
    (selectCompactableRange events pricedNodes retainTokens = .ok none ∧
      ∀ cut, ¬IsCompactableCut events fold.state.nodes pricedNodes retainTokens cut) ∨
    ∃ cut start endSeq selection,
      IsGreatest {cut | IsCompactableCut events fold.state.nodes pricedNodes retainTokens cut} cut ∧
      fold.state.nodes[0]? = some start ∧ fold.state.nodes[cut - 1]? = some endSeq ∧
      selectCompactableRange events pricedNodes retainTokens = .ok (some (start, endSeq)) ∧
      validateSurfaceRegion events start endSeq = .ok selection ∧
      selection.shadowedSeqs = fold.state.nodes.take cut := by
  have hread := readable_of_runFold hfold
  have hnodup := (runFold_history hfold).nodup
  obtain ⟨cuts, hcuts⟩ := isOk_iff.mp ((cutsAfter_isOk hread (Int.le_refl 0)).mpr (by
    simpa only [Int.zero_add] using hcounts))
  have hlength : pricedNodes.length = fold.state.nodes.length := by
    rw [← hpriced, List.length_map]
  obtain ⟨⟨hkeep, hprice⟩, hlast⟩ := keepFromIdx_last hpos retainTokens
  rw [selectCompactableRange_eq hfold hpriced hpos]
  generalize keepFromIdx pricedNodes retainTokens 0 pricedNodes.length = keepFrom at *
  rw [hlength] at hkeep hlast
  obtain ⟨cut, hcut, ⟨hle, hbalanced⟩, hbest⟩ :=
    lowerToBalanced_greatest hread hcuts hnodup hkeep
  have hbound : ∀ other,
      IsCompactableCut events fold.state.nodes pricedNodes retainTokens other → other ≤ cut := by
    intro other hother
    apply hbest
    exact ⟨hlast ⟨hother.inside.2, .inr hother.retained⟩, hother.balanced⟩
  rw [hcut, ok_bind]
  cases cut with
  | zero =>
    refine .inl ⟨rfl, fun other hother => ?_⟩
    exact Nat.not_succ_le_zero 0 (hother.inside.1.trans (hbound other hother))
  | succ cut =>
    right
    have hinside : cut + 1 < fold.state.nodes.length :=
      Nat.lt_of_le_of_lt hle hkeep
    have hstart := List.getElem?_eq_getElem (Nat.zero_lt_of_lt hinside)
    have hend := List.getElem?_eq_getElem (Nat.lt_of_succ_lt hinside)
    refine ⟨cut + 1, _, _, _, ⟨⟨⟨Nat.succ_pos cut, hinside⟩, hbalanced, ?_⟩, hbound⟩, hstart, hend,
      ?_, validate_head hfold hcuts hbalanced hstart hend, rfl⟩
    · rcases hprice with hzero | hprice
      · exact absurd (hzero ▸ hle) (Nat.not_succ_le_zero cut)
      · exact hprice.trans (nodeTokens_drop_le pricedNodes hle)
    · dsimp only
      rw [hstart, hend]
      rfl

theorem select_corrupt (hpos : pricedNodes ≠ [])
    (hcorrupt : ∃ index ≤ fold.state.nodes.length, inProgressAt events fold.state.nodes index < 0) :
    ((∃ cut, 1 ≤ cut ∧ cut < fold.state.nodes.length ∧
        retainTokens ≤ nodeTokens (pricedNodes.drop cut)) →
      ∃ seq ∈ fold.state.nodes, selectCompactableRange events pricedNodes retainTokens = .error
        s!"tool-pairing balance: tool/result at surface seq {seq} has no matching tool-call (corrupt surface)") ∧
    ((¬∃ cut, 1 ≤ cut ∧ cut < fold.state.nodes.length ∧
        retainTokens ≤ nodeTokens (pricedNodes.drop cut)) →
      selectCompactableRange events pricedNodes retainTokens = .ok none) := by
  have hread := readable_of_runFold hfold
  have hlength : pricedNodes.length = fold.state.nodes.length := by
    rw [← hpriced, List.length_map]
  obtain ⟨⟨hkeep, hprice⟩, hlast⟩ := keepFromIdx_last hpos retainTokens
  rw [selectCompactableRange_eq hfold hpriced hpos]
  generalize keepFromIdx pricedNodes retainTokens 0 pricedNodes.length = keepFrom at *
  rw [hlength] at hkeep hlast
  constructor
  · rintro ⟨cut, hfirst, hinside, hretained⟩
    obtain ⟨index, hindex, hnegative⟩ := hcorrupt
    cases hcuts : cutsAfter events 0 fold.state.nodes with
    | ok cuts =>
      have hcounts := (cutsAfter_isOk hread (Int.le_refl 0)).mp (isOk_iff.mpr ⟨cuts, hcuts⟩) index
        hindex
      rw [Int.zero_add] at hcounts
      exact absurd hnegative (Int.not_lt.mpr hcounts)
    | error message =>
      obtain ⟨seq, hseq, hmessage⟩ := cutsAfter_error hread hcuts
      refine ⟨seq, hseq, ?_⟩
      rw [lowerToBalanced_corrupt hcuts _ hkeep, error_bind, hmessage]
      exact hfirst.trans (hlast ⟨hinside, .inr hretained⟩)
  · intro hnone
    rcases Nat.eq_zero_or_pos keepFrom with hzero | hpositive
    · rw [hzero]
      rfl
    · refine absurd ⟨_, hpositive, hkeep, ?_⟩ hnone
      exact hprice.resolve_left (Nat.ne_of_gt hpositive)

end Surface

/-- What is selected: nothing, or the nodes before the last cut; and on a surface that holds a
result without its call, nothing or the error. -/
theorem selectCompactableRange_cut {fold : SurfaceFold} (hfold : runFold events = .ok fold)
    (hpriced : pricedNodes.map TokenSurfaceNode.seq = fold.state.nodes) (retainTokens : Nat) :
    ((∀ index ≤ fold.state.nodes.length, 0 ≤ inProgressAt events fold.state.nodes index) →
      (selectCompactableRange events pricedNodes retainTokens = .ok none ∧
        ∀ cut, ¬IsCompactableCut events fold.state.nodes pricedNodes retainTokens cut) ∨
      ∃ cut start endSeq selection,
        IsGreatest
          {cut | IsCompactableCut events fold.state.nodes pricedNodes retainTokens cut} cut ∧
        fold.state.nodes[0]? = some start ∧ fold.state.nodes[cut - 1]? = some endSeq ∧
        selectCompactableRange events pricedNodes retainTokens = .ok (some (start, endSeq)) ∧
        validateSurfaceRegion events start endSeq = .ok selection ∧
        selection.shadowedSeqs = fold.state.nodes.take cut) ∧
    ((∃ index ≤ fold.state.nodes.length, inProgressAt events fold.state.nodes index < 0) →
      ((∃ cut, 1 ≤ cut ∧ cut < fold.state.nodes.length ∧
          retainTokens ≤ nodeTokens (pricedNodes.drop cut)) →
        ∃ seq ∈ fold.state.nodes, selectCompactableRange events pricedNodes retainTokens = .error
          s!"tool-pairing balance: tool/result at surface seq {seq} has no matching tool-call (corrupt surface)") ∧
      ((¬∃ cut, 1 ≤ cut ∧ cut < fold.state.nodes.length ∧
          retainTokens ≤ nodeTokens (pricedNodes.drop cut)) →
        selectCompactableRange events pricedNodes retainTokens = .ok none)) := by
  by_cases hpos : pricedNodes = []
  · have hnodes : fold.state.nodes = [] := by
      rw [← hpriced, hpos]
      rfl
    have hselect : selectCompactableRange events pricedNodes retainTokens = .ok none := by
      rw [hpos]
      rfl
    rw [hnodes]
    refine ⟨fun _ => .inl ⟨hselect, fun cut hcut => Nat.not_lt_zero cut hcut.inside.2⟩, fun _ => ?_⟩
    refine ⟨?_, fun _ => hselect⟩
    rintro ⟨cut, -, hcut, -⟩
    exact absurd hcut (Nat.not_lt_zero cut)
  · exact ⟨select_counted hfold hpriced hpos, select_corrupt hfold hpriced hpos⟩

theorem selectCompactableRange_cut_answered :
    ∃ fold cut selection, runFold answeredLog = .ok fold ∧
      IsGreatest {cut | IsCompactableCut answeredLog fold.state.nodes
        [⟨0, 10⟩, ⟨1, 10⟩, ⟨2, 10⟩, ⟨3, 10⟩] 15 cut} cut ∧
      selectCompactableRange answeredLog [⟨0, 10⟩, ⟨1, 10⟩, ⟨2, 10⟩, ⟨3, 10⟩] 15 =
        .ok (some (0, 1)) ∧
      validateSurfaceRegion answeredLog 0 1 = .ok selection := by
  obtain ⟨fold, hfold⟩ := isOk_iff.mp (show isOk (runFold answeredLog) = true by decide +kernel)
  have hnodes : fold.state.nodes = [0, 1, 2, 3] := by
    have hmap : (runFold answeredLog).map (fun fold => fold.state.nodes) = .ok [0, 1, 2, 3] := by
      decide +kernel
    rw [hfold] at hmap
    exact Except.ok.inj hmap
  have hselect : selectCompactableRange answeredLog [⟨0, 10⟩, ⟨1, 10⟩, ⟨2, 10⟩, ⟨3, 10⟩] 15 =
      .ok (some (0, 1)) := by decide +kernel
  have hcounts : ∀ index ≤ fold.state.nodes.length,
      0 ≤ inProgressAt answeredLog fold.state.nodes index := by
    rw [hnodes]
    decide +kernel
  have hpriced : ([⟨0, 10⟩, ⟨1, 10⟩, ⟨2, 10⟩, ⟨3, 10⟩] : List TokenSurfaceNode).map
      TokenSurfaceNode.seq = fold.state.nodes := hnodes.symm
  rcases (selectCompactableRange_cut hfold hpriced 15).1 hcounts with ⟨hnone, -⟩ |
    ⟨cut, start, endSeq, selection, hgreatest, -, -, hsome, hvalid, -⟩
  · cases hselect.symm.trans hnone
  · cases hselect.symm.trans hsome
    exact ⟨fold, cut, selection, hfold, hgreatest, hselect, hvalid⟩

def userSaying (seq : Nat) : SessionEvent :=
  { seq, time := 0, surfaceOp := some (.str "append"), sourceEventSeqs := none, ignorable := false
    data := .userMessage { id := "message", content := [], source := .user } }

def orphanLog : List SessionEvent := [userSaying 0, resultFor 1 "a", userSaying 2]

theorem orphanLog_unselected :
    isOk (Session.create (some (orphanLog.map .lossless)) 0) = true ∧
      (runFold orphanLog).map (fun fold => fold.state.nodes) = .ok [0, 1, 2] ∧
      IsCompactableCut orphanLog [0, 1, 2] [⟨0, 10⟩, ⟨1, 10⟩, ⟨2, 10⟩] 5 1 ∧
      selectCompactableRange orphanLog [⟨0, 10⟩, ⟨1, 10⟩, ⟨2, 10⟩] 5 = .error
        "tool-pairing balance: tool/result at surface seq 1 has no matching tool-call (corrupt surface)" :=
  ⟨by decide +kernel, by decide +kernel, ⟨by decide, by decide +kernel, by decide⟩,
    by decide +kernel⟩

end Selection

end Harness
