import Harness.Compaction.Region
import Harness.Session.EventLog

namespace Harness

open Harness.Foundation

def priceAt (events : List SessionEvent) (seq : Nat) : TokenSurfaceNode where
  seq := seq
  tokens := (events[seq]?.map eventTokens).getD 0

def pricedNodes (events : List SessionEvent) (nodes : List Nat) : List TokenSurfaceNode :=
  nodes.map (priceAt events)

section Slices

variable {α : Type}

theorem take_nodeSlice_drop (items : List α) {startIdx endIdx : Nat} (h : startIdx ≤ endIdx) :
    items.take startIdx ++ nodeSlice items startIdx endIdx ++ items.drop (endIdx + 1) = items := by
  have hdrop : items.drop (endIdx + 1) = (items.drop startIdx).drop (endIdx + 1 - startIdx) := by
    rw [List.drop_drop]
    congr 1
    omega
  rw [nodeSlice, hdrop, List.append_assoc, List.take_append_drop, List.take_append_drop]

theorem sum_nodeSlice (weights : List Nat) {startIdx endIdx : Nat} (h : startIdx ≤ endIdx) :
    (weights.take startIdx).sum + (nodeSlice weights startIdx endIdx).sum
      + (weights.drop (endIdx + 1)).sum = weights.sum := by
  rw [← List.sum_append, ← List.sum_append, take_nodeSlice_drop weights h]

theorem map_nodeSlice {β : Type} (f : α → β) (items : List α) (startIdx endIdx : Nat) :
    (nodeSlice items startIdx endIdx).map f = nodeSlice (items.map f) startIdx endIdx := by
  simp only [nodeSlice, List.map_take, List.map_drop]

end Slices

section Surface

variable {events : List SessionEvent} {nodes : List Nat} {fold : SurfaceFold}

theorem map_seq_pricedNodes : (pricedNodes events nodes).map TokenSurfaceNode.seq = nodes := by
  simp [pricedNodes, priceAt, Function.comp_def]

theorem findIdx?_pricedNodes (seq : Nat) :
    ((pricedNodes events nodes).findIdx? fun node => node.seq == seq) = nodes.idxOf? seq := by
  simp [pricedNodes, priceAt, List.findIdx?_map, List.idxOf?, Function.comp_def]

theorem priceAt_append {event : SessionEvent} {seq : Nat} (h : seq < events.length) :
    priceAt (events ++ [event]) seq = priceAt events seq := by
  simp [priceAt, List.getElem?_append_left h]

theorem priceAt_last (event : SessionEvent) :
    priceAt (events ++ [event]) events.length =
      { seq := events.length, tokens := eventTokens event } := by
  simp [priceAt]

theorem pricedNodes_append {event : SessionEvent} (h : ∀ seq ∈ nodes, seq < events.length) :
    pricedNodes (events ++ [event]) nodes = pricedNodes events nodes := by
  apply List.map_congr_left
  intro seq hseq
  exact priceAt_append (h seq hseq)

inductive Committed (nodes : List Nat) (event : SessionEvent) : List Nat → Prop
  | skip : committedOp event = none → Committed nodes event nodes
  | append : committedOp event = some .append → Committed nodes event (nodes ++ [event.seq])
  | replace {start endSeq startIdx endIdx : Nat} :
      committedOp event = some (.replace start endSeq) → nodes.idxOf? start = some startIdx →
      nodes.idxOf? endSeq = some endIdx → startIdx ≤ endIdx →
      Committed nodes event (nodes.take startIdx ++ [event.seq] ++ nodes.drop (endIdx + 1))

theorem replacementRange_idx {state : SurfaceFoldState} {start endSeq : Nat}
    {range : ReplacementRange} (h : replacementRange state start endSeq = .ok range) :
    state.nodes.idxOf? start = some range.startIdx ∧
      state.nodes.idxOf? endSeq = some range.endIdx ∧ range.startIdx ≤ range.endIdx := by
  unfold replacementRange at h
  split at h
  · simp at h
  · rename_i hstart
    split at h
    · simp at h
    · rename_i hend
      obtain ⟨_, hle, h⟩ := bind_eq_ok.mp h
      obtain rfl := (Except.ok.inj h).symm
      exact ⟨hstart, hend, by simpa using hle⟩

theorem committed_of_apply {state : SurfaceFoldState} {event : SessionEvent} {index : Nat}
    {outcome : SurfaceFoldState × Option SurfaceFoldReplacement}
    (h : applySurfaceEvent state event index events 0 = .ok outcome) :
    event.seq = index ∧ Committed state.nodes event outcome.1.nodes := by
  obtain ⟨plan, hplan, h⟩ := bind_eq_ok.mp h
  obtain rfl := (Except.ok.inj h).symm
  obtain ⟨_, hseq, hplan⟩ := bind_eq_ok.mp hplan
  refine ⟨by simpa using hseq, ?_⟩
  obtain ⟨op, hop, hplan⟩ := bind_eq_ok.mp hplan
  have hcommitted : committedOp event = op := by
    rw [committedOp, hop]
  match op, hplan with
  | none, hplan =>
    obtain rfl := (Except.ok.inj hplan).symm
    exact .skip hcommitted
  | some .append, hplan =>
    obtain ⟨_, _, hplan⟩ := bind_eq_ok.mp hplan
    obtain rfl := (Except.ok.inj hplan).symm
    exact .append hcommitted
  | some (.replace start endSeq), hplan =>
    obtain ⟨range, hrange, hplan⟩ := bind_eq_ok.mp hplan
    obtain ⟨_, _, hplan⟩ := bind_eq_ok.mp hplan
    obtain ⟨_, _, hplan⟩ := bind_eq_ok.mp hplan
    obtain rfl := (Except.ok.inj hplan).symm
    obtain ⟨hstart, hend, hle⟩ := replacementRange_idx hrange
    exact .replace hcommitted hstart hend hle

theorem runFold_snoc_committed {event : SessionEvent} {next : SurfaceFold}
    (h : runFold (events ++ [event]) = .ok next) :
    ∃ fold, runFold events = .ok fold ∧ event.seq = events.length ∧
      Committed fold.state.nodes event next.state.nodes := by
  rw [runFold_snoc] at h
  obtain ⟨fold, hfold, h⟩ := bind_eq_ok.mp h
  obtain ⟨outcome, houtcome, rfl⟩ := map_eq_ok.mp h
  obtain ⟨hseq, hcommitted⟩ := committed_of_apply houtcome
  exact ⟨fold, hfold, hseq, hcommitted⟩

theorem nodeTokens_append (front back : List TokenSurfaceNode) :
    nodeTokens (front ++ back) = nodeTokens front + nodeTokens back := by
  simp [nodeTokens]

theorem nodeTokens_slice (priced : List TokenSurfaceNode) {startIdx endIdx : Nat}
    (h : startIdx ≤ endIdx) :
    nodeTokens (priced.take startIdx) + nodeTokens (nodeSlice priced startIdx endIdx)
      + nodeTokens (priced.drop (endIdx + 1)) = nodeTokens priced := by
  simp only [nodeTokens, map_nodeSlice, List.map_take, List.map_drop]
  exact sum_nodeSlice _ h

theorem pricedNodes_snoc {event : SessionEvent} {front back : List Nat}
    (hseq : event.seq = events.length) (hfront : ∀ seq ∈ front, seq < events.length)
    (hback : ∀ seq ∈ back, seq < events.length) :
    pricedNodes (events ++ [event]) (front ++ [event.seq] ++ back) =
      pricedNodes events front ++ [{ seq := event.seq, tokens := eventTokens event }]
        ++ pricedNodes events back := by
  have hlast := @priceAt_last events event
  rw [← hseq] at hlast
  rw [pricedNodes, List.map_append, List.map_append, List.map_singleton, hlast]
  congr 1
  · congr 1
    exact pricedNodes_append hfront
  · exact pricedNodes_append hback

def replayOf (events : List SessionEvent) (nodes : List Nat) : ReplayState where
  surface := pricedNodes events nodes
  surfaceTokens := nodeTokens (pricedNodes events nodes)

theorem foldEvent_replayOf {event : SessionEvent} {nodes' : List Nat}
    (hlt : ∀ seq ∈ nodes, seq < events.length) (hseq : event.seq = events.length)
    (h : Committed nodes event nodes') :
    (replayOf events nodes).foldEvent event = .ok (replayOf (events ++ [event]) nodes') := by
  unfold ReplayState.foldEvent replayOf
  cases h with
  | skip hop =>
    simp only [hop]
    rw [pricedNodes_append hlt]
  | append hop =>
    have hsnoc := @pricedNodes_snoc events event nodes [] hseq hlt (by simp)
    rw [List.append_nil] at hsnoc
    simp only [hop, foldSurfaceTokens, ok_bind, pure_eq_ok]
    rw [hsnoc]
    simp [pricedNodes, nodeTokens]
  | @replace start endSeq startIdx endIdx hop hstart hend hle =>
    have hsnoc := pricedNodes_snoc hseq
      (fun seq hmem => hlt seq (List.mem_of_mem_take (i := startIdx) hmem))
      (fun seq hmem => hlt seq (List.mem_of_mem_drop (i := endIdx + 1) hmem))
    have hslice := nodeTokens_slice (pricedNodes events nodes) hle
    simp only [hop, foldSurfaceTokens, findIdx?_pricedNodes, hstart, hend, hle, if_true, ok_bind,
      pure_eq_ok]
    rw [hsnoc]
    simp only [pricedNodes, List.map_take, List.map_drop, nodeTokens_append] at hslice ⊢
    congr 2
    simp only [nodeTokens, List.map_cons, List.map_nil, List.sum_cons, List.sum_nil] at hslice ⊢
    omega

theorem measure_eq (h : runFold events = .ok fold) :
    measure events = .ok (replayOf events fold.state.nodes) := by
  induction events using List.reverseRecOn generalizing fold with
  | nil =>
    obtain rfl := Except.ok.inj h
    rfl
  | append_singleton events event ih =>
    obtain ⟨previous, hprevious, hseq, hcommitted⟩ := runFold_snoc_committed h
    rw [measure, foldOk_snoc]
    change (measure events >>= _) = _
    rw [ih hprevious, ok_bind]
    exact foldEvent_replayOf (runFold_nodes_lt hprevious) hseq hcommitted

theorem nodeTokens_pricedNodes (h : ∀ seq ∈ nodes, seq < events.length) :
    nodeTokens (pricedNodes events nodes) =
      ((nodes.filterMap (Session.deriveAt events)).map estimateMessage).sum := by
  induction nodes with
  | nil => rfl
  | cons seq nodes ih =>
    have hlt : seq < events.length := h seq List.mem_cons_self
    have hprice : (priceAt events seq).tokens =
        ((Session.deriveAt events seq).map estimateMessage).getD 0 := by
      simp [priceAt, Session.deriveAt, eventTokens, hlt]
    rw [pricedNodes, List.map_cons, nodeTokens, List.map_cons, List.sum_cons, hprice,
      List.filterMap_cons]
    change _ + nodeTokens (pricedNodes events nodes) = _
    rw [ih fun seq hseq => h seq (List.mem_cons_of_mem _ hseq)]
    cases Session.deriveAt events seq with
    | none => simp
    | some message => simp

end Surface

section Producers

/-- The metering event and the replacement one component appends together, after `prior`. -/
inductive Meters (prior : List SessionEvent) (metering replacement : SessionEvent) : Prop
  | compaction (opened earlier : List SessionEvent) (start endSeq : Nat)
      (selection : SurfaceSelection) (summarized : SummarizedCompaction)
      (lifecycle : CompactionLifecycle) (stability : Stability) :
      opened <+: earlier → earlier <+: prior →
      validateSurfaceRegion opened start endSeq = .ok selection →
      prepareCompaction earlier selection = .ok summarized.prepared →
      assertStable stability prior summarized.prepared = .ok () →
      metering.data = summaryData lifecycle summarized →
      replacement.surfaceOp = some (replaceOp start endSeq) → Meters prior metering replacement
  | prune (seq : Nat) (original : SessionEvent) (data : ToolResultData) :
      prior[seq]? = some original → original.data = .toolResult data →
      metering.data = pruneData seq data.message →
      replacement.surfaceOp = some (replaceOp seq seq) → Meters prior metering replacement

/-- Every replacement of the log was appended right after the event that meters it, and the
metering events have the payload their type prescribes. -/
structure Metered (log : List SessionEvent) : Prop where
  shaped : ∀ event ∈ log, ∀ payload, meteringData event = some payload →
    isOk (shadowPrice payload) = true
  adjacent : ∀ front replacement back start endSeq, log = front ++ replacement :: back →
    committedOp replacement = some (.replace start endSeq) →
    ∃ prior metering, front = prior ++ [metering] ∧ Meters prior metering replacement

variable {prior : List SessionEvent} {metering replacement : SessionEvent}

theorem shadowPrice_presentFields {fields : List (String × Option Json)} {start endSeq : Nat}
    {tokens : Nat} (hnodup : (fields.map Prod.fst).Nodup)
    (hrange : fields.lookup "shadowedRange" =
      some (some (.obj [("start", .nat start), ("end", .nat endSeq)])))
    (htokens : fields.lookup "shadowedTokenCount" = some (some (.nat tokens))) :
    shadowPrice (.obj (Json.presentFields fields)) = .ok { start, endSeq, tokens } := by
  unfold shadowPrice natField
  simp only [Json.get?_obj, Json.lookup_presentFields hnodup, hrange, htokens, Option.join_some]
  rfl

theorem metering_summary {lifecycle : CompactionLifecycle} {summarized : SummarizedCompaction}
    (h : metering.data = summaryData lifecycle summarized) :
    ∃ payload, meteringData metering = some payload ∧
      shadowPrice payload = .ok
        { start := summarized.prepared.selection.start
          endSeq := summarized.prepared.selection.endSeq
          tokens := summarized.prepared.shadowedTokenCount } := by
  unfold meteringData
  rw [h]
  refine ⟨_, if_pos List.mem_cons_self, ?_⟩
  apply shadowPrice_presentFields
  · simp [shadowedFields]
  · rfl
  · rfl

theorem metering_prune {seq : Nat} {original : ToolResultMessage}
    (h : metering.data = pruneData seq original) :
    ∃ payload, meteringData metering = some payload ∧
      shadowPrice payload = .ok
        { start := seq, endSeq := seq, tokens := estimateMessage (.toolResult original) } := by
  unfold meteringData
  rw [h]
  refine ⟨_, if_pos (List.mem_cons_of_mem _ List.mem_cons_self), ?_⟩
  apply shadowPrice_presentFields
  · simp [shadowedFields]
  · rfl
  · rfl

theorem committedOp_replaceOp {start endSeq start' endSeq' : Nat}
    (hop : replacement.surfaceOp = some (replaceOp start endSeq))
    (h : committedOp replacement = some (.replace start' endSeq')) :
    start' = start ∧ endSeq' = endSeq := by
  unfold committedOp surfaceOpOf at h
  rw [hop] at h
  split at h
  · rename_i hcommitted
    split at hcommitted
    · simp at hcommitted
    · simp only [replaceOp] at hcommitted
      split at hcommitted
      · rename_i hreplace
        obtain rfl := Except.ok.inj hcommitted
        simp only [isReplaceOp, Bool.and_eq_true] at hreplace
        obtain ⟨⟨_, hstart⟩, hend⟩ := hreplace
        have hread : ∀ n : Nat, isEventSeq (.nat n) = true → (Json.nat n).safeNat?.getD 0 = n := by
          intro n hn
          obtain ⟨m, hm⟩ := Option.isSome_iff_exists.mp hn
          obtain ⟨hm', _⟩ := Json.safeNat?_eq_some.mp hm
          rw [hm]
          simpa using hm'.symm
        obtain ⟨rfl, rfl⟩ : seqField _ "start" = start' ∧ seqField _ "end" = endSeq' := by
          simpa using h
        exact ⟨hread start (by simpa [List.lookup_cons] using hstart),
          hread endSeq (by simpa [List.lookup_cons] using hend)⟩
      · simp at hcommitted
  · simp at h

theorem getElem?_nodeSlice {α : Type} (items : List α) {startIdx endIdx offset : Nat}
    (h : startIdx + offset ≤ endIdx) :
    (nodeSlice items startIdx endIdx)[offset]? = items[startIdx + offset]? := by
  rw [nodeSlice, List.getElem?_take_of_lt (by omega), List.getElem?_drop]

theorem idxOf?_of_getElem? {nodes : List Nat} (hnodup : nodes.Nodup) {seq index : Nat}
    (h : nodes[index]? = some seq) : nodes.idxOf? seq = some index := by
  obtain ⟨hlt, hseq⟩ := List.getElem?_eq_some_iff.mp h
  refine List.idxOf?_eq_some_iff.mpr ⟨hlt, hseq, fun j hj heq => ?_⟩
  exact absurd ((List.Nodup.getElem_inj_iff hnodup).mp (heq.trans hseq.symm)) (by omega)

theorem getElem?_of_idxOf? {nodes : List Nat} {seq index : Nat}
    (h : nodes.idxOf? seq = some index) : nodes[index]? = some seq := by
  obtain ⟨hlt, hseq, _⟩ := List.idxOf?_eq_some_iff.mp h
  exact List.getElem?_eq_some_iff.mpr ⟨hlt, hseq⟩

variable {events : List SessionEvent} {fold : SurfaceFold} {selection : SurfaceSelection}

theorem validateSurfaceRegion_ok {start endSeq : Nat}
    (h : validateSurfaceRegion events start endSeq = .ok selection) :
    ∃ fold, runFold events = .ok fold ∧ selection.start = start ∧ selection.endSeq = endSeq ∧
      fold.state.nodes.idxOf? start = some selection.startIdx ∧
      fold.state.nodes.idxOf? endSeq = some selection.endIdx ∧
      selection.startIdx ≤ selection.endIdx ∧
      selection.shadowedSeqs = nodeSlice fold.state.nodes selection.startIdx selection.endIdx := by
  unfold validateSurfaceRegion at h
  obtain ⟨surface, hsurface, h⟩ := bind_eq_ok.mp h
  obtain ⟨fold, hfold, hnodes⟩ := bind_eq_ok.mp hsurface
  obtain rfl := (Except.ok.inj hnodes).symm
  obtain ⟨startIdx, hstart, h⟩ := bind_eq_ok.mp h
  obtain ⟨endIdx, hend, h⟩ := bind_eq_ok.mp h
  obtain ⟨_, hle, h⟩ := bind_eq_ok.mp h
  obtain ⟨_, _, h⟩ := bind_eq_ok.mp h
  obtain ⟨_, _, h⟩ := bind_eq_ok.mp h
  obtain ⟨_, _, h⟩ := bind_eq_ok.mp h
  obtain ⟨_, _, h⟩ := bind_eq_ok.mp h
  obtain rfl := (Except.ok.inj h).symm
  exact ⟨fold, hfold, rfl, rfl, expect_eq_ok.mp hstart, expect_eq_ok.mp hend, by simpa using hle,
    rfl⟩

theorem raised_eq_ok {α : Type} {result : Except String α} {a : α} :
    raised result = .ok a ↔ result = .ok a := by
  cases result <;> simp [raised, Except.mapError]

@[simp] theorem unchangedOr_eq_ok {condition : Bool} {message : String} {u : Unit} :
    unchangedOr condition message = .ok u ↔ condition = true := by
  cases condition <;> simp [unchangedOr]

theorem prepareCompaction_ok {prepared : PreparedCompaction}
    (h : prepareCompaction events selection = .ok prepared) :
    ∃ state, measure events = .ok state ∧ prepared.selection = selection ∧
      prepared.nodes = state.surface ∧
      prepared.selectedNodes = nodeSlice state.surface selection.startIdx selection.endIdx ∧
      prepared.selectedNodes.map TokenSurfaceNode.seq = selection.shadowedSeqs ∧
      prepared.shadowedTokenCount = nodeTokens prepared.selectedNodes := by
  obtain ⟨state, hstate, h⟩ := bind_eq_ok.mp h
  obtain ⟨_, hselected, h⟩ := bind_eq_ok.mp h
  obtain rfl := (Except.ok.inj h).symm
  exact ⟨state, raised_eq_ok.mp hstate, rfl, rfl, rfl, by simpa using hselected, rfl⟩

theorem measure_surface (h : runFold events = .ok fold) {state : ReplayState}
    (hmeasure : measure events = .ok state) :
    state.surface = pricedNodes events fold.state.nodes := by
  rw [measure_eq h] at hmeasure
  obtain rfl := Except.ok.inj hmeasure
  rfl

theorem stable_slice {opened earlier : List SessionEvent} {start endSeq : Nat}
    {stability : Stability} {prepared : PreparedCompaction}
    (hvalid : validateSurfaceRegion opened start endSeq = .ok selection)
    (hprepared : prepareCompaction earlier selection = .ok prepared)
    (hstable : assertStable stability events prepared = .ok ())
    (hfold : runFold events = .ok fold) :
    ∃ startIdx endIdx, fold.state.nodes.idxOf? start = some startIdx ∧
      fold.state.nodes.idxOf? endSeq = some endIdx ∧ startIdx ≤ endIdx ∧
      nodeSlice (pricedNodes events fold.state.nodes) startIdx endIdx = prepared.selectedNodes := by
  obtain ⟨openedFold, hopened, rfl, rfl, hstart, hend, hle, hshadowed⟩ :=
    validateSurfaceRegion_ok hvalid
  obtain ⟨state, hstate, rfl, hnodes, hselected, hseqs, _⟩ := prepareCompaction_ok hprepared
  cases stability with
  | wholeSurface =>
    obtain ⟨current, hcurrent, hstable⟩ := bind_eq_ok.mp hstable
    have hsame : pricedNodes events fold.state.nodes = state.surface := by
      rw [← measure_surface hfold (raised_eq_ok.mp hcurrent), ← hnodes]
      simpa using hstable
    have hslice : nodeSlice fold.state.nodes prepared.selection.startIdx prepared.selection.endIdx =
        nodeSlice openedFold.state.nodes prepared.selection.startIdx prepared.selection.endIdx := by
      rw [← hshadowed, ← hseqs, hselected, ← hsame, map_nodeSlice, map_seq_pricedNodes]
    have hnodup := (runFold_history hfold).nodup
    refine ⟨prepared.selection.startIdx, prepared.selection.endIdx, ?_, ?_, hle, ?_⟩
    · apply idxOf?_of_getElem? hnodup
      have hfirst := @getElem?_nodeSlice _ fold.state.nodes _ _ 0 hle
      have hfirst' := @getElem?_nodeSlice _ openedFold.state.nodes _ _ 0 hle
      rw [Nat.add_zero] at hfirst hfirst'
      rw [← hfirst, hslice, hfirst', getElem?_of_idxOf? hstart]
    · apply idxOf?_of_getElem? hnodup
      have hlast := getElem?_nodeSlice fold.state.nodes (Nat.add_sub_cancel' hle).le
      have hlast' := getElem?_nodeSlice openedFold.state.nodes (Nat.add_sub_cancel' hle).le
      rw [Nat.add_sub_cancel' hle] at hlast hlast'
      rw [← hlast, hslice, hlast', getElem?_of_idxOf? hend]
    · rw [hsame, hselected]
  | selectedSpan =>
    obtain ⟨current, hcurrent, hstable⟩ := bind_eq_ok.mp hstable
    obtain ⟨_, _, hstable⟩ := bind_eq_ok.mp hstable
    obtain ⟨measured, hmeasured, hstable⟩ := bind_eq_ok.mp hstable
    have hcurrent : validateSurfaceRegion events prepared.selection.start
        prepared.selection.endSeq = .ok current := by
      revert hcurrent
      cases validateSurfaceRegion events prepared.selection.start prepared.selection.endSeq <;>
        simp [Except.mapError]
    obtain ⟨fold', hfold', _, _, hstart', hend', hle', _⟩ := validateSurfaceRegion_ok hcurrent
    obtain rfl : fold' = fold := Except.ok.inj (hfold'.symm.trans hfold)
    refine ⟨current.startIdx, current.endIdx, hstart', hend', hle', ?_⟩
    rw [← measure_surface hfold (raised_eq_ok.mp hmeasured)]
    simpa using hstable

theorem Meters.price (h : Meters prior metering replacement) (hfold : runFold prior = .ok fold)
    {start endSeq startIdx endIdx : Nat}
    (hop : committedOp replacement = some (.replace start endSeq))
    (hstart : fold.state.nodes.idxOf? start = some startIdx)
    (hend : fold.state.nodes.idxOf? endSeq = some endIdx) :
    ∃ payload tokens, meteringData metering = some payload ∧
      shadowPrice payload = .ok { start, endSeq, tokens } ∧
      tokens = nodeTokens (nodeSlice (pricedNodes prior fold.state.nodes) startIdx endIdx) := by
  cases h with
  | compaction opened earlier start' endSeq' selection summarized lifecycle stability _ _ hvalid
      hprepared hstable hdata hmarker =>
    obtain ⟨rfl, rfl⟩ := committedOp_replaceOp hmarker hop
    obtain ⟨startIdx', endIdx', hstart', hend', _, hslice⟩ :=
      stable_slice hvalid hprepared hstable hfold
    obtain rfl : startIdx' = startIdx := Option.some.inj (hstart'.symm.trans hstart)
    obtain rfl : endIdx' = endIdx := Option.some.inj (hend'.symm.trans hend)
    obtain ⟨payload, hpayload, hprice⟩ := metering_summary hdata
    obtain ⟨_, _, hfirst, hlast, _⟩ := validateSurfaceRegion_ok hvalid
    obtain ⟨_, _, hselection, _, _, _, htokens⟩ := prepareCompaction_ok hprepared
    rw [hselection, hfirst, hlast] at hprice
    exact ⟨payload, _, hpayload, hprice, by rw [htokens, hslice]⟩
  | prune seq original data horiginal hresult hdata hmarker =>
    obtain ⟨rfl, rfl⟩ := committedOp_replaceOp hmarker hop
    obtain rfl : startIdx = endIdx := Option.some.inj (hstart.symm.trans hend)
    obtain ⟨payload, hpayload, hprice⟩ := metering_prune hdata
    refine ⟨payload, _, hpayload, hprice, ?_⟩
    obtain ⟨hlt, hseq, _⟩ := List.idxOf?_eq_some_iff.mp hstart
    have hslice : nodeSlice (pricedNodes prior fold.state.nodes) startIdx startIdx =
        [priceAt prior endSeq] := by
      rw [nodeSlice, Nat.add_sub_cancel_left,
        List.drop_eq_getElem_cons (by simpa [pricedNodes] using hlt)]
      simp [pricedNodes, hseq]
    simp [hslice, nodeTokens, priceAt, horiginal, eventTokens, deriveEventMessage, hresult]

def armed (event : SessionEvent) : Option ShadowPriceClaim :=
  match (meteringData event).map shadowPrice with
  | some (.ok claim) => some claim
  | _ => none

theorem committedOp_of_plugin {event : SessionEvent} {type : PluginType} {data : Json}
    (h : event.data = .plugin type data) : committedOp event = none := by
  have hkind : isSurfaceEligibleType event.type = false := by
    rw [SessionEvent.type, h]
    by_contra hsurface
    apply type.notCore
    have hcore : surfaceEventTypes ⊆ coreEventTypes := by decide
    exact hcore (by simpa [isSurfaceEligibleType, EventData.type] using hsurface)
  unfold committedOp surfaceOpOf
  cases hop : event.surfaceOp <;> cases hsources : event.sourceEventSeqs <;> simp [hkind, require]

theorem committedOp_of_metering {event : SessionEvent} {payload : Json}
    (h : meteringData event = some payload) : committedOp event = none := by
  unfold meteringData at h
  split at h
  · rename_i type data hdata
    exact committedOp_of_plugin hdata
  · simp at h

theorem Meters.states (h : Meters prior metering replacement) :
    ∃ payload, meteringData metering = some payload := by
  cases h with
  | compaction _ _ _ _ _ summarized lifecycle _ _ _ _ _ _ hdata _ =>
    obtain ⟨payload, hpayload, _⟩ := metering_summary hdata
    exact ⟨payload, hpayload⟩
  | prune _ _ _ _ _ hdata _ =>
    obtain ⟨payload, hpayload, _⟩ := metering_prune hdata
    exact ⟨payload, hpayload⟩

theorem Committed.of_silent {nodes nodes' : List Nat} {event : SessionEvent}
    (h : Committed nodes event nodes') (hop : committedOp event = none) : nodes' = nodes := by
  cases h with
  | skip => rfl
  | append happend => simp [hop] at happend
  | replace hreplace => simp [hop] at hreplace

theorem Committed.of_replace {nodes nodes' : List Nat} {event : SessionEvent}
    (h : Committed nodes event nodes') {start endSeq startIdx endIdx : Nat}
    (hop : committedOp event = some (.replace start endSeq))
    (hstart : nodes.idxOf? start = some startIdx) (hend : nodes.idxOf? endSeq = some endIdx) :
    nodes' = nodes.take startIdx ++ [event.seq] ++ nodes.drop (endIdx + 1) := by
  cases h with
  | skip hskip => simp [hop] at hskip
  | append happend => simp [hop] at happend
  | replace hreplace hstart' hend' =>
    simp only [hop, Option.some.injEq, SurfaceOp.replace.injEq] at hreplace
    obtain ⟨rfl, rfl⟩ := hreplace
    obtain rfl := Option.some.inj (hstart.symm.trans hstart')
    obtain rfl := Option.some.inj (hend.symm.trans hend')
    rfl

theorem Metered.front {back : List SessionEvent} (h : Metered (events ++ back)) :
    Metered events where
  shaped := fun event hevent => h.shaped event (List.mem_append_left _ hevent)
  adjacent := by
    intro front replacement rest start endSeq heq
    apply h.adjacent front replacement (rest ++ back)
    rw [heq, List.append_assoc, List.cons_append]

theorem Metered.empty : Metered [] where
  shaped := by simp
  adjacent := by simp

theorem Metered.snoc {log : List SessionEvent} {event : SessionEvent} (h : Metered log)
    (hshaped : ∀ payload, meteringData event = some payload → isOk (shadowPrice payload) = true)
    (hadjacent : ∀ start endSeq, committedOp event = some (.replace start endSeq) →
      ∃ prior metering, log = prior ++ [metering] ∧ Meters prior metering event) :
    Metered (log ++ [event]) where
  shaped := by
    intro other hother
    cases List.mem_append.mp hother with
    | inl hold => exact h.shaped other hold
    | inr hnew =>
      obtain rfl := List.mem_singleton.mp hnew
      exact hshaped
  adjacent := by
    intro front replacement back start endSeq heq hop
    cases List.eq_nil_or_concat back with
    | inl hback =>
      subst hback
      obtain ⟨rfl, hlast⟩ := List.append_inj' heq rfl
      obtain rfl := List.singleton_inj.mp hlast
      exact hadjacent start endSeq hop
    | inr hback =>
      obtain ⟨rest, last, rfl⟩ := hback
      rw [List.concat_eq_append, ← List.cons_append, ← List.append_assoc] at heq
      exact h.adjacent front replacement rest start endSeq (List.append_inj' heq rfl).1 hop

theorem apply_breakdown {event : SessionEvent} {nodes : List Nat}
    (hfold : runFold events = .ok fold) (hseq : event.seq = events.length)
    (hcommitted : Committed fold.state.nodes event nodes)
    (hmetered : Metered (events ++ [event])) :
    BreakdownState.apply
      { messageTokens := nodeTokens (pricedNodes events fold.state.nodes)
        claim := events.getLast?.bind armed } event =
      .ok
        { messageTokens := nodeTokens (pricedNodes (events ++ [event]) nodes)
          claim := armed event } := by
  have hlt := runFold_nodes_lt hfold
  have hreplay := foldEvent_replayOf hlt hseq hcommitted
  unfold BreakdownState.apply foldSurfaceProjection
  cases hdata : meteringData event with
  | some payload =>
    obtain ⟨claim, hclaim⟩ := isOk_iff.mp
      (hmetered.shaped event (by simp) payload hdata)
    have hskip := committedOp_of_metering hdata
    rw [ReplayState.foldEvent, hskip] at hreplay
    have htokens := congrArg ReplayState.surfaceTokens (Except.ok.inj hreplay)
    simp only [replayOf] at htokens
    simp [hclaim, armed, hdata, htokens]
  | none =>
    have harmed : armed event = none := by simp [armed, hdata]
    rw [harmed]
    cases hcommitted with
    | skip hop =>
      rw [ReplayState.foldEvent, hop] at hreplay
      have htokens := congrArg ReplayState.surfaceTokens (Except.ok.inj hreplay)
      simp only [replayOf] at htokens
      simp [hop, htokens]
    | append hop =>
      rw [ReplayState.foldEvent, hop] at hreplay
      have htokens := congrArg ReplayState.surfaceTokens (Except.ok.inj hreplay)
      simp only [replayOf] at htokens
      simp [hop, ← htokens]
    | @replace start endSeq startIdx endIdx hop hstart hend hle =>
      obtain ⟨prior, metering, rfl, hmeters⟩ :=
        hmetered.adjacent events event [] start endSeq rfl hop
      obtain ⟨previous, hprevious, _, hsilent⟩ := runFold_snoc_committed hfold
      have hsame : previous.state.nodes = fold.state.nodes := by
        obtain ⟨payload, hpayload⟩ := hmeters.states
        exact (hsilent.of_silent (committedOp_of_metering hpayload)).symm
      have hpriced := @pricedNodes_append prior fold.state.nodes metering
        (hsame ▸ runFold_nodes_lt hprevious)
      obtain ⟨payload, tokens, hpayload, hprice, htokens⟩ :=
        hmeters.price hprevious hop (hsame ▸ hstart) (hsame ▸ hend)
      have harmed : armed metering = some { start, endSeq, tokens } := by
        simp [armed, hpayload, hprice]
      rw [hsame, ← hpriced] at htokens
      rw [ReplayState.foldEvent, hop] at hreplay
      simp only [replayOf, foldSurfaceTokens, findIdx?_pricedNodes, hstart, hend, hle, if_true,
        ok_bind, pure_eq_ok, ← htokens] at hreplay
      have htotal := congrArg ReplayState.surfaceTokens (Except.ok.inj hreplay)
      simp only [List.getLast?_concat, Option.bind_some, hop, harmed, and_self, if_true, ok_bind,
        pure_eq_ok] at htotal ⊢
      rw [htotal]

theorem breakdown_eq (hfold : runFold events = .ok fold) (hmetered : Metered events) :
    breakdown events = .ok
      { messageTokens := nodeTokens (pricedNodes events fold.state.nodes)
        claim := events.getLast?.bind armed } := by
  induction events using List.reverseRecOn generalizing fold with
  | nil =>
    obtain rfl := Except.ok.inj hfold
    rfl
  | append_singleton events event ih =>
    obtain ⟨previous, hprevious, hseq, hcommitted⟩ := runFold_snoc_committed hfold
    rw [breakdown, foldOk_snoc]
    change (breakdown events >>= _) = _
    rw [ih hprevious hmetered.front, ok_bind,
      apply_breakdown hprevious hseq hcommitted hmetered, List.getLast?_concat]
    rfl

/-- At every event boundary of a metered log the running total, the positional total and the
price of the surface's messages are one number. -/
theorem metered_totals_agree {log : List SessionEvent} {result : SurfaceFoldResult}
    (h : foldSurface log = .ok result) (hmetered : Metered log) :
    ∀ events, events <+: log → ∃ fold replay state,
      foldSurface events = .ok fold ∧ measure events = .ok replay ∧
      breakdown events = .ok state ∧
      replay.surface.map TokenSurfaceNode.seq = fold.nodes ∧
      replay.surfaceTokens = nodeTokens replay.surface ∧
      state.messageTokens = replay.surfaceTokens ∧
      state.messageTokens =
        ((fold.nodes.filterMap (Session.deriveAt events)).map estimateMessage).sum ∧
      0 ≤ state.messageTokens := by
  rintro events ⟨back, rfl⟩
  obtain ⟨whole, hwhole, _⟩ := bind_eq_ok.mp h
  obtain ⟨fold, hfold⟩ := runFold_front hwhole
  have hlt := runFold_nodes_lt hfold
  refine ⟨_, _, _, foldSurface_of_runFold hfold, measure_eq hfold,
    breakdown_eq hfold hmetered.front, map_seq_pricedNodes, rfl, rfl, ?_, Int.natCast_nonneg _⟩
  simp only
  rw [nodeTokens_pricedNodes hlt]

def resultData (text : String) : ToolResultData where
  turn := 1
  step := 1
  message :=
    { id := "result", source := { callId := "call" }
      content :=
        { toolCallId := "call", content := [.text text], isError := none, loadedTools := none } }
  error := none
  metadata := none

def longResult : SessionEvent where
  seq := 0
  time := 0
  data := .toolResult (resultData "a result worth pruning")
  surfaceOp := some (.str "append")
  sourceEventSeqs := none
  ignorable := false

def prunedResult : SessionEvent where
  seq := 2
  time := 0
  data := .toolResult (resultData "pruned")
  surfaceOp := some (replaceOp 0 0)
  sourceEventSeqs := some (.arr [.nat 0])
  ignorable := false

def prunedLog : List SessionEvent :=
  [] ++ [longResult] ++ [logOnly 1 0 (pruneData 0 (resultData "a result worth pruning").message)]
    ++ [prunedResult]

theorem prunedLog_metered : Metered prunedLog := by
  refine ((@Metered.snoc [] longResult .empty ?_ ?_).snoc ?_ ?_).snoc ?_ ?_
  · simp [meteringData, longResult]
  · have hop : committedOp longResult = some .append := by decide
    simp [hop]
  · intro payload hpayload
    obtain ⟨payload', hpayload', hprice⟩ := @metering_prune
      (logOnly 1 0 (pruneData 0 (resultData "a result worth pruning").message)) _ _ rfl
    obtain rfl := Option.some.inj (hpayload'.symm.trans hpayload)
    rw [hprice]
    rfl
  · obtain ⟨payload, hpayload, _⟩ := @metering_prune
      (logOnly 1 0 (pruneData 0 (resultData "a result worth pruning").message)) _ _ rfl
    simp [committedOp_of_metering hpayload]
  · simp [meteringData, prunedResult]
  · exact fun _ _ _ => ⟨[longResult], _, rfl, .prune 0 longResult _ rfl rfl rfl rfl⟩

theorem prunedLog_totals : ∃ fold replay state,
    foldSurface prunedLog = .ok fold ∧ measure prunedLog = .ok replay ∧
      breakdown prunedLog = .ok state ∧ replay.surfaceTokens = 14 ∧ state.messageTokens = 14 := by
  have hfold : foldSurface prunedLog = .ok { nodes := [2], replacements := [⟨2, 0, 0, [0]⟩] } := by
    decide
  obtain ⟨fold, replay, state, hsurface, hreplay, hstate, _, _, htotal, hsum, _⟩ :=
    metered_totals_agree hfold prunedLog_metered prunedLog (List.prefix_refl _)
  obtain rfl := Except.ok.inj (hfold.symm.trans hsurface)
  have hprice : (([2].filterMap (Session.deriveAt prunedLog)).map estimateMessage).sum = 14 := by
    decide
  refine ⟨_, replay, state, hsurface, hreplay, hstate, ?_, ?_⟩
  · rw [← htotal, hsum]
    exact congrArg Nat.cast hprice
  · rw [hsum]
    exact congrArg Nat.cast hprice

end Producers

end Harness
