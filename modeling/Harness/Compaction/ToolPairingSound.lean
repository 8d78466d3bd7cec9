import Harness.Compaction.ToolPairing
import Harness.Foundation.JsonEqual
import Harness.Session.OpenCalls

namespace Harness

open Harness.Foundation

/-- The calls that wait for a result, oldest first, and each answered call with its result, by
their nodes. -/
structure Pairing where
  waiting : List (Nat × CallId)
  pairs : List (Nat × CallId × Nat)
  deriving DecidableEq

def resultOf (event : SessionEvent) : Option CallId :=
  match event.data with
  | .toolResult data => some data.message.source.callId
  | _ => none

namespace Pairing

/-- A result answers the oldest call of its id; one that answers none is refused. -/
def advance (pairing : Pairing) (seq : Nat) (event : SessionEvent) : Option Pairing :=
  match resultOf event with
  | none =>
    some { pairing with
      waiting := pairing.waiting ++ (requestedCalls event).map fun callId => (seq, callId) }
  | some callId =>
    (pairing.waiting.find? fun call => decide (call.2 = callId)).map fun call =>
      { waiting := pairing.waiting.erase call, pairs := pairing.pairs ++ [(call.1, callId, seq)] }

def step (events : List SessionEvent) (pairing : Pairing) (seq : Nat) : Option Pairing :=
  (eventForSeq events seq).toOption.bind (pairing.advance seq)

def start : Pairing := ⟨[], []⟩

def ofNodes (events : List SessionEvent) (nodes : List Nat) : Option Pairing :=
  run (step events) start nodes

def follow (earlier : List (Nat × CallId × Nat)) (pairing : Pairing) : Pairing :=
  { pairing with pairs := earlier ++ pairing.pairs }

variable {events : List SessionEvent} {pairing after : Pairing} {seq : Nat}

theorem advance_follow (earlier : List (Nat × CallId × Nat)) (pairing : Pairing) (seq : Nat)
    (event : SessionEvent) :
    (pairing.follow earlier).advance seq event = (pairing.advance seq event).map (follow earlier) := by
  unfold advance
  cases resultOf event with
  | none => rfl
  | some callId =>
    dsimp only [follow]
    cases pairing.waiting.find? fun call => decide (call.2 = callId) with
    | none => rfl
    | some call => simp only [Option.map_some, List.append_assoc, follow]

theorem run_follow (earlier : List (Nat × CallId × Nat)) (pairing : Pairing) (nodes : List Nat) :
    run (step events) (pairing.follow earlier) nodes =
      (run (step events) pairing nodes).map (follow earlier) := by
  induction nodes generalizing pairing with
  | nil => rfl
  | cons seq nodes ih =>
    rw [run_cons, run_cons]
    have hstep : step events (pairing.follow earlier) seq =
        (step events pairing seq).map (follow earlier) := by
      unfold step
      cases (eventForSeq events seq).toOption with
      | none => rfl
      | some event => exact advance_follow earlier pairing seq event
    rw [hstep]
    cases step events pairing seq with
    | none => rfl
    | some next => exact ih next

theorem advance_count {event : SessionEvent} (h : pairing.advance seq event = some after) :
    (after.waiting.length : Int) = pairing.waiting.length + eventDelta event := by
  unfold advance at h
  cases hresult : resultOf event with
  | none =>
    rw [hresult] at h
    cases h
    have hdelta : eventDelta event = (requestedCalls event).length := by
      unfold resultOf at hresult
      unfold eventDelta requestedCalls
      cases hdata : event.data with
      | assistantMessage turn step message usage interrupted => simp only [List.length_map]
      | toolResult data =>
        rw [hdata] at hresult
        cases hresult
      | _ => rfl
    rw [hdelta, List.length_append, List.length_map, Nat.cast_add]
  | some callId =>
    rw [hresult] at h
    obtain ⟨call, hcall, rfl⟩ := Option.map_eq_some_iff.mp h
    have hmem := List.mem_of_find?_eq_some hcall
    have hdelta : eventDelta event = -1 := by
      unfold resultOf at hresult
      unfold eventDelta
      split at hresult
      · rename_i heq
        rw [heq]
      · cases hresult
    have hpos := List.length_pos_of_mem hmem
    rw [hdelta, List.length_erase_of_mem hmem]
    omega

theorem run_count {nodes : List Nat} {cuts : List Bool} {inProgress : Int}
    (h : run (step events) pairing nodes = some after)
    (hcuts : pendingCuts events pairing.waiting.length nodes = .ok (cuts, inProgress)) :
    inProgress = after.waiting.length := by
  induction nodes generalizing pairing cuts with
  | nil =>
    cases h
    cases hcuts
    rfl
  | cons seq nodes ih =>
    obtain ⟨next, hnext, h⟩ := Option.bind_eq_some_iff.mp h
    obtain ⟨event, hevent, hcuts⟩ := bind_eq_ok.mp hcuts
    obtain ⟨_, -, hcuts⟩ := bind_eq_ok.mp hcuts
    obtain ⟨pending, hpending, hcuts⟩ := bind_eq_ok.mp hcuts
    cases hcuts
    unfold step at hnext
    rw [hevent] at hnext
    have hcount := advance_count (show pairing.advance seq event = some next from hnext)
    rw [← hcount] at hpending
    exact ih h hpending

theorem advance_places {event : SessionEvent} (h : pairing.advance seq event = some after) :
    (∀ call ∈ after.waiting, call ∈ pairing.waiting ∨ call.1 = seq) ∧
      ∀ pair ∈ after.pairs, pair ∈ pairing.pairs ∨
        (pair.2.2 = seq ∧ ∃ callId, (pair.1, callId) ∈ pairing.waiting) := by
  unfold advance at h
  cases hresult : resultOf event with
  | none =>
    rw [hresult] at h
    cases h
    refine ⟨fun call hmem => ?_, fun pair hmem => .inl hmem⟩
    rcases List.mem_append.mp hmem with hold | hnew
    · exact .inl hold
    · obtain ⟨callId, -, rfl⟩ := List.mem_map.mp hnew
      exact .inr rfl
  | some callId =>
    rw [hresult] at h
    obtain ⟨call, hcall, rfl⟩ := Option.map_eq_some_iff.mp h
    refine ⟨fun other hmem => .inl (List.mem_of_mem_erase hmem), fun pair hmem => ?_⟩
    rcases List.mem_append.mp hmem with hold | hnew
    · exact .inl hold
    · rw [List.mem_singleton.mp hnew]
      exact .inr ⟨rfl, call.2, List.mem_of_find?_eq_some hcall⟩

theorem run_places {nodes : List Nat} (h : run (step events) pairing nodes = some after) :
    (∀ call ∈ after.waiting, call ∈ pairing.waiting ∨ call.1 ∈ nodes) ∧
      ∀ pair ∈ after.pairs, pair ∈ pairing.pairs ∨
        (pair.2.2 ∈ nodes ∧ (pair.1 ∈ nodes ∨ ∃ callId, (pair.1, callId) ∈ pairing.waiting)) := by
  induction nodes generalizing pairing with
  | nil =>
    cases h
    exact ⟨fun _ hmem => .inl hmem, fun _ hmem => .inl hmem⟩
  | cons seq nodes ih =>
    obtain ⟨next, hnext, h⟩ := Option.bind_eq_some_iff.mp h
    obtain ⟨event, -, hnext⟩ := Option.bind_eq_some_iff.mp hnext
    obtain ⟨hwaiting, hpairs⟩ := advance_places hnext
    obtain ⟨hwaiting', hpairs'⟩ := ih h
    have hin : ∀ call : Nat × CallId, call ∈ next.waiting → call ∈ pairing.waiting ∨ call.1 ∈ seq :: nodes := by
      intro call hmem
      rcases hwaiting call hmem with hold | heq
      · exact .inl hold
      · exact .inr (heq ▸ List.mem_cons_self)
    refine ⟨fun call hmem => ?_, fun pair hmem => ?_⟩
    · rcases hwaiting' call hmem with hold | hnode
      · exact hin call hold
      · exact .inr (List.mem_cons_of_mem _ hnode)
    · rcases hpairs' pair hmem with hold | ⟨hresult, hcall⟩
      · rcases hpairs pair hold with hold | ⟨heq, callId, hcall⟩
        · exact .inl hold
        · exact .inr ⟨heq ▸ List.mem_cons_self, .inr ⟨callId, hcall⟩⟩
      · refine .inr ⟨List.mem_cons_of_mem _ hresult, ?_⟩
        rcases hcall with hnode | ⟨callId, hcall⟩
        · exact .inl (List.mem_cons_of_mem _ hnode)
        · rcases hin _ hcall with hold | hnode
          · exact .inr ⟨callId, hold⟩
          · exact .inl hnode

theorem start_places {nodes : List Nat} (h : run (step events) start nodes = some after) :
    (∀ call ∈ after.waiting, call.1 ∈ nodes) ∧
      ∀ pair ∈ after.pairs, pair.1 ∈ nodes ∧ pair.2.2 ∈ nodes := by
  obtain ⟨hwaiting, hpairs⟩ := run_places h
  refine ⟨fun call hmem => (hwaiting call hmem).resolve_left List.not_mem_nil, fun pair hmem => ?_⟩
  obtain ⟨hresult, hcall⟩ := (hpairs pair hmem).resolve_left List.not_mem_nil
  exact ⟨hcall.resolve_right fun ⟨_, hnone⟩ => List.not_mem_nil hnone, hresult⟩

theorem step_grow (back : List SessionEvent) (hlt : seq < events.length) (pairing : Pairing) :
    step (events ++ back) pairing seq = step events pairing seq := by
  unfold step eventForSeq
  rw [List.getElem?_append_left hlt]

theorem run_grow (back : List SessionEvent) {nodes : List Nat} (hlt : ∀ seq ∈ nodes, seq < events.length)
    (pairing : Pairing) :
    run (step (events ++ back)) pairing nodes = run (step events) pairing nodes := by
  induction nodes generalizing pairing with
  | nil => rfl
  | cons seq nodes ih =>
    rw [run_cons, run_cons, step_grow back (hlt seq List.mem_cons_self)]
    congr 1
    funext next
    exact ih (fun other hmem => hlt other (List.mem_cons_of_mem _ hmem)) next

theorem step_last {event : SessionEvent} (hseq : event.seq = events.length) (pairing : Pairing) :
    step (events ++ [event]) pairing event.seq = pairing.advance event.seq event := by
  unfold step eventForSeq
  rw [hseq, List.getElem?_append_right le_rfl, Nat.sub_self, List.getElem?_cons_zero,
    Option.filter_some, if_pos (by rw [hseq]; exact beq_self_eq_true _)]
  rfl

end Pairing

section Cuts

variable {events : List SessionEvent}

theorem cut_between {front back : List Nat} {inProgress : Int} {cuts : List Bool}
    (h : cutsAfter events inProgress (front ++ back) = .ok cuts) :
    ∃ early middle, pendingCuts events inProgress front = .ok (early, middle) ∧
      (decide (inProgress = 0) :: cuts)[front.length]? = some (decide (middle = 0)) := by
  induction front generalizing inProgress cuts with
  | nil => exact ⟨[], inProgress, rfl, rfl⟩
  | cons seq front ih =>
    obtain ⟨event, hevent, h⟩ := bind_eq_ok.mp h
    obtain ⟨_, hrequire, h⟩ := bind_eq_ok.mp h
    obtain ⟨rest, hrest, h⟩ := bind_eq_ok.mp h
    cases h
    obtain ⟨early, middle, hearly, hcut⟩ := ih hrest
    refine ⟨decide (inProgress + eventDelta event = 0) :: early, middle, ?_, ?_⟩
    · rw [pendingCuts_cons, hevent, ok_bind, hrequire, ok_bind, hearly, ok_bind]
      rfl
    · rw [List.length_cons, List.getElem?_cons_succ]
      exact hcut

theorem waiting_nil {front back : List Nat} {cuts : List Bool} {pairing : Pairing}
    (hcuts : cutsAfter events 0 (front ++ back) = .ok cuts)
    (hbalanced : (true :: cuts)[front.length]? = some true)
    (hrun : run (Pairing.step events) Pairing.start front = some pairing) : pairing.waiting = [] := by
  obtain ⟨early, middle, hearly, hcut⟩ := cut_between hcuts
  rw [show decide ((0 : Int) = 0) = true from rfl, hbalanced] at hcut
  have hmiddle : middle = 0 := of_decide_eq_true (Option.some.inj hcut).symm
  have hcount := Pairing.run_count hrun hearly
  rw [hmiddle] at hcount
  exact List.eq_nil_of_length_eq_zero (Nat.cast_eq_zero.mp hcount.symm)

end Cuts

section Replacements

variable {log : List SessionEvent} {fold fold' : SurfaceFold} {event : SessionEvent}

theorem runFold_replaced {start endSeq : Nat} (hfold : runFold log = .ok fold)
    (hop : surfaceOpOf event = .ok (some (.replace start endSeq)))
    (hfold' : runFold (log ++ [event]) = .ok fold') :
    event.seq = log.length ∧ ∃ range, replacementRange fold.state start endSeq = .ok range ∧
      assertToolResultRewrite event range.shadowedSeqs log 0 = .ok () ∧
        fold'.state.nodes = fold.state.nodes.take range.startIdx ++ [event.seq] ++
          fold.state.nodes.drop (range.endIdx + 1) := by
  rw [runFold_snoc, hfold, ok_bind] at hfold'
  obtain ⟨outcome, houtcome, rfl⟩ := map_eq_ok.mp hfold'
  obtain ⟨plan, hplan, houtcome⟩ := bind_eq_ok.mp houtcome
  cases houtcome
  obtain ⟨_, hseq, hplan⟩ := bind_eq_ok.mp hplan
  refine ⟨eq_of_beq (require_eq_ok.mp hseq), ?_⟩
  rw [hop, ok_bind] at hplan
  obtain ⟨range, hrange, hplan⟩ := bind_eq_ok.mp hplan
  obtain ⟨_, -, hplan⟩ := bind_eq_ok.mp hplan
  obtain ⟨⟨⟩, hrewrite, hplan⟩ := bind_eq_ok.mp hplan
  cases hplan
  exact ⟨range, hrange, hrewrite, rfl⟩

theorem idxOf?_split {nodes : List Nat} {seq index : Nat} (h : nodes.idxOf? seq = some index) :
    index < nodes.length := (List.idxOf?_eq_some_iff.mp h).1

theorem balanced_at {nodes : List Nat} {seq offset index : Nat}
    (hindex : nodes.idxOf? seq = some index)
    (hbalanced : cutBalance log nodes seq offset = .ok true) :
    ∃ cuts, cutsAfter log 0 nodes = .ok cuts ∧ (true :: cuts)[index + offset]? = some true := by
  obtain ⟨cuts, hcuts, hbalanced⟩ := bind_eq_ok.mp hbalanced
  rw [hindex] at hbalanced
  exact ⟨cuts, hcuts, expect_eq_ok.mp hbalanced⟩

theorem validated {start endSeq : Nat} {selection : SurfaceSelection} (hfold : runFold log = .ok fold)
    (h : validateSurfaceRegion log start endSeq = .ok selection) :
    ∃ cuts, cutsAfter log 0 fold.state.nodes = .ok cuts ∧
      fold.state.nodes.idxOf? start = some selection.startIdx ∧
      fold.state.nodes.idxOf? endSeq = some selection.endIdx ∧
      selection.startIdx ≤ selection.endIdx ∧
      (true :: cuts)[selection.startIdx]? = some true ∧
      (true :: cuts)[selection.endIdx + 1]? = some true ∧
      selection.shadowedSeqs =
        nodeSlice fold.state.nodes selection.startIdx selection.endIdx := by
  obtain ⟨surface, hsurface, h⟩ := bind_eq_ok.mp h
  rw [foldSurface_of_runFold hfold] at hsurface
  cases hsurface
  obtain ⟨startIdx, hstart, h⟩ := bind_eq_ok.mp h
  obtain ⟨endIdx, hend, h⟩ := bind_eq_ok.mp h
  obtain ⟨_, hle, h⟩ := bind_eq_ok.mp h
  obtain ⟨before, hbefore, h⟩ := bind_eq_ok.mp h
  obtain ⟨_, hrequire, h⟩ := bind_eq_ok.mp h
  obtain ⟨after, hafter, h⟩ := bind_eq_ok.mp h
  obtain ⟨_, hrequire', h⟩ := bind_eq_ok.mp h
  cases h
  rw [require_eq_ok.mp hrequire] at hbefore
  rw [require_eq_ok.mp hrequire'] at hafter
  obtain ⟨cuts, hcuts, hfirst⟩ := balanced_at (expect_eq_ok.mp hstart) hbefore
  obtain ⟨cuts', hcuts', hlast⟩ := balanced_at (expect_eq_ok.mp hend) hafter
  cases hcuts.symm.trans hcuts'
  exact ⟨cuts, hcuts, expect_eq_ok.mp hstart, expect_eq_ok.mp hend,
    of_decide_eq_true (require_eq_ok.mp hle), hfirst, hlast, rfl⟩

theorem isolated {front span back : List Nat} {cuts : List Bool} {pairing : Pairing}
    (hnodup : (front ++ (span ++ back)).Nodup)
    (hcuts : cutsAfter log 0 (front ++ (span ++ back)) = .ok cuts)
    (hfirst : (true :: cuts)[front.length]? = some true)
    (hlast : (true :: cuts)[(front ++ span).length]? = some true)
    (hpairing : Pairing.ofNodes log (front ++ (span ++ back)) = some pairing) :
    ∃ early, run (Pairing.step log) Pairing.start front = some ⟨[], early⟩ ∧
      run (Pairing.step log) ⟨[], early⟩ back = some
        ⟨pairing.waiting, pairing.pairs.filter fun pair => decide (pair.1 ∉ span)⟩ := by
  obtain ⟨first, hfront, hrest⟩ := run_front hpairing
  obtain ⟨second, hspan, hback⟩ := run_front hrest
  have hwhole : run (Pairing.step log) Pairing.start (front ++ span) = some second := by
    rw [run_append, hfront]
    exact hspan
  have hempty := waiting_nil hcuts hfirst hfront
  rw [← List.append_assoc] at hcuts
  have hempty' := waiting_nil hcuts hlast hwhole
  obtain ⟨waiting, early⟩ := first
  obtain ⟨waiting', middle⟩ := second
  cases hempty
  cases hempty'
  -- the span and what follows it start with nothing waiting, so each runs as it does alone
  rw [show (⟨[], early⟩ : Pairing) = Pairing.start.follow early from
    congrArg _ (List.append_nil early).symm, Pairing.run_follow] at hspan
  obtain ⟨own, hown, heq⟩ := Option.map_eq_some_iff.mp hspan
  rw [show (⟨[], middle⟩ : Pairing) = Pairing.start.follow middle from
    congrArg _ (List.append_nil middle).symm, Pairing.run_follow] at hback
  obtain ⟨late, hlate, rfl⟩ := Option.map_eq_some_iff.mp hback
  have hmiddle : middle = early ++ own.pairs := (congrArg Pairing.pairs heq).symm
  refine ⟨early, hfront, ?_⟩
  rw [show (⟨[], early⟩ : Pairing) = Pairing.start.follow early from
    congrArg _ (List.append_nil early).symm, Pairing.run_follow, hlate]
  rw [List.nodup_append, List.nodup_append] at hnodup
  obtain ⟨-, ⟨-, -, hlater⟩, hearlier⟩ := hnodup
  have hkept : early.filter (fun pair => decide (pair.1 ∉ span)) = early := by
    apply List.filter_eq_self.mpr
    intro pair hmem
    refine decide_eq_true fun hin => ?_
    have hnode := ((Pairing.start_places hfront).2 pair hmem).1
    exact hearlier _ hnode _ (List.mem_append_left _ hin) rfl
  have hgone : own.pairs.filter (fun pair => decide (pair.1 ∉ span)) = [] := by
    apply List.filter_eq_nil_iff.mpr
    intro pair hmem hout
    exact of_decide_eq_true hout ((Pairing.start_places hown).2 pair hmem).1
  have hkept' : late.pairs.filter (fun pair => decide (pair.1 ∉ span)) = late.pairs := by
    apply List.filter_eq_self.mpr
    intro pair hmem
    refine decide_eq_true fun hin => ?_
    have hnode := ((Pairing.start_places hlate).2 pair hmem).1
    exact hlater _ hin _ hnode rfl
  unfold Pairing.follow
  rw [hmiddle, List.filter_append, List.filter_append, hkept, hgone, hkept', List.append_nil]
  rfl

theorem checkpoint_pairs (hfold : runFold log = .ok fold) {start endSeq : Nat}
    {selection : SurfaceSelection} (hselected : validateSurfaceRegion log start endSeq = .ok selection)
    {message : UserMessage} (hdata : event.data = .userMessage message)
    (hop : surfaceOpOf event = .ok (some (.replace start endSeq)))
    (hfold' : runFold (log ++ [event]) = .ok fold') {pairing : Pairing}
    (hpairing : Pairing.ofNodes log fold.state.nodes = some pairing) :
    Pairing.ofNodes (log ++ [event]) fold'.state.nodes = some ⟨pairing.waiting,
      pairing.pairs.filter fun pair => decide (pair.1 ∉ selection.shadowedSeqs)⟩ := by
  obtain ⟨hseq, range, hrange, -, hnodes⟩ := runFold_replaced hfold hop hfold'
  obtain ⟨cuts, hcuts, hstart, hend, hle, hfirst, hlast, hshadowed⟩ := validated hfold hselected
  unfold replacementRange at hrange
  rw [hstart, hend] at hrange
  dsimp only at hrange
  obtain ⟨_, -, hrange⟩ := bind_eq_ok.mp hrange
  cases hrange
  dsimp only at hnodes
  have hlt := runFold_nodes_lt hfold
  have hnodup := (runFold_history hfold).nodup
  have hbound := idxOf?_split hend
  generalize hall : fold.state.nodes = nodes at *
  have hsplit : nodes = nodes.take selection.startIdx ++
      (selection.shadowedSeqs ++ nodes.drop (selection.endIdx + 1)) := by
    rw [hshadowed, nodeSlice]
    have hdrop : nodes.drop (selection.endIdx + 1) =
        (nodes.drop selection.startIdx).drop (selection.endIdx + 1 - selection.startIdx) := by
      rw [List.drop_drop]
      congr 1
      omega
    rw [hdrop, List.take_append_drop, List.take_append_drop]
  have hlengths : (nodes.take selection.startIdx).length = selection.startIdx := by
    rw [List.length_take]
    omega
  have hlengths' : (nodes.take selection.startIdx ++ selection.shadowedSeqs).length =
      selection.endIdx + 1 := by
    rw [List.length_append, hlengths, hshadowed, nodeSlice, List.length_take, List.length_drop]
    omega
  rw [hnodes]
  generalize nodes.take selection.startIdx = front at *
  generalize nodes.drop (selection.endIdx + 1) = back at *
  subst hsplit
  obtain ⟨early, hfront, hback⟩ := isolated hnodup hcuts (by rw [hlengths]; exact hfirst)
    (by rw [hlengths']; exact hlast) hpairing
  unfold Pairing.ofNodes
  rw [run_append, run_append, Pairing.run_grow [event]
    (fun seq hmem => hlt seq (List.mem_append_left _ hmem)), hfront]
  have hcheckpoint : Pairing.step (log ++ [event]) ⟨[], early⟩ event.seq = some ⟨[], early⟩ := by
    rw [Pairing.step_last hseq]
    unfold Pairing.advance resultOf requestedCalls
    rw [hdata]
    rfl
  rw [Option.bind_some, run_cons, hcheckpoint, Option.bind_some, run_nil, Option.bind_some,
    Pairing.run_grow [event] (fun seq hmem => hlt seq
      (List.mem_append_right _ (List.mem_append_right _ hmem)))]
  exact hback

theorem rest_callId {original replacement : ToolResultData}
    (h : isDeepEqualJson (toolResultRest original) (toolResultRest replacement) = true) :
    original.message.source.callId = replacement.message.source.callId := by
  unfold isDeepEqualJson toolResultRest at h
  obtain ⟨message, hmessage, h⟩ := Json.deepEqualFields_iff.mp (Json.deepEqual_obj_iff.mp h).2 "message" _
    (List.mem_append_left _ (List.mem_append_left _
      (List.mem_cons_of_mem _ (List.mem_cons_of_mem _ List.mem_cons_self))))
  cases hmessage
  obtain ⟨source, hsource, h⟩ := Json.deepEqualFields_iff.mp (Json.deepEqual_obj_iff.mp h).2 "source" _
    (List.mem_cons_of_mem _ (List.mem_cons_of_mem _ List.mem_cons_self))
  cases hsource
  obtain ⟨callId, hcallId, h⟩ := Json.deepEqualFields_iff.mp (Json.deepEqual_obj_iff.mp h).2 "callId" _
    (List.mem_cons_of_mem _ List.mem_cons_self)
  cases hcallId
  exact (Json.str.inj (Json.deepEqual_str_iff.mp h)).symm

def rewritten (original replacement : Nat) (pair : Nat × CallId × Nat) : Nat × CallId × Nat :=
  if pair.2.2 = original then (pair.1, pair.2.1, replacement) else pair

theorem map_rewritten {original replacement : Nat} {pairs : List (Nat × CallId × Nat)}
    (h : ∀ pair ∈ pairs, pair.2.2 ≠ original) : pairs.map (rewritten original replacement) = pairs := by
  rw [List.map_congr_left fun pair hmem => show rewritten original replacement pair = id pair from
    if_neg (h pair hmem), List.map_id]

theorem rewrite_pairs (hfold : runFold log = .ok fold) {start endSeq : Nat} {data : ToolResultData}
    (hdata : event.data = .toolResult data)
    (hop : surfaceOpOf event = .ok (some (.replace start endSeq)))
    (hfold' : runFold (log ++ [event]) = .ok fold') {pairing : Pairing}
    (hpairing : Pairing.ofNodes log fold.state.nodes = some pairing) :
    ∃ original front back, fold.state.nodes = front ++ original :: back ∧
      fold'.state.nodes = front ++ event.seq :: back ∧
        Pairing.ofNodes (log ++ [event]) fold'.state.nodes =
          some ⟨pairing.waiting, pairing.pairs.map (rewritten original event.seq)⟩ := by
  obtain ⟨hseq, range, hrange, hrewrite, hnodes⟩ := runFold_replaced hfold hop hfold'
  obtain ⟨front, back, hsplit, hfront, hback, -⟩ := replacementRange_ok hrange
  rw [hfront, hback, List.append_assoc, List.singleton_append] at hnodes
  unfold assertToolResultRewrite at hrewrite
  rw [hdata] at hrewrite
  dsimp only at hrewrite
  split at hrewrite
  · rename_i original hshadowed
    rw [hshadowed, List.append_assoc, List.singleton_append] at hsplit
    refine ⟨original, front, back, hsplit, hnodes, ?_⟩
    have hlt := runFold_nodes_lt hfold
    have hnodup := (runFold_history hfold).nodup
    rw [hsplit] at hlt hnodup hpairing
    split at hrewrite
    · rename_i found hfound
      have hid := rest_callId (require_eq_ok.mp hrewrite)
      obtain ⟨first, hfirst, hrest⟩ := run_front hpairing
      obtain ⟨next, hnext, hlast⟩ := Option.bind_eq_some_iff.mp hrest
      obtain ⟨before, hbefore, hnext⟩ := Option.bind_eq_some_iff.mp hnext
      -- the node names the event that the rewrite was compared with
      have hsame : before.data = .toolResult found := by
        have hread := toOption_eq_some.mp hbefore
        unfold eventForSeq at hread
        obtain ⟨hget, -⟩ := Option.filter_eq_some_iff.mp (expect_eq_ok.mp hread)
        unfold eventAt at hfound
        rw [if_pos (Nat.zero_le _), Nat.sub_zero, hget, Option.map_some] at hfound
        exact Option.some.inj hfound
      have hbefore : resultOf before = some data.message.source.callId := by
        unfold resultOf
        rw [hsame, ← hid]
      have hafter : resultOf event = some data.message.source.callId := by
        unfold resultOf
        rw [hdata]
      unfold Pairing.advance at hnext
      rw [hbefore] at hnext
      obtain ⟨call, hcall, rfl⟩ := Option.map_eq_some_iff.mp hnext
      rw [show (⟨first.waiting.erase call, first.pairs ++
          [(call.1, data.message.source.callId, original)]⟩ : Pairing) =
        (⟨first.waiting.erase call, []⟩ : Pairing).follow (first.pairs ++
          [(call.1, data.message.source.callId, original)]) from
          congrArg _ (List.append_nil _).symm, Pairing.run_follow] at hlast
      obtain ⟨late, hlate, rfl⟩ := Option.map_eq_some_iff.mp hlast
      rw [List.nodup_append, List.nodup_cons] at hnodup
      obtain ⟨-, ⟨hfresh, -⟩, hapart⟩ := hnodup
      have hearly : ∀ pair ∈ first.pairs, pair.2.2 ≠ original := by
        intro pair hmem heq
        have hnode := ((Pairing.start_places hfirst).2 pair hmem).2
        exact hapart _ hnode original List.mem_cons_self heq
      have hlater : ∀ pair ∈ late.pairs, pair.2.2 ≠ original := by
        intro pair hmem heq
        have hnode := (((Pairing.run_places hlate).2 pair hmem).resolve_left List.not_mem_nil).1
        exact hfresh (heq ▸ hnode)
      unfold Pairing.ofNodes
      rw [hnodes, run_append, Pairing.run_grow [event]
        (fun seq hmem => hlt seq (List.mem_append_left _ hmem)), hfirst, Option.bind_some, run_cons,
        Pairing.step_last hseq]
      unfold Pairing.advance
      rw [hafter]
      dsimp only
      rw [hcall, Option.map_some, Option.bind_some, Pairing.run_grow [event]
        (fun seq hmem => hlt seq (List.mem_append_right _ (List.mem_cons_of_mem _ hmem))),
        show (⟨first.waiting.erase call, first.pairs ++
          [(call.1, data.message.source.callId, event.seq)]⟩ : Pairing) =
        (⟨first.waiting.erase call, []⟩ : Pairing).follow (first.pairs ++
          [(call.1, data.message.source.callId, event.seq)]) from
          congrArg _ (List.append_nil _).symm, Pairing.run_follow, hlate, Option.map_some]
      unfold Pairing.follow
      dsimp only
      rw [List.map_append, List.map_append, map_rewritten hearly, map_rewritten hlater, List.map_cons]
      unfold rewritten
      rw [if_pos rfl]
      rfl
    · cases hrewrite
  · cases hrewrite

end Replacements

/-- Every query is answered by a count from scratch, a failed extension leaves the cache, and in a
surface whose results each answer an earlier call a checkpoint over a balanced span or the rewrite of
one result keeps the calls outside it with their results. -/
theorem tool_pairing_kept {seed : Option (List (Supplied SessionEvent))} {now : Int}
    {session : Session} (h : Session.create seed now = .ok session) (ops : List BalanceOp) :
    let reached := (transcript BalancedSession.step ⟨session, none⟩ ops).1
    let log := reached.session.logged
    ∃ fold, runFold log = .ok fold ∧
      (∀ seq, (reached.toolPairingBalanced seq 0).1 =
          toolPairingBalancedBefore log fold.state.nodes seq ∧
        (reached.toolPairingBalanced seq 1).1 = toolPairingBalancedAfter log fold.state.nodes seq) ∧
      (∀ message, reached.balanceCache.1 = .error message →
        reached.balanceCache.2.cache = reached.cache) ∧
      ∀ pairing, Pairing.ofNodes log fold.state.nodes = some pairing →
        ∀ (event : SessionEvent) (start endSeq : Nat) (fold' : SurfaceFold),
          surfaceOpOf event = .ok (some (.replace start endSeq)) →
          runFold (log ++ [event]) = .ok fold' →
            (∀ message selection, event.data = .userMessage message →
              validateSurfaceRegion log start endSeq = .ok selection →
                Pairing.ofNodes (log ++ [event]) fold'.state.nodes = some ⟨pairing.waiting,
                  pairing.pairs.filter fun pair => decide (pair.1 ∉ selection.shadowedSeqs)⟩) ∧
            ∀ data, event.data = .toolResult data →
              ∃ original front back, fold.state.nodes = front ++ original :: back ∧
                fold'.state.nodes = front ++ event.seq :: back ∧
                  Pairing.ofNodes (log ++ [event]) fold'.state.nodes =
                    some ⟨pairing.waiting, pairing.pairs.map (rewritten original event.seq)⟩ := by
  intro reached log
  obtain ⟨start, hstart⟩ := Session.create_represents h
  obtain ⟨next, hsound⟩ := BalancedSession.run_sound hstart ops
  have hlog : next = log := hsound.represents.logged.symm
  subst hlog
  obtain ⟨fold, hfold⟩ := hsound.represents.accepted
  refine ⟨fold, hfold, fun seq => ?_, fun message hfailed => ?_, ?_⟩
  · exact ⟨(BalancedSession.query_answers hsound hfold seq 0).1,
      (BalancedSession.query_answers hsound hfold seq 1).1⟩
  · exact ((BalancedSession.balanceCache_answers hsound hfold).failed message hfailed).1
  · intro pairing hpairing event start endSeq fold' hop hfold'
    refine ⟨fun message selection hdata hselected => ?_, fun data hdata => ?_⟩
    · exact checkpoint_pairs hfold hselected hdata hop hfold' hpairing
    · exact rewrite_pairs hfold hdata hop hfold' hpairing

section Runs

def assistantCalling (seq : Nat) (callId : CallId) : SessionEvent :=
  { seq, time := 0, surfaceOp := some (.str "append"), sourceEventSeqs := none, ignorable := false
    data := .assistantMessage 0 0
      { id := "message", content := [.toolCall ⟨callId, "read", "{}"⟩], source := ⟨"p", "m", none⟩ }
      none false }

def resultFor (seq : Nat) (callId : CallId) : SessionEvent :=
  { seq, time := 0, surfaceOp := some (.str "append"), sourceEventSeqs := none, ignorable := false
    data := .toolResult
      { turn := 0, step := 0, error := none, metadata := none
        message := { id := "result", source := ⟨callId⟩, content := ⟨callId, [], none, none⟩ } } }

def checkpointOver (seq start endSeq : Nat) (sources : List Nat) : SessionEvent :=
  { seq, time := 0, ignorable := false
    surfaceOp := some (.obj [("op", .str "replace"), ("start", .nat start), ("end", .nat endSeq)])
    sourceEventSeqs := some (.arr (sources.map Json.nat))
    data := .userMessage { id := "summary", content := [], source := .user } }

def answeredLog : List SessionEvent :=
  [assistantCalling 0 "a", resultFor 1 "a", assistantCalling 2 "b", resultFor 3 "b",
    { seq := 4, time := 0, surfaceOp := none, sourceEventSeqs := none, ignorable := false
      data := .endSeed }]

theorem tool_pairing_kept_answered :
    ∃ session fold fold', Session.create (some (answeredLog.map .lossless)) 0 = .ok session ∧
      runFold session.logged = .ok fold ∧
        runFold (session.logged ++ [checkpointOver 5 2 3 [2, 3]]) = .ok fold' ∧
          Pairing.ofNodes session.logged fold.state.nodes =
            some ⟨[], [(0, "a", 1), (2, "b", 3)]⟩ ∧
          Pairing.ofNodes (session.logged ++ [checkpointOver 5 2 3 [2, 3]]) fold'.state.nodes =
            some ⟨[], [(0, "a", 1)]⟩ := by
  obtain ⟨session, hsession⟩ := isOk_iff.mp (show isOk (Session.create
    (some (answeredLog.map .lossless)) 0) = true by decide +kernel)
  have hlog : session.logged = answeredLog := by
    have hlogs : (Session.create (some (answeredLog.map .lossless)) 0).map Session.logged =
        .ok answeredLog := by decide +kernel
    rw [hsession] at hlogs
    exact Except.ok.inj hlogs
  obtain ⟨fold, hfold, -, -, hkept⟩ := tool_pairing_kept hsession []
  change runFold session.logged = .ok fold at hfold
  obtain ⟨fold', hfold'⟩ := isOk_iff.mp (show isOk (runFold
    (answeredLog ++ [checkpointOver 5 2 3 [2, 3]])) = true by decide +kernel)
  obtain ⟨selection, hselection⟩ := isOk_iff.mp (show isOk (validateSurfaceRegion answeredLog 2 3) =
    true by decide +kernel)
  have hshadowed : selection.shadowedSeqs = [2, 3] := by
    have hmap : (validateSurfaceRegion answeredLog 2 3).map SurfaceSelection.shadowedSeqs =
        .ok [2, 3] := by decide +kernel
    rw [hselection] at hmap
    exact Except.ok.inj hmap
  have hpairing : Pairing.ofNodes answeredLog fold.state.nodes =
      some ⟨[], [(0, "a", 1), (2, "b", 3)]⟩ := by
    have hbind : (runFold answeredLog).toOption.bind (fun fold =>
        Pairing.ofNodes answeredLog fold.state.nodes) = some ⟨[], [(0, "a", 1), (2, "b", 3)]⟩ := by
      decide +kernel
    rw [← hlog, hfold, hlog] at hbind
    exact hbind
  rw [hlog] at hfold
  have hafter := (hkept _ (hlog ▸ hpairing) (checkpointOver 5 2 3 [2, 3]) 2 3 fold' rfl
    (hlog ▸ hfold')).1 _ _ rfl (hlog ▸ hselection)
  rw [hshadowed] at hafter
  exact ⟨session, fold, fold', hsession, hlog ▸ hfold, hlog ▸ hfold', hlog ▸ hpairing, hafter⟩

def isAnswered (log : List SessionEvent) (seq : Nat) (callId : CallId) : Bool :=
  match runFold log with
  | .ok fold => ((fold.state.nodes.dropWhile (· ≠ seq)).drop 1).any fun node =>
      (log[node]?).any fun event => decide (resultOf event = some callId)
  | .error _ => false

/-- The first result answers no call, and the second call is in the balanced span with the result of
the first. -/
def crossedLog : List SessionEvent :=
  [assistantCalling 0 "a", resultFor 1 "b", assistantCalling 2 "b", resultFor 3 "a"]

theorem crossedLog_unpaired :
    isOk (validateSurfaceRegion crossedLog 2 3) = true ∧
      isOk (runFold (crossedLog ++ [checkpointOver 4 2 3 [2, 3]])) = true ∧
        isAnswered crossedLog 0 "a" = true ∧
          isAnswered (crossedLog ++ [checkpointOver 4 2 3 [2, 3]]) 0 "a" = false := by
  decide +kernel

end Runs

end Harness
