import Harness.Session.Surface
import Mathlib.Logic.Relation
import Mathlib.Data.List.Count
import Mathlib.Data.List.Induction

namespace Harness

open Harness.Foundation

section Event

variable {state : SurfaceFoldState} {event : SessionEvent}

theorem citedSources_earlier {sources : List Nat} (h : citedSources event = .ok sources) :
    ∀ source ∈ sources, source < event.seq := by
  unfold citedSources at h
  split at h
  · simp_all
  · obtain ⟨_, _, h⟩ := bind_eq_ok.mp h
    split at h
    · simp at h
    · obtain ⟨_, _, h⟩ := bind_eq_ok.mp h
      split at h
      · simp at h
      · rename_i hnone
        obtain rfl : _ = sources := by simpa using h
        simpa using hnone
  · simp at h

def sourceSeqs (event : SessionEvent) : List Nat :=
  match event.sourceEventSeqs with
  | some (.arr raw) => raw.filterMap Json.safeNat?
  | _ => []

theorem filterMap_of_mapM {α β : Type} {f : α → Option β} {as : List α} {bs : List β}
    (h : as.mapM f = some bs) : as.filterMap f = bs := by
  induction as generalizing bs with
  | nil => simpa using h
  | cons a as ih =>
    simp only [List.mapM_cons, Option.bind_eq_bind, Option.bind_eq_some_iff, Option.pure_def] at h
    obtain ⟨b, hb, cs, hcs, h⟩ := h
    obtain rfl : b :: cs = bs := by simpa using h
    simp [hb, ih hcs]

theorem citedSources_eq {sources : List Nat} (h : citedSources event = .ok sources) :
    sourceSeqs event = sources := by
  unfold citedSources at h
  unfold sourceSeqs
  split at h
  · simp_all
  · rename_i hraw
    obtain ⟨_, _, h⟩ := bind_eq_ok.mp h
    split at h
    · simp at h
    · rename_i hsources
      obtain ⟨_, _, h⟩ := bind_eq_ok.mp h
      split at h
      · simp at h
      · obtain rfl : _ = sources := by simpa using h
        simp only [hraw]
        exact filterMap_of_mapM hsources
  · simp at h

theorem assertProvenance_ok {shadowedSeqs : List Nat}
    (h : assertProvenance event shadowedSeqs = .ok ()) :
    shadowedSeqs ⊆ sourceSeqs event ∧ ∀ source ∈ sourceSeqs event, source < event.seq := by
  obtain ⟨sources, hsources, h⟩ := bind_eq_ok.mp h
  rw [citedSources_eq hsources]
  refine ⟨?_, citedSources_earlier hsources⟩
  intro seq hseq
  have hmissing : (shadowedSeqs.filter fun seq => !sources.contains seq) = [] := by simpa using h
  have := List.filter_eq_nil_iff.mp hmissing seq hseq
  simpa using this

theorem replacementRange_ok {start endSeq : Nat} {range : ReplacementRange}
    (h : replacementRange state start endSeq = .ok range) :
    ∃ before after, state.nodes = before ++ range.shadowedSeqs ++ after ∧
      state.nodes.take range.startIdx = before ∧ state.nodes.drop (range.endIdx + 1) = after ∧
      range.shadowedSeqs ≠ [] := by
  unfold replacementRange at h
  split at h
  · simp at h
  · split at h
    · simp at h
    · rename_i startIdx hstart _ endIdx hend
      obtain ⟨_, hle, h⟩ := bind_eq_ok.mp h
      have hle : startIdx ≤ endIdx := by simpa using hle
      have hlt : endIdx < state.nodes.length := (List.idxOf?_eq_some_iff.mp hend).1
      obtain rfl := (Except.ok.inj h).symm
      refine ⟨_, _, ?_, rfl, rfl, ?_⟩
      · have hsplit : (state.nodes.drop startIdx).drop (endIdx + 1 - startIdx)
            = state.nodes.drop (endIdx + 1) := by
          rw [List.drop_drop]
          congr 1
          omega
        simp only
        rw [← hsplit, List.append_assoc, List.take_append_drop, List.take_append_drop]
      · intro hnil
        have := congrArg List.length hnil
        simp only [List.length_take, List.length_drop, List.length_nil] at this
        omega

end Event

inductive SurfaceStep (fold : SurfaceFold) (event : SessionEvent) : SurfaceFold → Prop
  | skip : isSurfaceEligibleType event.type = false → SurfaceStep fold event fold
  | append : isSurfaceEligibleType event.type = true →
      (∀ source ∈ sourceSeqs event, source < event.seq) →
      SurfaceStep fold event
        { fold with state := { fold.state with nodes := fold.state.nodes ++ [event.seq] } }
  | replace (before after : List Nat) (replacement : SurfaceFoldReplacement) :
      isSurfaceEligibleType event.type = true →
      (∀ source ∈ sourceSeqs event, source < event.seq) →
      replacement.seq = event.seq →
      replacement.shadowedSeqs ⊆ sourceSeqs event →
      fold.state.nodes = before ++ replacement.shadowedSeqs ++ after →
      SurfaceStep fold event
        { state := { nodes := before ++ [event.seq] ++ after
                     replaceGeneration := fold.state.replaceGeneration + 1 }
          replacements := fold.replacements ++ [replacement] }

theorem surfaceOpOf_none {event : SessionEvent} (h : surfaceOpOf event = .ok none) :
    isSurfaceEligibleType event.type = false := by
  unfold surfaceOpOf at h
  split at h
  · rename_i helig
    simpa using helig
  · split at h
    · simp at h
    · simp at h
    · split at h <;> simp at h
    · simp at h

theorem surfaceOpOf_some {event : SessionEvent} {op : SurfaceOp}
    (h : surfaceOpOf event = .ok (some op)) : isSurfaceEligibleType event.type = true := by
  unfold surfaceOpOf at h
  split at h
  · obtain ⟨_, _, h⟩ := bind_eq_ok.mp h
    obtain ⟨_, _, h⟩ := bind_eq_ok.mp h
    simp at h
  · rename_i helig
    simpa using helig

theorem applySurfaceEvent_step {fold : SurfaceFold} {event : SessionEvent} {index : Nat}
    {events : List SessionEvent} {outcome : SurfaceFoldState × Option SurfaceFoldReplacement}
    (h : applySurfaceEvent fold.state event index events 0 = .ok outcome) :
    event.seq = index ∧ SurfaceStep fold event (fold.record outcome) := by
  obtain ⟨plan, hplan, h⟩ := bind_eq_ok.mp h
  obtain rfl := (Except.ok.inj h).symm
  obtain ⟨_, hseq, hplan⟩ := bind_eq_ok.mp hplan
  refine ⟨by simpa using hseq, ?_⟩
  obtain ⟨op, hop, hplan⟩ := bind_eq_ok.mp hplan
  match op, hop, hplan with
  | none, hop, hplan =>
    obtain rfl := (Except.ok.inj hplan).symm
    have hstep : SurfaceStep fold event fold := .skip (surfaceOpOf_none hop)
    simpa [SurfaceFold.record, applySurfacePlan] using hstep
  | some .append, hop, hplan =>
    obtain ⟨⟨⟩, hprov, hplan⟩ := bind_eq_ok.mp hplan
    obtain rfl := (Except.ok.inj hplan).symm
    have hstep : SurfaceStep fold event _ :=
      .append (surfaceOpOf_some hop) (assertProvenance_ok hprov).2
    simpa [SurfaceFold.record, applySurfacePlan] using hstep
  | some (.replace start endSeq), hop, hplan =>
    obtain ⟨range, hrange, hplan⟩ := bind_eq_ok.mp hplan
    obtain ⟨⟨⟩, hprov, hplan⟩ := bind_eq_ok.mp hplan
    obtain ⟨⟨⟩, _, hplan⟩ := bind_eq_ok.mp hplan
    obtain rfl := (Except.ok.inj hplan).symm
    obtain ⟨before, after, hsplit, hbefore, hafter, _⟩ := replacementRange_ok hrange
    have hprov := assertProvenance_ok hprov
    have hstep : SurfaceStep fold event _ :=
      .replace before after { seq := event.seq, start, endSeq, shadowedSeqs := range.shadowedSeqs }
        (surfaceOpOf_some hop) hprov.2 rfl hprov.1 hsplit
    simpa [SurfaceFold.record, applySurfacePlan, hbefore, hafter] using hstep

theorem assertToolResultRewrite_congr {event : SessionEvent} {shadowedSeqs : List Nat}
    {events events' : List SessionEvent} {baseSeq : Nat}
    (h : ∀ seq ∈ shadowedSeqs, eventAt events baseSeq seq = eventAt events' baseSeq seq) :
    assertToolResultRewrite event shadowedSeqs events baseSeq =
      assertToolResultRewrite event shadowedSeqs events' baseSeq := by
  unfold assertToolResultRewrite
  match shadowedSeqs, h with
  | [], _ => rfl
  | [seq], h => simp only [h seq List.mem_cons_self]
  | _ :: _ :: _, _ => rfl

theorem planSurfaceEvent_congr {state : SurfaceFoldState} {event : SessionEvent} {index : Nat}
    {events events' : List SessionEvent} {baseSeq : Nat}
    (h : ∀ seq ∈ state.nodes, eventAt events baseSeq seq = eventAt events' baseSeq seq) :
    planSurfaceEvent state event index events baseSeq =
      planSurfaceEvent state event index events' baseSeq := by
  unfold planSurfaceEvent
  congr 1
  funext _
  congr 1
  funext op
  match op with
  | none => rfl
  | some .append => rfl
  | some (.replace start endSeq) =>
    simp only
    cases hrange : replacementRange state start endSeq with
    | error message => rfl
    | ok range =>
      simp only [ok_bind]
      obtain ⟨before, after, hsplit, _⟩ := replacementRange_ok hrange
      have hshadowed : ∀ seq ∈ range.shadowedSeqs,
          eventAt events baseSeq seq = eventAt events' baseSeq seq := by
        intro seq hseq
        apply h
        rw [hsplit]
        simp [hseq]
      rw [assertToolResultRewrite_congr hshadowed]

theorem applySurfaceEvent_congr {state : SurfaceFoldState} {event : SessionEvent} {index : Nat}
    {events events' : List SessionEvent} {baseSeq : Nat}
    (h : ∀ seq ∈ state.nodes, eventAt events baseSeq seq = eventAt events' baseSeq seq) :
    applySurfaceEvent state event index events baseSeq =
      applySurfaceEvent state event index events' baseSeq := by
  unfold applySurfaceEvent
  rw [planSurfaceEvent_congr h]

theorem SurfaceStep.nodes_lt {fold fold' : SurfaceFold} {event : SessionEvent} {index : Nat}
    (h : SurfaceStep fold event fold') (hseq : event.seq = index)
    (hlt : ∀ seq ∈ fold.state.nodes, seq < index) :
    ∀ seq ∈ fold'.state.nodes, seq < index + 1 := by
  intro seq hmem
  cases h with
  | skip => exact Nat.lt_succ_of_lt (hlt seq hmem)
  | append =>
    rcases List.mem_append.mp hmem with hold | hnew
    · exact Nat.lt_succ_of_lt (hlt seq hold)
    · have := List.mem_singleton.mp hnew
      omega
  | replace before after replacement _ _ _ _ hsplit =>
    simp only [List.mem_append, List.mem_singleton] at hmem
    rcases hmem with (hbefore | hnew) | hafter
    · have := hlt seq (by rw [hsplit]; simp [hbefore])
      omega
    · omega
    · have := hlt seq (by rw [hsplit]; simp [hafter])
      omega

theorem foldSurfaceLoop_append (events : List SessionEvent) (index : Nat) (fold : SurfaceFold)
    (front back : List SessionEvent) :
    foldSurfaceLoop events index fold (front ++ back) =
      foldSurfaceLoop events index fold front >>= fun fold' =>
        foldSurfaceLoop events (index + front.length) fold' back := by
  induction front generalizing index fold with
  | nil => rfl
  | cons event front ih =>
    simp only [List.cons_append, foldSurfaceLoop, List.length_cons]
    cases applySurfaceEvent fold.state event index events 0 with
    | error message => rfl
    | ok outcome =>
      simp only [ok_bind]
      rw [ih, Nat.add_assoc, Nat.add_comm 1]

theorem foldSurfaceLoop_congr {events events' : List SessionEvent} {index : Nat}
    {fold : SurfaceFold} {rest : List SessionEvent}
    (hlt : ∀ seq ∈ fold.state.nodes, seq < index)
    (h : ∀ seq, seq < index + rest.length → events[seq]? = events'[seq]?) :
    foldSurfaceLoop events index fold rest = foldSurfaceLoop events' index fold rest := by
  induction rest generalizing index fold with
  | nil => rfl
  | cons event rest ih =>
    have hplan : applySurfaceEvent fold.state event index events 0 =
        applySurfaceEvent fold.state event index events' 0 := by
      apply applySurfaceEvent_congr
      intro seq hseq
      have := hlt seq hseq
      simpa [eventAt] using h seq (by simp; omega)
    simp only [foldSurfaceLoop, hplan]
    cases happly : applySurfaceEvent fold.state event index events' 0 with
    | error message => rfl
    | ok outcome =>
      simp only [ok_bind]
      obtain ⟨hseq, hstep⟩ := applySurfaceEvent_step happly
      apply ih
      · exact hstep.nodes_lt hseq hlt
      · intro seq hle
        apply h
        simp only [List.length_cons]
        omega

theorem runFold_append (front back : List SessionEvent) :
    runFold (front ++ back) = runFold front >>= fun fold =>
      foldSurfaceLoop (front ++ back) front.length fold back := by
  have hfront : foldSurfaceLoop (front ++ back) 0 .empty front =
      foldSurfaceLoop front 0 .empty front := by
    apply foldSurfaceLoop_congr
    · simp [SurfaceFold.empty, createFoldState]
    · intro seq hlt
      rw [List.getElem?_append_left (by omega)]
  rw [runFold, runFold, foldSurfaceLoop_append, Nat.zero_add, hfront]

theorem runFold_front {front back : List SessionEvent} {fold : SurfaceFold}
    (h : runFold (front ++ back) = .ok fold) : ∃ fold', runFold front = .ok fold' := by
  rw [runFold_append] at h
  obtain ⟨fold', hfold, _⟩ := bind_eq_ok.mp h
  exact ⟨fold', hfold⟩

theorem runFold_invariant (inv : List SessionEvent → SurfaceFold → Prop)
    (hempty : inv [] .empty)
    (hstep : ∀ log fold event fold', inv log fold → event.seq = log.length →
      SurfaceStep fold event fold' → inv (log ++ [event]) fold')
    {log : List SessionEvent} {fold : SurfaceFold} (h : runFold log = .ok fold) :
    inv log fold := by
  induction log using List.reverseRecOn generalizing fold with
  | nil =>
    obtain rfl : SurfaceFold.empty = fold := by simpa [runFold, foldSurfaceLoop] using h
    exact hempty
  | append_singleton log event ih =>
    rw [runFold_append] at h
    obtain ⟨previous, hprevious, h⟩ := bind_eq_ok.mp h
    obtain ⟨outcome, houtcome, h⟩ := bind_eq_ok.mp h
    obtain rfl : previous.record outcome = fold := by simpa [foldSurfaceLoop] using h
    obtain ⟨hseq, hsurface⟩ := applySurfaceEvent_step houtcome
    exact hstep log previous event _ (ih hprevious) hseq hsurface

theorem runFold_nodes_lt {log : List SessionEvent} {fold : SurfaceFold}
    (h : runFold log = .ok fold) : ∀ seq ∈ fold.state.nodes, seq < log.length := by
  apply runFold_invariant (fun log fold => ∀ seq ∈ fold.state.nodes, seq < log.length) _ _ h
  · simp [SurfaceFold.empty, createFoldState]
  · intro log fold event fold' hlt hseq hstep
    simpa using hstep.nodes_lt hseq hlt

theorem eventAt_append {front back : List SessionEvent} {seq : Nat} (h : seq < front.length) :
    eventAt (front ++ back) 0 seq = eventAt front 0 seq := by
  simp [eventAt, List.getElem?_append_left h]

theorem runFold_snoc (log : List SessionEvent) (event : SessionEvent) :
    runFold (log ++ [event]) = runFold log >>= fun fold =>
      (applySurfaceEvent fold.state event log.length log 0).map fold.record := by
  rw [runFold_append]
  cases hfold : runFold log with
  | error message => rfl
  | ok fold =>
    simp only [ok_bind, foldSurfaceLoop]
    rw [applySurfaceEvent_congr fun seq hseq => eventAt_append (runFold_nodes_lt hfold seq hseq)]
    cases applySurfaceEvent fold.state event log.length log 0 <;> rfl

theorem runFold_nodes_grow {front back : List SessionEvent} {fold fold' : SurfaceFold}
    (h : runFold front = .ok fold) (h' : runFold (front ++ back) = .ok fold') :
    fold.state.replaceGeneration ≤ fold'.state.replaceGeneration ∧
      (fold.state.replaceGeneration = fold'.state.replaceGeneration →
        fold.state.nodes <+: fold'.state.nodes) := by
  induction back using List.reverseRecOn generalizing fold' with
  | nil =>
    rw [List.append_nil, h] at h'
    obtain rfl := Except.ok.inj h'
    exact ⟨Nat.le_refl _, fun _ => List.prefix_refl _⟩
  | append_singleton back event ih =>
    rw [← List.append_assoc, runFold_snoc] at h'
    obtain ⟨middle, hmiddle, h'⟩ := bind_eq_ok.mp h'
    obtain ⟨outcome, houtcome, rfl⟩ := map_eq_ok.mp h'
    obtain ⟨hle, hgrow⟩ := ih hmiddle
    obtain ⟨_, hstep⟩ := applySurfaceEvent_step houtcome
    generalize middle.record outcome = next at hstep ⊢
    cases hstep with
    | skip => exact ⟨hle, hgrow⟩
    | append => exact ⟨hle, fun heq => (hgrow heq).trans (List.prefix_append _ _)⟩
    | replace =>
      simp only
      exact ⟨by omega, by omega⟩

theorem runFold_seq {log : List SessionEvent} {fold : SurfaceFold} (h : runFold log = .ok fold) :
    log.map SessionEvent.seq = List.range log.length := by
  apply runFold_invariant (fun log _ => log.map SessionEvent.seq = List.range log.length) _ _ h
  · rfl
  · intro log fold event fold' hrange hseq hstep
    rw [List.map_append, hrange, List.length_append, List.length_singleton, List.range_succ]
    simp [hseq]

theorem seq_of_getLast {log : List SessionEvent} {fold : SurfaceFold} (h : runFold log = .ok fold)
    {last : SessionEvent} (hlast : log.getLast? = some last) : last.seq + 1 = log.length := by
  have hlength : 0 < log.length := List.length_pos_of_mem (List.mem_of_getLast? hlast)
  have hseqs := congrArg List.getLast? (runFold_seq h)
  rw [List.getLast?_map, hlast, List.getLast?_range, if_neg (by omega)] at hseqs
  have : last.seq = log.length - 1 := Option.some.inj hseqs
  omega

theorem runFold_logOnly {log : List SessionEvent} {fold : SurfaceFold} {event : SessionEvent}
    (h : runFold log = .ok fold) (hkind : isSurfaceEligibleType event.type = false)
    (hseq : event.seq = log.length) (hop : event.surfaceOp = none)
    (hsources : event.sourceEventSeqs = none) : runFold (log ++ [event]) = .ok fold := by
  rw [runFold_snoc, h]
  simp [applySurfaceEvent, planSurfaceEvent, surfaceOpOf, hkind, hseq, hop, hsources,
    applySurfacePlan, SurfaceFold.record, Except.map]

theorem runFold_appended {log : List SessionEvent} {fold : SurfaceFold} {event : SessionEvent}
    {sources : List Nat} (h : runFold log = .ok fold)
    (hkind : isSurfaceEligibleType event.type = true) (hseq : event.seq = log.length)
    (hop : event.surfaceOp = some (.str "append")) (hsources : citedSources event = .ok sources) :
    ∃ fold', runFold (log ++ [event]) = .ok fold' := by
  rw [runFold_snoc, h]
  simp [applySurfaceEvent, planSurfaceEvent, surfaceOpOf, hkind, hseq, hop, assertProvenance,
    hsources, Except.map]

/-- The fold carried through a list of consecutive batches, each stage seeing only the entries
up to its own end. -/
def foldByPrefixes (batches : List (List SessionEvent)) :
    Except String (List SessionEvent × SurfaceFold) :=
  foldOk (fun (seen, fold) batch => do
    let fold' ← foldSurfaceLoop (seen ++ batch) seen.length fold batch
    return (seen ++ batch, fold')) ([], .empty) batches

theorem foldByPrefixes_eq (batches : List (List SessionEvent)) :
    foldByPrefixes batches = runFold batches.flatten >>= fun fold => .ok (batches.flatten, fold) := by
  induction batches using List.reverseRecOn with
  | nil => rfl
  | append_singleton batches batch ih =>
    rw [foldByPrefixes, foldOk_snoc, ← foldByPrefixes, ih]
    simp only [List.flatten_append, List.flatten_cons, List.flatten_nil, List.append_nil]
    rw [runFold_append]
    cases runFold batches.flatten with
    | error message => rfl
    | ok fold => rfl

def EligibleAt (log : List SessionEvent) (seq : Nat) : Prop :=
  ∃ event, log[seq]? = some event ∧ isSurfaceEligibleType event.type = true

def Cites (log : List SessionEvent) (seq source : Nat) : Prop :=
  ∃ event, log[seq]? = some event ∧ source ∈ sourceSeqs event

def shadowCount (replacements : List SurfaceFoldReplacement) (seq : Nat) : Nat :=
  replacements.countP fun replacement => decide (seq ∈ replacement.shadowedSeqs)

theorem EligibleAt.lt {log : List SessionEvent} {seq : Nat} (h : EligibleAt log seq) :
    seq < log.length := by
  obtain ⟨event, hevent, _⟩ := h
  exact (List.getElem?_eq_some_iff.mp hevent).1

theorem EligibleAt.mono {log : List SessionEvent} {seq : Nat} (h : EligibleAt log seq)
    (event : SessionEvent) : EligibleAt (log ++ [event]) seq := by
  obtain ⟨found, hfound, helig⟩ := h
  have hlt := (List.getElem?_eq_some_iff.mp hfound).1
  exact ⟨found, by rwa [List.getElem?_append_left hlt], helig⟩

theorem EligibleAt.last {log : List SessionEvent} {event : SessionEvent}
    (h : isSurfaceEligibleType event.type = true) : EligibleAt (log ++ [event]) log.length :=
  ⟨event, by simp, h⟩

theorem EligibleAt.cases {log : List SessionEvent} {event : SessionEvent} {seq : Nat}
    (h : EligibleAt (log ++ [event]) seq) :
    EligibleAt log seq ∨ seq = log.length ∧ isSurfaceEligibleType event.type = true := by
  obtain ⟨found, hfound, helig⟩ := h
  rcases Nat.lt_trichotomy seq log.length with hlt | heq | hgt
  · rw [List.getElem?_append_left hlt] at hfound
    exact .inl ⟨found, hfound, helig⟩
  · subst heq
    obtain rfl : event = found := by simpa using hfound
    exact .inr ⟨rfl, helig⟩
  · rw [List.getElem?_eq_none (by simp; omega)] at hfound
    simp at hfound

theorem Cites.mono {log : List SessionEvent} {seq source : Nat} (h : Cites log seq source)
    (event : SessionEvent) : Cites (log ++ [event]) seq source := by
  obtain ⟨found, hfound, hsource⟩ := h
  have hlt := (List.getElem?_eq_some_iff.mp hfound).1
  exact ⟨found, by rwa [List.getElem?_append_left hlt], hsource⟩

theorem Cites.last {log : List SessionEvent} {event : SessionEvent} {source : Nat}
    (h : source ∈ sourceSeqs event) : Cites (log ++ [event]) log.length source :=
  ⟨event, by simp, h⟩

@[simp] theorem shadowCount_snoc (replacements : List SurfaceFoldReplacement)
    (replacement : SurfaceFoldReplacement) (seq : Nat) :
    shadowCount (replacements ++ [replacement]) seq =
      shadowCount replacements seq + if seq ∈ replacement.shadowedSeqs then 1 else 0 := by
  simp [shadowCount, List.countP_append, List.countP_singleton]

/-- The bookkeeping of an accepted log: each surface event is a node or shadowed once, and
what is shadowed is cited. -/
structure SurfaceHistory (log : List SessionEvent) (fold : SurfaceFold) : Prop where
  nodup : fold.state.nodes.Nodup
  eligible : ∀ seq ∈ fold.state.nodes, EligibleAt log seq
  generation : fold.state.replaceGeneration = fold.replacements.length
  once : ∀ seq, EligibleAt log seq →
    (seq ∈ fold.state.nodes ∧ shadowCount fold.replacements seq = 0) ∨
      (seq ∉ fold.state.nodes ∧ shadowCount fold.replacements seq = 1)
  earlier : ∀ replacement ∈ fold.replacements, ∀ seq ∈ replacement.shadowedSeqs, seq < log.length
  cited : ∀ replacement ∈ fold.replacements, ∃ event, log[replacement.seq]? = some event ∧
    replacement.shadowedSeqs ⊆ sourceSeqs event
  reachable : ∀ seq, EligibleAt log seq →
    ∃ node ∈ fold.state.nodes, Relation.ReflTransGen (Cites log) node seq

namespace SurfaceHistory

variable {log : List SessionEvent} {fold fold' : SurfaceFold} {event : SessionEvent}

theorem empty : SurfaceHistory [] .empty where
  nodup := List.nodup_nil
  eligible := by simp [SurfaceFold.empty, createFoldState]
  generation := rfl
  once := by simp [EligibleAt]
  earlier := by simp [SurfaceFold.empty]
  cited := by simp [SurfaceFold.empty]
  reachable := by simp [EligibleAt]

theorem node_lt (h : SurfaceHistory log fold) {seq : Nat} (hseq : seq ∈ fold.state.nodes) :
    seq < log.length := (h.eligible seq hseq).lt

theorem shadowCount_length (h : SurfaceHistory log fold) :
    shadowCount fold.replacements log.length = 0 := by
  rw [shadowCount, List.countP_eq_zero]
  intro replacement hmem
  have := h.earlier replacement hmem log.length
  simpa using this

theorem reachable_mono (h : SurfaceHistory log fold) (event : SessionEvent) {seq : Nat}
    (hseq : EligibleAt log seq) :
    ∃ node ∈ fold.state.nodes, Relation.ReflTransGen (Cites (log ++ [event])) node seq := by
  obtain ⟨node, hnode, hpath⟩ := h.reachable seq hseq
  have hmono : Cites log ≤ Cites (log ++ [event]) := fun _ _ hcites => hcites.mono event
  exact ⟨node, hnode, Relation.ReflTransGen.mono hmono _ _ hpath⟩

theorem cited_mono (h : SurfaceHistory log fold) {replacement : SurfaceFoldReplacement}
    (hmem : replacement ∈ fold.replacements) :
    ∃ found, (log ++ [event])[replacement.seq]? = some found ∧
      replacement.shadowedSeqs ⊆ sourceSeqs found := by
  obtain ⟨found, hfound, hsources⟩ := h.cited replacement hmem
  have hlt := (List.getElem?_eq_some_iff.mp hfound).1
  exact ⟨found, by rwa [List.getElem?_append_left hlt], hsources⟩

theorem skip (h : SurfaceHistory log fold) (hskip : isSurfaceEligibleType event.type = false) :
    SurfaceHistory (log ++ [event]) fold := by
  have hcases : ∀ seq, EligibleAt (log ++ [event]) seq → EligibleAt log seq := by
    intro seq hseq
    rcases hseq.cases with hold | ⟨_, helig⟩
    · exact hold
    · simp [hskip] at helig
  exact
    { nodup := h.nodup
      eligible := fun seq hseq => (h.eligible seq hseq).mono event
      generation := h.generation
      once := fun seq hseq => h.once seq (hcases seq hseq)
      earlier := by
        intro replacement hmem seq hseq
        have := h.earlier replacement hmem seq hseq
        simp
        omega
      cited := fun replacement hmem => h.cited_mono hmem
      reachable := fun seq hseq => h.reachable_mono event (hcases seq hseq) }

theorem append (h : SurfaceHistory log fold) (hseq : event.seq = log.length)
    (helig : isSurfaceEligibleType event.type = true) :
    SurfaceHistory (log ++ [event])
      { fold with state := { fold.state with nodes := fold.state.nodes ++ [event.seq] } } := by
  have hnew : log.length ∉ fold.state.nodes := fun hmem => Nat.lt_irrefl _ (h.node_lt hmem)
  rw [hseq]
  refine
    { nodup := ?nodup, eligible := ?eligible, generation := h.generation, once := ?once
      earlier := ?earlier, cited := ?cited, reachable := ?reachable }
  case nodup =>
    simp only [List.nodup_append, List.mem_singleton]
    refine ⟨h.nodup, by simp, ?_⟩
    rintro seq hmem _ rfl rfl
    exact hnew hmem
  case eligible =>
    intro seq hmem
    rcases List.mem_append.mp hmem with hold | hlast
    · exact (h.eligible seq hold).mono event
    · rw [List.mem_singleton.mp hlast]
      exact EligibleAt.last helig
  case once =>
    intro seq hmem
    rcases hmem.cases with hold | ⟨rfl, _⟩
    · have hne : seq ≠ log.length := Nat.ne_of_lt hold.lt
      simpa [hne] using h.once seq hold
    · exact .inl ⟨by simp, h.shadowCount_length⟩
  case earlier =>
    intro replacement hmem seq hshadow
    have := h.earlier replacement hmem seq hshadow
    simp
    omega
  case cited =>
    intro replacement hmem
    exact h.cited_mono hmem
  case reachable =>
    intro seq hmem
    rcases hmem.cases with hold | ⟨rfl, _⟩
    · obtain ⟨node, hnode, hpath⟩ := h.reachable_mono event hold
      exact ⟨node, by simp [hnode], hpath⟩
    · exact ⟨log.length, by simp, .refl⟩

theorem replace (h : SurfaceHistory log fold) (hseq : event.seq = log.length)
    (helig : isSurfaceEligibleType event.type = true) {before after : List Nat}
    {replacement : SurfaceFoldReplacement} (hreplacement : replacement.seq = event.seq)
    (hsources : replacement.shadowedSeqs ⊆ sourceSeqs event)
    (hsplit : fold.state.nodes = before ++ replacement.shadowedSeqs ++ after) :
    SurfaceHistory (log ++ [event])
      { state := { nodes := before ++ [event.seq] ++ after
                   replaceGeneration := fold.state.replaceGeneration + 1 }
        replacements := fold.replacements ++ [replacement] } := by
  have hmem : ∀ seq, seq ∈ fold.state.nodes ↔
      seq ∈ before ∨ seq ∈ replacement.shadowedSeqs ∨ seq ∈ after := by
    intro seq
    rw [hsplit]
    simp
  have hnodup := h.nodup
  rw [hsplit, List.append_assoc, List.nodup_append, List.nodup_append] at hnodup
  obtain ⟨hbefore, ⟨-, hafter, hapart⟩, hdisjoint⟩ := hnodup
  have hlt : ∀ seq, seq ∈ before ∨ seq ∈ replacement.shadowedSeqs ∨ seq ∈ after →
      seq < log.length := fun seq hseq => h.node_lt ((hmem seq).mpr hseq)
  rw [hseq]
  refine
    { nodup := ?nodup, eligible := ?eligible, generation := by simp [h.generation]
      once := ?once, earlier := ?earlier, cited := ?cited, reachable := ?reachable }
  case nodup =>
    simp only [List.append_assoc, List.singleton_append, List.nodup_append, List.nodup_cons,
      List.mem_cons]
    refine ⟨hbefore, ⟨fun hlast => Nat.lt_irrefl _ (hlt _ (.inr (.inr hlast))), hafter⟩, ?_⟩
    rintro seq hleft other (rfl | hright)
    · exact Nat.ne_of_lt (hlt seq (.inl hleft))
    · exact hdisjoint seq hleft other (List.mem_append_right _ hright)
  case eligible =>
    intro seq hnode
    simp only [List.mem_append, List.mem_singleton] at hnode
    rcases hnode with (hleft | rfl) | hright
    · exact (h.eligible seq ((hmem seq).mpr (.inl hleft))).mono event
    · exact EligibleAt.last helig
    · exact (h.eligible seq ((hmem seq).mpr (.inr (.inr hright)))).mono event
  case once =>
    intro seq hat
    rcases hat.cases with hold | ⟨rfl, _⟩
    · have hne : seq ≠ log.length := Nat.ne_of_lt hold.lt
      have honce := h.once seq hold
      rw [hmem] at honce
      simp only [List.mem_append, List.mem_singleton, shadowCount_snoc, hne, or_false]
      by_cases hshadow : seq ∈ replacement.shadowedSeqs
      · have hleft : seq ∉ before := fun hin =>
          hdisjoint seq hin seq (List.mem_append_left _ hshadow) rfl
        have hright : seq ∉ after := fun hin => hapart seq hshadow seq hin rfl
        simp only [hshadow, hleft, hright, or_true, true_and, not_true_eq_false, false_and,
          or_false, if_true] at honce ⊢
        exact .inr ⟨by simp, by omega⟩
      · simpa [hshadow] using honce
    · left
      have hshadow : log.length ∉ replacement.shadowedSeqs := fun hin =>
        Nat.lt_irrefl _ (hlt _ (.inr (.inl hin)))
      simp [hshadow, h.shadowCount_length]
  case earlier =>
    intro found hfound seq hshadow
    rw [List.length_append, List.length_singleton]
    rcases List.mem_append.mp hfound with hold | hlast
    · have := h.earlier found hold seq hshadow
      omega
    · obtain rfl := List.mem_singleton.mp hlast
      have := hlt seq (.inr (.inl hshadow))
      omega
  case cited =>
    intro found hfound
    rcases List.mem_append.mp hfound with hold | hlast
    · exact h.cited_mono hold
    · obtain rfl := List.mem_singleton.mp hlast
      exact ⟨event, by simp [hreplacement, hseq], hsources⟩
  case reachable =>
    intro seq hat
    rcases hat.cases with hold | ⟨rfl, _⟩
    · obtain ⟨node, hnode, hpath⟩ := h.reachable_mono event hold
      rcases (hmem node).mp hnode with hleft | hshadow | hright
      · exact ⟨node, by simp [hleft], hpath⟩
      · exact ⟨log.length, by simp, .head (Cites.last (hsources hshadow)) hpath⟩
      · exact ⟨node, by simp [hright], hpath⟩
    · exact ⟨log.length, by simp, .refl⟩

theorem step (h : SurfaceHistory log fold) (hseq : event.seq = log.length)
    (hstep : SurfaceStep fold event fold') : SurfaceHistory (log ++ [event]) fold' := by
  cases hstep with
  | skip hskip => exact h.skip hskip
  | append helig _ => exact h.append hseq helig
  | replace before after replacement helig _ hreplacement hsources hsplit =>
    exact h.replace hseq helig hreplacement hsources hsplit

end SurfaceHistory

theorem runFold_history {log : List SessionEvent} {fold : SurfaceFold}
    (h : runFold log = .ok fold) : SurfaceHistory log fold := by
  apply runFold_invariant SurfaceHistory SurfaceHistory.empty _ h
  intro log fold event fold' hinv hseq hstep
  exact hinv.step hseq hstep

theorem foldSurface_ok {log : List SessionEvent} {result : SurfaceFoldResult}
    (h : foldSurface log = .ok result) :
    ∃ fold, runFold log = .ok fold ∧ result.nodes = fold.state.nodes ∧
      result.replacements = fold.replacements := by
  obtain ⟨fold, hfold, h⟩ := bind_eq_ok.mp h
  obtain rfl := (Except.ok.inj h).symm
  exact ⟨fold, hfold, rfl, rfl⟩

/-- Nothing a surface held is lost: an accepted log keeps every surface event as a node or
behind exactly one replacement, and citations lead from the nodes to all of them. -/
theorem foldSurface_keeps_history {log : List SessionEvent} {result : SurfaceFoldResult}
    (h : foldSurface log = .ok result) :
    result.nodes.Nodup ∧
    (∀ seq ∈ result.nodes, EligibleAt log seq) ∧
    (∀ seq, EligibleAt log seq →
      (seq ∈ result.nodes ∧ shadowCount result.replacements seq = 0) ∨
        (seq ∉ result.nodes ∧ shadowCount result.replacements seq = 1)) ∧
    (∀ replacement ∈ result.replacements, ∃ event, log[replacement.seq]? = some event ∧
      replacement.shadowedSeqs ⊆ sourceSeqs event) ∧
    (∀ seq, EligibleAt log seq →
      ∃ node ∈ result.nodes, Relation.ReflTransGen (Cites log) node seq) ∧
    (∀ batches, batches.flatten = log → ∃ fold, foldByPrefixes batches = .ok (log, fold) ∧
      fold.state.nodes = result.nodes ∧ fold.replacements = result.replacements) := by
  obtain ⟨fold, hfold, hnodes, hreplacements⟩ := foldSurface_ok h
  have history := runFold_history hfold
  rw [hnodes, hreplacements]
  refine ⟨history.nodup, history.eligible, history.once, history.cited, history.reachable, ?_⟩
  rintro batches rfl
  exact ⟨fold, by rw [foldByPrefixes_eq, hfold]; rfl, rfl, rfl⟩

/-- Two messages, a checkpoint over the second, and a checkpoint over everything. -/
def nestedCheckpoints : List SessionEvent :=
  [userEvent 0 (.str "append") none,
    userEvent 1 (.str "append") none,
    userEvent 2 (replaceOp 1 1) (some [1]),
    userEvent 3 (replaceOp 0 2) (some [2, 0])]
where
  userEvent (seq : Nat) (surfaceOp : Json) (sources : Option (List Nat)) : SessionEvent :=
    { seq, time := 0, surfaceOp := some surfaceOp, ignorable := false
      data := .userMessage { id := "message", content := [], source := .user }
      sourceEventSeqs := sources.map fun seqs => .arr (seqs.map Json.nat) }
  replaceOp (start endSeq : Nat) : Json :=
    .obj [("op", .str "replace"), ("start", .nat start), ("end", .nat endSeq)]

theorem nestedCheckpoints_fold : foldSurface nestedCheckpoints = .ok
    { nodes := [3]
      replacements := [{ seq := 2, start := 1, endSeq := 1, shadowedSeqs := [1] },
        { seq := 3, start := 0, endSeq := 2, shadowedSeqs := [0, 2] }] } := by
  decide

theorem nestedCheckpoints_keep_history :
    foldSurface nestedCheckpoints = .ok
      { nodes := [3]
        replacements := [{ seq := 2, start := 1, endSeq := 1, shadowedSeqs := [1] },
          { seq := 3, start := 0, endSeq := 2, shadowedSeqs := [0, 2] }] } ∧
      ∃ node ∈ [3], Relation.ReflTransGen (Cites nestedCheckpoints) node 1 :=
  ⟨nestedCheckpoints_fold,
    (foldSurface_keeps_history nestedCheckpoints_fold).2.2.2.2.1 1 ⟨_, rfl, rfl⟩⟩

end Harness
