import Harness.Compaction.Region
import Harness.Foundation.OrderedMap
import Harness.Session.EventLog

namespace Harness

open Harness.Foundation

structure BalanceCache where
  generation : Nat
  cutBalanced : List Bool
  indexBySeq : OrderedMap Nat Nat
  inProgressToolCalls : Int

def freshBalance (generation : Nat) : BalanceCache := ⟨generation, [true], .empty, 0⟩

/-- The loop over the unseen tail: its cuts, and the calls in progress after it. -/
def pendingCuts (events : List SessionEvent) : Int → List Nat → Except String (List Bool × Int)
  | inProgress, [] => .ok ([], inProgress)
  | inProgress, seq :: tail => do
    let event ← eventForSeq events seq
    let inProgress := inProgress + eventDelta event
    require (decide (0 ≤ inProgress))
      s!"tool-pairing balance: tool/result at surface seq {seq} has no matching tool-call (corrupt surface)"
    let pending ← pendingCuts events inProgress tail
    return (decide (inProgress = 0) :: pending.1, pending.2)

def setIndexes (indexBySeq : OrderedMap Nat Nat) : Nat → List Nat → OrderedMap Nat Nat
  | _, [] => indexBySeq
  | index, seq :: tail => setIndexes (indexBySeq.set seq index) (index + 1) tail

def extendCache (events : List SessionEvent) (cache : BalanceCache) (seqs : List Nat) :
    Except String BalanceCache := do
  let processed := cache.cutBalanced.length - 1
  let tail := seqs.drop processed
  let pending ← pendingCuts events cache.inProgressToolCalls tail
  return { cache with
    indexBySeq := setIndexes cache.indexBySeq processed tail
    cutBalanced := cache.cutBalanced ++ pending.1
    inProgressToolCalls := pending.2 }

def BalanceCache.cutBalance (cache : BalanceCache) (seq offset : Nat) : Except String Bool :=
  expect ((cache.indexBySeq.get? seq).bind fun index => cache.cutBalanced[index + offset]?)
    s!"tool-pairing balance: surface seq {seq} not found"

structure BalancedSession where
  session : Session
  cache : Option BalanceCache

namespace BalancedSession

def store (state : BalancedSession) (cache : BalanceCache) (seqs : List Nat) :
    Except String BalanceCache × BalancedSession :=
  let read := state.session.events
  match extendCache read.1 cache seqs with
  | .error message => (.error message, { state with session := read.2 })
  | .ok extended => (.ok extended, { session := read.2, cache := some extended })

def balanceCache (state : BalancedSession) : Except String BalanceCache × BalancedSession :=
  match state.session.surfaceNodes with
  | (.error message, session) => (.error message, { state with session })
  | (.ok seqs, session) =>
    match session.surfaceGeneration with
    | (.error message, session) => (.error message, { state with session })
    | (.ok generation, session) =>
      let state := { state with session }
      match state.cache with
      | none => state.store (freshBalance generation) seqs
      | some cached =>
        if cached.generation ≠ generation ∨ seqs.length < cached.cutBalanced.length - 1 then
          state.store (freshBalance generation) seqs
        else if cached.cutBalanced.length - 1 < seqs.length then state.store cached seqs
        else (.ok cached, state)

def toolPairingBalanced (state : BalancedSession) (seq offset : Nat) :
    Except String Bool × BalancedSession :=
  match state.balanceCache with
  | (.error message, state) => (.error message, state)
  | (.ok cache, state) => (cache.cutBalance seq offset, state)

end BalancedSession

inductive BalanceOp
  | session (op : Session.Op)
  | before (seq : Nat)
  | after (seq : Nat)

inductive BalanceReply
  | session (reply : Session.Reply)
  | balanced (answer : Except String Bool)

def BalancedSession.step (state : BalancedSession) : BalanceOp → BalancedSession × BalanceReply
  | .session op =>
    ({ state with session := (state.session.step op).1 }, .session (state.session.step op).2)
  | .before seq => ((state.toolPairingBalanced seq 0).2, .balanced (state.toolPairingBalanced seq 0).1)
  | .after seq => ((state.toolPairingBalanced seq 1).2, .balanced (state.toolPairingBalanced seq 1).1)

section Describes

variable {events : List SessionEvent} {cache : BalanceCache} {nodes more : List Nat}

structure Describes (events : List SessionEvent) (cache : BalanceCache) (nodes : List Nat) : Prop where
  cuts : ∃ cuts, pendingCuts events 0 nodes = .ok (cuts, cache.inProgressToolCalls) ∧
    cache.cutBalanced = true :: cuts
  indexed : ∀ seq, cache.indexBySeq.get? seq = nodes.idxOf? seq

theorem fresh_describes (events : List SessionEvent) (generation : Nat) :
    Describes events (freshBalance generation) [] where
  cuts := ⟨[], rfl, rfl⟩
  indexed := fun _ => rfl

theorem pendingCuts_length {inProgress : Int} {pending : List Bool × Int}
    (h : pendingCuts events inProgress nodes = .ok pending) : pending.1.length = nodes.length := by
  induction nodes generalizing inProgress pending with
  | nil =>
    cases h
    rfl
  | cons seq tail ih =>
    obtain ⟨event, -, h⟩ := bind_eq_ok.mp h
    obtain ⟨_, -, h⟩ := bind_eq_ok.mp h
    obtain ⟨rest, hrest, h⟩ := bind_eq_ok.mp h
    cases h
    exact congrArg (· + 1) (ih hrest)

theorem cutsAfter_eq (events : List SessionEvent) (inProgress : Int) (nodes : List Nat) :
    cutsAfter events inProgress nodes = (pendingCuts events inProgress nodes).map Prod.fst := by
  induction nodes generalizing inProgress with
  | nil => rfl
  | cons seq tail ih =>
    unfold cutsAfter pendingCuts
    cases eventForSeq events seq with
    | error message => rfl
    | ok event =>
      simp only [ok_bind]
      rw [ih]
      cases require (decide (0 ≤ inProgress + eventDelta event)) _ with
      | error message => rfl
      | ok checked =>
        simp only [ok_bind]
        cases pendingCuts events (inProgress + eventDelta event) tail with
        | error message => rfl
        | ok pending => rfl

theorem pendingCuts_cons (events : List SessionEvent) (inProgress : Int) (seq : Nat) (tail : List Nat) :
    pendingCuts events inProgress (seq :: tail) = do
      let event ← eventForSeq events seq
      require (decide (0 ≤ inProgress + eventDelta event))
        s!"tool-pairing balance: tool/result at surface seq {seq} has no matching tool-call (corrupt surface)"
      let pending ← pendingCuts events (inProgress + eventDelta event) tail
      return (decide (inProgress + eventDelta event = 0) :: pending.1, pending.2) := rfl

theorem pendingCuts_append (events : List SessionEvent) (inProgress : Int) (nodes more : List Nat) :
    pendingCuts events inProgress (nodes ++ more) = do
      let front ← pendingCuts events inProgress nodes
      let back ← pendingCuts events front.2 more
      return (front.1 ++ back.1, back.2) := by
  induction nodes generalizing inProgress with
  | nil =>
    rw [List.nil_append, show pendingCuts events inProgress [] = .ok ([], inProgress) from rfl, ok_bind]
    cases pendingCuts events inProgress more with
    | error message => rfl
    | ok pending => rfl
  | cons seq tail ih =>
    rw [List.cons_append, pendingCuts_cons, pendingCuts_cons]
    cases eventForSeq events seq with
    | error message => rfl
    | ok event =>
      rw [ok_bind, ok_bind, ih]
      cases require (decide (0 ≤ inProgress + eventDelta event)) _ with
      | error message => rfl
      | ok checked =>
        rw [ok_bind, ok_bind]
        cases pendingCuts events (inProgress + eventDelta event) tail with
        | error message => rfl
        | ok front =>
          rw [ok_bind, ok_bind, pure_eq_ok, ok_bind]
          cases pendingCuts events front.2 more with
          | error message => rfl
          | ok back => rfl

theorem idxOf?_snoc (nodes : List Nat) (node seq : Nat) (h : node ∉ nodes) :
    (nodes ++ [node]).idxOf? seq =
      if seq = node then some nodes.length else nodes.idxOf? seq := by
  induction nodes with
  | nil =>
    rw [List.nil_append, List.idxOf?_cons]
    by_cases heq : seq = node
    · subst heq
      simp
    · simp [heq, Ne.symm heq]
  | cons first nodes ih =>
    rw [List.cons_append, List.idxOf?_cons, List.idxOf?_cons,
      ih fun hmem => h (List.mem_cons_of_mem _ hmem)]
    by_cases hfirst : first = seq
    · subst hfirst
      have hne : first ≠ node := fun heq => h (heq ▸ List.mem_cons_self)
      simp [hne]
    · by_cases heq : seq = node
      · subst heq
        simp [hfirst]
      · simp [hfirst, heq]

theorem get?_setIndexes {indexBySeq : OrderedMap Nat Nat} (hnodup : (nodes ++ more).Nodup)
    (hindexed : ∀ seq, indexBySeq.get? seq = nodes.idxOf? seq) (seq : Nat) :
    (setIndexes indexBySeq nodes.length more).get? seq = (nodes ++ more).idxOf? seq := by
  induction more generalizing indexBySeq nodes with
  | nil =>
    rw [List.append_nil]
    exact hindexed seq
  | cons node more ih =>
    have hfresh : node ∉ nodes := by
      rw [List.nodup_append] at hnodup
      exact fun hmem => hnodup.2.2 node hmem node List.mem_cons_self rfl
    rw [List.append_cons] at hnodup ⊢
    rw [← ih hnodup]
    · rw [List.length_append]
      rfl
    · intro other
      rw [OrderedMap.get?_set, idxOf?_snoc nodes node other hfresh, hindexed]

theorem Describes.extend (h : Describes events cache nodes) (hnodup : (nodes ++ more).Nodup) :
    (∃ message, extendCache events cache (nodes ++ more) = .error message ∧
      pendingCuts events 0 (nodes ++ more) = .error message) ∨
      ∃ extended, extendCache events cache (nodes ++ more) = .ok extended ∧
        Describes events extended (nodes ++ more) ∧ extended.generation = cache.generation := by
  obtain ⟨cuts, hcuts, hbalanced⟩ := h.cuts
  have hprocessed : cache.cutBalanced.length - 1 = nodes.length := by
    rw [hbalanced, List.length_cons, Nat.add_sub_cancel]
    exact pendingCuts_length hcuts
  have hwhole := pendingCuts_append events 0 nodes more
  rw [hcuts, ok_bind] at hwhole
  unfold extendCache
  dsimp only
  rw [hprocessed, List.drop_left]
  cases hpending : pendingCuts events cache.inProgressToolCalls more with
  | error message =>
    rw [hpending] at hwhole
    exact .inl ⟨message, rfl, hwhole⟩
  | ok pending =>
    rw [hpending] at hwhole
    refine .inr ⟨_, rfl, ⟨⟨cuts ++ pending.1, hwhole, ?_⟩, ?_⟩, rfl⟩
    · rw [hbalanced]
      rfl
    · exact get?_setIndexes hnodup h.indexed

theorem Describes.query (h : Describes events cache nodes) (seq offset : Nat) :
    cache.cutBalance seq offset = cutBalance events nodes seq offset := by
  obtain ⟨cuts, hcuts, hbalanced⟩ := h.cuts
  unfold BalanceCache.cutBalance cutBalance
  rw [cutsAfter_eq, hcuts, h.indexed, hbalanced]
  rfl

theorem cutBalance_error {message : String} (h : pendingCuts events 0 nodes = .error message)
    (seq offset : Nat) : cutBalance events nodes seq offset = .error message := by
  unfold cutBalance
  rw [cutsAfter_eq, h]
  rfl

theorem pendingCuts_grow (back : List SessionEvent) (hlt : ∀ seq ∈ nodes, seq < events.length)
    (inProgress : Int) :
    pendingCuts (events ++ back) inProgress nodes = pendingCuts events inProgress nodes := by
  induction nodes generalizing inProgress with
  | nil => rfl
  | cons seq tail ih =>
    have hevent : eventForSeq (events ++ back) seq = eventForSeq events seq := by
      unfold eventForSeq
      rw [List.getElem?_append_left (hlt seq List.mem_cons_self)]
    rw [pendingCuts_cons, pendingCuts_cons, hevent]
    cases eventForSeq events seq with
    | error message => rfl
    | ok event =>
      rw [ok_bind, ok_bind, ih fun other hmem => hlt other (List.mem_cons_of_mem _ hmem)]

theorem Describes.grow (h : Describes events cache nodes) (back : List SessionEvent)
    (hlt : ∀ seq ∈ nodes, seq < events.length) : Describes (events ++ back) cache nodes where
  cuts := by
    rw [pendingCuts_grow back hlt]
    exact h.cuts
  indexed := h.indexed

end Describes

namespace BalancedSession

def Standing (log : EventLog) (cache : BalanceCache) : Prop :=
  ∃ front back fold, front ++ back = log ∧ runFold front = .ok fold ∧
    cache.generation = fold.state.replaceGeneration ∧ Describes front cache fold.state.nodes

structure Sound (state : BalancedSession) (log : EventLog) : Prop where
  represents : state.session.Represents log
  standing : ∀ cache, state.cache = some cache → Standing log cache

variable {state : BalancedSession} {log : EventLog}

theorem Standing.append {cache : BalanceCache} (h : Standing log cache) (more : EventLog) :
    Standing (log ++ more) cache := by
  obtain ⟨front, back, fold, rfl, hrest⟩ := h
  exact ⟨front, back ++ more, fold, (List.append_assoc _ _ _).symm, hrest⟩

structure Answers (log : EventLog) (fold : SurfaceFold) (old : Option BalanceCache)
    (result : Except String BalanceCache × BalancedSession) : Prop where
  sound : result.2.Sound log
  failed : ∀ message, result.1 = .error message →
    result.2.cache = old ∧ pendingCuts log 0 fold.state.nodes = .error message
  answered : ∀ cache, result.1 = .ok cache → Describes log cache fold.state.nodes

theorem store_answers (h : state.Sound log) {fold : SurfaceFold} (hfold : runFold log = .ok fold)
    {cache : BalanceCache} {nodes more : List Nat} (hdescribes : Describes log cache nodes)
    (hnodes : fold.state.nodes = nodes ++ more)
    (hgeneration : cache.generation = fold.state.replaceGeneration) :
    Answers log fold state.cache (state.store cache fold.state.nodes) := by
  obtain ⟨hevents, hrepresents, -⟩ := h.represents.events
  have hnodup := (runFold_history hfold).nodup
  rw [hnodes] at hnodup
  unfold store
  dsimp only
  rw [hevents]
  rcases hdescribes.extend hnodup with ⟨message, hextend, hcuts⟩ | ⟨extended, hextend, hwhole, hsame⟩
  · rw [hnodes, hextend]
    refine ⟨⟨hrepresents, h.standing⟩, fun other heq => ?_, nofun⟩
    cases heq
    rw [hnodes]
    exact ⟨rfl, hcuts⟩
  · rw [hnodes, hextend]
    refine ⟨⟨hrepresents, fun found heq => ?_⟩, nofun, fun found heq => ?_⟩
    · cases heq
      refine ⟨log, [], fold, List.append_nil _, hfold, hsame.trans hgeneration, ?_⟩
      rw [hnodes]
      exact hwhole
    · cases heq
      rw [hnodes]
      exact hwhole

theorem nodes_read {session : Session} (h : session.Represents log) {fold : SurfaceFold}
    (hfold : runFold log = .ok fold) :
    ∃ after, session.surfaceNodes = (.ok fold.state.nodes, after) ∧ after.Represents log := by
  obtain ⟨_, hnodes, htracks, -⟩ := h.surfaceNodes hfold
  exact ⟨_, hnodes, h.withManager htracks⟩

theorem generation_read {session : Session} (h : session.Represents log) {fold : SurfaceFold}
    (hfold : runFold log = .ok fold) :
    ∃ after, session.surfaceGeneration = (.ok fold.state.replaceGeneration, after) ∧
      after.Represents log := by
  obtain ⟨_, hgeneration, htracks, -⟩ := h.surfaceGeneration hfold
  exact ⟨_, hgeneration, h.withManager htracks⟩

theorem balanceCache_answers (h : state.Sound log) {fold : SurfaceFold}
    (hfold : runFold log = .ok fold) : Answers log fold state.cache state.balanceCache := by
  obtain ⟨first, hnodes, hfirst⟩ := nodes_read h.represents hfold
  obtain ⟨second, hgeneration, hsecond⟩ := generation_read hfirst hfold
  have hfresh := fresh_describes log fold.state.replaceGeneration
  unfold balanceCache
  rw [hnodes]
  dsimp only
  rw [hgeneration]
  dsimp only
  obtain ⟨session, cached⟩ := state
  have hread : Sound ⟨second, cached⟩ log := ⟨hsecond, h.standing⟩
  cases cached with
  | none => exact store_answers hread hfold hfresh (List.nil_append _).symm rfl
  | some cached =>
    dsimp only
    split
    · exact store_answers hread hfold hfresh (List.nil_append _).symm rfl
    · rename_i hcurrent
      rw [not_or, not_not, not_lt] at hcurrent
      obtain ⟨front, back, early, hlog, hearly, hsame, hdescribes⟩ := h.standing cached rfl
      subst hlog
      have hgrow := (runFold_nodes_grow hearly hfold).2 (hsame.symm.trans hcurrent.1)
      obtain ⟨more, hmore⟩ := hgrow
      have hgrown := hdescribes.grow back (runFold_nodes_lt hearly)
      have hlength : cached.cutBalanced.length - 1 = early.state.nodes.length := by
        obtain ⟨cuts, hcuts, hbalanced⟩ := hdescribes.cuts
        rw [hbalanced, List.length_cons, Nat.add_sub_cancel]
        exact pendingCuts_length hcuts
      split
      · exact store_answers hread hfold hgrown hmore.symm hcurrent.1
      · rename_i hdone
        have hnil : more = [] := by
          rw [← hmore, hlength, List.length_append] at hdone
          exact List.eq_nil_of_length_eq_zero (by omega)
        rw [hnil, List.append_nil] at hmore
        refine ⟨hread, nofun, fun found heq => ?_⟩
        cases heq
        rw [← hmore]
        exact hgrown

theorem query_answers (h : state.Sound log) {fold : SurfaceFold} (hfold : runFold log = .ok fold)
    (seq offset : Nat) :
    (state.toolPairingBalanced seq offset).1 = cutBalance log fold.state.nodes seq offset ∧
      (state.toolPairingBalanced seq offset).2.Sound log := by
  obtain ⟨hsound, hfailed, hanswered⟩ := balanceCache_answers h hfold
  unfold toolPairingBalanced
  generalize state.balanceCache = result at hsound hfailed hanswered
  obtain ⟨answer, after⟩ := result
  cases answer with
  | error message =>
    exact ⟨(cutBalance_error (hfailed message rfl).2 seq offset).symm, hsound⟩
  | ok cache => exact ⟨(hanswered cache rfl).query seq offset, hsound⟩

theorem step_sound (h : state.Sound log) (op : BalanceOp) :
    ∃ next, (state.step op).1.Sound next := by
  cases op with
  | session op =>
    obtain ⟨-, hrepresents⟩ := h.represents.step op
    have hgrown : ∃ more, (log.step op).1 = log ++ more := by
      cases op with
      | read read => exact ⟨[], (List.append_nil _).symm⟩
      | append candidate dispatch =>
        change ∃ more, (log.append candidate dispatch).2 = log ++ more
        unfold EventLog.append
        split
        · exact ⟨[], (List.append_nil _).symm⟩
        · split
          · exact ⟨[], (List.append_nil _).symm⟩
          · exact ⟨_, rfl⟩
    obtain ⟨more, hmore⟩ := hgrown
    refine ⟨(log.step op).1, hrepresents, fun cache heq => ?_⟩
    rw [hmore]
    exact (h.standing cache heq).append more
  | before seq =>
    obtain ⟨fold, hfold⟩ := h.represents.accepted
    exact ⟨log, (query_answers h hfold seq 0).2⟩
  | after seq =>
    obtain ⟨fold, hfold⟩ := h.represents.accepted
    exact ⟨log, (query_answers h hfold seq 1).2⟩

theorem run_sound {log : EventLog} {session : Session} (h : session.Represents log)
    (ops : List BalanceOp) :
    ∃ next, (transcript BalancedSession.step ⟨session, none⟩ ops).1.Sound next := by
  have hstart : ∃ log, (BalancedSession.mk session none).Sound log :=
    ⟨log, h, fun _ heq => by cases heq⟩
  refine transcript_invariant (fun state : BalancedSession => ∃ log, state.Sound log) ?_ ops hstart
  rintro state op ⟨log, hsound⟩
  exact step_sound hsound op

end BalancedSession

end Harness
