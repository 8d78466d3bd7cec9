import Harness.Client.LocationDrafts
import Harness.Client.LocationWindow

namespace Harness.Client

open Harness.Foundation

namespace LocationIndex

variable (index : LocationIndex)

structure SameFacts (index other : LocationIndex) : Prop where
  coordinates : other.coordinates = index.coordinates
  timeline : other.timeline = index.timeline
  current : other.current = index.current

theorem SameFacts.resolve {index other : LocationIndex} (h : SameFacts index other) (seq : Nat) :
    other.resolve seq = index.resolve seq := by
  rw [LocationIndex.resolve, LocationIndex.resolve, h.coordinates, h.timeline]

def seqsOf (turn : Nat) : List Nat := (index.seqsByTurn.get? turn).getD []

theorem seqsOf_indexTurnSeq (turn seq other : Nat) :
    (index.indexTurnSeq turn seq).seqsOf other =
      if other = turn then insertLast (index.seqsOf turn) seq else index.seqsOf other := by
  rw [seqsOf, indexTurnSeq, OrderedMap.get?_set]
  split <;> rfl

theorem locations_relocate (seq other : Nat) :
    (index.relocate seq).locations.get? other =
      if other = seq then some (index.resolve seq) else index.locations.get? other :=
  OrderedMap.get?_set _ _ _ _

theorem relocateAll (seqs : List Nat) :
    SameFacts index (seqs.foldl relocate index) ∧
      (seqs.foldl relocate index).seqsByTurn = index.seqsByTurn ∧
      ∀ seq, (seqs.foldl relocate index).locations.get? seq =
        if seq ∈ seqs then some (index.resolve seq) else index.locations.get? seq := by
  induction seqs using List.reverseRecOn with
  | nil => exact ⟨⟨rfl, rfl, rfl⟩, rfl, fun _ => rfl⟩
  | append_singleton seqs last ih =>
    obtain ⟨hsame, hseqs, hlocations⟩ := ih
    rw [List.foldl_append, List.foldl_cons, List.foldl_nil]
    refine ⟨⟨hsame.coordinates, hsame.timeline, hsame.current⟩, hseqs, fun seq => ?_⟩
    rw [locations_relocate, hlocations, hsame.resolve]
    by_cases hlast : seq = last
    · rw [if_pos hlast, hlast, if_pos (List.mem_append_right seqs (List.mem_singleton_self last))]
    · rw [if_neg hlast]
      refine if_congr ?_ rfl rfl
      rw [List.mem_append, List.mem_singleton, or_iff_left hlast]

theorem SameFacts.trans {index other next : LocationIndex} (h : SameFacts index other)
    (hnext : SameFacts other next) : SameFacts index next :=
  ⟨hnext.coordinates.trans h.coordinates, hnext.timeline.trans h.timeline,
    hnext.current.trans h.current⟩

theorem indexEvent_spec {event : SessionEvent} {coordinates : Coordinates}
    (h : index.coordinates.get? event.seq = some coordinates) :
    SameFacts index (index.indexEvent event) ∧
      (∀ turn, ∀ seq ∈ index.seqsOf turn, seq ∈ (index.indexEvent event).seqsOf turn) ∧
      (∀ turn, coordinates.turn = some turn → event.seq ∈ (index.indexEvent event).seqsOf turn) ∧
      ∀ seq, (index.indexEvent event).locations.get? seq =
        if seq = event.seq then some (Client.resolve index.timeline (some coordinates))
        else index.locations.get? seq := by
  rw [indexEvent, h, Option.bind_some]
  cases hturn : coordinates.turn with
  | none =>
    refine ⟨⟨rfl, rfl, rfl⟩, fun _ _ hseq => hseq, nofun, fun seq => ?_⟩
    dsimp only
    rw [locations_relocate, LocationIndex.resolve, h]
  | some turn =>
    have hseqs : ((index.indexTurnSeq turn event.seq).relocate event.seq).seqsOf =
        (index.indexTurnSeq turn event.seq).seqsOf := rfl
    refine ⟨⟨rfl, rfl, rfl⟩, fun other seq hseq => ?_, fun other hother => ?_, fun seq => ?_⟩
    · dsimp only
      rw [hseqs, seqsOf_indexTurnSeq]
      split
      · next heq => exact mem_insertLast.mpr (.inl (heq ▸ hseq))
      · exact hseq
    · dsimp only
      rw [hseqs, seqsOf_indexTurnSeq, if_pos (Option.some.inj hother).symm]
      exact mem_insertLast.mpr (.inr rfl)
    · dsimp only
      rw [locations_relocate]
      have hresolve : (index.indexTurnSeq turn event.seq).resolve event.seq =
          Client.resolve index.timeline (some coordinates) := by
        rw [LocationIndex.resolve, ← h]
        rfl
      rw [hresolve]
      rfl

theorem indexAll {index : LocationIndex} (placed : List Outline.Placed)
    (h : ∀ p ∈ placed, index.coordinates.get? p.1.seq = some p.2) :
    SameFacts index ((placed.map Prod.fst).foldl indexEvent index) ∧
      (∀ p ∈ placed, ∀ turn, p.2.turn = some turn →
        p.1.seq ∈ ((placed.map Prod.fst).foldl indexEvent index).seqsOf turn) ∧
      ∀ p ∈ placed, ((placed.map Prod.fst).foldl indexEvent index).locations.get? p.1.seq =
        some (Client.resolve index.timeline (some p.2)) := by
  induction placed using List.reverseRecOn with
  | nil => exact ⟨⟨rfl, rfl, rfl⟩, List.forall_mem_nil _, List.forall_mem_nil _⟩
  | append_singleton placed last ih =>
    obtain ⟨hsame, hmembers, hlocations⟩ := ih fun p hp => h p (List.mem_append_left _ hp)
    have hlast := h last (List.mem_append_right placed (List.mem_singleton_self last))
    rw [List.map_append, List.foldl_append, List.map_singleton, List.foldl_cons, List.foldl_nil]
    generalize (placed.map Prod.fst).foldl indexEvent index = indexed at hsame hmembers hlocations
    obtain ⟨hevent, hevents, hown, hlocation⟩ := indexEvent_spec indexed (hsame.coordinates ▸ hlast)
    refine ⟨hsame.trans hevent, fun p hp turn hturn => ?_, fun p hp => ?_⟩
    · rcases List.mem_append.mp hp with hmem | hmem
      · exact hevents turn _ (hmembers p hmem turn hturn)
      · rw [List.mem_singleton.mp hmem] at hturn ⊢
        exact hown turn hturn
    · rw [hlocation]
      split
      · next heq =>
        have hcoordinates := h p hp
        rw [heq, hlast, Option.some.injEq] at hcoordinates
        rw [hsame.timeline, hcoordinates]
      · next hne =>
        rcases List.mem_append.mp hp with hmem | hmem
        · exact hlocations p hmem
        · exact absurd (congrArg (fun p => p.1.seq) (List.mem_singleton.mp hmem)) hne

end LocationIndex

def placedOf (events : List SessionEvent) : List Outline.Placed := placeAll fromStart events

def outlineOf (events : List SessionEvent) : Outline := Outline.empty.observeAll (placedOf events)

def scanAll (events : List SessionEvent) : Scan := events.foldl scanEvent ⟨.empty, .empty, fromStart⟩

theorem Ascending.left {before after : List SessionEvent} (h : Ascending (before ++ after)) :
    Ascending before :=
  ⟨(List.pairwise_append.mp h.seqs).1, fun event hevent =>
    h.numbered event (List.mem_append_left after hevent)⟩

theorem Ascending.before_last {events : List SessionEvent} {last : SessionEvent}
    (h : Ascending (events ++ [last])) : ∀ event ∈ events, event.seq < last.seq :=
  fun event hevent => (List.pairwise_append.mp h.seqs).2.2 event hevent last (List.mem_singleton_self last)

theorem Ascending.tidy {events : List SessionEvent} (h : Ascending events) : (outlineOf events).Tidy :=
  Outline.tidy_empty.observeAll (fits_placeAll h.numbered fromStart)

theorem placedOf_snoc (events : List SessionEvent) (last : SessionEvent) :
    placedOf (events ++ [last]) =
      placedOf events ++ [(last, (place (currentAfter fromStart events) last.data).1)] :=
  placeAll_append fromStart events [last]

theorem outlineOf_snoc (events : List SessionEvent) (last : SessionEvent) :
    outlineOf (events ++ [last]) =
      (outlineOf events).observe (last, (place (currentAfter fromStart events) last.data).1) := by
  rw [outlineOf, placedOf_snoc, Outline.observeAll, List.foldl_append]
  rfl

theorem currentAfter_snoc (current : CurrentPlace) (events : List SessionEvent) (last : SessionEvent) :
    currentAfter current (events ++ [last]) =
      (place (currentAfter current events) last.data).2.finish last.data :=
  List.foldl_append

structure Scanned (events : List SessionEvent) (scan : Scan) : Prop where
  current : scan.current = currentAfter fromStart events
  coordinates : ∀ p ∈ placedOf events, scan.coordinates.get? p.1.seq = some p.2
  drawn : ∀ seq, (∀ event ∈ events, event.seq ≤ seq) → Drawn scan.turns (outlineOf events) seq

theorem drawn_empty (seq : Nat) : Drawn .empty .empty seq :=
  ⟨⟨fun _ => 0, fun _ _ => 0⟩, rfl, .nil, List.forall_mem_nil _, fun _ => .nil,
    fun _ => List.forall_mem_nil _⟩

theorem scanned {events : List SessionEvent} (h : Ascending events) : Scanned events (scanAll events) := by
  induction events using List.reverseRecOn with
  | nil => exact ⟨rfl, List.forall_mem_nil _, fun seq _ => drawn_empty seq⟩
  | append_singleton events last ih =>
    have hbefore := ih h.left
    have hearlier := h.before_last
    rw [scanAll, List.foldl_append, List.foldl_cons, List.foldl_nil, ← scanAll]
    generalize scanAll events = scan at hbefore
    refine ⟨?_, fun p hp => ?_, fun seq hseq => ?_⟩
    · rw [currentAfter_snoc, ← hbefore.current]
      rfl
    · rw [placedOf_snoc, ← hbefore.current] at hp
      refine (OrderedMap.get?_set scan.coordinates last.seq _ p.1.seq).trans ?_
      rcases List.mem_append.mp hp with hmem | hmem
      · have hne : p.1.seq ≠ last.seq := Nat.ne_of_lt (hearlier p.1 (mem_placeAll hmem))
        rw [if_neg hne]
        exact hbefore.coordinates p hmem
      · rw [List.mem_singleton.mp hmem]
        exact if_pos rfl
    · have hfits := fits_place (h.numbered last (List.mem_append_right _ (List.mem_singleton_self last)))
        (currentAfter fromStart events)
      have hdrawn := (hbefore.drawn last.seq fun event hevent =>
        Nat.le_of_lt (hearlier event hevent)).draftEvent h.left.tidy (Nat.le_refl last.seq) hfits
      rw [outlineOf_snoc, ← hbefore.current] at *
      exact hdrawn.later (hseq last (List.mem_append_right _ (List.mem_singleton_self last)))

structure Indexed (index : LocationIndex) (placed : List Outline.Placed) (outline : Outline) :
    Prop where
  timeline : index.timeline = outline.timeline
  coordinates : ∀ p ∈ placed, index.coordinates.get? p.1.seq = some p.2
  members : ∀ p ∈ placed, ∀ turn, p.2.turn = some turn → p.1.seq ∈ index.seqsOf turn
  locations : ∀ p ∈ placed,
    index.locations.get? p.1.seq = some (resolve outline.timeline (some p.2))

theorem Indexed.locationOf {index : LocationIndex} {placed : List Outline.Placed} {outline : Outline}
    (h : Indexed index placed outline) {p : Outline.Placed} (hp : p ∈ placed) :
    index.locationOf p.1 = resolve outline.timeline (some p.2) := by
  rw [LocationIndex.locationOf, h.locations p hp, Option.getD_some]

theorem indexed_rebuilt {events : List SessionEvent} (h : Ascending events) (index : LocationIndex) :
    Indexed (index.rebuilt events).1 (placedOf events) (outlineOf events) ∧
      (index.rebuilt events).1.current = currentAfter fromStart events := by
  have hscanned := scanned h
  have htimeline : timelineOf (scanAll events).turns = (outlineOf events).timeline :=
    (hscanned.drawn (events.map SessionEvent.seq).sum fun event hevent =>
      List.single_le_sum (fun _ _ => Nat.zero_le _) _ (List.mem_map_of_mem hevent)).timelineOf
  obtain ⟨hsame, hmembers, hlocations⟩ := @LocationIndex.indexAll
    { coordinates := (scanAll events).coordinates
      locations := .empty
      seqsByTurn := .empty
      timeline := timelineOf (scanAll events).turns
      current := (scanAll events).current } (placedOf events) hscanned.coordinates
  have hevents : (placedOf events).map Prod.fst = events := events_placeAll fromStart events
  rw [hevents] at hsame hmembers hlocations
  refine ⟨⟨hsame.timeline.trans htimeline, ?_, hmembers, ?_⟩, hsame.current.trans hscanned.current⟩
  · intro p hp
    exact (congrArg (·.get? p.1.seq) hsame.coordinates).trans (hscanned.coordinates p hp)
  · rw [← htimeline]
    exact hlocations

section Append

variable {index : LocationIndex} {placed : List Outline.Placed} {outline : Outline}
  {event : SessionEvent}

theorem finish_of_not_boundary (current : CurrentPlace) {data : EventData}
    (h : isBoundary data = false) : current.finish data = current := by
  cases data with
  | turnStart | turnEnd | stepStart | stepEnd => cases h
  | userMessage | assistantChunk | assistantMessage | toolCall | toolResult | todoWrite
  | requestHeader | requestContext | endSeed | plugin => rfl

theorem Indexed.appendNonBoundary (h : Indexed index placed outline)
    (hboundary : isBoundary event.data = false) (hnew : ∀ p ∈ placed, p.1.seq ≠ event.seq) :
    Indexed (index.appendNonBoundary event)
        (placed ++ [(event, (place index.current event.data).1)]) outline ∧
      (index.appendNonBoundary event).current =
        (place index.current event.data).2.finish event.data := by
  generalize hplace : place index.current event.data = found
  obtain ⟨coordinates, current⟩ := found
  have hown : (index.coordinates.set event.seq coordinates).get? event.seq = some coordinates :=
    OrderedMap.get?_set_self _ _ _
  have hspec := LocationIndex.indexEvent_spec
    { index with coordinates := index.coordinates.set event.seq coordinates, current } hown
  have hsame : index.appendNonBoundary event = LocationIndex.indexEvent
      { index with coordinates := index.coordinates.set event.seq coordinates, current } event := by
    rw [LocationIndex.appendNonBoundary, hplace, LocationIndex.indexEvent, hown]
    rfl
  rw [hsame, finish_of_not_boundary _ hboundary]
  obtain ⟨hfacts, hmembers, hmember, hlocations⟩ := hspec
  refine ⟨⟨hfacts.timeline.trans h.timeline, fun p hp => ?_, fun p hp turn hturn => ?_,
    fun p hp => ?_⟩, hfacts.current⟩
  · rw [hfacts.coordinates, OrderedMap.get?_set]
    rcases List.mem_append.mp hp with hmem | hmem
    · rw [if_neg (hnew p hmem)]
      exact h.coordinates p hmem
    · rw [List.mem_singleton.mp hmem]
      exact if_pos rfl
  · rcases List.mem_append.mp hp with hmem | hmem
    · exact hmembers turn _ (h.members p hmem turn hturn)
    · rw [List.mem_singleton.mp hmem] at hturn ⊢
      exact hmember turn hturn
  · rw [hlocations]
    rcases List.mem_append.mp hp with hmem | hmem
    · rw [if_neg (hnew p hmem)]
      exact h.locations p hmem
    · rw [List.mem_singleton.mp hmem, if_pos rfl]
      exact congrArg (fun timeline => some (resolve timeline (some coordinates))) h.timeline

theorem resolve_appendTurn {timeline : ConversationTimeline} {turn : Nat} {coordinates : Coordinates}
    (h : coordinates.turn ≠ some turn) :
    resolve (appendTurn timeline turn event) (some coordinates) =
      resolve timeline (some coordinates) := by
  rw [resolve, resolve, Option.bind_some]
  cases hturn : coordinates.turn with
  | none => rfl
  | some number =>
    have hne : number ≠ turn := fun heq => h (heq ▸ hturn)
    dsimp only [appendTurn]
    rw [OrderedMap.get?_set, if_neg hne]

theorem turn_of_boundary {placed : Outline.Placed} (hfits : Fits placed)
    (hboundary : isBoundary placed.1.data = true) : ∃ turn, placed.2.turn = some turn := by
  rw [Fits] at hfits
  cases hdata : placed.1.data with
  | turnStart turn | turnEnd turn | stepStart turn | stepEnd turn =>
    rw [hdata] at hfits
    exact ⟨turn, congrArg Coordinates.turn hfits⟩
  | userMessage | assistantChunk | assistantMessage | toolCall | toolResult | todoWrite
  | requestHeader | requestContext | endSeed | plugin =>
    rw [hdata] at hboundary
    cases hboundary

/-- The index once a boundary has been placed and its turn changed, and nothing relocated yet. -/
def LocationIndex.advanced (index : LocationIndex) (event : SessionEvent)
    (coordinates : Coordinates) (turn : Nat) : LocationIndex :=
  { LocationIndex.indexTurnSeq
      { index with coordinates := index.coordinates.set event.seq coordinates } turn event.seq with
    timeline := appendTurn index.timeline turn event }

theorem appendBoundary_eq {turn : Nat} (hboundary : isBoundary event.data = true)
    (hturn : (place index.current event.data).1.turn = some turn) :
    let advanced := index.advanced event (place index.current event.data).1 turn
    let relocated := (advanced.seqsOf turn).foldl LocationIndex.relocate advanced
    index.appendBoundary event = .ok
      ({ relocated with current := (place index.current event.data).2.finish event.data },
        (advanced.seqsOf turn).filter fun seq =>
          index.locations.get? seq ≠ relocated.locations.get? seq) := by
  intro advanced relocated
  rw [LocationIndex.appendBoundary, if_pos hboundary]
  dsimp only
  rw [hturn]
  rfl

theorem Indexed.appendBoundary (h : Indexed index placed outline) (htidy : outline.Tidy)
    (hboundary : isBoundary event.data = true)
    (hfits : Fits (event, (place index.current event.data).1))
    (hnew : ∀ p ∈ placed, p.1.seq ≠ event.seq) :
    ∃ next changed, index.appendBoundary event = .ok (next, changed) ∧
      Indexed next (placed ++ [(event, (place index.current event.data).1)])
        (outline.observe (event, (place index.current event.data).1)) ∧
      next.current = (place index.current event.data).2.finish event.data := by
  obtain ⟨turn, hturn⟩ := turn_of_boundary hfits hboundary
  refine ⟨_, _, appendBoundary_eq hboundary hturn, ?_, rfl⟩
  dsimp only at hturn
  have htimeline := appendTurn_timeline htidy hfits hboundary hturn
  rw [← h.timeline] at htimeline
  generalize (place index.current event.data).1 = coordinates at *
  obtain ⟨hsame, hseqs, hlocations⟩ := LocationIndex.relocateAll (index.advanced event coordinates turn)
    ((index.advanced event coordinates turn).seqsOf turn)
  have hmembers (other : Nat) : (index.advanced event coordinates turn).seqsOf other =
      if other = turn then insertLast (index.seqsOf turn) event.seq else index.seqsOf other :=
    LocationIndex.seqsOf_indexTurnSeq _ turn event.seq other
  have hcoordinates : ∀ p ∈ placed ++ [(event, coordinates)],
      (index.advanced event coordinates turn).coordinates.get? p.1.seq = some p.2 := by
    intro p hp
    refine (OrderedMap.get?_set index.coordinates event.seq coordinates p.1.seq).trans ?_
    rcases List.mem_append.mp hp with hmem | hmem
    · rw [if_neg (hnew p hmem)]
      exact h.coordinates p hmem
    · rw [List.mem_singleton.mp hmem]
      exact if_pos rfl
  have hmember : ∀ p ∈ placed ++ [(event, coordinates)], ∀ number, p.2.turn = some number →
      p.1.seq ∈ (index.advanced event coordinates turn).seqsOf number := by
    intro p hp number hnumber
    rw [hmembers]
    rcases List.mem_append.mp hp with hmem | hmem
    · have hold := h.members p hmem number hnumber
      split
      · next heq => exact mem_insertLast.mpr (.inl (heq ▸ hold))
      · exact hold
    · rw [List.mem_singleton.mp hmem, hturn] at hnumber
      rw [List.mem_singleton.mp hmem, if_pos (Option.some.inj hnumber).symm]
      exact mem_insertLast.mpr (.inr rfl)
  refine ⟨hsame.timeline.trans htimeline, fun p hp => ?_, fun p hp number hnumber => ?_,
    fun p hp => ?_⟩
  · exact (congrArg (·.get? p.1.seq) hsame.coordinates).trans (hcoordinates p hp)
  · rw [LocationIndex.seqsOf]
    dsimp only
    rw [hseqs]
    exact hmember p hp number hnumber
  · refine (hlocations p.1.seq).trans ?_
    split
    · rw [LocationIndex.resolve, hcoordinates p hp, ← htimeline]
      rfl
    · next hother =>
      have hne : p.2.turn ≠ some turn := fun heq => hother (hmember p hp turn heq)
      rcases List.mem_append.mp hp with hmem | hmem
      · rw [← htimeline, resolve_appendTurn hne, h.timeline]
        exact h.locations p hmem
      · rw [List.mem_singleton.mp hmem] at hne
        exact absurd hturn hne

theorem Indexed.append (h : Indexed index placed outline) (htidy : outline.Tidy)
    (hreadable : readable event.data = true)
    (hfits : Fits (event, (place index.current event.data).1))
    (hnew : ∀ p ∈ placed, p.1.seq ≠ event.seq) :
    ∃ next changed, index.append event = .ok (next, changed) ∧
      Indexed next (placed ++ [(event, (place index.current event.data).1)])
        (outline.observeAll (Outline.boundariesOf [(event, (place index.current event.data).1)])) ∧
      next.current = (place index.current event.data).2.finish event.data := by
  rw [LocationIndex.append, hreadable, require_true, ok_bind, Outline.boundariesOf,
    List.filter_singleton]
  cases hboundary : isBoundary event.data with
  | true => exact h.appendBoundary htidy hboundary hfits hnew
  | false => exact ⟨_, [], rfl, h.appendNonBoundary hboundary hnew⟩

theorem append_reports {next : LocationIndex} {changed : List Nat} {seq : Nat}
    (h : index.append event = .ok (next, changed)) (hne : seq ≠ event.seq)
    (hchanged : index.locations.get? seq ≠ next.locations.get? seq) : seq ∈ changed := by
  obtain ⟨_, _, h⟩ := bind_eq_ok.mp h
  cases hboundary : isBoundary event.data with
  | true =>
    rw [hboundary, if_pos rfl] at h
    cases hturn : (place index.current event.data).1.turn with
    | none =>
      rw [LocationIndex.appendBoundary, if_pos hboundary] at h
      dsimp only at h
      rw [hturn] at h
      cases h
    | some turn =>
      rw [appendBoundary_eq hboundary hturn] at h
      obtain ⟨rfl, rfl⟩ := Prod.mk.inj (Except.ok.inj h)
      have hrelocated := (LocationIndex.relocateAll
        (index.advanced event (place index.current event.data).1 turn)
        ((index.advanced event (place index.current event.data).1 turn).seqsOf turn)).2.2 seq
      rw [List.mem_filter]
      refine ⟨?_, decide_eq_true hchanged⟩
      by_contra hother
      rw [if_neg hother] at hrelocated
      exact hchanged hrelocated.symm
  | false =>
    rw [hboundary, if_neg nofun] at h
    obtain ⟨rfl, rfl⟩ := Prod.mk.inj (Except.ok.inj h)
    refine absurd ?_ hchanged
    refine Eq.symm ((LocationIndex.locations_relocate _ event.seq seq).trans ((if_neg hne).trans ?_))
    dsimp only
    split <;> rfl

end Append

section Window

variable {before after : List SessionEvent}

def appendedOf (before after : List SessionEvent) : List Outline.Placed :=
  placeAll (currentAfter fromStart before) after

def appendedOutline (before after : List SessionEvent) : Outline :=
  (outlineOf before).observeAll (Outline.boundariesOf (appendedOf before after))

theorem placedOf_append (before after : List SessionEvent) :
    placedOf (before ++ after) = placedOf before ++ appendedOf before after :=
  placeAll_append fromStart before after

theorem appendedOutline_tidy (h : Ascending (before ++ after)) : (appendedOutline before after).Tidy := by
  apply h.left.tidy.observeAll
  intro p hp
  apply fits_placeAll h.numbered fromStart
  rw [← placedOf, placedOf_append]
  exact List.mem_append_right _ (List.mem_of_mem_filter hp)

theorem appendedOutline_snoc (before after : List SessionEvent) (last : SessionEvent) :
    appendedOutline before (after ++ [last]) = (appendedOutline before after).observeAll
      (Outline.boundariesOf [(last, (place (currentAfter fromStart (before ++ after)) last.data).1)]) := by
  have happended : appendedOf before (after ++ [last]) = appendedOf before after ++
      [(last, (place (currentAfter fromStart (before ++ after)) last.data).1)] := by
    rw [appendedOf, placeAll_append, currentAfter, currentAfter, ← List.foldl_append]
    rfl
  rw [appendedOutline, happended, Outline.boundariesOf, List.filter_append, Outline.observeAll,
    List.foldl_append]
  rfl

theorem indexed_appendAll (h : Ascending (before ++ after))
    (hreadable : ∀ event ∈ after, readable event.data = true) (start : LocationIndex) :
    ∃ last, (start.rebuilt before).1.appendAll after = .ok last ∧
      Indexed last (placedOf (before ++ after)) (appendedOutline before after) ∧
      last.current = currentAfter fromStart (before ++ after) := by
  induction after using List.reverseRecOn with
  | nil =>
    rw [List.append_nil] at h ⊢
    obtain ⟨hindexed, hcurrent⟩ := indexed_rebuilt h start
    exact ⟨_, rfl, hindexed, hcurrent⟩
  | append_singleton after event ih =>
    rw [← List.append_assoc] at h ⊢
    obtain ⟨now, hnow, hindexed, hcurrent⟩ :=
      ih h.left fun e he => hreadable e (List.mem_append_left _ he)
    have hlast := List.mem_append_right after (List.mem_singleton_self event)
    have hfits := fits_place (h.numbered event (List.mem_append_right _ (List.mem_singleton_self event)))
      now.current
    have hnew : ∀ p ∈ placedOf (before ++ after), p.1.seq ≠ event.seq := fun p hp =>
      Nat.ne_of_lt (h.before_last p.1 (mem_placeAll hp))
    obtain ⟨next, changed, happend, hnext, hafter⟩ :=
      hindexed.append (appendedOutline_tidy h.left) (hreadable event hlast) hfits hnew
    refine ⟨next, ?_, ?_, ?_⟩
    · rw [LocationIndex.appendAll, foldOk_snoc, ← LocationIndex.appendAll, hnow, ok_bind, happend]
      rfl
    · rwa [placedOf_snoc, appendedOutline_snoc, ← hcurrent]
    · rw [hafter, currentAfter_snoc, hcurrent]

/-- Appending comes to what rebuilding the whole window comes to, and what is reported on the way
has every event that moved. -/
structure FollowsRebuild (start : LocationIndex) (before after : List SessionEvent) : Prop where
  same : ∃ first whole last,
    start.rebuild before = .ok first ∧ start.rebuild (before ++ after) = .ok whole ∧
      first.1.appendAll after = .ok last ∧ last.timeline = whole.1.timeline ∧
      ∀ event ∈ before ++ after, last.locationOf event = whole.1.locationOf event
  rebuilt : ∀ first changed, start.rebuild before = .ok (first, changed) → ∀ event ∈ before,
    start.locationOf event ≠ first.locationOf event → event.seq ∈ changed
  appended : ∀ first changed, start.rebuild before = .ok (first, changed) →
    ∀ done event rest, after = done ++ event :: rest → ∀ now next reported,
      first.appendAll done = .ok now → now.append event = .ok (next, reported) →
        ∀ known ∈ before ++ done, now.locationOf known ≠ next.locationOf known →
          known.seq ∈ reported

/-- What the appended events bring up comes up at their boundaries, and in the same order there. -/
structure SameOrder (before after : List SessionEvent) : Prop where
  turns : Outline.seenTurns (Outline.seenTurns [] (placedOf before)) (appendedOf before after) =
    Outline.seenTurns (Outline.seenTurns [] (placedOf before))
      (Outline.boundariesOf (appendedOf before after))
  steps : ∀ turn,
    Outline.seenSteps turn (Outline.seenSteps turn [] (placedOf before)) (appendedOf before after) =
      Outline.seenSteps turn (Outline.seenSteps turn [] (placedOf before))
        (Outline.boundariesOf (appendedOf before after))

theorem rebuild_eq_ok {start : LocationIndex} {events : List SessionEvent}
    {result : LocationIndex × List Nat} :
    start.rebuild events = .ok result ↔
      (∀ event ∈ events, readable event.data = true) ∧ result = start.rebuilt events := by
  rw [LocationIndex.rebuild, bind_eq_ok]
  simp only [require_eq_ok, List.all_eq_true, pure_eq_ok, Except.ok.injEq, exists_const]
  exact and_congr_right fun _ => eq_comm

/-- The appended timeline is the rebuilt one exactly when everything comes up in the same order. -/
theorem appended_timeline_iff (h : Ascending (before ++ after)) :
    (appendedOutline before after).timeline = (outlineOf (before ++ after)).timeline ↔
      SameOrder before after := by
  have hwhole : outlineOf (before ++ after) = (outlineOf before).observeAll (appendedOf before after) := by
    rw [outlineOf, placedOf_append, Outline.observeAll, List.foldl_append]
    rfl
  have hmarks : Outline.SameMarks (outlineOf (before ++ after)) (appendedOutline before after) := by
    rw [hwhole]
    exact Outline.SameMarks.observeAll ⟨rfl, rfl⟩ _
  have hturns (placed : List Outline.Placed) : ((outlineOf before).observeAll placed).turns =
      Outline.seenTurns (Outline.seenTurns [] (placedOf before)) placed := by
    rw [Outline.turns_observeAll, outlineOf, Outline.turns_observeAll]
    rfl
  have hsteps (placed : List Outline.Placed) (turn : Nat) :
      ((outlineOf before).observeAll placed).steps turn =
        Outline.seenSteps turn (Outline.seenSteps turn [] (placedOf before)) placed := by
    rw [Outline.steps_observeAll, outlineOf, Outline.steps_observeAll]
    rfl
  rw [eq_comm, Outline.timeline_eq_iff hmarks]
  constructor
  · rintro ⟨hturnsEq, hstepsEq⟩
    refine ⟨?_, fun turn => ?_⟩
    · rw [← hturns, ← hturns, ← hwhole]
      exact hturnsEq
    · rw [← hsteps, ← hsteps, ← hwhole]
      by_cases hturn : turn ∈ (outlineOf (before ++ after)).turns
      · exact hstepsEq turn hturn
      · rw [h.tidy.steps turn hturn]
        exact ((appendedOutline_tidy h).steps turn (hturnsEq ▸ hturn)).symm
  · intro hsame
    rw [hwhole]
    refine ⟨?_, fun turn _ => ?_⟩
    · rw [hturns, hsame.turns, ← hturns]
      rfl
    · rw [hsteps, hsame.steps, ← hsteps]
      rfl

theorem FollowsRebuild.readable {start : LocationIndex} (h : FollowsRebuild start before after) :
    ∀ event ∈ before ++ after, readable event.data = true := by
  obtain ⟨first, whole, last, _, hwhole, _⟩ := h.same
  exact (rebuild_eq_ok.mp hwhole).1

theorem FollowsRebuild.sameOrder {start : LocationIndex} (h : FollowsRebuild start before after)
    (hascending : Ascending (before ++ after)) : SameOrder before after := by
  have hreadable := h.readable
  obtain ⟨first, whole, last, hfirst, hwhole, hlast, htimeline, _⟩ := h.same
  rw [(rebuild_eq_ok.mp hfirst).2] at hlast
  rw [(rebuild_eq_ok.mp hwhole).2] at htimeline
  obtain ⟨found, hfound, hindexed, _⟩ := indexed_appendAll hascending
    (fun event hevent => hreadable event (List.mem_append_right before hevent)) start
  obtain rfl := Except.ok.inj (hfound.symm.trans hlast)
  rw [← appended_timeline_iff hascending, ← hindexed.timeline, htimeline]
  exact (indexed_rebuilt hascending start).1.timeline

theorem rebuild_reports {start first : LocationIndex} {changed : List Nat}
    (h : start.rebuild before = .ok (first, changed)) {event : SessionEvent} (hevent : event ∈ before)
    (hmoved : start.locationOf event ≠ first.locationOf event) : event.seq ∈ changed := by
  obtain ⟨rfl, rfl⟩ := Prod.mk.inj (rebuild_eq_ok.mp h).2
  refine List.mem_map_of_mem (List.mem_filter.mpr ⟨hevent, decide_eq_true fun heq => hmoved ?_⟩)
  exact congrArg (·.getD .session) heq

/-- Appending event by event follows the rebuild exactly when the data can be read and everything
comes up in the same order. -/
theorem followsRebuild_iff (h : Window (before ++ after)) (start : LocationIndex) :
    FollowsRebuild start before after ↔
      (∀ event ∈ before ++ after, readable event.data = true) ∧ SameOrder before after := by
  have hascending := h.ascending
  constructor
  · exact fun hfollows => ⟨hfollows.readable, hfollows.sameOrder hascending⟩
  · rintro ⟨hreadable, hsame⟩
    have hbefore : ∀ event ∈ before, readable event.data = true := fun event hevent =>
      hreadable event (List.mem_append_left after hevent)
    obtain ⟨last, hlast, hindexed, _⟩ := indexed_appendAll hascending
      (fun event hevent => hreadable event (List.mem_append_right before hevent)) start
    have hwhole := (indexed_rebuilt hascending start).1
    have htimeline := (appended_timeline_iff hascending).mpr hsame
    refine ⟨⟨_, _, last, rebuild_eq_ok.mpr ⟨hbefore, rfl⟩, rebuild_eq_ok.mpr ⟨hreadable, rfl⟩,
      hlast, ?_, fun event hevent => ?_⟩, fun first changed hfirst event hevent hmoved =>
        rebuild_reports hfirst hevent hmoved, ?_⟩
    · rw [hindexed.timeline, hwhole.timeline, htimeline]
    · obtain ⟨p, hp, rfl⟩ := @exists_placed fromStart _ _ hevent
      rw [hindexed.locationOf hp, hwhole.locationOf hp, htimeline]
    · rintro first changed _ done event rest rfl now next reported _ happend known hknown hmoved
      refine append_reports happend ?_ fun heq => hmoved (congrArg (·.getD .session) heq)
      rw [← List.append_assoc] at hascending
      have hsplit := List.pairwise_append.mp hascending.seqs
      exact Nat.ne_of_lt (hsplit.2.2 known hknown event List.mem_cons_self)

def stepLog : List SessionEvent :=
  [logOnly 0 0 (.turnStart 1), logOnly 1 0 (.stepStart 1 1),
    logOnly 2 0 (.assistantChunk 1 1 (.textDelta 0 "")), logOnly 3 0 (.stepEnd 1 1)]

theorem window_stepLog (first last : List SessionEvent) {events : List SessionEvent}
    (h : first ++ events ++ last = stepLog) : Window events :=
  ⟨stepLog, _, ⟨first, last, h⟩, rfl, by decide⟩

theorem followsRebuild_stepLog :
    FollowsRebuild .fresh ((stepLog.drop 2).take 1) (stepLog.drop 3) :=
  (followsRebuild_iff (window_stepLog (stepLog.take 2) [] rfl) .fresh).mpr
    ⟨by decide, rfl, fun _ => rfl⟩

theorem openStep_not_followed : ¬ ∀ (start : LocationIndex) (before after : List SessionEvent),
    Window (before ++ after) → FollowsRebuild start before after := by
  intro h
  have hwindow : Window ([] ++ (stepLog.take 3).drop 2) :=
    window_stepLog (stepLog.take 2) (stepLog.drop 3) rfl
  have hsame := (h .fresh [] _ hwindow).sameOrder hwindow.ascending
  exact absurd hsame.turns (by decide)

end Window

end Harness.Client
