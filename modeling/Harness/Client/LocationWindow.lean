import Harness.Client.LocationOutline
import Harness.Session.Invariant

namespace Harness.Client

open Harness.Foundation

def fromStart : CurrentPlace := ⟨none, none⟩

def currentAfter (current : CurrentPlace) (events : List SessionEvent) : CurrentPlace :=
  events.foldl (fun current event => (place current event.data).2.finish event.data) current

def placeAll (current : CurrentPlace) : List SessionEvent → List Outline.Placed
  | [] => []
  | event :: rest =>
    let (coordinates, now) := place current event.data
    (event, coordinates) :: placeAll (now.finish event.data) rest

theorem placeAll_append (current : CurrentPlace) (before after : List SessionEvent) :
    placeAll current (before ++ after) =
      placeAll current before ++ placeAll (currentAfter current before) after := by
  induction before generalizing current with
  | nil => rfl
  | cons event rest ih => exact congrArg (_ :: ·) (ih _)

theorem events_placeAll (current : CurrentPlace) (events : List SessionEvent) :
    (placeAll current events).map Prod.fst = events := by
  induction events generalizing current with
  | nil => rfl
  | cons event rest ih => exact congrArg (_ :: ·) (ih _)

theorem mem_placeAll {current : CurrentPlace} {events : List SessionEvent} {placed : Outline.Placed}
    (h : placed ∈ placeAll current events) : placed.1 ∈ events := by
  rw [← events_placeAll current events]
  exact List.mem_map_of_mem h

theorem exists_placed {current : CurrentPlace} {events : List SessionEvent} {event : SessionEvent}
    (h : event ∈ events) : ∃ placed ∈ placeAll current events, placed.1 = event := by
  rw [← events_placeAll current events] at h
  exact List.mem_map.mp h

def Numbered : EventData → Prop
  | .turnStart turn => isSafe turn = true
  | .turnEnd turn _ => isSafe turn = true
  | .stepStart turn step => isSafe turn = true ∧ isSafe step = true
  | .stepEnd turn step => isSafe turn = true ∧ isSafe step = true
  | _ => True

theorem place_of_payload {data : EventData} {turn : Nat} {step : Option Nat} (current : CurrentPlace)
    (h : payloadCoordinates data = some ⟨some turn, step⟩) (hstep : isTurnBoundary data = step.isNone) :
    (place current data).1 = ⟨some turn, step⟩ := by
  rw [place, h]
  dsimp only [CurrentPlace.coordinates]
  rw [hstep]
  cases step <;> rfl

theorem safeNat?_nat {n : Nat} (h : isSafe n = true) : (Json.nat n).safeNat? = some n :=
  Json.safeNat?_eq_some.mpr ⟨rfl, h⟩

theorem payload_of {data : EventData} {turn : Nat} {step : Option Nat}
    (hturn : turnField data = some (.nat turn)) (hsafe : isSafe turn = true)
    (hstep : (stepField data).bind Json.safeNat? = step) :
    payloadCoordinates data = some ⟨some turn, step⟩ := by
  rw [payloadCoordinates, hturn, if_neg nofun, hstep, Option.bind_some, safeNat?_nat hsafe]

theorem fits_place {event : SessionEvent} (h : Numbered event.data) (current : CurrentPlace) :
    Fits (event, (place current event.data).1) := by
  rw [Fits]
  dsimp only
  cases hdata : event.data with
  | turnStart turn =>
    rw [hdata] at h
    exact place_of_payload current (payload_of rfl h rfl) rfl
  | turnEnd turn reason =>
    rw [hdata] at h
    exact place_of_payload current (payload_of rfl h rfl) rfl
  | stepStart turn step =>
    rw [hdata] at h
    exact place_of_payload current (payload_of rfl h.1 (safeNat?_nat h.2)) rfl
  | stepEnd turn step =>
    rw [hdata] at h
    exact place_of_payload current (payload_of rfl h.1 (safeNat?_nat h.2)) rfl
  | userMessage | assistantChunk | assistantMessage | toolCall | toolResult | todoWrite
  | requestHeader | requestContext | endSeed | plugin => trivial

theorem fits_placeAll {events : List SessionEvent} (h : ∀ event ∈ events, Numbered event.data)
    (current : CurrentPlace) : ∀ placed ∈ placeAll current events, Fits placed := by
  induction events generalizing current with
  | nil => exact fun _ hplaced => nomatch hplaced
  | cons event rest ih =>
    intro placed hplaced
    cases hplaced with
    | head => exact fits_place (h event List.mem_cons_self) current
    | tail _ hplaced => exact ih (fun e he => h e (List.mem_cons_of_mem event he)) _ placed hplaced

structure Behind (trace : SessionTrace) : Prop where
  idle : 2 * (trace.nextTurn : Int) ≤ trace.lastSeq + 3
  started : ∀ turn, trace.openTurn = some turn →
    turn = trace.nextTurn ∧ 2 * (turn : Int) ≤ trace.lastSeq + 2 ∧
      (trace.nextStep : Int) ≤ trace.lastSeq + 1
  step : ∀ step, trace.openStep = some step → (step : Int) ≤ trace.lastSeq

theorem behind_fresh : Behind freshTrace where
  idle := by decide
  started _ h := nomatch h
  step _ h := nomatch h

theorem Behind.later {trace other : SessionTrace} (h : Behind trace)
    (hlater : trace.lastSeq ≤ other.lastSeq) (hturn : other.openTurn = trace.openTurn)
    (hstep : other.openStep = trace.openStep) (hnext : other.nextTurn = trace.nextTurn)
    (hnextStep : other.nextStep = trace.nextStep) : Behind other where
  idle := by
    rw [hnext]
    exact Int.le_trans h.idle (by omega)
  started turn hopen := by
    rw [hturn] at hopen
    have hstarted := h.started turn hopen
    rw [hnext, hnextStep]
    omega
  step step hopen := by
    rw [hstep] at hopen
    exact Int.le_trans (h.step step hopen) hlater

theorem Behind.advance {trace trace' : SessionTrace} {event : SessionEvent} (h : Behind trace)
    (hseq : trace.lastSeq < event.seq) (hstep : TraceStep trace event trace') :
    trace'.lastSeq = event.seq ∧ Behind trace' ∧ (isSafe event.seq = true → Numbered event.data) := by
  have hidle := h.idle
  have hle := Int.le_of_lt hseq
  cases hstep with
  | turnStart hdata hopen =>
    refine ⟨rfl, ⟨by dsimp only; omega, ?_, fun step hstep => ?_⟩, fun hsafe => ?_⟩
    · rintro turn hturn
      obtain rfl := Option.some.inj hturn
      dsimp only
      omega
    · exact Int.le_trans (h.step step hstep) hle
    · rw [hdata, Numbered, isSafe_iff]
      rw [isSafe_iff] at hsafe
      omega
  | turnEnd turn reason hdata hopen hclosed =>
    obtain ⟨rfl, hturn, _⟩ := h.started turn hopen
    refine ⟨rfl, ⟨by dsimp only; omega, nofun, fun step hstep => ?_⟩, fun hsafe => ?_⟩
    · exact Int.le_trans (h.step step hstep) hle
    · rw [hdata, Numbered, isSafe_iff]
      rw [isSafe_iff] at hsafe
      omega
  | stepStart turn hdata hopen hclosed =>
    obtain ⟨rfl, hturn, hnext⟩ := h.started turn hopen
    refine ⟨rfl, ⟨by dsimp only; omega, fun turn hturn => ?_, fun step hstep => ?_⟩,
      fun hsafe => ?_⟩
    · have hstarted := h.started turn hturn
      dsimp only
      omega
    · obtain rfl := Option.some.inj hstep
      dsimp only
      omega
    · rw [hdata, Numbered, isSafe_iff, isSafe_iff]
      rw [isSafe_iff] at hsafe
      omega
  | stepEnd turn step hdata hopen hstepOpen =>
    obtain ⟨rfl, hturn, hnext⟩ := h.started turn hopen
    have hstep := h.step step hstepOpen
    refine ⟨rfl, ⟨by dsimp only; omega, fun turn hturn => ?_, nofun⟩, fun hsafe => ?_⟩
    · have hstarted := h.started turn hturn
      dsimp only
      omega
    · rw [hdata, Numbered, isSafe_iff, isSafe_iff]
      rw [isSafe_iff] at hsafe
      omega
  | assistantChunk turn step chunk hdata =>
    exact ⟨rfl, h.later hle rfl rfl rfl rfl, fun _ => hdata ▸ trivial⟩
  | assistantMessage turn step message usage interrupted hdata =>
    exact ⟨rfl, h.later hle rfl rfl rfl rfl, fun _ => hdata ▸ trivial⟩
  | toolCall turn step callId name arguments hdata =>
    exact ⟨rfl, h.later hle rfl rfl rfl rfl, fun _ => hdata ▸ trivial⟩
  | toolResult data hdata =>
    exact ⟨rfl, h.later hle rfl rfl rfl rfl, fun _ => hdata ▸ trivial⟩
  | rewrite data turn hdata =>
    exact ⟨rfl, h.later hle rfl rfl rfl rfl, fun _ => hdata ▸ trivial⟩
  | enclosed turn hkind =>
    refine ⟨rfl, h.later hle rfl rfl rfl rfl, fun _ => ?_⟩
    cases hdata : event.data <;> rw [hdata] at hkind <;> trivial
  | free hkind =>
    refine ⟨rfl, h.later hle rfl rfl rfl rfl, fun _ => ?_⟩
    cases hdata : event.data <;> rw [hdata] at hkind <;> trivial

structure Ascending (events : List SessionEvent) : Prop where
  seqs : events.Pairwise fun earlier later => earlier.seq < later.seq
  numbered : ∀ event ∈ events, Numbered event.data

structure Promised (seen : List SessionEvent) (trace : SessionTrace) : Prop where
  seqs : seen.Pairwise fun earlier later => earlier.seq < later.seq
  bound : ∀ event ∈ seen, (event.seq : Int) ≤ trace.lastSeq
  behind : Behind trace
  numbered : ∀ event ∈ seen, isSafe event.seq = true → Numbered event.data

theorem Promised.advance {seen : List SessionEvent} {trace trace' : SessionTrace}
    {event : SessionEvent} (h : Promised seen trace) (hadvance : trace.advance event = .ok trace') :
    Promised (seen ++ [event]) trace' := by
  obtain ⟨hseq, hstep⟩ := SessionTrace.advance_step hadvance
  obtain ⟨hlast, hnext, hevent⟩ := h.behind.advance hseq hstep
  have hearlier : ∀ earlier ∈ seen, earlier.seq < event.seq := fun earlier hmem =>
    Int.ofNat_lt.mp (Int.lt_of_le_of_lt (h.bound earlier hmem) hseq)
  constructor
  · rw [List.pairwise_append]
    refine ⟨h.seqs, List.pairwise_singleton _ _, fun earlier hmem later hlater => ?_⟩
    rw [List.mem_singleton.mp hlater]
    exact hearlier earlier hmem
  · intro other hother
    rw [hlast]
    rcases List.mem_append.mp hother with hmem | hmem
    · exact Int.ofNat_le.mpr (Nat.le_of_lt (hearlier other hmem))
    · rw [List.mem_singleton.mp hmem]
  · exact hnext
  · intro other hother
    rcases List.mem_append.mp hother with hmem | hmem
    · exact h.numbered other hmem
    · rw [List.mem_singleton.mp hmem]
      exact hevent

theorem promised_nil : Promised [] freshTrace where
  seqs := .nil
  bound _ hmem := by cases hmem
  behind := behind_fresh
  numbered _ hmem := by cases hmem

theorem ascending_of_trace {log : List SessionEvent} {trace : SessionTrace}
    (h : seedSession log = .ok trace) (hsafe : ∀ event ∈ log, isSafe event.seq = true) :
    Ascending log := by
  have hpromised : Promised log trace :=
    foldOk_invariant Promised (fun _ _ _ _ hseen hadvance => hseen.advance hadvance) h promised_nil
  exact ⟨hpromised.seqs, fun event hevent => hpromised.numbered event hevent (hsafe event hevent)⟩

structure Window (events : List SessionEvent) : Prop where
  traced : ∃ log trace, events <:+: log ∧ seedSession log = .ok trace ∧
    ∀ event ∈ log, isSafe event.seq = true

theorem Window.ascending {events : List SessionEvent} (h : Window events) : Ascending events := by
  obtain ⟨log, trace, hpart, htrace, hsafe⟩ := h.traced
  have hlog := ascending_of_trace htrace hsafe
  exact ⟨hlog.seqs.sublist hpart.sublist, fun event hevent => hlog.numbered event (hpart.subset hevent)⟩

end Harness.Client
