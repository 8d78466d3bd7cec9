import Harness.Projection.RegistryRuns

namespace Harness.Projection

open Harness.Foundation

variable {State Data View : Type}

/-- Every change goes to each listener that was there, once; the one that is being told may have
listeners to come. -/
structure Delivered (session : ProjectedSession State Data View) : Prop where
  heard : ∀ change ∈ session.changes, change.listeners.Nodup
  untoldOnce : session.untold.Nodup
  subscribed : ∀ listener ∈ session.untold, listener ∈ session.listeners.keys
  apart : ∀ listener ∈ session.untold, ∀ change ∈ session.changes.getLast?,
    listener ∉ change.listeners
  complete : ∀ key registration listener since seq,
    session.registrations.get? key = some registration →
    session.listeners.get? listener = some since → registration.since ≤ seq → since ≤ seq →
    seq < session.log.length → (key ∈ session.awaiting → seq + 1 < session.log.length) →
    registration.definition.view.isSome = true →
    Changed registration.definition session.seedLength session.log seq →
      ∃ change ∈ session.changes, change.serial = registration.serial ∧ change.seq = seq ∧
        (listener ∈ change.listeners ∨
          listener ∈ session.untold ∧ session.changes.getLast? = some change)

namespace Delivered

variable {session after : ProjectedSession State Data View}

theorem entered (log : List Data) (seedLength : Nat) :
    Delivered (.entered log seedLength : ProjectedSession State Data View) where
  heard := List.forall_mem_nil _
  untoldOnce := List.nodup_nil
  subscribed := List.forall_mem_nil _
  apart := List.forall_mem_nil _
  complete := fun _ _ _ _ _ hget => nomatch hget

theorem sameFeed (h : Delivered session) (hsame : SameFeed session after) : Delivered after where
  heard := hsame.changes ▸ h.heard
  untoldOnce := hsame.untold ▸ h.untoldOnce
  subscribed := by
    rw [hsame.untold, hsame.listeners]
    exact h.subscribed
  apart := by
    rw [hsame.untold, hsame.changes]
    exact h.apart
  complete := by
    intro key registration listener since seq hget
    obtain ⟨old, hold, hdefinition, hserial, hsince, -⟩ := hsame.registrations key registration hget
    rw [hsame.listeners, hsame.log, hsame.seedLength, hsame.changes, hserial, hdefinition, hsince,
      hsame.untold, hsame.awaiting key (OrderedMap.mem_keys_of_get? hget)]
    exact h.complete key old listener since seq hold

theorem commit (h : Delivered session) {data : Data} (hcommit : session.commit data = some after) :
    Delivered after := by
  unfold ProjectedSession.commit at hcommit
  split at hcommit
  · rename_i hidle
    have huntold : session.untold = [] := by rw [ProjectedSession.untold, hidle]
    cases hcommit
    refine ⟨h.heard, List.nodup_nil, List.forall_mem_nil _, List.forall_mem_nil _, ?_⟩
    intro key registration listener since seq hget hlistener hsince hsubscribed _ hawaits hview
      hchanged
    have hlt : seq < session.log.length := by
      simpa using hawaits (OrderedMap.mem_keys_of_get? hget)
    have hdriven : key ∈ session.awaiting → seq + 1 < session.log.length := by
      rw [ProjectedSession.awaiting, hidle]
      exact fun hmem => absurd hmem List.not_mem_nil
    obtain ⟨change, hmem, hserial, hseq, hheard⟩ := h.complete key registration listener since seq
      hget hlistener hsince hsubscribed hlt hdriven hview ((changed_snoc hlt).mp hchanged)
    rw [huntold] at hheard
    exact ⟨change, hmem, hserial, hseq, .inl (hheard.resolve_right fun hmem =>
      absurd hmem.1 List.not_mem_nil)⟩
  · cases hcommit

theorem redispatch (h : Delivered session) {dispatch : Dispatch}
    (hawaiting : { session with dispatch }.awaiting = session.awaiting)
    (huntold : { session with dispatch }.untold = session.untold) :
    Delivered { session with dispatch } :=
  h.sameFeed (Tracks.sameFeed_redispatch hawaiting huntold)

theorem startDrive (h : Delivered session) (hstart : session.startDrive = some after) :
    Delivered after := by
  unfold ProjectedSession.startDrive at hstart
  split at hstart
  · rename_i hcommitted
    cases hstart
    apply h.redispatch
    · simp only [ProjectedSession.awaiting, hcommitted]
    · simp only [ProjectedSession.untold, hcommitted]
  · cases hstart

theorem finish (h : Delivered session) (hfinish : session.finish = some after) : Delivered after := by
  unfold ProjectedSession.finish at hfinish
  split at hfinish
  · rename_i hdriven
    cases hfinish
    apply h.redispatch
    · simp only [ProjectedSession.awaiting, hdriven]
    · simp only [ProjectedSession.untold, hdriven]
  · cases hfinish

theorem told (h : Delivered session) (htold : session.told = some after) : Delivered after := by
  unfold ProjectedSession.told at htold
  split at htold
  · rename_i pending hdispatch
    cases htold
    apply h.redispatch
    · simp only [ProjectedSession.awaiting, hdispatch]
    · simp only [ProjectedSession.untold, hdispatch]
  · cases htold

theorem listenerThrows (h : Delivered session) (hdriven : session.awaiting = [])
    (hlast : session.untold = []) (hthrows : session.listenerThrows = some after) :
    Delivered after := by
  unfold ProjectedSession.listenerThrows at hthrows
  split at hthrows
  · cases hthrows
  · cases hthrows
    exact h.redispatch hdriven.symm hlast.symm

theorem register (h : Delivered session) {definition : ProjectionDefinition State Data View}
    (hregister : session.register definition = .ok after) : Delivered after := by
  unfold ProjectedSession.register at hregister
  split at hregister
  · cases hregister
  · split at hregister
    · rename_i hnone
      have hnew := OrderedMap.notMem_keys_of_get? hnone
      cases hregister
      set joined : ProjectedSession State Data View := { session with
        registrations := session.registrations.set definition.key
          { definition, cell := none, refs := 1, serial := session.nextSerial, since := session.log.length }
        nextSerial := session.nextSerial + 1
        dispatch := ProjectedSession.awaitKey definition.key session.dispatch }
      have huntold : joined.untold = session.untold := Tracks.untold_awaitKey definition.key rfl
      have hawaiting : joined.awaiting = session.awaiting ∨
          joined.awaiting = session.awaiting ++ [definition.key] :=
        Tracks.awaiting_register hnew rfl rfl
      constructor
      · exact h.heard
      · rw [huntold]
        exact h.untoldOnce
      · rw [huntold]
        exact h.subscribed
      · rw [huntold]
        exact h.apart
      · intro key registration listener since seq hfound hlistener hsince hsubscribed hlt hawaits
        rw [OrderedMap.get?_set_new hnew] at hfound
        split at hfound
        · cases hfound
          exact absurd hlt (Nat.not_lt.mpr hsince)
        · rename_i hne
          rw [huntold]
          apply h.complete key registration listener since seq hfound hlistener hsince hsubscribed hlt
          intro hmem
          apply hawaits
          rcases hawaiting with heq | heq
          · rw [heq]
            exact hmem
          · rw [heq]
            exact List.mem_append_left _ hmem
    · rename_i existing hexisting
      split at hregister
      · cases hregister
      · cases hregister
        exact h.sameFeed (Tracks.recounted hexisting)

theorem heardNow_telling {listeners : List Nat} {pending : List String}
    {change : ProjectionChange State Data View}
    (hdispatch : session.dispatch = .telling listeners pending)
    (hchange : session.changes.getLast? = some change) : session.heardNow = change.listeners := by
  rw [ProjectedSession.heardNow, hdispatch, hchange]

/-- A listener that comes late is owed nothing, and hears the change that is being told last. -/
theorem onChanged (h : Delivered session) {listener : Nat}
    (hnew : listener ∈ session.heardNow → listener ∈ session.listeners.keys) :
    Delivered (session.onChanged listener) := by
  unfold ProjectedSession.onChanged
  split
  · exact h
  · rename_i hhas
    have hlate : listener ∉ session.listeners.keys := fun hmem => hhas (OrderedMap.has_iff.mpr hmem)
    set joined : ProjectedSession State Data View := { session with
      listeners := session.listeners.set listener session.log.length
      dispatch := ProjectedSession.awaitListener listener session.dispatch }
    have hawaiting : joined.awaiting = session.awaiting := Tracks.awaiting_awaitListener rfl rfl
    have huntold : joined.untold = session.untold ∨ joined.untold = session.untold ++ [listener] ∧
        ∃ rest pending, session.dispatch = .telling rest pending := by
      simp only [joined, ProjectedSession.untold]
      cases session.dispatch with
      | telling rest pending => exact .inr ⟨rfl, rest, pending, rfl⟩
      | idle | committed | driving => exact .inl rfl
    have hmore : ∀ other ∈ session.untold, other ∈ joined.untold := by
      intro other hmem
      rcases huntold with heq | ⟨heq, -⟩
      · exact heq ▸ hmem
      · exact heq ▸ List.mem_append_left _ hmem
    constructor
    · exact h.heard
    · rcases huntold with heq | ⟨heq, -⟩
      · exact heq ▸ h.untoldOnce
      · rw [heq, List.nodup_append]
        refine ⟨h.untoldOnce, List.nodup_singleton _, ?_⟩
        rintro other hother _ hlast rfl
        exact hlate (List.mem_singleton.mp hlast ▸ h.subscribed other hother)
    · intro other hother
      rw [OrderedMap.keys_set_new hlate, List.mem_append]
      rcases huntold with heq | ⟨heq, -⟩
      · exact .inl (h.subscribed other (heq ▸ hother))
      · rw [heq, List.mem_append] at hother
        exact hother.imp_left (h.subscribed other)
    · intro other hother change hchange hheard
      rcases huntold with heq | ⟨heq, rest, pending, hdispatch⟩
      · exact h.apart other (heq ▸ hother) change hchange hheard
      · rw [heq, List.mem_append, List.mem_singleton] at hother
        rcases hother with hother | rfl
        · exact h.apart other hother change hchange hheard
        · exact hlate (hnew (heardNow_telling hdispatch hchange ▸ hheard))
    · intro key registration other since seq hget hother hsince hsubscribed hlt hawaits hview hchanged
      rw [OrderedMap.get?_set] at hother
      split at hother
      · cases hother
        exact absurd hlt (Nat.not_lt.mpr hsubscribed)
      · obtain ⟨change, hmem, hserial, hseq, hheard⟩ := h.complete key registration other since seq
          hget hother hsince hsubscribed hlt (hawaiting ▸ hawaits) hview hchanged
        exact ⟨change, hmem, hserial, hseq, hheard.imp_right fun hrest =>
          ⟨hmore other hrest.1, hrest.2⟩⟩

theorem offChanged (h : Delivered session) (listener : Nat) :
    Delivered (session.offChanged listener) := by
  have huntold : (session.offChanged listener).untold = session.untold.filter (· ≠ listener) := by
    simp only [ProjectedSession.offChanged, ProjectedSession.untold]
    cases session.dispatch <;> rfl
  have hawaiting : (session.offChanged listener).awaiting = session.awaiting :=
    Tracks.awaiting_forgetListener rfl rfl
  constructor
  · exact h.heard
  · rw [huntold]
    exact h.untoldOnce.filter _
  · intro other hother
    rw [huntold, List.mem_filter] at hother
    rw [ProjectedSession.offChanged, OrderedMap.keys_delete_eq, List.mem_filter]
    exact ⟨h.subscribed other hother.1, hother.2⟩
  · intro other hother
    rw [huntold] at hother
    exact h.apart other (List.mem_of_mem_filter hother)
  · intro key registration other since seq hget hother hsince hsubscribed hlt hawaits hview hchanged
    rw [ProjectedSession.offChanged, OrderedMap.get?_delete] at hother
    split at hother
    · cases hother
    · rename_i hne
      obtain ⟨change, hmem, hserial, hseq, hheard⟩ := h.complete key registration other since seq hget
        hother hsince hsubscribed hlt (hawaiting ▸ hawaits) hview hchanged
      refine ⟨change, hmem, hserial, hseq, hheard.imp_right fun hrest => ⟨?_, hrest.2⟩⟩
      rw [huntold, List.mem_filter]
      exact ⟨hrest.1, decide_eq_true hne⟩

theorem tellLast_concat (listener : Nat) (changes : List (ProjectionChange State Data View))
    (change : ProjectionChange State Data View) :
    ProjectedSession.tellLast listener (changes ++ [change]) =
      changes ++ [{ change with listeners := change.listeners ++ [listener] }] := by
  induction changes with
  | nil => rfl
  | cons first changes ih =>
    obtain ⟨second, rest, hcons⟩ := List.exists_cons_of_ne_nil
      (List.append_ne_nil_of_right_ne_nil changes (List.cons_ne_nil change []))
    rw [List.cons_append, List.cons_append, ← ih, hcons]
    rfl

theorem tell (h : Delivered session) (htell : session.tell = some after) : Delivered after := by
  unfold ProjectedSession.tell at htell
  split at htell
  · rename_i listener rest pending hdispatch
    cases htell
    have huntold : session.untold = listener :: rest := by rw [ProjectedSession.untold, hdispatch]
    have hawaiting : session.awaiting = pending := by rw [ProjectedSession.awaiting, hdispatch]
    have honce := h.untoldOnce
    rw [huntold, List.nodup_cons] at honce
    obtain hnil | ⟨changes, last, hchanges⟩ := List.eq_nil_or_concat' session.changes
    · refine ⟨?_, honce.2, ?_, ?_, ?_⟩
      · rw [hnil]
        exact List.forall_mem_nil _
      · exact fun other hother => h.subscribed other (huntold ▸ List.mem_cons_of_mem _ hother)
      · rw [hnil]
        exact fun _ _ _ hlast => absurd hlast (Option.not_mem_none _)
      · intro key registration other since seq hget hother hsince hsubscribed hlt hawaits hview
          hchanged
        obtain ⟨change, hmem, -⟩ := h.complete key registration other since seq hget hother hsince
          hsubscribed hlt (hawaiting ▸ hawaits) hview hchanged
        rw [hnil] at hmem
        exact absurd hmem List.not_mem_nil
    · have hlast : session.changes.getLast? = some last := by
        rw [hchanges, List.getLast?_concat]
      have htold : ProjectedSession.tellLast listener session.changes =
          changes ++ [{ last with listeners := last.listeners ++ [listener] }] := by
        rw [hchanges, tellLast_concat]
      have hapart := h.apart listener (huntold ▸ List.mem_cons_self) last hlast
      constructor
      · rw [htold]
        intro change hmem
        rcases List.mem_append.mp hmem with hold | hnow
        · exact h.heard change (hchanges ▸ List.mem_append_left _ hold)
        · rw [List.mem_singleton.mp hnow]
          refine List.nodup_append.mpr ⟨h.heard last (List.mem_of_getLast? hlast),
            List.nodup_singleton _, ?_⟩
          rintro other hother _ hmem rfl
          exact hapart (List.mem_singleton.mp hmem ▸ hother)
      · exact honce.2
      · exact fun other hother => h.subscribed other (huntold ▸ List.mem_cons_of_mem _ hother)
      · rw [htold]
        intro other hother change hchange
        rw [List.getLast?_concat, Option.mem_some] at hchange
        rw [← hchange, List.mem_append, List.mem_singleton, not_or]
        refine ⟨h.apart other (huntold ▸ List.mem_cons_of_mem _ hother) last hlast, ?_⟩
        rintro rfl
        exact honce.1 hother
      · rw [htold]
        intro key registration other since seq hget hother hsince hsubscribed hlt hawaits hview hchanged
        obtain ⟨change, hmem, hserial, hseq, hheard⟩ := h.complete key registration other since seq
          hget hother hsince hsubscribed hlt (hawaiting ▸ hawaits) hview hchanged
        rw [hlast, huntold, Option.some.injEq] at hheard
        by_cases hsame : change = last
        · subst hsame
          refine ⟨_, List.mem_append_right _ (List.mem_singleton_self _), hserial, hseq, ?_⟩
          rcases hheard with hheard | ⟨hrest, -⟩
          · exact .inl (List.mem_append_left _ hheard)
          · rcases List.mem_cons.mp hrest with rfl | hrest
            · exact .inl (List.mem_append_right _ (List.mem_singleton_self _))
            · exact .inr ⟨hrest, List.getLast?_concat⟩
        · rw [hchanges] at hmem
          have hold := (List.mem_append.mp hmem).resolve_right fun hnow =>
            hsame (List.mem_singleton.mp hnow)
          exact ⟨change, List.mem_append_left _ hold, hserial, hseq, .inl
            (hheard.resolve_right fun hrest => hsame hrest.2.symm)⟩
  · cases htell

theorem driven (h : Delivered session) {key : String} {pending : List String}
    {registration : Registration State Data View} {cell : UnitCell State} {front : List Data}
    {data : Data} {new : List (ProjectionChange State Data View)}
    (hlog : session.log = front ++ [data]) (hdispatch : session.dispatch = .driving (key :: pending))
    (hget : session.registrations.get? key = some registration)
    {next : ProjectedSession State Data View}
    (hnext : next = { session.setCell key registration cell with
      dispatch := next.dispatch
      changes := next.changes })
    (hchanges : next.changes = session.changes ++ new)
    (hpending : next.awaiting = pending)
    (hcomplete : ∀ listener since, session.listeners.get? listener = some since →
      registration.definition.view.isSome = true →
      Changed registration.definition session.seedLength session.log front.length →
        ∃ change ∈ new, change.serial = registration.serial ∧ change.seq = front.length ∧
          listener ∈ next.untold ∧ (session.changes ++ new).getLast? = some change) :
    ∀ other found listener since seq, next.registrations.get? other = some found →
      next.listeners.get? listener = some since → found.since ≤ seq → since ≤ seq →
      seq < next.log.length → (other ∈ next.awaiting → seq + 1 < next.log.length) →
      found.definition.view.isSome = true →
      Changed found.definition next.seedLength next.log seq →
        ∃ change ∈ next.changes, change.serial = found.serial ∧ change.seq = seq ∧
          (listener ∈ change.listeners ∨
            listener ∈ next.untold ∧ next.changes.getLast? = some change) := by
  have hlength : session.log.length = front.length + 1 := by rw [hlog, List.length_append]; rfl
  have hawaits : session.awaiting = key :: pending := by
    rw [ProjectedSession.awaiting, hdispatch]
  have huntold : session.untold = [] := by rw [ProjectedSession.untold, hdispatch]
  have hregistrations : next.registrations =
      session.registrations.set key { registration with cell := some cell } := by rw [hnext]; rfl
  have hlisteners : next.listeners = session.listeners := by rw [hnext]; rfl
  have hsameLog : next.log = session.log := by rw [hnext]; rfl
  have hseed : next.seedLength = session.seedLength := by rw [hnext]; rfl
  rw [hregistrations, hlisteners, hchanges, hsameLog, hseed, hpending]
  intro other found listener since seq hfound hlistener hsince hsubscribed hlt hother hview hchanged
  have hold : ∀ {found : Registration State Data View},
      session.registrations.get? other = some found → found.since ≤ seq →
      (other ∈ session.awaiting → seq + 1 < session.log.length) →
      found.definition.view.isSome = true →
      Changed found.definition session.seedLength session.log seq →
      ∃ change ∈ session.changes ++ new, change.serial = found.serial ∧ change.seq = seq ∧
        (listener ∈ change.listeners ∨
          listener ∈ next.untold ∧ (session.changes ++ new).getLast? = some change) := by
    intro found hfound hsince hwaits hview hchanged
    obtain ⟨change, hmem, hserial, hseq, hheard⟩ := h.complete other found listener since seq hfound
      hlistener hsince hsubscribed hlt hwaits hview hchanged
    rw [huntold] at hheard
    exact ⟨change, List.mem_append_left _ hmem, hserial, hseq, .inl
      (hheard.resolve_right fun hrest => absurd hrest.1 List.not_mem_nil)⟩
  rw [OrderedMap.get?_set] at hfound
  split at hfound
  · rename_i heq
    subst heq
    cases hfound
    by_cases hlast : seq = front.length
    · subst hlast
      obtain ⟨change, hmem, hserial, hseq, hrest⟩ := hcomplete listener since hlistener hview hchanged
      exact ⟨change, List.mem_append_right _ hmem, hserial, hseq, .inr hrest⟩
    · exact @hold registration hget hsince (fun _ => by omega) hview hchanged
  · rename_i hne
    apply hold hfound hsince _ hview hchanged
    intro hmem
    rw [hawaits] at hmem
    exact hother ((List.mem_cons.mp hmem).resolve_left hne)

theorem driveNext (h : Delivered session) (htracks : Tracks session)
    (hguard : Undisturbed session .driveNext) (hnext : session.driveNext = some after) :
    Delivered after := by
  obtain ⟨key, pending, registration, front, data, cell, hlog, hdispatch, hget, hfolds, hafter⟩ :=
    driveNext_eq htracks hguard hnext
  rcases hafter with ⟨rfl, hsilent⟩ | ⟨value, rfl, hchanged, hviews⟩
  · refine ⟨h.heard, List.nodup_nil, List.forall_mem_nil _, List.forall_mem_nil _, ?_⟩
    apply h.driven hlog hdispatch hget rfl
    · exact (List.append_nil _).symm
    · rfl
    · intro listener since hlistener hview hchange
      rw [OrderedMap.get?, hsilent hview hchange] at hlistener
      cases hlistener
  · constructor
    · intro change hmem
      rcases List.mem_append.mp hmem with hold | hnew
      · exact h.heard change hold
      · rw [List.mem_singleton.mp hnew]
        exact List.nodup_nil
    · exact session.listeners.nodup
    · exact fun _ hmem => hmem
    · intro listener _ change hlast
      rw [List.getLast?_concat, Option.mem_some] at hlast
      rw [← hlast]
      exact List.not_mem_nil
    · apply h.driven hlog hdispatch hget rfl rfl rfl
      intro listener since hlistener _ _
      exact ⟨_, List.mem_singleton_self _, rfl, rfl, OrderedMap.mem_keys_of_get? hlistener,
        List.getLast?_concat⟩

end Delivered

/-- Undisturbed, and every listener loop runs to its end: no listener throws while others are behind
it, and none that has heard the change leaves the loop and joins it again. -/
def Unbroken (session : ProjectedSession State Data View) (op : ProjectionOp State Data View) : Prop :=
  Undisturbed session op ∧ match op with
    | .listenerThrows => session.untold = []
    | .onChanged listener => listener ∈ session.heardNow → listener ∈ session.listeners.keys
    | _ => True

instance decidableUnbroken (session : ProjectedSession State Data View) :
    ∀ op, Decidable (Unbroken session op)
  | .listenerThrows => inferInstanceAs (Decidable (_ ∧ session.untold = []))
  | .onChanged listener =>
    inferInstanceAs (Decidable (_ ∧ (listener ∈ session.heardNow → listener ∈ session.listeners.keys)))
  | .commit .. | .startDrive | .driveNext | .tell | .told | .finish | .register .. | .dispose ..
  | .offChanged .. | .stateOf .. | .snapshot | .checkpoint => inferInstanceAs (Decidable (_ ∧ True))

theorem Delivered.step {session after : ProjectedSession State Data View}
    {op : ProjectionOp State Data View} (h : Delivered session) (htracks : Tracks session)
    (hguard : Unbroken session op) (hstep : session.step op = some after) : Delivered after := by
  cases op with
  | commit data => exact h.commit hstep
  | startDrive => exact h.startDrive hstep
  | driveNext => exact h.driveNext htracks hguard.1 hstep
  | tell => exact h.tell hstep
  | told => exact h.told hstep
  | listenerThrows => exact h.listenerThrows hguard.1 hguard.2 hstep
  | finish => exact h.finish hstep
  | register definition =>
    unfold ProjectedSession.step at hstep
    dsimp only at hstep
    split at hstep
    · cases hstep
      exact h.register ‹_›
    · cases hstep
      exact h
  | dispose key =>
    cases hstep
    exact h.sameFeed (Tracks.disposed session key)
  | onChanged listener =>
    cases hstep
    exact h.onChanged hguard.2
  | offChanged listener =>
    cases hstep
    exact h.offChanged listener
  | stateOf key =>
    cases hstep
    exact h.sameFeed (stateOf_readOnly htracks (readable_of hguard.1)).feed
  | snapshot =>
    cases hstep
    have hread : ReadOnly session session.snapshot.1 :=
      visit_readOnly htracks fun key hkey _ _ _ => hguard.1 key hkey
    have hafter := h.sameFeed hread.feed
    unfold ProjectedSession.readSnapshot
    split
    · rename_i found snapshot hsnapshot
      rw [show session.snapshot.1 = found from congrArg Prod.fst hsnapshot] at hafter
      exact ⟨hafter.heard, hafter.untoldOnce, hafter.subscribed, hafter.apart, hafter.complete⟩
    · rename_i found message hsnapshot
      rw [show session.snapshot.1 = found from congrArg Prod.fst hsnapshot] at hafter
      exact hafter
  | checkpoint =>
    cases hstep
    exact h.sameFeed (visit_readOnly htracks fun key hkey => readable_of (hguard.1 key hkey)).feed

structure Faithful (session : ProjectedSession State Data View) : Prop where
  cells : session.dispatch = .idle → ∀ key registration cell,
    session.registrations.get? key = some registration → registration.cell = some cell →
      Folds registration.definition session.seedLength session.log cell
  told : ∀ change ∈ session.changes, Told session.seedLength session.log change
  once : (session.changes.map fun change => (change.serial, change.seq)).Nodup
  heard : ∀ change ∈ session.changes, change.listeners.Nodup
  complete : session.dispatch = .idle → ∀ key registration listener since seq,
    session.registrations.get? key = some registration →
    session.listeners.get? listener = some since → registration.since ≤ seq → since ≤ seq →
    seq < session.log.length → registration.definition.view.isSome = true →
    Changed registration.definition session.seedLength session.log seq →
      ∃ change ∈ session.changes,
        change.serial = registration.serial ∧ change.seq = seq ∧ listener ∈ change.listeners
  cuts : ∀ snapshot ∈ session.snapshots, Cut session.seedLength session.log snapshot

theorem Tracks.faithful {session : ProjectedSession State Data View} (h : Tracks session)
    (hdelivered : Delivered session) : Faithful session where
  cells hidle key registration cell hget hcell := by
    have hfolds := h.cells key registration cell hget hcell
    rwa [Tracks.foldedLog_idle hidle] at hfolds
  told := h.told
  once := h.once
  heard := hdelivered.heard
  complete hidle key registration listener since seq hget hlistener hsince hsubscribed hlt hview
      hchanged := by
    have hdriven : key ∈ session.awaiting → seq + 1 < session.log.length := by
      rw [ProjectedSession.awaiting, hidle]
      exact fun hmem => absurd hmem List.not_mem_nil
    have huntold : session.untold = [] := by rw [ProjectedSession.untold, hidle]
    obtain ⟨change, hmem, hserial, hseq, hheard⟩ := hdelivered.complete key registration listener
      since seq hget hlistener hsince hsubscribed hlt hdriven hview hchanged
    rw [huntold] at hheard
    exact ⟨change, hmem, hserial, hseq, hheard.resolve_right fun hrest =>
      absurd hrest.1 List.not_mem_nil⟩
  cuts := h.cuts

/-- In every run whose reads keep out of the drive and whose loops run to their ends, cells are
folds, the feed tells each change to every listener once and snapshots are cuts. -/
theorem projections_faithful {log : List Data} {seedLength : Nat}
    {ops : List (ProjectionOp State Data View)} {session : ProjectedSession State Data View}
    (hseed : seedLength ≤ log.length)
    (hrun : run ProjectedSession.step (.entered log seedLength) ops = some session)
    (hguard : Along ProjectedSession.step Unbroken (.entered log seedLength) ops) :
    Faithful session := by
  have hinvariant := run_invariant_along
    (fun session : ProjectedSession State Data View => Tracks session ∧ Delivered session)
    (fun session op after h hunbroken hstep =>
      ⟨h.1.step session op after hunbroken.1 hstep, h.2.step h.1 hunbroken hstep⟩)
    hrun hguard ⟨tracks_entered hseed, .entered log seedLength⟩
  exact hinvariant.1.faithful hinvariant.2

/-- Two units, a listener that reads the first one and one that joins meanwhile, an event and a
snapshot before and after. -/
def quietRun : List (ProjectionOp (List Nat) Nat (List Nat)) :=
  [.register (collector "first"), .register (collector "second"), .onChanged 0, .snapshot,
    .commit 7, .startDrive, .driveNext, .tell, .stateOf "first", .onChanged 1, .tell, .told,
    .driveNext, .tell, .tell, .told, .finish, .snapshot]

def emptySession : ProjectedSession (List Nat) Nat (List Nat) := .entered [] 0

def quietEnd : ProjectedSession (List Nat) Nat (List Nat) :=
  (run ProjectedSession.step emptySession quietRun).get (by decide +kernel)

theorem quietRun_faithful : Faithful quietEnd :=
  projections_faithful (Nat.zero_le 0) (Option.some_get _).symm
    (by decide +kernel : Along ProjectedSession.step Unbroken emptySession quietRun)

def eagerRun : List (ProjectionOp (List Nat) Nat (List Nat)) :=
  [.register (collector "first"), .register (collector "second"), .onChanged 0,
    .commit 7, .startDrive, .driveNext, .tell, .stateOf "second", .told, .driveNext, .tell, .told,
    .finish]

def eagerEnd : ProjectedSession (List Nat) Nat (List Nat) :=
  (run ProjectedSession.step emptySession eagerRun).get (by decide +kernel)

def eagerSecond : Registration (List Nat) Nat (List Nat) :=
  (eagerEnd.registrations.get? "second").get (by decide +kernel)

def eagerCell : UnitCell (List Nat) := eagerSecond.cell.get (by decide +kernel)

theorem eagerRun_repeats : ¬ ∀ session : ProjectedSession (List Nat) Nat (List Nat),
    run ProjectedSession.step emptySession eagerRun = some session → Faithful session := by
  intro h
  have hfaithful := h eagerEnd (Option.some_get _).symm
  have hfolds := hfaithful.cells (by decide +kernel) "second" eagerSecond eagerCell
    (Option.some_get _).symm (Option.some_get _).symm
  have hstate := (folds_iff.mp hfolds).1
  have hcell : eagerCell.state = [7, 7] := by decide +kernel
  have hlog : eagerEnd.log = [7] := by decide +kernel
  have hfold : foldOk (eagerSecond.definition.applyOwned eagerEnd.seedLength)
      eagerSecond.definition.init (committed [7]) = .ok [7] := by decide +kernel
  rw [hcell, hlog, hfold] at hstate
  exact absurd (Except.ok.inj hstate) (by decide)

end Harness.Projection
