import Harness.Settings.Store

namespace Harness.Settings

open Harness.Foundation

theorem sameRaw_refl (raw : Raw) : sameRaw raw raw = true := by
  cases raw with
  | none => rfl
  | some value => exact Json.deepEqual_refl value.1 value.2

theorem sameRaw_symm {a b : Raw} (h : sameRaw a b = true) : sameRaw b a = true := by
  cases a with
  | none =>
    cases b with
    | none => rfl
    | some y => cases h
  | some x =>
    cases b with
    | none => cases h
    | some y => exact Json.deepEqual_symm x.1 x.2 y.2 h

theorem sameRaw_trans (a b c : Raw) (hab : sameRaw a b = true) (hbc : sameRaw b c = true) :
    sameRaw a c = true := by
  cases a with
  | none =>
    cases b with
    | none => exact hbc
    | some y => cases hab
  | some x =>
    cases b with
    | none => cases hab
    | some y =>
      cases c with
      | none => cases hbc
      | some z => exact Json.deepEqual_trans x.1 hab hbc

theorem sameRaw_congr {a b : Raw} (h : sameRaw a b = true) (c : Raw) :
    sameRaw a c = sameRaw b c := by
  apply Bool.eq_iff_iff.mpr
  exact ⟨sameRaw_trans b a c (sameRaw_symm h), sameRaw_trans a b c h⟩

theorem value_section? {value : Value} {contents : Section}
    (h : Value.section? value = some contents) : contents.value = value := by
  unfold Value.section? at h
  split at h
  · rename_i fields hfields
    cases h
    exact Subtype.ext hfields.symm
  · cases h

theorem section?_of_obj {value : Value} {fields : List (String × Json)} (h : value.1 = .obj fields) :
    ∃ contents, Value.section? value = some contents := by
  unfold Value.section?
  split
  · exact ⟨_, rfl⟩
  · rename_i hnone
    exact absurd h (hnone fields)

theorem readSection_value {ns : String} {raw : Raw} {found : Option Section}
    (h : readSection ns raw = .ok found) : found.map (·.value) = raw := by
  unfold readSection at h
  split at h
  · split at h
    · cases h
    · cases h
      rfl
  · obtain ⟨contents, hcontents, heq⟩ := bind_eq_ok.mp h
    cases heq
    rw [Option.map_some, value_section? (expect_eq_ok.mp hcontents)]

theorem readSection_section (ns : String) (contents : Section) :
    readSection ns (some contents.value) = .ok (some contents) := rfl

theorem readSection_same {ns : String} {a b : Raw} (h : sameRaw a b = true) {found : Option Section}
    (ha : readSection ns a = .ok found) : ∃ other, readSection ns b = .ok other := by
  cases a with
  | none =>
    cases b with
    | none => exact ⟨found, ha⟩
    | some y => cases h
  | some x =>
    cases b with
    | none => cases h
    | some y =>
      obtain ⟨contents, hcontents, -⟩ := bind_eq_ok.mp ha
      have hx := value_section? (expect_eq_ok.mp hcontents)
      have hsame : (Json.obj contents.fields).deepEqual y.1 = true := by
        rw [show Json.obj contents.fields = x.1 from congrArg Subtype.val hx]
        exact h
      obtain ⟨fields, hfields⟩ : ∃ fields, y.1 = .obj fields := by
        cases hy : y.1 with
        | obj fields => exact ⟨fields, rfl⟩
        | _ =>
          rw [hy] at hsame
          cases hsame
      obtain ⟨other, hother⟩ := section?_of_obj hfields
      exact ⟨some other, bind_eq_ok.mpr ⟨other, expect_eq_ok.mpr hother, rfl⟩⟩

structure Follows (stopped : Bool) (commits : List (Json × Json)) (watcher : SettingsWatcher) :
    Prop where
  since : watcher.since ≤ commits.length
  told : ∃ rest, commits.drop watcher.since = watcher.seen ++ rest ∧
    (watcher.active = true → stopped = false → rest = watcher.queue)

def Linked (commits : List (Json × Json)) (resolved : Json) : Prop :=
  ∃ initial, commits.map (·.2) ++ [resolved] = initial :: commits.map (·.1)

def UpToDate (registration : SettingsRegistration) : Prop :=
  ∃ good, registration.lastGood = some good ∧
    (registration.resolved = good ∨ good.deepEqual registration.resolved = true)

structure Sound (stopped : Bool) (registration : SettingsRegistration) : Prop where
  current : UpToDate registration
  counted : registration.revision = changes sameRaw registration.history
  linked : Linked registration.commits registration.resolved
  follows : ∀ watcher ∈ registration.watchers, Follows stopped registration.commits watcher

namespace SettingsRegistration

variable (registration : SettingsRegistration)

@[simp] theorem ns_bumpRevision (before after : Raw) :
    (registration.bumpRevision before after).ns = registration.ns := by
  unfold bumpRevision
  split <;> rfl

@[simp] theorem options_bumpRevision (before after : Raw) :
    (registration.bumpRevision before after).options = registration.options := by
  unfold bumpRevision
  split <;> rfl

@[simp] theorem history_bumpRevision (before after : Raw) :
    (registration.bumpRevision before after).history = registration.history := by
  unfold bumpRevision
  split <;> rfl

@[simp] theorem resolved_bumpRevision (before after : Raw) :
    (registration.bumpRevision before after).resolved = registration.resolved := by
  unfold bumpRevision
  split <;> rfl

@[simp] theorem commits_bumpRevision (before after : Raw) :
    (registration.bumpRevision before after).commits = registration.commits := by
  unfold bumpRevision
  split <;> rfl

@[simp] theorem watchers_bumpRevision (before after : Raw) :
    (registration.bumpRevision before after).watchers = registration.watchers := by
  unfold bumpRevision
  split <;> rfl

theorem revision_bumpRevision (before after : Raw) :
    (registration.bumpRevision before after).revision =
      registration.revision + if sameRaw before after = true then 0 else 1 := by
  unfold bumpRevision
  split <;> rfl

@[simp] theorem ns_commit (next : Json) : (registration.commit next).ns = registration.ns := by
  unfold commit
  split <;> rfl

@[simp] theorem options_commit (next : Json) :
    (registration.commit next).options = registration.options := by
  unfold commit
  split <;> rfl

@[simp] theorem history_commit (next : Json) :
    (registration.commit next).history = registration.history := by
  unfold commit
  split <;> rfl

@[simp] theorem revision_commit (next : Json) :
    (registration.commit next).revision = registration.revision := by
  unfold commit
  split <;> rfl

theorem resolved_commit (next : Json) :
    (registration.commit next).resolved = next ∨
      next.deepEqual (registration.commit next).resolved = true := by
  unfold commit
  split
  · exact .inr ‹_›
  · exact .inl rfl

variable {registration}

theorem linked_commit (h : Linked registration.commits registration.resolved) (next : Json) :
    Linked (registration.commit next).commits (registration.commit next).resolved := by
  unfold commit
  split
  · exact h
  · obtain ⟨initial, hlinked⟩ := h
    refine ⟨initial, ?_⟩
    simp only [List.map_append, List.map_cons, List.map_nil]
    rw [hlinked]
    rfl

theorem follows_commit {stopped : Bool}
    (h : ∀ watcher ∈ registration.watchers, Follows stopped registration.commits watcher)
    (next : Json) : ∀ watcher ∈ (registration.commit next).watchers,
      Follows stopped (registration.commit next).commits watcher := by
  unfold commit
  split
  · exact h
  · dsimp only
    intro watcher hwatcher
    obtain ⟨old, hold, rfl⟩ := List.mem_map.mp hwatcher
    obtain ⟨hsince, rest, hdrop, hqueue⟩ := h old hold
    have hlonger : old.since ≤ (registration.commits ++ [(next, registration.resolved)]).length := by
      rw [List.length_append]
      exact Nat.le_add_right_of_le hsince
    have hgrown : (registration.commits ++ [(next, registration.resolved)]).drop old.since =
        old.seen ++ (rest ++ [(next, registration.resolved)]) := by
      rw [List.drop_append_of_le_length hsince, hdrop, List.append_assoc]
    split
    · exact ⟨hlonger, _, hgrown, fun hactive hstopped => by rw [hqueue hactive hstopped]⟩
    · rename_i hinactive
      exact ⟨hlonger, _, hgrown, fun hactive => absurd hactive hinactive⟩

theorem lastGood_observe_ok {raw : Raw} {next : Json} (h : registration.resolves raw = .ok next) :
    (registration.observe raw).lastGood = some next := by
  unfold lastGood observe
  rw [List.reverse_append, List.reverse_singleton, List.singleton_append, List.findSome?_cons]
  have hraw : ({ registration with history := registration.history ++ [raw] } :
      SettingsRegistration).resolves raw = .ok next := h
  rw [hraw]
  rfl

theorem lastGood_observe_error {raw : Raw} {message : String}
    (h : registration.resolves raw = .error message) :
    (registration.observe raw).lastGood = registration.lastGood := by
  unfold lastGood observe
  rw [List.reverse_append, List.reverse_singleton, List.singleton_append, List.findSome?_cons]
  have hraw : ({ registration with history := registration.history ++ [raw] } :
      SettingsRegistration).resolves raw = .error message := h
  rw [hraw]
  rfl

end SettingsRegistration

namespace Sound

variable {stopped : Bool} {registration : SettingsRegistration}

theorem commit (h : Sound stopped registration) {last before after : Raw} {next : Json}
    (hlast : registration.history.getLast? = some last)
    (hbefore : sameRaw before after = sameRaw last after)
    (hnext : registration.resolves after = .ok next) :
    Sound stopped (((registration.bumpRevision before after).commit next).observe after) where
  current := by
    refine ⟨next, SettingsRegistration.lastGood_observe_ok ?_, ?_⟩
    · rw [SettingsRegistration.resolves, SettingsRegistration.ns_commit,
        SettingsRegistration.options_commit, SettingsRegistration.ns_bumpRevision,
        SettingsRegistration.options_bumpRevision]
      exact hnext
    · exact SettingsRegistration.resolved_commit _ next
  counted := by
    have hrevision := SettingsRegistration.revision_bumpRevision registration before after
    have hchanges := @changes_snoc _ sameRaw registration.history last after hlast
    rw [SettingsRegistration.observe]
    dsimp only
    rw [SettingsRegistration.revision_commit, SettingsRegistration.history_commit,
      SettingsRegistration.history_bumpRevision, hrevision, hchanges, h.counted, hbefore]
  linked := by
    apply SettingsRegistration.linked_commit
    rw [SettingsRegistration.commits_bumpRevision, SettingsRegistration.resolved_bumpRevision]
    exact h.linked
  follows := by
    apply SettingsRegistration.follows_commit
    rw [SettingsRegistration.commits_bumpRevision, SettingsRegistration.watchers_bumpRevision]
    exact h.follows

/-- A section that does not resolve leaves everything as it was, where it is the same as before. -/
theorem observe (h : Sound stopped registration) {last raw : Raw} {message : String}
    (hlast : registration.history.getLast? = some last) (hsame : sameRaw last raw = true)
    (hraw : registration.resolves raw = .error message) : Sound stopped (registration.observe raw) where
  current := by
    obtain ⟨good, hgood, hresolved⟩ := h.current
    exact ⟨good, (SettingsRegistration.lastGood_observe_error hraw).trans hgood, hresolved⟩
  counted := h.counted.trans (changes_snoc_same sameRaw hlast hsame).symm
  linked := h.linked
  follows := h.follows

end Sound

structure Extends (before after : SettingsRegistration) : Prop where
  ns : after.ns = before.ns
  options : after.options = before.options
  history : ∃ more, after.history = before.history ++ more

theorem Extends.refl (registration : SettingsRegistration) : Extends registration registration :=
  ⟨rfl, rfl, [], (List.append_nil _).symm⟩

def Grown (before after : List SettingsRegistration) : Prop :=
  ∀ (id : Nat) (old : SettingsRegistration), before[id]? = some old → ∃ new, after[id]? = some new ∧ Extends old new

theorem Grown.refl (registrations : List SettingsRegistration) : Grown registrations registrations :=
  fun _ old hold => ⟨old, hold, .refl old⟩

theorem grown_append (registrations : List SettingsRegistration) (new : SettingsRegistration) :
    Grown registrations (registrations ++ [new]) := by
  intro id old hold
  refine ⟨old, ?_, .refl old⟩
  rw [List.getElem?_append_left (List.getElem?_eq_some_iff.mp hold).1]
  exact hold

theorem grown_modify {registrations : List SettingsRegistration} {id : Nat}
    {f : SettingsRegistration → SettingsRegistration} (hf : ∀ old, Extends old (f old)) :
    Grown registrations (registrations.modify id f) := by
  intro index old hold
  rw [List.getElem?_modify, hold]
  refine ⟨if id = index then f old else old, rfl, ?_⟩
  split
  · exact hf old
  · exact .refl old

def revisionAt (registration : SettingsRegistration) (position : Nat) : Nat :=
  changes sameRaw (registration.history.take position)

/-- What a write saw of its registration: the section, under the revision it expected. -/
structure Stamped (registrations : List SettingsRegistration) (ns : String) (id position : Nat)
    (stored : Raw) (expectedRevision : Option Int) : Prop where
  found : ∃ registration, registrations[id]? = some registration ∧ registration.ns = ns ∧
    position ≤ registration.history.length ∧
    (registration.history.take position).getLast? = some stored ∧
    ∀ revision, expectedRevision = some revision → revision = revisionAt registration position

theorem Stamped.grown {before after : List SettingsRegistration} {ns : String} {id position : Nat}
    {stored : Raw} {expectedRevision : Option Int}
    (h : Stamped before ns id position stored expectedRevision) (hgrown : Grown before after) :
    Stamped after ns id position stored expectedRevision := by
  obtain ⟨old, hold, hns, hposition, hlast, hrevision⟩ := h.found
  obtain ⟨new, hnew, hextends⟩ := hgrown id old hold
  obtain ⟨more, hmore⟩ := hextends.history
  have htake : new.history.take position = old.history.take position := by
    rw [hmore, List.take_append_of_le_length hposition]
  refine ⟨new, hnew, hextends.ns.trans hns, ?_, ?_, ?_⟩
  · rw [hmore, List.length_append]
    exact Nat.le_add_right_of_le hposition
  · rw [htake]
    exact hlast
  · intro revision hexpected
    rw [revisionAt, htake]
    exact hrevision revision hexpected

structure Owned (state : SettingsProvider) (ns : String) (id : Nat) : Prop where
  found : ∃ registration, state.registrations[id]? = some registration ∧ registration.ns = ns ∧
    registration.history.getLast? = some (state.document.get? ns)
  readable : ∃ contents, readSection ns (state.document.get? ns) = .ok contents

structure Flying (state : SettingsProvider) (ns : String) (flight : InFlight) : Prop where
  stamped : Stamped state.registrations ns flight.write.registration flight.position flight.stored
    flight.write.expectedRevision
  current : ∃ found, readSection ns flight.stored = .ok found ∧ flight.current = found.getD .empty
  resolves : ∃ registration, state.registrations[flight.write.registration]? = some registration ∧
    resolve registration.options (some flight.contents) = .ok flight.next
  nonempty : flight.stored = none → flight.contents.fields ≠ []
  undisturbed : sameRaw flight.stored (state.document.get? ns) = true
  owner : ∀ id, state.owners.get? ns = some id → id = flight.write.registration ∧ state.stopped = false

structure Landed (state : SettingsProvider) (applied : Applied) : Prop where
  stamped : Stamped state.registrations applied.ns applied.registration applied.position
    applied.computedFrom applied.expectedRevision
  undisturbed : sameRaw applied.computedFrom applied.replaced = true

structure Kept (state : SettingsProvider) : Prop where
  sound : ∀ registration ∈ state.registrations, Sound state.stopped registration
  owned : ∀ ns id, state.owners.get? ns = some id → Owned state ns id
  flying : ∀ ns flight, state.inFlight.get? ns = some flight → Flying state ns flight
  landed : ∀ applied ∈ state.applied, Landed state applied

def Acceptable (state : SettingsProvider) (doc : Document) (ns : String) (id : Nat) : Prop :=
  (state.registrations[id]?).all (fun registration => isOk (registration.resolves (doc.get? ns))) =
    true ∨ sameRaw (state.document.get? ns) (doc.get? ns) = true

instance (state : SettingsProvider) (doc : Document) (ns : String) (id : Nat) :
    Decidable (Acceptable state doc ns id) :=
  inferInstanceAs (Decidable (_ ∨ _))

def Undisturbed (state : SettingsProvider) : SettingsOp → Prop
  | .publish doc =>
    (∀ entry ∈ state.owners.entries, Acceptable state doc entry.1 entry.2) ∧
      ∀ ns ∈ state.inFlight.keys, sameRaw (state.document.get? ns) (doc.get? ns) = true
  | .register ns _ => ns ∉ state.inFlight.keys
  | .stop => ∀ entry ∈ state.inFlight.entries, state.owners.get? entry.1 = none
  | .begin ns =>
    (state.document.get? ns).isSome = true ∨
      ∀ write ∈ (state.writeQueues ns).head?,
        (write.snapshot.applyTo .empty).toOption.all (fun contents => !contents.fields.isEmpty) = true
  | _ => True

instance decidableUndisturbed (state : SettingsProvider) (op : SettingsOp) :
    Decidable (Undisturbed state op) := by
  cases op with
  | publish doc => exact inferInstanceAs (Decidable (_ ∧ _))
  | register ns options => exact inferInstanceAs (Decidable (ns ∉ state.inFlight.keys))
  | stop => exact inferInstanceAs (Decidable (∀ entry ∈ _, _))
  | begin ns => exact inferInstanceAs (Decidable (_ ∨ _))
  | _ => exact isTrue trivial

namespace Kept

variable {state : SettingsProvider}

theorem fresh (writable : Bool) : Kept (.fresh writable) where
  sound := fun _ hmem => absurd hmem List.not_mem_nil
  owned := fun _ _ hget => by cases hget
  flying := fun _ _ hget => by cases hget
  landed := fun _ hmem => absurd hmem List.not_mem_nil

end Kept

theorem Flying.transfer {state after : SettingsProvider} {ns : String} {flight : InFlight}
    (h : Flying state ns flight) (hgrown : Grown state.registrations after.registrations)
    (hundisturbed : sameRaw flight.stored (after.document.get? ns) = true)
    (howner : ∀ id, after.owners.get? ns = some id →
      id = flight.write.registration ∧ after.stopped = false) : Flying after ns flight where
  stamped := h.stamped.grown hgrown
  current := h.current
  resolves := by
    obtain ⟨old, hold, hnext⟩ := h.resolves
    obtain ⟨new, hnew, hextends⟩ := hgrown _ old hold
    exact ⟨new, hnew, by rw [hextends.options]; exact hnext⟩
  nonempty := h.nonempty
  undisturbed := hundisturbed
  owner := howner

theorem Landed.transfer {state after : SettingsProvider} {applied : Applied}
    (h : Landed state applied) (hgrown : Grown state.registrations after.registrations) :
    Landed after applied :=
  ⟨h.stamped.grown hgrown, h.undisturbed⟩

theorem mem_modify {registrations : List SettingsRegistration} {id : Nat}
    {f : SettingsRegistration → SettingsRegistration} {new : SettingsRegistration}
    (h : new ∈ registrations.modify id f) :
    new ∈ registrations ∨ ∃ old, registrations[id]? = some old ∧ new = f old := by
  obtain ⟨index, hindex⟩ := List.mem_iff_getElem?.mp h
  rw [List.getElem?_modify] at hindex
  obtain ⟨old, hold, heq⟩ := Option.map_eq_some_iff.mp hindex
  split at heq
  · rename_i hid
    exact .inr ⟨old, hid ▸ hold, heq.symm⟩
  · exact .inl (List.mem_of_getElem? (heq ▸ hold))

namespace Kept

variable {state : SettingsProvider}

theorem modify (h : Kept state) {id : Nat} {f : SettingsRegistration → SettingsRegistration}
    (hns : ∀ old, (f old).ns = old.ns) (hoptions : ∀ old, (f old).options = old.options)
    (hhistory : ∀ old, (f old).history = old.history)
    (hsound : ∀ old, Sound state.stopped old → Sound state.stopped (f old)) :
    Kept { state with registrations := state.registrations.modify id f } := by
  have hgrown : Grown state.registrations (state.registrations.modify id f) :=
    grown_modify fun old => ⟨hns old, hoptions old, [], by rw [hhistory, List.append_nil]⟩
  refine ⟨?_, ?_, ?_, ?_⟩
  · intro new hnew
    rcases mem_modify hnew with hold | ⟨old, hold, rfl⟩
    · exact h.sound new hold
    · exact hsound old (h.sound old (List.mem_of_getElem? hold))
  · intro ns owner howner
    obtain ⟨⟨old, hold, hold_ns, hlast⟩, hreadable⟩ := h.owned ns owner howner
    refine ⟨⟨if id = owner then f old else old, ?_, ?_, ?_⟩, hreadable⟩
    · dsimp only
      rw [List.getElem?_modify, hold]
      rfl
    · split
      · exact (hns old).trans hold_ns
      · exact hold_ns
    · split
      · rw [hhistory]
        exact hlast
      · exact hlast
  · intro ns flight hflight
    have hflying := h.flying ns flight hflight
    exact hflying.transfer hgrown hflying.undisturbed hflying.owner
  · exact fun applied hmem => (h.landed applied hmem).transfer hgrown

theorem modifyWatcher (h : Kept state) {id watcher : Nat} {f : SettingsWatcher → SettingsWatcher}
    (hf : ∀ commits old, Follows state.stopped commits old → Follows state.stopped commits (f old)) :
    Kept { state with
      registrations := state.registrations.modify id (·.modifyWatcher watcher f) } := by
  refine h.modify (fun _ => rfl) (fun _ => rfl) (fun _ => rfl) fun old hold =>
    ⟨hold.current, hold.counted, hold.linked, fun new hnew => ?_⟩
  obtain ⟨index, hindex⟩ := List.mem_iff_getElem?.mp hnew
  rw [SettingsRegistration.modifyWatcher, List.getElem?_modify] at hindex
  obtain ⟨found, hfound, rfl⟩ := Option.map_eq_some_iff.mp hindex
  have hfollows := hold.follows found (List.mem_of_getElem? hfound)
  split
  · exact hf _ found hfollows
  · exact hfollows

theorem watch (h : Kept state) (id : Nat) :
    Kept { state with registrations := state.registrations.modify id (·.watch) } := by
  refine h.modify (fun _ => rfl) (fun _ => rfl) (fun _ => rfl) fun old hold =>
    ⟨hold.current, hold.counted, hold.linked, fun new hnew => ?_⟩
  rcases List.mem_append.mp hnew with hmem | hmem
  · exact hold.follows new hmem
  · cases List.mem_singleton.mp hmem
    exact ⟨le_rfl, [], List.drop_length, fun _ _ => rfl⟩

theorem invoke (h : Kept state) (id watcher : Nat) :
    Kept { state with
      registrations := state.registrations.modify id
        (·.modifyWatcher watcher (·.invoke state.stopped)) } := by
  apply h.modifyWatcher
  rintro commits old ⟨hsince, rest, hdrop, hqueue⟩
  unfold SettingsWatcher.invoke
  split
  · rename_i change queue hrunning hold
    split
    · rename_i hlive
      have hrest := hqueue hlive.1 hlive.2
      rw [hold] at hrest
      refine ⟨hsince, queue, ?_, fun _ _ => rfl⟩
      rw [hdrop, hrest, List.append_assoc]
      rfl
    · rename_i hdead
      exact ⟨hsince, rest, hdrop, fun hactive hstopped => absurd ⟨hactive, hstopped⟩ hdead⟩
  · exact ⟨hsince, rest, hdrop, hqueue⟩

theorem register (h : Kept state) {ns : String} {options : RegisterOptions} {after : SettingsProvider}
    (hguard : ns ∉ state.inFlight.keys) (hstep : state.register ns options = .ok after) :
    Kept after := by
  obtain ⟨_, hnew, hstep⟩ := bind_eq_ok.mp hstep
  obtain ⟨resolved, hresolved, hstep⟩ := bind_eq_ok.mp hstep
  cases hstep
  have hgrown := grown_append state.registrations
    ⟨ns, options, resolved, 0, [], [], [state.document.get? ns]⟩
  refine ⟨?_, ?_, ?_, fun applied hmem => (h.landed applied hmem).transfer hgrown⟩
  · intro registration hmem
    rcases List.mem_append.mp hmem with hold | hadded
    · exact h.sound registration hold
    · cases List.mem_singleton.mp hadded
      refine ⟨⟨resolved, ?_, .inl rfl⟩, rfl, ⟨resolved, rfl⟩,
        fun _ hnone => absurd hnone List.not_mem_nil⟩
      exact @SettingsRegistration.lastGood_observe_ok ⟨ns, options, resolved, 0, [], [], []⟩ _ _ hresolved
  · intro other id hget
    dsimp only at hget
    rw [OrderedMap.get?_set] at hget
    split at hget
    · rename_i heq
      cases hget
      subst heq
      obtain ⟨contents, hcontents, -⟩ := bind_eq_ok.mp hresolved
      have hadded : (state.registrations ++ [(⟨other, options, resolved, 0, [], [],
          [state.document.get? other]⟩ : SettingsRegistration)])[state.registrations.length]? =
          some ⟨other, options, resolved, 0, [], [], [state.document.get? other]⟩ := by
        rw [List.getElem?_append_right le_rfl, Nat.sub_self]
        rfl
      exact ⟨⟨_, hadded, rfl, rfl⟩, contents, hcontents⟩
    · obtain ⟨⟨old, hold, hfacts⟩, hreadable⟩ := h.owned other id hget
      refine ⟨⟨old, ?_, hfacts⟩, hreadable⟩
      exact (List.getElem?_append_left (List.getElem?_eq_some_iff.mp hold).1).trans hold
  · intro other flight hflight
    have hflying := h.flying other flight hflight
    refine hflying.transfer hgrown hflying.undisturbed fun id hget => ?_
    dsimp only at hget
    rw [OrderedMap.get?_set, if_neg ?_] at hget
    · exact hflying.owner id hget
    · rintro rfl
      exact hguard (OrderedMap.mem_keys_of_get? hflight)

theorem dispose (h : Kept state) (ns : String) :
    Kept { state with owners := state.owners.delete ns } := by
  have hget : ∀ {other id}, (state.owners.delete ns).get? other = some id →
      state.owners.get? other = some id := by
    intro other id hdeleted
    rw [OrderedMap.get?_delete] at hdeleted
    split at hdeleted
    · cases hdeleted
    · exact hdeleted
  refine ⟨h.sound, ?_, ?_, fun applied hmem => (h.landed applied hmem).transfer (.refl _)⟩
  · intro other id howner
    have howned := h.owned other id (hget howner)
    exact ⟨howned.found, howned.readable⟩
  · intro other flight hflight
    have hflying := h.flying other flight hflight
    exact hflying.transfer (.refl _) hflying.undisturbed fun id howner =>
      hflying.owner id (hget howner)

theorem stop (h : Kept state)
    (hguard : ∀ entry ∈ state.inFlight.entries, state.owners.get? entry.1 = none) :
    Kept { state with stopped := true } := by
  refine ⟨?_, ?_, ?_, fun applied hmem => (h.landed applied hmem).transfer (.refl _)⟩
  · intro registration hmem
    have hsound := h.sound registration hmem
    refine ⟨hsound.current, hsound.counted, hsound.linked, fun watcher hwatcher => ?_⟩
    obtain ⟨hsince, rest, hdrop, -⟩ := hsound.follows watcher hwatcher
    exact ⟨hsince, rest, hdrop, nofun⟩
  · intro ns id howner
    have howned := h.owned ns id howner
    exact ⟨howned.found, howned.readable⟩
  · intro ns flight hflight
    have hflying := h.flying ns flight hflight
    refine hflying.transfer (.refl _) hflying.undisturbed fun id howner => ?_
    have hnone := hguard (ns, flight) (OrderedMap.mem_entries_iff.mpr hflight)
    rw [show state.owners.get? ns = some id from howner] at hnone
    cases hnone

theorem requeue (h : Kept state) (queues : String → List Write)
    (settled : List (Write × Except String Unit)) :
    Kept { state with writeQueues := queues, settled := settled } := by
  refine ⟨h.sound, ?_, ?_, fun applied hmem => (h.landed applied hmem).transfer (.refl _)⟩
  · intro ns id howner
    have howned := h.owned ns id howner
    exact ⟨howned.found, howned.readable⟩
  · intro ns flight hflight
    have hflying := h.flying ns flight hflight
    exact hflying.transfer (.refl _) hflying.undisturbed hflying.owner

theorem drop (h : Kept state) (ns : String) (settled : List (Write × Except String Unit)) :
    Kept { state with inFlight := state.inFlight.delete ns, settled := settled } := by
  refine ⟨h.sound, ?_, ?_, fun applied hmem => (h.landed applied hmem).transfer (.refl _)⟩
  · intro other id howner
    have howned := h.owned other id howner
    exact ⟨howned.found, howned.readable⟩
  · intro other flight hflight
    dsimp only at hflight
    rw [OrderedMap.get?_delete] at hflight
    split at hflight
    · cases hflight
    · have hflying := h.flying other flight hflight
      exact hflying.transfer (.refl _) hflying.undisturbed hflying.owner

theorem flying_prepare (h : Kept state) {ns : String} {write : Write} {flight : InFlight}
    (hguard : (state.document.get? ns).isSome = true ∨
      (write.snapshot.applyTo .empty).toOption.all (fun contents => !contents.fields.isEmpty) = true)
    (hprepare : state.prepare ns write = .ok flight) : Flying state ns flight := by
  obtain ⟨_, hrunning, hprepare⟩ := bind_eq_ok.mp hprepare
  obtain ⟨_, howner, hprepare⟩ := bind_eq_ok.mp hprepare
  obtain ⟨registration, hregistration, hprepare⟩ := bind_eq_ok.mp hprepare
  obtain ⟨found, hfound, hprepare⟩ := bind_eq_ok.mp hprepare
  obtain ⟨_, hexpected, hprepare⟩ := bind_eq_ok.mp hprepare
  obtain ⟨contents, hcontents, hprepare⟩ := bind_eq_ok.mp hprepare
  obtain ⟨next, hnext, hprepare⟩ := bind_eq_ok.mp hprepare
  cases hprepare
  have hget := of_decide_eq_true (require_eq_ok.mp howner)
  have hindex := expect_eq_ok.mp hregistration
  have hstopped : state.stopped = false := by simpa using hrunning
  have hsound := h.sound registration (List.mem_of_getElem? hindex)
  obtain ⟨⟨owner, howner, hns, hlast⟩, -⟩ := h.owned ns _ hget
  rw [hindex] at howner
  cases howner
  refine ⟨⟨registration, hindex, hns, le_rfl, ?_, ?_⟩, ⟨found, hfound, rfl⟩,
    ⟨registration, hindex, hnext⟩, ?_, sameRaw_refl _, ?_⟩
  · rw [List.take_length]
    exact hlast
  · intro revision hrevision
    have hall := require_eq_ok.mp hexpected
    rw [show write.expectedRevision = some revision from hrevision, Option.all_some, beq_iff_eq] at hall
    rw [revisionAt, List.take_length, ← hsound.counted]
    exact hall
  · intro hnone hempty
    have hread : found = none := by
      have hvalue := readSection_value hfound
      rw [show state.document.get? ns = none from hnone] at hvalue
      exact Option.map_eq_none_iff.mp hvalue
    rw [hread] at hcontents
    rw [show state.document.get? ns = none from hnone] at hguard
    rcases hguard with habsurd | hguard
    · cases habsurd
    · rw [show write.snapshot.applyTo .empty = .ok contents from hcontents] at hguard
      have hnot : (!contents.fields.isEmpty) = true := hguard
      rw [show contents.fields = [] from hempty] at hnot
      cases hnot
  · intro id howner
    rw [hget] at howner
    exact ⟨(Option.some.inj howner).symm, hstopped⟩

theorem begin (h : Kept state) {ns : String} {after : SettingsProvider}
    (hguard : Undisturbed state (.begin ns)) (hstep : state.begin ns = some after) : Kept after := by
  unfold SettingsProvider.begin at hstep
  split at hstep
  · rename_i write rest hqueue hidle
    dsimp only at hstep
    split at hstep
    · rename_i flight hprepare
      cases hstep
      have hwrite : (state.document.get? ns).isSome = true ∨
          (write.snapshot.applyTo .empty).toOption.all
            (fun contents => !contents.fields.isEmpty) = true := by
        apply hguard.imp_right
        intro hall
        exact hall write (by rw [hqueue]; rfl)
      have hnew := h.flying_prepare hwrite hprepare
      refine ⟨h.sound, ?_, ?_, fun applied hmem => (h.landed applied hmem).transfer (.refl _)⟩
      · intro other id howner
        have howned := h.owned other id howner
        exact ⟨howned.found, howned.readable⟩
      · intro other flying hflying
        dsimp only at hflying
        rw [OrderedMap.get?_set] at hflying
        split at hflying
        · rename_i heq
          cases hflying
          subst heq
          exact hnew.transfer (.refl _) hnew.undisturbed hnew.owner
        · have hold := h.flying other flying hflying
          exact hold.transfer (.refl _) hold.undisturbed hold.owner
    · cases hstep
      exact h.requeue _ _
  · cases hstep

/-- The section a write was computed from and the one it replaces differ from the same others. -/
theorem flying_same {ns : String} {flight : InFlight} (h : Flying state ns flight) :
    sameRaw (some flight.current.value) (some flight.contents.value) =
      sameRaw (state.document.get? ns) (some flight.contents.value) := by
  obtain ⟨found, hfound, hcurrent⟩ := h.current
  have hvalue := readSection_value hfound
  have hundisturbed := h.undisturbed
  cases found with
  | some contents =>
    rw [hcurrent, Option.getD_some, show some contents.value = flight.stored from hvalue]
    exact sameRaw_congr hundisturbed _
  | none =>
    have hstored : flight.stored = none := hvalue.symm
    rw [hstored] at hundisturbed
    have hdocument : state.document.get? ns = none := by
      cases hget : state.document.get? ns with
      | none => rfl
      | some value =>
        rw [hget] at hundisturbed
        cases hundisturbed
    have hne := h.nonempty hstored
    rw [hdocument, hcurrent]
    cases hfields : flight.contents.fields with
    | nil => exact absurd hfields hne
    | cons field fields =>
      have hlength : (Json.obj []).deepEqual (.obj flight.contents.fields) = false := by
        rw [hfields]
        rfl
      exact hlength

theorem sound_store (h : Kept state) {ns : String} {flight : InFlight} (hflying : Flying state ns flight)
    {registration : SettingsRegistration}
    (hindex : state.registrations[flight.write.registration]? = some registration)
    (howner : state.owners.get? ns = some flight.write.registration) :
    Sound state.stopped (registration.store flight) := by
  have hsound := h.sound registration (List.mem_of_getElem? hindex)
  obtain ⟨⟨owner, hfound, hns, hlast⟩, -⟩ := h.owned ns _ howner
  rw [hindex] at hfound
  cases hfound
  obtain ⟨same, hsame, hnext⟩ := hflying.resolves
  rw [hindex] at hsame
  cases hsame
  have hresolves : registration.resolves (some flight.contents.value) = .ok flight.next := by
    rw [SettingsRegistration.resolves, resolveRaw, readSection_section]
    exact hnext
  exact hsound.commit hlast (flying_same hflying) hresolves

theorem extends_store (registration : SettingsRegistration) (flight : InFlight) :
    Extends registration (registration.store flight) := by
  unfold SettingsRegistration.store
  refine ⟨?_, ?_, [some flight.contents.value], ?_⟩
  · rw [SettingsRegistration.observe, SettingsRegistration.ns_commit,
      SettingsRegistration.ns_bumpRevision]
  · rw [SettingsRegistration.observe, SettingsRegistration.options_commit,
      SettingsRegistration.options_bumpRevision]
  · rw [SettingsRegistration.observe, SettingsRegistration.history_commit,
      SettingsRegistration.history_bumpRevision]

theorem store (h : Kept state) {ns : String} {flight : InFlight}
    (hflight : state.inFlight.get? ns = some flight) : Kept (state.store ns flight) := by
  have hflying := h.flying ns flight hflight
  have hgrown : Grown state.registrations (state.store ns flight).registrations := by
    unfold SettingsProvider.store
    dsimp only
    split
    · exact grown_modify fun old => extends_store old flight
    · split
      · exact grown_modify fun old => ⟨rfl, rfl, [some flight.contents.value], rfl⟩
      · exact .refl _
  have hdocument : ∀ other, (state.store ns flight).document.get? other =
      if other = ns then some flight.contents.value else state.document.get? other :=
    fun other => OrderedMap.get?_set _ _ _ other
  have hothers : ∀ {other id registration}, state.owners.get? other = some id → other ≠ ns →
      state.registrations[id]? = some registration →
      (state.store ns flight).registrations[id]? = some registration := by
    intro other id registration hget hne hindex
    obtain ⟨⟨found, hfound, hns, -⟩, -⟩ := h.owned other id hget
    unfold SettingsProvider.store
    dsimp only
    have hid : ∀ owner, state.owners.get? ns = some owner → owner ≠ id := by
      rintro owner howner rfl
      obtain ⟨⟨same, hsame, hsame_ns, -⟩, -⟩ := h.owned ns owner howner
      rw [hfound] at hsame
      cases hsame
      exact hne (hns.symm.trans hsame_ns)
    split
    · rename_i howner
      rw [List.getElem?_modify, hindex]
      dsimp only [Option.map_eq_map, Option.map_some]
      rw [if_neg (hid _ howner.1)]
    · split
      · rename_i owner howner
        rw [List.getElem?_modify, hindex]
        dsimp only [Option.map_eq_map, Option.map_some]
        rw [if_neg (hid _ howner)]
      · exact hindex
  refine ⟨?_, ?_, ?_, ?_⟩
  · intro registration hmem
    unfold SettingsProvider.store at hmem
    dsimp only at hmem
    split at hmem
    · rename_i howner
      rcases mem_modify hmem with hold | ⟨old, hold, rfl⟩
      · exact h.sound registration hold
      · exact h.sound_store hflying hold howner.1
    · rename_i hgone
      split at hmem
      · rename_i owner howner
        have hfacts := hflying.owner owner howner
        exact absurd ⟨howner.trans (congrArg some hfacts.1), hfacts.2⟩ hgone
      · exact h.sound registration hmem
  · intro other id hget
    by_cases hne : other = ns
    · subst hne
      have hget : state.owners.get? other = some id := hget
      obtain ⟨rfl, hstopped⟩ := hflying.owner id hget
      obtain ⟨⟨registration, hindex, hns, -⟩, -⟩ := h.owned other _ hget
      have hread : (state.store other flight).document.get? other = some flight.contents.value := by
        rw [hdocument, if_pos rfl]
      refine ⟨⟨registration.store flight, ?_, ?_, ?_⟩, ?_⟩
      · unfold SettingsProvider.store
        dsimp only
        rw [if_pos ⟨hget, hstopped⟩, List.getElem?_modify, hindex]
        dsimp only [Option.map_eq_map, Option.map_some]
        rw [if_pos rfl]
      · exact (extends_store registration flight).ns.trans hns
      · rw [hread, SettingsRegistration.store, SettingsRegistration.observe]
        exact List.getLast?_concat
      · rw [hread]
        exact ⟨_, readSection_section other flight.contents⟩
    · obtain ⟨⟨registration, hindex, hns, hlast⟩, hreadable⟩ := h.owned other id hget
      have hread : (state.store ns flight).document.get? other = state.document.get? other := by
        rw [hdocument, if_neg hne]
      exact ⟨⟨registration, hothers hget hne hindex, hns, by rw [hread]; exact hlast⟩,
        by rw [hread]; exact hreadable⟩
  · intro other flying hget
    have hdeleted : (state.inFlight.delete ns).get? other = some flying := hget
    rw [OrderedMap.get?_delete] at hdeleted
    split at hdeleted
    · cases hdeleted
    · rename_i hne
      have hold := h.flying other flying hdeleted
      refine hold.transfer hgrown ?_ hold.owner
      rw [hdocument, if_neg hne]
      exact hold.undisturbed
  · intro applied hmem
    rcases List.mem_append.mp hmem with hold | hnew
    · exact (h.landed applied hold).transfer hgrown
    · cases List.mem_singleton.mp hnew
      exact ⟨hflying.stamped.grown hgrown, hflying.undisturbed⟩

theorem extends_republish (registration : SettingsRegistration) (before after : Raw) :
    Extends registration (registration.republish before after) := by
  unfold SettingsRegistration.republish
  refine ⟨?_, ?_, [after], ?_⟩
  · split
    · rw [SettingsRegistration.observe, SettingsRegistration.ns_commit,
        SettingsRegistration.ns_bumpRevision]
    · rfl
  · split
    · rw [SettingsRegistration.observe, SettingsRegistration.options_commit,
        SettingsRegistration.options_bumpRevision]
    · rfl
  · split
    · rw [SettingsRegistration.observe, SettingsRegistration.history_commit,
        SettingsRegistration.history_bumpRevision]
    · rfl

theorem publish (h : Kept state) {doc : Document} (hguard : Undisturbed state (.publish doc)) :
    Kept (state.publish doc) := by
  obtain ⟨hacceptable, hundisturbed⟩ := hguard
  have hindex : ∀ (id : Nat) {registration : SettingsRegistration},
      state.registrations[id]? = some registration →
      (state.publish doc).registrations[id]? = some (
        if state.owners.get? registration.ns = some id then
          registration.republish (state.document.get? registration.ns) (doc.get? registration.ns)
        else registration) := by
    intro id registration hold
    rw [SettingsProvider.publish, List.getElem?_mapIdx, hold]
    rfl
  have hgrown : Grown state.registrations (state.publish doc).registrations := by
    intro id old hold
    refine ⟨_, hindex id hold, ?_⟩
    split
    · exact extends_republish old _ _
    · exact .refl old
  have hmiss : ∀ {ns id registration message}, state.owners.get? ns = some id →
      state.registrations[id]? = some registration →
      registration.resolves (doc.get? ns) = .error message →
      sameRaw (state.document.get? ns) (doc.get? ns) = true := by
    intro ns id registration message hget hold hraw
    rcases hacceptable (ns, id) (OrderedMap.mem_entries_iff.mpr hget) with hall | hsame
    · dsimp only at hall
      rw [hold, Option.all_some, hraw] at hall
      cases hall
    · exact hsame
  refine ⟨?_, ?_, ?_, fun applied hmem => (h.landed applied hmem).transfer hgrown⟩
  · intro new hnew
    obtain ⟨id, hid⟩ := List.mem_iff_getElem?.mp hnew
    rw [SettingsProvider.publish, List.getElem?_mapIdx] at hid
    obtain ⟨old, hold, rfl⟩ := Option.map_eq_some_iff.mp hid
    have hsound := h.sound old (List.mem_of_getElem? hold)
    split
    · rename_i hget
      obtain ⟨⟨owner, howner, hns, hlast⟩, contents, hcontents⟩ := h.owned _ id hget
      rw [hold] at howner
      cases howner
      have hreadable : old.readable (state.document.get? old.ns) = state.document.get? old.ns := by
        unfold SettingsRegistration.readable
        rw [hcontents]
        exact readSection_value hcontents
      unfold SettingsRegistration.republish
      split
      · rename_i next hnext
        exact hsound.commit hlast (by rw [hreadable]) hnext
      · rename_i message hraw
        exact hsound.observe hlast (hmiss hget hold hraw) hraw
    · exact hsound
  · intro ns id hget
    have hget : state.owners.get? ns = some id := hget
    obtain ⟨⟨registration, hold, hns, hlast⟩, contents, hcontents⟩ := h.owned ns id hget
    subst hns
    have hnew := hindex id hold
    rw [if_pos hget] at hnew
    refine ⟨⟨_, hnew, (extends_republish registration _ _).ns, ?_⟩, ?_⟩
    · unfold SettingsRegistration.republish
      split
      · rw [SettingsRegistration.observe]
        exact List.getLast?_concat
      · exact List.getLast?_concat
    · cases hraw : registration.resolves (doc.get? registration.ns) with
      | ok next =>
        obtain ⟨found, hfound, -⟩ := bind_eq_ok.mp hraw
        exact ⟨found, hfound⟩
      | error message => exact readSection_same (hmiss hget hold hraw) hcontents
  · intro ns flight hflight
    have hflying := h.flying ns flight hflight
    refine hflying.transfer hgrown ?_ hflying.owner
    exact sameRaw_trans _ _ _ hflying.undisturbed
      (hundisturbed ns (OrderedMap.mem_keys_of_get? hflight))

theorem step (h : Kept state) {op : SettingsOp} {after : SettingsProvider}
    (hguard : Undisturbed state op) (hstep : state.step op = some after) : Kept after := by
  cases op with
  | register ns options =>
    unfold SettingsProvider.step at hstep
    dsimp only at hstep
    split at hstep
    · rename_i registered hregistered
      cases hstep
      exact h.register hguard hregistered
    · cases hstep
      exact h
  | dispose ns =>
    unfold SettingsProvider.step at hstep
    dsimp only at hstep
    split at hstep
    · cases hstep
      exact h.dispose ns
    · cases hstep
  | watch registration =>
    cases hstep
    exact h.watch registration
  | unwatch registration watcher =>
    cases hstep
    exact h.modifyWatcher fun _ _ ⟨hsince, rest, hdrop, _⟩ => ⟨hsince, rest, hdrop, nofun⟩
  | invoke registration watcher =>
    cases hstep
    exact h.invoke registration watcher
  | returned registration watcher =>
    cases hstep
    exact h.modifyWatcher fun _ _ ⟨hsince, rest, hdrop, hqueue⟩ => ⟨hsince, rest, hdrop, hqueue⟩
  | write ns input expectedRevision =>
    unfold SettingsProvider.step at hstep
    dsimp only at hstep
    split at hstep
    · rename_i queued hqueued
      cases hstep
      obtain ⟨_, -, hqueued⟩ := bind_eq_ok.mp hqueued
      obtain ⟨_, -, hqueued⟩ := bind_eq_ok.mp hqueued
      obtain ⟨_, -, hqueued⟩ := bind_eq_ok.mp hqueued
      obtain ⟨_, -, hqueued⟩ := bind_eq_ok.mp hqueued
      cases hqueued
      exact h.requeue _ state.settled
    · cases hstep
      exact h
  | begin ns => exact h.begin hguard hstep
  | persisted ns =>
    obtain ⟨flight, hflight, rfl⟩ := Option.map_eq_some_iff.mp hstep
    exact h.store hflight
  | failed ns message =>
    obtain ⟨flight, hflight, rfl⟩ := Option.map_eq_some_iff.mp hstep
    exact h.drop ns _
  | publish doc =>
    cases hstep
    exact h.publish hguard
  | stop =>
    cases hstep
    exact h.stop hguard

end Kept

structure Consistent (state : SettingsProvider) : Prop where
  /-- The history of a registration in place ends with the stored section. -/
  current : ∀ ns id, state.owners.get? ns = some id → ∃ registration,
    state.registrations[id]? = some registration ∧ registration.ns = ns ∧
      registration.history.getLast? = some (state.document.get? ns) ∧ UpToDate registration
  counted : ∀ registration ∈ state.registrations,
    registration.revision = changes sameRaw registration.history
  /-- An expected revision names the section that the write was applied to, at all its places. -/
  named : ∀ applied ∈ state.applied, ∀ revision, applied.expectedRevision = some revision →
    ∃ registration, state.registrations[applied.registration]? = some registration ∧
      registration.ns = applied.ns ∧ ∃ position ≤ registration.history.length,
        (registration.history.take position).getLast? = some applied.computedFrom ∧
        revision = revisionAt registration position ∧
        ∀ other ≤ registration.history.length, ∀ raw,
          (registration.history.take other).getLast? = some raw →
          revision = revisionAt registration other → sameRaw raw applied.computedFrom = true
  fresh : ∀ applied ∈ state.applied, sameRaw applied.computedFrom applied.replaced = true
  linked : ∀ registration ∈ state.registrations, Linked registration.commits registration.resolved
  follows : ∀ registration ∈ state.registrations, ∀ watcher ∈ registration.watchers,
    Follows state.stopped registration.commits watcher

def Harmless (state : SettingsProvider) : Prop :=
  ∀ op after write message, state.step op = some after →
    after.settled = state.settled ++ [(write, .error message)] →
      after.document = state.document ∧ after.registrations = state.registrations

theorem sameRaw_of_revisionAt {registration : SettingsRegistration} {earlier later : Nat} {a b : Raw}
    (hle : earlier ≤ later) (ha : (registration.history.take earlier).getLast? = some a)
    (hb : (registration.history.take later).getLast? = some b)
    (hrevision : revisionAt registration later = revisionAt registration earlier) :
    sameRaw a b = true := by
  obtain ⟨more, hmore⟩ : ∃ more, registration.history.take later =
      registration.history.take earlier ++ more :=
    let ⟨more, hmore⟩ := (List.take_prefix_take_left hle : registration.history.take earlier <+: _)
    ⟨more, hmore.symm⟩
  unfold revisionAt at hrevision
  rw [hmore] at hb hrevision
  exact same_of_changes_append sameRaw_refl sameRaw_trans ha hb hrevision

theorem Kept.consistent {state : SettingsProvider} (h : Kept state) : Consistent state where
  current := by
    intro ns id hget
    obtain ⟨⟨registration, hindex, hns, hlast⟩, -⟩ := h.owned ns id hget
    exact ⟨registration, hindex, hns, hlast, (h.sound registration (List.mem_of_getElem? hindex)).current⟩
  counted := fun registration hmem => (h.sound registration hmem).counted
  named := by
    intro applied hmem revision hexpected
    obtain ⟨registration, hindex, hns, hposition, hlast, hrevision⟩ :=
      (h.landed applied hmem).stamped.found
    have hnamed := hrevision revision hexpected
    refine ⟨registration, hindex, hns, applied.position, hposition, hlast, hnamed, ?_⟩
    intro other hother raw hraw hsame
    have hcount : revisionAt registration other = revisionAt registration applied.position :=
      Int.ofNat.inj (hsame.symm.trans hnamed)
    rcases Nat.le_total other applied.position with hle | hle
    · exact sameRaw_of_revisionAt hle hraw hlast hcount.symm
    · exact sameRaw_symm (sameRaw_of_revisionAt hle hlast hraw hcount)
  fresh := fun applied hmem => (h.landed applied hmem).undisturbed
  linked := fun registration hmem => (h.sound registration hmem).linked
  follows := fun registration hmem => (h.sound registration hmem).follows

def counters (fields : List (String × Int))
    (h : (Json.obj (fields.map fun field => (field.1, Json.int field.2))).WellFormed) : Document :=
  OrderedMap.empty.set "app" ⟨_, h⟩

end Harness.Settings
