import Harness.SessionQuery.Where

namespace Harness.SessionQuery

open Harness.Foundation

structure Compiled {ι : Type} (row : ι → Sql.Row) (state : Clauses) (keeps : ι → Prop) :
    Prop where
  clauses : ∃ clauses : List Sql.Clause, state.clauses = clauses.map Sql.Clause.tokens ∧
    state.params.map Binding.value = Sql.Clause.bindings clauses ∧
    ∀ i, (∀ clause ∈ clauses, clause.condition.Holds (row i)) ↔ keeps i

section Compiling

variable {ι : Type} {row : ι → Sql.Row} {state : Clauses} {keeps : ι → Prop}

theorem Compiled.start : Compiled row .start fun _ => True := by
  constructor
  refine ⟨[], rfl, rfl, ?_⟩
  intro i
  exact iff_of_true nofun trivial

theorem Compiled.imp {keeps' : ι → Prop} (h : Compiled row state keeps)
    (hiff : ∀ i, keeps i ↔ keeps' i) : Compiled row state keeps' := by
  obtain ⟨clauses, htokens, hvalues, hholds⟩ := h.clauses
  exact ⟨clauses, htokens, hvalues, fun i => (hholds i).trans (hiff i)⟩

theorem Compiled.extend (h : Compiled row state keeps) (clause : Sql.Clause)
    (params : List Binding) (hparams : params.map Binding.value = clause.values) :
    Compiled row ⟨state.clauses ++ [clause.tokens], state.params ++ params⟩
      fun i => keeps i ∧ clause.condition.Holds (row i) := by
  obtain ⟨clauses, htokens, hvalues, hholds⟩ := h.clauses
  constructor
  refine ⟨clauses ++ [clause], ?_, ?_, ?_⟩
  · rw [htokens, List.map_append, List.map_singleton]
  · rw [List.map_append, hvalues, hparams, Sql.Clause.bindings, Sql.Clause.bindings,
      List.flatMap_append, List.flatMap_singleton]
  · intro i
    rw [List.forall_mem_append, List.forall_mem_singleton, hholds i]

theorem Compiled.push (h : Compiled row state keeps) (clause : Sql.Clause)
    (hvalues : clause.values = []) : Compiled row (state.push clause.tokens)
      fun i => keeps i ∧ clause.condition.Holds (row i) := by
  have hextend := h.extend clause [] hvalues.symm
  rw [List.append_nil] at hextend
  exact hextend

theorem memberOf_eq_ok {params : List Binding} {column : String} {values : List Binding}
    {member : List Binding × List Sql.Token} (hne : values ≠ [])
    (h : Clauses.memberOf params column values = .ok member) :
    member = (params ++ values, (Sql.Clause.inList column (values.map Binding.value)
      (mt List.map_eq_nil_iff.mp hne)).tokens) := by
  rw [Clauses.memberOf, Clauses.appendListBindings, bind_eq_ok] at h
  obtain ⟨marked, hmarked, h⟩ := h
  rw [bind_eq_ok] at hmarked
  obtain ⟨_, _, hmarked⟩ := hmarked
  cases hmarked
  cases h
  simp only [Sql.Clause.inList, Sql.Clause.marks, List.map_map]
  rfl

theorem map_value_text (values : List Units) :
    (values.map Binding.text).map Binding.value =
      (values.map Utf16.toText).map Sql.Value.text := by
  rw [List.map_map, List.map_map]
  rfl

theorem holds_member {column : String} (value : ι → Option String)
    (hcolumn : ∀ i, row i column = ((value i).map .text).getD .null) (values : List String)
    (hne : values.map Sql.Value.text ≠ []) (i : ι) :
    (Sql.Clause.inList column (values.map .text) hne).condition.Holds (row i) ↔
      ∃ text ∈ values, value i = some text := by
  rw [Sql.Clause.holds_inList, hcolumn]
  simp only [List.mem_map, exists_exists_and_eq_and]
  cases value i with
  | none =>
    constructor
    · rintro ⟨text, -, htext⟩
      cases htext
    · rintro ⟨text, -, htext⟩
      cases htext
  | some content =>
    apply exists_congr
    intro text
    rw [Option.some.injEq]
    exact and_congr_right fun _ => Sql.Value.equal_text content text

theorem Compiled.addList {column : String} {values : List Units} {next : Clauses}
    (h : Compiled row state keeps) (value : ι → String)
    (hcolumn : ∀ i, row i column = .text (value i))
    (hnext : state.addList column (values.map .text) = .ok next) :
    Compiled row next fun i => keeps i ∧ value i ∈ values.map Utf16.toText := by
  rw [Clauses.addList] at hnext
  split at hnext
  · next hempty =>
    cases List.map_eq_nil_iff.mp hempty
    cases hnext
    apply (h.push .never rfl).imp
    intro i
    rw [iff_false_intro Sql.Clause.holds_never, List.map_nil, iff_false_intro List.not_mem_nil]
  · next hne =>
    rw [bind_eq_ok] at hnext
    obtain ⟨member, hmember, hnext⟩ := hnext
    rw [memberOf_eq_ok hne hmember] at hnext
    cases hnext
    apply (h.extend (Sql.Clause.inList column ((values.map .text).map Binding.value) _) _ rfl).imp
    intro i
    simp only [map_value_text]
    rw [holds_member (fun i => some (value i)) (fun i => hcolumn i)]
    simp only [Option.some.injEq, exists_eq_right']

theorem holds_atLeast {column : String} {value : ι → Int}
    (hcolumn : ∀ i, row i column = .integer (value i)) (i : ι) (bound : Double) :
    (Sql.Clause.atLeast column (Binding.number bound).value).condition.Holds (row i) ↔
      bound.le (.finite (value i)) = true := by
  change ((Binding.number bound).value.le (row i column).castInteger) = some true ↔ _
  rw [hcolumn]
  cases bound with
  | finite q => exact Option.some_inj
  | infinite negative => exact Option.some_inj
  | nan => exact iff_of_false nofun nofun

theorem holds_atMost {column : String} {value : ι → Int}
    (hcolumn : ∀ i, row i column = .integer (value i)) (i : ι) (bound : Double) :
    (Sql.Clause.atMost column (Binding.number bound).value).condition.Holds (row i) ↔
      (Double.finite (value i)).le bound = true := by
  change ((row i column).castInteger.le (Binding.number bound).value) = some true ↔ _
  rw [hcolumn]
  cases bound with
  | finite q => exact Option.some_inj
  | infinite negative => exact Option.some_inj
  | nan => exact iff_of_false nofun nofun

theorem Compiled.addBound {column : String} {next : Clauses} (h : Compiled row state keeps)
    {comparison : Sql.Token} (form : Sql.Value → Sql.Clause)
    (hform : ∀ bound, (form bound).tokens = [.word "CAST", .opening, .word column, .word "AS",
      .word "INTEGER", .closing, comparison, .placeholder] ∧ (form bound).values = [bound])
    (within : ι → Double → Prop)
    (hwithin : ∀ i bound, (form (Binding.number bound).value).condition.Holds (row i) ↔
      within i bound)
    (bound : Option Double) (hnext : state.addBound column comparison bound = .ok next) :
    Compiled row next fun i => keeps i ∧ ∀ limit ∈ bound, within i limit := by
  cases bound with
  | none =>
    cases hnext
    apply h.imp
    intro i
    exact (and_iff_left nofun).symm
  | some bound =>
    rw [Clauses.addBound, bind_eq_ok] at hnext
    obtain ⟨_, _, hnext⟩ := hnext
    obtain ⟨htokens, hvalues⟩ := hform (Binding.number bound).value
    have hextend := h.extend (form (Binding.number bound).value) [.number bound] hvalues.symm
    rw [htokens] at hextend
    cases hnext
    apply hextend.imp
    intro i
    rw [hwithin]
    simp only [Option.mem_some_iff, forall_eq']

theorem matchesRange_iff (value : Int) (range : SessionResultRange) :
    matchesRange value range = true ↔
      (∀ limit ∈ range.from?, limit.le (.finite value) = true) ∧
      ∀ limit ∈ range.to?, (Double.finite value).le limit = true := by
  rw [matchesRange, Bool.and_eq_true]
  apply and_congr
  · cases range.from? with
    | none => exact iff_of_true rfl nofun
    | some limit => simp only [Option.mem_some_iff, forall_eq']
  · cases range.to? with
    | none => exact iff_of_true rfl nofun
    | some limit => simp only [Option.mem_some_iff, forall_eq']

theorem Compiled.addRange {column : String} {range : SessionResultRange} {next : Clauses}
    (h : Compiled row state keeps) (value : ι → Int)
    (hcolumn : ∀ i, row i column = .integer (value i))
    (hnext : state.addRange column range = .ok next) :
    Compiled row next fun i => keeps i ∧ matchesRange (value i) range = true := by
  rw [Clauses.addRange, bind_eq_ok] at hnext
  obtain ⟨middle, hmiddle, hnext⟩ := hnext
  have hlower := h.addBound (Sql.Clause.atLeast column) (fun _ => ⟨rfl, rfl⟩) _
    (holds_atLeast hcolumn) range.from? hmiddle
  have hupper := hlower.addBound (Sql.Clause.atMost column) (fun _ => ⟨rfl, rfl⟩) _
    (holds_atMost hcolumn) range.to? hnext
  apply hupper.imp
  intro i
  rw [matchesRange_iff, and_assoc]

theorem concreteParts_forms {column : String} {value : ι → Option String} {params : List Binding}
    {values : List Units} {members : List Binding × List (List Sql.Token)}
    (hcolumn : ∀ i, row i column = ((value i).map .text).getD .null)
    (h : Clauses.concreteParts params column (values.map .text) = .ok members) :
    ∃ forms : List Sql.Clause, members.2 = forms.map Sql.Clause.tokens ∧
      (forms = [] → values = []) ∧ ∃ added, members.1 = params ++ added ∧
        added.map Binding.value = Sql.Clause.bindings forms ∧
        ∀ i, (∃ form ∈ forms, form.condition.Holds (row i)) ↔
          ∃ text ∈ values.map Utf16.toText, value i = some text := by
  rw [Clauses.concreteParts] at h
  split at h
  · next hempty =>
    cases List.map_eq_nil_iff.mp hempty
    cases h
    refine ⟨[], rfl, fun _ => rfl, [], (List.append_nil params).symm, rfl, ?_⟩
    intro i
    exact iff_of_false nofun nofun
  · next hne =>
    rw [map_eq_ok] at h
    obtain ⟨member, hmember, h⟩ := h
    rw [memberOf_eq_ok hne hmember] at h
    cases h
    refine ⟨[Sql.Clause.inList column ((values.map .text).map Binding.value)
      (mt List.map_eq_nil_iff.mp hne)], rfl, nofun, values.map .text, rfl, ?_, ?_⟩
    · exact (List.flatMap_singleton _ _).symm
    · intro i
      simp only [List.mem_singleton, exists_eq_left, map_value_text]
      exact holds_member value hcolumn (values.map Utf16.toText) _ i

variable (row) in
theorem nullPart_forms (column : String) (values : List (Option Units)) :
    ∃ forms : List Sql.Clause, Clauses.nullPart column values = forms.map Sql.Clause.tokens ∧
      (forms = [] → none ∉ values) ∧ forms.flatMap Sql.Clause.values = [] ∧
      ∀ i, (∃ form ∈ forms, form.condition.Holds (row i)) ↔
        none ∈ values ∧ row i column = .null := by
  rw [Clauses.nullPart]
  split
  · next hmem =>
    refine ⟨[Sql.Clause.isNull column], rfl, (by rintro ⟨⟩), rfl, ?_⟩
    intro i
    simp only [List.mem_singleton, exists_eq_left, Sql.Clause.holds_isNull, hmem, true_and]
  · next hmem =>
    refine ⟨[], rfl, fun _ => hmem, rfl, ?_⟩
    intro i
    exact iff_of_false (by rintro ⟨_, ⟨⟩, _⟩) fun h => hmem h.1

theorem mem_nullable (value : Option String) (values : List (Option Units)) :
    ((∃ text ∈ (values.filterMap id).map Utf16.toText, value = some text) ∨
      none ∈ values ∧ (value.map Sql.Value.text).getD .null = .null) ↔
        value ∈ values.map (Option.map Utf16.toText) := by
  simp only [List.mem_map, List.mem_filterMap, id_eq, exists_eq_right]
  cases value with
  | none =>
    simp only [reduceCtorEq, and_false, exists_false, Option.map_none, Option.getD_none, and_true,
      false_or, Option.map_eq_none_iff, exists_eq_right]
  | some text =>
    simp only [Option.some.injEq, exists_eq_right', Option.map_some, Option.getD_some, reduceCtorEq,
      and_false, or_false, Option.map_eq_some_iff]
    constructor
    · rintro ⟨units, hunits, rfl⟩
      exact ⟨some units, hunits, units, rfl, rfl⟩
    · rintro ⟨_, hmem, units, rfl, rfl⟩
      exact ⟨units, hmem, rfl⟩

theorem Compiled.addNullableList {column : String} {values : List (Option Units)}
    {next : Clauses} (h : Compiled row state keeps) (value : ι → Option String)
    (hcolumn : ∀ i, row i column = ((value i).map .text).getD .null)
    (hnext : state.addNullableList column values = .ok next) :
    Compiled row next fun i => keeps i ∧ value i ∈ values.map (Option.map Utf16.toText) := by
  rw [Clauses.addNullableList] at hnext
  split at hnext
  · next hempty =>
    cases hempty
    cases hnext
    apply (h.push .never rfl).imp
    intro i
    rw [iff_false_intro Sql.Clause.holds_never, List.map_nil, iff_false_intro List.not_mem_nil]
  · next hne =>
    rw [bind_eq_ok] at hnext
    obtain ⟨members, hmembers, hnext⟩ := hnext
    obtain ⟨forms, hparts, hempty, added, hparams, hvalues, hholds⟩ :=
      concreteParts_forms hcolumn hmembers
    cases hnext
    rw [hparts, hparams]
    obtain ⟨nulls, hnulls, hlacks, hbindings, hnull⟩ := nullPart_forms row column values
    rw [hnulls, ← List.map_append]
    have hone : forms ++ nulls ≠ [] := by
      intro h
      obtain ⟨hforms, hnone⟩ := List.append_eq_nil_iff.mp h
      obtain ⟨value, hvalue⟩ := List.exists_mem_of_ne_nil values hne
      cases value with
      | none => exact hlacks hnone hvalue
      | some text =>
        have htext : text ∈ values.filterMap id := List.mem_filterMap.mpr ⟨some text, hvalue, rfl⟩
        rw [hempty hforms] at htext
        cases htext
    obtain ⟨first, rest, hforms⟩ := List.exists_cons_of_ne_nil hone
    have hextend := h.extend (Sql.Clause.group first rest) added (by
      rw [hvalues]
      change _ = Sql.Clause.bindings (first :: rest)
      rw [← hforms, Sql.Clause.bindings, Sql.Clause.bindings, List.flatMap_append, hbindings,
        List.append_nil])
    rw [hforms]
    apply hextend.imp
    intro i
    rw [Sql.Clause.holds_group, ← hforms]
    simp only [List.mem_append, or_and_right, exists_or]
    rw [hholds, hnull, hcolumn, mem_nullable]

theorem any_availability {record : SessionRecord} {value : SessionAvailability}
    {values : List SessionAvailability} (h : ∀ other ∈ values, other = value)
    (hmem : value ∈ values) :
    (values.any fun value => if value = .live then record.live else record.persisted) =
      if value = .live then record.live else record.persisted := by
  rw [Bool.eq_iff_iff, List.any_eq_true]
  constructor
  · rintro ⟨other, hother, hkept⟩
    rw [h other hother] at hkept
    exact hkept
  · intro hkept
    exact ⟨value, hmem, hkept⟩

theorem holds_truth {column : String} {value : ι → Bool}
    (hcolumn : ∀ i, row i column = .integer (if value i then 1 else 0)) (i : ι) :
    (Sql.Clause.flag column 1).condition.Holds (row i) ↔ value i = true := by
  rw [Sql.Clause.holds_flag, hcolumn, Sql.Value.equal_integer]
  cases value i with
  | false => exact iff_of_false nofun nofun
  | true => exact iff_of_true rfl rfl

theorem ne_of_eraseDups {values : List SessionAvailability} {a b : SessionAvailability}
    {rest : List SessionAvailability} (h : values.eraseDups = a :: b :: rest) : b ≠ a := by
  cases values with
  | nil => cases h
  | cons first values =>
    rw [List.eraseDups_cons, List.cons.injEq] at h
    obtain ⟨rfl, h⟩ := h
    have hmem : b ∈ (values.filter fun other => !other == first).eraseDups :=
      h ▸ List.mem_cons_self
    rw [List.mem_eraseDups, List.mem_filter] at hmem
    exact ne_of_beq_false (Bool.not_eq_true' _ |>.mp hmem.2)

theorem Compiled.addAvailability (h : Compiled row state keeps)
    (value : ι → SessionRecord) (values : List SessionAvailability)
    (hlive : ∀ i, row i "live" = .integer (if (value i).live then 1 else 0))
    (hpersisted : ∀ i, row i "persisted" = .integer (if (value i).persisted then 1 else 0)) :
    Compiled row (state.addAvailability values) fun i => keeps i ∧
      (values.any fun value' => if value' = .live then (value i).live else (value i).persisted) =
        true := by
  have hmem : ∀ other, other ∈ values.eraseDups ↔ other ∈ values := fun _ => List.mem_eraseDups
  rw [Clauses.addAvailability]
  split
  · next hdistinct =>
    rw [hdistinct] at hmem
    have hempty : values = [] := List.eq_nil_iff_forall_not_mem.mpr fun other hother =>
      List.not_mem_nil ((hmem other).mpr hother)
    subst hempty
    apply (h.push .never rfl).imp
    intro i
    exact and_congr_right fun _ => iff_of_false Sql.Clause.holds_never nofun
  · next hdistinct =>
    rw [hdistinct] at hmem
    apply (h.push (.flag "live" 1) rfl).imp
    intro i
    rw [holds_truth hlive, any_availability
      (fun other hother => List.mem_singleton.mp ((hmem other).mpr hother))
      ((hmem _).mp (List.mem_singleton_self _)), if_pos rfl]
  · next hdistinct =>
    rw [hdistinct] at hmem
    apply (h.push (.flag "persisted" 1) rfl).imp
    intro i
    rw [holds_truth hpersisted, any_availability
      (fun other hother => List.mem_singleton.mp ((hmem other).mpr hother))
      ((hmem _).mp (List.mem_singleton_self _)), if_neg nofun]
  · next hnil hlives hpersists =>
    have hboth : .live ∈ values ∧ .persisted ∈ values := by
      rw [← hmem, ← hmem]
      cases hdistinct : values.eraseDups with
      | nil => exact absurd hdistinct hnil
      | cons a rest =>
        cases rest with
        | nil =>
          cases a with
          | live => exact absurd hdistinct hlives
          | persisted => exact absurd hdistinct hpersists
        | cons b rest =>
          have hne := ne_of_eraseDups hdistinct
          cases a <;> cases b <;> simp only [ne_eq, not_true_eq_false] at hne <;>
            simp only [List.mem_cons, true_or, or_true, and_self]
    apply h.imp
    intro i
    refine (and_iff_left ?_).symm
    rw [List.any_eq_true]
    rcases (value i).observed with hobserved | hobserved
    · exact ⟨.live, hboth.1, by rw [if_pos rfl, hobserved]⟩
    · exact ⟨.persisted, hboth.2, by rw [if_neg nofun, hobserved]⟩

end Compiling

def SessionResultFilter.KeepsBy {β : Type} (read : Units → β) (record : SessionRecord) :
    SessionResultFilter → Prop
  | .id values => read record.header.id ∈ values.map read
  | .cwd values => record.header.cwd.map read ∈ values.map (Option.map read)
  | .createdAt range => matchesRange record.header.createdAt range = true
  | .parent values => record.header.parentSession.map read ∈ values.map (Option.map read)
  | .availability values => (values.any fun value =>
    if value = .live then record.live else record.persisted) = true

def SessionEventMetadataFilter.KeepsBy {β : Type} (read : Units → β)
    (document : SessionEventSearchDocument) : SessionEventMetadataFilter → Prop
  | .seq range => matchesRange document.seq range = true
  | .time range => matchesRange document.time range = true
  | .type values => read document.type ∈ values.map read
  | .surface values => document.surface ∈ values

abbrev Pair := SessionRecord × SessionEventSearchDocument

abbrev pairRow (pair : Pair) : Sql.Row := candidate pair.1 pair.2

theorem Compiled.addSessionFilter {state next : Clauses} {keeps : Pair → Prop}
    (h : Compiled pairRow state keeps) (filter : SessionResultFilter)
    (hnext : state.addSessionFilter filter = .ok next) :
    Compiled pairRow next fun pair => keeps pair ∧ filter.KeepsBy Utf16.toText pair.1 := by
  cases filter with
  | id values => exact h.addList (fun pair => Utf16.toText pair.1.header.id) (fun _ => rfl) hnext
  | cwd values =>
    exact h.addNullableList (fun pair => pair.1.header.cwd.map Utf16.toText) (fun _ => rfl) hnext
  | createdAt range =>
    exact h.addRange (fun pair => pair.1.header.createdAt) (fun _ => rfl) hnext
  | parent values =>
    exact h.addNullableList (fun pair => pair.1.header.parentSession.map Utf16.toText) (fun _ => rfl)
      hnext
  | availability values =>
    cases hnext
    exact h.addAvailability Prod.fst values (fun _ => rfl) fun _ => rfl

theorem SessionEventSurface.name_injective : Function.Injective name := by
  intro a b h
  cases a <;> cases b <;> first | rfl | exact absurd h (by decide)

theorem Compiled.addEventFilter {state next : Clauses} {keeps : Pair → Prop}
    (h : Compiled pairRow state keeps) (filter : SessionEventMetadataFilter)
    (hnext : state.addEventFilter filter = .ok next) :
    Compiled pairRow next fun pair => keeps pair ∧ filter.KeepsBy Utf16.toText pair.2 := by
  cases filter with
  | seq range => exact h.addRange (fun pair => pair.2.seq) (fun _ => rfl) hnext
  | time range => exact h.addRange (fun pair => pair.2.time) (fun _ => rfl) hnext
  | type values => exact h.addList (fun pair => Utf16.toText pair.2.type) (fun _ => rfl) hnext
  | surface values =>
    have hnames : state.addList "surface"
        ((values.map fun value => Utf16.encode value.name).map .text) = .ok next := by
      rw [List.map_map]
      exact hnext
    apply (h.addList (fun pair => pair.2.surface.name) (fun _ => rfl) hnames).imp
    intro pair
    have htexts : (values.map fun value => Utf16.encode value.name).map Utf16.toText =
        values.map SessionEventSurface.name := by
      rw [List.map_map]
      exact List.map_congr_left fun value _ => Utf16.toText_encode value.name
    rw [htexts, List.mem_map_of_injective SessionEventSurface.name_injective]
    rfl

theorem Compiled.foldSession {filters : List SessionResultFilter} {state : Clauses}
    (h : foldOk Clauses.addSessionFilter .start filters = .ok state) :
    Compiled pairRow state fun pair => ∀ filter ∈ filters, filter.KeepsBy Utf16.toText pair.1 := by
  apply foldOk_invariant (fun seen state => Compiled pairRow state fun pair =>
    ∀ filter ∈ seen, filter.KeepsBy Utf16.toText pair.1) ?_ h
      (Compiled.start.imp fun _ => iff_of_true trivial nofun)
  intro seen state filter next hseen hnext
  apply (hseen.addSessionFilter filter hnext).imp
  intro pair
  rw [List.forall_mem_append, List.forall_mem_singleton]

theorem Compiled.foldEvent {filters : List SessionEventMetadataFilter} {state : Clauses}
    (h : foldOk Clauses.addEventFilter .start filters = .ok state) :
    Compiled pairRow state fun pair => ∀ filter ∈ filters, filter.KeepsBy Utf16.toText pair.2 := by
  apply foldOk_invariant (fun seen state => Compiled pairRow state fun pair =>
    ∀ filter ∈ seen, filter.KeepsBy Utf16.toText pair.2) ?_ h
      (Compiled.start.imp fun _ => iff_of_true trivial nofun)
  intro seen state filter next hseen hnext
  apply (hseen.addEventFilter filter hnext).imp
  intro pair
  rw [List.forall_mem_append, List.forall_mem_singleton]

section Finished

variable {ι : Type} {row : ι → Sql.Row} {state : Clauses} {keeps : ι → Prop}
  {condition : SqlWhere}

theorem finish_eq_ok (h : state.finish = .ok condition) :
    condition = ⟨[.word "AND"].intercalate state.clauses, state.params, state.clauses.length⟩ := by
  rw [Clauses.finish, bind_eq_ok] at h
  obtain ⟨_, _, h⟩ := h
  cases h
  rfl

theorem Compiled.keeps_iff (h : Compiled row state keeps) (hfinish : state.finish = .ok condition)
    (i : ι) : condition.keeps (row i) = true ↔ keeps i := by
  obtain ⟨clauses, htokens, hvalues, hholds⟩ := h.clauses
  rw [finish_eq_ok hfinish, SqlWhere.keeps, hvalues, htokens, ← hholds]
  exact Sql.Clause.selects_joined clauses (row i)

theorem Compiled.count_placeholders (h : Compiled row state keeps)
    (hfinish : state.finish = .ok condition) :
    condition.sql.count .placeholder = condition.params.length := by
  obtain ⟨clauses, htokens, hvalues, -⟩ := h.clauses
  rw [finish_eq_ok hfinish, ← List.length_map Binding.value, hvalues, htokens]
  exact Sql.Clause.count_joined clauses "AND"

end Finished

section Materialized

theorem validateRange_eq_ok {name : String} {range result : SessionResultRange}
    (h : validateRange name range = .ok result) : result = range := by
  rw [validateRange] at h
  repeat' split at h
  all_goals cases h
  all_goals rfl

theorem copyRange_validated {kind : String} {filter : RuntimeFilter} {range : SessionResultRange}
    (h : copyRange kind filter = .ok range) : validateRange kind range = .ok range := by
  rw [copyRange] at h
  rw [← validateRange_eq_ok h] at h
  exact h

def SessionResultFilter.Validated : SessionResultFilter → Prop
  | .createdAt range => validateRange "created-at" range = .ok range
  | _ => True

def SessionEventMetadataFilter.Validated : SessionEventMetadataFilter → Prop
  | .seq range => validateRange "seq" range = .ok range
  | .time range => validateRange "time" range = .ok range
  | _ => True

theorem materializeSessionResultFilter_validated {given : RuntimeFilter}
    {filter : SessionResultFilter} (h : materializeSessionResultFilter given = .ok filter) :
    filter.Validated := by
  rw [materializeSessionResultFilter] at h
  split at h
  case h_3 =>
    obtain ⟨range, hrange, rfl⟩ := map_eq_ok.mp h
    exact copyRange_validated hrange
  case h_5 =>
    obtain ⟨values, -, h⟩ := bind_eq_ok.mp h
    obtain ⟨members, -, rfl⟩ := map_eq_ok.mp h
    trivial
  case h_6 => cases h
  all_goals
    obtain ⟨values, -, rfl⟩ := map_eq_ok.mp h
    trivial

theorem materializeSessionEventResultFilter_validated {given : RuntimeFilter}
    {filter : SessionEventMetadataFilter}
    (h : materializeSessionEventResultFilter given = .ok (.metadata filter)) :
    filter.Validated := by
  rw [materializeSessionEventResultFilter] at h
  split at h
  case h_1 | h_2 =>
    obtain ⟨range, hrange, heq⟩ := map_eq_ok.mp h
    cases heq
    exact copyRange_validated hrange
  case h_3 =>
    obtain ⟨values, -, heq⟩ := map_eq_ok.mp h
    cases heq
    trivial
  case h_4 =>
    obtain ⟨values, -, h⟩ := bind_eq_ok.mp h
    obtain ⟨members, -, heq⟩ := map_eq_ok.mp h
    cases heq
    trivial
  case h_5 =>
    split at h <;> cases h
  case h_6 => cases h

theorem materializeSessionResultFilters_validated {given : Option (List RuntimeFilter)}
    {filters : List SessionResultFilter}
    (h : materializeSessionResultFilters given = .ok filters) :
    ∀ filter ∈ filters, filter.Validated := by
  intro filter hfilter
  rw [materializeSessionResultFilters, bind_eq_ok] at h
  obtain ⟨given, -, h⟩ := h
  obtain ⟨raw, -, hraw⟩ := mapM_mem_of_result h hfilter
  exact materializeSessionResultFilter_validated hraw

theorem materializeMetadataFilters_validated {given : Option (List RuntimeFilter)}
    {filters : List SessionEventMetadataFilter}
    (h : materializeMetadataFilters given = .ok filters) :
    ∀ filter ∈ filters, filter.Validated := by
  intro filter hfilter
  rw [materializeMetadataFilters, bind_eq_ok] at h
  obtain ⟨_, -, h⟩ := h
  rw [materializeSessionEventResultFilters, bind_eq_ok] at h
  obtain ⟨materialized, hmaterialized, h⟩ := h
  obtain ⟨given, -, hmaterialized⟩ := bind_eq_ok.mp hmaterialized
  cases h
  obtain ⟨result, hresult, hkept⟩ := List.mem_filterMap.mp hfilter
  obtain ⟨raw, -, hraw⟩ := mapM_mem_of_result hmaterialized hresult
  cases result with
  | metadata result =>
    cases hkept
    exact materializeSessionEventResultFilter_validated hraw
  | text text => cases hkept

theorem contains_by_id {values : List Units} {value : Units} :
    values.contains value = true ↔ id value ∈ values.map id := by
  rw [List.map_id, List.contains_iff_mem, id_eq]

theorem contains_by_map_id {values : List (Option Units)} {value : Option Units} :
    values.contains value = true ↔ value.map id ∈ values.map (Option.map id) := by
  rw [Option.map_id_fun, List.map_id, List.contains_iff_mem, id_eq]

theorem sessionPredicate_validated {filter : SessionResultFilter} (h : filter.Validated) :
    ∃ predicate, sessionPredicate filter = .ok predicate ∧
      ∀ record, predicate record = true ↔ filter.KeepsBy id record := by
  cases filter with
  | id values => exact ⟨_, rfl, fun record => contains_by_id⟩
  | cwd values => exact ⟨_, rfl, fun record => contains_by_map_id⟩
  | createdAt range =>
    refine ⟨fun record => matchesRange record.header.createdAt range, ?_, fun _ => Iff.rfl⟩
    rw [sessionPredicate, h]
    rfl
  | parent values => exact ⟨_, rfl, fun record => contains_by_map_id⟩
  | availability values => exact ⟨_, rfl, fun record => Iff.rfl⟩

theorem eventPredicate_validated
    (compile : Units → Except SessionQueryError (Units → Bool))
    {filter : SessionEventMetadataFilter} (h : filter.Validated) :
    ∃ predicate, eventPredicate compile (.metadata filter) = .ok predicate ∧
      ∀ document, predicate document = true ↔ filter.KeepsBy id document := by
  cases filter with
  | seq range =>
    refine ⟨fun document => matchesRange document.seq range, ?_, fun _ => Iff.rfl⟩
    rw [eventPredicate, h]
    rfl
  | time range =>
    refine ⟨fun document => matchesRange document.time range, ?_, fun _ => Iff.rfl⟩
    rw [eventPredicate, h]
    rfl
  | type values => exact ⟨_, rfl, fun document => contains_by_id⟩
  | surface values => exact ⟨_, rfl, fun document => List.contains_iff_mem⟩

end Materialized

theorem mapM_predicates {α β ε : Type} {predicate : α → Except ε (β → Bool)} {filters : List α}
    {keeps : α → β → Prop}
    (h : ∀ filter ∈ filters, ∃ kept, predicate filter = .ok kept ∧
      ∀ item, kept item = true ↔ keeps filter item) :
    ∃ predicates, filters.mapM predicate = .ok predicates ∧ ∀ item,
      (predicates.all fun predicate => predicate item) = true ↔
        ∀ filter ∈ filters, keeps filter item := by
  induction filters with
  | nil => exact ⟨[], rfl, fun item => iff_of_true rfl nofun⟩
  | cons filter filters ih =>
    rw [List.forall_mem_cons] at h
    obtain ⟨first, hfirst, hkept⟩ := h.1
    obtain ⟨rest, hrest, hkeeps⟩ := ih h.2
    refine ⟨first :: rest, ?_, ?_⟩
    · rw [List.mapM_cons, hfirst, ok_bind, hrest]
      rfl
    · intro item
      rw [List.all_cons, Bool.and_eq_true, hkept, hkeeps, List.forall_mem_cons]

theorem sessionWhere_keeps {filters : List SessionResultFilter} {condition : SqlWhere}
    (h : buildSessionWhere filters = .ok condition) :
    condition.sql.count .placeholder = condition.params.length ∧ ∀ record document,
      condition.keeps (candidate record document) = true ↔
        ∀ filter ∈ filters, filter.KeepsBy Utf16.toText record := by
  rw [buildSessionWhere, bind_eq_ok] at h
  obtain ⟨state, hstate, hfinish⟩ := h
  have hcompiled := Compiled.foldSession hstate
  exact ⟨hcompiled.count_placeholders hfinish, fun record document =>
    hcompiled.keeps_iff hfinish (record, document)⟩

theorem eventWhere_keeps {filters : List SessionEventMetadataFilter} {condition : SqlWhere}
    (h : buildEventWhere filters = .ok condition) :
    condition.sql.count .placeholder = condition.params.length ∧ ∀ record document,
      condition.keeps (candidate record document) = true ↔
        ∀ filter ∈ filters, filter.KeepsBy Utf16.toText document := by
  rw [buildEventWhere, bind_eq_ok] at h
  obtain ⟨state, hstate, hfinish⟩ := h
  have hcompiled := Compiled.foldEvent hstate
  exact ⟨hcompiled.count_placeholders hfinish, fun record document =>
    hcompiled.keeps_iff hfinish (record, document)⟩

theorem filterSessionResults_validated {filters : List SessionResultFilter}
    (h : ∀ filter ∈ filters, filter.Validated) (records : List SessionRecord) :
    ∃ kept : SessionRecord → Bool, filterSessionResults records filters = .ok (records.filter kept) ∧
      ∀ record, kept record = true ↔ ∀ filter ∈ filters, filter.KeepsBy id record := by
  obtain ⟨predicates, hpredicates, hkeeps⟩ :=
    mapM_predicates fun filter hfilter => sessionPredicate_validated (h filter hfilter)
  refine ⟨_, ?_, hkeeps⟩
  rw [filterSessionResults, hpredicates, ok_bind]
  rfl

theorem filterSessionEventDocuments_validated
    (compile : Units → Except SessionQueryError (Units → Bool))
    {filters : List SessionEventMetadataFilter} (h : ∀ filter ∈ filters, filter.Validated)
    (documents : List SessionEventSearchDocument) :
    ∃ kept : SessionEventSearchDocument → Bool,
      filterSessionEventDocuments compile documents (filters.map .metadata) =
        .ok (documents.filter kept) ∧
      ∀ document, kept document = true ↔ ∀ filter ∈ filters, filter.KeepsBy id document := by
  have hpredicate : ∀ filter ∈ filters.map .metadata, ∃ kept,
      eventPredicate compile filter = .ok kept ∧ ∀ document, kept document = true ↔
        ∀ metadata, filter = .metadata metadata → metadata.KeepsBy id document := by
    rw [List.forall_mem_map]
    intro filter hfilter
    obtain ⟨kept, hkept, hiff⟩ := eventPredicate_validated compile (h filter hfilter)
    refine ⟨kept, hkept, ?_⟩
    intro document
    simp only [hiff, SessionEventResultFilter.metadata.injEq, forall_eq']
  obtain ⟨predicates, hpredicates, hkeeps⟩ := mapM_predicates hpredicate
  refine ⟨fun document => predicates.all fun predicate => predicate document, ?_, ?_⟩
  · rw [filterSessionEventDocuments, hpredicates, ok_bind]
    rfl
  · intro document
    rw [hkeeps, List.forall_mem_map]
    simp only [SessionEventResultFilter.metadata.injEq, forall_eq']

section Reading

variable {β : Type} {read : Units → β}

theorem keepsBy_of_units {filter : SessionResultFilter} {record : SessionRecord}
    (h : filter.KeepsBy id record) : filter.KeepsBy read record := by
  cases filter with
  | id values => exact List.mem_map_of_mem (contains_by_id.mpr h |> List.contains_iff_mem.mp)
  | cwd values | parent values =>
    exact List.mem_map_of_mem (contains_by_map_id.mpr h |> List.contains_iff_mem.mp)
  | createdAt range => exact h
  | availability values => exact h

theorem eventKeepsBy_of_units {filter : SessionEventMetadataFilter}
    {document : SessionEventSearchDocument} (h : filter.KeepsBy id document) :
    filter.KeepsBy read document := by
  cases filter with
  | seq range | time range => exact h
  | type values => exact List.mem_map_of_mem (contains_by_id.mpr h |> List.contains_iff_mem.mp)
  | surface values => exact h

end Reading

def Confuses {α β : Type} (bound : α → β) (values : List α) (value : α) : Prop :=
  value ∉ values ∧ bound value ∈ values.map bound

def SessionResultFilter.Confuses (record : SessionRecord) : SessionResultFilter → Prop
  | .id values => SessionQuery.Confuses Utf16.toText values record.header.id
  | .cwd values => SessionQuery.Confuses (Option.map Utf16.toText) values record.header.cwd
  | .parent values =>
    SessionQuery.Confuses (Option.map Utf16.toText) values record.header.parentSession
  | .createdAt _ | .availability _ => False

def SessionEventMetadataFilter.Confuses (document : SessionEventSearchDocument) :
    SessionEventMetadataFilter → Prop
  | .type values => SessionQuery.Confuses Utf16.toText values document.type
  | .seq _ | .time _ | .surface _ => False

section Confusion

variable {α β : Type} {bound : α → β} {values : List α} {value : α}

theorem not_confuses_of_injOn (h : ∀ other ∈ values, bound value = bound other → value = other) :
    ¬Confuses bound values value := by
  rintro ⟨hlacks, hbound⟩
  obtain ⟨other, hother, heq⟩ := List.mem_map.mp hbound
  rw [h other hother heq.symm] at hlacks
  exact hlacks hother

end Confusion

theorem eq_of_toText {a b : Units} (ha : Utf16.isWellFormed a = true)
    (hb : Utf16.isWellFormed b = true) (h : Utf16.toText a = Utf16.toText b) : a = b := by
  rw [Utf16.toText_eq_iff, Utf16.toWellFormed_eq ha, Utf16.toWellFormed_eq hb] at h
  exact h

theorem eq_of_map_toText {a b : Option Units} (ha : ∀ text ∈ a, Utf16.isWellFormed text = true)
    (hb : ∀ text ∈ b, Utf16.isWellFormed text = true)
    (h : a.map Utf16.toText = b.map Utf16.toText) : a = b := by
  cases a with
  | none => exact (Option.map_eq_none_iff.mp h.symm).symm
  | some a =>
    obtain ⟨b, rfl, htext⟩ := Option.map_eq_some_iff.mp h.symm
    rw [eq_of_toText (ha a rfl) (hb b rfl) htext.symm]

theorem sessionConfuses_iff {filter : SessionResultFilter} {record : SessionRecord} :
    filter.Confuses record ↔ filter.KeepsBy Utf16.toText record ∧ ¬filter.KeepsBy id record := by
  cases filter with
  | id values | cwd values | parent values =>
    simp only [SessionResultFilter.Confuses, Confuses, SessionResultFilter.KeepsBy, List.map_id,
      Option.map_id_fun, id_eq, and_comm]
  | createdAt range | availability values => exact iff_of_false not_false fun h => h.2 h.1

theorem eventConfuses_iff {filter : SessionEventMetadataFilter}
    {document : SessionEventSearchDocument} :
    filter.Confuses document ↔
      filter.KeepsBy Utf16.toText document ∧ ¬filter.KeepsBy id document := by
  cases filter with
  | type values =>
    simp only [SessionEventMetadataFilter.Confuses, Confuses, SessionEventMetadataFilter.KeepsBy,
      List.map_id, id_eq, and_comm]
  | seq range | time range | surface values => exact iff_of_false not_false fun h => h.2 h.1

/-- Whatever a filter confuses with one of its strings is refused by another one. -/
def TellRecord (filters : List SessionResultFilter) (record : SessionRecord) : Prop :=
  (∃ filter ∈ filters, filter.Confuses record) →
    ∃ filter ∈ filters, ¬filter.KeepsBy Utf16.toText record

def TellDocument (filters : List SessionEventMetadataFilter) (document : SessionEventSearchDocument) :
    Prop :=
  (∃ filter ∈ filters, filter.Confuses document) →
    ∃ filter ∈ filters, ¬filter.KeepsBy Utf16.toText document

/-- All of the loose conditions are all of the strict ones unless one is confused and all hold. -/
theorem told_iff {α : Type} {items : List α} {strict loose confuses : α → Prop}
    (hloose : ∀ item ∈ items, strict item → loose item)
    (hconfuses : ∀ item ∈ items, confuses item ↔ loose item ∧ ¬strict item) :
    ((∀ item ∈ items, strict item) ↔ ∀ item ∈ items, loose item) ↔
      ((∃ item ∈ items, confuses item) → ∃ item ∈ items, ¬loose item) := by
  constructor
  · rintro hsame ⟨item, hitem, hconfused⟩
    by_contra hall
    push Not at hall
    exact ((hconfuses item hitem).mp hconfused).2 (hsame.mpr hall item hitem)
  · intro htold
    refine ⟨fun hall item hitem => hloose item hitem (hall item hitem), ?_⟩
    intro hall item hitem
    by_contra hstrict
    obtain ⟨other, hother, hrefused⟩ :=
      htold ⟨item, hitem, (hconfuses item hitem).mpr ⟨hall item hitem, hstrict⟩⟩
    exact hrefused (hall other hother)

theorem tellRecord_iff {filters : List SessionResultFilter} {record : SessionRecord} :
    ((∀ filter ∈ filters, filter.KeepsBy id record) ↔
      ∀ filter ∈ filters, filter.KeepsBy Utf16.toText record) ↔ TellRecord filters record :=
  told_iff (fun _ _ => keepsBy_of_units) fun _ _ => sessionConfuses_iff

theorem tellDocument_iff {filters : List SessionEventMetadataFilter}
    {document : SessionEventSearchDocument} :
    ((∀ filter ∈ filters, filter.KeepsBy id document) ↔
      ∀ filter ∈ filters, filter.KeepsBy Utf16.toText document) ↔ TellDocument filters document :=
  told_iff (fun _ _ => eventKeepsBy_of_units) fun _ _ => eventConfuses_iff

section WellFormed

def SessionResultFilter.texts : SessionResultFilter → List Units
  | .id values => values
  | .cwd values | .parent values => values.flatMap Option.toList
  | .createdAt _ | .availability _ => []

def SessionEventMetadataFilter.texts : SessionEventMetadataFilter → List Units
  | .type values => values
  | .seq _ | .time _ | .surface _ => []

def SessionHeader.texts (header : SessionHeader) : List Units :=
  header.id :: (header.cwd.toList ++ header.parentSession.toList)

theorem tellRecord_of_isWellFormed {filters : List SessionResultFilter} {record : SessionRecord}
    (hfilters : ∀ filter ∈ filters, ∀ text ∈ filter.texts, Utf16.isWellFormed text = true)
    (hrecord : ∀ text ∈ record.header.texts, Utf16.isWellFormed text = true) :
    TellRecord filters record := by
  rw [SessionHeader.texts, List.forall_mem_cons, List.forall_mem_append] at hrecord
  obtain ⟨hid, hcwd, hparent⟩ := hrecord
  simp only [Option.mem_toList] at hcwd hparent
  rintro ⟨filter, hfilter, hconfuses⟩
  have htexts := hfilters filter hfilter
  cases filter with
  | id values =>
    exact absurd hconfuses (not_confuses_of_injOn fun other hother =>
      eq_of_toText hid (htexts other hother))
  | cwd values =>
    refine absurd hconfuses (not_confuses_of_injOn fun other hother =>
      eq_of_map_toText hcwd fun text htext => htexts text ?_)
    exact List.mem_flatMap.mpr ⟨other, hother, Option.mem_toList.mpr htext⟩
  | parent values =>
    refine absurd hconfuses (not_confuses_of_injOn fun other hother =>
      eq_of_map_toText hparent fun text htext => htexts text ?_)
    exact List.mem_flatMap.mpr ⟨other, hother, Option.mem_toList.mpr htext⟩
  | createdAt range | availability values => cases hconfuses

theorem tellDocument_of_isWellFormed {filters : List SessionEventMetadataFilter}
    {document : SessionEventSearchDocument}
    (hfilters : ∀ filter ∈ filters, ∀ text ∈ filter.texts, Utf16.isWellFormed text = true)
    (hdocument : Utf16.isWellFormed document.type = true) : TellDocument filters document := by
  rintro ⟨filter, hfilter, hconfuses⟩
  cases filter with
  | type values =>
    exact absurd hconfuses (not_confuses_of_injOn fun other hother =>
      eq_of_toText hdocument (hfilters _ hfilter other hother))
  | seq range | time range | surface values => cases hconfuses

end WellFormed

theorem filter_eq_filter_iff {α : Type} {p q : α → Bool} {items : List α} :
    items.filter p = items.filter q ↔ ∀ item ∈ items, p item = q item := by
  constructor
  · intro h item hitem
    rw [Bool.eq_iff_iff]
    constructor
    · intro hp
      exact (List.mem_filter.mp (h ▸ List.mem_filter.mpr ⟨hitem, hp⟩)).2
    · intro hq
      exact (List.mem_filter.mp (h ▸ List.mem_filter.mpr ⟨hitem, hq⟩)).2
  · exact List.filter_congr

/-- The index keeps what the filters keep exactly where no string is confused with another one. -/
theorem filters_compile_iff {sessions events : Option (List RuntimeFilter)}
    {sessionFilters : List SessionResultFilter} {eventFilters : List SessionEventMetadataFilter}
    {sessionWhere eventWhere : SqlWhere}
    (hsessions : materializeSessionResultFilters sessions = .ok sessionFilters)
    (hevents : materializeMetadataFilters events = .ok eventFilters)
    (hsessionWhere : buildSessionWhere sessionFilters = .ok sessionWhere)
    (heventWhere : buildEventWhere eventFilters = .ok eventWhere) :
    (∀ records document, filterSessionResults records sessionFilters =
      .ok (records.filter fun record => sessionWhere.keeps (candidate record document)) ↔
        ∀ record ∈ records, TellRecord sessionFilters record) ∧
    (∀ compile documents record,
      filterSessionEventDocuments compile documents (eventFilters.map .metadata) =
        .ok (documents.filter fun document => eventWhere.keeps (candidate record document)) ↔
          ∀ document ∈ documents, TellDocument eventFilters document) ∧
    (∀ record : SessionRecord,
      (∀ filter ∈ sessionFilters, ∀ text ∈ filter.texts, Utf16.isWellFormed text = true) →
      (∀ text ∈ record.header.texts, Utf16.isWellFormed text = true) →
        TellRecord sessionFilters record) ∧
    (∀ document : SessionEventSearchDocument,
      (∀ filter ∈ eventFilters, ∀ text ∈ filter.texts, Utf16.isWellFormed text = true) →
      Utf16.isWellFormed document.type = true → TellDocument eventFilters document) ∧
    sessionWhere.sql.count .placeholder = sessionWhere.params.length ∧
    eventWhere.sql.count .placeholder = eventWhere.params.length := by
  obtain ⟨hsessionCount, hsessionKeeps⟩ := sessionWhere_keeps hsessionWhere
  obtain ⟨heventCount, heventKeeps⟩ := eventWhere_keeps heventWhere
  refine ⟨?_, ?_, fun _ => tellRecord_of_isWellFormed, fun _ => tellDocument_of_isWellFormed,
    hsessionCount, heventCount⟩
  · intro records document
    obtain ⟨kept, hkept, hkeeps⟩ := filterSessionResults_validated
      (materializeSessionResultFilters_validated hsessions) records
    rw [hkept, Except.ok.injEq, filter_eq_filter_iff]
    refine forall₂_congr fun record _ => ?_
    rw [Bool.eq_iff_iff, hkeeps, hsessionKeeps, tellRecord_iff]
  · intro compile documents record
    obtain ⟨kept, hkept, hkeeps⟩ := filterSessionEventDocuments_validated compile
      (materializeMetadataFilters_validated hevents) documents
    rw [hkept, Except.ok.injEq, filter_eq_filter_iff]
    refine forall₂_congr fun document _ => ?_
    rw [Bool.eq_iff_iff, hkeeps, heventKeeps, tellDocument_iff]

def named (name : String) (values : Runtime) (from? : Runtime) : RuntimeFilter :=
  ⟨.string (Utf16.encode name), values, from?, .undefined, .undefined⟩

def uncwd : RuntimeFilter := named "cwd" (.array [.null, .string [47, 119]]) .undefined

def recent : RuntimeFilter := named "seq" .undefined (.number (.finite 3))

theorem materialize_uncwd :
    materializeSessionResultFilters (some [uncwd]) = .ok [.cwd [none, some [47, 119]]] := by
  simp only [materializeSessionResultFilters, assertArray, ok_bind, List.mapM_cons,
    materializeSessionResultFilter, uncwd, named, Runtime.name?_encode]
  rfl

theorem materialize_recent :
    materializeMetadataFilters (some [recent]) = .ok [.seq ⟨some (.finite 3), none⟩] := by
  simp only [materializeMetadataFilters, Option.getD_some, recent, named,
    Runtime.name?_encode, materializeSessionEventResultFilters, assertArray, ok_bind,
    List.mapM_cons, materializeSessionEventResultFilter]
  rfl

theorem filters_compile_iff_cwd_seq :
    ∃ sessionWhere eventWhere, sessionWhere.params.length = 1 ∧ eventWhere.params.length = 1 ∧
    (∀ records document, filterSessionResults records [.cwd [none, some [47, 119]]] =
      .ok (records.filter fun record => SqlWhere.keeps sessionWhere (candidate record document)) ↔
        ∀ record ∈ records, TellRecord [.cwd [none, some [47, 119]]] record) ∧
    (∀ compile documents record,
      filterSessionEventDocuments compile documents [.metadata (.seq ⟨some (.finite 3), none⟩)] =
        .ok (documents.filter fun document =>
          SqlWhere.keeps eventWhere (candidate record document)) ↔
            ∀ document ∈ documents, TellDocument [.seq ⟨some (.finite 3), none⟩] document) := by
  have h := filters_compile_iff materialize_uncwd materialize_recent rfl rfl
  exact ⟨_, _, rfl, rfl, h.1, h.2.1⟩

/-- A directory whose name ends in half of a pair, and one that ends in the replacement for it. -/
def halved : RuntimeFilter := named "cwd" (.array [.string [47, 119, 0xD800]]) .undefined

def replaced : SessionRecord := ⟨⟨[115], 1, some [47, 119, 0xFFFD], none⟩, true, true, .inl rfl⟩

theorem materialize_halved :
    materializeSessionResultFilters (some [halved]) = .ok [.cwd [some [47, 119, 0xD800]]] := by
  simp only [materializeSessionResultFilters, assertArray, ok_bind, List.mapM_cons,
    materializeSessionResultFilter, halved, named, Runtime.name?_encode]
  rfl

theorem halved_keeps_replaced :
    ¬∀ (sessions : Option (List RuntimeFilter)) (filters : List SessionResultFilter)
      (condition : SqlWhere), materializeSessionResultFilters sessions = .ok filters →
        buildSessionWhere filters = .ok condition → ∀ records document,
          filterSessionResults records filters =
            .ok (records.filter fun record => condition.keeps (candidate record document)) := by
  intro h
  have hkeeps := h _ _ _ materialize_halved rfl [replaced] ⟨[115], 0, [], 0, .current, []⟩
  have hindexed := (sessionWhere_keeps
    (rfl : buildSessionWhere [.cwd [some [47, 119, 0xD800]]] = .ok _)).2 replaced
      ⟨[115], 0, [], 0, .current, []⟩
  rw [List.filter_cons_of_pos] at hkeeps
  · cases hkeeps
  · have hchars : Utf16.chars [47, 119, 0xFFFD] = Utf16.chars [47, 119, 0xD800] := by decide
    rw [hindexed, List.forall_mem_singleton]
    exact List.mem_singleton.mpr (congrArg (some ∘ String.ofList) hchars)

end Harness.SessionQuery
