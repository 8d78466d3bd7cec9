import Harness.Session.ChunkDelta
import Mathlib.Data.List.Chain

namespace Harness

open Harness.Foundation

namespace ChunkRows

def Run (first : Delta) (rest : List Delta) : Prop := (first :: rest).IsChain Follows

theorem Run.single (first : Delta) : Run first [] := .singleton first

theorem run_cons {first next : Delta} {rest : List Delta} :
    Run first (next :: rest) ↔ Follows first next ∧ Run next rest := List.isChain_cons_cons

theorem Run.next {first next : Delta} {rest : List Delta} (h : Run first (next :: rest)) :
    Follows first next := (run_cons.mp h).1

theorem Run.tail {first next : Delta} {rest : List Delta} (h : Run first (next :: rest)) :
    Run next rest := (run_cons.mp h).2

def gaps : Delta → List Delta → List Int
  | _, [] => []
  | first, next :: rest => (next.time - first.time) :: gaps next rest

def rowOf (first : Delta) (rest : List Delta) : ChunkRow where
  kind := first.kind
  seq0 := first.seq
  time0 := first.time
  turn := first.turn
  step := first.step
  index := first.index
  dt := gaps first rest
  members := first.payload :: rest.map Delta.payload

def payloadsKey : DeltaKind → String
  | .toolCall => "args"
  | _ => "texts"

def ChunkRow.data (row : ChunkRow) : List (String × Json) :=
  let base : List (String × Json) :=
    [("turn", .num row.turn), ("step", .num row.step), ("index", .num row.index),
      ("dt", .arr (row.dt.map Json.int))]
  match row.kind with
  | .toolCall id name =>
    base ++ [("id", .str id)] ++ Json.optionalField "name" (name.map Json.str)
      ++ [("args", .arr (row.members.map Json.str))]
  | _ => base ++ [("texts", .arr (row.members.map Json.str))]

def ChunkRow.toJson (row : ChunkRow) : Json :=
  .obj [("type", .str row.kind.delta.tag), ("seq0", .int row.seq0), ("time0", .int row.time0),
    ("data", .obj row.data)]

structure ChunkRow.Valid (row : ChunkRow) : Prop where
  seqNonneg : 0 ≤ row.seq0
  seqSafe : isSafe row.seq0 = true
  timeSafe : isSafe row.time0 = true
  arity : row.dt.length + 1 = row.members.length
  gapsSafe : ∀ gap ∈ row.dt, isSafe gap = true
  lastSeq : isSafe (subDouble (addDouble row.seq0 row.members.length) 1) = true
  times : timesStaySafe row.time0 row.dt = true

section Build

variable {first : Delta} {rest : List Delta}

theorem gaps_length : (gaps first rest).length = rest.length := by
  induction rest generalizing first with
  | nil => rfl
  | cons next rest ih => simp [gaps, ih]

theorem Run.kind_eq (h : Run first rest) : ∀ delta ∈ rest, delta.kind = first.kind := by
  induction rest generalizing first with
  | nil => simp
  | cons next rest ih =>
    intro delta hmem
    rcases List.mem_cons.mp hmem with rfl | hrest
    · exact h.next.kind
    · rw [ih h.tail delta hrest, h.next.kind]

theorem timeGaps_eq (h : Run first rest) {run : List Json}
    (hshows : List.Forall₂ Shows run (first :: rest)) : timeGaps run = gaps first rest := by
  induction rest generalizing first run with
  | nil =>
    obtain ⟨event, _, hevent, hnil, rfl⟩ := List.forall₂_cons_right_iff.mp hshows
    rw [List.forall₂_nil_right_iff.mp hnil]
    rfl
  | cons next rest ih =>
    obtain ⟨event, tail, hevent, htail, rfl⟩ := List.forall₂_cons_right_iff.mp hshows
    have hgaps := ih h.tail htail
    obtain ⟨second, others, hsecond, _, rfl⟩ := List.forall₂_cons_right_iff.mp htail
    have hgap : subDouble (timeOf second) (timeOf event) = next.time - first.time := by
      rw [hsecond.time, hevent.time]
      apply subDouble_of_safe
      rw [isSafe_subDouble]
      exact h.next.gap
    rw [timeGaps, hgaps, hgap]
    rfl

theorem map_payloads {kind : DeltaKind} {deltas : List Delta} {run : List Json}
    (hkind : ∀ delta ∈ deltas, delta.kind.delta = kind)
    (hshows : List.Forall₂ Shows run deltas) :
    run.map (fun event => fieldOf (chunkOf event) (payloadKey kind)) =
      (deltas.map Delta.payload).map Json.str := by
  induction hshows with
  | nil => rfl
  | cons hevent hrest ih =>
    rename_i event delta run deltas
    have hpayload := hevent.chunk.payloadField
    rw [hkind delta List.mem_cons_self] at hpayload
    have hfield : fieldOf (chunkOf event) (payloadKey kind) = .str delta.payload := by
      rw [fieldOf, hpayload]
      rfl
    simp only [List.map_cons, hfield,
      ih fun other hother => hkind other (List.mem_cons_of_mem _ hother)]

theorem buildRow_eq (h : Run first rest) {run : List Json}
    (hshows : List.Forall₂ Shows run (first :: rest)) :
    buildRow first.kind.delta run = (rowOf first rest).toJson := by
  have hgaps := timeGaps_eq h hshows
  have hkinds : ∀ delta ∈ first :: rest, delta.kind.delta = first.kind.delta := by
    intro delta hmem
    rcases List.mem_cons.mp hmem with rfl | hrest
    · rfl
    · rw [h.kind_eq delta hrest]
  have hpayloads := map_payloads hkinds hshows
  obtain ⟨event, tail, hevent, _, rfl⟩ := List.forall₂_cons_right_iff.mp hshows
  have hturn : fieldOf (dataOf event) "turn" = .num first.turn := by
    rw [fieldOf, hevent.turn]
    rfl
  have hstep : fieldOf (dataOf event) "step" = .num first.step := by
    rw [fieldOf, hevent.step]
    rfl
  have hindex : fieldOf (chunkOf event) "index" = .num first.index := by
    rw [fieldOf, hevent.chunk.indexField]
    rfl
  cases hkind : first.kind with
  | text =>
    simp only [hkind, RunKind.delta, payloadKey] at hpayloads
    simp only [buildRow, ChunkRow.toJson, ChunkRow.data, rowOf, RunKind.delta, hkind, hturn, hstep,
      hindex, hgaps, hevent.seq, hevent.time, hpayloads, List.map_cons]
  | reasoning =>
    simp only [hkind, RunKind.delta, payloadKey] at hpayloads
    simp only [buildRow, ChunkRow.toJson, ChunkRow.data, rowOf, RunKind.delta, hkind, hturn, hstep,
      hindex, hgaps, hevent.seq, hevent.time, hpayloads, List.map_cons]
  | toolCall id name =>
    obtain ⟨hid, hname⟩ := hevent.chunk.call id name hkind
    have hidField : fieldOf (chunkOf event) "id" = .str id := by
      rw [fieldOf, hid]
      rfl
    simp only [hkind, RunKind.delta, payloadKey] at hpayloads
    simp only [buildRow, ChunkRow.toJson, ChunkRow.data, rowOf, RunKind.delta, hkind, hturn, hstep,
      hindex, hgaps, hevent.seq, hevent.time, hpayloads, hidField, hname, List.map_cons]

end Build

section Validate

variable {value data : Json} {key : String}

theorem numberField_eq_some {n : JsonNumber} :
    numberField value key = some n ↔ value.get? key = some (.num n) := by
  unfold numberField
  split <;> simp_all

theorem string?_eq_some {s : String} : string? value = some s ↔ value = .str s := by
  cases value <;> simp [string?]

theorem stringField_eq_some {s : String} :
    stringField value key = some s ↔ value.get? key = some (.str s) := by
  simp [stringField, Option.bind_eq_some_iff, string?_eq_some]

theorem safeIntField_eq_some {n : Int} :
    safeIntField value key = some n ↔ value.get? key = some (.int n) ∧ isSafe n = true := by
  unfold safeIntField
  rw [Option.filter_eq_some_iff]
  cases value.get? key with
  | none => simp
  | some found => simp [Json.int?_eq_some]

theorem mapM_eq_some_iff {α β : Type} {f : α → Option β} {as : List α} {bs : List β} :
    as.mapM f = some bs ↔ List.Forall₂ (fun a b => f a = some b) as bs := by
  induction as generalizing bs with
  | nil => simp [eq_comm]
  | cons a as ih =>
    simp only [List.mapM_cons, Option.bind_eq_bind, Option.bind_eq_some_iff, Option.pure_def,
      Option.some.injEq, List.forall₂_cons_left_iff]
    constructor
    · rintro ⟨b, hb, cs, hcs, rfl⟩
      exact ⟨b, cs, hb, ih.mp hcs, rfl⟩
    · rintro ⟨b, cs, hb, hcs, rfl⟩
      exact ⟨b, hb, cs, ih.mpr hcs, rfl⟩

theorem forall₂_eq_map {α β : Type} {f : β → α} {as : List α} {bs : List β} :
    List.Forall₂ (fun a b => a = f b) as bs ↔ as = bs.map f := by
  constructor
  · intro h
    induction h with
    | nil => rfl
    | cons hab _ ih => rw [hab, ih, List.map_cons]
  · rintro rfl
    induction bs with
    | nil => exact .nil
    | cons b bs ih => exact .cons rfl ih

theorem stringItems_eq_some {strings : List String} :
    stringItems value key = some strings ↔
      value.get? key = some (.arr (strings.map Json.str)) := by
  unfold stringItems
  have hread : ∀ items : List Json,
      items.mapM string? = some strings ↔ items = strings.map Json.str := by
    intro items
    simp only [mapM_eq_some_iff, string?_eq_some, forall₂_eq_map]
  cases hfound : value.get? key with
  | none => simp
  | some found =>
    cases found with
    | arr items => simp [hread]
    | _ => simp

theorem safeIntItems_eq_some {gaps : List Int} :
    safeIntItems value key = some gaps ↔
      value.get? key = some (.arr (gaps.map Json.int)) ∧ ∀ gap ∈ gaps, isSafe gap = true := by
  unfold safeIntItems
  have hread : ∀ (items : List Json) (gaps : List Int),
      (items.mapM fun item => item.int?.filter isSafe) = some gaps ↔
        items = gaps.map Json.int ∧ ∀ gap ∈ gaps, isSafe gap = true := by
    intro items gaps
    rw [mapM_eq_some_iff]
    induction items generalizing gaps with
    | nil => cases gaps <;> simp
    | cons item items ih =>
      cases gaps with
      | nil => simp
      | cons gap gaps =>
        rw [List.forall₂_cons, ih]
        simp only [Option.filter_eq_some_iff, Json.int?_eq_some, List.map_cons, List.cons.injEq,
          List.forall_mem_cons]
        constructor
        · rintro ⟨⟨hitem, hsafe⟩, hitems, hrest⟩
          exact ⟨⟨hitem, hitems⟩, hsafe, hrest⟩
        · rintro ⟨⟨hitem, hitems⟩, hsafe, hrest⟩
          exact ⟨⟨hitem, hsafe⟩, hitems, hrest⟩
  cases hfound : value.get? key with
  | none => simp
  | some found =>
    cases found with
    | arr items => simp [hread]
    | _ => simp

structure HoldsRunData (data : Json) (payloadKey : String) (base : RunDataBase) : Prop where
  turn : data.get? "turn" = some (.num base.turn)
  step : data.get? "step" = some (.num base.step)
  index : data.get? "index" = some (.num base.index)
  payload : data.get? payloadKey = some (.arr (base.payload.map Json.str))
  dt : data.get? "dt" = some (.arr (base.dt.map Json.int))
  gapsSafe : ∀ gap ∈ base.dt, isSafe gap = true
  arity : base.dt.length + 1 = base.payload.length

theorem validateRunData_eq_ok {tag : String} {base : RunDataBase} :
    validateRunData tag data key = .ok base ↔ HoldsRunData data key base := by
  unfold validateRunData
  simp only [bind_eq_ok, expect_eq_ok, numberField_eq_some, safeIntItems_eq_some, require_eq_ok,
    Option.filter_eq_some_iff, stringItems_eq_some, pure_eq_ok, Except.ok.injEq, beq_iff_eq,
    Bool.not_eq_true', List.isEmpty_eq_false_iff]
  constructor
  · rintro ⟨turn, hturn, step, hstep, index, hindex, payload, ⟨hpayload, _⟩, dt, ⟨hdt, hgaps⟩, _,
      harity, rfl⟩
    exact ⟨hturn, hstep, hindex, hpayload, hdt, hgaps, harity⟩
  · rintro ⟨hturn, hstep, hindex, hpayload, hdt, hgaps, harity⟩
    refine ⟨_, hturn, _, hstep, _, hindex, _, ⟨hpayload, ?_⟩, _, ⟨hdt, hgaps⟩, (), harity, rfl⟩
    intro hnil
    simp [hnil] at harity

def dataKeys : RunKind → List String
  | .toolCall _ none => ["turn", "step", "index", "id", "dt", "args"]
  | .toolCall _ (some _) => ["turn", "step", "index", "id", "name", "dt", "args"]
  | _ => ["turn", "step", "index", "dt", "texts"]

structure HoldsData (data : Json) (kind : RunKind) (base : RunDataBase) : Prop where
  keys : hasExactKeys data (dataKeys kind) = true
  call : ∀ id name, kind = .toolCall id name →
    data.get? "id" = some (.str id) ∧ data.get? "name" = name.map Json.str
  base : HoldsRunData data (payloadsKey kind.delta) base

theorem validateTextData_eq_ok {tag : String} {kind kind' : RunKind} {base : RunDataBase} :
    validateTextData tag kind data = .ok (kind', base) ↔
      hasExactKeys data ["turn", "step", "index", "dt", "texts"] = true ∧ kind = kind' ∧
        HoldsRunData data "texts" base := by
  unfold validateTextData
  simp only [bind_eq_ok, require_eq_ok, validateRunData_eq_ok, pure_eq_ok, Except.ok.injEq,
    Prod.mk.injEq]
  constructor
  · rintro ⟨_, hkeys, found, hfound, hkind, rfl⟩
    exact ⟨hkeys, hkind, hfound⟩
  · rintro ⟨hkeys, hkind, hfound⟩
    exact ⟨(), hkeys, base, hfound, hkind, rfl⟩

theorem validateToolCallData_eq_ok {tag : String} {kind : RunKind} {base : RunDataBase} :
    validateToolCallData tag data = .ok (kind, base) ↔
      kind.delta = .toolCall ∧ HoldsData data kind base := by
  unfold validateToolCallData
  simp only [bind_eq_ok, require_eq_ok, expect_eq_ok, stringField_eq_some, validateRunData_eq_ok,
    pure_eq_ok, Except.ok.injEq, Prod.mk.injEq]
  constructor
  · rintro ⟨_, hkeys, id, hid, name, hname, found, hfound, rfl, rfl⟩
    refine ⟨rfl, ?_⟩
    cases hwith : hasExactKeys data ["turn", "step", "index", "id", "name", "dt", "args"] with
    | true =>
      simp only [hwith, nameField, if_true] at hname
      obtain ⟨written, hwritten, rfl⟩ := map_eq_ok.mp hname
      rw [expect_eq_ok, stringField_eq_some] at hwritten
      refine ⟨hwith, ?_, hfound⟩
      rintro _ _ heq
      obtain ⟨rfl, rfl⟩ := RunKind.toolCall.inj heq
      exact ⟨hid, hwritten⟩
    | false =>
      simp only [hwith, Bool.false_or] at hkeys
      simp only [hwith, nameField, Bool.false_eq_true, if_false] at hname
      obtain rfl := Except.ok.inj hname
      obtain ⟨fields, rfl, hlength, hpresent⟩ := hasExactKeys_obj hkeys
      refine ⟨hkeys, ?_, hfound⟩
      rintro _ _ heq
      obtain ⟨rfl, rfl⟩ := RunKind.toolCall.inj heq
      exact ⟨hid, lookup_eq_none_of_exactKeys (by decide) hlength hpresent (by decide)⟩
  · rintro ⟨hkind, hkeys, hcall, hbase⟩
    cases kind with
    | text => simp [RunKind.delta] at hkind
    | reasoning => simp [RunKind.delta] at hkind
    | toolCall id name =>
      obtain ⟨hid, hname⟩ := hcall id name rfl
      cases name with
      | some name =>
        have hwith : hasExactKeys data ["turn", "step", "index", "id", "name", "dt", "args"] =
          true := hkeys
        refine ⟨(), by simp [hwith], id, hid, some name, ?_, base, hbase, rfl, rfl⟩
        have hfound : stringField data "name" = some name := stringField_eq_some.mpr hname
        simp [hwith, nameField, hfound, Except.map]
      | none =>
        have hwithout : hasExactKeys data ["turn", "step", "index", "id", "dt", "args"] = true :=
          hkeys
        have hwith : hasExactKeys data ["turn", "step", "index", "id", "name", "dt", "args"] =
            false := by
          obtain ⟨fields, rfl, hlength, _⟩ := hasExactKeys_obj hwithout
          simp [hasExactKeys, hlength]
        refine ⟨(), by simp [hwithout], id, hid, none, ?_, base, hbase, rfl, rfl⟩
        simp [hwith, nameField]

theorem validateData_eq_ok {delta : DeltaKind} {kind : RunKind} {base : RunDataBase} :
    validateData delta data = .ok (kind, base) ↔ kind.delta = delta ∧ HoldsData data kind base := by
  cases delta with
  | toolCall => exact validateToolCallData_eq_ok
  | text =>
    rw [validateData, validateTextData_eq_ok]
    constructor
    · rintro ⟨hkeys, rfl, hbase⟩
      exact ⟨rfl, hkeys, by simp, hbase⟩
    · rintro ⟨hkind, hkeys, _, hbase⟩
      cases kind <;> simp only [RunKind.delta, reduceCtorEq] at hkind
      exact ⟨hkeys, rfl, hbase⟩
  | reasoning =>
    rw [validateData, validateTextData_eq_ok]
    constructor
    · rintro ⟨hkeys, rfl, hbase⟩
      exact ⟨rfl, hkeys, by simp, hbase⟩
    · rintro ⟨hkind, hkeys, _, hbase⟩
      cases kind <;> simp only [RunKind.delta, reduceCtorEq] at hkind
      exact ⟨hkeys, rfl, hbase⟩

structure HoldsRow (value : Json) (row : ChunkRow) : Prop where
  keys : hasExactKeys value ["type", "seq0", "time0", "data"] = true
  seq0 : value.get? "seq0" = some (.int row.seq0)
  time0 : value.get? "time0" = some (.int row.time0)
  data : ∃ data, value.get? "data" = some data ∧ HoldsData data row.kind
    { turn := row.turn, step := row.step, index := row.index, dt := row.dt, payload := row.members }

theorem validateRow_eq_ok {kind : DeltaKind} {row : ChunkRow} :
    validateRow value kind = .ok row ↔
      row.kind.delta = kind ∧ HoldsRow value row ∧ row.Valid := by
  unfold validateRow
  simp only [bind_eq_ok, require_eq_ok, expect_eq_ok, Option.filter_eq_some_iff,
    safeIntField_eq_some, pure_eq_ok, Except.ok.injEq, Prod.exists, validateData_eq_ok,
    decide_eq_true_eq]
  constructor
  · rintro ⟨_, hkeys, seq0, ⟨⟨hseq, hseqSafe⟩, hnonneg⟩, time0, ⟨htime, htimeSafe⟩, data,
      ⟨hdata, _⟩, run, base, ⟨hkind, hholds⟩, _, hlast, _, htimes, rfl⟩
    exact ⟨hkind, ⟨hkeys, hseq, htime, data, hdata, hholds⟩, hnonneg, hseqSafe, htimeSafe,
      hholds.base.arity, hholds.base.gapsSafe, hlast, htimes⟩
  · rintro ⟨hkind, ⟨hkeys, hseq, htime, data, hdata, hholds⟩, hvalid⟩
    obtain ⟨fields, rfl, _⟩ := hasExactKeys_obj hholds.keys
    exact ⟨(), hkeys, row.seq0, ⟨⟨hseq, hvalid.seqSafe⟩, hvalid.seqNonneg⟩, row.time0,
      ⟨htime, hvalid.timeSafe⟩, .obj fields, ⟨hdata, rfl⟩, row.kind, _, ⟨hkind, hholds⟩, (),
      hvalid.lastSeq, (), hvalid.times, rfl⟩

theorem holdsRow_toJson (row : ChunkRow) (harity : row.dt.length + 1 = row.members.length)
    (hgaps : ∀ gap ∈ row.dt, isSafe gap = true) : HoldsRow row.toJson row := by
  refine ⟨rfl, rfl, rfl, .obj row.data, rfl, ?_⟩
  obtain ⟨kind, seq0, time0, turn, step, index, dt, members⟩ := row
  cases kind with
  | text => exact ⟨rfl, by simp, rfl, rfl, rfl, rfl, rfl, hgaps, harity⟩
  | reasoning => exact ⟨rfl, by simp, rfl, rfl, rfl, rfl, rfl, hgaps, harity⟩
  | toolCall id name =>
    cases name with
    | none =>
      refine ⟨rfl, ?_, rfl, rfl, rfl, rfl, rfl, hgaps, harity⟩
      rintro _ _ heq
      obtain ⟨rfl, rfl⟩ := RunKind.toolCall.inj heq
      exact ⟨rfl, rfl⟩
    | some name =>
      refine ⟨rfl, ?_, rfl, rfl, rfl, rfl, rfl, hgaps, harity⟩
      rintro _ _ heq
      obtain ⟨rfl, rfl⟩ := RunKind.toolCall.inj heq
      exact ⟨rfl, rfl⟩

theorem deepEqual_ints (ints : List Int) :
    (Json.arr (ints.map Json.int)).deepEqual (.arr (ints.map Json.int)) = true := by
  have := Json.deepEqualItems_map_num (ints.map JsonNumber.int)
  rw [List.map_map] at this
  exact this

theorem deepEqual_strings (strings : List String) :
    (Json.arr (strings.map Json.str)).deepEqual (.arr (strings.map Json.str)) = true :=
  Json.deepEqualItems_map_str strings

theorem HoldsData.same {row : ChunkRow} (h : HoldsData data row.kind
      { turn := row.turn, step := row.step, index := row.index, dt := row.dt
        payload := row.members }) : (Json.obj row.data).deepEqual data = true := by
  obtain ⟨hkeys, hcall, hturn, hstep, hindex, hpayload, hdt, _, _⟩ := h
  obtain ⟨fields, rfl, hlength, _⟩ := hasExactKeys_obj hkeys
  simp only [Json.get?_obj] at hturn hstep hindex hpayload hdt hcall
  have hints := deepEqual_ints row.dt
  have hstrings := deepEqual_strings row.members
  rw [ChunkRow.data]
  cases hkind : row.kind with
  | text =>
    simp only [hkind, RunKind.delta, payloadsKey] at hpayload hlength
    rw [Json.deepEqual_obj_iff]
    refine ⟨hlength.symm, ?_⟩
    simp [Json.deepEqualFields_cons, hturn, hstep, hindex, hdt, hpayload, hints, hstrings]
  | reasoning =>
    simp only [hkind, RunKind.delta, payloadsKey] at hpayload hlength
    rw [Json.deepEqual_obj_iff]
    refine ⟨hlength.symm, ?_⟩
    simp [Json.deepEqualFields_cons, hturn, hstep, hindex, hdt, hpayload, hints, hstrings]
  | toolCall id name =>
    obtain ⟨hid, hname⟩ := hcall id name hkind
    simp only [hkind, RunKind.delta, payloadsKey] at hpayload hlength
    rw [Json.deepEqual_obj_iff]
    cases name with
    | none =>
      refine ⟨hlength.symm, ?_⟩
      simp [Json.optionalField, Json.deepEqualFields_cons, hturn, hstep, hindex, hdt, hpayload,
        hid, hints, hstrings]
    | some name =>
      refine ⟨hlength.symm, ?_⟩
      simp [Json.optionalField, Json.deepEqualFields_cons, hturn, hstep, hindex, hdt, hpayload,
        hid, hname, hints, hstrings]

theorem HoldsRow.same {row : ChunkRow} (h : HoldsRow value row)
    (htype : value.get? "type" = some (.str row.kind.delta.tag)) :
    row.toJson.deepEqual value = true := by
  obtain ⟨hkeys, hseq, htime, data, hdata, hholds⟩ := h
  obtain ⟨fields, rfl, hlength, _⟩ := hasExactKeys_obj hkeys
  simp only [Json.get?_obj] at hseq htime hdata htype
  rw [ChunkRow.toJson, Json.deepEqual_obj_iff]
  refine ⟨hlength.symm, ?_⟩
  simp [Json.deepEqualFields_cons, htype, hseq, htime, hdata, hholds.same]

end Validate

end ChunkRows

end Harness
