import Harness.Llm.AssemblerSound
import Harness.Llm.Translate

namespace Harness.Llm

open Harness.Foundation

section Protocol

def deltaSlot : StreamChunk → Option (Nat × String)
  | .textDelta index _ => some (index, "text")
  | .reasoningDelta index _ => some (index, "reasoning")
  | .toolCallDelta index _ _ _ => some (index, "tool-call")
  | _ => none

inductive Body : List StreamChunk → List (Nat × String) → Prop
  | nil : Body [] []
  | start {chunks : List StreamChunk} {opened : List (Nat × String)} {index : Nat} {type : String}
      (h : Body chunks opened) (hfresh : index ∉ opened.map Prod.fst) :
      Body (chunks ++ [.blockStart index type]) (opened ++ [(index, type)])
  | delta {chunks : List StreamChunk} {opened : List (Nat × String)} {chunk : StreamChunk}
      {slot : Nat × String} (h : Body chunks opened) (hdelta : deltaSlot chunk = some slot)
      (hopen : slot ∈ opened) : Body (chunks ++ [chunk]) opened

/-- A whole stream: its body, one end for each block opened, the usage, and one finish. -/
def WellFormed (stream : List StreamChunk) : Prop :=
  ∃ (body : List StreamChunk) (ended : List (Nat × ContentBlock)) (usage : Option TokenUsage)
    (reason : FinishReason) (replay : Option ReplayEnvelope),
    Body body (ended.map fun block => (block.1, blockType block.2)) ∧
    stream = body ++ ((ended.map fun block => .blockEnd block.1 block.2) ++
      (usage.toList.map .usage ++ [.finish reason replay]))

def isBlockEnd : StreamChunk → Bool
  | .blockEnd _ _ => true
  | _ => false

def withoutEnds (stream : List StreamChunk) : List StreamChunk :=
  stream.filter fun chunk => !isBlockEnd chunk

theorem Body.withoutEnds {chunks : List StreamChunk} {opened : List (Nat × String)}
    (h : Body chunks opened) : withoutEnds chunks = chunks := by
  induction h with
  | nil => rfl
  | start _ _ ih =>
    unfold Llm.withoutEnds at ih ⊢
    rw [List.filter_append, ih]
    rfl
  | @delta _ _ chunk _ _ hdelta _ ih =>
    unfold Llm.withoutEnds at ih ⊢
    rw [List.filter_append, ih]
    cases chunk <;> first | rfl | cases hdelta

end Protocol

structure Row where
  block : OpenBlock
  entry : PartialBlock
  names : List String

namespace Row

def slot (row : Row) : Nat × String := (row.block.index, row.block.kind.tag)

def lastName (names : List String) : Option String := (names.filter (· ≠ "")).getLast?

structure Matches (row : Row) : Prop where
  unclosed : row.entry.block = none
  type : row.entry.blockType = row.block.kind.tag
  text : row.block.kind ≠ .toolCall → row.entry.text = row.block.text
  arguments : row.block.kind = .toolCall → row.entry.toolCallArguments = row.block.text
  name : row.block.name = row.names.getLast?
  entryName : row.entry.toolCallName = lastName row.names

def Called (row : Row) : Prop :=
  row.block.kind = .toolCall → row.entry.toolCallId = some (row.block.callId.getD "")

def fresh (index : Nat) (kind : BlockKind) : Row where
  block := { index, kind, text := "", callId := none, name := none }
  entry := .fresh kind.tag
  names := []

theorem fresh_matches (index : Nat) (kind : BlockKind) : (fresh index kind).Matches :=
  ⟨rfl, rfl, fun _ => rfl, fun _ => rfl, rfl, rfl⟩

def touch (rows : List Row) (index : Nat) (change : Row → Row) : List Row :=
  rows.map fun row => if row.block.index = index then change row else row

theorem mem_touch {rows : List Row} {index : Nat} {change : Row → Row} {row : Row}
    (h : row ∈ touch rows index change) :
    ∃ old ∈ rows, old.block.index = index ∧ row = change old ∨
      old.block.index ≠ index ∧ row = old := by
  obtain ⟨old, hold, heq⟩ := List.mem_map.mp h
  refine ⟨old, ?_⟩
  split at heq
  · exact ⟨hold, .inl ⟨by assumption, heq.symm⟩⟩
  · exact ⟨hold, .inr ⟨by assumption, heq.symm⟩⟩

theorem lastName_concat (names : List String) (name : String) :
    lastName (names ++ [name]) = if name = "" then lastName names else some name := by
  unfold lastName
  rw [List.filter_append]
  split
  · rename_i hempty
    rw [List.filter_cons_of_neg (by simpa using hempty), List.filter_nil, List.append_nil]
  · rename_i hname
    rw [List.filter_cons_of_pos (by simpa using hname), List.filter_nil, List.getLast?_concat]

theorem lastName_of_getLast? {names : List String} {name : String}
    (h : names.getLast? = some name) (hname : name ≠ "") : lastName names = some name := by
  obtain ⟨front, rfl⟩ := List.getLast?_eq_some_iff.mp h
  rw [lastName_concat, if_neg hname]

def callEntry (call : WireToolCallDelta) (block : OpenBlock) (entry : PartialBlock) :
    PartialBlock :=
  { entry with
    toolCallId := some (block.callId.getD "")
    toolCallName :=
      match block.name with
      | some name => if name = "" then entry.toolCallName else some name
      | none => entry.toolCallName
    toolCallArguments := entry.toolCallArguments ++ Translator.fragment call }

theorem push_callDelta (assembler : BlockAssembler) (index : Nat) (call : WireToolCallDelta)
    (block : OpenBlock) :
    assembler.push (Translator.callDelta index call block) =
      assembler.update index BlockKind.toolCall.tag (callEntry call block) := rfl

def called (call : WireToolCallDelta) (row : Row) : Row where
  block := Translator.addCall call row.block
  entry := callEntry call (Translator.addCall call row.block) row.entry
  names := row.names ++ (Translator.reportedName call).toList

theorem Matches.called {row : Row} (h : row.Matches) (hkind : row.block.kind = .toolCall)
    (call : WireToolCallDelta) : (row.called call).Matches where
  unclosed := h.unclosed
  type := h.type
  text := fun hne => absurd hkind hne
  arguments := fun _ => congrArg (· ++ Translator.fragment call) (h.arguments hkind)
  name := by
    change (Translator.reportedName call).or row.block.name =
      (row.names ++ (Translator.reportedName call).toList).getLast?
    cases Translator.reportedName call with
    | none => rw [Option.none_or, Option.toList_none, List.append_nil, h.name]
    | some name => rw [Option.some_or, Option.toList_some, List.getLast?_concat]
  entryName := by
    have hname : (row.called call).block.name =
        (Translator.reportedName call).or row.block.name := rfl
    have hentry : (row.called call).entry.toolCallName =
        match (row.called call).block.name with
        | some name => if name = "" then row.entry.toolCallName else some name
        | none => row.entry.toolCallName := rfl
    have hnames : (row.called call).names =
        row.names ++ (Translator.reportedName call).toList := rfl
    rw [hentry, hname, hnames, h.entryName, h.name]
    cases Translator.reportedName call with
    | none =>
      rw [Option.none_or, Option.toList_none, List.append_nil]
      cases hlast : row.names.getLast? with
      | none => rfl
      | some name =>
        by_cases hempty : name = ""
        · exact if_pos hempty
        · rw [lastName_of_getLast? hlast hempty]
          exact if_neg hempty
    | some name =>
      rw [Option.some_or, Option.toList_some, lastName_concat]

theorem called_called (call : WireToolCallDelta) (row : Row) : (row.called call).Called :=
  fun _ => rfl

end Row

/-- The rows behind the blocks of a translation and the chunks it has given out. -/
structure Tracks (rows : List Row) (order : List OpenBlock) (nextIndex : Nat)
    (out : List StreamChunk) : Prop where
  order : order = rows.map Row.block
  next : nextIndex = rows.length
  indices : rows.map (fun row => row.block.index) = List.range rows.length
  body : Body out (rows.map Row.slot)
  assembled : (BlockAssembler.empty.pushAll out).order = List.range rows.length
  entries : ∀ row ∈ rows,
    (BlockAssembler.empty.pushAll out).partials.get? row.block.index = some row.entry
  absent : ∀ index, rows.length ≤ index →
    (BlockAssembler.empty.pushAll out).partials.get? index = none

namespace Tracks

variable {rows : List Row} {order : List OpenBlock} {nextIndex : Nat} {out : List StreamChunk}

theorem nil : Tracks [] [] 0 [] where
  order := rfl
  next := rfl
  indices := rfl
  body := .nil
  assembled := rfl
  entries := fun _ hmem => absurd hmem List.not_mem_nil
  absent := fun _ _ => rfl

theorem nodup (h : Tracks rows order nextIndex out) :
    (rows.map fun row => row.block.index).Nodup := by
  rw [h.indices]
  exact List.nodup_range

theorem index_lt (h : Tracks rows order nextIndex out) {row : Row} (hmem : row ∈ rows) :
    row.block.index < rows.length := by
  rw [← List.mem_range, ← h.indices]
  exact List.mem_map_of_mem hmem

theorem unique (h : Tracks rows order nextIndex out) {row other : Row} (hrow : row ∈ rows)
    (hother : other ∈ rows) (hindex : row.block.index = other.block.index) : row = other :=
  List.inj_on_of_nodup_map h.nodup hrow hother hindex

theorem find (h : Tracks rows order nextIndex out) {row : Row} (hrow : row ∈ rows) :
    (order.find? fun block => block.index = row.block.index) = some row.block := by
  cases hfind : order.find? fun block => block.index = row.block.index with
  | none =>
    have hmem : row.block ∈ order := by
      rw [h.order]
      exact List.mem_map_of_mem hrow
    have habsent := List.find?_eq_none.mp hfind row.block hmem
    rw [decide_eq_true_eq] at habsent
    exact absurd rfl habsent
  | some block =>
    have hindex := List.find?_some hfind
    rw [decide_eq_true_eq] at hindex
    have hmem := List.mem_of_find?_eq_some hfind
    rw [h.order] at hmem
    obtain ⟨other, hother, rfl⟩ := List.mem_map.mp hmem
    rw [h.unique hother hrow hindex]

theorem pushAll_concat (assembler : BlockAssembler) (chunk : StreamChunk) :
    assembler.pushAll (out ++ [chunk]) = (assembler.pushAll out).push chunk := by
  unfold BlockAssembler.pushAll
  rw [List.foldl_concat]

theorem start (h : Tracks rows order nextIndex out) (kind : BlockKind) :
    Tracks (rows ++ [.fresh nextIndex kind])
      (order ++ [{ index := nextIndex, kind, text := "", callId := none, name := none }])
      (nextIndex + 1) (out ++ [.blockStart nextIndex kind.tag]) := by
  obtain ⟨rfl, rfl, hindices, hbody, hassembled, hentries, habsent⟩ := h
  have hensure := habsent rows.length (Nat.le_refl _)
  have hpush : (BlockAssembler.empty.pushAll out).push (.blockStart rows.length kind.tag) =
      { BlockAssembler.empty.pushAll out with
        partials := (BlockAssembler.empty.pushAll out).partials.set rows.length (.fresh kind.tag)
        order := (BlockAssembler.empty.pushAll out).order ++ [rows.length] } := by
    unfold BlockAssembler.push BlockAssembler.ensure
    simp only [hensure]
  refine ⟨?_, ?_, ?_, ?_, ?_, ?_, ?_⟩
  · rw [List.map_append]
    rfl
  · rw [List.length_append]
    rfl
  · rw [List.map_append, List.length_append, List.length_singleton, List.range_succ, hindices]
    rfl
  · rw [List.map_append]
    apply Body.start hbody
    have hfirst : (rows.map Row.slot).map Prod.fst = List.range rows.length := by
      rw [List.map_map, ← hindices]
      rfl
    rw [hfirst, List.mem_range]
    exact Nat.lt_irrefl _
  · rw [pushAll_concat, hpush, List.length_append, List.length_singleton, List.range_succ,
      ← hassembled]
  · intro row hmem
    rw [pushAll_concat, hpush, OrderedMap.get?_set]
    rw [List.mem_append, List.mem_singleton] at hmem
    rcases hmem with hmem | rfl
    · have hne : row.block.index ≠ rows.length := by
        have hlt : row.block.index ∈ List.range rows.length :=
          hindices ▸ List.mem_map_of_mem hmem
        rw [List.mem_range] at hlt
        exact Nat.ne_of_lt hlt
      rw [if_neg hne]
      exact hentries row hmem
    · exact if_pos rfl
  · intro index hindex
    rw [List.length_append, List.length_singleton] at hindex
    rw [pushAll_concat, hpush, OrderedMap.get?_set, if_neg (by omega)]
    exact habsent index (by omega)

theorem delta (h : Tracks rows order nextIndex out) (names : Row → List String) {target : Row}
    (htarget : target ∈ rows) (hunclosed : target.entry.block = none) {chunk : StreamChunk}
    {f : OpenBlock → OpenBlock} {g : PartialBlock → PartialBlock}
    (hslot : deltaSlot chunk = some target.slot)
    (hpush : ∀ assembler : BlockAssembler,
      assembler.push chunk = assembler.update target.block.index target.block.kind.tag g)
    (hkept : ∀ block, (f block).index = block.index ∧ (f block).kind = block.kind) :
    Tracks
      (Row.touch rows target.block.index fun row =>
        { block := f row.block, entry := g row.entry, names := names row })
      (order.map fun block => if block.index = target.block.index then f block else block)
      nextIndex (out ++ [chunk]) := by
  have hunique : ∀ row ∈ rows, row.block.index = target.block.index → row = target :=
    fun row hrow hindex => h.unique hrow htarget hindex
  obtain ⟨rfl, rfl, hindices, hbody, hassembled, hentries, habsent⟩ := h
  have hpresent := hentries target htarget
  have hstep : (BlockAssembler.empty.pushAll out).push chunk =
      { BlockAssembler.empty.pushAll out with
        partials := (BlockAssembler.empty.pushAll out).partials.modify target.block.index
          fun entry => if entry.block.isSome then entry else g entry } := by
    rw [hpush]
    unfold BlockAssembler.update BlockAssembler.ensure
    simp only [hpresent]
  have hblocks : ∀ row : Row, ((if row.block.index = target.block.index then
      { block := f row.block, entry := g row.entry, names := names row } else row : Row)).slot =
        row.slot := by
    intro row
    split
    · unfold Row.slot
      simp only [hkept]
    · rfl
  refine ⟨?_, ?_, ?_, ?_, ?_, ?_, ?_⟩
  · unfold Row.touch
    rw [List.map_map, List.map_map]
    apply List.map_congr_left
    intro row _
    simp only [Function.comp_apply]
    split <;> rfl
  · exact (List.length_map _).symm
  · unfold Row.touch
    rw [List.map_map, List.length_map, ← hindices]
    apply List.map_congr_left
    intro row _
    exact congrArg Prod.fst (hblocks row)
  · have hslots : (Row.touch rows target.block.index fun row =>
        { block := f row.block, entry := g row.entry, names := names row }).map Row.slot =
          rows.map Row.slot := by
      unfold Row.touch
      rw [List.map_map]
      apply List.map_congr_left
      intro row _
      exact hblocks row
    rw [hslots]
    exact .delta hbody hslot (List.mem_map_of_mem htarget)
  · rw [pushAll_concat, hstep]
    exact hassembled.trans (congrArg List.range (List.length_map _).symm)
  · intro row hmem
    rw [pushAll_concat, hstep, OrderedMap.get?_modify]
    obtain ⟨old, hold, ⟨hindex, rfl⟩ | ⟨hindex, rfl⟩⟩ := Row.mem_touch hmem
    · obtain rfl := hunique old hold hindex
      rw [if_pos (hkept _).1, (hkept _).1, hpresent, Option.map_some, hunclosed]
      rfl
    · rw [if_neg hindex]
      exact hentries row hold
  · intro index hindex
    have hlength : (Row.touch rows target.block.index fun row =>
        { block := f row.block, entry := g row.entry, names := names row }).length =
          rows.length := List.length_map _
    rw [hlength] at hindex
    rw [pushAll_concat, hstep, OrderedMap.get?_modify, habsent index hindex]
    split <;> rfl

end Tracks

def namesOf (calls : List WireToolCallDelta) (key : Int) : List String :=
  (calls.filter fun call => call.index = key).filterMap Translator.reportedName

theorem namesOf_concat_self (calls : List WireToolCallDelta) (call : WireToolCallDelta) :
    namesOf (calls ++ [call]) call.index =
      namesOf calls call.index ++ (Translator.reportedName call).toList := by
  unfold namesOf
  rw [List.filter_append, List.filterMap_append, List.filter_cons_of_pos (by simp),
    List.filter_nil, List.filterMap_cons]
  cases Translator.reportedName call <;> rfl

theorem namesOf_concat_of_ne {calls : List WireToolCallDelta} {call : WireToolCallDelta} {key : Int}
    (h : key ≠ call.index) : namesOf (calls ++ [call]) key = namesOf calls key := by
  unfold namesOf
  rw [List.filter_append, List.filter_cons_of_neg (by simpa using h.symm), List.filter_nil,
    List.append_nil]

def Points (rows : List Row) (pointer : Option Nat) (kind : BlockKind) : Prop :=
  ∀ index ∈ pointer, ∃ row ∈ rows, row.block.index = index ∧ row.block.kind = kind

structure Follows (toUpperCase : String → String) (calls : List WireToolCallDelta)
    (reasons : List String) (rows : List Row) (state : Translator) (out : List StreamChunk) :
    Prop where
  tracks : Tracks rows state.order state.nextIndex out
  agree : ∀ row ∈ rows, row.Matches
  text : Points rows state.textBlock .text
  reasoning : Points rows state.reasoningBlock .reasoning
  known : ∀ key index, state.toolBlocks.get? key = some index →
    ∃ row ∈ rows, row.block.index = index ∧ row.block.kind = .toolCall ∧
      row.names = namesOf calls key
  unknown : ∀ key, state.toolBlocks.get? key = none → namesOf calls key = []
  cover : ∀ row ∈ rows, row.block.kind = .toolCall →
    ∃ key, state.toolBlocks.get? key = some row.block.index
  separate : ∀ key other index, state.toolBlocks.get? key = some index →
    state.toolBlocks.get? other = some index → key = other
  finish : state.pendingFinish = reasons.getLast?.map (mapFinishReason toUpperCase)

structure Keeps (rows later : List Row) : Prop where
  forth : ∀ row ∈ rows, ∃ next ∈ later, next.block.index = row.block.index ∧
    next.block.kind = row.block.kind ∧ next.names = row.names
  back : ∀ next ∈ later, next.block.kind = .toolCall → ∃ row ∈ rows,
    next.block.index = row.block.index ∧ next.block.kind = row.block.kind

theorem Keeps.trans {first second third : List Row} (h : Keeps first second)
    (h' : Keeps second third) : Keeps first third := by
  constructor
  · intro row hrow
    obtain ⟨next, hnext, hindex, hkind, hnames⟩ := h.forth row hrow
    obtain ⟨last, hlast, hindex', hkind', hnames'⟩ := h'.forth next hnext
    exact ⟨last, hlast, hindex'.trans hindex, hkind'.trans hkind, hnames'.trans hnames⟩
  · intro last hlast hcall
    obtain ⟨next, hnext, hindex, hkind⟩ := h'.back last hlast hcall
    obtain ⟨row, hrow, hindex', hkind'⟩ := h.back next hnext (hkind ▸ hcall)
    exact ⟨row, hrow, hindex.trans hindex', hkind.trans hkind'⟩

theorem Keeps.fresh (rows : List Row) (index : Nat) {kind : BlockKind} (h : kind ≠ .toolCall) :
    Keeps rows (rows ++ [.fresh index kind]) := by
  constructor
  · intro row hrow
    exact ⟨row, List.mem_append_left _ hrow, rfl, rfl, rfl⟩
  · intro next hnext hcall
    rw [List.mem_append, List.mem_singleton] at hnext
    rcases hnext with hnext | rfl
    · exact ⟨next, hnext, rfl, rfl⟩
    · exact absurd hcall h

theorem Keeps.touch (rows : List Row) (index : Nat) {change : Row → Row}
    (h : ∀ row, (change row).block.index = row.block.index ∧
      (change row).block.kind = row.block.kind ∧ (change row).names = row.names) :
    Keeps rows (Row.touch rows index change) := by
  constructor
  · intro row hrow
    refine ⟨_, List.mem_map_of_mem hrow, ?_⟩
    split
    · exact h row
    · exact ⟨rfl, rfl, rfl⟩
  · intro next hnext hcall
    obtain ⟨old, hold, ⟨-, rfl⟩ | ⟨-, rfl⟩⟩ := Row.mem_touch hnext
    · exact ⟨old, hold, (h old).1, (h old).2.1⟩
    · exact ⟨_, hold, rfl, rfl⟩

theorem Points.keeps {rows later : List Row} {pointer : Option Nat} {kind : BlockKind}
    (h : Points rows pointer kind) (hkeeps : Keeps rows later) : Points later pointer kind := by
  intro index hindex
  obtain ⟨row, hrow, hat, hkind⟩ := h index hindex
  obtain ⟨next, hnext, hindex', hkind', -⟩ := hkeeps.forth row hrow
  exact ⟨next, hnext, hindex'.trans hat, hkind'.trans hkind⟩

namespace Follows

variable {toUpperCase : String → String} {calls : List WireToolCallDelta} {reasons : List String}
  {rows : List Row} {state : Translator} {out : List StreamChunk}

theorem initial : Follows toUpperCase [] [] [] .initial [] where
  tracks := .nil
  agree := fun _ hmem => absurd hmem List.not_mem_nil
  text := fun _ hnone => (nomatch hnone)
  reasoning := fun _ hnone => (nomatch hnone)
  known := fun _ _ hnone => (nomatch hnone)
  unknown := fun _ _ => rfl
  cover := fun _ hmem => absurd hmem List.not_mem_nil
  separate := fun _ _ _ hnone => (nomatch hnone)
  finish := rfl

theorem keeps (h : Follows toUpperCase calls reasons rows state out) {later : List Row}
    {next : Translator} {more : List StreamChunk} (hkeeps : Keeps rows later)
    (htracks : Tracks later next.order next.nextIndex more) (hagree : ∀ row ∈ later, row.Matches)
    (htext : Points later next.textBlock .text)
    (hreasoning : Points later next.reasoningBlock .reasoning)
    (htools : next.toolBlocks = state.toolBlocks)
    (hfinish : next.pendingFinish = state.pendingFinish) :
    Follows toUpperCase calls reasons later next more where
  tracks := htracks
  agree := hagree
  text := htext
  reasoning := hreasoning
  known := by
    intro key index hkey
    obtain ⟨row, hrow, hindex, hkind, hnames⟩ := h.known key index (htools ▸ hkey)
    obtain ⟨kept, hkept, hindex', hkind', hnames'⟩ := hkeeps.forth row hrow
    exact ⟨kept, hkept, hindex'.trans hindex, hkind'.trans hkind, hnames'.trans hnames⟩
  unknown := fun key hkey => h.unknown key (htools ▸ hkey)
  cover := by
    intro kept hkept hcall
    obtain ⟨row, hrow, hindex, hkind⟩ := hkeeps.back kept hkept hcall
    rw [htools, hindex]
    exact h.cover row hrow (hkind ▸ hcall)
  separate := by
    rw [htools]
    exact h.separate
  finish := hfinish.trans h.finish

theorem index_unused (h : Follows toUpperCase calls reasons rows state out) {row : Row}
    (hrow : row ∈ rows) : row.block.index ≠ state.nextIndex := by
  rw [h.tracks.next]
  exact Nat.ne_of_lt (h.tracks.index_lt hrow)

section Text

variable {kind : BlockKind} {delta : Nat → String → StreamChunk}
  {pointTo : Translator → Nat → Translator}

theorem addText {order : List OpenBlock} {nextIndex : Nat} {target : Row}
    (h : Tracks rows order nextIndex out) (hagree : ∀ row ∈ rows, row.Matches ∧ row.Called)
    (htarget : target ∈ rows)
    (hkind : target.block.kind = kind) (hcall : kind ≠ .toolCall)
    (hslot : ∀ index text, deltaSlot (delta index text) = some (index, kind.tag))
    (hpush : ∀ (assembler : BlockAssembler) index text, assembler.push (delta index text) =
      assembler.update index kind.tag fun entry => { entry with text := entry.text ++ text })
    (text : String) :
    ∃ later, Keeps rows later ∧
      Tracks later
        (order.map fun block =>
          if block.index = target.block.index then Translator.addText text block else block)
        nextIndex (out ++ [delta target.block.index text]) ∧
      ∀ row ∈ later, row.Matches ∧ row.Called := by
  subst hkind
  refine ⟨_, Keeps.touch rows target.block.index ?_, h.delta Row.names htarget
    (hagree _ htarget).1.unclosed (hslot _ text) (fun assembler => hpush assembler _ text)
    (fun _ => ⟨rfl, rfl⟩), ?_⟩
  · intro row
    exact ⟨rfl, rfl, rfl⟩
  · intro row hrow
    obtain ⟨old, hold, ⟨hindex, rfl⟩ | ⟨-, rfl⟩⟩ := Row.mem_touch hrow
    · obtain rfl := h.unique hold htarget hindex
      obtain ⟨hunclosed, htype, htext, -, hname, hentry⟩ := (hagree old hold).1
      refine ⟨⟨hunclosed, htype, fun _ => ?_, fun htool => absurd htool hcall, hname, hentry⟩,
        fun htool => absurd htool hcall⟩
      exact congrArg (· ++ text) (htext hcall)
    · exact hagree row hold

theorem textDelta (h : Follows toUpperCase calls reasons rows state out)
    (hcalled : ∀ row ∈ rows, row.Called) {current : Option Nat} (hcall : kind ≠ .toolCall) (hcurrent : Points rows current kind)
    (hpoint : ∀ state index, ∃ text reasoning,
      pointTo state index = { state with textBlock := text, reasoningBlock := reasoning } ∧
      (text = state.textBlock ∨ text = some index ∧ kind = .text) ∧
      (reasoning = state.reasoningBlock ∨ reasoning = some index ∧ kind = .reasoning))
    (hslot : ∀ index text, deltaSlot (delta index text) = some (index, kind.tag))
    (hpush : ∀ (assembler : BlockAssembler) index text, assembler.push (delta index text) =
      assembler.update index kind.tag fun entry => { entry with text := entry.text ++ text })
    (text : Option String) :
    ∃ later, Follows toUpperCase calls reasons later
        (state.textDelta kind current pointTo delta text).1
        (out ++ (state.textDelta kind current pointTo delta text).2) ∧
      ∀ row ∈ later, row.Called := by
  have hstays : Follows toUpperCase calls reasons rows state (out ++ []) := by
    rw [List.append_nil]
    exact h
  unfold Translator.textDelta
  have hrows : ∀ row ∈ rows, row.Matches ∧ row.Called :=
    fun row hrow => ⟨h.agree row hrow, hcalled row hrow⟩
  cases text with
  | none => exact ⟨rows, hstays, hcalled⟩
  | some text =>
    by_cases hempty : text = ""
    · simp only [if_pos hempty]
      exact ⟨rows, hstays, hcalled⟩
    · simp only [if_neg hempty]
      cases current with
      | some index =>
        obtain ⟨target, htarget, rfl, hkind⟩ := hcurrent index rfl
        obtain ⟨later, hkeeps, htracks, hagree⟩ :=
          addText h.tracks hrows htarget hkind hcall hslot hpush text
        exact ⟨later, h.keeps hkeeps htracks (fun row hrow => (hagree row hrow).1)
          (h.text.keeps hkeeps) (h.reasoning.keeps hkeeps) rfl rfl,
          fun row hrow => (hagree row hrow).2⟩
      | none =>
        have hstart := h.tracks.start kind
        have hagree : ∀ row ∈ rows ++ [Row.fresh state.nextIndex kind],
            row.Matches ∧ row.Called := by
          intro row hrow
          rw [List.mem_append, List.mem_singleton] at hrow
          rcases hrow with hrow | rfl
          · exact hrows row hrow
          · exact ⟨Row.fresh_matches state.nextIndex kind, fun htool => absurd htool hcall⟩
        obtain ⟨later, hkeeps, htracks, hagree'⟩ :=
          addText hstart hagree
            (List.mem_append_right rows (List.mem_singleton.mpr rfl)) rfl hcall hslot hpush text
        have hall := (Keeps.fresh rows state.nextIndex hcall).trans hkeeps
        have hnew : Points later (some state.nextIndex) kind := by
          rintro index ⟨⟩
          obtain ⟨next, hnext, hindex, hkind, -⟩ := hkeeps.forth _
            (List.mem_append_right rows (List.mem_singleton.mpr rfl))
          exact ⟨next, hnext, hindex, hkind⟩
        obtain ⟨text', reasoning', hpointed, htext, hreasoning⟩ :=
          hpoint (state.openBlock kind) state.nextIndex
        rw [hpointed]
        refine ⟨later, h.keeps hall ?_ (fun row hrow => (hagree' row hrow).1) ?_ ?_ rfl rfl,
          fun row hrow => (hagree' row hrow).2⟩
        · rw [List.append_assoc] at htracks
          exact htracks
        · rcases htext with rfl | ⟨rfl, rfl⟩
          · exact h.text.keeps hall
          · exact hnew
        · rcases hreasoning with rfl | ⟨rfl, rfl⟩
          · exact h.reasoning.keeps hall
          · exact hnew

theorem reasoningDelta (h : Follows toUpperCase calls reasons rows state out)
    (hcalled : ∀ row ∈ rows, row.Called) (text : Option String) :
    ∃ later, Follows toUpperCase calls reasons later (state.reasoningDelta text).1
        (out ++ (state.reasoningDelta text).2) ∧
      ∀ row ∈ later, row.Called := by
  have hcall : BlockKind.reasoning ≠ .toolCall := by decide
  apply h.textDelta hcalled hcall h.reasoning
  · intro state index
    exact ⟨state.textBlock, some index, rfl, .inl rfl, .inr ⟨rfl, rfl⟩⟩
  · exact fun _ _ => rfl
  · exact fun _ _ _ => rfl

theorem contentDelta (h : Follows toUpperCase calls reasons rows state out)
    (hcalled : ∀ row ∈ rows, row.Called) (text : Option String) :
    ∃ later, Follows toUpperCase calls reasons later (state.contentDelta text).1
        (out ++ (state.contentDelta text).2) ∧
      ∀ row ∈ later, row.Called := by
  have hcall : BlockKind.text ≠ .toolCall := by decide
  apply h.textDelta hcalled hcall h.text
  · intro state index
    exact ⟨some index, state.reasoningBlock, rfl, .inr ⟨rfl, rfl⟩, .inl rfl⟩
  · exact fun _ _ => rfl
  · exact fun _ _ _ => rfl

end Text

section Call

variable (call : WireToolCallDelta)

theorem takeCall {index : Nat} (h : Follows toUpperCase calls reasons rows state out)
    (hkey : state.toolBlocks.get? call.index = some index)
    (hcalled : ∀ row ∈ rows, row.block.index ≠ index → row.Called) :
    ∃ later, Follows toUpperCase (calls ++ [call]) reasons later
        (state.updateBlock index (Translator.addCall call))
        (out ++ ((state.updateBlock index (Translator.addCall call)).blockAt index).toList.map
          (Translator.callDelta index call)) ∧
      ∀ row ∈ later, row.Called := by
  obtain ⟨target, htarget, rfl, hkind, hnames⟩ := h.known call.index index hkey
  have hslot : deltaSlot (Translator.callDelta target.block.index call
      (Translator.addCall call target.block)) = some target.slot := by
    unfold Row.slot
    rw [hkind]
    rfl
  have htracks := h.tracks.delta
    (fun row => row.names ++ (Translator.reportedName call).toList) htarget
    (h.agree target htarget).unclosed hslot
    (f := Translator.addCall call) (fun assembler => hkind ▸ Row.push_callDelta assembler _ call _)
    (fun _ => ⟨rfl, rfl⟩)
  generalize hlater : Row.touch rows target.block.index _ = later at htracks
  have hcases : ∀ row ∈ later, row = target.called call ∨
      row ∈ rows ∧ row.block.index ≠ target.block.index := by
    intro row hrow
    rw [← hlater] at hrow
    obtain ⟨old, hold, ⟨hindex, rfl⟩ | ⟨hindex, rfl⟩⟩ := Row.mem_touch hrow
    · obtain rfl := h.tracks.unique hold htarget hindex
      exact .inl rfl
    · exact .inr ⟨hold, hindex⟩
  have htaken : target.called call ∈ later := by
    rw [← hlater]
    refine List.mem_map.mpr ⟨target, htarget, ?_⟩
    rw [if_pos rfl]
    rfl
  have hother : ∀ row ∈ rows, row.block.index ≠ target.block.index → row ∈ later := by
    intro row hrow hindex
    rw [← hlater]
    exact List.mem_map.mpr ⟨row, hrow, if_neg hindex⟩
  have hpoints : ∀ {pointer kind}, Points rows pointer kind → Points later pointer kind := by
    intro pointer kind hpoint index hindex
    obtain ⟨row, hrow, hat, hrowKind⟩ := hpoint index hindex
    by_cases hsame : row.block.index = target.block.index
    · obtain rfl := h.tracks.unique hrow htarget hsame
      exact ⟨_, htaken, hat, hrowKind⟩
    · exact ⟨row, hother row hrow hsame, hat, hrowKind⟩
  have hfound : (state.updateBlock target.block.index (Translator.addCall call)).blockAt
      target.block.index = some (Translator.addCall call target.block) :=
    htracks.find htaken
  rw [hfound]
  refine ⟨later, ⟨htracks, ?_, hpoints h.text, hpoints h.reasoning, ?_, ?_, ?_, h.separate,
    h.finish⟩, ?_⟩
  · intro row hrow
    rcases hcases row hrow with rfl | ⟨hold, -⟩
    · exact (h.agree target htarget).called hkind call
    · exact h.agree row hold
  · intro key index hindex
    by_cases hsame : key = call.index
    · subst hsame
      have heq : target.block.index = index := Option.some.inj (hkey.symm.trans hindex)
      refine ⟨_, htaken, heq, hkind, ?_⟩
      rw [namesOf_concat_self, ← hnames]
      rfl
    · obtain ⟨row, hrow, hat, hrowKind, hrowNames⟩ := h.known key index hindex
      rw [namesOf_concat_of_ne hsame]
      refine ⟨row, hother row hrow ?_, hat, hrowKind, hrowNames⟩
      intro hat'
      apply hsame
      apply h.separate key call.index index hindex
      rw [hkey, ← hat', hat]
  · intro key hnone
    rw [namesOf_concat_of_ne]
    · exact h.unknown key hnone
    · rintro rfl
      change state.toolBlocks.get? call.index = none at hnone
      rw [hkey] at hnone
      cases hnone
  · intro row hrow hrowKind
    rcases hcases row hrow with rfl | ⟨hold, -⟩
    · exact ⟨call.index, hkey⟩
    · exact h.cover row hold hrowKind
  · intro row hrow
    rcases hcases row hrow with rfl | ⟨hold, hindex⟩
    · exact Row.called_called call target
    · exact hcalled row hold hindex

theorem startCall (h : Follows toUpperCase calls reasons rows state out)
    (hkey : state.toolBlocks.get? call.index = none) :
    Follows toUpperCase calls reasons (rows ++ [.fresh state.nextIndex .toolCall])
      { state.openBlock .toolCall with
        toolBlocks := state.toolBlocks.set call.index state.nextIndex }
      (out ++ [.blockStart state.nextIndex BlockKind.toolCall.tag]) := by
  have hnew : Row.fresh state.nextIndex .toolCall ∈ rows ++ [.fresh state.nextIndex .toolCall] :=
    List.mem_append_right rows (List.mem_singleton.mpr rfl)
  have hpoints : ∀ {pointer kind}, Points rows pointer kind →
      Points (rows ++ [.fresh state.nextIndex .toolCall]) pointer kind := by
    intro pointer kind hpoint index hindex
    obtain ⟨row, hrow, hat⟩ := hpoint index hindex
    exact ⟨row, List.mem_append_left _ hrow, hat⟩
  have hused : ∀ key index, state.toolBlocks.get? key = some index → index ≠ state.nextIndex := by
    intro key index hindex
    obtain ⟨row, hrow, rfl, -⟩ := h.known key index hindex
    exact h.index_unused hrow
  refine ⟨h.tracks.start .toolCall, ?_, hpoints h.text, hpoints h.reasoning, ?_, ?_, ?_, ?_,
    h.finish⟩
  · intro row hrow
    rw [List.mem_append, List.mem_singleton] at hrow
    rcases hrow with hrow | rfl
    · exact h.agree row hrow
    · exact Row.fresh_matches _ _
  · intro key index hindex
    rcases OrderedMap.of_get?_set hindex with ⟨rfl, rfl⟩ | ⟨-, hold⟩
    · exact ⟨_, hnew, rfl, rfl, (h.unknown _ hkey).symm⟩
    · obtain ⟨row, hrow, hat⟩ := h.known key index hold
      exact ⟨row, List.mem_append_left _ hrow, hat⟩
  · intro key hnone
    change (state.toolBlocks.set call.index state.nextIndex).get? key = none at hnone
    rw [OrderedMap.get?_set] at hnone
    split at hnone
    · cases hnone
    · exact h.unknown key hnone
  · intro row hrow hkind
    rw [List.mem_append, List.mem_singleton] at hrow
    rcases hrow with hrow | rfl
    · obtain ⟨key, hat⟩ := h.cover row hrow hkind
      refine ⟨key, ?_⟩
      change (state.toolBlocks.set call.index state.nextIndex).get? key = _
      rw [OrderedMap.get?_set, if_neg, hat]
      rintro rfl
      rw [hkey] at hat
      cases hat
    · exact ⟨call.index, OrderedMap.get?_set_self _ _ _⟩
  · intro key other index hindex hother
    rcases OrderedMap.of_get?_set hindex with ⟨rfl, rfl⟩ | ⟨-, hold⟩
    · rcases OrderedMap.of_get?_set hother with ⟨rfl, -⟩ | ⟨-, hother⟩
      · rfl
      · exact absurd rfl (hused other _ hother)
    · rcases OrderedMap.of_get?_set hother with ⟨rfl, rfl⟩ | ⟨-, hother⟩
      · exact absurd rfl (hused key _ hold)
      · exact h.separate key other index hold hother

theorem toolCallDelta (h : Follows toUpperCase calls reasons rows state out)
    (hcalled : ∀ row ∈ rows, row.Called) :
    ∃ later, Follows toUpperCase (calls ++ [call]) reasons later (state.toolCallDelta call).1
        (out ++ (state.toolCallDelta call).2) ∧
      ∀ row ∈ later, row.Called := by
  unfold Translator.toolCallDelta
  cases hkey : state.toolBlocks.get? call.index with
  | some index => exact h.takeCall call hkey fun row hrow _ => hcalled row hrow
  | none =>
    simp only [Option.getD_none]
    rw [← List.append_assoc]
    apply (h.startCall call hkey).takeCall call
    · exact OrderedMap.get?_set_self _ _ _
    · intro row hrow hindex
      rw [List.mem_append, List.mem_singleton] at hrow
      rcases hrow with hrow | rfl
      · exact hcalled row hrow
      · exact absurd rfl hindex

end Call

theorem toolCalls (h : Follows toUpperCase calls reasons rows state out)
    (hcalled : ∀ row ∈ rows, row.Called) (more : List WireToolCallDelta) :
    ∃ later, Follows toUpperCase (calls ++ more) reasons later
        (emit Translator.toolCallDelta state more).1
        (out ++ (emit Translator.toolCallDelta state more).2) ∧
      ∀ row ∈ later, row.Called := by
  have hrun := emit_relation (fun call => [call])
    (fun calls state out => ∃ rows, Follows toUpperCase calls reasons rows state out ∧
      ∀ row ∈ rows, row.Called)
    (fun _ _ _ call ⟨_, hfollows, hcalled⟩ => hfollows.toolCallDelta call hcalled)
    more ⟨rows, h, hcalled⟩
  rw [List.flatMap_singleton'] at hrun
  exact hrun

theorem getLast?_map_append {α β : Type} (f : α → β) (items : List α) (item : Option α) :
    ((items ++ item.toList).getLast?).map f = (item.map f).or (items.getLast?.map f) := by
  cases item with
  | none => rw [Option.toList_none, List.append_nil, Option.map_none, Option.none_or]
  | some item => rw [Option.toList_some, List.getLast?_concat, Option.map_some, Option.some_or]

end Follows

def callsOf (choice : WireChoice) : List WireToolCallDelta :=
  (choice.delta.map WireDelta.toolCalls).getD []

def reasonsOf (choice : WireChoice) : List String := choice.finishReason.toList

def Followed (toUpperCase : String → String) (choices : List WireChoice) (state : Translator)
    (out : List StreamChunk) : Prop :=
  ∃ rows, Follows toUpperCase (choices.flatMap callsOf) (choices.flatMap reasonsOf) rows state
    out ∧ ∀ row ∈ rows, row.Called

theorem Followed.initial {toUpperCase : String → String} :
    Followed toUpperCase [] .initial [] :=
  ⟨[], .initial, fun _ hmem => absurd hmem List.not_mem_nil⟩

section Run

variable {toUpperCase : String → String} {choices : List WireChoice} {state : Translator}
  {out : List StreamChunk}

theorem Followed.choiceStep (h : Followed toUpperCase choices state out) (choice : WireChoice) :
    Followed toUpperCase (choices ++ [choice]) (state.choiceStep toUpperCase choice).1
      (out ++ (state.choiceStep toUpperCase choice).2) := by
  obtain ⟨rows, hfollows, hcalled⟩ := h
  obtain ⟨rows, hfollows, hcalled⟩ :=
    hfollows.reasoningDelta hcalled (choice.delta.bind WireDelta.reasoningContent)
  obtain ⟨rows, hfollows, hcalled⟩ :=
    hfollows.contentDelta hcalled (choice.delta.bind WireDelta.content)
  obtain ⟨rows, hfollows, hcalled⟩ := hfollows.toolCalls hcalled (callsOf choice)
  rw [List.append_assoc out, List.append_assoc out] at hfollows
  refine ⟨rows, ?_, hcalled⟩
  rw [List.flatMap_append, List.flatMap_append, List.flatMap_singleton, List.flatMap_singleton]
  refine { hfollows with finish := ?_ }
  have hlast := Follows.getLast?_map_append (mapFinishReason toUpperCase)
    (choices.flatMap reasonsOf) choice.finishReason
  rw [← hfollows.finish] at hlast
  exact hlast.symm

theorem Followed.chunkStep (h : Followed toUpperCase choices state out) (chunk : WireChunk) :
    Followed toUpperCase (choices ++ chunk.choices) (state.chunkStep toUpperCase chunk).1
      (out ++ (state.chunkStep toUpperCase chunk).2) := by
  have hrun := emit_relation (fun choice => [choice]) (Followed toUpperCase)
    (fun _ _ _ choice hstep => hstep.choiceStep choice) chunk.choices h
  rw [List.flatMap_singleton'] at hrun
  obtain ⟨rows, hfollows, hcalled⟩ := hrun
  exact ⟨rows, { hfollows with }, hcalled⟩

theorem Followed.payloads (h : Followed toUpperCase choices state out) (chunks : List WireChunk)
    (rest : List Payload) :
    ∃ last more, Followed toUpperCase (choices ++ chunks.flatMap WireChunk.choices) last
        (out ++ more) ∧
      state.payloads toUpperCase (chunks.map .chunk ++ .done :: rest) =
        (more ++ last.doneChunks, none) := by
  induction chunks generalizing choices state out with
  | nil =>
    refine ⟨state, [], ?_, rfl⟩
    rw [List.flatMap_nil, List.append_nil, List.append_nil]
    exact h
  | cons chunk chunks ih =>
    obtain ⟨last, more, hlast, hpayloads⟩ := ih (h.chunkStep chunk)
    refine ⟨last, (state.chunkStep toUpperCase chunk).2 ++ more, ?_, ?_⟩
    · rw [List.flatMap_cons, ← List.append_assoc, ← List.append_assoc]
      exact hlast
    · rw [List.map_cons, List.cons_append, Translator.payloads]
      simp only
      rw [hpayloads, List.append_assoc]

end Run

section Ends

theorem blockType_closeBlock (block : OpenBlock) : blockType (closeBlock block) = block.kind.tag := by
  unfold closeBlock
  cases block.kind <;> rfl

theorem pushAll_append (assembler : BlockAssembler) (front back : List StreamChunk) :
    assembler.pushAll (front ++ back) = (assembler.pushAll front).pushAll back :=
  List.foldl_append

def Row.ended (row : Row) : PartialBlock := { row.entry with block := some (closeBlock row.block) }

def endOf (row : Row) : StreamChunk := .blockEnd row.block.index (closeBlock row.block)

theorem push_endOf {assembler : BlockAssembler} {row : Row}
    (hentry : assembler.partials.get? row.block.index = some row.entry) :
    assembler.push (endOf row) =
      { assembler with
        partials := assembler.partials.modify row.block.index fun entry =>
          if entry.block.isSome then entry
          else { entry with block := some (closeBlock row.block) } } := by
  unfold endOf BlockAssembler.push BlockAssembler.update BlockAssembler.ensure
  simp only [hentry]

theorem pushAll_ends {rows : List Row} (assembler : BlockAssembler)
    (hnodup : (rows.map fun row => row.block.index).Nodup)
    (hentries : ∀ row ∈ rows, assembler.partials.get? row.block.index = some row.entry)
    (hagree : ∀ row ∈ rows, row.Matches) :
    (assembler.pushAll (rows.map endOf)).order = assembler.order ∧
      (∀ row ∈ rows,
        (assembler.pushAll (rows.map endOf)).partials.get? row.block.index = some row.ended) ∧
      ∀ index, index ∉ rows.map (fun row => row.block.index) →
        (assembler.pushAll (rows.map endOf)).partials.get? index =
          assembler.partials.get? index := by
  induction rows generalizing assembler with
  | nil => exact ⟨rfl, fun _ hmem => absurd hmem List.not_mem_nil, fun _ _ => rfl⟩
  | cons row rows ih =>
    rw [List.map_cons, List.nodup_cons] at hnodup
    have hpush := push_endOf (hentries row List.mem_cons_self)
    have hget : ∀ index, (assembler.push (endOf row)).partials.get? index =
        if index = row.block.index then some row.ended else assembler.partials.get? index := by
      intro index
      rw [hpush, OrderedMap.get?_modify]
      split
      · rename_i hindex
        rw [hindex, hentries row List.mem_cons_self, Option.map_some,
          (hagree row List.mem_cons_self).unclosed]
        rfl
      · rfl
    have hne : ∀ other ∈ rows, other.block.index ≠ row.block.index := by
      intro other hother heq
      exact hnodup.1 (heq ▸ List.mem_map_of_mem hother)
    obtain ⟨horder, hended, hothers⟩ := ih (assembler.push (endOf row)) hnodup.2
      (fun other hother => by
        rw [hget, if_neg (hne other hother)]
        exact hentries other (List.mem_cons_of_mem _ hother))
      (fun other hother => hagree other (List.mem_cons_of_mem _ hother))
    refine ⟨horder.trans (by rw [hpush]), ?_, ?_⟩
    · intro other hother
      rcases List.mem_cons.mp hother with rfl | hother
      · exact (hothers _ hnodup.1).trans (by rw [hget, if_pos rfl])
      · exact hended other hother
    · intro index hindex
      rw [List.map_cons, List.mem_cons, not_or] at hindex
      exact (hothers index hindex.2).trans (by rw [hget, if_neg hindex.1])

def Row.assembled (row : Row) : ContentBlock :=
  match row.block.kind with
  | .text => .text row.block.text
  | .reasoning => .reasoning row.block.text
  | .toolCall =>
    .toolCall {
      id := row.block.callId.getD ""
      name := (Row.lastName row.names).getD ""
      arguments := row.block.text }

theorem assemble_row {row : Row} (hagree : row.Matches) (hcalled : row.Called) (index : Nat) :
    BlockAssembler.assemble row.entry index = .ok row.assembled := by
  obtain ⟨hunclosed, htype, htext, harguments, -, hname⟩ := hagree
  unfold BlockAssembler.assemble Row.assembled
  rw [hunclosed, htype]
  cases hkind : row.block.kind with
  | text => exact congrArg (Except.ok ∘ ContentBlock.text) (htext (by rw [hkind]; decide))
  | reasoning => exact congrArg (Except.ok ∘ ContentBlock.reasoning) (htext (by rw [hkind]; decide))
  | toolCall =>
    simp only [BlockKind.tag, hname, hcalled hkind, harguments hkind, Option.getD_some]

theorem allBlocks_eq {assembler : BlockAssembler} {rows : List Row} (entry : Row → PartialBlock)
    (block : Row → ContentBlock) (horder : assembler.order = rows.map fun row => row.block.index)
    (hentries : ∀ row ∈ rows, assembler.partials.get? row.block.index = some (entry row))
    (hblocks : ∀ row ∈ rows,
      BlockAssembler.assemble (entry row) row.block.index = .ok (block row)) :
    assembler.allBlocks = .ok (rows.map block) := by
  unfold BlockAssembler.allBlocks
  rw [horder, mapM_eq_ok, List.forall₂_map_left_iff, List.forall₂_map_right_iff, List.forall₂_same]
  intro row hrow
  rw [BlockAssembler.mustGet, hentries row hrow]
  exact hblocks row hrow

end Ends

section Names

def Settles (names : List String) : Prop :=
  names.getLast? = some "" → ∀ name ∈ names, name = ""

theorem lastName_eq_iff (names : List String) :
    (Row.lastName names).getD "" = names.getLast?.getD "" ↔ Settles names := by
  unfold Settles
  cases hlast : names.getLast? with
  | none =>
    rw [List.getLast?_eq_none_iff] at hlast
    rw [hlast]
    exact iff_of_true rfl nofun
  | some last =>
    by_cases hempty : last = ""
    · subst hempty
      simp only [Option.getD_some, true_implies]
      cases hname : Row.lastName names with
      | none =>
        have hfilter := List.getLast?_eq_none_iff.mp hname
        rw [List.filter_eq_nil_iff] at hfilter
        exact iff_of_true rfl fun name hmem => by simpa using hfilter name hmem
      | some name =>
        have hmem := List.mem_filter.mp (List.mem_of_getLast? hname)
        have hne : name ≠ "" := by simpa using hmem.2
        exact iff_of_false hne fun hall => hne (hall name hmem.1)
    · rw [Row.lastName_of_getLast? hlast hempty]
      exact iff_of_true rfl fun h => absurd (Option.some.inj h) hempty

end Names

section Done

variable {toUpperCase : String → String} {calls : List WireToolCallDelta} {reasons : List String}
  {rows : List Row} {state : Translator} {out : List StreamChunk}

def Translator.tail (state : Translator) : List StreamChunk :=
  state.pendingUsage.toList.map .usage ++ [.finish state.finishReason none]

theorem doneChunks_eq (h : Follows toUpperCase calls reasons rows state out) :
    state.doneChunks = rows.map endOf ++ state.tail := by
  unfold Translator.doneChunks
  rw [h.tracks.order, List.map_map]
  rfl

theorem wellFormed_done (h : Follows toUpperCase calls reasons rows state out) :
    WellFormed (out ++ state.doneChunks) := by
  refine ⟨out, rows.map fun row => (row.block.index, closeBlock row.block), state.pendingUsage,
    state.finishReason, none, ?_, ?_⟩
  · rw [List.map_map]
    have hslots : rows.map ((fun block => (block.1, blockType block.2)) ∘
        fun row => (row.block.index, closeBlock row.block)) = rows.map Row.slot := by
      apply List.map_congr_left
      intro row _
      exact congrArg (Prod.mk row.block.index) (blockType_closeBlock row.block)
    exact hslots ▸ h.tracks.body
  · rw [doneChunks_eq h, List.map_map]
    rfl

theorem withoutEnds_done (h : Follows toUpperCase calls reasons rows state out) :
    withoutEnds (out ++ state.doneChunks) = out ++ state.tail := by
  have hends : withoutEnds (rows.map endOf) = [] := by
    apply List.filter_eq_nil_iff.mpr
    intro chunk hchunk
    obtain ⟨row, -, rfl⟩ := List.mem_map.mp hchunk
    exact Bool.false_ne_true
  have htail : withoutEnds state.tail = state.tail := by
    apply List.filter_eq_self.mpr
    intro chunk hchunk
    rcases List.mem_append.mp hchunk with hchunk | hchunk
    · obtain ⟨usage, -, rfl⟩ := List.mem_map.mp hchunk
      rfl
    · rw [List.mem_singleton.mp hchunk]
      rfl
  have hbody := h.tracks.body.withoutEnds
  rw [doneChunks_eq h]
  unfold withoutEnds at *
  rw [List.filter_append, List.filter_append, hbody, hends, htail, List.nil_append]

theorem pushAll_tail (assembler : BlockAssembler) (state : Translator) :
    (assembler.pushAll state.tail).order = assembler.order ∧
      (assembler.pushAll state.tail).partials = assembler.partials ∧
      (assembler.pushAll state.tail).finish = state.finishReason := by
  unfold Translator.tail
  cases state.pendingUsage <;> exact ⟨rfl, rfl, rfl⟩

theorem blocks_done (h : Follows toUpperCase calls reasons rows state out) :
    (BlockAssembler.empty.pushAll (out ++ state.doneChunks)).blocks =
      .ok (BlockAssembler.keepFor state.finishReason
        (rows.map fun row => closeBlock row.block)) := by
  obtain ⟨horder, hended, -⟩ := pushAll_ends (BlockAssembler.empty.pushAll out) h.tracks.nodup
    h.tracks.entries h.agree
  obtain ⟨htailOrder, htailEntries, hfinish⟩ :=
    pushAll_tail ((BlockAssembler.empty.pushAll out).pushAll (rows.map endOf)) state
  rw [doneChunks_eq h, pushAll_append, pushAll_append, ← hfinish]
  apply BlockAssembler.blocks_eq
  apply allBlocks_eq Row.ended
  · rw [htailOrder, horder, h.tracks.assembled, h.tracks.indices]
  · rw [htailEntries]
    exact hended
  · exact fun _ _ => rfl

theorem blocks_withoutEnds (h : Follows toUpperCase calls reasons rows state out)
    (hcalled : ∀ row ∈ rows, row.Called) :
    (BlockAssembler.empty.pushAll (withoutEnds (out ++ state.doneChunks))).blocks =
      .ok (BlockAssembler.keepFor state.finishReason (rows.map Row.assembled)) := by
  obtain ⟨horder, hentries, hfinish⟩ := pushAll_tail (BlockAssembler.empty.pushAll out) state
  rw [withoutEnds_done h, pushAll_append, ← hfinish]
  apply BlockAssembler.blocks_eq
  apply allBlocks_eq Row.entry
  · rw [horder, h.tracks.assembled, h.tracks.indices]
  · rw [hentries]
    exact h.tracks.entries
  · exact fun row hrow => assemble_row (h.agree row hrow) (hcalled row hrow) _

theorem assembled_eq_iff {row : Row} (hagree : row.Matches) :
    closeBlock row.block = row.assembled ↔ row.block.kind = .toolCall → Settles row.names := by
  rw [← lastName_eq_iff, ← hagree.name]
  unfold closeBlock Row.assembled
  cases hkind : row.block.kind with
  | text => exact iff_of_true rfl nofun
  | reasoning => exact iff_of_true rfl nofun
  | toolCall =>
    simp only [ContentBlock.toolCall.injEq, ToolCallBlock.mk.injEq, true_and, and_true,
      true_implies]
    exact eq_comm

theorem blockType_assembled (row : Row) : blockType row.assembled = row.block.kind.tag := by
  unfold Row.assembled
  cases row.block.kind <;> rfl

theorem mapFinishReason_eq_maxTokens (toUpperCase : String → String) (reason : String) :
    mapFinishReason toUpperCase reason = .maxTokens ↔ reason = "length" := by
  unfold mapFinishReason
  split <;> simp_all

theorem finishReason_eq_maxTokens (h : Follows toUpperCase calls reasons rows state out) :
    state.finishReason = .maxTokens ↔ reasons.getLast? = some "length" := by
  unfold Translator.finishReason Translator.emptyResponse
  rw [h.finish]
  cases reasons.getLast? with
  | none =>
    simp only [Option.map_none, Option.getD_none, true_and, reduceCtorEq, iff_false]
    split <;> nofun
  | some reason =>
    rw [Option.some.injEq, ← mapFinishReason_eq_maxTokens toUpperCase]
    simp only [Option.map_some, Option.getD_some]
    split
    · rename_i hstop
      rw [hstop.1]
      exact ⟨nofun, nofun⟩
    · exact Iff.rfl

theorem keepFor_eq_iff (hagree : ∀ row ∈ rows, row.Matches) (finish : FinishReason) :
    BlockAssembler.keepFor finish (rows.map fun row => closeBlock row.block) =
        BlockAssembler.keepFor finish (rows.map Row.assembled) ↔
      finish = .maxTokens ∨ ∀ row ∈ rows, row.block.kind = .toolCall → Settles row.names := by
  unfold BlockAssembler.keepFor
  by_cases hfinish : finish = .maxTokens
  · rw [if_pos hfinish, if_pos hfinish]
    refine iff_of_true ?_ (.inl hfinish)
    rw [List.filter_map, List.filter_map]
    have hsame : (fun block => blockType block != "tool-call") ∘ (fun row => closeBlock row.block) =
        (fun block => blockType block != "tool-call") ∘ Row.assembled := by
      funext row
      simp only [Function.comp_apply, blockType_closeBlock, blockType_assembled]
    rw [hsame]
    apply List.map_congr_left
    intro row hrow
    rw [List.mem_filter] at hrow
    apply (assembled_eq_iff (hagree row hrow.1)).mpr
    intro hkind
    rw [Function.comp_apply, blockType_assembled, hkind] at hrow
    exact absurd hrow.2 Bool.false_ne_true
  · rw [if_neg hfinish, if_neg hfinish, List.map_inj_left, or_iff_right hfinish]
    exact forall₂_congr fun row hrow => assembled_eq_iff (hagree row hrow)

theorem settles_iff (h : Follows toUpperCase calls reasons rows state out) :
    (∀ row ∈ rows, row.block.kind = .toolCall → Settles row.names) ↔
      ∀ key, Settles (namesOf calls key) := by
  constructor
  · intro hrows key
    cases hkey : state.toolBlocks.get? key with
    | none =>
      rw [h.unknown key hkey]
      exact fun hnone => (nomatch hnone)
    | some index =>
      obtain ⟨row, hrow, -, hkind, hnames⟩ := h.known key index hkey
      exact hnames ▸ hrows row hrow hkind
  · intro hkeys row hrow hkind
    obtain ⟨key, hkey⟩ := h.cover row hrow hkind
    obtain ⟨found, hfound, hindex, -, hnames⟩ := h.known key _ hkey
    obtain rfl := h.tracks.unique hfound hrow hindex
    exact hnames ▸ hkeys key

end Done

def reportedNames (chunks : List WireChunk) (key : Int) : List String :=
  namesOf ((chunks.flatMap WireChunk.choices).flatMap callsOf) key

def finishReasons (chunks : List WireChunk) : List String :=
  (chunks.flatMap WireChunk.choices).flatMap reasonsOf

/-- The response was cut off, or no call that was named has an empty name in the end. -/
def NamesSettle (chunks : List WireChunk) : Prop :=
  (finishReasons chunks).getLast? = some "length" ∨ ∀ key, Settles (reportedNames chunks key)

def SameWithoutEnds (stream : List StreamChunk) : Prop :=
  ∃ blocks, (BlockAssembler.empty.pushAll stream).blocks = .ok blocks ∧
    (BlockAssembler.empty.pushAll (withoutEnds stream)).blocks = .ok blocks

def ReplayAligned (stream : List StreamChunk) : Prop :=
  ∀ envelope entries, (BlockAssembler.empty.pushAll stream).replayState = .ok (some envelope) →
    envelope.blocks = some entries →
    ∃ blocks, (BlockAssembler.empty.pushAll stream).blocks = .ok blocks ∧
      entries.length = blocks.length

theorem translate_assembles (toUpperCase : String → String) (chunks : List WireChunk)
    (rest : List Payload) :
    (∃ stream, translate toUpperCase (chunks.map .chunk ++ .done :: rest) = (stream, none) ∧
      WellFormed stream ∧ (SameWithoutEnds stream ↔ NamesSettle chunks)) ∧
    ∀ stream, ReplayAligned stream := by
  refine ⟨?_, fun stream envelope entries => BlockAssembler.replay_aligned⟩
  obtain ⟨last, out, ⟨rows, hfollows, hcalled⟩, htranslate⟩ :=
    Followed.initial.payloads chunks rest
  rw [List.nil_append, List.nil_append] at hfollows
  refine ⟨_, htranslate, wellFormed_done hfollows, ?_⟩
  have hsame := keepFor_eq_iff hfollows.agree last.finishReason
  rw [finishReason_eq_maxTokens hfollows, settles_iff hfollows] at hsame
  unfold SameWithoutEnds
  rw [blocks_done hfollows, blocks_withoutEnds hfollows hcalled]
  simp only [Except.ok.injEq, exists_eq_left']
  exact eq_comm.trans hsame

def renamed : List WireChunk :=
  [{ choices :=
      [{ delta := some {
          content := none
          reasoningContent := none
          toolCalls :=
            [{ index := 0, id := some "call", function := some ⟨some "read", some "\x7b"⟩ },
              { index := 0, id := none, function := some ⟨some "", some "\x7d"⟩ }] }
         finishReason := some "tool_calls" }]
     usage := none }]

theorem renamed_differs :
    ¬SameWithoutEnds (translate (fun text => text) (renamed.map .chunk ++ [.done])).1 := by
  rintro ⟨blocks, hfull, hshort⟩
  have hdiffer : (BlockAssembler.empty.pushAll
      (translate (fun text => text) (renamed.map .chunk ++ [.done])).1).blocks ≠
      (BlockAssembler.empty.pushAll
        (withoutEnds (translate (fun text => text) (renamed.map .chunk ++ [.done])).1)).blocks := by
    decide +kernel
  exact hdiffer (hfull.trans hshort.symm)

end Harness.Llm
