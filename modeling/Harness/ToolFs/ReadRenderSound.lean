import Harness.ToolFs.ReadRender
import Mathlib.Data.List.Induction
import Mathlib.Order.Basic

namespace Harness.ToolFs

open Harness.Foundation
open Harness.Foundation.Utf16

section Lines

theorem textLines_cons {line : Units} (h : lineFeed ∉ line) (rest : Units) :
    textLines (line ++ lineFeed :: rest) = line :: textLines rest := by
  have hsplit : (line ++ lineFeed :: rest).splitOn lineFeed = line :: rest.splitOn lineFeed := by
    rw [List.splitOn_append_cons_self, List.splitOn_eq_singleton h, List.singleton_append]
  have hne := List.splitOn_ne_nil lineFeed rest
  unfold textLines
  rw [hsplit]
  dsimp only
  rw [List.getLast?_cons_of_ne_nil hne, List.dropLast_cons_of_ne_nil hne]
  split
  · rfl
  · rfl

theorem textLines_last {line : Units} (h : lineFeed ∉ line) :
    textLines line = if line = [] then [] else [line] := by
  unfold textLines
  rw [List.splitOn_eq_singleton h]
  dsimp only
  rw [List.getLast?_singleton, List.dropLast_singleton]
  simp only [Option.some.injEq]

end Lines

section Scan

variable {request : ReadWindow} {acc : WindowAccumulator} {line segment : Units}

def scannedLine (request : ReadWindow) (line : Units) : Units :=
  stripCarriageReturn (line.take (request.maxLineLength + 1))

def consumeScanned (request : ReadWindow) (acc : WindowAccumulator) (line : Units) :
    WindowAccumulator :=
  consumeLine request acc (scannedLine request line)

def scannedTo (request : ReadWindow) (acc : WindowAccumulator) (line : Units) : Scanner :=
  { acc, lineBuffer := line.take (request.maxLineLength + 1) }

theorem appendToLineBuffer_scannedTo (segment : Units) :
    (scannedTo request acc line).appendToLineBuffer request segment =
      scannedTo request acc (line ++ segment) := by
  unfold Scanner.appendToLineBuffer scannedTo
  dsimp only
  split
  · rename_i hfull
    rw [List.length_take] at hfull
    rw [List.take_append_of_le_length (by omega)]
  · rename_i hroom
    rw [List.length_take] at hroom
    rw [List.take_of_length_le (by omega : line.length ≤ _)]

theorem flushLine_scannedTo :
    (scannedTo request acc line).flushLine request =
      scannedTo request (consumeScanned request acc line) [] := rfl

theorem scanFrom_lines (request : ReadWindow) (acc : WindowAccumulator) {line segment : Units}
    (chunk : Units) (hline : lineFeed ∉ line ++ segment) :
    ∃ acc' line', scanFrom request (scannedTo request acc line) segment chunk =
        scannedTo request acc' line' ∧ lineFeed ∉ line' ∧
      ∀ rest, (textLines (line ++ segment ++ chunk ++ rest)).foldl (consumeScanned request) acc =
        (textLines (line' ++ rest)).foldl (consumeScanned request) acc' := by
  induction chunk generalizing acc line segment with
  | nil =>
    refine ⟨acc, line ++ segment, appendToLineBuffer_scannedTo segment, hline, fun rest => ?_⟩
    rw [List.append_nil]
  | cons unit chunk ih =>
    unfold scanFrom
    split
    · rename_i hfeed
      rw [hfeed, appendToLineBuffer_scannedTo, flushLine_scannedTo]
      have hnil : lineFeed ∉ ([] : Units) ++ [] := List.not_mem_nil
      obtain ⟨acc', line', hscan, hline', hrest⟩ :=
        ih (consumeScanned request acc (line ++ segment)) hnil
      refine ⟨acc', line', hscan, hline', fun rest => ?_⟩
      rw [← hrest, List.append_assoc _ _ rest, List.cons_append, textLines_cons hline,
        List.foldl_cons]
      rfl
    · rename_i hother
      have hlonger : lineFeed ∉ line ++ (segment ++ [unit]) := by
        rw [← List.append_assoc, List.mem_append, List.mem_singleton, not_or]
        exact ⟨hline, fun heq => hother heq.symm⟩
      obtain ⟨acc', line', hscan, hline', hrest⟩ := ih acc hlonger
      refine ⟨acc', line', hscan, hline', fun rest => ?_⟩
      rw [← hrest]
      simp only [List.append_assoc, List.singleton_append]

theorem scanChunks_lines (request : ReadWindow) (acc : WindowAccumulator) {line : Units}
    (chunks : List Units) (hline : lineFeed ∉ line) :
    ∃ acc' line', chunks.foldl (scanChunk request) (scannedTo request acc line) =
        scannedTo request acc' line' ∧ lineFeed ∉ line' ∧
      (textLines (line ++ chunks.flatten)).foldl (consumeScanned request) acc =
        (textLines line').foldl (consumeScanned request) acc' := by
  induction chunks generalizing acc line with
  | nil =>
    refine ⟨acc, line, rfl, hline, ?_⟩
    rw [List.flatten_nil, List.append_nil]
  | cons chunk chunks ih =>
    have hsegment : lineFeed ∉ line ++ [] := by rwa [List.append_nil]
    obtain ⟨acc', line', hscan, hline', hrest⟩ := scanFrom_lines request acc chunk hsegment
    obtain ⟨acc'', line'', hscans, hline'', hrests⟩ := ih acc' hline'
    refine ⟨acc'', line'', ?_, hline'', ?_⟩
    · rw [List.foldl_cons, scanChunk, hscan]
      exact hscans
    · have hchunk := hrest chunks.flatten
      rw [List.append_nil, List.append_assoc] at hchunk
      rw [List.flatten_cons, hchunk, hrests]

theorem buildWindow_lines (chunks : List Units) (request : ReadWindow) (displayPath : String) :
    buildWindow chunks request displayPath =
      finish ((textLines chunks.flatten).foldl (consumeScanned request) newAccumulator) request
        displayPath := by
  have hnil : lineFeed ∉ ([] : Units) := List.not_mem_nil
  obtain ⟨acc', line', hscan, hline', hlines⟩ :=
    scanChunks_lines request newAccumulator chunks hnil
  have hstart : ({ acc := newAccumulator, lineBuffer := [] } : Scanner) =
      scannedTo request newAccumulator [] := rfl
  unfold buildWindow
  rw [hstart, hscan]
  rw [List.nil_append] at hlines
  rw [hlines, textLines_last hline']
  dsimp only
  cases line' with
  | nil => rfl
  | cons unit line' => rfl

end Scan

section Fitting

variable {maxBytes : Nat} {texts : List Units}

theorem joinedBytes_snoc (texts : List Units) (text : Units) :
    joinedBytes (texts ++ [text]) = joinedBytes texts + lineByteSize text texts.length := by
  unfold joinedBytes lineByteSize
  rw [List.map_append, List.sum_append, List.length_append, List.map_singleton, List.sum_singleton,
    List.length_singleton]
  split
  · omega
  · omega

theorem joinedBytes_take_mono (texts : List Units) {count more : Nat} (h : count ≤ more) :
    joinedBytes (texts.take count) ≤ joinedBytes (texts.take more) := by
  induction h with
  | refl => exact Nat.le_refl _
  | @step more _ ih =>
    apply Nat.le_trans ih
    by_cases hmore : more < texts.length
    · rw [List.take_succ_eq_append_getElem hmore, joinedBytes_snoc]
      exact Nat.le_add_right _ _
    · rw [List.take_of_length_le (Nat.not_lt.mp hmore),
        List.take_of_length_le (Nat.le_succ_of_le (Nat.not_lt.mp hmore))]

def fittingCount (maxBytes : Nat) (texts : List Units) : Nat :=
  Nat.findGreatest (fun count => joinedBytes (texts.take count) ≤ maxBytes) texts.length

theorem fittingCount_le (maxBytes : Nat) (texts : List Units) :
    fittingCount maxBytes texts ≤ texts.length := Nat.findGreatest_le _

theorem fittingCount_fits : joinedBytes (texts.take (fittingCount maxBytes texts)) ≤ maxBytes :=
  Nat.findGreatest_spec (P := fun count => joinedBytes (texts.take count) ≤ maxBytes)
    (Nat.zero_le _) (Nat.zero_le _)

theorem le_fittingCount (maxBytes : Nat) {count : Nat} (hcount : count ≤ texts.length) :
    count ≤ fittingCount maxBytes texts ↔ joinedBytes (texts.take count) ≤ maxBytes := by
  constructor
  · intro hle
    exact Nat.le_trans (joinedBytes_take_mono texts hle) fittingCount_fits
  · exact Nat.le_findGreatest (P := fun count => joinedBytes (texts.take count) ≤ maxBytes) hcount

theorem fittingCount_snoc (maxBytes : Nat) (texts : List Units) (text : Units) :
    fittingCount maxBytes (texts ++ [text]) =
      if joinedBytes (texts ++ [text]) ≤ maxBytes then texts.length + 1
      else fittingCount maxBytes texts := by
  have hlength : (texts ++ [text]).length = texts.length + 1 := List.length_append
  have hwhole := le_fittingCount maxBytes (Nat.le_refl (texts ++ [text]).length)
  rw [List.take_length, hlength] at hwhole
  have hbound := fittingCount_le maxBytes (texts ++ [text])
  rw [hlength] at hbound
  split
  · rename_i hfits
    exact Nat.le_antisymm hbound (hwhole.mpr hfits)
  · rename_i hover
    have hlt : fittingCount maxBytes (texts ++ [text]) ≤ texts.length :=
      Nat.le_of_lt_succ (Nat.lt_of_not_le fun hle => hover (hwhole.mp hle))
    have htake : ∀ count ≤ texts.length, (texts ++ [text]).take count = texts.take count :=
      fun count hcount => List.take_append_of_le_length hcount
    apply Nat.le_antisymm
    · rw [le_fittingCount maxBytes hlt, ← htake _ hlt]
      exact fittingCount_fits
    · have hcount := fittingCount_le maxBytes texts
      rw [le_fittingCount maxBytes (by omega), htake _ hcount]
      exact fittingCount_fits

theorem length_fittingLines :
    (fittingLines maxBytes texts).length = fittingCount maxBytes texts := by
  rw [fittingLines, List.length_take]
  exact Nat.min_eq_left (fittingCount_le maxBytes texts)

end Fitting

section Consume

variable {request : ReadWindow} {texts : List Units} {acc : WindowAccumulator}

structure Consumed (request : ReadWindow) (total : Nat) (selected : List Units)
    (acc : WindowAccumulator) : Prop where
  totalLines : acc.totalLines = total
  lines : acc.lines = numberedFrom request.offset (fittingLines request.maxBytes selected)
  outputBytes : acc.outputBytes = joinedBytes (fittingLines request.maxBytes selected)
  truncated : acc.truncatedByBytes =
    decide (fittingCount request.maxBytes selected < selected.length)

theorem newAccumulator_consumed : Consumed request 0 [] newAccumulator := ⟨rfl, rfl, rfl, rfl⟩

theorem numberedFrom_snoc (offset : Nat) (texts : List Units) (text : Units) :
    numberedFrom offset (texts ++ [text]) =
      numberedFrom offset texts ++ [{ number := offset + texts.length, text }] := by
  unfold numberedFrom
  rw [List.zipIdx_append, List.map_append]
  rfl

theorem selectedLines_snoc (request : ReadWindow) (texts : List Units) (text : Units) :
    selectedLines request (texts ++ [text]) =
      if texts.length + 1 < request.offset ∨
          request.limit ≤ (selectedLines request texts).length then
        selectedLines request texts
      else selectedLines request texts ++ [text] := by
  have hpositive := request.positive
  unfold selectedLines
  rw [List.drop_append]
  by_cases hbefore : texts.length + 1 < request.offset
  · have hnone : [text].drop (request.offset - 1 - texts.length) = [] :=
      List.drop_eq_nil_of_le (by rw [List.length_singleton]; omega)
    rw [if_pos (.inl hbefore), hnone, List.append_nil]
  · have hzero : request.offset - 1 - texts.length = 0 := by omega
    rw [hzero, List.drop_zero, List.take_append, List.length_take]
    by_cases hfull : request.limit ≤ (texts.drop (request.offset - 1)).length
    · rw [if_pos (.inr (Nat.le_min.mpr ⟨Nat.le_refl _, hfull⟩)), Nat.sub_eq_zero_of_le hfull,
        List.take_zero, List.append_nil]
    · have hroom : ¬(texts.length + 1 < request.offset ∨
          request.limit ≤ min request.limit (texts.drop (request.offset - 1)).length) := by
        omega
      rw [if_neg hroom]
      congr 1
      exact List.take_of_length_le (by rw [List.length_singleton]; omega)

theorem fittingLines_snoc (maxBytes : Nat) (texts : List Units) (text : Units) :
    fittingLines maxBytes (texts ++ [text]) =
      if joinedBytes (texts ++ [text]) ≤ maxBytes then texts ++ [text]
      else fittingLines maxBytes texts := by
  have hlines : ∀ texts : List Units,
      fittingLines maxBytes texts = texts.take (fittingCount maxBytes texts) := fun _ => rfl
  rw [hlines, hlines, fittingCount_snoc]
  split
  · exact List.take_of_length_le (by rw [List.length_append, List.length_singleton])
  · exact List.take_append_of_le_length (fittingCount_le maxBytes texts)

theorem joinedBytes_over (h : fittingCount maxBytes texts < texts.length) (text : Units) :
    ¬joinedBytes (texts ++ [text]) ≤ maxBytes := by
  intro hfits
  rw [joinedBytes_snoc] at hfits
  have hall : joinedBytes (texts.take texts.length) ≤ maxBytes := by
    rw [List.take_length]
    omega
  exact absurd ((le_fittingCount maxBytes (Nat.le_refl texts.length)).mpr hall) (Nat.not_le.mpr h)

theorem fittingLines_all (h : ¬fittingCount maxBytes texts < texts.length) :
    fittingLines maxBytes texts = texts := by
  have hcount := Nat.le_antisymm (fittingCount_le maxBytes texts) (Nat.not_lt.mp h)
  exact List.take_of_length_le (Nat.le_of_eq hcount.symm)

theorem length_numberedFrom (offset : Nat) (texts : List Units) :
    (numberedFrom offset texts).length = texts.length := by
  rw [numberedFrom, List.length_map, List.length_zipIdx]

theorem offset_add_selected {texts : List Units} (hoffset : request.offset ≤ texts.length + 1)
    (hlimit : (selectedLines request texts).length < request.limit) :
    request.offset + (selectedLines request texts).length = texts.length + 1 := by
  have hpositive := request.positive.1
  unfold selectedLines at hlimit ⊢
  rw [List.length_take, List.length_drop] at hlimit ⊢
  omega

theorem consumeLine_consumed {texts : List Units}
    (h : Consumed request texts.length (selectedLines request texts) acc) (rawLine : Units) :
    Consumed request (texts.length + 1)
      (selectedLines request (texts ++ [truncateLine rawLine request.maxLineLength]))
      (consumeLine request acc rawLine) := by
  obtain ⟨lines, totalLines, outputBytes, truncatedByBytes⟩ := acc
  obtain ⟨htotal, hlines, hbytes, htruncated⟩ := h
  dsimp only at htotal hlines hbytes htruncated
  rw [selectedLines_snoc]
  generalize hselected : selectedLines request texts = selected at hlines hbytes htruncated ⊢
  unfold consumeLine
  cases truncatedByBytes with
  | true =>
    have hover : fittingCount request.maxBytes selected < selected.length :=
      of_decide_eq_true htruncated.symm
    simp only [Bool.true_or, if_true]
    split
    · exact ⟨congrArg Nat.succ htotal, hlines, hbytes, htruncated⟩
    · have hkept := fittingLines_snoc request.maxBytes selected
        (truncateLine rawLine request.maxLineLength)
      have hcount := fittingCount_snoc request.maxBytes selected
        (truncateLine rawLine request.maxLineLength)
      rw [if_neg (joinedBytes_over hover _)] at hkept hcount
      refine ⟨congrArg Nat.succ htotal, ?_, ?_, ?_⟩
      · rw [hkept]
        exact hlines
      · rw [hkept]
        exact hbytes
      · rw [hcount, List.length_append]
        exact (decide_eq_true (Nat.lt_succ_of_lt hover)).symm
  | false =>
    have hall := of_decide_eq_false htruncated.symm
    have hkept := fittingLines_all hall
    have hlength : lines.length = selected.length := by
      rw [hlines, length_numberedFrom, hkept]
    simp only [Bool.false_or, Bool.or_eq_true, decide_eq_true_eq, htotal, hlength]
    by_cases houtside : texts.length + 1 < request.offset ∨ request.limit ≤ selected.length
    · rw [if_pos houtside, if_pos houtside]
      exact ⟨rfl, hlines, hbytes, htruncated⟩
    · rw [if_neg houtside, if_neg houtside]
      obtain ⟨hoffset, hlimit⟩ := not_or.mp houtside
      have hnumber : request.offset + selected.length = texts.length + 1 := by
        rw [← hselected] at hlimit ⊢
        exact offset_add_selected (Nat.not_lt.mp hoffset) (Nat.not_le.mp hlimit)
      have hsnoc := fittingLines_snoc request.maxBytes selected
        (truncateLine rawLine request.maxLineLength)
      have hcount := fittingCount_snoc request.maxBytes selected
        (truncateLine rawLine request.maxLineLength)
      rw [joinedBytes_snoc] at hsnoc hcount
      rw [hkept] at hbytes hlines
      rw [hbytes]
      split
      · rename_i hover
        rw [if_neg (Nat.not_le.mpr hover)] at hsnoc hcount
        refine ⟨rfl, ?_, ?_, ?_⟩
        · rw [hsnoc, hkept]
          exact hlines
        · rw [hsnoc, hkept]
        · rw [hcount, List.length_append]
          exact (decide_eq_true (Nat.lt_succ_of_le (fittingCount_le _ _))).symm
      · rename_i hfits
        rw [if_pos (Nat.not_lt.mp hfits)] at hsnoc hcount
        refine ⟨rfl, ?_, ?_, ?_⟩
        · rw [hsnoc, numberedFrom_snoc, hnumber]
          exact congrArg (· ++ _) hlines
        · rw [hsnoc, joinedBytes_snoc]
        · rw [hcount, List.length_append]
          exact (decide_eq_false (Nat.lt_irrefl _)).symm

theorem finish_consumed {texts : List Units} (displayPath : String)
    (h : Consumed request texts.length (selectedLines request texts) acc) :
    finish acc request displayPath = windowOf texts request displayPath := by
  have hselected : fittingCount request.maxBytes (selectedLines request texts) <
      (selectedLines request texts).length → request.offset ≤ texts.length := by
    intro hover
    have hsome := Nat.lt_of_le_of_lt (Nat.zero_le _) hover
    rw [selectedLines, List.length_take, List.length_drop] at hsome
    have hpositive := request.positive.1
    omega
  have hcondition : (!acc.truncatedByBytes && decide (acc.totalLines < request.offset)
      && !(decide (acc.totalLines = 0) && decide (request.offset = 1))) = true ↔
        texts.length < request.offset ∧ ¬(texts.length = 0 ∧ request.offset = 1) := by
    rw [h.truncated, h.totalLines]
    simp only [Bool.and_eq_true, Bool.not_eq_true', decide_eq_false_iff_not, decide_eq_true_eq,
      Bool.and_eq_false_iff, not_and_or]
    constructor
    · rintro ⟨⟨-, hafter⟩, hempty⟩
      exact ⟨hafter, hempty⟩
    · rintro ⟨hafter, hempty⟩
      exact ⟨⟨fun hover => absurd hafter (Nat.not_lt.mpr (hselected hover)), hafter⟩, hempty⟩
  unfold finish windowOf
  dsimp only
  by_cases hrange : texts.length < request.offset ∧ ¬(texts.length = 0 ∧ request.offset = 1)
  · rw [if_pos (hcondition.mpr hrange), if_pos hrange, h.totalLines]
  · rw [if_neg (mt hcondition.mp hrange), if_neg hrange, h.lines, h.totalLines, h.truncated,
      length_fittingLines]

theorem consumeScanned_consumed (request : ReadWindow) (lines : List Units) :
    Consumed request lines.length
      (selectedLines request (lines.map fun line =>
        truncateLine (scannedLine request line) request.maxLineLength))
      (lines.foldl (consumeScanned request) newAccumulator) := by
  induction lines using List.reverseRecOn with
  | nil =>
    have hnone : selectedLines request ([] : List Units) = [] := by
      rw [selectedLines, List.drop_nil, List.take_nil]
    rw [List.map_nil, hnone]
    exact newAccumulator_consumed
  | append_singleton lines line ih =>
    have hlength : lines.length = (lines.map fun line =>
        truncateLine (scannedLine request line) request.maxLineLength).length :=
      (List.length_map _).symm
    rw [hlength] at ih
    rw [List.map_append, List.foldl_append, List.length_append, hlength]
    exact consumeLine_consumed ih (scannedLine request line)

end Consume

section Cut

variable {request : ReadWindow} {text : Units}

/-- A carriage return where the line is cut, with more of the line after it. -/
def HidesCut (request : ReadWindow) (text : Units) : Prop :=
  request.maxLineLength + 1 < text.length ∧ text[request.maxLineLength]? = some carriageReturn

instance : DecidablePred (HidesCut request) := fun text => by
  unfold HidesCut
  infer_instance

theorem length_stripCarriageReturn (text : Units) :
    text.length - 1 ≤ (stripCarriageReturn text).length ∧ stripCarriageReturn text <+: text := by
  unfold stripCarriageReturn
  split
  · exact ⟨Nat.le_of_eq (List.length_dropLast).symm, List.dropLast_prefix text⟩
  · exact ⟨Nat.sub_le _ _, List.prefix_rfl⟩

theorem truncateLine_long (h : request.maxLineLength + 1 < text.length) :
    truncateLine (stripCarriageReturn text) request.maxLineLength =
      text.take request.maxLineLength ++ truncationMarker request.maxLineLength := by
  obtain ⟨hlength, hfront⟩ := length_stripCarriageReturn text
  have hlong : request.maxLineLength < (stripCarriageReturn text).length := by omega
  unfold truncateLine
  rw [if_pos hlong, (List.prefix_iff_eq_take.mp hfront), List.take_take,
    Nat.min_eq_left (Nat.le_of_lt hlong)]

theorem getLast?_take {count : Nat} (h : count < text.length) :
    (text.take (count + 1)).getLast? = text[count]? := by
  have hlength : (text.take (count + 1)).length - 1 = count := by
    rw [List.length_take]
    omega
  rw [List.getLast?_eq_getElem?, hlength, List.getElem?_take_of_succ]

theorem scannedLine_eq (h : ¬HidesCut request text) :
    truncateLine (scannedLine request text) request.maxLineLength =
      truncateLine (stripCarriageReturn text) request.maxLineLength := by
  by_cases hlong : request.maxLineLength + 1 < text.length
  · have hkept : (text.take (request.maxLineLength + 1)).getLast? ≠ some carriageReturn := by
      rw [getLast?_take (by omega)]
      exact fun hcut => h ⟨hlong, hcut⟩
    have hscanned : scannedLine request text = text.take (request.maxLineLength + 1) := by
      rw [scannedLine, stripCarriageReturn, if_neg hkept]
    have hover : request.maxLineLength < (text.take (request.maxLineLength + 1)).length := by
      rw [List.length_take]
      omega
    rw [truncateLine_long hlong, hscanned, truncateLine, if_pos hover, List.take_take,
      Nat.min_eq_left (Nat.le_succ _)]
  · rw [scannedLine, List.take_of_length_le (Nat.not_lt.mp hlong)]

theorem scannedLine_hidden (h : HidesCut request text) :
    truncateLine (scannedLine request text) request.maxLineLength =
      text.take request.maxLineLength := by
  obtain ⟨hlong, hcut⟩ := h
  have hkept : (text.take (request.maxLineLength + 1)).getLast? = some carriageReturn := by
    rw [getLast?_take (by omega), hcut]
  have hscanned : scannedLine request text = text.take request.maxLineLength := by
    rw [scannedLine, stripCarriageReturn, if_pos hkept, List.dropLast_take (by omega),
      Nat.add_sub_cancel]
  have hshort : ¬request.maxLineLength < (text.take request.maxLineLength).length := by
    rw [List.length_take]
    omega
  rw [hscanned, truncateLine, if_neg hshort]

end Cut

section Windows

variable {request : ReadWindow}

def scannedText (request : ReadWindow) (line : Units) : Units :=
  truncateLine (scannedLine request line) request.maxLineLength

def plainText (request : ReadWindow) (line : Units) : Units :=
  truncateLine (stripCarriageReturn line) request.maxLineLength

theorem selectedLines_map {α β : Type} (f : α → β) (lines : List α) :
    selectedLines request (lines.map f) = (selectedLines request lines).map f := by
  rw [selectedLines, selectedLines, List.map_take, List.map_drop]

theorem buildWindow_eq (chunks : List Units) (request : ReadWindow) (displayPath : String) :
    buildWindow chunks request displayPath =
      windowOf ((textLines chunks.flatten).map (scannedText request)) request displayPath := by
  have hconsumed := consumeScanned_consumed request (textLines chunks.flatten)
  have hlength : (textLines chunks.flatten).length =
      ((textLines chunks.flatten).map (scannedText request)).length := (List.length_map _).symm
  rw [hlength] at hconsumed
  rw [buildWindow_lines]
  exact finish_consumed displayPath hconsumed

/-- The first line of the window whose cut is hidden, if any, is past the byte cap even without
the marker. -/
def MarksEveryCut (request : ReadWindow) (text : Units) : Prop :=
  ∀ before line after, selectedLines request (textLines text) = before ++ line :: after →
    (∀ earlier ∈ before, ¬HidesCut request earlier) → HidesCut request line →
    request.maxBytes < joinedBytes (before.map (plainText request)
      ++ [line.take request.maxLineLength])

theorem exists_first {α : Type} (p : α → Prop) (items : List α) :
    (∀ item ∈ items, ¬p item) ∨
      ∃ before item after, items = before ++ item :: after ∧ (∀ earlier ∈ before, ¬p earlier) ∧
        p item := by
  induction items with
  | nil => exact .inl nofun
  | cons first items ih =>
    by_cases hfirst : p first
    · exact .inr ⟨[], first, items, rfl, nofun, hfirst⟩
    · rcases ih with hnone | ⟨before, item, after, rfl, hbefore, hitem⟩
      · exact .inl (List.forall_mem_cons.mpr ⟨hfirst, hnone⟩)
      · exact .inr ⟨first :: before, item, after, rfl,
          List.forall_mem_cons.mpr ⟨hfirst, hbefore⟩, hitem⟩

theorem map_scannedText {lines : List Units} (h : ∀ line ∈ lines, ¬HidesCut request line) :
    lines.map (scannedText request) = lines.map (plainText request) :=
  List.map_congr_left fun line hline => scannedLine_eq (h line hline)

theorem fittingCount_le_of_take {maxBytes : Nat} {texts others : List Units}
    (htake : texts.take (fittingCount maxBytes texts) =
      others.take (fittingCount maxBytes texts)) :
    fittingCount maxBytes texts ≤ fittingCount maxBytes others := by
  have hlength := congrArg List.length htake
  have hbound := fittingCount_le maxBytes texts
  rw [List.length_take, List.length_take] at hlength
  have hinside : fittingCount maxBytes texts ≤ others.length := by omega
  rw [le_fittingCount maxBytes hinside, ← htake]
  exact fittingCount_fits

theorem fittingLines_congr {maxBytes count : Nat} {texts others : List Units}
    (htake : texts.take count = others.take count) (htexts : fittingCount maxBytes texts ≤ count)
    (hothers : fittingCount maxBytes others ≤ count) :
    fittingLines maxBytes texts = fittingLines maxBytes others := by
  have hagree : ∀ fitting ≤ count, texts.take fitting = others.take fitting := by
    intro fitting hle
    have hshorter := congrArg (List.take fitting) htake
    rwa [List.take_take, List.take_take, Nat.min_eq_left hle] at hshorter
  have hcount : fittingCount maxBytes texts = fittingCount maxBytes others :=
    Nat.le_antisymm (fittingCount_le_of_take (hagree _ htexts))
      (fittingCount_le_of_take (hagree _ hothers).symm)
  change texts.take (fittingCount maxBytes texts) = others.take (fittingCount maxBytes others)
  rw [hcount]
  exact hagree _ hothers

theorem fittingCount_before {maxBytes : Nat} {before after : List Units} {text : Units}
    (h : maxBytes < joinedBytes (before ++ [text])) :
    fittingCount maxBytes (before ++ text :: after) ≤ before.length := by
  apply Nat.le_of_lt_succ
  apply Nat.lt_of_not_le
  have hinside : before.length + 1 ≤ (before ++ text :: after).length := by
    rw [List.length_append, List.length_cons]
    omega
  have htake : (before ++ text :: after).take (before.length + 1) = before ++ [text] := by
    rw [List.take_length_add_append, List.take_succ_cons, List.take_zero]
  rw [le_fittingCount maxBytes hinside, htake]
  exact Nat.not_le.mpr h

theorem joinedBytes_marked (before : List Units) (line marker : Units) :
    joinedBytes (before ++ [line]) ≤ joinedBytes (before ++ [line ++ marker]) := by
  rw [joinedBytes_snoc, joinedBytes_snoc]
  exact Nat.add_le_add_left (Nat.add_le_add_right (byteLength_append_le line marker) _) _

theorem fittingLines_marked {lines : List Units}
    (h : ∀ before line after, lines = before ++ line :: after →
      (∀ earlier ∈ before, ¬HidesCut request earlier) → HidesCut request line →
      request.maxBytes < joinedBytes (before.map (plainText request)
        ++ [line.take request.maxLineLength])) :
    fittingLines request.maxBytes (lines.map (scannedText request)) =
      fittingLines request.maxBytes (lines.map (plainText request)) := by
  rcases exists_first (HidesCut request) lines with hnone |
    ⟨before, line, after, rfl, hbefore, hline⟩
  · rw [map_scannedText hnone]
  · have hover := h before line after rfl hbefore hline
    have hscanned : scannedText request line = line.take request.maxLineLength :=
      scannedLine_hidden hline
    have hplain : plainText request line = line.take request.maxLineLength
        ++ truncationMarker request.maxLineLength := truncateLine_long hline.1
    rw [List.map_append, List.map_append, map_scannedText hbefore, List.map_cons, List.map_cons,
      hscanned, hplain]
    apply fittingLines_congr
    · rw [List.take_left, List.take_left]
    · exact fittingCount_before hover
    · exact fittingCount_before (Nat.lt_of_lt_of_le hover (joinedBytes_marked _ _ _))

theorem numberedFrom_injective {offset : Nat} {texts others : List Units}
    (h : numberedFrom offset texts = numberedFrom offset others) : texts = others := by
  have htexts : ∀ texts : List Units,
      (numberedFrom offset texts).map FileTextLine.text = texts := by
    intro texts
    rw [numberedFrom, List.map_map]
    exact List.zipIdx_map_fst offset texts
  rw [← htexts texts, h, htexts]

theorem truncationMarker_ne_nil (maxLineLength : Nat) : truncationMarker maxLineLength ≠ [] := by
  have hfirst : encode "... (line truncated to " ≠ [] := by decide +kernel
  intro hnil
  unfold truncationMarker encode at hnil
  rw [String.toList_append, String.toList_append, List.flatMap_append, List.flatMap_append,
    List.append_eq_nil_iff, List.append_eq_nil_iff] at hnil
  exact hfirst hnil.1.1

theorem fittingLines_hidden {before after : List Units} {line : Units}
    (hbefore : ∀ earlier ∈ before, ¬HidesCut request earlier) (hline : HidesCut request line)
    (hfits : joinedBytes (before.map (plainText request)
      ++ [line.take request.maxLineLength]) ≤ request.maxBytes) :
    fittingLines request.maxBytes ((before ++ line :: after).map (scannedText request)) ≠
      fittingLines request.maxBytes ((before ++ line :: after).map (plainText request)) := by
  have hscanned : scannedText request line = line.take request.maxLineLength :=
    scannedLine_hidden hline
  have hplain : plainText request line = line.take request.maxLineLength
      ++ truncationMarker request.maxLineLength := truncateLine_long hline.1
  rw [List.map_append, List.map_append, map_scannedText hbefore, List.map_cons, List.map_cons,
    hscanned, hplain]
  generalize before.map (plainText request) = earlier at hfits ⊢
  generalize after.map (scannedText request) = later
  generalize after.map (plainText request) = plainLater
  intro hsame
  have hget := congrArg (fun lines : List Units => lines[earlier.length]?) hsame
  have hinside : earlier.length + 1 ≤
      (earlier ++ line.take request.maxLineLength :: later).length := by
    rw [List.length_append, List.length_cons]
    omega
  have hcount : earlier.length <
      fittingCount request.maxBytes (earlier ++ line.take request.maxLineLength :: later) := by
    apply Nat.lt_of_succ_le
    rw [Nat.succ_eq_add_one, le_fittingCount request.maxBytes hinside, List.take_length_add_append,
      List.take_succ_cons, List.take_zero]
    exact hfits
  have hlines : ∀ texts : List Units, fittingLines request.maxBytes texts =
      texts.take (fittingCount request.maxBytes texts) := fun _ => rfl
  rw [hlines, hlines, List.getElem?_take, List.getElem?_take, if_pos hcount,
    List.getElem?_append_right (Nat.le_refl _), List.getElem?_append_right (Nat.le_refl _),
    Nat.sub_self, List.getElem?_cons_zero, List.getElem?_cons_zero] at hget
  split at hget
  · have hmarker := List.append_right_eq_self.mp (Option.some.inj hget).symm
    exact truncationMarker_ne_nil _ hmarker
  · cases hget

theorem windowOf_eq_iff {texts others : List Units} (hlength : texts.length = others.length)
    (displayPath : String) :
    windowOf texts request displayPath = windowOf others request displayPath ↔
      fittingLines request.maxBytes (selectedLines request texts) =
        fittingLines request.maxBytes (selectedLines request others) := by
  have hselected : (selectedLines request texts).length =
      (selectedLines request others).length := by
    rw [selectedLines, selectedLines, List.length_take, List.length_take, List.length_drop,
      List.length_drop, hlength]
  unfold windowOf
  dsimp only
  rw [hlength, hselected]
  split
  · rename_i hrange
    refine ⟨fun _ => ?_, fun _ => rfl⟩
    have hnone : ∀ lines : List Units, lines.length = others.length →
        selectedLines request lines = [] := by
      intro lines hlines
      rw [selectedLines, List.drop_eq_nil_of_le (by omega), List.take_nil]
    rw [hnone texts hlength, hnone others rfl]
  · constructor
    · intro hsame
      injection hsame with hsame
      injection hsame with hlines
      exact numberedFrom_injective hlines
    · intro hsame
      rw [hsame]

/-- The scanned window is that of the whole text exactly when no line hides its cut within the byte
cap. -/
theorem buildWindow_plain_iff (chunks : List Units) (request : ReadWindow) (displayPath : String) :
    buildWindow chunks request displayPath = plainWindow chunks.flatten request displayPath ↔
      MarksEveryCut request chunks.flatten := by
  rw [buildWindow_eq]
  change windowOf _ request displayPath =
    windowOf ((textLines chunks.flatten).map (plainText request)) request displayPath ↔ _
  rw [windowOf_eq_iff (by rw [List.length_map, List.length_map]), selectedLines_map,
    selectedLines_map]
  constructor
  · intro hsame before line after hlines hbefore hline
    rw [hlines] at hsame
    exact Nat.lt_of_not_le fun hfits => fittingLines_hidden hbefore hline hfits hsame
  · exact fittingLines_marked

def shortWindow : ReadWindow := ⟨1, 10, 3, 100, by decide⟩

theorem buildWindow_hides_cut :
    buildWindow [encode "abc\rdef\n"] shortWindow "notes.txt" =
        .ok { lines := [⟨1, encode "abc"⟩], totalLines := 1, truncatedByBytes := false } ∧
      plainWindow (encode "abc\rdef\n") shortWindow "notes.txt" =
        .ok { lines := [⟨1, encode "abc... (line truncated to 3 chars)"⟩], totalLines := 1
              truncatedByBytes := false } ∧
      buildWindow [encode "abc\rdef\n"] shortWindow "notes.txt" ≠
        plainWindow [encode "abc\rdef\n"].flatten shortWindow "notes.txt" := by
  decide +kernel

end Windows

end Harness.ToolFs
