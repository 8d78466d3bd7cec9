import Harness.Jsonl.ZstdFrames

namespace Harness.Jsonl

open Harness.Foundation

inductive BlockType
  | raw
  | rle
  | compressed
  deriving DecidableEq

def BlockType.code : BlockType → Nat
  | raw => 0
  | rle => 1
  | compressed => 2

structure Block where
  type : BlockType
  size : Nat
  size_lt : size < 2 ^ 21
  payload : Bytes
  length_payload : payload.length = if type = .rle then 1 else size

def leBytes : Nat → Nat → Bytes
  | 0, _ => []
  | count + 1, value => UInt8.ofNat (value % 256) :: leBytes count (value / 256)

def Block.header (block : Block) (last : Bool) : Nat :=
  last.toNat + 2 * block.type.code + 8 * block.size

def Block.encode (block : Block) (last : Bool) : Bytes :=
  leBytes 3 (block.header last) ++ block.payload

def dictionaryIdBytes : Fin 4 → Nat
  | 0 => 0
  | 1 => 1
  | 2 => 2
  | 3 => 4

def contentSizeBytes (singleSegment : Bool) : Fin 4 → Nat
  | 0 => if singleSegment then 1 else 0
  | 1 => 2
  | 2 => 4
  | 3 => 8

structure ZstdFrame where
  contentSizeFlag : Fin 4
  singleSegment : Bool
  checksum : Bool
  dictionaryFlag : Fin 4
  header : Bytes
  length_header : header.length = (if singleSegment then 0 else 1) +
    dictionaryIdBytes dictionaryFlag + contentSizeBytes singleSegment contentSizeFlag
  blocks : List Block
  last : Block
  trailer : Bytes
  length_trailer : trailer.length = if checksum then 4 else 0

namespace ZstdFrame

def descriptor (contentSizeFlag : Fin 4) (singleSegment checksum : Bool) (dictionaryFlag : Fin 4) :
    Nat :=
  64 * contentSizeFlag + 32 * singleSegment.toNat + 4 * checksum.toNat + dictionaryFlag

variable (frame : ZstdFrame)

def blockBytes : Bytes :=
  frame.blocks.foldr (fun block rest => block.encode false ++ rest) (frame.last.encode true)

def encode : Bytes :=
  leBytes 4 zstdMagic ++ (leBytes 1 (descriptor frame.contentSizeFlag frame.singleSegment
    frame.checksum frame.dictionaryFlag) ++ (frame.header ++ (frame.blockBytes ++ frame.trailer)))

end ZstdFrame

section Fields

theorem length_leBytes (count value : Nat) : (leBytes count value).length = count := by
  induction count generalizing value with
  | zero => rfl
  | succ count ih => exact congrArg Nat.succ (ih _)

theorem littleEndian_leBytes {count value : Nat} (h : value < 256 ^ count) :
    littleEndian (leBytes count value) = value := by
  induction count generalizing value with
  | zero =>
    rw [Nat.pow_zero, Nat.lt_one_iff] at h
    rw [h]
    rfl
  | succ count ih =>
    have hhigh : value / 256 < 256 ^ count := by
      rw [Nat.div_lt_iff_lt_mul (by decide), ← Nat.pow_succ]
      exact h
    have hlow : (UInt8.ofNat (value % 256)).toNat = value % 256 := by
      rw [UInt8.toNat_ofNat']
      omega
    have hcons : littleEndian (leBytes (count + 1) value) =
        (UInt8.ofNat (value % 256)).toNat + 256 * littleEndian (leBytes count (value / 256)) := rfl
    rw [hcons, ih hhigh, hlow]
    omega

theorem descriptor_fields (contentSizeFlag : Fin 4) (singleSegment checksum : Bool)
    (dictionaryFlag : Fin 4) :
    let descriptor := ZstdFrame.descriptor contentSizeFlag singleSegment checksum dictionaryFlag
    descriptor < 256 ∧ descriptor &&& 0x18 = 0 ∧
      (descriptor &&& 0x04 ≠ 0 ↔ checksum = true) ∧
      remainingHeaderBytes descriptor = (if singleSegment then 0 else 1) +
        dictionaryIdBytes dictionaryFlag + contentSizeBytes singleSegment contentSizeFlag := by
  revert contentSizeFlag singleSegment checksum dictionaryFlag
  decide

theorem Block.header_fields (block : Block) (last : Bool) :
    block.header last < 256 ^ 3 ∧ (block.header last &&& 1 ≠ 0 ↔ last = true) ∧
      (block.header last >>> 1) &&& 0x03 = block.type.code ∧
      block.header last >>> 3 = block.size := by
  have hsize := block.size_lt
  have hlast : last.toNat < 2 := Bool.toNat_lt last
  have htype : block.type.code < 3 := by cases block.type <;> decide
  rw [Block.header, Nat.and_one_is_mod, Nat.shiftRight_eq_div_pow, Nat.shiftRight_eq_div_pow,
    Nat.and_two_pow_sub_one_eq_mod _ 2]
  refine ⟨by omega, ?_, by omega, by omega⟩
  cases last with
  | false =>
    refine iff_of_false (not_not.mpr ?_) nofun
    rw [Bool.toNat_false]
    omega
  | true =>
    refine iff_of_true ?_ rfl
    rw [Bool.toNat_true]
    omega

end Fields

section Reads

theorem reads_scanBlock (block : Block) (last : Bool) (start : Nat) :
    scanBlock.Reads start (block.encode last) last := by
  obtain ⟨hlt, hlast, htype, hsize⟩ := block.header_fields last
  have hdecide : decide (block.header last &&& 1 ≠ 0) = last := by
    rw [Bool.eq_iff_iff, decide_eq_true_eq]
    exact hlast
  have hpayload : block.payload.length = if block.type.code = 1 then 1 else block.size := by
    rw [block.length_payload]
    cases block.type <;> rfl
  apply Reader.Reads.of_offset
  apply (Reader.reads_take start (length_leBytes 3 _)).bind
  simp only [littleEndian_leBytes hlt, htype, hsize, hdecide]
  apply Reader.Reads.require
  · cases block.type <;> rfl
  · rw [← List.append_nil block.payload]
    apply (Reader.reads_take _ hpayload).bind
    exact Reader.reads_pure _ last

theorem reads_blocks (frame : ZstdFrame) (start : Nat) :
    Reader.Reads (Reader.repeatUntil scanBlock scanBlock_progresses) start frame.blockBytes () := by
  rw [ZstdFrame.blockBytes]
  induction frame.blocks generalizing start with
  | nil => exact (reads_scanBlock frame.last true start).last
  | cons block blocks ih => exact (reads_scanBlock block false start).again (ih _)

theorem reads_scanFrame (frame : ZstdFrame) (start : Nat) :
    scanFrame.Reads start frame.encode ⟨start, start + frame.encode.length⟩ := by
  obtain ⟨hlt, hreserved, hchecksum, hremaining⟩ := descriptor_fields frame.contentSizeFlag
    frame.singleSegment frame.checksum frame.dictionaryFlag
  have htrailer : frame.trailer.length = if ZstdFrame.descriptor frame.contentSizeFlag
      frame.singleSegment frame.checksum frame.dictionaryFlag &&& 0x04 ≠ 0 then 4 else 0 := by
    rw [frame.length_trailer]
    exact (if_congr hchecksum rfl rfl).symm
  apply Reader.Reads.of_offset
  apply (Reader.reads_take start (length_leBytes 4 _)).bind
  apply Reader.Reads.require
  · rw [littleEndian_leBytes (by decide)]
    exact decide_eq_true rfl
  apply (Reader.reads_take _ (length_leBytes 1 _)).bind
  simp only [@littleEndian_leBytes 1 _ hlt]
  apply Reader.Reads.require (decide_eq_true hreserved)
  apply (Reader.reads_take _ (frame.length_header.trans hremaining.symm)).bind
  apply (reads_blocks frame _).bind
  rw [← List.append_nil frame.trailer]
  apply (Reader.reads_take _ htrailer).bind
  apply Reader.Reads.of_offset
  rw [ZstdFrame.encode]
  simp only [List.length_append, Nat.add_assoc]
  exact Reader.reads_pure _ _

end Reads

section Ranges

def ranges : Nat → List Bytes → List ZstdFrameRange
  | _, [] => []
  | start, piece :: pieces =>
    ⟨start, start + piece.length⟩ :: ranges (start + piece.length) pieces

theorem le_of_mem_ranges {start : Nat} {pieces : List Bytes} {range : ZstdFrameRange}
    (h : range ∈ ranges start pieces) : start ≤ range.start ∧ range.start ≤ range.stop := by
  induction pieces generalizing start with
  | nil => cases h
  | cons piece pieces ih =>
    cases h with
    | head => exact ⟨Nat.le_refl start, Nat.le_add_right start piece.length⟩
    | tail _ h =>
      obtain ⟨hstart, hstop⟩ := ih h
      exact ⟨Nat.le_trans (Nat.le_add_right start piece.length) hstart, hstop⟩

def cutAt (size : Nat) (range : ZstdFrameRange) : Bool := range.start < size ∧ size < range.stop

structure ScanOfCut (pieces : List Bytes) (size : Nat) (scan : ZstdFrameScan) : Prop where
  frames : scan.frames = (ranges 0 pieces).filter (·.stop ≤ size)
  torn : ∀ start, scan.tornStart = some start ↔
    ∃ range ∈ ranges 0 pieces, range.start = start ∧ start < size ∧ size < range.stop
  boundary : scan.tornStart = none ↔ ∃ count, (pieces.take count).flatten.length = size

theorem filter_ranges {start size : Nat} {piece : Bytes} (h : size < piece.length)
    (pieces : List Bytes) :
    (ranges start (piece :: pieces)).filter (·.stop ≤ start + size) = [] := by
  rw [List.filter_eq_nil_iff]
  intro range hmem hstop
  have hle := of_decide_eq_true hstop
  rw [ranges] at hmem
  cases hmem with
  | head => exact absurd (Nat.le_of_add_le_add_left hle) (Nat.not_le_of_lt h)
  | tail _ hmem =>
    obtain ⟨hstart, hstop⟩ := le_of_mem_ranges hmem
    omega

theorem find_cut {start size : Nat} {pieces : List Bytes} (first : Nat) :
    ((ranges start pieces).find? (cutAt size)).map (·.start) = some first ↔
      ∃ range ∈ ranges start pieces, range.start = first ∧ first < size ∧ size < range.stop := by
  induction pieces generalizing start with
  | nil => exact iff_of_false nofun nofun
  | cons piece pieces ih =>
    rw [ranges, List.find?_cons]
    split
    · next hcut =>
      rw [cutAt, decide_eq_true_eq] at hcut
      constructor
      · intro h
        cases h
        exact ⟨_, List.mem_cons_self, rfl, hcut⟩
      · rintro ⟨range, hmem, rfl, hstart, hstop⟩
        cases hmem with
        | head => rfl
        | tail _ hmem =>
          have hle := (le_of_mem_ranges hmem).1
          exact absurd hcut.2 (Nat.not_lt_of_le (Nat.le_of_lt (Nat.lt_of_le_of_lt hle hstart)))
    · next hcut =>
      rw [cutAt, decide_eq_false_iff_not] at hcut
      rw [ih]
      constructor
      · rintro ⟨range, hmem, h⟩
        exact ⟨range, List.mem_cons_of_mem _ hmem, h⟩
      · rintro ⟨range, hmem, rfl, h⟩
        cases hmem with
        | head => exact absurd h hcut
        | tail _ hmem => exact ⟨range, hmem, rfl, h⟩

theorem find_cut_eq_none {start size : Nat} {pieces : List Bytes}
    (hle : size ≤ start + pieces.flatten.length) (hstart : start ≤ size) :
    (ranges start pieces).find? (cutAt size) = none ↔
      ∃ count, start + (pieces.take count).flatten.length = size := by
  rw [List.find?_eq_none]
  constructor
  · intro h
    induction pieces generalizing start with
    | nil => exact ⟨0, Nat.le_antisymm hstart hle⟩
    | cons piece pieces ih =>
      by_cases hfirst : start + piece.length ≤ size
      · rw [List.flatten_cons, List.length_append, ← Nat.add_assoc] at hle
        obtain ⟨count, hcount⟩ := ih hle hfirst fun range hmem =>
          h range (List.mem_cons_of_mem _ hmem)
        refine ⟨count + 1, ?_⟩
        rw [List.take_succ_cons, List.flatten_cons, List.length_append, ← Nat.add_assoc, hcount]
      · have hnot := h _ List.mem_cons_self
        rw [cutAt, decide_eq_true_eq] at hnot
        refine ⟨0, Nat.le_antisymm hstart (Nat.le_of_not_lt fun hless => ?_)⟩
        exact hnot ⟨hless, Nat.lt_of_not_le hfirst⟩
  · rintro ⟨count, rfl⟩ range hmem
    rw [cutAt, decide_eq_true_eq]
    clear hle hstart
    induction pieces generalizing start count with
    | nil => cases hmem
    | cons piece pieces ih =>
      cases count with
      | zero =>
        have hge := (le_of_mem_ranges hmem).1
        exact fun h => Nat.not_lt_of_le hge h.1
      | succ count =>
        rw [List.take_succ_cons, List.flatten_cons, List.length_append, ← Nat.add_assoc]
        cases hmem with
        | head => exact fun h => Nat.not_lt_of_le (Nat.le_add_right _ _) h.2
        | tail _ hmem => exact ih count hmem

end Ranges

section Scan

theorem scanFrames_whole {start size : Nat} {bytes : Bytes} (h : scanFrame.Reads start bytes
    ⟨start, start + bytes.length⟩) (hsize : bytes.length ≤ size)
    (frames : List ZstdFrameRange) (tail : Bytes) :
    scanFrames none frames ⟨start, (bytes ++ tail).take size⟩ =
      scanFrames none (frames ++ [⟨start, start + bytes.length⟩])
        ⟨start + bytes.length, tail.take (size - bytes.length)⟩ := by
  rw [List.take_append, List.take_of_length_le hsize, scanFrames_done (h.whole _)]
  exact if_neg nofun

theorem scanFrames_cut {start size : Nat} {bytes : Bytes} (h : scanFrame.Reads start bytes
    ⟨start, start + bytes.length⟩) (hpos : 0 < size) (hsize : size < bytes.length)
    (frames : List ZstdFrameRange) (tail : Bytes) :
    scanFrames none frames ⟨start, (bytes ++ tail).take size⟩ = .ok ⟨frames, some start⟩ := by
  rw [List.take_append_of_le_length (Nat.le_of_lt hsize)]
  apply scanFrames_torn (h.cut size hsize)
  intro hnil
  have hlength := congrArg List.length hnil
  rw [List.length_take_of_le (Nat.le_of_lt hsize)] at hlength
  exact absurd hlength (Nat.ne_of_gt hpos)

theorem scanFrames_take (zstdFrames : List ZstdFrame) (start size : Nat)
    (frames : List ZstdFrameRange) :
    scanFrames none frames ⟨start, (zstdFrames.map ZstdFrame.encode).flatten.take size⟩ =
      .ok ⟨frames ++ (ranges start (zstdFrames.map ZstdFrame.encode)).filter
          (·.stop ≤ start + size),
        ((ranges start (zstdFrames.map ZstdFrame.encode)).find? (cutAt (start + size))).map
          (·.start)⟩ := by
  induction zstdFrames generalizing start size frames with
  | nil =>
    rw [List.map_nil, List.flatten_nil, List.take_nil, scanFrames, if_pos rfl, ranges,
      List.filter_nil, List.append_nil]
    rfl
  | cons frame rest ih =>
    have hread := reads_scanFrame frame start
    rw [List.map_cons, List.flatten_cons]
    by_cases hless : size < frame.encode.length
    · rw [filter_ranges hless, List.append_nil]
      cases size with
      | zero =>
        rw [List.take_zero, scanFrames, if_pos rfl, List.find?_eq_none.mpr]
        · rfl
        · intro range hmem hcut
          have hstart := le_of_mem_ranges hmem
          exact absurd (of_decide_eq_true hcut).1 (Nat.not_lt_of_le hstart.1)
      | succ size =>
        have hcut : cutAt (start + (size + 1)) ⟨start, start + frame.encode.length⟩ = true :=
          decide_eq_true ⟨Nat.lt_add_of_pos_right (Nat.succ_pos size),
            Nat.add_lt_add_left hless start⟩
        rw [scanFrames_cut hread (Nat.succ_pos size) hless, ranges, List.find?_cons, hcut]
        rfl
    · have hge := Nat.le_of_not_lt hless
      have hend : start + frame.encode.length + (size - frame.encode.length) = start + size := by
        omega
      have hcut : cutAt (start + size) ⟨start, start + frame.encode.length⟩ = false :=
        decide_eq_false fun h => Nat.not_lt_of_le (Nat.add_le_add_left hge start) h.2
      rw [scanFrames_whole hread hge, ih, hend, ranges, List.find?_cons, hcut,
        List.filter_cons, if_pos (decide_eq_true (Nat.add_le_add_left hge start)),
        List.append_assoc, List.singleton_append]

theorem scanOfCut (zstdFrames : List ZstdFrame) (size : Nat)
    (h : size ≤ (zstdFrames.map ZstdFrame.encode).flatten.length) :
    ∃ scan, scanZstdFrames ((zstdFrames.map ZstdFrame.encode).flatten.take size) none = .ok scan ∧
      ScanOfCut (zstdFrames.map ZstdFrame.encode) size scan := by
  have htake := scanFrames_take zstdFrames 0 size []
  rw [Nat.zero_add, List.nil_append] at htake
  refine ⟨_, htake, rfl, find_cut, ?_⟩
  rw [Option.map_eq_none_iff, find_cut_eq_none (by rwa [Nat.zero_add]) (Nat.zero_le size)]
  simp only [Nat.zero_add]

end Scan

section Every

theorem scanFrame_range {cursor next : Cursor} {range : ZstdFrameRange}
    (h : scanFrame cursor = .done range next) : range = ⟨cursor.offset, next.offset⟩ := by
  simp only [scanFrame, Reader.bind_eq_done] at h
  obtain ⟨_, _, hstart, _, _, -, _, _, -, _, _, -, _, _, -, _, _, -, hblocks⟩ := h
  obtain ⟨_, _, -, htrailer⟩ := Reader.bind_eq_done.mp hblocks
  simp only [Reader.bind_eq_done] at htrailer
  obtain ⟨_, _, -, _, _, hstop, hrange⟩ := htrailer
  cases hstart
  cases hstop
  cases hrange
  rfl

structure Disjoint (frames : List ZstdFrameRange) (stop : Nat) : Prop where
  within : ∀ range ∈ frames, range.start < range.stop ∧ range.stop ≤ stop
  apart : frames.Pairwise fun first second => first.stop ≤ second.start

theorem Disjoint.append {frames : List ZstdFrameRange} {start stop : Nat}
    (h : Disjoint frames start) (hlt : start < stop) :
    Disjoint (frames ++ [⟨start, stop⟩]) stop where
  within range hmem := by
    rw [List.mem_append, List.mem_singleton] at hmem
    cases hmem with
    | inl hmem =>
      obtain ⟨hinside, hle⟩ := h.within range hmem
      exact ⟨hinside, Nat.le_trans hle (Nat.le_of_lt hlt)⟩
    | inr hlast =>
      rw [hlast]
      exact ⟨hlt, Nat.le_refl stop⟩
  apart := by
    rw [List.pairwise_append]
    refine ⟨h.apart, List.pairwise_singleton _ _, ?_⟩
    intro first hfirst second hsecond
    rw [List.mem_singleton.mp hsecond]
    exact (h.within first hfirst).2

theorem Disjoint.step {frames : List ZstdFrameRange} {cursor next : Cursor}
    {range : ZstdFrameRange} (h : Disjoint frames cursor.offset)
    (hread : scanFrame cursor = .done range next) :
    Disjoint (frames ++ [range]) next.offset ∧
      next.offset + next.rest.length = cursor.offset + cursor.rest.length := by
  obtain ⟨used, hused, hoffset⟩ := advances_scanFrame cursor range next hread
  have hprogress := scanFrame_progresses cursor range next hread
  rw [hused, List.length_append] at hprogress
  rw [scanFrame_range hread, hused, List.length_append]
  exact ⟨h.append (by omega), by omega⟩

theorem scanFrames_disjoint {maxFrames : Option Nat} {frames : List ZstdFrameRange}
    {cursor : Cursor} {scan : ZstdFrameScan} (h : Disjoint frames cursor.offset)
    (hscan : scanFrames maxFrames frames cursor = .ok scan) :
    ∃ stop, Disjoint scan.frames stop ∧ stop ≤ cursor.offset + cursor.rest.length ∧
      ∀ start, scan.tornStart = some start →
        stop = start ∧ start < cursor.offset + cursor.rest.length := by
  induction frames, cursor using scanFrames.induct maxFrames with
  | case1 frames cursor hnil =>
    rw [scanFrames, if_pos hnil] at hscan
    cases hscan
    exact ⟨cursor.offset, h, Nat.le_add_right _ _, by rintro _ ⟨⟩⟩
  | case2 frames cursor hrest hread =>
    rw [scanFrames_torn hread hrest] at hscan
    cases hscan
    refine ⟨cursor.offset, h, Nat.le_add_right _ _, fun start hstart => ?_⟩
    cases hstart
    exact ⟨rfl, Nat.lt_add_of_pos_right (List.length_pos_iff.mpr hrest)⟩
  | case3 frames cursor hrest error hread =>
    rw [scanFrames_failed hread hrest] at hscan
    cases hscan
  | case4 frames cursor hrest range next hread hmax =>
    obtain ⟨hframes, hend⟩ := h.step hread
    rw [scanFrames_done hread, if_pos hmax] at hscan
    cases hscan
    exact ⟨next.offset, hframes, hend ▸ Nat.le_add_right _ _, by rintro _ ⟨⟩⟩
  | case5 frames cursor hrest range next hread hmax ih =>
    obtain ⟨hframes, hend⟩ := h.step hread
    rw [scanFrames_done hread, if_neg hmax] at hscan
    rw [← hend]
    exact ih hframes hscan

end Every

/-- Whole frames are found where they are, a cut one is told by where it starts, and whatever the
bytes are the ranges found lie in them one behind the other. -/
theorem scanZstdFrames_sound :
    (∀ (frames : List ZstdFrame) (size : Nat),
      size ≤ (frames.map ZstdFrame.encode).flatten.length →
        ∃ scan, scanZstdFrames ((frames.map ZstdFrame.encode).flatten.take size) none = .ok scan ∧
          ScanOfCut (frames.map ZstdFrame.encode) size scan) ∧
    ∀ (buffer : Bytes) (maxFrames : Option Nat) (scan : ZstdFrameScan),
      scanZstdFrames buffer maxFrames = .ok scan →
        ∃ stop, Disjoint scan.frames stop ∧ stop ≤ buffer.length ∧
          ∀ start, scan.tornStart = some start → stop = start ∧ start < buffer.length := by
  refine ⟨scanOfCut, fun buffer maxFrames scan hscan => ?_⟩
  have hdisjoint := scanFrames_disjoint ⟨List.forall_mem_nil _, List.Pairwise.nil⟩ hscan
  rwa [Nat.zero_add] at hdisjoint

def emptyFrame : ZstdFrame where
  contentSizeFlag := 0
  singleSegment := true
  checksum := true
  dictionaryFlag := 0
  header := [0]
  length_header := rfl
  blocks := []
  last := ⟨.raw, 0, Nat.two_pow_pos 21, [], rfl⟩
  trailer := [0x99, 0xE9, 0xD8, 0x51]
  length_trailer := rfl

theorem scanZstdFrames_emptyFrames :
    ∃ scan, scanZstdFrames ([emptyFrame.encode, emptyFrame.encode].flatten.take 20) none =
        .ok scan ∧ ScanOfCut [emptyFrame.encode, emptyFrame.encode] 20 scan :=
  scanZstdFrames_sound.1 [emptyFrame, emptyFrame] 20 (Nat.le_of_ble_eq_true rfl)

structure SkippableFrame where
  variant : Fin 16
  content : Bytes
  length_lt : content.length < 2 ^ 32

def SkippableFrame.encode (frame : SkippableFrame) : Bytes :=
  leBytes 4 (0x184D2A50 + frame.variant) ++ (leBytes 4 frame.content.length ++ frame.content)

theorem scanZstdFrames_skippable :
    ¬ ∀ (frames : List (ZstdFrame ⊕ SkippableFrame)) (size : Nat),
      let pieces := frames.map (Sum.elim ZstdFrame.encode SkippableFrame.encode)
      size ≤ pieces.flatten.length →
        ∃ scan, scanZstdFrames (pieces.flatten.take size) none = .ok scan ∧
          ScanOfCut pieces size scan := by
  intro h
  obtain ⟨scan, hscan, -⟩ := h [.inr ⟨0, [], Nat.two_pow_pos 32⟩] 8 (Nat.le_refl 8)
  have hfailed : scanZstdFrames (SkippableFrame.encode ⟨0, [], Nat.two_pow_pos 32⟩) none =
      .error (corrupt "invalid frame magic" 0) := scanFrames_failed rfl (List.cons_ne_nil _ _)
  exact nomatch hfailed.symm.trans hscan

end Harness.Jsonl
