import Harness.Foundation.Reader

namespace Harness.Jsonl

open Harness.Foundation

def zstdMagic : Nat := 0xFD2FB528

structure ZstdFrameRange where
  start : Nat
  stop : Nat
  deriving DecidableEq

structure ZstdFrameScan where
  frames : List ZstdFrameRange
  tornStart : Option Nat
  deriving DecidableEq

/-- `readUIntLE`. -/
def littleEndian (bytes : Bytes) : Nat := bytes.foldr (fun byte high => byte.toNat + 256 * high) 0

def corrupt (what : String) (offset : Nat) : String :=
  "corrupt Zstandard session log: " ++ what ++ " at byte " ++ toString offset

def remainingHeaderBytes (descriptor : Nat) : Nat :=
  let contentSizeFlag := descriptor >>> 6
  let singleSegment := decide (descriptor &&& 0x20 ≠ 0)
  let dictionaryFlag := descriptor &&& 0x03
  let dictionaryBytes := if dictionaryFlag = 3 then 4 else dictionaryFlag
  let contentSizeBytes :=
    if contentSizeFlag = 0 then if singleSegment then 1 else 0 else 1 <<< contentSizeFlag
  (if singleSegment then 0 else 1) + dictionaryBytes + contentSizeBytes

def scanBlock : Reader String Bool := do
  let start ← Reader.offset
  let header ← Reader.take 3
  let blockHeader := littleEndian header
  let lastBlock := decide (blockHeader &&& 1 ≠ 0)
  let blockType := (blockHeader >>> 1) &&& 0x03
  let blockSize := blockHeader >>> 3
  Reader.require (blockType ≠ 0x03) (corrupt "reserved block type" start)
  let _ ← Reader.take (if blockType = 0x01 then 1 else blockSize)
  return lastBlock

theorem scanBlock_progresses : scanBlock.Progresses := by
  apply Reader.Progresses.of_offset
  intro start
  apply Reader.Progresses.of_take (Nat.succ_pos 2)
  intro header
  apply (Reader.advances_require _ _).bind
  intro _
  apply (Reader.advances_take _).bind
  intro _
  exact Reader.advances_pure _

def scanFrame : Reader String ZstdFrameRange := do
  let start ← Reader.offset
  let magic ← Reader.take 4
  Reader.require (littleEndian magic = zstdMagic) (corrupt "invalid frame magic" start)
  let descriptorByte ← Reader.take 1
  let descriptor := littleEndian descriptorByte
  Reader.require (descriptor &&& 0x18 = 0) (corrupt "reserved frame-header bit" (start + 4))
  let _ ← Reader.take (remainingHeaderBytes descriptor)
  Reader.repeatUntil scanBlock scanBlock_progresses
  let _ ← Reader.take (if descriptor &&& 0x04 ≠ 0 then 4 else 0)
  let stop ← Reader.offset
  return ⟨start, stop⟩

theorem advances_scanBlock : scanBlock.Advances := by
  apply Reader.advances_offset.bind
  intro start
  apply (Reader.advances_take 3).bind
  intro header
  apply (Reader.advances_require _ _).bind
  intro _
  apply (Reader.advances_take _).bind
  intro _
  exact Reader.advances_pure _

theorem advances_frameRest (start : Nat) (magic : Bytes) : Reader.Advances (do
    Reader.require (littleEndian magic = zstdMagic) (corrupt "invalid frame magic" start)
    let descriptorByte ← Reader.take 1
    let descriptor := littleEndian descriptorByte
    Reader.require (descriptor &&& 0x18 = 0) (corrupt "reserved frame-header bit" (start + 4))
    let _ ← Reader.take (remainingHeaderBytes descriptor)
    Reader.repeatUntil scanBlock scanBlock_progresses
    let _ ← Reader.take (if descriptor &&& 0x04 ≠ 0 then 4 else 0)
    let stop ← Reader.offset
    return (⟨start, stop⟩ : ZstdFrameRange)) := by
  apply (Reader.advances_require _ _).bind
  intro _
  apply (Reader.advances_take 1).bind
  intro descriptorByte
  apply (Reader.advances_require _ _).bind
  intro _
  apply (Reader.advances_take _).bind
  intro _
  apply (Reader.advances_repeatUntil advances_scanBlock).bind
  intro _
  apply (Reader.advances_take _).bind
  intro _
  apply Reader.advances_offset.bind
  intro stop
  exact Reader.advances_pure _

theorem advances_scanFrame : scanFrame.Advances :=
  Reader.advances_offset.bind fun start =>
    (Reader.advances_take 4).bind fun magic => advances_frameRest start magic

theorem scanFrame_progresses : scanFrame.Progresses :=
  Reader.Progresses.of_offset fun start =>
    Reader.Progresses.of_take (Nat.succ_pos 3) fun magic => advances_frameRest start magic

/-- The scan from a frame on; `maxFrames` is `none` where there is no limit. -/
def scanFrames (maxFrames : Option Nat) (frames : List ZstdFrameRange) (cursor : Cursor) :
    Except String ZstdFrameScan :=
  if cursor.rest = [] then .ok ⟨frames, none⟩
  else
    match hread : scanFrame cursor with
    | .torn => .ok ⟨frames, some cursor.offset⟩
    | .failed error => .error error
    | .done range next =>
      if maxFrames = some (frames ++ [range]).length then .ok ⟨frames ++ [range], none⟩
      else scanFrames maxFrames (frames ++ [range]) next
termination_by cursor.rest.length
decreasing_by exact scanFrame_progresses cursor range next hread

section Scan

variable {maxFrames : Option Nat} {frames : List ZstdFrameRange} {cursor next : Cursor}

theorem scanFrames_torn (hread : scanFrame cursor = .torn) (hrest : cursor.rest ≠ []) :
    scanFrames maxFrames frames cursor = .ok ⟨frames, some cursor.offset⟩ := by
  rw [scanFrames, if_neg hrest]
  split
  · rfl
  · next heq => rw [hread] at heq; cases heq
  · next heq => rw [hread] at heq; cases heq

theorem scanFrames_failed {error : String} (hread : scanFrame cursor = .failed error)
    (hrest : cursor.rest ≠ []) : scanFrames maxFrames frames cursor = .error error := by
  rw [scanFrames, if_neg hrest]
  split
  · next heq => rw [hread] at heq; cases heq
  · next heq =>
    rw [hread] at heq
    cases heq
    rfl
  · next heq => rw [hread] at heq; cases heq

theorem scanFrames_done {range : ZstdFrameRange} (hread : scanFrame cursor = .done range next) :
    scanFrames maxFrames frames cursor =
      if maxFrames = some (frames ++ [range]).length then .ok ⟨frames ++ [range], none⟩
      else scanFrames maxFrames (frames ++ [range]) next := by
  have hrest : cursor.rest ≠ [] := by
    intro hnil
    have hprogress := scanFrame_progresses cursor range next hread
    rw [hnil] at hprogress
    exact absurd hprogress (Nat.not_lt_zero _)
  rw [scanFrames, if_neg hrest]
  split
  · next heq => rw [hread] at heq; cases heq
  · next heq => rw [hread] at heq; cases heq
  · next heq =>
    rw [hread] at heq
    cases heq
    rfl

end Scan

def scanZstdFrames (buffer : Bytes) (maxFrames : Option Nat) : Except String ZstdFrameScan :=
  scanFrames maxFrames [] ⟨0, buffer⟩

end Harness.Jsonl
