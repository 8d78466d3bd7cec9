import Harness.Foundation.Utf16
import Mathlib.Data.Nat.Find
import Mathlib.Algebra.Ring.Nat

namespace Harness.ToolFs

open Harness.Foundation
open Harness.Foundation.Utf16

structure FsError where
  message : String
  code : String
  deriving DecidableEq, Repr

structure ReadWindow where
  offset : Nat
  limit : Nat
  maxLineLength : Nat
  maxBytes : Nat
  positive : 0 < offset ∧ 0 < limit ∧ 0 < maxLineLength ∧ 0 < maxBytes
  deriving DecidableEq, Repr

structure FileTextLine where
  number : Nat
  text : Units
  deriving DecidableEq, Repr

structure WindowResult where
  lines : List FileTextLine
  totalLines : Nat
  truncatedByBytes : Bool
  deriving DecidableEq, Repr

structure WindowAccumulator where
  lines : List FileTextLine
  totalLines : Nat
  outputBytes : Nat
  truncatedByBytes : Bool
  deriving DecidableEq, Repr

def newAccumulator : WindowAccumulator :=
  { lines := [], totalLines := 0, outputBytes := 0, truncatedByBytes := false }

def lineFeed : UInt16 := 10

def carriageReturn : UInt16 := 13

def truncationMarker (maxLineLength : Nat) : Units :=
  encode s!"... (line truncated to {maxLineLength} chars)"

def truncateLine (line : Units) (maxLineLength : Nat) : Units :=
  if maxLineLength < line.length then line.take maxLineLength ++ truncationMarker maxLineLength
  else line

def lineByteSize (line : Units) (currentLineCount : Nat) : Nat :=
  byteLength line + if 0 < currentLineCount then 1 else 0

def consumeLine (request : ReadWindow) (acc : WindowAccumulator) (rawLine : Units) :
    WindowAccumulator :=
  let acc := { acc with totalLines := acc.totalLines + 1 }
  if acc.truncatedByBytes || decide (acc.totalLines < request.offset)
      || decide (request.limit ≤ acc.lines.length) then acc
  else
    let text := truncateLine rawLine request.maxLineLength
    let bytes := lineByteSize text acc.lines.length
    if request.maxBytes < acc.outputBytes + bytes then { acc with truncatedByBytes := true }
    else
      { acc with
        outputBytes := acc.outputBytes + bytes
        lines := acc.lines ++ [{ number := acc.totalLines, text }] }

def stripCarriageReturn (line : Units) : Units :=
  if line.getLast? = some carriageReturn then line.dropLast else line

def outOfRange (offset totalLines : Nat) (displayPath : String) : FsError where
  message := s!"offset {offset} is out of range for \"{displayPath}\" ({totalLines} lines)"
  code := "FS_NOT_FOUND"

def finish (acc : WindowAccumulator) (request : ReadWindow) (displayPath : String) :
    Except FsError WindowResult :=
  if !acc.truncatedByBytes && decide (acc.totalLines < request.offset)
      && !(decide (acc.totalLines = 0) && decide (request.offset = 1)) then
    .error (outOfRange request.offset acc.totalLines displayPath)
  else
    .ok {
      lines := acc.lines
      totalLines := acc.totalLines
      truncatedByBytes := acc.truncatedByBytes }

structure Scanner where
  acc : WindowAccumulator
  lineBuffer : Units
  deriving DecidableEq, Repr

namespace Scanner

variable (request : ReadWindow) (scanner : Scanner)

def appendToLineBuffer (segment : Units) : Scanner :=
  let lineBufferCap := request.maxLineLength + 1
  if lineBufferCap ≤ scanner.lineBuffer.length then scanner
  else { scanner with lineBuffer := (scanner.lineBuffer ++ segment).take lineBufferCap }

def flushLine : Scanner where
  acc := consumeLine request scanner.acc (stripCarriageReturn scanner.lineBuffer)
  lineBuffer := []

end Scanner

def scanFrom (request : ReadWindow) : Scanner → Units → Units → Scanner
  | scanner, segment, [] => scanner.appendToLineBuffer request segment
  | scanner, segment, unit :: rest =>
    if unit = lineFeed then
      scanFrom request ((scanner.appendToLineBuffer request segment).flushLine request) [] rest
    else scanFrom request scanner (segment ++ [unit]) rest

def scanChunk (request : ReadWindow) (scanner : Scanner) (chunk : Units) : Scanner :=
  scanFrom request scanner [] chunk

def buildWindow (chunks : List Units) (request : ReadWindow) (displayPath : String) :
    Except FsError WindowResult :=
  let scanner := chunks.foldl (scanChunk request) { acc := newAccumulator, lineBuffer := [] }
  let scanner := if 0 < scanner.lineBuffer.length then scanner.flushLine request else scanner
  finish scanner.acc request displayPath

section Plain

/-- The lines of a text: what is after the last line feed is one only if it is not empty. -/
def textLines (text : Units) : List Units :=
  let segments := text.splitOn lineFeed
  if segments.getLast? = some [] then segments.dropLast else segments

def joinedBytes (texts : List Units) : Nat := (texts.map byteLength).sum + (texts.length - 1)

def fittingLines (maxBytes : Nat) (texts : List Units) : List Units :=
  texts.take
    (Nat.findGreatest (fun count => joinedBytes (texts.take count) ≤ maxBytes) texts.length)

def selectedLines {α : Type} (request : ReadWindow) (texts : List α) : List α :=
  (texts.drop (request.offset - 1)).take request.limit

def numberedFrom (offset : Nat) (texts : List Units) : List FileTextLine :=
  (texts.zipIdx offset).map fun line => { number := line.2, text := line.1 }

def windowOf (texts : List Units) (request : ReadWindow) (displayPath : String) :
    Except FsError WindowResult :=
  let selected := selectedLines request texts
  let kept := fittingLines request.maxBytes selected
  if texts.length < request.offset ∧ ¬(texts.length = 0 ∧ request.offset = 1) then
    .error (outOfRange request.offset texts.length displayPath)
  else
    .ok {
      lines := numberedFrom request.offset kept
      totalLines := texts.length
      truncatedByBytes := decide (kept.length < selected.length) }

def plainWindow (text : Units) (request : ReadWindow) (displayPath : String) :
    Except FsError WindowResult :=
  windowOf ((textLines text).map fun line =>
    truncateLine (stripCarriageReturn line) request.maxLineLength) request displayPath

end Plain

end Harness.ToolFs
