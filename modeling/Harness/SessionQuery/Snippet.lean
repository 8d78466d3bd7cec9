import Harness.Foundation.Words

namespace Harness.SessionQuery

open Harness.Foundation

def ftsHighlightStart : Char := '\uFDD0'

def ftsHighlightEnd : Char := '\uFDD1'

def isSpace (c : Char) : Bool :=
  let code := c.toNat
  (9 ≤ code && code ≤ 13) || code = 32 || code = 0xa0 || code = 0x1680 ||
    (0x2000 ≤ code && code ≤ 0x200a) || code = 0x2028 || code = 0x2029 || code = 0x202f ||
    code = 0x205f || code = 0x3000 || code = 0xfeff

structure MarkedText where
  characters : List Char
  matchStart : Option Nat

namespace MarkedText

def start : MarkedText := ⟨[], none⟩

def take (state : MarkedText) (character : Char) : MarkedText :=
  if character = ftsHighlightStart then
    { state with matchStart := state.matchStart.or (some state.characters.length) }
  else if character = ftsHighlightEnd then state
  else if isSpace character = true then
    if state.characters ≠ [] ∧ state.characters.getLast? ≠ some ' ' then
      { state with characters := state.characters ++ [' '] }
    else state
  else { state with characters := state.characters ++ [character] }

def read (markedText : List Char) : MarkedText := markedText.foldl take start

end MarkedText

def normalizeMarkedText (markedText : List Char) : List Char × Nat :=
  let state := MarkedText.read markedText
  let characters :=
    if state.characters.getLast? = some ' ' then state.characters.dropLast else state.characters
  (characters, state.matchStart.getD 0)

/-- The part of a text that is shown, and whether an ellipsis stands before and behind it. -/
structure SnippetWindow where
  start : Nat
  stop : Nat
  before : Bool
  behind : Bool
  deriving DecidableEq

def ellipsis (shown : Bool) : List Char := if shown then ['…'] else []

/-- The window over a text of some length that is longer than the snippet may be. -/
def snippetWindow (length matchStart maxChars : Nat) : SnippetWindow :=
  let matchedIndex := min matchStart (length - 1)
  let start := matchedIndex - maxChars / 3
  let before := decide (0 < start)
  let contentLength := maxChars - (ellipsis before).length - 1
  let (start, behind, contentLength) :=
    if contentLength < 1 then (matchedIndex, false, maxChars - (ellipsis before).length)
    else if start + contentLength ≤ matchedIndex then
      (matchedIndex - contentLength + 1, true, contentLength)
    else (start, true, contentLength)
  let stop := min length (start + contentLength)
  let (start, behind, contentLength) :=
    if stop = length then
      (stop - (maxChars - (ellipsis before).length), false, maxChars - (ellipsis before).length)
    else (start, behind, contentLength)
  ⟨start, min length (start + contentLength), before, behind⟩

def makeSnippet (markedText : List Char) (maxChars : Nat) : List Char :=
  let (characters, matchStart) := normalizeMarkedText markedText
  if characters.length ≤ maxChars then characters
  else if maxChars = 1 then ['…']
  else
    let window := snippetWindow characters.length matchStart maxChars
    ellipsis window.before ++ (characters.take window.stop).drop window.start ++
      ellipsis window.behind

end Harness.SessionQuery
