import Harness.Foundation.Except
import Harness.Foundation.Utf8Boundary

namespace Harness.OutputRetention

open Harness.Foundation
open Harness.Foundation.Utf8

inductive Omitted
  | none
  | exact (count : Nat)
  | unknown
  deriving DecidableEq, Repr

structure PushDecision where
  kept : Bool
  truncated : Bool
  deriving DecidableEq, Repr

def assertBudget (value : Int) (name : String) : Except String Nat :=
  if 0 ≤ value then .ok value.toNat else .error s!"{name} must be a non-negative integer"

structure RetainedText where
  text : String
  truncated : Bool
  omittedBytes : Omitted
  deriving DecidableEq, Repr

inductive TextRetentionStrategy
  | head (maxBytes : Int)
  | tail (maxBytes : Int)
  | headTail (headBytes tailBytes : Int)
  deriving DecidableEq, Repr

def leadEnd (bytes : Bytes) : Nat → Nat
  | 0 => 0
  | i + 1 =>
    if (bytes[i]?.map isContinuation).getD false && decide (bytes.length - i ≤ 3) then
      leadEnd bytes i
    else i + 1

def trimTrailingPartialUtf8 (bytes : Bytes) : Bytes :=
  match leadEnd bytes bytes.length with
  | 0 => bytes
  | i + 1 =>
    let expected := (bytes[i]?.map announcedLength).getD 0
    if expected = 0 then bytes
    else if bytes.length - i < expected then bytes.take i
    else bytes

def trimLeadingContinuationUtf8 (bytes : Bytes) : Bytes := bytes.dropWhile isContinuation

def decodeText (bytes : Bytes) : String := toText (stripBom bytes)

inductive Chunk
  | raw (bytes : Bytes)
  | text (text : String)
  deriving DecidableEq, Repr

def Chunk.encoded : Chunk → Bytes
  | .raw chunk => chunk
  | .text chunk => encode chunk

structure TextRetainer where
  prefixCap : Nat
  suffixCap : Nat
  prefixChunks : List Bytes
  prefixHeld : Nat
  suffixChunks : List Bytes
  suffixHeld : Nat
  total : Nat
  deriving DecidableEq, Repr

namespace TextRetainer

def withCaps (prefixCap suffixCap : Nat) : TextRetainer :=
  { prefixCap, suffixCap, prefixChunks := [], prefixHeld := 0, suffixChunks := [], suffixHeld := 0
    total := 0 }

def create : TextRetentionStrategy → Except String TextRetainer
  | .head maxBytes => do
    let prefixCap ← assertBudget maxBytes "maxBytes"
    return withCaps prefixCap 0
  | .tail maxBytes => do
    let suffixCap ← assertBudget maxBytes "maxBytes"
    return withCaps 0 suffixCap
  | .headTail headBytes tailBytes => do
    let prefixCap ← assertBudget headBytes "headBytes"
    let suffixCap ← assertBudget tailBytes "tailBytes"
    return withCaps prefixCap suffixCap

def slideOut (suffixCap : Nat) : List Bytes → Nat → List Bytes × Nat
  | [], held => ([], held)
  | head :: chunks, held =>
    if suffixCap ≤ held - head.length then slideOut suffixCap chunks (held - head.length)
    else (head :: chunks, held)

def trimHead (suffixCap : Nat) : List Bytes × Nat → List Bytes × Nat
  | (head :: chunks, held) =>
    if suffixCap < held then (head.drop (held - suffixCap) :: chunks, suffixCap)
    else (head :: chunks, held)
  | ([], held) => ([], held)

variable (retainer : TextRetainer)

def fillPrefix (bytes : Bytes) : TextRetainer :=
  let take := min (retainer.prefixCap - retainer.prefixHeld) bytes.length
  if 0 < take then
    { retainer with
      prefixChunks := retainer.prefixChunks ++ [bytes.take take]
      prefixHeld := retainer.prefixHeld + take }
  else retainer

def rollSuffix (bytes : Bytes) : TextRetainer :=
  if 0 < retainer.suffixCap then
    let (suffixChunks, suffixHeld) := trimHead retainer.suffixCap
      (slideOut retainer.suffixCap (retainer.suffixChunks ++ [bytes])
        (retainer.suffixHeld + bytes.length))
    { retainer with suffixChunks, suffixHeld }
  else retainer

def omittedAt (total : Nat) : Nat :=
  let prefixLen := min total retainer.prefixCap
  let suffixLen := min (total - prefixLen) retainer.suffixCap
  total - prefixLen - suffixLen

def push (chunk : Chunk) : TextRetainer × PushDecision :=
  let bytes := chunk.encoded
  let before := retainer.total
  let retainer := { retainer with total := retainer.total + bytes.length }
  let retainer := (retainer.fillPrefix bytes).rollSuffix bytes
  let droppedThisChunk := decide (retainer.omittedAt before < retainer.omittedAt retainer.total)
  (retainer,
    { kept := !droppedThisChunk, truncated := decide (0 < retainer.omittedAt retainer.total) })

def finish : RetainedText :=
  let prefixLen := min retainer.total retainer.prefixCap
  let suffixLen := min (retainer.total - prefixLen) retainer.suffixCap
  let front := retainer.prefixChunks.flatten
  let back := retainer.suffixChunks.flatten.drop (retainer.suffixHeld - suffixLen)
  let budgetOmitted := retainer.omittedAt retainer.total
  let (keptPrefix, keptSuffix) :=
    if 0 < budgetOmitted then (trimTrailingPartialUtf8 front, trimLeadingContinuationUtf8 back)
    else (front, back)
  let text :=
    if 0 < budgetOmitted then decodeText keptPrefix ++ decodeText keptSuffix
    else decodeText (front ++ back)
  let omitted := retainer.total - keptPrefix.length - keptSuffix.length
  let truncated := decide (0 < omitted)
  { text, truncated, omittedBytes := if truncated then .exact omitted else .none }

def pushAll (chunks : List Chunk) : TextRetainer :=
  chunks.foldl (fun retainer chunk => (retainer.push chunk).1) retainer

def held : Nat := retainer.prefixChunks.flatten.length + retainer.suffixChunks.flatten.length

end TextRetainer

end Harness.OutputRetention
