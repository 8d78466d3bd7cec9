import Harness.Foundation.Literal
import Harness.Foundation.Utf8Boundary
import Harness.ToolFs.ReadRender

namespace Harness.FsLocal

open Harness.Foundation
open Harness.ToolFs (FsError)

inductive LineEndings
  | lf
  | crlf
  deriving DecidableEq, Repr

def lineFeed : Literal Char := ⟨['\n'], List.cons_ne_nil _ _⟩

def carriageReturnLineFeed : Literal Char := ⟨['\r', '\n'], List.cons_ne_nil _ _⟩

def normalizeLineEndings (content : List Char) : List Char :=
  carriageReturnLineFeed.replaceAll ['\n'] content

def sampleSize : Nat := 4096

def detectLineEndings (raw : List Char) : LineEndings :=
  let sample := Utf16.slice sampleSize raw
  let crlfCount := (carriageReturnLineFeed.split sample).length - 1
  let lfCount := (lineFeed.split sample).length - 1 - crlfCount
  if lfCount < crlfCount then .crlf else .lf

def restoreLineEndings (content : List Char) (lineEndings : LineEndings) : List Char :=
  match lineEndings with
  | .lf => content
  | .crlf => List.intercalate ['\r', '\n'] (lineFeed.split (normalizeLineEndings content))

structure DecodedText where
  content : List Char
  lineEndings : LineEndings
  deriving DecidableEq, Repr

def decodeUtf8 (buffer : Bytes) (verb displayPath : String) : Except FsError (List Char) :=
  match Utf8.decode (Utf8.stripBom buffer) with
  | some text => .ok text.toList
  | none => .error ⟨s!"cannot {verb} \"{displayPath}\": invalid UTF-8 text", "FS_NOT_TEXT"⟩

def readForEdit (buffer : Bytes) (displayPath : String) : Except FsError DecodedText :=
  if 0 ∈ buffer then .error ⟨s!"cannot edit \"{displayPath}\": binary file", "FS_NOT_TEXT"⟩
  else do
    let raw ← decodeUtf8 buffer "edit" displayPath
    return { content := normalizeLineEndings raw, lineEndings := detectLineEndings raw }

structure AppliedEdit where
  content : List Char
  replacements : Nat
  deriving DecidableEq, Repr

structure FsEditRequest where
  oldString : List Char
  newString : List Char
  replaceAll : Bool
  deriving DecidableEq, Repr

def applyLiteralEdit (content : List Char) (edit : FsEditRequest) (displayPath : String) :
    Except FsError AppliedEdit :=
  let oldNorm := normalizeLineEndings edit.oldString
  if h : oldNorm = [] then
    .error ⟨"old_string must be a non-empty string", "FS_EDIT_NOT_FOUND"⟩
  else
    let newNorm := normalizeLineEndings edit.newString
    let needle : Literal Char := ⟨oldNorm, h⟩
    let replacements := needle.countOccurrences content
    if replacements = 0 then
      .error ⟨s!"old_string was not found in \"{displayPath}\"", "FS_EDIT_NOT_FOUND"⟩
    else if !edit.replaceAll && decide (1 < replacements) then
      .error ⟨s!"old_string matched {replacements} times in \"{displayPath}\"; provide a more " ++
        "specific old_string or set replace_all to true", "FS_AMBIGUOUS_EDIT"⟩
    else .ok { content := List.intercalate newNorm (needle.split content), replacements }

inductive FileType
  | file
  | directory
  | other
  deriving DecidableEq, Repr

structure LocalFile where
  version : String
  mode : Nat
  type : FileType
  bytes : Bytes
  deriving DecidableEq, Repr

structure FsEditOutcome where
  version : String
  before : List Char
  after : List Char
  deriving DecidableEq, Repr

/-- The target is what the lock guards, and `written` the version that it has once written. -/
def editText (target : Option LocalFile) (displayPath : String) (edit : FsEditRequest)
    (expected : Option String) (written : String) :
    Except FsError FsEditOutcome × Option LocalFile :=
  let changed : FsError :=
    ⟨s!"cannot edit \"{displayPath}\": file changed since it was read", "FS_STALE_VERSION"⟩
  match target with
  | none => (.error changed, target)
  | some existing =>
    if existing.type ≠ .file then
      (.error ⟨s!"cannot edit \"{displayPath}\": not a regular file", "FS_NOT_REGULAR_FILE"⟩,
        target)
    else if expected.any (existing.version != ·) then (.error changed, target)
    else
      match readForEdit existing.bytes displayPath with
      | .error failure => (.error failure, target)
      | .ok original =>
        match applyLiteralEdit original.content edit displayPath with
        | .error failure => (.error failure, target)
        | .ok edited =>
          let content := restoreLineEndings edited.content original.lineEndings
          (.ok { version := written, before := original.content, after := edited.content },
            some { existing with version := written, bytes := Utf8.encodeChars content })

end Harness.FsLocal
