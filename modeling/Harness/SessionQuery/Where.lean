import Harness.Foundation.SqlCondition
import Harness.SessionQuery.Filters

namespace Harness.SessionQuery

open Harness.Foundation

def sqlitePortableVariableLimit : Nat := 32766

def sqliteFts5OuterPredicateLimit : Nat := 14

inductive Binding
  | text (value : Units)
  | number (value : Double)
  deriving DecidableEq

/-- What a placeholder stands for: text is bound as UTF-8, which has no unpaired surrogates, and
`NaN` as no value. -/
def Binding.value : Binding → Sql.Value
  | text value => .text (Utf16.toText value)
  | number .nan => .null
  | number value => .real value

/-- SQL without the leading `WHERE`, the bindings of its placeholders in their order, and the number
of predicates. -/
structure SqlWhere where
  sql : List Sql.Token
  params : List Binding
  predicateCount : Nat
  deriving DecidableEq

structure Clauses where
  clauses : List (List Sql.Token)
  params : List Binding

def limitError (detail : String) : SessionQueryError :=
  ⟨Utf16.encode ("session-search request exceeds " ++ detail), "SESSION_QUERY_INVALID_FILTER"⟩

def assertPortableBindingCount (count : Nat) : Except SessionQueryError Unit :=
  if sqlitePortableVariableLimit < count then
    .error (limitError ("SQLite's portable " ++ toString sqlitePortableVariableLimit ++
      "-variable limit; reduce filter values"))
  else .ok ()

def assertFts5OuterPredicateCount (count : Nat) : Except SessionQueryError Unit :=
  if sqliteFts5OuterPredicateLimit < count then
    .error (limitError ("the supported SQLite FTS5 outer-predicate budget of " ++
      toString sqliteFts5OuterPredicateLimit ++ "; reduce filters"))
  else .ok ()

namespace Clauses

def start : Clauses := ⟨[], []⟩

def push (state : Clauses) (tokens : List Sql.Token) : Clauses :=
  ⟨state.clauses ++ [tokens], state.params⟩

def appendListBindings (params values : List Binding) :
    Except SessionQueryError (List Binding × List Sql.Token) := do
  assertPortableBindingCount (params.length + values.length)
  return (params ++ values, Sql.Clause.marks values)

/-- `column IN (…)`. -/
def memberOf (params : List Binding) (column : String) (values : List Binding) :
    Except SessionQueryError (List Binding × List Sql.Token) := do
  let (params, marks) ← appendListBindings params values
  return (params, [.word column, .word "IN", .opening] ++ (marks ++ [.closing]))

def addList (state : Clauses) (column : String) (values : List Binding) :
    Except SessionQueryError Clauses :=
  if values = [] then .ok (state.push [.number 0])
  else do
    let (params, clause) ← memberOf state.params column values
    return ⟨state.clauses ++ [clause], params⟩

def concreteParts (params : List Binding) (column : String) (concrete : List Binding) :
    Except SessionQueryError (List Binding × List (List Sql.Token)) :=
  if concrete = [] then .ok (params, [])
  else (fun member => (member.1, [member.2])) <$> memberOf params column concrete

section Nullable

local instance : LawfulBEq (Option Units) := inferInstance

def nullPart (column : String) (values : List (Option Units)) : List (List Sql.Token) :=
  if none ∈ values then [[.word column, .word "IS", .word "NULL"]] else []

end Nullable

def addNullableList (state : Clauses) (column : String) (values : List (Option Units)) :
    Except SessionQueryError Clauses :=
  if values = [] then .ok (state.push [.number 0])
  else do
    let concrete := (values.filterMap id).map Binding.text
    let (params, parts) ← concreteParts state.params column concrete
    let alternatives := [.word "OR"].intercalate (parts ++ nullPart column values)
    return ⟨state.clauses ++ [.opening :: (alternatives ++ [.closing])], params⟩

def addBound (state : Clauses) (column : String) (comparison : Sql.Token) :
    Option Double → Except SessionQueryError Clauses
  | none => .ok state
  | some bound => do
    assertPortableBindingCount (state.params.length + 1)
    return ⟨state.clauses ++ [[.word "CAST", .opening, .word column, .word "AS", .word "INTEGER",
      .closing, comparison, .placeholder]], state.params ++ [.number bound]⟩

def addRange (state : Clauses) (column : String) (range : SessionResultRange) :
    Except SessionQueryError Clauses := do
  let state ← state.addBound column .atLeast range.from?
  state.addBound column .atMost range.to?

def addAvailability (state : Clauses) (values : List SessionAvailability) : Clauses :=
  match values.eraseDups with
  | [] => state.push [.number 0]
  | [.live] => state.push [.word "live", .equals, .number 1]
  | [.persisted] => state.push [.word "persisted", .equals, .number 1]
  | _ => state

def addSessionFilter (state : Clauses) : SessionResultFilter → Except SessionQueryError Clauses
  | .id values => state.addList "session_id" (values.map .text)
  | .cwd values => state.addNullableList "cwd" values
  | .createdAt range => state.addRange "created_at" range
  | .parent values => state.addNullableList "parent_session" values
  | .availability values => .ok (state.addAvailability values)

def addEventFilter (state : Clauses) :
    SessionEventMetadataFilter → Except SessionQueryError Clauses
  | .seq range => state.addRange "seq" range
  | .time range => state.addRange "time" range
  | .type values => state.addList "type" (values.map .text)
  | .surface values => state.addList "surface" (values.map fun value => .text (Utf16.encode value.name))

def finish (state : Clauses) : Except SessionQueryError SqlWhere := do
  assertFts5OuterPredicateCount state.clauses.length
  return ⟨[.word "AND"].intercalate state.clauses, state.params, state.clauses.length⟩

end Clauses

def buildSessionWhere (filters : List SessionResultFilter) : Except SessionQueryError SqlWhere := do
  let state ← foldOk Clauses.addSessionFilter .start filters
  state.finish

def buildEventWhere (filters : List SessionEventMetadataFilter) :
    Except SessionQueryError SqlWhere := do
  let state ← foldOk Clauses.addEventFilter .start filters
  state.finish

/-- The metadata clauses of a caller; text clauses and unknown kinds are refused first. -/
def materializeMetadataFilters (filters : Option (List RuntimeFilter)) :
    Except SessionQueryError (List SessionEventMetadataFilter) := do
  (filters.getD []).forM fun filter =>
    match filter.kind.name?, filter.kind with
    | some "seq", _ | some "time", _ | some "type", _ | some "surface", _ => .ok ()
    | some "text", _ =>
      .error ⟨Utf16.encode "session-search metadata filters do not accept text clauses",
        "SESSION_QUERY_INVALID_FILTER"⟩
    | _, .string kind =>
      .error (invalidFilter (Utf16.encode "filter contains unknown kind " ++ quoted kind))
    | _, _ => .error (invalidFilter (Utf16.encode "filter contains unknown kind (missing)"))
  let materialized ← materializeSessionEventResultFilters filters
  return materialized.filterMap fun filter =>
    match filter with
    | .metadata filter => some filter
    | .text _ => none

/-- The columns of a candidate row: one document with the session that it belongs to, its strings
as they were bound when it was stored. -/
def candidate (record : SessionRecord) (document : SessionEventSearchDocument) : Sql.Row
  | "session_id" => .text (Utf16.toText record.header.id)
  | "created_at" => .integer record.header.createdAt
  | "cwd" => ((record.header.cwd.map Utf16.toText).map .text).getD .null
  | "parent_session" => ((record.header.parentSession.map Utf16.toText).map .text).getD .null
  | "live" => .integer (if record.live then 1 else 0)
  | "persisted" => .integer (if record.persisted then 1 else 0)
  | "seq" => .integer document.seq
  | "type" => .text (Utf16.toText document.type)
  | "time" => .integer document.time
  | "surface" => .text document.surface.name
  | _ => .null

def SqlWhere.keeps (condition : SqlWhere) (row : Sql.Row) : Bool :=
  Sql.selects condition.sql (condition.params.map Binding.value) row

end Harness.SessionQuery
