import Harness.Foundation.Double
import Harness.Foundation.Except
import Harness.Foundation.Utf16Text

namespace Harness.SessionQuery

open Harness.Foundation

/-- The message is a string of the caller's, which may have unpaired surrogates. -/
structure SessionQueryError where
  message : Units
  code : String
  deriving DecidableEq

def invalidFilter (detail : Units) : SessionQueryError :=
  ⟨Utf16.encode "session " ++ detail, "SESSION_QUERY_INVALID_FILTER"⟩

def invalidRange (name detail : String) : SessionQueryError :=
  invalidFilter (Utf16.encode (name ++ " filter " ++ detail))

structure SessionHeader where
  id : Units
  createdAt : Int
  cwd : Option Units
  parentSession : Option Units
  deriving DecidableEq

/-- A session of the logical corpus: it comes from a live session or from a persisted one. -/
structure SessionRecord where
  header : SessionHeader
  live : Bool
  persisted : Bool
  observed : live = true ∨ persisted = true
  deriving DecidableEq

inductive SessionEventSurface
  | current
  | shadowed
  | logOnly
  deriving DecidableEq

namespace SessionEventSurface

def name : SessionEventSurface → String
  | current => "current"
  | shadowed => "shadowed"
  | logOnly => "log-only"

def named (value : Units) : Option SessionEventSurface :=
  [current, shadowed, logOnly].find? fun surface => Utf16.encode surface.name = value

end SessionEventSurface

structure SessionEventSearchDocument where
  sessionId : Units
  seq : Int
  type : Units
  time : Int
  surface : SessionEventSurface
  text : Units
  deriving DecidableEq

structure SessionResultRange where
  from? : Option Double
  to? : Option Double
  deriving DecidableEq

inductive SessionAvailability
  | live
  | persisted
  deriving DecidableEq

namespace SessionAvailability

def name : SessionAvailability → String
  | live => "live"
  | persisted => "persisted"

def named (value : Units) : Option SessionAvailability :=
  [live, persisted].find? fun availability => Utf16.encode availability.name = value

end SessionAvailability

inductive SessionResultFilter
  | id (values : List Units)
  | cwd (values : List (Option Units))
  | createdAt (range : SessionResultRange)
  | parent (values : List (Option Units))
  | availability (values : List SessionAvailability)
  deriving DecidableEq

inductive SessionEventMetadataFilter
  | seq (range : SessionResultRange)
  | time (range : SessionResultRange)
  | type (values : List Units)
  | surface (values : List SessionEventSurface)
  deriving DecidableEq

inductive Runtime
  | undefined
  | null
  | boolean (value : Bool)
  | number (value : Double)
  | string (value : Units)
  | array (items : List Runtime)
  | object

namespace Runtime

def string? : Runtime → Option Units
  | string value => some value
  | _ => none

def name? : Runtime → Option String
  | string value => Utf16.text? value
  | _ => none

@[simp] theorem name?_encode (text : String) : (string (Utf16.encode text)).name? = some text :=
  Utf16.text?_eq_some.mpr rfl

def nullable? : Runtime → Option (Option Units)
  | null => some none
  | string value => some (some value)
  | _ => none

def elements? {α : Type} (element? : Runtime → Option α) : Runtime → Option (List α)
  | array items => items.mapM element?
  | _ => none

def bound? : Runtime → Option Double
  | undefined => none
  | number value => some value
  | _ => some .nan

end Runtime

structure RuntimeFilter where
  kind : Runtime
  values : Runtime
  from? : Runtime
  to? : Runtime
  text : Runtime

def quoted (value : Units) : Units := Utf16.encode "\"" ++ value ++ Utf16.encode "\""

def unknownFilter (filter : RuntimeFilter) : SessionQueryError :=
  invalidFilter (Utf16.encode "unknown filter kind " ++
    match filter.kind with
    | .string kind => quoted kind
    | _ => Utf16.encode "(missing)")

def copyStrings (name : String) (values : Runtime) : Except SessionQueryError (List Units) :=
  match values.elements? Runtime.string? with
  | some values => .ok values
  | none =>
    .error (invalidFilter (Utf16.encode (name ++ " filter values must be an array of strings")))

def copyNullableStrings (name : String) (values : Runtime) :
    Except SessionQueryError (List (Option Units)) :=
  match values.elements? Runtime.nullable? with
  | some values => .ok values
  | none =>
    .error (invalidFilter
      (Utf16.encode (name ++ " filter values must be an array of strings or null")))

/-- The values of an enumeration, the first one that it does not have refused. -/
def assertAllowedValues {α : Type} (name : String) (named : Units → Option α)
    (values : List Units) : Except SessionQueryError (List α) :=
  values.mapM fun value =>
    match named value with
    | some member => .ok member
    | none =>
      .error (invalidFilter (Utf16.encode (name ++ " filter contains unknown value ") ++ quoted value))

def finite? : Option Double → Bool
  | some bound => bound.isFinite
  | none => true

def validateRange (name : String) (range : SessionResultRange) :
    Except SessionQueryError SessionResultRange :=
  if !finite? range.from? then .error (invalidRange name "from must be finite")
  else if !finite? range.to? then .error (invalidRange name "to must be finite")
  else match range.from?, range.to? with
    | some lower, some upper =>
      if lower.le upper then .ok range
      else .error (invalidRange name "from must be less than or equal to to")
    | _, _ => .ok range

def copyRange (kind : String) (filter : RuntimeFilter) :
    Except SessionQueryError SessionResultRange :=
  validateRange kind ⟨filter.from?.bound?, filter.to?.bound?⟩

def matchesRange (value : Int) (range : SessionResultRange) : Bool :=
  (match range.from? with
    | some lower => lower.le (.finite value)
    | none => true) &&
  match range.to? with
    | some upper => (Double.finite value).le upper
    | none => true

def materializeSessionResultFilter (filter : RuntimeFilter) :
    Except SessionQueryError SessionResultFilter :=
  match filter.kind.name? with
  | some "id" => .id <$> copyStrings "id" filter.values
  | some "cwd" => .cwd <$> copyNullableStrings "cwd" filter.values
  | some "created-at" => .createdAt <$> copyRange "created-at" filter
  | some "parent" => .parent <$> copyNullableStrings "parent" filter.values
  | some "availability" => do
    let values ← copyStrings "availability" filter.values
    .availability <$> assertAllowedValues "availability" SessionAvailability.named values
  | _ => .error (unknownFilter filter)

def assertArray (filters : Option (List RuntimeFilter)) :
    Except SessionQueryError (List RuntimeFilter) :=
  match filters with
  | some filters => .ok filters
  | none => .error (invalidFilter (Utf16.encode "filters must be an array"))

def materializeSessionResultFilters (filters : Option (List RuntimeFilter)) :
    Except SessionQueryError (List SessionResultFilter) := do
  let filters ← assertArray filters
  filters.mapM materializeSessionResultFilter

inductive SessionEventResultFilter
  | metadata (filter : SessionEventMetadataFilter)
  | text (text : Units)
  deriving DecidableEq

def materializeSessionEventResultFilter (filter : RuntimeFilter) :
    Except SessionQueryError SessionEventResultFilter :=
  match filter.kind.name? with
  | some "seq" => (fun range => .metadata (.seq range)) <$> copyRange "seq" filter
  | some "time" => (fun range => .metadata (.time range)) <$> copyRange "time" filter
  | some "type" => (fun values => .metadata (.type values)) <$> copyStrings "type" filter.values
  | some "surface" => do
    let values ← copyStrings "surface" filter.values
    (fun values => .metadata (.surface values)) <$>
      assertAllowedValues "surface" SessionEventSurface.named values
  | some "text" =>
    match filter.text with
    | .string text => .ok (.text text)
    | _ => .error (invalidFilter (Utf16.encode "text filter text must be a string"))
  | _ => .error (unknownFilter filter)

def materializeSessionEventResultFilters (filters : Option (List RuntimeFilter)) :
    Except SessionQueryError (List SessionEventResultFilter) := do
  let filters ← assertArray filters
  filters.mapM materializeSessionEventResultFilter

def sessionPredicate : SessionResultFilter → Except SessionQueryError (SessionRecord → Bool)
  | .id values => .ok fun record => values.contains record.header.id
  | .cwd values => .ok fun record => values.contains record.header.cwd
  | .createdAt range => do
    let range ← validateRange "created-at" range
    return fun record => matchesRange record.header.createdAt range
  | .parent values => .ok fun record => values.contains record.header.parentSession
  | .availability values => .ok fun record => values.any fun value =>
    if value = .live then record.live else record.persisted

/-- The predicate of a clause, text clauses by the matcher that their text compiles to. -/
def eventPredicate
    (compileSessionTextFilter : Units → Except SessionQueryError (Units → Bool)) :
    SessionEventResultFilter → Except SessionQueryError (SessionEventSearchDocument → Bool)
  | .metadata (.seq range) => do
    let range ← validateRange "seq" range
    return fun document => matchesRange document.seq range
  | .metadata (.time range) => do
    let range ← validateRange "time" range
    return fun document => matchesRange document.time range
  | .metadata (.type values) => .ok fun document => values.contains document.type
  | .metadata (.surface values) => .ok fun document => values.contains document.surface
  | .text text => do
    let pattern ← compileSessionTextFilter text
    return fun document => pattern document.text

def filterSessionResults (records : List SessionRecord) (filters : List SessionResultFilter) :
    Except SessionQueryError (List SessionRecord) := do
  let predicates ← filters.mapM sessionPredicate
  return records.filter fun record => predicates.all fun predicate => predicate record

def filterSessionEventDocuments
    (compileSessionTextFilter : Units → Except SessionQueryError (Units → Bool))
    (documents : List SessionEventSearchDocument) (filters : List SessionEventResultFilter) :
    Except SessionQueryError (List SessionEventSearchDocument) := do
  let predicates ← filters.mapM (eventPredicate compileSessionTextFilter)
  return documents.filter fun document => predicates.all fun predicate => predicate document

end Harness.SessionQuery
