import Harness.Foundation.JsonDecimal
import Harness.Foundation.OrderedMap

namespace Harness.Redaction

open Harness.Foundation

inductive Atom
  | null
  | bool (b : Bool)
  | number (n : JsonNumber)
  | string (s : String)
  | function (name : String)

inductive JsValue
  | undefined
  | atom (a : Atom)
  | array (items : List JsValue)
  | record (entries : List (String × JsValue))
  | objectPrototype

def secretRole : String := "secret"

/-- A live schema as far as the walk follows it; what has no element schema has a leaf. -/
inductive SchemaNode
  | leaf (role : Option String)
  | object (role : Option String) (properties : List (String × SchemaNode))
  | dict (role : Option String) (inner : SchemaNode)
  | array (role : Option String) (inner : SchemaNode)

structure RedactedSecret where
  path : List String
  set : Bool
  deriving DecidableEq

def SchemaNode.role : SchemaNode → Option String
  | leaf role => role
  | object role _ => role
  | dict role _ => role
  | array role _ => role

def SchemaNode.IsSecret (node : SchemaNode) : Prop := node.role = some secretRole

instance (node : SchemaNode) : Decidable node.IsSecret :=
  inferInstanceAs (Decidable (node.role = some secretRole))

def proto : String := "__proto__"

def objectMembers : List String :=
  ["constructor", "__defineGetter__", "__defineSetter__", "hasOwnProperty", "__lookupGetter__",
    "__lookupSetter__", "isPrototypeOf", "propertyIsEnumerable", "toString", "valueOf", proto,
    "toLocaleString"]

namespace JsValue

def isUndefined : JsValue → Bool
  | undefined => true
  | _ => false

def entries? : JsValue → Option (List (String × JsValue))
  | record entries => some entries
  | objectPrototype => some []
  | _ => none

def inherited (key : String) : JsValue :=
  if key = proto then objectPrototype
  else if key ∈ objectMembers then atom (.function key)
  else undefined

def property (value : JsValue) (key : String) : JsValue :=
  match value with
  | record entries => (entries.lookup key).getD (inherited key)
  | objectPrototype => if key = proto then atom .null else inherited key
  | _ => undefined

end JsValue

/-- `key in properties`. -/
def inProperties (properties : List (String × SchemaNode)) (key : String) : Bool :=
  key ∈ properties.map Prod.fst ∨ key ∈ objectMembers

abbrev Rebuilt := OrderedMap String JsValue

namespace Rebuilt

/-- `rebuilt[key] = entry`: one key sets what the object inherits from, and no entry. -/
def assign (rebuilt : Rebuilt) (key : String) (entry : JsValue) : Rebuilt :=
  if key = proto then rebuilt else rebuilt.set key entry

def keep (rebuilt : Rebuilt) (key : String) (stripped : JsValue) : Rebuilt :=
  if stripped.isUndefined then rebuilt else rebuilt.assign key stripped

end Rebuilt

def copyUndeclared (properties : List (String × SchemaNode)) (entries : List (String × JsValue)) :
    Rebuilt :=
  entries.foldl (fun rebuilt entry =>
    if inProperties properties entry.1 then rebuilt else rebuilt.assign entry.1 entry.2)
    OrderedMap.empty

abbrev Walk (α : Type) := α × List RedactedSecret

def walkEntries (walkInner : JsValue → List String → Walk JsValue) (path : List String) :
    Rebuilt → List (String × JsValue) → Walk Rebuilt
  | rebuilt, [] => (rebuilt, [])
  | rebuilt, (key, entry) :: rest =>
    let (stripped, secrets) := walkInner entry (path ++ [key])
    let (rebuilt, more) := walkEntries walkInner path (rebuilt.keep key stripped) rest
    (rebuilt, secrets ++ more)

def walkItems (walkInner : JsValue → List String → Walk JsValue) (path : List String) :
    Nat → List JsValue → Walk (List JsValue)
  | _, [] => ([], [])
  | index, item :: rest =>
    let (stripped, secrets) := walkInner item (path ++ [toString index])
    let (items, more) := walkItems walkInner path (index + 1) rest
    (stripped :: items, secrets ++ more)

mutual

def walk : SchemaNode → JsValue → List String → Walk JsValue
  | .leaf role, value, path =>
    if role = some secretRole then (.undefined, [⟨path, !value.isUndefined⟩]) else (value, [])
  | .object role properties, value, path =>
    if role = some secretRole then (.undefined, [⟨path, !value.isUndefined⟩])
    else
      let copied := copyUndeclared properties (value.entries?.getD [])
      let (rebuilt, secrets) := walkProperties properties value path copied
      if value.entries?.isNone ∧ rebuilt.entries = [] then (value, secrets)
      else (.record rebuilt.entries, secrets)
  | .dict role inner, value, path =>
    if role = some secretRole then (.undefined, [⟨path, !value.isUndefined⟩])
    else
      match value.entries? with
      | none => (value, [])
      | some entries =>
        let (rebuilt, secrets) := walkEntries (walk inner) path OrderedMap.empty entries
        (.record rebuilt.entries, secrets)
  | .array role inner, value, path =>
    if role = some secretRole then (.undefined, [⟨path, !value.isUndefined⟩])
    else
      match value with
      | .array items =>
        let (items, secrets) := walkItems (walk inner) path 0 items
        (.array items, secrets)
      | _ => (value, [])

def walkProperties : List (String × SchemaNode) → JsValue → List String → Rebuilt → Walk Rebuilt
  | [], _, _, rebuilt => (rebuilt, [])
  | (key, child) :: rest, source, path, rebuilt =>
    let (stripped, secrets) := walk child (source.property key) (path ++ [key])
    let (rebuilt, more) := walkProperties rest source path (rebuilt.keep key stripped)
    (rebuilt, secrets ++ more)

end

structure RedactedValue where
  value : JsValue
  secrets : List RedactedSecret

def redactSecrets (schema : SchemaNode) (value : JsValue) : RedactedValue :=
  let (stripped, secrets) := walk schema value []
  ⟨stripped, secrets⟩

end Harness.Redaction
