import Harness.Foundation.JsonData

namespace Harness.JsonBoundary

open Harness.Foundation

abbrev Ref := Nat

abbrev FiniteDouble := { q : ℚ // Double.Representable q }

inductive JsNumber
  | finite (n : FiniteDouble)
  | negativeZero
  | nan
  | infinite (negative : Bool)
  deriving DecidableEq

inductive Value
  | undefined
  | null
  | bool (b : Bool)
  | number (n : JsNumber)
  | bigint (n : Int)
  | string (s : Units)
  | symbol (id : Nat)
  | object (ref : Ref)
  deriving DecidableEq

inductive Key
  | string (s : Units)
  | symbol (id : Nat)
  deriving DecidableEq

structure Property where
  key : Key
  enumerable : Bool
  value : Value
  deriving DecidableEq

/-- What `JSON.stringify` looks at in an object before its properties: the value of a `Boolean`, `Number`
or `BigInt` object, and that `JSON.rawJSON` made it. A `String` object is a record here, one whose own
`length` is not enumerable. -/
inductive InternalSlot
  | boolean (b : Bool)
  | number (n : JsNumber)
  | bigint (n : Int)
  | raw
  deriving DecidableEq

/-- A function has its source text, and what its `name` and its `prototype` read. -/
inductive Kind
  | array (length : Nat)
  | record
  | slotted (slot : InternalSlot)
  | function (text : Units) (name : Value) (prototype : Value)
  deriving DecidableEq

structure Node where
  kind : Kind
  prototype : Option Ref
  properties : List Property
  deriving DecidableEq

namespace Node

variable (node : Node)

def keys : List Key := node.properties.map Property.key

def ownKeys : List Key :=
  match node.kind with
  | .array _ => node.keys ++ [.string (Utf16.encode "length")]
  | _ => node.keys

def getOwn (key : Units) : Option Property :=
  node.properties.find? fun property => property.key = .string key

def read (key : Units) : Value := ((node.getOwn key).map Property.value).getD .undefined

end Node

/-- The order of own keys: strings, and then symbols as they came. -/
def comesBefore : Key → Key → Bool
  | .string a, .string b => keyBefore a b
  | .string _, .symbol _ => true
  | .symbol _, .string _ => false
  | .symbol _, .symbol _ => true

def Value.Within (size : Nat) : Value → Prop
  | .object ref => ref < size
  | _ => True

/-- What `JSON.rawJSON` makes is frozen, and its text is not that of an object. -/
def Node.IsRaw (node : Node) : Prop :=
  node.prototype = none ∧ ∃ text, node.properties =
    [⟨.string (Utf16.encode "rawJSON"), true, .string text⟩] ∧
      ∀ s fields, text = Utf16.encode s → JsonData.parse s ≠ some (.object fields)

/-- A value in a heap of data properties, and the prototypes of the objects made beside it. -/
structure Graph where
  nodes : List Node
  root : Value
  objectPrototype : Ref
  arrayPrototype : Ref
  closed : ∀ node ∈ nodes, ∀ property ∈ node.properties, property.value.Within nodes.length
  rooted : root.Within nodes.length
  distinct : ∀ node ∈ nodes, node.ownKeys.Nodup
  ordered : ∀ node ∈ nodes, node.keys.Pairwise fun a b => comesBefore a b = true
  raw : ∀ node ∈ nodes, node.kind = .slotted .raw → node.IsRaw

namespace Graph

variable (graph : Graph)

def hasIntrinsicConstructor (prototype : Ref) (name : String) : Bool :=
  match (graph.nodes[prototype]?).bind fun node =>
      node.getOwn (Utf16.encode "constructor") with
  | none => false
  | some descriptor =>
    match descriptor.value with
    | .object constructor =>
      match (graph.nodes[constructor]?).map Node.kind with
      | some (.function text constructorName constructorPrototype) =>
        constructorName == .string (Utf16.encode name) && constructorPrototype == .object prototype
          && text == Utf16.encode s!"function {name}() \x7b [native code] \x7d"
      | _ => false
    | _ => false

def isObject (ref : Ref) : Bool :=
  match (graph.nodes[ref]?).map Node.kind with
  | some (.function _ _ _) => false
  | some _ => true
  | none => false

def isArray (ref : Ref) : Bool :=
  match (graph.nodes[ref]?).map Node.kind with
  | some (.array _) => true
  | _ => false

def prototypeOf (ref : Ref) : Option Ref := (graph.nodes[ref]?).bind Node.prototype

def isIntrinsicObjectPrototype (ref : Ref) : Bool :=
  graph.prototypeOf ref == none && graph.hasIntrinsicConstructor ref "Object"

def hasPlainArrayPrototype (node : Node) : Bool :=
  match node.prototype with
  | none => false
  | some prototype =>
    graph.isArray prototype && graph.hasIntrinsicConstructor prototype "Array"
      && match graph.prototypeOf prototype with
        | none => false
        | some objectPrototype =>
          graph.isObject objectPrototype && graph.isIntrinsicObjectPrototype objectPrototype

def hasPlainObjectPrototype (node : Node) : Bool :=
  match node.prototype with
  | none => true
  | some prototype => graph.isObject prototype && graph.isIntrinsicObjectPrototype prototype

end Graph

def stringKey : Key → Option Units
  | .string s => some s
  | .symbol _ => none

def enumerableStringKeys (node : Node) : Option (List Units) :=
  if node.properties.all fun property => property.enumerable && (stringKey property.key).isSome then
    some (node.properties.filterMap fun property => stringKey property.key)
  else none

inductive Destination
  | root
  | array (target : Ref) (index : Nat)
  | object (target : Ref) (key : Units)
  deriving DecidableEq

inductive Task
  | visit (value : Value) (destination : Option Destination)
  | arrayItem (source : Ref) (index : Nat) (target : Option Ref)
  | objectProperty (source : Ref) (key : Units) (target : Option Ref)
  | leave (source : Ref)
  deriving DecidableEq

def defineOwn (properties : List Property) (key : Units) (value : Value) : List Property :=
  let property : Property := { key := .string key, enumerable := true, value }
  if properties.any fun other => other.key = .string key then
    properties.map fun other => if other.key = .string key then property else other
  else
    properties.takeWhile (fun other => comesBefore other.key property.key) ++
      property :: properties.dropWhile fun other => comesBefore other.key property.key

def Destination.put (item : Value) : Destination → Node → Node
  | .root, node => node
  | .array _ index, node =>
    { node with
      kind :=
        match node.kind with
        | .array length => .array (max length (index + 1))
        | kind => kind
      properties := defineOwn node.properties (indexKey index) item }
  | .object _ key, node => { node with properties := defineOwn node.properties key item }

/-- The stack has its top first; the targets made so far have the places after the heap. -/
structure Walk where
  tasks : List Task
  ancestors : List Ref
  root : Option Value
  targets : List Node
  deriving DecidableEq

namespace Walk

variable (graph : Graph) (walk : Walk)

def push (task : Task) : Walk := { walk with tasks := task :: walk.tasks }

def assign (destination : Option Destination) (item : Value) : Walk :=
  match destination with
  | none => walk
  | some .root => { walk with root := some item }
  | some (.array target index) =>
    { walk with
      targets := walk.targets.modify (target - graph.nodes.length)
        (Destination.put item (.array target index)) }
  | some (.object target key) =>
    { walk with
      targets := walk.targets.modify (target - graph.nodes.length)
        (Destination.put item (.object target key)) }

def nextRef : Ref := graph.nodes.length + walk.targets.length

/-- A container is entered: its copy is assigned before its children are, and it is left after
them. -/
def enter (detach : Bool) (source : Ref) (destination : Option Destination) (copy : Node)
    (children : Option Ref → List Task) : Walk :=
  let target := if detach then some (walk.nextRef graph) else none
  let copied :=
    if detach then
      { walk with targets := walk.targets ++ [copy] }.assign graph destination
        (.object (walk.nextRef graph))
    else walk
  { copied with
    ancestors := source :: walk.ancestors
    tasks := children target ++ .leave source :: walk.tasks }

def emptyArray : Node where
  kind := .array 0
  prototype := some graph.arrayPrototype
  properties := []

def emptyObject : Node where
  kind := .record
  prototype := some graph.objectPrototype
  properties := []

def visitObject (detach : Bool) (current : Ref) (destination : Option Destination) : Option Walk :=
  match graph.nodes[current]? with
  | none => none
  | some node =>
    match node.kind with
    | .function _ _ _ => none
    | .array length =>
      if current ∈ walk.ancestors then none
      else if !graph.hasPlainArrayPrototype node then none
      else if node.ownKeys.length ≠ length + 1 then none
      else
        some (walk.enter graph detach current destination (emptyArray graph) fun target =>
          (List.range length).map fun index => .arrayItem current index target)
    | .record | .slotted _ =>
      if current ∈ walk.ancestors then none
      else if !graph.hasPlainObjectPrototype node then none
      else
        match enumerableStringKeys node with
        | none => none
        | some keys =>
          some (walk.enter graph detach current destination (emptyObject graph) fun target =>
            keys.map fun key => .objectProperty current key target)

def visit (detach : Bool) (current : Value) (destination : Option Destination) : Option Walk :=
  match current with
  | .null => some (walk.assign graph destination .null)
  | .bool b => some (walk.assign graph destination (.bool b))
  | .string s => some (walk.assign graph destination (.string s))
  | .number n =>
    match n with
    | .finite m => some (walk.assign graph destination (.number (.finite m)))
    | _ => none
  | .object ref => walk.visitObject graph detach ref destination
  | _ => none

/-- What becomes of the walk that a task was taken from; `none` when the value is rejected. -/
def step (detach : Bool) : Task → Option Walk
  | .leave source => some { walk with ancestors := walk.ancestors.filter (· ≠ source) }
  | .arrayItem source index target =>
    match (graph.nodes[source]?).bind fun node => node.getOwn (indexKey index) with
    | none => none
    | some property =>
      some (walk.push (.visit property.value (target.map fun target => .array target index)))
  | .objectProperty source key target =>
    let value := ((graph.nodes[source]?).map fun node => node.read key).getD .undefined
    some (walk.push (.visit value (target.map fun target => .object target key)))
  | .visit current destination => walk.visit graph detach current destination

def start (detach : Bool) : Walk where
  tasks := [.visit graph.root (if detach then some .root else none)]
  ancestors := []
  root := none
  targets := []

end Walk

inductive WalkResult
  | rejected
  | accepted (root : Option Value) (targets : List Node)
  deriving DecidableEq

def walkFrom (graph : Graph) (detach : Bool) : Nat → Walk → Option WalkResult
  | 0, _ => none
  | fuel + 1, walk =>
    match walk.tasks with
    | [] => some (.accepted walk.root walk.targets)
    | task :: tasks =>
      match { walk with tasks }.step graph detach task with
      | none => some .rejected
      | some next => walkFrom graph detach fuel next

def walkJsonValue (graph : Graph) (detach : Bool) (fuel : Nat) : Option WalkResult :=
  walkFrom graph detach fuel (.start graph detach)

structure Snapshot where
  root : Value
  nodes : List Node
  deriving DecidableEq

def snapshotJsonValue (graph : Graph) (fuel : Nat) : Option (Option Snapshot) :=
  (walkJsonValue graph true fuel).map fun
    | .rejected => none
    | .accepted root nodes => root.map fun root => { root, nodes }

def isJsonValue (graph : Graph) (fuel : Nat) : Option Bool :=
  (walkJsonValue graph false fuel).map fun
    | .rejected => false
    | .accepted _ _ => true

end Harness.JsonBoundary
