import OpenApiDoc.Schema.Node

/-! # Schema constructors

Each constructor lists the fields it generates in a fixed order. `Schema.node` drops the fields that
have no value and lays `extra` over the others: a field that `extra` names takes its value and keeps
its place, and a new one goes to the end.

* The leaves have a type and, for texts of a special form, a format.
* `Schema.choice` lists its values and describes each on a line of its own.
* `Schema.array` and `Schema.object` embed the emitted schemas of their parts; an object requires
  every property that is not optional. -/

namespace OpenApiDoc.Schema

/-- A node from generated fields and the entries laid over them. -/
def node (fields : List (String × Value)) (extra : Value) : Build Value := do
  let generated := Entries.named (fields.filter fun f => !f.2.isNone)
  let further ← extra.furtherOrEmpty
  Node.ofEntries (Entries.overlay (← get).sameKey generated further) false

/-- A text that may be absent. -/
def textOrNone (s : Option String) : Value := s.elim .none .str

/-- A leaf of the given type and format. -/
def leaf (type : String) (format : Option String) (description extra : Value) : Build Value :=
  node [("type", .str type), ("format", textOrNone format), ("description", description)] extra

/-- The name of the type of an atom that has one in a schema. -/
def typeOf : Value → Option String
  | .bool _ => some "boolean"
  | .int _ => some "integer"
  | .float _ => some "number"
  | .str _ => some "string"
  | _ => none

/-- A text that matches a regular expression, given by its source or compiled. -/
def pattern (regex description extra : Value) : Build Value :=
  let ofSource (source : String) := node
    [("type", .str "string"), ("description", description), ("pattern", .str source)] extra
  match regex with
  | .atom (.pattern source) => ofSource source
  | .str source => ofSource source
  | _ => Build.refuse (.notAPattern regex)

/-- Exactly one value. -/
def constant (value description extra : Value) : Build Value := do
  node [("type", textOrNone (typeOf value)), ("description", description),
    ("enum", ← Build.newList [value])] extra

/-- The type that all keys have. -/
def commonType (keys : List Value) : Option String :=
  match keys with
  | [] => none
  | k :: rest => if rest.all fun l => typeOf l == typeOf k then typeOf k else none

/-- The line that describes one value of a choice. -/
def choiceLine (w : World) (e : Value × Value) : String :=
  "* \x60" ++ w.text e.1 ++ "\x60 - " ++ w.text e.2

/-- One of several values, each with its meaning. -/
def choice (values extra : Value) : Build Value := do
  if (← get).isEmpty values then Build.refuse .emptyChoice
  let keys ← values.iterate
  let es ← values.items
  let w ← get
  node [("type", textOrNone (commonType keys)),
    ("description", .str ("\n".intercalate (es.map (choiceLine w)))),
    ("enum", ← Build.newList keys)] extra

/-- Where the schemas of components stand. -/
def componentSchemas : String := "#/components/schemas/"

/-- The pointer a reference emits: a name alone stands for a component. -/
def pointer (target : String) : String :=
  if target.startsWith "#" || target.contains '/' then target else componentSchemas ++ target

/-- A reference; it is emitted and never followed. -/
def ref (target : Value) : Build Value := do
  match target with
  | .str s => Node.ofEntries (Entries.named [("$ref", .str (pointer s))]) false
  | .bytes _ => Build.fail .wrongBeginning
  | _ => Build.lack target "startswith"

/-- A list of items of one schema; whether the items are optional has no effect. -/
def array (items description extra : Value) : Build Value := do
  node [("type", .str "array"), ("description", description), ("items", ← Node.emit items)] extra

/-- The emitted properties, and the names of those that are not optional. -/
def properties (children : Entries) : Build (Entries × List Value) := do
  children.foldlM (fun (acc : Entries × List Value) child => do
    match child.1 with
    | .str _ =>
      let schema ← Node.emit child.2
      let needed := !Node.isOptional (← get) child.2
      return (acc.1 ++ [(child.1, schema)], if needed then acc.2 ++ [child.1] else acc.2)
    | key => Build.refuse (.propertyName key)) ([], [])

/-- A closed object. The names of the required properties are listed unless there are none. -/
def object (children description extra : Value) : Build Value := do
  let (emitted, names) ← properties (← children.items)
  let needed ← if names.isEmpty then pure Value.none else Build.newList names
  node [("type", .str "object"), ("additionalProperties", .bool false), ("required", needed),
    ("properties", ← Build.newMapping emitted), ("description", description)] extra

end OpenApiDoc.Schema
