import OpenApiDoc.Copy
import OpenApiDoc.Validation

/-! # Schema nodes

A node is a fragment of a schema together with a flag that says whether it is optional. The flag
only decides what an enclosing object or parameter requires; it is no part of the emitted schema.

* A node owns its fragment: `Node.own` copies every value that goes into it.
* `Node.emit` is the schema a value stands for: a copy of a node's fragment, or a copy of a plain
  mapping with the nodes inside it emitted.
* `Node.merge` lays further entries over the fragment and gives a new node. -/

namespace OpenApiDoc.Node

/-- A fragment of its own for a new node. -/
def own (fields : List (String × Value)) : Build Addr := do
  let parts ← fields.mapM fun f => do return (Value.str f.1, ← f.2.plain)
  Build.new (.mapping parts)

/-- A node from the named arguments it was given. Its fragment is copied as soon as it is checked.
-/
def ofFields (given : List (String × Value)) : Build Value := do
  let w ← get
  let fields :=
    Field.required given "fragment" (given.lookup "fragment") (Field.mapping w Field.any)
  let flag := Field.defaulted "is_optional" (given.lookup "is_optional") false Field.bool
  let (fragment, optional) ← (Checked.both (← fields.after own) flag).require .node
  return .obj (← Build.new (.node fragment optional))

/-- A node from the entries of its fragment. -/
def ofEntries (es : Entries) (optional : Bool) : Build Value := do
  ofFields [("fragment", ← Build.newMapping es), ("is_optional", .bool optional)]

/-- The fragment and the flag of a node. -/
def parts? (w : World) : Value → Option (Addr × Bool)
  | .obj a => match w.get a with
    | .node f o => some (f, o)
    | _ => none
  | .atom _ => none

/-- The value is a node that is optional; plain mappings are required. -/
def isOptional (w : World) (v : Value) : Bool := ((parts? w v).map (·.2)).getD false

/-- A fresh copy of a fragment. -/
def schema (fragment : Addr) : Build Value := return .obj (← Build.copyObject fragment)

/-- The schema that a value stands for. -/
def emit (v : Value) : Build Value := do
  match parts? (← get) v with
  | some (f, _) => schema f
  | none =>
    let es ← v.entries
    Build.newMapping (← es.mapM fun e => do return (e.1, ← e.2.plain))

/-- A copy of a node with the flag set. -/
def withFlag (v : Value) (optional : Bool) : Build Value := do
  match v, parts? (← get) v with
  | .obj a, some (f, _) => return .obj (← Build.copyNode a f optional)
  | _, _ => Build.refuse (.notANode v true)

/-- A node with further entries laid over its fragment; without any, the node itself. -/
def merge (v extra : Value) : Build Value := do
  match parts? (← get) v with
  | none => Build.lack v "merge"
  | some (f, optional) =>
    if (← get).isEmpty extra then return v
    else
      let es ← (Value.obj f).further
      let further ← extra.further
      ofEntries (Entries.overlay (← get).sameKey es further) optional

/-- A copy of a node that accepts nothing as well; the flag is kept. -/
def nullable (v : Value) : Build Value := do
  match parts? (← get) v with
  | none => Build.refuse (.notANode v false)
  | some _ => merge v (← Build.newMapping (Entries.named [("nullable", .bool true)]))

end OpenApiDoc.Node
