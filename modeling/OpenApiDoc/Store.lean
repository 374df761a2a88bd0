import OpenApiDoc.Builder.Expr

/-! # The object store

Objects live in a store and are reached by their addresses, so that sharing and later writes can be
spoken of.

* `World` holds the objects, the log, a counter that tells the atoms apart that are not numbers, the
  modules that were imported by their names, and attributes that were set on objects.
* `World.get` reads an object; an address outside the store reads as the empty tuple, which nothing
  can write to.
* `World.alloc` adds an object at a new address, `World.set` replaces one.
* `World.tree` is the finite view of a value. -/

namespace OpenApiDoc

/-- A method bound to a URL template, with the fields of its description. -/
structure Operation where
  method : String
  path : String
  responses : Addr
  operationId : Option String
  summary : Option String
  tags : Option Addr
  parameters : Option Addr
  requestBody : Option Addr
  extra : Addr
deriving DecidableEq, Repr

/-- The names of a module with what they are bound to. -/
abbrev Names := List (String × Value)

/-- What an address holds. -/
inductive Object where
  | mapping (entries : List (Value × Value))
  | list (items : List Value)
  | tuple (items : List Value)
  | moment (m : Moment)
  | node (fragment : Addr) (optional : Bool)
  | operation (op : Operation)
  | constructor (c : Constructor)
  /-- A function without arguments, whose body is evaluated among the names of a module. -/
  | builder (home : Addr) (body : Expr)
  | module (names : Names)
  /-- What the import of a module leaves in it. Only the name of its type is known, and what a loop
  over it meets. -/
  | machinery (type : String) (parts : Option (List Value))

namespace Operation

/-- A text that may be absent, as a value. -/
def optionalText (s : Option String) : Value := s.elim .none .str

/-- A collection that may be absent, as a value. -/
def optionalObject (a : Option Addr) : Value := a.elim .none .obj

/-- The fields by name, in the order of their declaration. -/
def fields (op : Operation) : List (String × Value) :=
  [("method", .str op.method), ("path", .str op.path), ("responses", .obj op.responses),
   ("operation_id", optionalText op.operationId), ("summary", optionalText op.summary),
   ("tags", optionalObject op.tags), ("parameters", optionalObject op.parameters),
   ("request_body", optionalObject op.requestBody), ("extra", .obj op.extra)]

end Operation

namespace Object

def bracket : Object → Bracket
  | .mapping _ => .mapping
  | .list _ => .list
  | .tuple _ => .tuple
  | _ => .record

/-- The name of an object's type in messages. -/
def typeName : Object → String
  | .mapping _ => "dict"
  | .list _ => "list"
  | .tuple _ => "tuple"
  | .moment (.date _) => "date"
  | .moment (.dateTime _ _) => "datetime"
  | .node _ _ => Model.node.name
  | .operation _ => Model.operation.name
  | .constructor c => (Sealed.constructor c.name).typeName
  | .builder _ _ => Sealed.builder.typeName
  | .module _ => Sealed.module.typeName
  | .machinery type _ => type

/-- The name of an object's type with the module that it is from. -/
def typePath : Object → String
  | .moment m => "datetime." ++ (Object.moment m).typeName
  | o => o.typeName

/-- The fields of a node by name. -/
def nodeFields (fragment : Addr) (optional : Bool) : List (String × Value) :=
  [("fragment", .obj fragment), ("is_optional", .bool optional)]

/-- The fields of a record by name. -/
def fields? : Object → Option (List (String × Value))
  | .node f o => some (nodeFields f o)
  | .operation op => some op.fields
  | _ => none

end Object

/-- The objects, the log, the number of evaluations that gave no number, the modules that were
imported by their names, and the attributes that were set on objects. -/
structure World where
  objects : Array Object
  log : List String
  nans : Nat
  imported : List (String × Addr)
  attributes : List ((Addr × String) × Value)

namespace World

/-- The constructors stand at fixed addresses, in the order of `Constructor.all`. -/
def initial : World where
  objects := (Constructor.all.map Object.constructor).toArray
  log := []
  nans := 0
  imported := []
  attributes := []

def get (w : World) (a : Addr) : Object := (w.objects[a]?).getD (.tuple [])

/-- The attributes that were set on an object. -/
def attributesOf (w : World) (a : Addr) : List (String × Value) :=
  w.attributes.filterMap fun e => if e.1.1 = a then some (e.1.2, e.2) else none

def alloc (w : World) (o : Object) : Addr × World :=
  (w.objects.size, { w with objects := w.objects.push o })

def set (w : World) (a : Addr) (o : Object) : World :=
  { w with objects := w.objects.setIfInBounds a o }

@[simp] theorem get_alloc_same (w : World) (o : Object) : (w.alloc o).2.get (w.alloc o).1 = o := by
  simp [alloc, get]

theorem get_alloc_of_lt (w : World) (o : Object) {a : Addr} (h : a < w.objects.size) :
    (w.alloc o).2.get a = w.get a := by
  simp [alloc, get, Array.getElem?_push, Nat.ne_of_lt h]

theorem get_set_of_ne (w : World) (o : Object) {a b : Addr} (h : a ≠ b) :
    (w.set a o).get b = w.get b := by
  simp [set, get, h]

theorem get_set_same (w : World) (o : Object) {a : Addr} (h : a < w.objects.size) :
    (w.set a o).get a = o := by
  simp [set, get, h]

/-- The name that a constructor goes by: its own, or one that was set. -/
def constructorName (w : World) (a : Addr) (c : Constructor) : Value :=
  ((w.attributesOf a).lookup "__name__").getD (.str c.name)

/-- The finite view of a value; `path` holds the collections being looked at. A record is looked at
again wherever it occurs: only a collection is cut off inside itself. -/
def unfold (w : World) : Nat → List Addr → Value → Tree
  | _, _, .atom a => .atom a
  | 0, _, .obj a => .cycle (w.get a).bracket
  | fuel + 1, path, .obj a =>
    if path.contains a then .cycle (w.get a).bracket
    else
      let part := w.unfold fuel (a :: path)
      let field := w.unfold fuel path
      match w.get a with
      | .mapping es => .mapping (es.map fun e => (part e.1, part e.2))
      | .list xs => .list (xs.map part)
      | .tuple xs => .tuple (xs.map part)
      | .moment m => .moment m
      | .node f o => .model .node ((Object.nodeFields f o).map fun e => (e.1, field e.2))
      | .operation op => .model .operation (op.fields.map fun e => (e.1, field e.2))
      | .constructor c => .sealed (.constructor (field (w.constructorName a c)).text) a
      | .builder _ _ => .sealed .builder a
      | .module _ => .sealed .module a
      | .machinery type _ => .sealed (.machinery type) a

/-- A depth that no view exceeds: a path meets each collection once, and between two collections
every other object at most once, unless a name is its own. -/
def viewDepth (w : World) : Nat := (w.objects.size + 1) * (w.objects.size + 1) + 1

/-- The finite view of a value. -/
def tree (w : World) (v : Value) : Tree := w.unfold w.viewDepth [] v

@[simp] theorem tree_atom (w : World) (a : Atom) : w.tree (.atom a) = .atom a := by
  simp [tree, unfold]

def typeName (w : World) : Value → String
  | .atom a => a.typeName
  | .obj a => (w.get a).typeName

/-- The name of a value's type with the module that it is from. -/
def typePath (w : World) : Value → String
  | .atom a => a.typePath
  | .obj a => (w.get a).typePath

def shown (w : World) (v : Value) : String := (w.tree v).shown

def text (w : World) (v : Value) : String := (w.tree v).text

/-- Two values are the same key of a mapping. -/
def sameKey (w : World) (k l : Value) : Bool := (w.tree k).same (w.tree l)

@[simp] theorem sameKey_str (w : World) (s t : String) :
    w.sameKey (.str s) (.str t) = decide (s = t) := by
  simp [sameKey, Tree.same]

/-- The name of the type of the first part of a value that cannot be in a key of a mapping. -/
def unhashable? (w : World) (v : Value) : Option String := (w.tree v).unhashable?

/-- An atom that counts as absent, or an empty collection. -/
def isEmpty (w : World) : Value → Bool
  | .atom a => a.isEmpty
  | .obj a => match w.get a with
    | .mapping es => es.isEmpty
    | .list xs => xs.isEmpty
    | .tuple xs => xs.isEmpty
    | _ => false

end World
end OpenApiDoc
