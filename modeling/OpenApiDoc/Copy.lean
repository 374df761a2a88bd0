import OpenApiDoc.Mapping

/-! # Copies

There are two ways to detach a value from where it came from.

* `Copying.object` copies everything reachable from an object once: what was shared before is shared
  within the copy. The record of what has been copied is the state of `Copying`.
  A tuple whose items need no copy stays itself, and builders are never copied. Attributes that were
  set on an object are copied with it; a module cannot be copied.
* `Value.plain` copies mappings, lists and tuples at every occurrence, so nothing below them is
  shared; tuples become lists, and a schema node is replaced by a copy of its fragment. -/

namespace OpenApiDoc

/-- Copying with a record of the copies made so far. -/
abbrev Copying := StateT (List (Addr × Addr)) Build

namespace Copying

/-- Apply a copy of objects to a value. -/
def value (object : Addr → Copying Addr) : Value → Copying Value
  | .atom a => return .atom a
  | .obj a => return .obj (← object a)

def entry (object : Addr → Copying Addr) (e : Value × Value) : Copying (Value × Value) := do
  let v ← value object e.2
  let k ← value object e.1
  return (k, v)

def optional (object : Addr → Copying Addr) : Option Addr → Copying (Option Addr)
  | none => return none
  | some a => return some (← object a)

/-- Add a copy and remember what it is a copy of. -/
def begin (a : Addr) (o : Object) : Copying Addr := do
  let b ← Build.new o
  modify fun memo => (a, b) :: memo
  return b

/-- Give a copy `b` the attributes that were set on the object `a`. -/
def attributes (object : Addr → Copying Addr) (a b : Addr) : Copying Addr := do
  ((← getThe World).attributesOf a).forM fun e => do
    Build.attach b e.1 (← value object e.2)
  return b

/-- A copy of the node `a`, whose fragment is `f`. -/
def node (object : Addr → Copying Addr) (a f : Addr) (flag : Bool) : Copying Addr := do
  let b ← begin a (.node f flag)
  Build.put b (.node (← object f) flag)
  attributes object a b

/-- A copy of the operation `a`. -/
def operation (object : Addr → Copying Addr) (a : Addr) (op : Operation) : Copying Addr := do
  let b ← begin a (.operation op)
  let responses ← object op.responses
  let tags ← optional object op.tags
  let parameters ← optional object op.parameters
  let requestBody ← optional object op.requestBody
  let extra ← object op.extra
  Build.put b (.operation { op with
    responses := responses, tags := tags, parameters := parameters,
    requestBody := requestBody, extra := extra })
  attributes object a b

/-- The copy of an object. A mapping, a list or a record is remembered before its parts are copied,
so that a part may hold the whole. -/
def object : Nat → Addr → Copying Addr
  | 0, _ => throw (.misuse .tooDeep)
  | fuel + 1, a => do
    match (← get).lookup a with
    | some b => return b
    | none =>
      match ← Build.look a with
      | .mapping es =>
        let b ← begin a (.mapping [])
        let copies ← es.mapM (entry (object fuel))
        Build.put b (.mapping copies)
        return b
      | .list xs =>
        let b ← begin a (.list [])
        let copies ← xs.mapM (value (object fuel))
        Build.put b (.list copies)
        return b
      | .tuple xs =>
        let copies ← xs.mapM (value (object fuel))
        match (← get).lookup a with
        | some b => return b
        | none => if copies = xs then return a else begin a (.tuple copies)
      | .moment m => begin a (.moment m)
      | .node f o => node (object fuel) a f o
      | .operation op => operation (object fuel) a op
      | .constructor c => attributes (object fuel) a (← begin a (.constructor c))
      | .builder _ _ => return a
      | .machinery _ _ => return a
      | .module names => throw (.misuse (.notCopyable (Object.module names).typePath))

end Copying

/-- A depth that no copy exceeds: a path goes into each object that is remembered once, and between
two of them into each tuple at most once. -/
def World.copyDepth (w : World) : Nat := (w.objects.size + 1) * (w.objects.size + 1)

/-- Copy an object with everything reachable from it; sharing inside the copy is kept. -/
def Build.copyObject (a : Addr) : Build Addr := do
  let (b, _) ← (Copying.object (← get).copyDepth a).run []
  return b

/-- Copy a node with everything reachable from it, with the flag set in the copy. -/
def Build.copyNode (a f : Addr) (flag : Bool) : Build Addr := do
  let (b, _) ← (Copying.node (Copying.object (← get).copyDepth) a f flag).run []
  return b

namespace Value

/-- Copy a value with everything reachable from it; sharing inside the copy is kept. -/
def copy : Value → Build Value
  | .atom a => return .atom a
  | .obj a => return .obj (← Build.copyObject a)

/-- Copy a value as a tree: the fragment in place of each node, lists in place of tuples. -/
def plainFrom : Nat → Value → Build Value
  | _, .atom a => return .atom a
  | 0, .obj _ => Build.fail .endless
  | fuel + 1, .obj a => do
    match ← Build.look a with
    | .node f _ => return .obj (← Build.copyObject f)
    | .mapping es =>
      let parts ← es.mapM fun e => do return (e.1, ← plainFrom fuel e.2)
      Build.newMapping parts
    | .list xs => Build.newList (← xs.mapM (plainFrom fuel))
    | .tuple xs => Build.newList (← xs.mapM (plainFrom fuel))
    | _ => return .obj (← Build.copyObject a)

/-- Copy a value as a tree. A path through values that do not hold themselves meets each object
once; the copy of one that holds itself does not come to an end. -/
def plain (v : Value) : Build Value := do
  plainFrom ((← get).objects.size + 1) v

end Value
end OpenApiDoc
