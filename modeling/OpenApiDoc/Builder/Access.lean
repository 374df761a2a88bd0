import OpenApiDoc.Schema.Summary
import OpenApiDoc.Validation

/-! # Attributes and items

Records have their fields as attributes and refuse every assignment, except to names that begin with
an underscore. These, and whatever is set on constructors and builders, are kept beside the object.
The attributes of a module are its names. Mappings and lists are read and written in place by key or
position; a position may count from the end. -/

namespace OpenApiDoc.Access

/-- The attributes that an object has by itself. -/
def attributes : Object → List (String × Value)
  | .constructor c =>
    [("__name__", .str c.name), ("__qualname__", .str c.name), ("__doc__", .str c.summary)]
  | .module names => names
  | o => o.fields?.getD []

def getAttribute (v name : Value) : Build Value := do
  match name, v with
  | .str s, .obj a =>
    let w ← get
    match (w.attributes.lookup (a, s)).orElse fun _ => (attributes (w.get a)).lookup s with
    | some u => return u
    | none => Build.lack v s
  | .str s, v => Build.lack v s
  | .atom a, _ => Build.fail (.wrongName a.typePath)
  | .obj a, _ => Build.fail (.wrongName (← Build.look a).typePath)

/-- The name of the attributes as a whole. -/
def wholeName : String := "__dict__"

/-- The name of an object's type, which no value can take the place of. -/
def typeName : String := "__class__"

/-- Keep an attribute beside an object. The attributes as a whole are not replaced. -/
def attach (a : Addr) (name : String) (u : Value) : Build Value := do
  if name = wholeName then Build.fail (.wrongNames ((← get).typePath u))
  Build.attach a name u
  return .none

/-- Bind a name of a module. The names as a whole cannot be replaced. -/
def bind (a : Addr) (name : String) (u : Value) : Build Value := do
  if name = wholeName then Build.fail .readOnly
  Build.bind a name u
  return .none

/-- Assign an attribute of a record. -/
def assign (m : Model) (a : Addr) (name : String) (u : Value) : Build Value :=
  if name.startsWith "_" then attach a name u
  else throw (.invalid m [⟨.frozen, [.name name], .value u⟩])

def setAttribute (v name u : Value) : Build Value := do
  match name with
  | .str s =>
    if s = typeName then Build.fail (.wrongClass ((← get).typePath u))
    match v with
    | .atom _ => Build.lack v s
    | .obj a =>
      match ← Build.look a with
      | .node _ _ => assign .node a s u
      | .operation _ => assign .operation a s u
      | .constructor _ => attach a s u
      | .builder _ _ => attach a s u
      | .module _ => bind a s u
      | _ => Build.lack v s
  | _ => Build.fail (.wrongName ((← get).typePath name))

/-- The whole number that a position is. -/
def position (s : Sequence) (k : Value) : Build Int := do
  match k with
  | .int i => if Field.isWord i then return i else Build.fail .hugeIndex
  | .bool b => return if b then 1 else 0
  | k => Build.fail (.wrongIndex s ((← get).typePath k))

/-- The index of a position in a sequence of the given length; a negative one counts from the end.
-/
def index? (length : Nat) (i : Int) : Option Nat :=
  let j := if i < 0 then i + length else i
  if 0 ≤ j ∧ j < length then some j.toNat else none

/-- The item at a position. -/
def item {α : Type} (s : Sequence) (xs : List α) (k : Value) : Build α := do
  match (index? xs.length (← position s k)).bind (xs[·]?) with
  | some x => return x
  | none => Build.fail (.outOfRange s)

def getItem (v k : Value) : Build Value := do
  match v with
  | .str s => return .str (String.singleton (← item .text s.toList k))
  | .bytes bs => return .int (← item .bytes bs k).toNat
  | .atom a => Build.fail (.notReadable a.typePath)
  | .obj a =>
    match ← Build.look a with
    | .mapping es =>
      Build.requireKey k
      match Entries.find? (← get).sameKey es k with
      | some u => return u
      | none => Build.fail (.noKey k)
    | .list xs => item .list xs k
    | .tuple xs => item .tuple xs k
    | .machinery _ (some xs) => item .list xs k
    | o => Build.fail (.notReadable o.typePath)

/-- Positions are looked at before a value of this kind refuses to be written to: texts, bytes and
tuples, which are sequences, and records, constructors and patterns, which might be. -/
def readsPositions (w : World) : Value → Bool
  | .str _ => true
  | .bytes _ => true
  | .atom (.pattern _) => true
  | .atom _ => false
  | .obj a => match w.get a with
    | .tuple _ => true
    | .node _ _ => true
    | .operation _ => true
    | .constructor _ => true
    | .machinery _ _ => true
    | _ => false

/-- Fail because a value cannot be written to. -/
def refuseItem (v k : Value) : Build Value := do
  let w ← get
  match readsPositions w v, k with
  | true, .int i => Build.fail (if Field.isWord i then .notWritable (w.typePath v) else .hugeIndex)
  | _, _ => Build.fail (.notWritable (w.typePath v))

def setItem (v k u : Value) : Build Value := do
  match v with
  | .atom _ => refuseItem v k
  | .obj a =>
    match ← Build.look a with
    | .mapping es =>
      Build.requireKey k
      Build.put a (.mapping (Entries.insert (← get).sameKey es k u))
      return .none
    | .list xs =>
      match index? xs.length (← position .list k) with
      | none => Build.fail .outOfReach
      | some i =>
        Build.put a (.list (xs.set i u))
        return .none
    | _ => refuseItem v k

end OpenApiDoc.Access
