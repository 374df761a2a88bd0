import OpenApiDoc.Operation

/-! # The paths map

Operations are gathered by URL template and, under each template, by lower-case method. Templates
and methods keep the order in which they first occur. Two operations on one template and method are
an error that names both. -/

namespace OpenApiDoc.Paths

/-- What has been gathered: the operation objects under template and method, and the name that each
pair of template and method was taken by. -/
structure Gathered where
  paths : List (String × List (String × Value))
  owners : List ((String × String) × Value)

def Gathered.empty : Gathered := ⟨[], []⟩

/-- Put an operation object under its template and method. -/
def Gathered.add (g : Gathered) (path method : String) (name operation : Value) : Gathered where
  paths :=
    let methods := (g.paths.lookup path).getD []
    Entries.insert (· == ·) g.paths path (Entries.insert (· == ·) methods method operation)
  owners := g.owners ++ [((path, method), name)]

/-- Add one bound operation. -/
def step (g : Gathered) (binding : Value × Value) : Build Gathered := do
  let (name, value) := binding
  match Operation.of? (← get) value with
  | none => Build.refuse (.notAnOperation name value)
  | some op =>
    let method := Text.lower op.method
    match g.owners.lookup (op.path, method) with
    | some first => Build.refuse (.duplicateOperation (.str op.path) (.str method) first name)
    | none =>
      let object ← op.emit name
      Build.record "operations"
        ("Added " ++ Text.upper method ++ " " ++ op.path ++ " as " ++ (← get).text name)
      return g.add op.path method name object

/-- The paths map of operations bound to names. -/
def build (operations : Value) : Build Value := do
  let bindings ← operations.items
  let g ← bindings.foldlM step Gathered.empty
  Build.record "operations" ("Assembled " ++ Nat.repr g.owners.length ++ " operations under "
    ++ Nat.repr g.paths.length ++ " paths")
  record (← g.paths.mapM fun p => do return (p.1, ← record p.2))

end OpenApiDoc.Paths
