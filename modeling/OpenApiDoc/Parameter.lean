import OpenApiDoc.Schema.Node

/-! # Parameters

A parameter has a name, one of four locations, and a schema. It is required when its schema is not
optional, and always in a path. Further entries are laid over the generated ones as they are. -/

namespace OpenApiDoc.Parameter

/-- The location is one of those that parameters have. -/
def isLocation : Value → Bool
  | .str s => Fault.locations.contains s
  | _ => false

def build (name location schema description extra : Value) : Build Value := do
  if !isLocation location then throw (.unknownLocation location)
  let needed := location == .str "path" || !Node.isOptional (← get) schema
  let described := if description.isNone then [] else [("description", description)]
  let emitted ← Node.emit schema
  let generated := Entries.named ([("name", name), ("in", location), ("required", .bool needed)]
    ++ described ++ [("schema", emitted)])
  let further ← extra.entriesOrEmpty
  Build.newMapping (Entries.overlay (← get).sameKey generated further)

end OpenApiDoc.Parameter
