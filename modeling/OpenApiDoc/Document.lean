import OpenApiDoc.Paths
import OpenApiDoc.Json.Writer
import OpenApiDoc.Yaml.Graph

/-! # Documents

A document is a mapping with a version of the format, a title with a version of its own, the paths
map, and what else is given. Schemas among the components are emitted; everything else is copied as
it is. A document is rendered as YAML or as JSON; neither looks at what it means. -/

namespace OpenApiDoc.Document

/-- The version of the format, unless another is given. -/
def defaultVersion : String := "3.0.3"

def defaultFormat : String := "yaml"

def formats : List String := ["yaml", "json"]

/-- The arguments of a document. -/
structure Arguments where
  title : Value
  version : Value
  paths : Value
  components : Value
  openapi : Value
  description : Value
  servers : Value
  extra : Value

/-- One section of the components. -/
def componentSection (name entries : Value) : Build (Value × Value) := do
  if (← get).sameKey name (.str "schemas") then
    let es ← entries.items
    return (name, ← Build.newMapping (← es.mapM fun e => do return (e.1, ← Node.emit e.2)))
  else return (name, ← entries.copy)

def components (v : Value) : Build Value := do
  let es ← v.items
  Build.newMapping (← es.mapM fun e => componentSection e.1 e.2)

/-- A copy of a mapping that may be absent or empty. -/
def detachedOrEmpty (v : Value) : Build Value := do
  (← Build.newMapping (← v.entriesOrEmpty)).copy

def build (a : Arguments) : Build Value := do
  let described := if a.description.isNone then [] else [("description", a.description)]
  let info ← record ([("title", a.title), ("version", a.version)] ++ described)
  let servers ← optionalField "servers" a.servers Value.copy
  let paths ← detachedOrEmpty a.paths
  let parts ← optionalField "components" a.components components
  let extra ← (← detachedOrEmpty a.extra).further
  let fields := [("openapi", a.openapi), ("info", info)] ++ servers ++ [("paths", paths)] ++ parts
  Build.newMapping (Entries.overlay (← get).sameKey (Entries.named fields) extra)

/-- Go on with a result, or fail with its fault. -/
def orFail {α : Type} : Except Fault α → Build α
  | .ok a => return a
  | .error f => throw f

/-- The YAML text of a mapping. -/
def yaml (doc : Value) : Build String := do
  let a ← Build.new (.mapping (← doc.entries))
  orFail (Yaml.Graph.render (← get) a)

/-- The JSON text of a value. -/
def json (doc : Value) : Build String := do
  return Json.render (← orFail (Json.ofTree ((← get).tree doc)))

/-- The text of a document in a format. -/
def render (doc format : Value) : Build String := do
  Build.record "documents" ("Rendering document as " ++ (← get).text format)
  match format with
  | .str "yaml" => yaml doc
  | .str "json" => json doc
  | _ => Build.refuse (.unknownFormat format)

end OpenApiDoc.Document
