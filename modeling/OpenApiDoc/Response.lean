import OpenApiDoc.Schema.Node

/-! # Responses and request bodies

Both hold one media type with its schema, examples and encoding. What is not given is left out; what
is given, even if empty, is kept. Mappings that are passed through are copied. -/

namespace OpenApiDoc

/-- The media type of the JSON helpers, and of a response or body that names none. -/
def jsonMediaType : String := "application/json"

/-- A field that is left out when nothing is given for it. -/
def optionalField (name : String) (v : Value) (make : Value → Build Value) :
    Build (List (String × Value)) := do
  if v.isNone then return [] else return [(name, ← make v)]

/-- A detached copy of a mapping. -/
def detached (v : Value) : Build Value := do
  (← Build.newMapping (← v.entries)).copy

/-- A new mapping from names. -/
def record (fields : List (String × Value)) : Build Value := Build.newMapping (Entries.named fields)

namespace Response

/-- The schema, examples and encoding of one media type. -/
structure Media where
  schema : Value
  examples : Value
  encoding : Value

def Media.build (m : Media) : Build Value := do
  let schema ← optionalField "schema" m.schema Node.emit
  let examples ← optionalField "examples" m.examples detached
  let encoding ← optionalField "encoding" m.encoding detached
  record (schema ++ examples ++ encoding)

/-- The content with its single media type. -/
def content (type : Value) (m : Media) : Build Value := do
  let media ← m.build
  Build.requireKey type
  Build.newMapping [(type, media)]

def response (description type headers links : Value) (m : Media) : Build Value := do
  let description ← optionalField "description" description pure
  let headers ← optionalField "headers" headers detached
  let links ← optionalField "links" links detached
  record (description ++ headers ++ links ++ [("content", ← content type m)])

/-- A request body. Unless it is said whether the body is required, it is required when its schema
is not optional. -/
def body (type description required : Value) (m : Media) : Build Value := do
  let w ← get
  let needed := if required.isNone then .bool (!Node.isOptional w m.schema) else required
  let description ← optionalField "description" description pure
  record (description ++ [("required", needed), ("content", ← content type m)])

end Response
end OpenApiDoc
