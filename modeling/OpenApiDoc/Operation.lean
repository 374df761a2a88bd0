import OpenApiDoc.Response
import OpenApiDoc.Validation

/-! # Operations

An operation binds a method and a URL template to its responses. Its fields are checked and rebuilt
when it is made.

* `Operation.ofFields` makes an operation from named arguments. Status codes become texts first, and
  the responses under them are copied.
* `Operation.emit` writes the operation object: what was not given is left out, and the extra
  entries are laid over the rest. -/

namespace OpenApiDoc.Operation

/-- The responses under the texts of their status codes, each copied by itself. -/
def withTextCodes (responses : Value) : Build Value := do
  match responses.mapping? (← get) with
  | none => return responses
  | some es =>
    let coded ← es.mapM fun e => do return ((← get).text e.1, ← e.2.copy)
    Build.newMapping (Entries.named (Entries.overlay (· == ·) [] coded))

/-- The fields of an operation as they were read. -/
structure Fields where
  method : String
  path : String
  responses : List (String × List (String × Value))
  operationId : Option String
  summary : Option String
  tags : Option (List String)
  parameters : Option (List (List (String × Value)))
  requestBody : Option (List (String × Value))
  extra : List (String × Value)

/-- Check the named arguments, field by field in the order of their declaration. `read` are the
arguments with texts for status codes. -/
def check (w : World) (given read : List (String × Value)) : Checked Fields :=
  let entries := Field.mapping w Field.any
  let field {α : Type} (name : String) (f : Input → Checked α) : Checked α :=
    Field.required given name (read.lookup name) f
  let optional {α : Type} (name : String) (f : Input → Checked α) : Checked (Option α) :=
    Field.defaulted name (read.lookup name) none (Field.orNone f)
  let extra : Checked (List (String × Value)) :=
    Field.defaulted "extra" (read.lookup "extra") [] entries
  let both {α β : Type} (a : Checked α) (b : Checked β) := Checked.both a b
  (both (field "method" Field.text) <| both (field "path" Field.text) <|
    both (field "responses" (Field.mapping w fun v => entries (.value v))) <|
    both (optional "operation_id" Field.text) <| both (optional "summary" Field.text) <|
    both (optional "tags" (Field.list w Field.text)) <|
    both (optional "parameters" (Field.list w entries)) <|
    both (optional "request_body" entries) extra).map
    fun (method, path, responses, operationId, summary, tags, parameters, requestBody, extra) =>
      { method, path, responses, operationId, summary, tags, parameters, requestBody, extra }

def newRecord (fields : List (String × Value)) : Build Addr :=
  Build.new (.mapping (Entries.named fields))

/-- A list that may be absent, as an object. -/
def newListOrNone {α : Type} (item : α → Build Value) : Option (List α) → Build (Option Addr)
  | none => return none
  | some xs => do return some (← Build.new (.list (← xs.mapM item)))

/-- Store checked fields. -/
def make (f : Fields) : Build Value := do
  let responses ← f.responses.mapM fun r => do return (r.1, ← record r.2)
  let responses ← newRecord responses
  let tags ← newListOrNone (fun s => pure (.str s)) f.tags
  let parameters ← newListOrNone record f.parameters
  let requestBody ← f.requestBody.mapM newRecord
  let extra ← newRecord f.extra
  let op : Operation := {
    method := f.method, path := f.path, operationId := f.operationId, summary := f.summary,
    responses, tags, parameters, requestBody, extra }
  return .obj (← Build.new (.operation op))

/-- An operation from the named arguments it was given. -/
def ofFields (given : List (String × Value)) : Build Value := do
  let read ← given.mapM fun (name, v) => do
    return (name, ← if name = "responses" then withTextCodes v else pure v)
  make (← (check (← get) given read).require .operation)

/-- An operation with the arguments of the helper: extra entries may be absent, or given in pairs.
-/
def build (method path responses operationId summary tags parameters requestBody extra : Value) :
    Build Value := do
  let extra ← Build.newMapping (← extra.entriesOrEmpty)
  ofFields [("method", method), ("path", path), ("responses", responses),
    ("operation_id", operationId), ("summary", summary), ("tags", tags),
    ("parameters", parameters), ("request_body", requestBody), ("extra", extra)]

/-- The operation at an address. -/
def of? (w : World) : Value → Option Operation
  | .obj a => match w.get a with
    | .operation op => some op
    | _ => none
  | .atom _ => none

/-- The identifier of an operation: its own unless that is empty, or the given one. -/
def identifier (op : Operation) (default : Value) : Value :=
  match op.operationId with
  | some s => if s.isEmpty then default else .str s
  | none => default

/-- A copy of a collection that may be absent, under a name. -/
def copiedField (name : String) : Option Addr → Build (List (String × Value))
  | none => return []
  | some a => do return [(name, .obj (← Build.copyObject a))]

/-- A new list with the items of a list that may be absent, under a name. -/
def listField (name : String) : Option Addr → Build (List (String × Value))
  | none => return []
  | some a => do return [(name, ← Build.newList (← (Value.obj a).iterate))]

/-- The operation object. Method and path are no part of it. -/
def emit (op : Operation) (default : Value) : Build Value := do
  let id := op.identifier default
  let identified := if id.isNone then [] else [("operationId", id)]
  let summary := op.summary.elim [] fun s => [("summary", Value.str s)]
  let tags ← listField "tags" op.tags
  let parameters ← copiedField "parameters" op.parameters
  let requestBody ← copiedField "requestBody" op.requestBody
  let responses ← copiedField "responses" (some op.responses)
  let extra ← (Value.obj (← Build.copyObject op.extra)).further
  let fields := identified ++ summary ++ tags ++ parameters ++ requestBody ++ responses
  Build.newMapping (Entries.overlay (← get).sameKey (Entries.named fields) extra)

end OpenApiDoc.Operation
