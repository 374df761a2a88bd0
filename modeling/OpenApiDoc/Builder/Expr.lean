import OpenApiDoc.Tree

/-! # Expressions of builder modules

A builder module is a list of named expressions. An expression is a literal, a variable, a call of
one of the library's functions, an exception to raise, or a builder: a function without arguments
whose body is evaluated each time it is called. -/

namespace OpenApiDoc

/-- How a constructor is called: as it is, or with the flag of its node set. -/
inductive Variant where
  | asBuilt
  | optional
  | required
deriving DecidableEq, Repr

/-- What an expression can call. -/
inductive Callee where
  | construct (c : Constructor) (v : Variant)
  | optional | required | nullable
  | response | json | requestBody | jsonBody
  | parameter | pathParam | queryParam | headerParam
  | operation | paths | document | render | loadDocument
  | schemaNode | operationRecord
  | emit | isOptional
  | toSchema | merge | emitOperation
  | getAttribute | setAttribute | getItem | setItem | keys | equal | shown | text
deriving DecidableEq, Repr

namespace Callee

/-- The functions that are no constructors, by the name they are called by. -/
def functions : List (String × Callee) :=
  [("optional", .optional), ("required", .required), ("nullable", .nullable),
   ("response", .response), ("json", .json), ("request_body", .requestBody),
   ("json_body", .jsonBody), ("parameter", .parameter), ("path_param", .pathParam),
   ("query_param", .queryParam), ("header_param", .headerParam), ("operation", .operation),
   ("paths", .paths), ("document", .document), ("render", .render),
   ("load_document", .loadDocument), ("SchemaNode", .schemaNode), ("Operation", .operationRecord),
   ("emit", .emit), ("is_optional", .isOptional), ("node.to_schema", .toSchema),
   ("node.merge", .merge), ("op.to_dict", .emitOperation), ("getattr", .getAttribute),
   ("setattr", .setAttribute), ("getitem", .getItem), ("setitem", .setItem), ("keys", .keys),
   ("eq", .equal), ("repr", .shown), ("str", .text)]

/-- The constructors, with the second name of the object constructor. -/
def constructors : List (String × Constructor) :=
  ("obj", .object) :: Constructor.all.map fun c => (c.name, c)

/-- A constructor's name, alone or followed by the name of a variant. -/
def construct? (name : String) : Option Callee :=
  constructors.findSome? fun (n, c) =>
    if name = n then some (.construct c .asBuilt)
    else if name = n ++ ".optional" then some (.construct c .optional)
    else if name = n ++ ".required" then some (.construct c .required)
    else none

def ofName? (name : String) : Option Callee :=
  (functions.lookup name).orElse fun _ => construct? name

end Callee

/-- An expression. -/
inductive Expr where
  | atom (a : Atom)
  | moment (m : Moment)
  | list (items : List Expr)
  | tuple (items : List Expr)
  | mapping (entries : List (Expr × Expr))
  | constructor (c : Constructor)
  | reference (n : String)
  | call (f : Callee) (args : List Expr) (named : List (String × Expr))
  | raise (kind : String) (args : List Expr)
  | builder (body : Expr)

end OpenApiDoc
