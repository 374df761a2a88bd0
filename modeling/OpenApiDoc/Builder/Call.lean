import OpenApiDoc.Builder.Access
import OpenApiDoc.Builder.Raise
import OpenApiDoc.Document
import OpenApiDoc.Equality
import OpenApiDoc.Parameter
import OpenApiDoc.Schema.Constructors

/-! # Calls

Every function of the library by its parameters and what it does with their values. The function
that loads a document is handed in, since what it does depends on the modules at hand. -/

namespace OpenApiDoc.Call

/-- A function with its parameters. -/
structure Function where
  signature : Signature
  run : Signature.Bound → Build Value

/-- A function of parameters that must be given and parameters that may be left out. -/
def function (name : String) (must may : List String) (run : Signature.Bound → Build Value) :
    Function :=
  ⟨.of name must may, run⟩

/-! ### Constructors -/

def leaf (name type : String) (format : Option String) : Function :=
  function name [] ["description", "extra"] fun b =>
    Schema.leaf type format (b.arg "description") (b.arg "extra")

/-- A constructor of one described value. -/
def described (name parameter : String) (make : Value → Value → Value → Build Value) : Function :=
  function name [parameter] ["description", "extra"] fun b =>
    make (b.arg parameter) (b.arg "description") (b.arg "extra")

def constructor (c : Constructor) : Function :=
  match c with
  | .boolean => leaf c.name "boolean" none
  | .integer => leaf c.name "integer" none
  | .number => leaf c.name "number" none
  | .string => leaf c.name "string" none
  | .date => leaf c.name "string" (some "date")
  | .dateTime => leaf c.name "string" (some "date-time")
  | .binary => leaf c.name "string" (some "binary")
  | .email => leaf c.name "string" (some "email")
  | .uuid => leaf c.name "string" (some "uuid")
  | .uri => leaf c.name "string" (some "uri")
  | .pattern => described c.name "regex" Schema.pattern
  | .constant => described c.name "value" Schema.constant
  | .choice => function c.name ["values"] ["extra"] fun b =>
    Schema.choice (b.arg "values") (b.arg "extra")
  | .ref => function c.name ["target"] [] fun b => Schema.ref (b.arg "target")
  | .array => described c.name "items" Schema.array
  | .object => described c.name "properties" Schema.object

/-- A constructor, with the flag of its node set by a variant. -/
def variant (c : Constructor) (v : Variant) : Function :=
  let f := constructor c
  match v with
  | .asBuilt => f
  | .optional => { f with run := fun b => do Node.withFlag (← f.run b) true }
  | .required => { f with run := fun b => do Node.withFlag (← f.run b) false }

/-- The name of the method that a variant of a constructor is. -/
def methodName : Variant → String
  | .asBuilt => "SchemaConstructor.__call__"
  | .optional => "SchemaConstructor.optional"
  | .required => "SchemaConstructor.required"

/-- The parameter of a method that stands for the object itself. -/
def itself : String := "self"

/-! ### Responses, bodies and parameters -/

/-- A parameter that defaults to a text. -/
def textDefault (name text : String) : String × Option Value := (name, some (.str text))

/-- A parameter that defaults to nothing. -/
def optional (name : String) : String × Option Value := (name, some .none)

def mediaOf (b : Signature.Bound) : Response.Media where
  schema := b.arg "schema"
  examples := b.arg "examples"
  encoding := b.arg "encoding"

def response : Function where
  signature := {
    function := "response"
    parameters := [optional "description", optional "schema", textDefault "type" jsonMediaType,
      optional "headers", optional "links", optional "examples", optional "encoding"] }
  run b := Response.response (b.arg "description") (b.arg "type") (b.arg "headers") (b.arg "links")
    (mediaOf b)

def requestBody : Function where
  signature := {
    function := "request_body"
    parameters := [("schema", none), textDefault "type" jsonMediaType, optional "description",
      optional "required", optional "examples", optional "encoding"] }
  run b := Response.body (b.arg "type") (b.arg "description") (b.arg "required") (mediaOf b)

/-- Call a function with bound values and further named ones. -/
def Function.call (f : Function) (args : List Value) (named : List (String × Value)) :
    Build Value := do
  f.run (← f.signature.bind args named)

/-- Call a variant of a constructor. It is a method, and the object is no further argument. -/
def construct (c : Constructor) (v : Variant) (args : List Value)
    (named : List (String × Value)) : Build Value := do
  if (named.lookup itself).isSome then Build.fail (.mismatch (methodName v) (.repeated itself))
  (variant c v).call args named

/-- A helper that fixes the media type of another function. -/
def fixed (name : String) (must : List String) (h : JsonHelper) (f : Function) : Function where
  signature := {
    function := name
    parameters := must.map (·, none)
    takesMore := true }
  run b := do
    if (b.more.lookup "type").isSome then throw (.fixedMediaType h)
    f.call [] (b.values ++ b.more)

def parameter : Function :=
  function "parameter" ["name", "location", "schema"] ["description", "extra"] fun b =>
    Parameter.build (b.arg "name") (b.arg "location") (b.arg "schema") (b.arg "description")
      (b.arg "extra")

/-- A parameter at a fixed location. -/
def parameterIn (location : String) : Function where
  signature := {
    function := location ++ "_param"
    parameters := [("name", none), ("schema", none)]
    takesMore := true }
  run b := parameter.call [b.arg "name", .str location, b.arg "schema"] b.more

/-! ### Operations and documents -/

def operation : Function where
  signature := {
    function := "operation"
    parameters := [("method", none), ("path", none), ("responses", none), optional "operation_id"]
    namedOnly := [optional "summary", optional "tags", optional "parameters",
      optional "request_body", optional "extra"] }
  run b := Operation.build (b.arg "method") (b.arg "path") (b.arg "responses")
    (b.arg "operation_id") (b.arg "summary") (b.arg "tags") (b.arg "parameters")
    (b.arg "request_body") (b.arg "extra")

def document : Function where
  signature := {
    function := "document"
    parameters := [("title", none), ("version", none), optional "paths", optional "components",
      textDefault "openapi" Document.defaultVersion, optional "description", optional "servers",
      optional "extra"] }
  run b := Document.build {
    title := b.arg "title", version := b.arg "version", paths := b.arg "paths",
    components := b.arg "components", openapi := b.arg "openapi",
    description := b.arg "description", servers := b.arg "servers", extra := b.arg "extra" }

def render : Function where
  signature := {
    function := "render"
    parameters := [("doc", none), textDefault "fmt" Document.defaultFormat] }
  run b := return .str (← Document.render (b.arg "doc") (b.arg "fmt"))

/-- A record made from named fields; further names are ignored. -/
def fields (make : List (String × Value) → Build Value) : Function where
  signature := {
    function := "BaseModel.__init__"
    parameters := []
    takesMore := true
    implied := 1 }
  run b := make b.more

/-! ### Methods -/

/-- A method of the records that `of?` finds. -/
def method {α : Type} (m : Model) (name : String) (must may : List String)
    (of? : World → Value → Option α) (run : Value → α → Signature.Bound → Build Value)
    (args : List Value) (named : List (String × Value)) : Build Value := do
  match args with
  | [] => Build.fail (.mismatch (m.name ++ "." ++ name) (.missing [itself]))
  | self :: _ =>
    match of? (← get) self with
    | some found =>
      run self found (← (Signature.of (m.name ++ "." ++ name) (itself :: must) may).bind args named)
    | none => Build.lack self name

/-! ### All functions -/

/-- A function of values without names that was given another number of them. -/
def miscounted (name : String) (arity : Nat) (args : List Value) : Misuse :=
  .wrongCount (name ++ " expected " ++ Nat.repr arity ++ " argument" ++ Mismatch.plural arity
    ++ ", got " ++ Nat.repr args.length)

/-- A function of values without names. -/
def unnamed (name : String) (run : List Value → Option (Build Value)) (arity : Nat)
    (args : List Value) (named : List (String × Value)) : Build Value :=
  if named.isEmpty then (run args).getD (Build.fail (miscounted name arity args))
  else Build.fail (.takesNoNames name)

def unary (name : String) (run : Value → Build Value) :
    List Value → List (String × Value) → Build Value :=
  unnamed name (fun | [v] => some (run v) | _ => none) 1

def binary (name : String) (run : Value → Value → Build Value) :
    List Value → List (String × Value) → Build Value :=
  unnamed name (fun | [u, v] => some (run u v) | _ => none) 2

def ternary (name : String) (run : Value → Value → Value → Build Value) :
    List Value → List (String × Value) → Build Value :=
  unnamed name (fun | [u, v, x] => some (run u v x) | _ => none) 3

/-- Whether two values are equal, if comparing them comes to an end. -/
def equal (u v : Value) : Build Value := do
  match (← get).equal? u v with
  | some outcome => return .bool outcome
  | none => Build.fail .endless

/-- Call a function; `load` loads the document of a target. -/
def invoke (load : Value → Build Value) (f : Callee) :
    List Value → List (String × Value) → Build Value :=
  let call (f : Function) := f.call
  match f with
  | .construct c v => construct c v
  | .optional => call (function "optional" ["node"] [] fun b => Node.withFlag (b.arg "node") true)
  | .required => call (function "required" ["node"] [] fun b => Node.withFlag (b.arg "node") false)
  | .nullable => call (function "nullable" ["node"] [] fun b => Node.nullable (b.arg "node"))
  | .response => call response
  | .json => call (fixed "json" [] .response response)
  | .requestBody => call requestBody
  | .jsonBody => call (fixed "json_body" ["schema"] .body requestBody)
  | .parameter => call parameter
  | .pathParam => call (parameterIn "path")
  | .queryParam => call (parameterIn "query")
  | .headerParam => call (parameterIn "header")
  | .operation => call operation
  | .paths => call (function "paths" ["ops"] [] fun b => Paths.build (b.arg "ops"))
  | .document => call document
  | .render => call render
  | .loadDocument => call (function "load_document" ["target"] [] fun b => load (b.arg "target"))
  | .schemaNode => call (fields Node.ofFields)
  | .operationRecord => call (fields Operation.ofFields)
  | .emit => call (function "emit" ["value"] [] fun b => Node.emit (b.arg "value"))
  | .isOptional => call (function "is_optional" ["value"] [] fun b =>
      return .bool (Node.isOptional (← get) (b.arg "value")))
  | .toSchema => method .node "to_schema" [] [] Node.parts? fun _ f _ => Node.schema f.1
  | .merge => method .node "merge" ["extra"] [] Node.parts? fun self _ b =>
      Node.merge self (b.arg "extra")
  | .emitOperation => method .operation "to_dict" [] ["default_id"] Operation.of? fun _ op b =>
      op.emit (b.arg "default_id")
  | .getAttribute => binary "getattr" Access.getAttribute
  | .setAttribute => ternary "setattr" Access.setAttribute
  | .getItem => binary "getitem" Access.getItem
  | .setItem => ternary "setitem" Access.setItem
  | .keys => unary "list" fun v => do Build.newList (← v.iterate)
  | .equal => binary "eq" equal
  | .shown => unary "repr" fun v => return .str ((← get).shown v)
  | .text => unary "str" fun v => return .str ((← get).text v)

end OpenApiDoc.Call
