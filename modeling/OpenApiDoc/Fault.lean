import OpenApiDoc.Misuse
import OpenApiDoc.Text.CaseMap
import OpenApiDoc.Text.Elided

/-! # What can go wrong

* `DocumentError` holds the errors of assembling a document. Each has a kind, a code, a message and
  details; the wording is in `DocumentError.message` alone.
* `Report` says what is wrong with one part of a record's input, where, and what was given there.
* `Fault` joins these with the errors of operations that a value does not support and with the
  exceptions that a builder raises by name. -/

namespace OpenApiDoc

/-- Why the document of a target cannot be loaded. -/
inductive LoadFailure where
  /-- The target is no module and attribute separated by a colon. -/
  | malformed
  | fileNotFound (path : String)
  | noModule (name : String)
  | notAPackage (name parent : String)
  /-- An import that fails with a text of its own. -/
  | notImported (text : String)
  /-- An exception in a module that is loaded by name. -/
  | importing (name exception : String)
  /-- An exception in a module that is loaded by its file. -/
  | executing (path exception : String)
  | noAttribute (name : String)
  | builderFailed (exception : String)
  | notAMapping (typeName : String)
  /-- A reason given by a builder. -/
  | stated (text : String)
deriving DecidableEq, Repr

namespace LoadFailure

def message : LoadFailure → String
  | .malformed => "expected the form 'module:attribute'"
  | .fileNotFound path => "file not found: " ++ path
  | .noModule name => "No module named " ++ Text.quoted name
  | .notAPackage name parent =>
    "No module named " ++ Text.quoted name ++ "; " ++ Text.quoted parent ++ " is not a package"
  | .notImported text => text
  | .importing name exception => "error while importing " ++ name ++ ": " ++ exception
  | .executing path exception => "error while executing " ++ path ++ ": " ++ exception
  | .noAttribute name => "module has no attribute '" ++ name ++ "'"
  | .builderFailed exception => "builder failed: " ++ exception
  | .notAMapping typeName => "expected a mapping, got " ++ typeName
  | .stated text => text

end LoadFailure

/-- The errors of assembling, rendering and loading documents. -/
inductive DocumentError where
  /-- Raised by a builder with a code, message and details of its own. -/
  | declared (code message details : Value)
  /-- A wrong kind of value, as a builder words it. -/
  | declaredKind (message details : Value)
  /-- A schema node was expected; `detailed` errors carry the text of the value. -/
  | notANode (got : Value) (detailed : Bool)
  | notAPattern (got : Value)
  | propertyName (key : Value)
  | notAnOperation (binding got : Value)
  | emptyChoice
  /-- Two operations on one path and method, by the names they are bound to. -/
  | duplicateOperation (path method first second : Value)
  | unknownFormat (format : Value)
  | targetLoad (target : Value) (reason : LoadFailure)
deriving DecidableEq, Repr

namespace DocumentError

/-- The name of the kind of error. -/
def kind : DocumentError → String
  | .declared _ _ _ => "OpenApiDslError"
  | .declaredKind _ _ | .notANode _ _ | .notAPattern _ | .propertyName _ | .notAnOperation _ _ =>
    "SchemaTypeError"
  | .emptyChoice => "EmptyChoiceError"
  | .duplicateOperation _ _ _ _ => "DuplicateOperationError"
  | .unknownFormat _ => "RenderError"
  | .targetLoad _ _ => "TargetLoadError"

/-- The general kinds of error that this kind also belongs to. -/
def bases (e : DocumentError) : List String :=
  match e.kind with
  | "SchemaTypeError" => ["TypeError"]
  | "EmptyChoiceError" => ["ValueError"]
  | _ => []

def code (w : World) : DocumentError → Tree
  | .declared code _ _ => w.tree code
  | .declaredKind _ _ | .notANode _ _ | .notAPattern _ | .propertyName _ | .notAnOperation _ _ =>
    .str "SCHEMA_TYPE"
  | .emptyChoice => .str "EMPTY_CHOICE"
  | .duplicateOperation _ _ _ _ => .str "DUPLICATE_OPERATION"
  | .unknownFormat _ => .str "RENDER_FORMAT"
  | .targetLoad _ _ => .str "TARGET_LOAD"

/-- The upper-case form of the name of a method. Only ASCII letters of bytes have one. -/
def methodText (w : World) : Value → String
  | .str s => Text.upper s
  | .bytes bs => w.text (.bytes (bs.map fun b =>
      if 97 ≤ b ∧ b ≤ 122 then b - 32 else b))
  | v => w.text v

def message (w : World) : DocumentError → String
  | .declared _ message _ => w.text message
  | .declaredKind message _ => w.text message
  | .notANode got _ => "Expected a SchemaNode, got " ++ w.typeName got
  | .notAPattern got => "pattern() expects a str or compiled pattern, got " ++ w.typeName got
  | .propertyName key => "Property names must be strings, got " ++ w.shown key
  | .notAnOperation binding got =>
    "'" ++ w.text binding ++ "' is not an Operation (got " ++ w.typeName got ++ ")"
  | .emptyChoice => "choice() requires at least one allowed value"
  | .duplicateOperation path method first second =>
    methodText w method ++ " " ++ w.text path ++ " is declared twice: '" ++ w.text first
      ++ "' and '" ++ w.text second ++ "'"
  | .unknownFormat format => "Unsupported output format: " ++ w.text format
  | .targetLoad target reason => "Cannot load '" ++ w.text target ++ "': " ++ reason.message

/-- A mapping from names. -/
def namedTree (fields : List (String × Tree)) : Tree :=
  .mapping (fields.map fun f => (.str f.1, f.2))

def details (w : World) : DocumentError → Tree
  | .declared _ _ details => w.tree details
  | .declaredKind _ details => w.tree details
  | .notANode got true => namedTree [("value", .str (w.shown got))]
  | .notANode _ false => .none
  | .notAPattern _ => .none
  | .propertyName key => namedTree [("property", .str (w.shown key))]
  | .notAnOperation binding _ => namedTree [("binding", w.tree binding)]
  | .emptyChoice => .none
  | .duplicateOperation path method first second =>
    namedTree [("path", w.tree path), ("method", w.tree method),
      ("bindings", .list [w.tree first, w.tree second])]
  | .unknownFormat format => namedTree [("format", w.tree format)]
  | .targetLoad target _ => namedTree [("target", w.tree target)]

end DocumentError

/-- What is wrong with a part of a record's input. -/
inductive Problem where
  | missing
  | notAMapping
  | notAList
  | notAText
  | notUtf8
  | notABool
  | unreadableBool
  | frozen
deriving DecidableEq, Repr

namespace Problem

def code : Problem → String
  | .missing => "missing"
  | .notAMapping => "dict_type"
  | .notAList => "list_type"
  | .notAText => "string_type"
  | .notUtf8 => "string_unicode"
  | .notABool => "bool_type"
  | .unreadableBool => "bool_parsing"
  | .frozen => "frozen_instance"

def message : Problem → String
  | .missing => "Field required"
  | .notAMapping => "Input should be a valid dictionary"
  | .notAList => "Input should be a valid list"
  | .notAText => "Input should be a valid string"
  | .notUtf8 => "Input should be a valid string, unable to parse raw data as a unicode string"
  | .notABool => "Input should be a valid boolean"
  | .unreadableBool => "Input should be a valid boolean, unable to interpret input"
  | .frozen => "Instance is frozen"

/-- Where a problem is explained. -/
def helpAddress (p : Problem) : String := "https://errors.pydantic.dev/2.14/v/" ++ p.code

end Problem

/-- A step on the way to a part of an input. -/
inductive Step where
  | name (s : String)
  | index (i : Int)
deriving DecidableEq, Repr

namespace Step

/-- A step as part of a path; a name that has a dot in it is set off. -/
def text : Step → String
  | .name s => if s.contains '.' then "`" ++ s ++ "`" else s
  | .index i => toString i

end Step

/-- What was given for a part of a record. -/
inductive Input where
  | value (v : Value)
  /-- A field of a record that was given as a list. -/
  | field (name : String) (v : Value)
  /-- All the named fields that were given. -/
  | fields (given : List (String × Value))
deriving DecidableEq, Repr

namespace Input

/-- A record read as a list has pairs as its items, and named fields are a mapping. -/
def tree (w : World) : Input → Tree
  | .value v => w.tree v
  | .field name v => .tuple [.str name, w.tree v]
  | .fields given => .mapping (given.map fun f => (.str f.1, w.tree f.2))

def typeName (w : World) : Input → String
  | .value v => w.typeName v
  | .field _ _ => (Object.tuple []).typeName
  | .fields _ => (Object.mapping []).typeName

end Input

/-- A problem, where it is, and what was given there. -/
structure Report where
  problem : Problem
  location : List Step
  input : Input
deriving DecidableEq, Repr

namespace Report

/-- The report as seen from one level further out. -/
def under (s : Step) (r : Report) : Report := { r with location := s :: r.location }

/-- How much of what was given is shown. -/
def shownBytes : Nat := 50

/-- The lines of a report. -/
def text (w : World) (r : Report) : String :=
  ".".intercalate (r.location.map Step.text) ++ "\n  " ++ r.problem.message
    ++ " [type=" ++ r.problem.code
    ++ ", input_value=" ++ Text.elided shownBytes (r.input.tree w).shown
    ++ ", input_type=" ++ r.input.typeName w ++ "]"
    ++ "\n    For further information visit " ++ r.problem.helpAddress

end Report

/-- Errors of the file system. -/
inductive SystemFault where
  /-- A directory stands where a file is to be read. -/
  | isDirectory
  /-- A name or a path is longer than the file system allows. -/
  | nameTooLong
deriving DecidableEq, Repr

namespace SystemFault

def kind : SystemFault → String
  | .isDirectory => "IsADirectoryError"
  | .nameTooLong => "OSError"

def number : SystemFault → Nat
  | .isDirectory => 21
  | .nameTooLong => 36

def text : SystemFault → String
  | .isDirectory => "Is a directory"
  | .nameTooLong => "File name too long"

end SystemFault

/-- The helpers that fix the media type of what they build. -/
inductive JsonHelper where
  | response
  | body
deriving DecidableEq, Repr

/-- Every way in which a step can fail. -/
inductive Fault where
  | document (e : DocumentError)
  | invalid (m : Model) (reports : List Report)
  /-- YAML has no form for this value. -/
  | unrepresentable (v : Value)
  /-- JSON has no form for a value of this type. -/
  | notJson (typeName : String)
  /-- JSON has no form for a key of this type. -/
  | notJsonKey (typeName : String)
  | unbound (name : String)
  | unknownLocation (location : Value)
  | fixedMediaType (h : JsonHelper)
  | misuse (m : Misuse)
  /-- An import that needs a package it is relative to. -/
  | relativeImport (name : String)
  | system (e : SystemFault)
  /-- An exception that a builder raises by name. -/
  | raised (kind : String) (args : List Value)
deriving DecidableEq, Repr

namespace Fault

/-- The name of the kind of fault. -/
def kind : Fault → String
  | .document e => e.kind
  | .invalid _ _ => "ValidationError"
  | .unrepresentable _ => "RepresenterError"
  | .notJson _ | .notJsonKey _ | .fixedMediaType _ | .relativeImport _ => "TypeError"
  | .unbound _ => "Unbound"
  | .unknownLocation _ => "ValueError"
  | .misuse m => m.kind
  | .system e => e.kind
  | .raised kind _ => kind

/-- The places of a parameter. -/
def locations : List String := ["path", "query", "header", "cookie"]

/-- How the texts of wrong types and values begin that have a meaning here. -/
def beginnings : List (String × String) :=
  [("ValueError", "Unknown parameter location "), ("TypeError", "json() does not accept "),
   ("TypeError", "json_body() does not accept "), ("TypeError", "Object of type "),
   ("TypeError", "keys must be str, int, float, bool or None, not ")]

/-- A builder words an exception like one of the faults above. -/
def isKnown (kind text : String) : Bool :=
  beginnings.any fun b => b.1 == kind && text.startsWith b.2

/-- The text of a fault that has one of its own. -/
def message? (w : World) : Fault → Option String
  | .document e => some (e.message w)
  | .invalid m _ => some m.name
  | .unrepresentable v => some ("('cannot represent an object', " ++ w.shown v ++ ")")
  | .notJson t => some ("Object of type " ++ t ++ " is not JSON serializable")
  | .notJsonKey t => some ("keys must be str, int, float, bool or None, not " ++ t)
  | .unbound name => some name
  | .unknownLocation location =>
    some ("Unknown parameter location '" ++ w.text location ++ "', expected one of "
      ++ Tree.tupleText (locations.map Text.quoted))
  | .fixedMediaType .response => some "json() does not accept 'type'; use response() instead"
  | .fixedMediaType .body =>
    some "json_body() does not accept 'type'; use request_body() instead"
  | .relativeImport name =>
    some ("the 'package' argument is required to perform a relative import for "
      ++ Text.quoted name)
  | .raised kind [.str text] => if isKnown kind text then some text else none
  | .misuse _ | .system _ | .raised _ _ => none

/-- The arguments of a call, in brackets. -/
def callText (name : String) (args : List String) : String := Tree.bracketed (name ++ "(") ")" args

/-- The fault as the call that makes it; a record that cannot be made shows its reports. -/
def shown (w : World) : Fault → String
  | .raised kind args => callText kind (args.map w.shown)
  | .unrepresentable v =>
    callText "RepresenterError" [Text.quoted "cannot represent an object", w.shown v]
  | .system e => callText e.kind [Nat.repr e.number, Text.quoted e.text]
  | .misuse m => callText m.kind (m.arguments w)
  | .invalid m reports =>
    let count := reports.length
    let errors := if count = 1 then " validation error for " else " validation errors for "
    "\n".intercalate ((Nat.repr count ++ errors ++ m.name) :: reports.map (·.text w))
  | f => callText f.kind ((f.message? w).toList.map Text.quoted)

/-- The text of an exception: nothing without arguments, one argument by itself, several as a tuple.
-/
def raisedText (w : World) : List Value → String
  | [] => ""
  | [v] => w.text v
  | vs => Tree.tupleText (vs.map w.shown)

end Fault
end OpenApiDoc
