import OpenApiDoc.Builder.Signature
import OpenApiDoc.Validation

/-! # Raising exceptions by name

The errors of this library are made from the arguments that their kind asks for; every other name
stands for an exception that keeps its arguments.

* A system error has a kind of its own for many error numbers, and keeps the number and the text
  alone when a file is named as well.
* Errors of encodings, of the grammar and of groups are particular about their arguments. -/

namespace OpenApiDoc

/-- The error of a kind, from the values of its parameters. -/
structure Raisable where
  signature : Signature
  make : Signature.Bound → Build Fault

namespace Raisable

/-- Two operations on one path; the method is a text or bytes. -/
def duplicate (b : Signature.Bound) : Build Fault :=
  let raised : Fault := .document
    (.duplicateOperation (b.arg "path") (b.arg "method") (b.arg "first") (b.arg "second"))
  match b.arg "method" with
  | .str _ => return raised
  | .bytes _ => return raised
  | method => Build.lack method "upper"

def targetLoad (b : Signature.Bound) : Build Fault := do
  return .document (.targetLoad (b.arg "target") (.stated ((← get).text (b.arg "reason"))))

/-- The errors of a kind, which are made from parameters that must and that may be given. -/
def ofKind (kind : String) (must may : List String) (make : Signature.Bound → Build Fault) :
    String × Raisable :=
  (kind, ⟨{ Signature.of (kind ++ ".__init__") must may with implied := 1 }, make⟩)

/-- The errors of this library by the names of their kinds. -/
def all : List (String × Raisable) :=
  [ofKind "OpenApiDslError" ["code", "message"] ["details"] fun b =>
      return .document (.declared (b.arg "code") (b.arg "message") (b.arg "details")),
   ofKind "SchemaTypeError" ["message"] ["details"] fun b =>
      return .document (.declaredKind (b.arg "message") (b.arg "details")),
   ofKind "EmptyChoiceError" [] [] fun _ => return .document .emptyChoice,
   ofKind "DuplicateOperationError" ["path", "method", "first", "second"] [] duplicate,
   ofKind "RenderError" ["fmt"] [] fun b => return .document (.unknownFormat (b.arg "fmt")),
   ofKind "TargetLoadError" ["target", "reason"] [] targetLoad]

end Raisable

namespace SystemError

/-- The kind of system errors in general, and further names of it. -/
def names : List String := ["OSError", "IOError", "EnvironmentError"]

/-- The kinds for single error numbers. -/
def kinds : List (Int × String) :=
  [(1, "PermissionError"), (2, "FileNotFoundError"), (3, "ProcessLookupError"),
   (4, "InterruptedError"), (10, "ChildProcessError"), (11, "BlockingIOError"),
   (13, "PermissionError"), (17, "FileExistsError"), (20, "NotADirectoryError"),
   (21, "IsADirectoryError"), (32, "BrokenPipeError"), (103, "ConnectionAbortedError"),
   (104, "ConnectionResetError"), (108, "BrokenPipeError"), (110, "TimeoutError"),
   (111, "ConnectionRefusedError"), (114, "BlockingIOError"), (115, "BlockingIOError")]

/-- The kind for an error number; truth values are numbers too. -/
def kindOfNumber : Value → String
  | .int n => (kinds.lookup n).getD "OSError"
  | .bool b => (kinds.lookup (if b then 1 else 0)).getD "OSError"
  | _ => "OSError"

/-- A general system error is of the kind of its number, if it is given with one. -/
def kindOf (kind : String) (args : List Value) : String :=
  if names.contains kind then
    match args with
    | number :: _ :: rest => if rest.length ≤ 3 then kindOfNumber number else "OSError"
    | _ => "OSError"
  else kind

/-- The kind is one of system errors. -/
def isKind (kind : String) : Bool :=
  kind == "OSError" || kind == "ConnectionError" || kinds.any (·.2 == kind)

/-- What an error of a blocked transfer keeps of its arguments: it may be given the number of
characters that were written in place of a file. -/
def blockedArgs (args : List Value) (number text file : Value) : Except Misuse (List Value) :=
  match file with
  | .bool _ => .ok args
  | .int n => if Field.isWord n then .ok args else .error .hugeCount
  | .float x => .error (.notAnInteger (Atom.float x).typePath)
  | _ => .ok [number, text]

/-- What a system error keeps of its arguments. -/
def argsOf (kind : String) (args : List Value) : Except Misuse (List Value) :=
  match args with
  | number :: text :: file :: rest =>
    if !isKind kind || file.isNone || rest.length > 2 then .ok args
    else if kind == "BlockingIOError" then blockedArgs args number text file
    else .ok [number, text]
  | _ => .ok args

end SystemError

namespace Raise

/-- A number of arguments that does not fit; `limit` says how many do. -/
def miscounted (function limit : String) (args : List Value) : Misuse :=
  .wrongCount
    (function ++ " takes " ++ limit ++ " arguments (" ++ Nat.repr args.length ++ " given)")

/-- An argument that must be a text. -/
def text (w : World) (function : Option String) (place : Nat) : Value → Except Misuse Unit
  | .str _ => .ok ()
  | v => .error (.notAText function place (w.typePath v))

/-- A position, as it is given to an error of an encoding. -/
def position (w : World) : Value → Except Misuse Unit
  | .bool _ => .ok ()
  | .int n => if Field.isWord n then .ok () else .error .hugeInteger
  | v => .error (.notAnInteger (w.typePath v))

/-- The rest of the arguments of an error of an encoding: where it begins and ends, and a reason,
which stands at a place. -/
def span (w : World) (place : Nat) (first last reason : Value) : Except Misuse Unit := do
  position w first
  position w last
  text w none place reason

/-- The arguments of an error of encoding: the name of the encoding, the text, the range and the
reason. -/
def encoding (w : World) : List Value → Except Misuse Unit
  | [name, given, first, last, reason] => do
    text w none 1 name
    text w none 2 given
    span w 5 first last reason
  | args => .error (miscounted "function" "exactly 5" args)

/-- The arguments of an error of decoding. That there are bytes to decode is looked at last. -/
def decoding (w : World) : List Value → Except Misuse Unit
  | [name, given, first, last, reason] => do
    text w none 1 name
    span w 5 first last reason
    match given with
    | .bytes _ => return ()
    | v => throw (.notBytes (w.typePath v))
  | args => .error (miscounted "function" "exactly 5" args)

/-- The arguments of an error of replacing characters: the text, the range and the reason. -/
def replacing (w : World) : List Value → Except Misuse Unit
  | [given, first, last, reason] => do
    text w none 1 given
    span w 4 first last reason
  | args => .error (miscounted "function" "exactly 4" args)

/-- The number of parts of a value that a loop can run over. -/
def length? (w : World) : Value → Option Nat
  | .str s => some s.length
  | .bytes bs => some bs.length
  | .atom _ => none
  | .obj a => match w.get a with
    | .mapping es => some es.length
    | .list xs => some xs.length
    | .tuple xs => some xs.length
    | .machinery _ parts => parts.map List.length
    | o => o.fields?.map List.length

/-- The second of two arguments of an error of the grammar says where it is: a file, a line, a
column and the text, and then the end of the place or nothing. -/
def grammar (w : World) : List Value → Except Misuse Unit
  | [_, place] =>
    match length? w place with
    | none => .error (.notIterable (w.typePath place))
    | some n =>
      let given := List.replicate n place
      if n < 4 then .error (miscounted "function" "at least 4" given)
      else if n = 5 then .error .noEnd
      else if 6 < n then .error (miscounted "function" "at most 6" given)
      else .ok ()
  | _ => .ok ()

/-- The function that makes a group of exceptions. -/
def groupMaker : String := "BaseExceptionGroup.__new__"

/-- A group is made of exceptions, and no value is one. -/
def group (w : World) : List Value → Except Misuse Unit
  | [message, members] => do
    text w (some groupMaker) 1 message
    match members, members.items? w with
    | .str s, _ => throw (if s.isEmpty then .emptyGroup else .strangeGroup)
    | .bytes bs, _ => throw (if bs.isEmpty then .emptyGroup else .strangeGroup)
    | _, some xs => throw (if xs.isEmpty then .emptyGroup else .strangeGroup)
    | _, none => throw .ungrouped
  | args => .error (miscounted (groupMaker ++ "()") "exactly 2" args)

/-- What an exception says about its arguments. -/
def check (w : World) (kind : String) (args : List Value) : Except Misuse Unit :=
  match kind with
  | "UnicodeEncodeError" => encoding w args
  | "UnicodeDecodeError" => decoding w args
  | "UnicodeTranslateError" => replacing w args
  | "SyntaxError" => grammar w args
  | "IndentationError" => grammar w args
  | "TabError" => grammar w args
  | "ExceptionGroup" => group w args
  | "BaseExceptionGroup" => group w args
  | _ => .ok ()

end Raise

/-- The fault of raising an exception of a kind. -/
def Build.raised (kind : String) (args : List Value) : Build Fault := do
  match Raisable.all.lookup kind with
  | some r => r.make (← r.signature.bind args [])
  | none =>
    let kind := SystemError.kindOf kind args
    match Raise.check (← get) kind args, SystemError.argsOf kind args with
    | .ok _, .ok kept => return .raised kind kept
    | .error m, _ => return .misuse m
    | _, .error m => return .misuse m

/-- Fail with the exception of a kind. -/
def Build.raise {α : Type} (kind : String) (args : List Value) : Build α := do
  throw (← Build.raised kind args)

end OpenApiDoc
