import OpenApiDoc.Store

/-! # Misuse of values

An operation can meet a value that does not support it. `Misuse` says what was wrong, with the names
of the types and parts in question; `Misuse.kind` is the general kind of error that it belongs to
and `Misuse.arguments` is how it is worded.

A call that does not fit the parameters of a function is a `Mismatch`, and a sequence that is read
by position is worded by its `Sequence`. -/

namespace OpenApiDoc

/-- Why a call does not fit the parameters of a function. -/
inductive Mismatch where
  | missing (parameters : List String)
  | unknown (parameter : String)
  | repeated (parameter : String)
  /-- Too many arguments without names: between `least` and `most` fit, and `named` of the
  parameters that must be named are given as well. -/
  | surplus (least most given named : Nat)
deriving DecidableEq, Repr

namespace Mismatch

/-- The ending of a noun that is counted. -/
def plural (n : Nat) : String := if n = 1 then "" else "s"

/-- Names one after the other, the last of them set off. -/
def listed : List String → String
  | [] => ""
  | [x] => x
  | [x, y] => x ++ " and " ++ y
  | [x, y, z] => x ++ ", " ++ y ++ ", and " ++ z
  | x :: xs => x ++ ", " ++ listed xs

/-- The number of arguments without names that fit. -/
def range (least most : Nat) : String :=
  if least = most then Nat.repr most ++ " positional argument" ++ plural most
  else "from " ++ Nat.repr least ++ " to " ++ Nat.repr most ++ " positional arguments"

/-- The number of arguments that were given. -/
def count (given named : Nat) : String :=
  if named = 0 then Nat.repr given ++ (if given = 1 then " was" else " were")
  else Nat.repr given ++ " positional argument" ++ plural given ++ " (and " ++ Nat.repr named
    ++ " keyword-only argument" ++ plural named ++ ") were"

/-- What is said about the function. -/
def text : Mismatch → String
  | .missing ps =>
    "missing " ++ Nat.repr ps.length ++ " required positional argument" ++ plural ps.length ++ ": "
      ++ listed (ps.map fun p => "'" ++ p ++ "'")
  | .unknown p => "got an unexpected keyword argument '" ++ p ++ "'"
  | .repeated p => "got multiple values for argument '" ++ p ++ "'"
  | .surplus least most given named =>
    "takes " ++ range least most ++ " but " ++ count given named ++ " given"

end Mismatch

/-- A sequence that is read by position. -/
inductive Sequence where
  | list
  | tuple
  | text
  | bytes
deriving DecidableEq, Repr

namespace Sequence

/-- What is said about a position of the wrong type. -/
def wrongIndex (type : String) : Sequence → String
  | .list => "list indices must be integers or slices, not " ++ type
  | .tuple => "tuple indices must be integers or slices, not " ++ type
  | .text => "string indices must be integers, not '" ++ type ++ "'"
  | .bytes => "byte indices must be integers or slices, not " ++ type

/-- What is said about a position that there is not. -/
def outOfRange : Sequence → String
  | .list => "list index out of range"
  | .tuple => "tuple index out of range"
  | .text => "string index out of range"
  | .bytes => "index out of range"

end Sequence

/-- What an attribute is looked for in. -/
inductive Owner where
  | value (type : String)
  | record (type : String)
  /-- A module, by its name if that is a text. -/
  | module (name : Option String)
deriving DecidableEq, Repr

namespace Owner

/-- What is said about an attribute that there is not. -/
def lacks (name : String) : Owner → String
  | .value type => "'" ++ type ++ "' object has no attribute '" ++ name ++ "'"
  | .record type => "'" ++ type ++ "' object has no attribute " ++ Text.quoted name
  | .module (some m) => "module '" ++ m ++ "' has no attribute '" ++ name ++ "'"
  | .module none => "module has no attribute '" ++ name ++ "'"

end Owner

/-- What the attributes of a value are looked for in. -/
def World.owner (w : World) : Value → Owner
  | .atom a => .value a.typePath
  | .obj a => match w.get a with
    | .node _ _ => .record Model.node.name
    | .operation _ => .record Model.operation.name
    | .module names => .module (match names.lookup "__name__" with
      | some (.str name) => some name
      | _ => none)
    | o => .value o.typePath

/-- An operation applied to a value that does not support it. -/
inductive Misuse where
  /-- A part of a key that keys cannot have. -/
  | unhashable (type : String)
  | notIterable (type : String)
  /-- Something else than a mapping where entries are laid over others. -/
  | notAMapping (type : String)
  /-- A part of a collection of pairs that has no parts itself. -/
  | notAPair (place : Nat)
  /-- A part of a collection of pairs that has more or fewer than two parts. -/
  | wrongPair (place length : Nat)
  | notReadable (type : String)
  | notWritable (type : String)
  | wrongIndex (s : Sequence) (type : String)
  | outOfRange (s : Sequence)
  /-- A position to write to that there is not. -/
  | outOfReach
  /-- A position that no sequence is long enough for. -/
  | hugeIndex
  | noKey (key : Value)
  | noAttribute (owner : Owner) (name : String)
  /-- An attribute that is not named by a text. -/
  | wrongName (type : String)
  /-- A value that is set as the type of another. -/
  | wrongClass (type : String)
  /-- A value that is set as the attributes of another as a whole. -/
  | wrongNames (type : String)
  | readOnly
  | uncountable (type : String)
  | notCallable (type : String)
  | notCopyable (type : String)
  /-- A call that does not fit the parameters of a function. -/
  | mismatch (function : String) (m : Mismatch)
  /-- A call of a function that only counts its arguments, by what it says about them. -/
  | wrongCount (text : String)
  /-- A call of a function that takes no names. -/
  | takesNoNames (function : String)
  /-- An argument that must be a text, by its place and by the function if that names itself. -/
  | notAText (function : Option String) (place : Nat) (type : String)
  | notAnInteger (type : String)
  /-- A position in a text that is too large for one. -/
  | hugeInteger
  /-- A number of characters that is too large for one. -/
  | hugeCount
  | notBytes (type : String)
  /-- A text where the beginning of a sequence of bytes is asked for. -/
  | wrongBeginning
  /-- A place in a text whose last line is given without its last column. -/
  | noEnd
  /-- A group of exceptions that are in no sequence. -/
  | ungrouped
  | emptyGroup
  /-- A group whose first member is no exception. -/
  | strangeGroup
  | emptyName
  | nullByte
  | tooDeep
  /-- A comparison, or a copy of a value as a tree, that does not come to an end. -/
  | endless
  /-- A value that holds itself where only trees can be written. -/
  | circular
deriving DecidableEq, Repr

namespace Misuse

/-- The general kind of error. -/
def kind : Misuse → String
  | .wrongPair _ _ | .hugeCount | .emptyGroup | .strangeGroup | .emptyName | .nullByte
  | .circular => "ValueError"
  | .noAttribute _ _ | .readOnly => "AttributeError"
  | .noKey _ => "KeyError"
  | .outOfRange _ | .outOfReach | .hugeIndex => "IndexError"
  | .hugeInteger => "OverflowError"
  | .tooDeep | .endless => "RecursionError"
  | _ => "TypeError"

/-- The words for a misuse. A key that there is not speaks for itself. -/
def text : Misuse → String
  | .unhashable type => "unhashable type: '" ++ type ++ "'"
  | .notIterable type => "'" ++ type ++ "' object is not iterable"
  | .notAMapping type => "'" ++ type ++ "' object is not a mapping"
  | .notAPair place =>
    "cannot convert dictionary update sequence element #" ++ Nat.repr place ++ " to a sequence"
  | .wrongPair place length =>
    "dictionary update sequence element #" ++ Nat.repr place ++ " has length " ++ Nat.repr length
      ++ "; 2 is required"
  | .notReadable type => "'" ++ type ++ "' object is not subscriptable"
  | .notWritable type => "'" ++ type ++ "' object does not support item assignment"
  | .wrongIndex s type => s.wrongIndex type
  | .outOfRange s => s.outOfRange
  | .outOfReach => "list assignment index out of range"
  | .hugeIndex | .hugeCount => "cannot fit 'int' into an index-sized integer"
  | .noKey _ => ""
  | .noAttribute owner name => owner.lacks name
  | .wrongName type => "attribute name must be string, not '" ++ type ++ "'"
  | .wrongClass type => "__class__ must be set to a class, not '" ++ type ++ "' object"
  | .wrongNames type => "__dict__ must be set to a dictionary, not a '" ++ type ++ "'"
  | .readOnly => "readonly attribute"
  | .uncountable type => "object of type '" ++ type ++ "' has no len()"
  | .notCallable type => "'" ++ type ++ "' object is not callable"
  | .notCopyable type => "cannot pickle '" ++ type ++ "' object"
  | .mismatch function m => function ++ "() " ++ m.text
  | .wrongCount text => text
  | .takesNoNames function => function ++ "() takes no keyword arguments"
  | .notAText function place type =>
    (function.elim "" (· ++ "() ")) ++ "argument " ++ Nat.repr place ++ " must be str, not "
      ++ if type = Atom.none.typeName then "None" else type
  | .notAnInteger type => "'" ++ type ++ "' object cannot be interpreted as an integer"
  | .hugeInteger => "Python int too large to convert to C ssize_t"
  | .notBytes type => "a bytes-like object is required, not '" ++ type ++ "'"
  | .wrongBeginning => "startswith first arg must be bytes or a tuple of bytes, not str"
  | .noEnd => "end_offset must be provided when end_lineno is provided"
  | .ungrouped => "second argument (exceptions) must be a sequence"
  | .emptyGroup => "second argument (exceptions) must be a non-empty sequence"
  | .strangeGroup => "Item 0 of second argument (exceptions) is not an exception"
  | .emptyName => "Empty module name"
  | .nullByte => "embedded null byte"
  | .tooDeep => "maximum recursion depth exceeded while calling a Python object"
  | .endless => "maximum recursion depth exceeded in comparison"
  | .circular => "Circular reference detected"

/-- The arguments of the error, as they are shown: a key by itself, and words for all else. -/
def arguments (w : World) : Misuse → List String
  | .noKey key => [w.shown key]
  | m => [Text.quoted m.text]

end Misuse
end OpenApiDoc
