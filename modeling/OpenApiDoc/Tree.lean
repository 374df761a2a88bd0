import OpenApiDoc.Value
import OpenApiDoc.Number.Shortest
import OpenApiDoc.Text.InlineFlags
import OpenApiDoc.Text.Quoted
import OpenApiDoc.Calendar

/-! # Values seen as finite trees

A tree is what a value looks like when every address is replaced by what is stored there, so it no
longer shows what is shared. Comparing values, showing them in messages and writing JSON depend on
the tree alone.

* A collection that holds itself is cut off at its second occurrence by `Tree.cycle`.
* `Tree.same` compares parts of collections; the order of a mapping's entries does not count.
* `Tree.shown` is the text of a value inside messages, `Tree.text` the text of a value that is
  inserted into other text. -/

namespace OpenApiDoc

/-- The schema constructors. -/
inductive Constructor where
  | boolean | integer | number | string | date | dateTime | binary | email | uuid | uri
  | pattern | constant | choice | ref | array | object
deriving DecidableEq, Repr

namespace Constructor

/-- The name a constructor is called by. -/
def name : Constructor → String
  | .boolean => "boolean"
  | .integer => "integer"
  | .number => "number"
  | .string => "string"
  | .date => "date"
  | .dateTime => "date_time"
  | .binary => "binary"
  | .email => "email"
  | .uuid => "uuid"
  | .uri => "uri"
  | .pattern => "pattern"
  | .constant => "constant"
  | .choice => "choice"
  | .ref => "ref"
  | .array => "array"
  | .object => "object_"

/-- Every constructor, each once. -/
def all : List Constructor :=
  [.boolean, .integer, .number, .string, .date, .dateTime, .binary, .email, .uuid, .uri,
   .pattern, .constant, .choice, .ref, .array, .object]

end Constructor

/-- The records that fix their fields when they are made. -/
inductive Model where
  | node
  | operation
deriving DecidableEq, Repr

namespace Model

def name : Model → String
  | .node => "SchemaNode"
  | .operation => "Operation"

end Model

/-- Objects that are told apart by their identity alone: a schema constructor by its name, a
builder, a module, and what the import of a module leaves in it, by the name of its type. -/
inductive Sealed where
  | constructor (name : String)
  | builder
  | module
  | machinery (type : String)
deriving DecidableEq, Repr

namespace Sealed

/-- The name of a sealed object's type in messages. -/
def typeName : Sealed → String
  | .constructor _ => "SchemaConstructor"
  | .builder => "function"
  | .module => "module"
  | .machinery type => type

/-- The object describes an import and may still change. -/
def isMutable : Sealed → Bool
  | .machinery type => type == "ModuleSpec"
  | _ => false

def shown : Sealed → String
  | .constructor name => "<schema constructor " ++ name ++ ">"
  | k => "<" ++ k.typeName ++ ">"

end Sealed

/-- The brackets of a collection. -/
inductive Bracket where
  | list
  | tuple
  | mapping
  | record
deriving DecidableEq, Repr

/-- A value with its parts in place of addresses. -/
inductive Tree where
  | atom (a : Atom)
  | moment (m : Moment)
  | list (items : List Tree)
  | tuple (items : List Tree)
  | mapping (entries : List (Tree × Tree))
  | model (m : Model) (fields : List (String × Tree))
  | sealed (k : Sealed) (identity : Addr)
  /-- A collection that is already being looked at. -/
  | cycle (b : Bracket)

namespace Tree

@[match_pattern] abbrev none : Tree := .atom .none
@[match_pattern] abbrev str (s : String) : Tree := .atom (.str s)
@[match_pattern] abbrev bool (b : Bool) : Tree := .atom (.bool b)

/-! ### Equality -/

mutual

/-- Equality of parts: an atom that is not a number is the same as itself. -/
def same : Tree → Tree → Bool
  | .atom a, t => match t with
    | .atom b => a.same b
    | _ => false
  | .moment m, t => match t with
    | .moment n => m == n
    | _ => false
  | .list xs, t => match t with
    | .list ys => sameItems xs ys
    | _ => false
  | .tuple xs, t => match t with
    | .tuple ys => sameItems xs ys
    | _ => false
  | .mapping xs, t => match t with
    | .mapping ys => xs.length == ys.length && sameEntries xs ys
    | _ => false
  | .model m fs, t => match t with
    | .model n gs => m == n && sameFields fs gs
    | _ => false
  | .sealed _ i, t => match t with
    | .sealed _ j => i == j
    | _ => false
  | .cycle b, t => match t with
    | .cycle c => b == c
    | _ => false

def sameItems : List Tree → List Tree → Bool
  | [], [] => true
  | x :: xs, y :: ys => same x y && sameItems xs ys
  | _, _ => false

/-- Every entry of the first mapping is in the second. -/
def sameEntries : List (Tree × Tree) → List (Tree × Tree) → Bool
  | [], _ => true
  | (k, v) :: rest, ys => (ys.any fun e => same k e.1 && same v e.2) && sameEntries rest ys

def sameFields : List (String × Tree) → List (String × Tree) → Bool
  | [], [] => true
  | (k, x) :: xs, (l, y) :: ys => k == l && same x y && sameFields xs ys
  | _, _ => false

end

mutual

/-- The name of the type of the first part that cannot be in a key of a mapping. Keys are free of
lists and mappings; a record has a mapping among its first fields. -/
def unhashable? : Tree → Option String
  | .atom _ => Option.none
  | .moment _ => Option.none
  | .sealed k _ => if Sealed.isMutable k then some k.typeName else Option.none
  | .tuple xs => unhashableIn? xs
  | .mapping _ => some "dict"
  | .model _ _ => some "dict"
  | .list _ => some "list"
  | .cycle _ => some "list"

def unhashableIn? : List Tree → Option String
  | [] => Option.none
  | x :: xs => (unhashable? x).orElse fun _ => unhashableIn? xs

end

/-! ### Text -/

/-- The text between brackets, separated by commas. -/
def bracketed (opening closing : String) (parts : List String) : String :=
  opening ++ ", ".intercalate parts ++ closing

/-- A tuple of one item keeps a comma behind it. -/
def tupleText : List String → String
  | [x] => "(" ++ x ++ ",)"
  | xs => bracketed "(" ")" xs

end Tree

namespace Atom

/-- A pattern as the call that compiles it: at most 200 characters of its quoted source, and its
flags. -/
def shownPattern (source : String) : String :=
  let flags := InlineFlags.ofSource source
  let shownFlags := if flags.isEmpty then [] else ["|".intercalate (flags.map (·.name))]
  Tree.bracketed "re.compile(" ")"
    (String.ofList ((Text.quoted source).toList.take 200) :: shownFlags)

def shown : Atom → String
  | .none => "None"
  | .bool true => "True"
  | .bool false => "False"
  | .int i => toString i
  | .float x => shownNumber.text x
  | .str s => Text.quoted s
  | .bytes bs => Text.quotedBytes bs
  | .pattern s => shownPattern s

end Atom

namespace Tree

mutual

/-- The text of a value inside a message: text is quoted, collections are written out. -/
def shown : Tree → String
  | .atom a => a.shown
  | .moment m => m.shown
  | .list xs => bracketed "[" "]" (shownItems xs)
  | .tuple xs => tupleText (shownItems xs)
  | .mapping es => bracketed "\x7b" "\x7d" (shownEntries es)
  | .model m fs => bracketed (m.name ++ "(") ")" (shownFields fs)
  | .sealed k _ => k.shown
  | .cycle .list => "[...]"
  | .cycle .tuple => "(...)"
  | .cycle .mapping => "\x7b...\x7d"
  | .cycle .record => "..."

def shownItems : List Tree → List String
  | [] => []
  | x :: xs => shown x :: shownItems xs

def shownEntries : List (Tree × Tree) → List String
  | [] => []
  | (k, v) :: es => (shown k ++ ": " ++ shown v) :: shownEntries es

def shownFields : List (String × Tree) → List String
  | [] => []
  | (k, v) :: fs => (k ++ "=" ++ shown v) :: shownFields fs

end

/-- The text of a value as part of other text: a text stands for itself, a record lists its fields.
-/
def text : Tree → String
  | .atom (.str s) => s
  | .moment m => m.iso " "
  | .model _ fs => " ".intercalate (shownFields fs)
  | t => t.shown

theorem unhashableIn?_eq (xs : List Tree) : unhashableIn? xs = xs.findSome? unhashable? := by
  induction xs with
  | nil => rfl
  | cons x xs ih => cases h : unhashable? x <;> simp [unhashableIn?, List.findSome?, h, ih]

end Tree
end OpenApiDoc
