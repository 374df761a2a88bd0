import OpenApiDoc.Builder.Expr
import OpenApiDoc.Json.Reader

/-! # Builder modules as JSON

Expressions are written in JSON. Nothing, truth values, whole numbers, texts and arrays stand for
themselves; an object with one member stands for another literal, and an object with a `call` for a
call with its arguments and named arguments. A module is an array of pairs of a name and an
expression. -/

namespace OpenApiDoc

namespace Json

mutual

/-- The number of levels of a value. -/
def depth : Json → Nat
  | .arr xs => depthItems xs + 1
  | .obj ms => depthMembers ms + 1
  | _ => 1

def depthItems : List Json → Nat
  | [] => 0
  | x :: xs => max (depth x) (depthItems xs)

def depthMembers : List (String × Json) → Nat
  | [] => 0
  | (_, v) :: ms => max (depth v) (depthMembers ms)

end

def str? : Json → Option String
  | .str s => some s
  | _ => none

def arr? : Json → Option (List Json)
  | .arr xs => some xs
  | _ => none

/-- A pair, written as an array of two. -/
def pair? : Json → Option (Json × Json)
  | .arr [x, y] => some (x, y)
  | _ => none

/-- A pair whose first part is a name. -/
def named? (j : Json) : Option (String × Json) := do
  let (name, v) ← j.pair?
  return (← name.str?, v)

end Json

namespace Expr

/-- A whole number of any size. -/
def readInt? (s : String) : Option Int :=
  match Json.read? s with
  | some (.int i) => some i
  | _ => none

/-- The greatest number of digits of a whole number that is read. -/
def mostDigits : Nat := 4300

/-- What is said about a whole number of too many digits. -/
def tooManyDigits (count : Nat) : String :=
  "Exceeds the limit (" ++ Nat.repr mostDigits ++ " digits) for integer string conversion: "
    ++ "value has " ++ Nat.repr count ++ " digits; use sys.set_int_max_str_digits() to increase the limit"

/-- The literal of a whole number; one of too many digits fails when it is evaluated. -/
def integer? (s : String) : Option Expr := do
  let i ← readInt? s
  let digits := (s.toList.filter Char.isDigit).length
  if digits ≤ mostDigits then return .atom (.int i)
  else return .raise "ValueError" [.atom (.str (tooManyDigits digits))]

/-- A number from its shortest text. -/
def readFloat? (s : String) : Option Binary64 :=
  match s with
  | "nan" => some (.notANumber 0)
  | "inf" => some (.infinity false)
  | "-inf" => some (.infinity true)
  | s => match Json.read? s with
    | some (.float x) => some x
    | some (.int i) => some (.ofDecimal (i < 0) i.natAbs 0)
    | _ => none

/-- Bytes from pairs of hexadecimal digits. -/
def readBytes? : List Char → Option (List UInt8)
  | [] => some []
  | a :: b :: rest => do
    let high ← Json.hexValue? a
    let low ← Json.hexValue? b
    return UInt8.ofNat (high * 16 + low) :: (← readBytes? rest)
  | _ => none

/-- A literal that is written as an object with one member. -/
def literal? (kind text : String) : Option Expr :=
  match kind with
  | "i" => integer? text
  | "f" => (readFloat? text).map fun x => .atom (.float x)
  | "b" => (readBytes? text.toList).map fun bs => .atom (.bytes bs)
  | "re" => some (.atom (.pattern text))
  | "date" => (Moment.read? text).map .moment
  | "datetime" => (Moment.read? text).map .moment
  | "fn" => (Callee.constructors.lookup text).map .constructor
  | "v" => some (.reference text)
  | _ => none

/-- The expressions of an array. -/
def listOf? (read : Json → Option Expr) (j : Json) : Option (List Expr) := do (← j.arr?).mapM read

def entryOf? (read : Json → Option Expr) (j : Json) : Option (Expr × Expr) := do
  let (k, v) ← j.pair?
  return (← read k, ← read v)

def namedOf? (read : Json → Option Expr) (j : Json) : Option (String × Expr) := do
  let (name, v) ← j.named?
  return (name, ← read v)

/-- A call, from the members of its object. -/
def callOf? (read : Json → Option Expr) (members : List (String × Json)) : Option Expr := do
  let f ← Callee.ofName? (← (← members.lookup "call").str?)
  let args ← listOf? read ((members.lookup "args").getD (.arr []))
  let named ← (← ((members.lookup "kw").getD (.arr [])).arr?).mapM (namedOf? read)
  return .call f args named

/-- An exception to raise: its kind and its arguments. -/
def raiseOf? (read : Json → Option Expr) (j : Json) : Option Expr := do
  match ← j.arr? with
  | kind :: args => return .raise (← kind.str?) (← args.mapM read)
  | [] => none

/-- An object with one member. -/
def memberOf? (read : Json → Option Expr) (kind : String) (j : Json) : Option Expr :=
  match kind with
  | "t" => (listOf? read j).map .tuple
  | "m" => do return .mapping (← (← j.arr?).mapM (entryOf? read))
  | "raise" => raiseOf? read j
  | "builder" => (read j).map .builder
  | kind => do literal? kind (← j.str?)

/-- Read an expression of at most the given depth. -/
def ofJson? : Nat → Json → Option Expr
  | 0, _ => none
  | fuel + 1, j =>
    match j with
    | .null => some (.atom .none)
    | .bool b => some (.atom (.bool b))
    | .int i => some (.atom (.int i))
    | .float x => some (.atom (.float x))
    | .str s => some (.atom (.str s))
    | .arr xs => (xs.mapM (ofJson? fuel)).map .list
    | .obj ms =>
      if (ms.lookup "call").isSome then callOf? (ofJson? fuel) ms
      else match ms with
        | [(kind, v)] => memberOf? (ofJson? fuel) kind v
        | _ => none

/-- Read an expression. -/
def read? (j : Json) : Option Expr := ofJson? j.depth j

end Expr

/-- The expressions of a module, each bound to a name unless the name is empty. -/
abbrev Attributes := List (String × Expr)

namespace Attributes

def ofJson? (j : Json) : Option Attributes := do (← j.arr?).mapM (Expr.namedOf? Expr.read?)

end Attributes
end OpenApiDoc
