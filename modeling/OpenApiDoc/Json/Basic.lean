import OpenApiDoc.Fault

/-! # JSON values

The values of JSON, with whole numbers and others kept apart and the members of an object in order.
`Json.ofTree` gives the JSON value of a value's finite view. Tuples become arrays; keys that are
numbers, truth values or nothing become their texts. -/

namespace OpenApiDoc

/-- A JSON value. -/
inductive Json where
  | null
  | bool (b : Bool)
  | int (i : Int)
  | float (x : Binary64)
  | str (s : String)
  | arr (items : List Json)
  | obj (members : List (String × Json))

namespace Json

/-- Numbers are written as they are shown elsewhere; those without digits have words of their own.
-/
def numberLayout : NumberLayout := { shownNumber with nan := "NaN", infinity := "Infinity" }

def truthText (b : Bool) : String := if b then "true" else "false"

/-- The text of a key. -/
def keyText? : Tree → Except Fault String
  | .atom .none => .ok "null"
  | .atom (.bool b) => .ok (truthText b)
  | .atom (.int i) => .ok (toString i)
  | .atom (.float x) => .ok (numberLayout.text x)
  | .atom (.str s) => .ok s
  | .atom a => .error (.notJsonKey a.typeName)
  | .moment (.date _) => .error (.notJsonKey "date")
  | .moment (.dateTime _ _) => .error (.notJsonKey "datetime")
  | .list _ => .error (.notJsonKey "list")
  | .tuple _ => .error (.notJsonKey "tuple")
  | .mapping _ => .error (.notJsonKey "dict")
  | .model m _ => .error (.notJsonKey m.name)
  | .sealed k _ => .error (.notJsonKey k.typeName)
  | .cycle _ => .error (.misuse .circular)

mutual

def ofTree : Tree → Except Fault Json
  | .atom .none => .ok .null
  | .atom (.bool b) => .ok (.bool b)
  | .atom (.int i) => .ok (.int i)
  | .atom (.float x) => .ok (.float x)
  | .atom (.str s) => .ok (.str s)
  | .atom a => .error (.notJson a.typeName)
  | .moment (.date _) => .error (.notJson "date")
  | .moment (.dateTime _ _) => .error (.notJson "datetime")
  | .list xs => (ofItems xs).map .arr
  | .tuple xs => (ofItems xs).map .arr
  | .mapping es => (ofEntries es).map .obj
  | .model m _ => .error (.notJson m.name)
  | .sealed k _ => .error (.notJson k.typeName)
  | .cycle _ => .error (.misuse .circular)

def ofItems : List Tree → Except Fault (List Json)
  | [] => .ok []
  | x :: xs => do
    let j ← ofTree x
    let js ← ofItems xs
    return j :: js

/-- The members of an object; a key is looked at before its value. -/
def ofEntries : List (Tree × Tree) → Except Fault (List (String × Json))
  | [] => .ok []
  | (k, v) :: es => do
    let name ← keyText? k
    let j ← ofTree v
    let ms ← ofEntries es
    return (name, j) :: ms

end

end Json
end OpenApiDoc
