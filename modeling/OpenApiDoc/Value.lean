import OpenApiDoc.Number.Binary64

/-! # Values

A value is an atom, which has no parts and no identity, or the address of an object of the store.
Two occurrences of one address are the same object: writing through one is seen through the other.

* `Atom.equals` is equality as a document's author sees it: booleans, integers and floating-point
  numbers are compared by their number, so `true`, `1` and `1.0` are equal.
* An atom that is not a number equals nothing, itself included; its bits still tell which evaluation
  made it, and `Atom.same` accepts it as the same. -/

namespace OpenApiDoc

/-- Values without parts. -/
inductive Atom where
  | none
  | bool (b : Bool)
  | int (i : Int)
  | float (x : Binary64)
  | str (s : String)
  | bytes (bs : List UInt8)
  /-- A regular expression, by its source text. -/
  | pattern (source : String)
deriving DecidableEq, Repr

/-- The number of an object in the store. -/
abbrev Addr := Nat

/-- An atom, or an object of the store. -/
inductive Value where
  | atom (a : Atom)
  | obj (a : Addr)
deriving DecidableEq, Repr

namespace Value

@[match_pattern] abbrev none : Value := .atom .none
@[match_pattern] abbrev bool (b : Bool) : Value := .atom (.bool b)
@[match_pattern] abbrev int (i : Int) : Value := .atom (.int i)
@[match_pattern] abbrev float (x : Binary64) : Value := .atom (.float x)
@[match_pattern] abbrev str (s : String) : Value := .atom (.str s)
@[match_pattern] abbrev bytes (bs : List UInt8) : Value := .atom (.bytes bs)

end Value

namespace Atom

/-- The number an atom stands for, if any. -/
inductive Number where
  | int (i : Int)
  | float (x : Binary64)

def number? : Atom → Option Number
  | .bool b => some (.int (if b then 1 else 0))
  | .int i => some (.int i)
  | .float x => some (.float x)
  | _ => Option.none

namespace Number

def equals : Number → Number → Bool
  | .int i, .int j => i == j
  | .int i, .float x => x.equalsInt i
  | .float x, .int i => x.equalsInt i
  | .float x, .float y => x.sameNumber y

end Number

/-- Equal as numbers, or the same text, bytes or pattern. -/
def equals (a b : Atom) : Bool :=
  match a.number?, b.number? with
  | some m, some n => m.equals n
  | Option.none, Option.none => a == b
  | _, _ => false

/-- Equal, or made by the same evaluation. -/
def same (a b : Atom) : Bool := a == b || a.equals b

/-- An atom that counts as absent where a mapping is optional: nothing, false, zero or empty. -/
def isEmpty : Atom → Bool
  | .none => true
  | .bool b => !b
  | .int i => i == 0
  | .float x => x.isZero
  | .str s => s.isEmpty
  | .bytes bs => bs.isEmpty
  | .pattern _ => false

/-- The name of an atom's type in messages. -/
def typeName : Atom → String
  | .none => "NoneType"
  | .bool _ => "bool"
  | .int _ => "int"
  | .float _ => "float"
  | .str _ => "str"
  | .bytes _ => "bytes"
  | .pattern _ => "Pattern"

/-- The name of an atom's type with the module that it is from. -/
def typePath : Atom → String
  | .pattern s => "re." ++ (Atom.pattern s).typeName
  | a => a.typeName

theorem same_refl (a : Atom) : a.same a = true := by simp [same]

@[simp] theorem same_str (s t : String) : (Atom.str s).same (.str t) = decide (s = t) := by
  by_cases h : s = t <;> simp [same, equals, number?, h]

end Atom
end OpenApiDoc
