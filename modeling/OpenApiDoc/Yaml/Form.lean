import OpenApiDoc.Store
import OpenApiDoc.Text.Base64
import OpenApiDoc.Yaml.Style

/-! # YAML documents before layout

A form is a tree of scalars, sequences and mappings in which an object that occurs more than once is
anchored at its first occurrence and referred to by an alias afterwards. -/

namespace OpenApiDoc.Yaml

/-- The scalars that documents hold. -/
inductive Scalar where
  | null
  | bool (b : Bool)
  | int (i : Int)
  | float (x : Binary64)
  | moment (m : Moment)
  | text (s : String)
  | binary (bs : List UInt8)
deriving DecidableEq, Repr

/-- A document before layout. -/
inductive Form where
  | alias (n : Nat)
  | scalar (anchor : Option Nat) (s : Scalar)
  | sequence (anchor : Option Nat) (items : List Form)
  | mapping (anchor : Option Nat) (entries : List (Form × Form))

namespace Scalar

def numberLayout : NumberLayout := { shownNumber with nan := ".nan", infinity := ".inf" }

/-- A mantissa without a point gets one, so that the text is not taken for a word. -/
def pointed (cs : List Char) : List Char :=
  if cs.contains '.' then cs
  else cs.flatMap fun c => if c = 'e' then ['.', '0', 'e'] else [c]

/-- The characters of a scalar, before quoting and folding. -/
def content : Scalar → List Char
  | .null => "null".toList
  | .bool b => (if b then "true" else "false").toList
  | .int i => (toString i).toList
  | .float x => pointed (numberLayout.text x).toList
  | .moment m => (m.iso " ").toList
  | .text s => s.toList
  | .binary bs => Text.Base64.lines bs

/-- The short name of a scalar's type. -/
def tag : Scalar → String
  | .null => "!!null"
  | .bool _ => "!!bool"
  | .int _ => "!!int"
  | .float _ => "!!float"
  | .moment _ => "!!timestamp"
  | .text _ => "!!str"
  | .binary _ => "!!binary"

end Scalar

/-- The name of an anchor. -/
def anchorName (n : Nat) : List Char := ("id" ++ padded 3 n).toList

end OpenApiDoc.Yaml
