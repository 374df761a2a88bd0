import OpenApiDoc.Text.Pieces

/-! # Paths

A path is a root and the names below it. Empty names and single dots are dropped when a path is
read; two dots are kept, since what they mean depends on the directories they lead through. -/

namespace OpenApiDoc

/-- A path in normal form. The root is empty for a path from the working directory. -/
structure Path where
  root : String
  names : List String
deriving DecidableEq, Repr

namespace Path

/-- One leading slash, or three and more, is the root; exactly two are a root of their own. -/
def rootOf : List Char → String
  | '/' :: '/' :: '/' :: _ => "/"
  | '/' :: '/' :: _ => "//"
  | '/' :: _ => "/"
  | _ => ""

def read (s : String) : Path where
  root := rootOf s.toList
  names := ((Text.pieces '/' s.toList).map String.ofList).filter fun n => n ≠ "" ∧ n ≠ "."

/-- The text of a path; the working directory is a dot. -/
def text (p : Path) : String :=
  if p.root.isEmpty ∧ p.names.isEmpty then "." else p.root ++ "/".intercalate p.names

def isRelative (p : Path) : Bool := p.root.isEmpty

/-- The last name of a path without what stands behind its last dot. A dot in front or at the end of
the name does not count. -/
def stem (p : Path) : String :=
  let name := p.names.getLast?.getD ""
  let pieces := Text.pieces '.' name.toList
  let front := ['.'].intercalate pieces.dropLast
  if front.isEmpty || pieces.getLast? == some [] then name else String.ofList front

/-- A text with the character that ends the paths of a system is not the path of any file. -/
def isUnusable (p : Path) : Bool := p.text.contains '\x00'

/-- The number of bytes of a name that a file system allows. -/
def maxName : Nat := 255

/-- The number of bytes that a path must be shorter than. -/
def maxPath : Nat := 4096

/-- A name that no file can have. -/
def isTooLong (name : String) : Bool := name.utf8ByteSize > maxName

/-- The path is too long as a whole. -/
def isOverlong (p : Path) : Bool := p.text.utf8ByteSize ≥ maxPath

end Path
end OpenApiDoc
