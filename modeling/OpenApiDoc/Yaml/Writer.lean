import OpenApiDoc.Yaml.Form
import OpenApiDoc.Yaml.Folding

/-! # The layout of YAML documents

Documents are written in block style. Entries of a mapping are indented by two columns for each
level; the items of a sequence that is the value of a key stand at the column of the key. Every form
ends its own line, so that what follows only writes its indentation.

`Place` tells what stands in front of a form on its line. Behind a dash or behind the marks of a
long key, a collection without an anchor starts on the same line. -/

namespace OpenApiDoc.Yaml

open Folding (blanks)

/-- What a form stands behind. -/
inductive Place where
  /-- The dash of an item. -/
  | item
  /-- The colon of a key on the same line. -/
  | value
  /-- The question mark of a long key, or the colon of its value. -/
  | long
deriving DecidableEq, Repr

namespace Form

/-- A mark of an anchored form. -/
def anchorMark : Option Nat → List Char
  | none => []
  | some n => '&' :: anchorName n

/-- A mark followed by a blank, if there is one. -/
def spaced (mark : List Char) : List Char := if mark.isEmpty then [] else mark ++ [' ']

/-- Bytes are marked, since their text alone would be read as a text. -/
def typeMark : Scalar → List Char
  | .binary _ => "!!binary".toList
  | _ => []

/-- Lines of bytes below their mark; without any bytes there is an empty text. -/
def binaryText (indent : Nat) (cs : List Char) : List Char :=
  if cs.isEmpty then ['"', '"', '\n']
  else '|' :: '\n' :: lines cs (blanks indent)
where
  /-- Every line behind the indentation. -/
  lines : List Char → List Char → List Char
    | [], _ => []
    | c :: rest, start =>
      start ++ c :: lines rest (if c = '\n' then blanks indent else [])

/-- The text of a scalar that is not bytes, from a column. -/
def scalarText (s : Scalar) (split : Bool) (indent column : Nat) : List Char :=
  let style := match s with
    | .text t => Style.of t.toList
    | _ => .plain
  Folding.text style split indent column s.content

/-- A scalar to the end of its line, from a column. -/
def scalarLine (s : Scalar) (indent column : Nat) : List Char :=
  match s with
  | .binary _ => binaryText indent s.content
  | _ => scalarText s true indent column ++ ['\n']

/-- The columns taken by an anchor's name. -/
def anchorLength (anchor : Option Nat) : Nat := (anchor.map fun n => (anchorName n).length).getD 0

/-- A key that fits on a line with its value: an alias, an empty collection, or a scalar on one line
that is not too long. -/
def isShortKey : Form → Bool
  | .alias _ => true
  | .scalar anchor s =>
    let cs := s.content
    anchorLength anchor + s.tag.length + cs.length < 128 && !cs.isEmpty && !Style.isMultiline cs
  | .sequence _ items => items.isEmpty
  | .mapping _ entries => entries.isEmpty

/-- A key that fits on a line with its value. -/
def keyText : Form → List Char
  | .alias n => '*' :: anchorName n
  | .scalar anchor s => spaced (anchorMark anchor) ++ scalarText s false 0 0
  | .sequence anchor _ => spaced (anchorMark anchor) ++ ['[', ']']
  | .mapping anchor _ => spaced (anchorMark anchor) ++ ['\x7b', '\x7d']

/-- The column of a sequence's dashes below a collection at `indent`. -/
def dashColumn (place : Place) (anchor : Option Nat) (indent : Nat) : Nat :=
  match place, anchor with
  | .value, _ => indent
  | .long, some _ => indent
  | _, _ => indent + 2

/-- A collection starts on the line of what it stands behind. -/
def startsInline (place : Place) (anchor : Option Nat) : Bool :=
  place ≠ .value && anchor.isNone

/-- The lines of a collection behind what stands in front of it. -/
def placed (place : Place) (anchor : Option Nat) (indent : Nat) (lines : List Char) : List Char :=
  if startsInline place anchor then ' ' :: lines.drop indent
  else (if anchor.isNone then [] else ' ' :: anchorMark anchor) ++ '\n' :: lines

mutual

/-- A form from a column to the end of its last line, inside a collection at `indent`. -/
def write (place : Place) (indent column : Nat) : Form → List Char
  | .alias n => ' ' :: '*' :: (anchorName n ++ ['\n'])
  | .scalar anchor s =>
    let marks := ' ' :: (spaced (anchorMark anchor) ++ spaced (typeMark s))
    marks ++ scalarLine s (indent + 2) (column + marks.length)
  | .sequence anchor [] => ' ' :: (spaced (anchorMark anchor) ++ ['[', ']', '\n'])
  | .sequence anchor (x :: xs) =>
    let below := dashColumn place anchor indent
    placed place anchor below (writeItems below (x :: xs))
  | .mapping anchor [] => ' ' :: (spaced (anchorMark anchor) ++ ['\x7b', '\x7d', '\n'])
  | .mapping anchor (e :: es) =>
    placed place anchor (indent + 2) (writeEntries (indent + 2) (e :: es))

/-- The items of a sequence whose dashes stand at `indent`. -/
def writeItems (indent : Nat) : List Form → List Char
  | [] => []
  | x :: xs => blanks indent ++ '-' :: (write .item indent (indent + 1) x ++ writeItems indent xs)

/-- The entries of a mapping whose keys stand at `indent`. -/
def writeEntries (indent : Nat) : List (Form × Form) → List Char
  | [] => []
  | (k, v) :: es =>
    let entry :=
      if isShortKey k then
        let key := keyText k
        blanks indent ++ key ++ ':' :: write .value indent (indent + key.length + 1) v
      else
        blanks indent ++ '?' :: write .long indent (indent + 1) k
          ++ blanks indent ++ ':' :: write .long indent (indent + 1) v
    entry ++ writeEntries indent es

end

/-- A document: the entries of a mapping at the margin, or an empty mapping. -/
def document (entries : List (Form × Form)) : String :=
  String.ofList (if entries.isEmpty then ['\x7b', '\x7d', '\n'] else writeEntries 0 entries)

end Form
end OpenApiDoc.Yaml
