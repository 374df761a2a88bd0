import OpenApiDoc.Yaml.Style

/-! # Texts over several lines

Each style writes a text from a given column and starts a new line where a line has grown beyond
`width` and the text allows it. Lines after the first are indented.

* Plain and single-quoted texts may be broken at a blank that stands alone; the line break takes its
  place.
* In single quotes a line feed is written as an empty line, so that it is not taken for a blank.
* In double quotes a line may end before a blank, or beside an escape, with a backslash. -/

namespace OpenApiDoc.Yaml.Folding

/-- A line that has grown beyond this many columns is ended where the text allows it. -/
def width : Nat := 80

def blanks (n : Nat) : List Char := List.replicate n ' '

/-- The start of a further line. -/
def newLine (indent : Nat) : List Char := '\n' :: blanks indent

/-- A blank with other characters on both sides. -/
def standsAlone (before : Option Char) (rest : List Char) : Bool :=
  before.any (· ≠ ' ') && rest.head?.any (· ≠ ' ')

/-! ### Plain and single-quoted -/

/-- A plain text from a column, given the character before it. -/
def plain (indent : Nat) (before : Option Char) (column : Nat) : List Char → List Char
  | [] => []
  | c :: rest =>
    if c = ' ' ∧ standsAlone before rest ∧ width < column then
      newLine indent ++ plain indent (some c) indent rest
    else c :: plain indent (some c) (column + 1) rest

/-- The inside of single quotes from a column, given the character before it. -/
def single (indent : Nat) (before : Option Char) (column : Nat) : List Char → List Char
  | [] => []
  | c :: rest =>
    if Style.isBreak c then
      let extra := if c = '\n' ∧ !before.any Style.isBreak then ['\n'] else []
      if rest.head?.any Style.isBreak then
        extra ++ c :: single indent (some c) 0 rest
      else extra ++ c :: (blanks indent ++ single indent (some c) indent rest)
    else if c = ' ' ∧ standsAlone before rest ∧ width < column then
      newLine indent ++ single indent (some c) indent rest
    else if c = '\x27' then '\x27' :: '\x27' :: single indent (some c) (column + 2) rest
    else c :: single indent (some c) (column + 1) rest

/-! ### Double-quoted -/

/-- The letter of a short escape. -/
def letter? : Char → Option Char
  | '\x00' => some '0'
  | '\x07' => some 'a'
  | '\x08' => some 'b'
  | '\x09' => some 't'
  | '\x0a' => some 'n'
  | '\x0b' => some 'v'
  | '\x0c' => some 'f'
  | '\x0d' => some 'r'
  | '\x1b' => some 'e'
  | '"' => some '"'
  | '\\' => some '\\'
  | '\x85' => some 'N'
  | '\u2028' => some 'L'
  | '\u2029' => some 'P'
  | _ => none

/-- The character stands for itself between double quotes. -/
def isRaw (c : Char) : Bool :=
  let n := c.toNat
  c ≠ '"' && c ≠ '\\' && ((0x20 ≤ n && n ≤ 0x7E)
    || (((0xA0 ≤ n && n ≤ 0xD7FF) || (0xE000 ≤ n && n ≤ 0xFFFD))
      && n ≠ 0x2028 && n ≠ 0x2029 && n ≠ 0xFEFF))

/-- An escape: a letter, or upper-case digits. -/
def escape (c : Char) : List Char :=
  match letter? c with
  | some l => ['\\', l]
  | none => Text.numericEscape Char.toUpper c

/-- What stands before a character that starts a further line: a blank there is marked. -/
def lineHead (rest : List Char) : List Char := if rest.head? = some ' ' then ['\\'] else []

/-- The inside of double quotes from a column. `split` allows further lines; `first` holds at the
first character and `escaped` behind an escape. -/
def double (indent : Nat) (split first escaped : Bool) (column : Nat) : List Char → List Char
  | [] => []
  | c :: rest =>
    let inner := split && !first && !rest.isEmpty
    if isRaw c then
      if inner && (c == ' ' || escaped) && width < column then
        let head := lineHead (c :: rest)
        '\\' :: (newLine indent ++ head
          ++ c :: double indent split false false (indent + head.length + 1) rest)
      else c :: double indent split false false (column + 1) rest
    else
      let e := escape c
      if inner && width + 1 < column + e.length then
        let head := lineHead rest
        e ++ '\\' :: (newLine indent ++ head
          ++ double indent split false true (indent + head.length) rest)
      else e ++ double indent split false true (column + e.length) rest

/-- A text in a style, from the column of its first character. Where no further lines are allowed
the text is taken to be short enough. -/
def text (style : Style) (split : Bool) (indent column : Nat) (cs : List Char) : List Char :=
  match style with
  | .plain => if split then plain indent none column cs else cs
  | .single =>
    let inside :=
      if split then single indent none (column + 1) cs
      else cs.flatMap fun c => if c = '\x27' then ['\x27', '\x27'] else [c]
    '\x27' :: (inside ++ ['\x27'])
  | .double => '"' :: (double indent split true false (column + 1) cs ++ ['"'])

end OpenApiDoc.Yaml.Folding
