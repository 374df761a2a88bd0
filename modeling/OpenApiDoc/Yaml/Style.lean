import OpenApiDoc.Yaml.Implicit
import OpenApiDoc.Text.Quoted

/-! # How a text is written as a scalar

A text is written plainly when it would be read back as itself, between single quotes when it holds
no character that needs an escape and no blank beside a line break, and between double quotes
otherwise. -/

namespace OpenApiDoc.Yaml

/-- The ways of writing a text. -/
inductive Style where
  | plain
  | single
  | double
deriving DecidableEq, Repr

namespace Style

/-- The characters that end a line. -/
def isBreak (c : Char) : Bool := c == '\n' || c == '\x85' || c == '\u2028' || c == '\u2029'

/-- The characters that separate an indicator from text. -/
def isSeparator (c : Char) : Bool := c == '\x00' || c == ' ' || c == '\t' || c == '\r' || isBreak c

/-- Characters that cannot be written without an escape. -/
def needsEscape (c : Char) : Bool :=
  let n := c.toNat
  !(c == '\n' || (0x20 ≤ n && n ≤ 0x7E)
    || ((n == 0x85 || (0xA0 ≤ n && n ≤ 0xD7FF) || (0xE000 ≤ n && n ≤ 0xFFFD)
        || (0x10000 ≤ n && n < 0x10FFFF)) && n != 0xFEFF))

/-- Neighbouring characters for which `p` holds. -/
def anyNeighbours (p : Char → Char → Bool) : List Char → Bool
  | c :: d :: rest => p c d || anyNeighbours p (d :: rest)
  | _ => false

def endsWith (p : Char → Bool) (cs : List Char) : Bool := cs.getLast?.any p

def startsWith (p : Char → Bool) (cs : List Char) : Bool := cs.head?.any p

/-- A character at the front that would be taken for markup. -/
def isLeadingIndicator (c : Char) : Bool := "#,[]\x7b\x7d&*!|>'\"%@\x60".toList.contains c

/-- The text behind a character starts with a separator, or there is none. -/
def isSeparated (rest : List Char) : Bool := rest.head?.all isSeparator

/-- A mark that is markup only before a separator. -/
def isBlockMark (c : Char) : Bool := c == '-' || c == '?' || c == ':'

/-- Markup behind the first character: a colon before a separator, or a hash behind one. -/
def hasInnerIndicator : List Char → Bool
  | [] => false
  | [_] => false
  | c :: d :: rest =>
    (d == ':' && isSeparated rest) || (d == '#' && isSeparator c) || hasInnerIndicator (d :: rest)

/-- The text holds something that would be taken for markup. -/
def hasIndicator (cs : List Char) : Bool :=
  ['-', '-', '-'].isPrefixOf cs || ['.', '.', '.'].isPrefixOf cs
    || (match cs with
      | [] => false
      | c :: rest => isLeadingIndicator c || (isBlockMark c && isSeparated rest))
    || hasInnerIndicator cs

def isMultiline (cs : List Char) : Bool := cs.any isBreak

/-- A blank before a line break, or a character that needs an escape. -/
def needsDouble (cs : List Char) : Bool :=
  anyNeighbours (fun c d => c == ' ' && isBreak d) cs || cs.any needsEscape

/-- A blank behind a line break. -/
def hasIndentedLine (cs : List Char) : Bool := anyNeighbours (fun c d => isBreak c && d == ' ') cs

def isBlankOrBreak (c : Char) : Bool := c == ' ' || isBreak c

/-- The text can stand without quotes. -/
def allowsPlain (cs : List Char) : Bool :=
  !(startsWith isBlankOrBreak cs || endsWith isBlankOrBreak cs || hasIndentedLine cs
    || needsDouble cs || isMultiline cs || hasIndicator cs)

/-- The text can stand between single quotes. -/
def allowsSingle (cs : List Char) : Bool := !(hasIndentedLine cs || needsDouble cs)

/-- The style a text is written in. -/
def of (cs : List Char) : Style :=
  if Implicit.of cs = .text ∧ allowsPlain cs then .plain
  else if allowsSingle cs then .single
  else .double

end Style
end OpenApiDoc.Yaml
