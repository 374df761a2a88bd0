import OpenApiDoc.Json.Basic

/-! # Writing JSON

Every item and member stands on a line of its own, indented by two spaces for each level; empty
collections are closed at once. Only quotes, backslashes and control characters are escaped. -/

namespace OpenApiDoc.Json

/-- The escape of a character that may not stand for itself inside a text. -/
def escape? (c : Char) : Option (List Char) :=
  match c with
  | '"' => some ['\\', '"']
  | '\\' => some ['\\', '\\']
  | '\n' => some ['\\', 'n']
  | '\r' => some ['\\', 'r']
  | '\t' => some ['\\', 't']
  | '\x08' => some ['\\', 'b']
  | '\x0c' => some ['\\', 'f']
  | c => if c.toNat < 32 then some ('\\' :: 'u' :: Text.hexDigits 4 c.toNat) else none

def writeChar (c : Char) : List Char := (escape? c).getD [c]

/-- A text between quotes. -/
def writeString (s : String) : List Char := '"' :: (s.toList.flatMap writeChar ++ ['"'])

/-- The start of a line at a level of nesting. -/
def lineStart (level : Nat) : List Char := '\n' :: List.replicate (2 * level) ' '

mutual

/-- A value at a level of nesting. -/
def write (level : Nat) : Json → List Char
  | .null => "null".toList
  | .bool b => (truthText b).toList
  | .int i => (toString i).toList
  | .float x => (numberLayout.text x).toList
  | .str s => writeString s
  | .arr [] => ['[', ']']
  | .arr (x :: xs) =>
    '[' :: (lineStart (level + 1) ++ write (level + 1) x ++ writeItems (level + 1) xs
      ++ lineStart level ++ [']'])
  | .obj [] => ['\x7b', '\x7d']
  | .obj ((k, v) :: ms) =>
    '\x7b' :: (lineStart (level + 1) ++ writeString k ++ [':', ' '] ++ write (level + 1) v
      ++ writeMembers (level + 1) ms ++ lineStart level ++ ['\x7d'])

/-- The items after the first. -/
def writeItems (level : Nat) : List Json → List Char
  | [] => []
  | x :: xs => ',' :: (lineStart level ++ write level x ++ writeItems level xs)

/-- The members after the first. -/
def writeMembers (level : Nat) : List (String × Json) → List Char
  | [] => []
  | (k, v) :: ms =>
    ',' :: (lineStart level ++ writeString k ++ [':', ' '] ++ write level v
      ++ writeMembers level ms)

end

/-- A value as a text that ends in a line feed. -/
def render (j : Json) : String := String.ofList (write 0 j ++ ['\n'])

end OpenApiDoc.Json
