/-! # Flags inside a regular expression

A regular expression may open with groups that hold nothing but letters; each letter switches on a
flag for the whole expression. Comments may stand between these groups, and so may blanks and
comments of a line once the verbose flag is on. `InlineFlags.ofSource` lists the flags of an
expression in the order in which they are shown. -/

namespace OpenApiDoc

/-- The flags that an expression can switch on for itself and that are shown. -/
inductive InlineFlag where
  | template
  | ignoreCase
  | multiline
  | dotAll
  | verbose
  | ascii
deriving DecidableEq, Repr

namespace InlineFlag

def all : List InlineFlag := [.template, .ignoreCase, .multiline, .dotAll, .verbose, .ascii]

def letter : InlineFlag → Char
  | .template => 't'
  | .ignoreCase => 'i'
  | .multiline => 'm'
  | .dotAll => 's'
  | .verbose => 'x'
  | .ascii => 'a'

def name : InlineFlag → String
  | .template => "re.TEMPLATE"
  | .ignoreCase => "re.IGNORECASE"
  | .multiline => "re.MULTILINE"
  | .dotAll => "re.DOTALL"
  | .verbose => "re.VERBOSE"
  | .ascii => "re.ASCII"

end InlineFlag

namespace InlineFlags

/-- Where a reader of leading groups stands: before a group, behind its bracket, behind the question
mark, behind the letters read so far, or in a comment that ends with a character. -/
inductive Position where
  | before
  | bracket
  | opened
  | inside (letters : List Char)
  | comment (closing : Char)

/-- A letter that may stand in a group. That of Unicode matching changes nothing. -/
def isLetter (c : Char) : Bool := c == 'u' || InlineFlag.all.any fun f => f.letter == c

/-- The characters that count for nothing in a verbose expression. -/
def isBlank (c : Char) : Bool := [' ', '\t', '\n', '\r', '\x0b', '\x0c'].contains c

/-- The letters of the groups at the front, behind those that are `known`. In a comment a backslash
hides the character behind it. -/
def letters (known : List Char) : Position → List Char → List Char
  | _, [] => known
  | .before, c :: rest =>
    if c = '(' then letters known .bracket rest
    else if known.contains InlineFlag.verbose.letter then
      if isBlank c then letters known .before rest
      else if c = '#' then letters known (.comment '\n') rest
      else known
    else known
  | .bracket, c :: rest => if c = '?' then letters known .opened rest else known
  | .opened, c :: rest =>
    if c = '#' then letters known (.comment ')') rest
    else if isLetter c then letters known (.inside [c]) rest
    else known
  | .inside ls, c :: rest =>
    if c = ')' then letters (known ++ ls) .before rest
    else if isLetter c then letters known (.inside (ls ++ [c])) rest
    else known
  | .comment closing, '\\' :: _ :: rest => letters known (.comment closing) rest
  | .comment closing, c :: rest =>
    if c = closing then letters known .before rest else letters known (.comment closing) rest

/-- The flags that an expression switches on. -/
def ofSource (source : String) : List InlineFlag :=
  let ls := letters [] .before source.toList
  InlineFlag.all.filter fun f => ls.contains f.letter

end InlineFlags
end OpenApiDoc
