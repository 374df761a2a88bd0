import OpenApiDoc.Text.Pieces

/-! # What a plain scalar stands for

A scalar written without quotes is read as a truth value, a number, a time stamp, nothing, or one of
two special marks if it has the form of one, and as text otherwise. `Implicit.of` is that decision.
-/

namespace OpenApiDoc.Yaml

/-- What a plain scalar is read as. -/
inductive Implicit where
  | bool
  | float
  | int
  | merge
  | null
  | timestamp
  | value
  | text
deriving DecidableEq, Repr

namespace Implicit

def isDigitOrLow (c : Char) : Bool := c.isDigit || c == '_'

def isOctal (c : Char) : Bool := ('0' ≤ c && c ≤ '7') || c == '_'

def isBinary (c : Char) : Bool := c == '0' || c == '1' || c == '_'

def isHex (c : Char) : Bool :=
  isDigitOrLow c || ('a' ≤ c && c ≤ 'f') || ('A' ≤ c && c ≤ 'F')

/-- The text is not empty and all its characters are of the class. -/
def isRunOf (p : Char → Bool) (cs : List Char) : Bool := !cs.isEmpty && cs.all p

def dropSign : List Char → List Char
  | '-' :: rest => rest
  | '+' :: rest => rest
  | rest => rest

/-! ### Numbers -/

/-- A sixtieth: one digit, or two of which the first is at most five. -/
def isSixtieth : List Char → Bool
  | [d] => d.isDigit
  | [t, d] => '0' ≤ t && t ≤ '5' && d.isDigit
  | _ => false

/-- Digits, followed by at least one sixtieth behind a colon. -/
def isSexagesimal (leading : Char → Bool) (cs : List Char) : Bool :=
  match Text.pieces ':' cs with
  | (d :: ds) :: p :: ps => leading d && ds.all isDigitOrLow && (p :: ps).all isSixtieth
  | _ => false

def isPositive (c : Char) : Bool := '1' ≤ c && c ≤ '9'

def isInt (cs : List Char) : Bool :=
  match dropSign cs with
  | ['0'] => true
  | '0' :: 'b' :: rest => isRunOf isBinary rest
  | '0' :: 'x' :: rest => isRunOf isHex rest
  | '0' :: rest => isRunOf isOctal rest
  | d :: rest => (isPositive d && rest.all isDigitOrLow) || isSexagesimal isPositive (d :: rest)
  | [] => false

/-- Nothing, or a signed exponent. -/
def isExponent : List Char → Bool
  | [] => true
  | e :: s :: ds => (e == 'e' || e == 'E') && (s == '-' || s == '+') && isRunOf Char.isDigit ds
  | _ => false

/-- Digits behind a point, with an exponent or without. -/
def isFraction (cs : List Char) : Bool := isExponent (cs.dropWhile isDigitOrLow)

def infinities : List String := [".inf", ".Inf", ".INF"]

def nans : List String := [".nan", ".NaN", ".NAN"]

/-- Digits before a point. -/
def isPointed (cs : List Char) : Bool :=
  match cs.dropWhile isDigitOrLow with
  | '.' :: rest => (cs.head?.any Char.isDigit) && isFraction rest
  | _ => false

/-- Digits with sixtieths before a point. -/
def isPointedSexagesimal (cs : List Char) : Bool :=
  match cs.dropWhile (· ≠ '.') with
  | '.' :: rest => isSexagesimal Char.isDigit (cs.takeWhile (· ≠ '.')) && rest.all isDigitOrLow
  | _ => false

def isFloat (cs : List Char) : Bool :=
  let body := dropSign cs
  isPointed body || isPointedSexagesimal body || infinities.contains (String.ofList body)
    || (match cs with
      | '.' :: d :: rest => d.isDigit && isFraction rest
      | _ => false)
    || nans.contains (String.ofList cs)

/-! ### Time stamps -/

/-- The rest behind exactly `n` digits. -/
def afterDigits? : Nat → List Char → Option (List Char)
  | 0, cs => some cs
  | n + 1, c :: cs => if c.isDigit then afterDigits? n cs else none
  | _ + 1, [] => none

/-- The rest behind a character. -/
def after? (c : Char) : List Char → Option (List Char)
  | d :: rest => if d = c then some rest else none
  | [] => none

/-- The rests behind one digit and behind two. -/
def afterOneOrTwo (cs : List Char) : List (List Char) :=
  (afterDigits? 2 cs).toList ++ (afterDigits? 1 cs).toList

/-- A year, a month and a day with all their digits. -/
def isDay (cs : List Char) : Bool :=
  ((afterDigits? 4 cs).bind (after? '-') |>.bind (afterDigits? 2) |>.bind (after? '-')
    |>.bind (afterDigits? 2)) == some []

def isBlank (c : Char) : Bool := c == ' ' || c == '\t'

/-- The rest behind the mark between day and time. -/
def afterDayMark? : List Char → Option (List Char)
  | 'T' :: rest => some rest
  | 't' :: rest => some rest
  | c :: rest => if isBlank c then some (rest.dropWhile isBlank) else none
  | [] => none

/-- Nothing, or the offset of a time zone. -/
def isZone (cs : List Char) : Bool :=
  match cs.dropWhile isBlank with
  | [] => cs.isEmpty
  | ['Z'] => true
  | s :: rest =>
    (s == '-' || s == '+') && (afterOneOrTwo rest).any fun rest =>
      rest.isEmpty || ((after? ':' rest).bind (afterDigits? 2)) == some []

/-- The part behind the seconds. -/
def isAfterSeconds : List Char → Bool
  | '.' :: rest => isZone (rest.dropWhile Char.isDigit)
  | rest => isZone rest

/-- A day with a time of day. -/
def isDayAndTime (cs : List Char) : Bool :=
  let days := ((afterDigits? 4 cs).bind (after? '-')).toList.flatMap afterOneOrTwo
  let days := (days.filterMap (after? '-')).flatMap afterOneOrTwo
  let hours := (days.filterMap afterDayMark?).flatMap afterOneOrTwo
  hours.any fun rest =>
    ((after? ':' rest).bind (afterDigits? 2) |>.bind (after? ':') |>.bind (afterDigits? 2)).any
      isAfterSeconds

def isTimestamp (cs : List Char) : Bool := isDay cs || isDayAndTime cs

/-! ### The decision -/

/-- The words for true and false. -/
def boolWords : List String :=
  ["yes", "Yes", "YES", "no", "No", "NO", "true", "True", "TRUE", "false", "False", "FALSE",
   "on", "On", "ON", "off", "Off", "OFF"]

/-- The words for nothing; the empty text is one of them. -/
def nullWords : List String := ["", "~", "null", "Null", "NULL"]

/-- What a plain scalar is read as. -/
def of (cs : List Char) : Implicit :=
  let s := String.ofList cs
  if boolWords.contains s then .bool
  else if isFloat cs then .float
  else if isInt cs then .int
  else if s = "<<" then .merge
  else if nullWords.contains s then .null
  else if isTimestamp cs then .timestamp
  else if s = "=" then .value
  else .text

end Implicit
end OpenApiDoc.Yaml
