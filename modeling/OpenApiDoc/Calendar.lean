/-! # Calendar values

A day of the Gregorian calendar, and a day with a time of day to the microsecond, in no particular
time zone. Both are written in the order year, month, day; the part that separates the day from the
time of day is chosen by the writer. -/

namespace OpenApiDoc

/-- A day of the calendar. -/
structure Date where
  year : Nat
  month : Nat
  day : Nat
deriving DecidableEq, Repr

/-- A time of day. -/
structure TimeOfDay where
  hour : Nat
  minute : Nat
  second : Nat
  microsecond : Nat
deriving DecidableEq, Repr

/-- A day, or a day with a time of day. -/
inductive Moment where
  | date (d : Date)
  | dateTime (d : Date) (t : TimeOfDay)
deriving DecidableEq, Repr

/-- A number in at least `width` decimal digits. -/
def padded (width n : Nat) : String :=
  let s := Nat.repr n
  String.ofList (List.replicate (width - s.length) '0') ++ s

namespace Date

def iso (d : Date) : String := padded 4 d.year ++ "-" ++ padded 2 d.month ++ "-" ++ padded 2 d.day

end Date

namespace TimeOfDay

/-- The microseconds are written only when there are any. -/
def iso (t : TimeOfDay) : String :=
  padded 2 t.hour ++ ":" ++ padded 2 t.minute ++ ":" ++ padded 2 t.second
    ++ (if t.microsecond = 0 then "" else "." ++ padded 6 t.microsecond)

end TimeOfDay

namespace Moment

/-- The text of a moment, with `separator` between the day and the time of day. -/
def iso (separator : String) : Moment → String
  | .date d => d.iso
  | .dateTime d t => d.iso ++ separator ++ t.iso

/-- A moment as the call that makes it; trailing zero seconds and microseconds are left out. -/
def shown : Moment → String
  | .date d => "datetime.date(" ++ call [d.year, d.month, d.day] ++ ")"
  | .dateTime d t =>
    let tail :=
      if t.microsecond ≠ 0 then [t.second, t.microsecond]
      else if t.second ≠ 0 then [t.second]
      else []
    "datetime.datetime(" ++ call ([d.year, d.month, d.day, t.hour, t.minute] ++ tail) ++ ")"
where
  call (ns : List Nat) : String := ", ".intercalate (ns.map Nat.repr)

/-- Digits read as a number. -/
def digits? (width : Nat) (cs : List Char) : Option Nat :=
  if cs.length = width ∧ cs.all Char.isDigit then
    some (cs.foldl (fun n c => n * 10 + (c.toNat - 48)) 0)
  else none

/-- Whether the year has a twenty-ninth of February. -/
def isLeap (year : Nat) : Bool := year % 4 == 0 && (year % 100 != 0 || year % 400 == 0)

def daysIn (year month : Nat) : Nat :=
  if month = 2 then (if isLeap year then 29 else 28)
  else if month ∈ [4, 6, 9, 11] then 30 else 31

def date? (cs : List Char) : Option Date := do
  guard (cs.length = 10 ∧ cs[4]? = some '-' ∧ cs[7]? = some '-')
  let year ← digits? 4 (cs.take 4)
  let month ← digits? 2 ((cs.drop 5).take 2)
  let day ← digits? 2 (cs.drop 8)
  guard (1 ≤ year ∧ 1 ≤ month ∧ month ≤ 12 ∧ 1 ≤ day ∧ day ≤ daysIn year month)
  return ⟨year, month, day⟩

def time? (cs : List Char) : Option TimeOfDay := do
  guard (cs[2]? = some ':')
  let hour ← digits? 2 (cs.take 2)
  let minute ← digits? 2 ((cs.drop 3).take 2)
  let second ←
    if cs.length = 5 then some 0 else do
      guard (cs[5]? = some ':')
      digits? 2 ((cs.drop 6).take 2)
  let microsecond ←
    if cs.length ≤ 8 then some 0 else do
      guard (cs[8]? = some '.')
      let fraction := cs.drop 9
      guard (fraction.length ≤ 6)
      digits? 6 (fraction ++ List.replicate (6 - fraction.length) '0')
  guard (hour < 24 ∧ minute < 60 ∧ second < 60)
  return ⟨hour, minute, second, microsecond⟩

/-- A moment from its text; one character separates the day from the time of day. -/
def read? (s : String) : Option Moment :=
  let cs := s.toList
  if cs.length ≤ 10 then (date? cs).map .date
  else do
    let d ← date? (cs.take 10)
    let t ← time? (cs.drop 11)
    return .dateTime d t

end Moment
end OpenApiDoc
