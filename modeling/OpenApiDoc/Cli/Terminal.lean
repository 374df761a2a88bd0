/-! # Plain text for terminals

Messages are written without the control sequences that colour text or move the cursor. A control
sequence is an escape character and a bracket, then any number of parameters, then any number of
intermediate characters, and one final character. What only looks like the beginning of a sequence
is kept. A line ends with one character, whatever marks its end. -/

namespace OpenApiDoc.Cli.Terminal

/-- Where a reader of control sequences stands: in text, behind an escape character, or behind a
bracket, where parameters or only intermediate characters may follow those read so far. -/
inductive Position where
  | text
  | escape
  | parameters (read : List Char)
  | intermediates (read : List Char)

namespace Position

/-- The characters that are held back until it is clear what they are. -/
def held : Position → List Char
  | .text => []
  | .escape => ['\x1b']
  | .parameters read => '\x1b' :: '[' :: read
  | .intermediates read => '\x1b' :: '[' :: read

end Position

/-- Digits, separators and marks of private sequences. -/
def isParameter (c : Char) : Bool := '0' ≤ c && c ≤ '?'

/-- Blanks and the marks up to the slash. -/
def isIntermediate (c : Char) : Bool := ' ' ≤ c && c ≤ '/'

/-- Letters and the marks among and behind them. -/
def isFinal (c : Char) : Bool := '@' ≤ c && c ≤ '~'

/-- The characters that are left without control sequences. -/
def plainFrom : Position → List Char → List Char
  | p, [] => p.held
  | p, c :: rest =>
    if c = '\x1b' then p.held ++ plainFrom .escape rest
    else match p with
      | .text => c :: plainFrom .text rest
      | .escape =>
        if c = '[' then plainFrom (.parameters []) rest else p.held ++ c :: plainFrom .text rest
      | .parameters read =>
        if isParameter c then plainFrom (.parameters (read ++ [c])) rest
        else if isIntermediate c then plainFrom (.intermediates (read ++ [c])) rest
        else if isFinal c then plainFrom .text rest
        else p.held ++ c :: plainFrom .text rest
      | .intermediates read =>
        if isIntermediate c then plainFrom (.intermediates (read ++ [c])) rest
        else if isFinal c then plainFrom .text rest
        else p.held ++ c :: plainFrom .text rest

/-- A text without control sequences. -/
def plain (s : String) : String := String.ofList (plainFrom .text s.toList)

/-- The characters with one character for each end of a line. -/
def unixLines : List Char → List Char
  | '\r' :: '\n' :: rest => '\n' :: unixLines rest
  | c :: rest => c :: unixLines rest
  | [] => []

/-- A text whose lines end with one character each. -/
def lines (s : String) : String := String.ofList (unixLines s.toList)

theorem plainFrom_of_no_escape {cs : List Char} (h : '\x1b' ∉ cs) : plainFrom .text cs = cs := by
  induction cs with
  | nil => rfl
  | cons c cs ih =>
    have hc : c ≠ '\x1b' := fun e => h (by simp [e])
    simp [plainFrom, hc, ih fun m => h (by simp [m])]

/-- A text without escape characters is plain. -/
theorem plain_of_no_escape {s : String} (h : '\x1b' ∉ s.toList) : plain s = s := by
  simp [plain, plainFrom_of_no_escape h]

end OpenApiDoc.Cli.Terminal
