import OpenApiDoc.Builder.Program
import OpenApiDoc.Cli.Commands
import OpenApiDoc.Cli.Terminal
import OpenApiDoc.Target.Load
import OpenApiDoc.Target.Output

/-! # Running a command line

A run ends with an exit status and with what it wrote: two texts and at most one file. Errors of
this library are reported and end with status 1; command lines that do not fit end with status 2. A
builder can end the run itself, or interrupt it. Any other failure escapes, and only its kind is
known then. Messages are plain text; log lines are written as they are. -/

namespace OpenApiDoc.Cli

/-- A file that a run writes. -/
structure Written where
  path : Path
  /-- The names that lead to it from the working directory, if it is below it. -/
  place : Option (List String)
  text : String
deriving DecidableEq, Repr

/-- How a run ends. -/
structure RunResult where
  status : Int
  stdout : String
  stderr : String
  /-- The kind of a failure that escapes. -/
  escaped : Option String
  written : Option Written
deriving DecidableEq, Repr

namespace RunResult

/-- Lines of the log, one below the other. -/
def logText (lines : List String) : String := String.join (lines.map (· ++ "\n"))

/-- The texts of a run with one character at the end of each line. -/
def withLines (r : RunResult) : RunResult :=
  { r with stdout := Terminal.lines r.stdout, stderr := Terminal.lines r.stderr }

/-- A run that reports an error behind log lines. -/
def failed (status : Int) (log message : String) : RunResult :=
  ⟨status, "", log ++ Terminal.plain message, none, none⟩

/-- A run that a failure escapes from. -/
def escape (kind log : String) (written : Option Written) : RunResult :=
  ⟨1, "", log, some kind, written⟩

/-- A run that a builder interrupts. -/
def interrupted (log : String) : RunResult := failed 1 log "\nAborted!\n"

/-- A run that a builder ends with a status; one that is no number is written out. -/
def ended (w : World) (log : String) : List Value → RunResult
  | [] => ⟨0, "", log, none, none⟩
  | [.none] => ⟨0, "", log, none, none⟩
  | [.int i] => ⟨i, "", log, none, none⟩
  | [.bool b] => ⟨if b then 1 else 0, "", log, none, none⟩
  | status => ⟨1, Fault.raisedText w status ++ "\n", log, none, none⟩

/-- A run that ends with a fault. -/
def ofFault (w : World) (log : String) : Fault → RunResult
  | .document e => failed 1 log ("Error: " ++ e.message w ++ "\n")
  | .raised "SystemExit" status => ended w log status
  | .raised "KeyboardInterrupt" _ => interrupted log
  | f => escape f.kind log none

end RunResult

/-- The document of a target and its text. -/
def rendered (fs : Files) (r : BuildRequest) : Build (Value × String) := do
  let doc ← Target.document fs (.str r.target)
  let text ← Document.render doc (.str r.format)
  return (doc, text)

/-- The number of parts of a value that has parts. -/
def size (w : World) (v : Value) : Except Misuse Nat :=
  match v with
  | .str s => .ok s.length
  | .bytes bs => .ok bs.length
  | .atom a => .error (.uncountable a.typePath)
  | .obj a => match w.get a with
    | .mapping es => .ok es.length
    | .list xs => .ok xs.length
    | .tuple xs => .ok xs.length
    | o => .error (.uncountable o.typePath)

/-- The number of paths of a document. -/
def pathCount (w : World) (doc : Value) : Except Misuse Nat :=
  match Entries.find? w.sameKey ((doc.mapping? w).getD []) (.str "paths") with
  | none => .ok 0
  | some paths => size w paths

/-- Write a rendered document to a file and report it. -/
def writeTo (fs : Files) (w : World) (doc : Value) (text output log : String) : RunResult :=
  let path := Path.read output
  match fs.outputPlace path with
  | .error e => .escape e.kind log none
  | .ok place =>
    let written : Written := ⟨path, place, text⟩
    match pathCount w doc with
    | .error m => .escape m.kind log written
    | .ok n =>
      let report := "Wrote " ++ Nat.repr n ++ " paths to " ++ path.text ++ "\n"
      ⟨0, "", log ++ Terminal.plain report, none, written⟩

/-- Carry out a request for a document. -/
def runBuild (fs : Files) (verbose : Bool) (r : BuildRequest) : RunResult :=
  let logOf (w : World) : String := if verbose then RunResult.logText w.log else ""
  match (rendered fs r).run .initial with
  | .error f w => .ofFault w (logOf w) f
  | .ok (doc, text) w =>
    match r.output with
    | none => ⟨0, text, logOf w, none, none⟩
    | some output => writeTo fs w doc text output (logOf w)

/-- What a run writes, as it is written. -/
def perform (fs : Files) : Request → RunResult
  | .help text => ⟨0, text, "", none, none⟩
  | .nothing => .failed 2 "" programHelp
  | .complaint text => .failed 2 "" text
  | .escape kind => .escape kind "" none
  | .build verbose r => runBuild fs verbose r

/-- Run a command line with the modules at hand. -/
def run (fs : Files) (args : List String) : RunResult := (perform fs (Request.of args)).withLines

end OpenApiDoc.Cli
