import OpenApiDoc.Cli.Options
import OpenApiDoc.Document
import OpenApiDoc.Target.Path

/-! # The commands and their help -/

namespace OpenApiDoc.Cli

def helpSpelling : Spelling := ⟨.help, "--help", none, false⟩

/-- The program itself: its switches stand before the name of a command. -/
def program : Command where
  path := "openapi-dsl"
  arguments := "[OPTIONS] COMMAND [ARGS]..."
  spellings := [⟨.verbose, "--verbose", some 'v', false⟩, helpSpelling]
  mixed := false

/-- Render the document of a target. -/
def build : Command where
  path := "openapi-dsl build"
  arguments := "[OPTIONS] TARGET"
  spellings := [⟨.output, "--output", some 'o', true⟩, ⟨.format, "--format", none, true⟩,
    helpSpelling]
  mixed := true

namespace Command

def usage (c : Command) : String := "Usage: " ++ c.path ++ " " ++ c.arguments ++ "\n"

/-- The lines that point to the help of a command, before an error. -/
def hint (c : Command) : String :=
  c.usage ++ "Try '" ++ c.path ++ " --help' for help.\n\n"

/-- What is shown for a command line that does not fit. -/
def complaint (c : Command) (e : UsageError) : String :=
  (if e.standsAlone then "" else c.hint) ++ "Error: " ++ e.message ++ "\n"

end Command

def programHelp : String :=
  program.usage
    ++ "\n"
    ++ "  openapi-dsl — build OpenAPI documents from Python helper calls.\n"
    ++ "\n"
    ++ "Options:\n"
    ++ "  -v, --verbose  Enable debug logging.\n"
    ++ "  --help         Show this message and exit.\n"
    ++ "\n"
    ++ "Commands:\n"
    ++ "  build  Render the document built by TARGET (module:attribute or...\n"

def buildHelp : String :=
  build.usage
    ++ "\n"
    ++ "  Render the document built by TARGET (module:attribute or file.py:attribute).\n"
    ++ "\n"
    ++ "Options:\n"
    ++ "  -o, --output PATH     Output file path (stdout when omitted).\n"
    ++ "  --format [yaml|json]  Output format.\n"
    ++ "  --help                Show this message and exit.\n"

/-- What the command for building is asked to do. -/
structure BuildRequest where
  target : String
  output : Option String
  format : String
deriving DecidableEq, Repr

/-- Why there is no request for a document. -/
inductive Refusal where
  | usage (e : UsageError)
  /-- The path of the output cannot be the path of a file. -/
  | unusablePath
deriving DecidableEq, Repr

/-- A format must be one of those there are. -/
def checkFormat (format : String) : Except Refusal Unit :=
  if Document.formats.contains format then .ok ()
  else .error (.usage (.notAChoice "--format" format Document.formats))

/-- The output must have a path that a file can have. -/
def checkOutput (output : Option String) : Except Refusal Unit :=
  if output.any fun o => (Path.read o).isUnusable then .error .unusablePath else .ok ()

/-- The request of parsed arguments: first the switches are checked in the order in which they are
given, then there must be a target, and then nothing else. -/
def BuildRequest.of (p : Parsed) : Except Refusal BuildRequest := do
  let format := (p.value? .format).getD Document.defaultFormat
  let output := p.value? .output
  if p.precedes .output .format then
    checkOutput output
    checkFormat format
  else
    checkFormat format
    checkOutput output
  match p.operands with
  | [] => throw (.usage (.missingArgument "TARGET"))
  | [target] => return ⟨target, output, format⟩
  | _ :: extra => throw (.usage (.extraArguments extra))

/-- The names of the commands. -/
def commandNames : List String := ["build"]

/-- The error for a command that there is not. -/
def unknownCommand (name : String) : UsageError :=
  .noSuchCommand name (Similar.closeTo name commandNames)

/-- A name that looks like a switch is read once more as switches of the program. -/
def resolveCommand (name : String) (rest : List String) : Except UsageError (Option Parsed) :=
  if commandNames.contains name then .ok none
  else
    let looksLikeSwitch := name.toList.head?.any fun c => !c.isAlphanum
    if looksLikeSwitch then (program.parse (name :: rest)).map some
    else .error (unknownCommand name)

/-- What a command line asks for. -/
inductive Request where
  | help (text : String)
  /-- No arguments at all. -/
  | nothing
  | complaint (text : String)
  /-- A failure that escapes, by its kind. -/
  | escape (kind : String)
  | build (verbose : Bool) (r : BuildRequest)
deriving DecidableEq, Repr

namespace Request

/-- The request of the arguments behind the name of the command for building. -/
def ofBuild (verbose : Bool) (args : List String) : Request :=
  match Cli.build.parse args with
  | .error e => .complaint (Cli.build.complaint e)
  | .ok p =>
    if p.has .help then .help buildHelp
    else match BuildRequest.of p with
      | .error (.usage e) => .complaint (Cli.build.complaint e)
      | .error .unusablePath => .escape Misuse.nullByte.kind
      | .ok r => .build verbose r

/-- The request of a command line. -/
def of (args : List String) : Request :=
  if args.isEmpty then .nothing
  else match program.parse args with
    | .error e => .complaint (program.complaint e)
    | .ok p =>
      if p.has .help then .help programHelp
      else match p.operands with
        | [] => .complaint (program.complaint .missingCommand)
        | name :: rest =>
          match resolveCommand name rest with
          | .error e => .complaint (program.complaint e)
          | .ok none => ofBuild (p.has .verbose) rest
          | .ok (some again) =>
            if again.has .help then .help programHelp
            else .complaint (program.complaint (unknownCommand name))

end Request
end OpenApiDoc.Cli
