import OpenApiDoc.Cli.Run

/-! # The command-line program

The builder modules are the files below the working directory whose names end in `.py`; each holds
the expressions of a module in JSON. `Cli.run` makes all decisions. Here modules are read before it,
and what it wrote is passed on after it. -/

namespace OpenApiDoc.Main

/-- A file that holds no expressions: executing it fails. -/
def unreadable : Attributes := [("", .raise "SyntaxError" [])]

/-- The attributes of a file. Only the text of modules is read. -/
def attributesOf (file : IO.FS.DirEntry) : IO Attributes := do
  if !file.fileName.endsWith ".py" then return unreadable
  try
    let text ← IO.FS.readFile file.path
    return ((Json.read? text).bind Attributes.ofJson?).getD unreadable
  catch _ => return unreadable

/-- How many directories deep modules are looked for. -/
def maxDepth : Nat := 32

/-- The files below a directory that the given names lead to. -/
def filesBelow : Nat → List String → IO.FS.DirEntry → IO (List (List String × Attributes))
  | 0, _, _ => return []
  | depth + 1, names, directory => do
    let mut found := []
    for e in ← directory.path.readDir do
      let place := names ++ [e.fileName]
      if ← e.path.isDir then
        found := found ++ (← filesBelow depth place e)
      else
        found := found ++ [(place, ← attributesOf e)]
    return found

/-- The files at hand; none are looked for unless a document is to be built. -/
def filesFor (args : List String) : IO Files := do
  match Cli.Request.of args with
  | .build _ _ => return ⟨← filesBelow maxDepth [] ⟨".", "."⟩⟩
  | _ => return ⟨[]⟩

/-- Write a file and the directories that lead to it. -/
def write (f : Cli.Written) : IO Unit := do
  IO.FS.createDirAll { f.path with names := f.path.names.dropLast }.text
  IO.FS.writeFile f.path.text f.text

/-- Run a command line and pass on what it wrote. -/
def run (args : List String) : IO UInt32 := do
  let r := Cli.run (← filesFor args) args
  if let some f := r.written then write f
  IO.print r.stdout
  IO.eprint r.stderr
  if let some kind := r.escaped then IO.eprintln kind
  return (r.status % 256).toNat.toUInt32

end OpenApiDoc.Main

def main (args : List String) : IO UInt32 := OpenApiDoc.Main.run args
