import OpenApiDoc.Target.Files

/-! # Where output is written

The directories that lead to an output file are made if they are missing. Two dots lead back, so a
directory that is only passed through is made as well. A file among the directories, or a directory
in place of the file, is an error, and so is a name or a path that is too long. Writing outside the
working directory succeeds and leaves nothing below it. -/

namespace OpenApiDoc

/-- Why a file cannot be written. -/
inductive OutputError where
  /-- A file stands where a directory is to be made. -/
  | fileExists
  /-- A file stands where a directory is to be passed through. -/
  | notADirectory
  /-- A directory stands where the file is to be written. -/
  | isDirectory
  | nameTooLong
deriving DecidableEq, Repr

namespace OutputError

/-- The name of the kind of error. -/
def kind : OutputError → String
  | .fileExists => "FileExistsError"
  | .notADirectory => "NotADirectoryError"
  | .isDirectory => "IsADirectoryError"
  | .nameTooLong => "OSError"

end OutputError

namespace Files

/-- The place that the names of directories lead to, made as far as they are missing. `new` holds
the directories made on the way. -/
def makeDirectories (fs : Files) (new : List (List String)) :
    List String → List String → Except OutputError (List String × List (List String))
  | place, [] => .ok (place, new)
  | place, n :: rest =>
    if n = ".." then fs.makeDirectories new (above place) rest
    else if Path.isTooLong n then .error .nameTooLong
    else
      let next := place ++ [n]
      match fs.entry? next with
      | some .directory => fs.makeDirectories new next rest
      | some (.file _) =>
        .error (if rest.isEmpty || !new.isEmpty then .fileExists else .notADirectory)
      | none => fs.makeDirectories (if new.contains next then new else new ++ [next]) next rest

/-- The place is not below the working directory. -/
def isOutside (place : List String) : Bool := place.head? == some ".." || place.head? == some "/"

/-- Where a file at a path is written: its names from the working directory, or none outside it. -/
def outputPlace (fs : Files) (p : Path) : Except OutputError (Option (List String)) := do
  if p.isOverlong then throw .nameTooLong
  let (place, new) ← fs.makeDirectories [] (start p) p.names.dropLast
  match p.names.getLast? with
  | none => throw .isDirectory
  | some n =>
    let file := place ++ [n]
    if n = ".." || fs.isDirectory file || new.contains file then throw .isDirectory
    else if Path.isTooLong n then throw .nameTooLong
    else return if isOutside place then none else some file

end Files
end OpenApiDoc
