import OpenApiDoc.Builder.Source
import OpenApiDoc.Target.Path

/-! # The files at hand

The builder modules below the working directory, each by the names that lead to it. Directories are
what leads to a module. Two dots lead back to the directory above. Of what is outside the working
directory only the directories above it and the root are known, and nothing else is found there.

A search fails when it comes to a name that is longer than a file system allows. A text with the
character that ends paths leads nowhere. -/

namespace OpenApiDoc

/-- The modules below the working directory. -/
structure Files where
  modules : List (List String × Attributes)

namespace Files

/-- What stands at a place. -/
inductive Entry where
  | directory
  | file (attributes : Attributes)

/-- The working directory, a directory above it, or the root. -/
def isOutermost (names : List String) : Bool := names.all (· = "..") || names == ["/"]

/-- What the names from the working directory, or from the root, lead to. -/
def entry? (fs : Files) (names : List String) : Option Entry :=
  match fs.modules.lookup names with
  | some attributes => some (.file attributes)
  | none =>
    if isOutermost names || fs.modules.any fun m => names.isPrefixOf m.1 then some .directory
    else none

def isDirectory (fs : Files) (names : List String) : Bool :=
  match fs.entry? names with
  | some .directory => true
  | _ => false

def file? (fs : Files) (names : List String) : Option Attributes :=
  match fs.entry? names with
  | some (.file attributes) => some attributes
  | _ => none

/-- Where a search ends. -/
inductive Reached where
  | nothing
  | tooLong
  | place (names : List String)
deriving DecidableEq, Repr

/-- The directory above a place; that of the root is the root. -/
def above (place : List String) : List String :=
  if place == ["/"] then place
  else if isOutermost place then place ++ [".."]
  else place.dropLast

/-- Follow names from a place; every name but the last must lead to a directory. -/
def follow (fs : Files) : List String → List String → Reached
  | place, [] => .place place
  | place, n :: rest =>
    if !fs.isDirectory place then .nothing
    else if n = ".." then fs.follow (above place) rest
    else if Path.isTooLong n then .tooLong
    else
      let next := place ++ [n]
      if (fs.entry? next).isSome then fs.follow next rest else .nothing

/-- Where a path starts. -/
def start (p : Path) : List String := if p.isRelative then [] else ["/"]

/-- Where a path leads to. -/
def find (fs : Files) (p : Path) : Reached :=
  if p.isUnusable then .nothing
  else if p.isOverlong then .tooLong
  else fs.follow (start p) p.names

/-- The directory that a path leads to. -/
def directory? (fs : Files) (p : Path) : Option (List String) :=
  match fs.find p with
  | .place names => if fs.isDirectory names then some names else none
  | _ => none

end Files
end OpenApiDoc
