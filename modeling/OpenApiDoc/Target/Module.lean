import OpenApiDoc.Builder.Eval
import OpenApiDoc.Target.Files

/-! # Modules

A module is an object that holds names. It is executed by evaluating its expressions in order; each
can use the names bound before it. A builder sees the names of its module as they are when it is
called.

A module is found in one of two ways: by the path of its file, or by a dotted name, whose parts lead
through packages. A package is a directory; it is executed if it holds an initial file. A file of
the same name hides a directory without one. A package looks for its parts in the places that its
`__path__` lists, and gets each imported part as one of its names.

A module that is imported by its name is executed once; importing it again, even while it is being
executed, gives the same module. One that fails is forgotten. A module of a file is executed each
time.

* `Module.attributeOf` reads an attribute: a name of the module, or what every module has, or what
  the module's own function for other attributes returns.
* `Module.ofFile` and `Module.ofName` give the module of a file and of a dotted name. -/

namespace OpenApiDoc

/-- What modules can reach: the documents of further targets, and the files at hand. -/
structure Surroundings where
  load : Value → Build Value
  files : Files

namespace Module

def refuse {α : Type} (target : Value) (reason : LoadFailure) : Build α :=
  Build.refuse (.targetLoad target reason)

/-! ### New modules -/

/-- Where a module comes from. -/
inductive Origin where
  | file (path : String)
  /-- A directory with an initial file. -/
  | package (initial directory : String)
  /-- Directories without one. -/
  | directories (paths : List String)

/-- The dotted name that a part of a package is in. -/
def packageOf (name : String) : String :=
  String.ofList (['.'].intercalate (Text.pieces '.' name.toList).dropLast)

/-- Names that lead to what the import of a module leaves in it. -/
def machinery (loader : String) : Build Names := do
  let loader ← Build.new (.machinery loader none)
  let spec ← Build.new (.machinery "ModuleSpec" none)
  return [("__loader__", .obj loader), ("__spec__", .obj spec)]

/-- The name that leads to what every module can use. Not all of it can be written out. -/
def shared : Build Names := do
  let loader ← Build.new (.machinery "type" none)
  let common ← Build.newMapping (Entries.named [("__loader__", .obj loader)])
  return [("__builtins__", common)]

/-- The names of a new module. What every module can use is among the names of those that are
executed. -/
def initialNames (name : String) (origin : Origin) : Build Names := do
  let own (package : String) : Names :=
    [("__name__", .str name), ("__doc__", .none), ("__package__", .str package)]
  let located (path : String) : Names := [("__file__", .str path), ("__cached__", .str path)]
  match origin with
  | .file path =>
    return own (packageOf name) ++ (← machinery "SourceFileLoader") ++ located path ++ (← shared)
  | .package path directory =>
    let places ← Build.newList [.str directory]
    return own name ++ (← machinery "SourceFileLoader") ++ [("__path__", places)] ++ located path
      ++ (← shared)
  | .directories paths =>
    let places ← Build.new (.machinery "_NamespacePath" (some (paths.map .str)))
    return own name ++ (← machinery "NamespaceLoader")
      ++ [("__path__", .obj places), ("__file__", .none)]

/-- Evaluate the expressions of a module. -/
def execute (load : Value → Build Value) (m : Addr) (attributes : Attributes) : Build Unit :=
  attributes.forM fun a => do
    let v ← a.2.eval load m
    if !a.1.isEmpty then Build.bind m a.1 v

/-- The module of a file, which nothing remembers. -/
def ofFile (load : Value → Build Value) (path : Path) (attributes : Attributes) : Build Addr := do
  let m ← Build.new (.module (← initialNames path.stem (.file path.text)))
  execute load m attributes
  return m

/-! ### Attributes -/

/-- An attribute of a module. -/
inductive Attribute where
  | value (v : Value)
  /-- A method that every module has, by the outcome of calling it without arguments. -/
  | method (outcome : Build Value)

/-- The annotations of a module: an empty mapping, unless it binds them. -/
def annotations : String := "__annotations__"

/-- The names of a module as a mapping. -/
def namesMapping (m : Addr) : Build Value := do
  Build.newMapping (Entries.named (← Build.names m))

/-- A result of which only the type is known. -/
def typed (type : String) : Build Value := return .obj (← Build.new (.machinery type none))

/-- The methods of every module that can be called without arguments. -/
def callable (m : Addr) : List (String × Build Value) :=
  [("__dir__", typed "list"), ("__getstate__", namesMapping m), ("__hash__", typed "int"),
   ("__init_subclass__", return .none), ("__repr__", typed "str"), ("__sizeof__", typed "int"),
   ("__str__", typed "str"), ("__subclasshook__", typed "NotImplementedType")]

/-- The function that makes modules needs a name for a new one. -/
def unnamedModule : Misuse := .wrongCount "module() missing required argument 'name' (pos 1)"

/-- The methods of every module that need arguments, and what they say without any. -/
def uncallable : List (String × Misuse) :=
  let comparison : Misuse := .wrongCount "expected 1 argument, got 0"
  let single (name : String) : Misuse :=
    .wrongCount (name ++ "() takes exactly one argument (0 given)")
  [("__delattr__", comparison), ("__eq__", comparison), ("__format__", single "__format__"),
   ("__ge__", comparison), ("__getattribute__", comparison), ("__gt__", comparison),
   ("__init__", unnamedModule), ("__le__", comparison), ("__lt__", comparison),
   ("__ne__", comparison), ("__new__", .wrongCount "module.__new__(): not enough arguments"),
   ("__reduce__", .notCopyable Sealed.module.typeName), ("__reduce_ex__", single "__reduce_ex__"),
   ("__setattr__", .wrongCount " expected 2 arguments, got 0")]

/-- The method of a name that every module has. -/
def method? (m : Addr) (name : String) : Option (Build Value) :=
  ((uncallable.lookup name).map Build.fail).orElse fun _ => (callable m).lookup name

/-- An attribute that a module has by itself. Its type and the mapping of its names hide names of
their own; other names hide what every module has. -/
def own? (m : Addr) (name : String) : Build (Option Attribute) := do
  if name = "__class__" then return some (.method (Build.fail unnamedModule))
  if name = "__dict__" then return some (.value (← namesMapping m))
  match (← Build.names m).lookup name with
  | some v => return some (.value v)
  | none =>
    if name = annotations then
      let v ← Build.newMapping []
      Build.bind m annotations v
      return some (.value v)
    else return (method? m name).map .method

/-- Call a value with one argument. -/
def apply (load : Value → Build Value) (f v : Value) : Build Value := do
  match f with
  | .atom a => Build.fail (.notCallable a.typePath)
  | .obj a =>
    match ← Build.look a with
    | .constructor c => Call.invoke load (.construct c .asBuilt) [v] []
    | .builder _ _ => Build.fail (.mismatch "builder" (.surplus 0 0 1 0))
    | o => Build.fail (.notCallable o.typePath)

/-- The name of a module's own function for attributes that it does not have. -/
def fallback : String := "__getattr__"

/-- An attribute of a module. -/
def attributeOf (load : Value → Build Value) (m : Addr) (name : String) : Build Attribute := do
  match ← own? m name with
  | some a => return a
  | none =>
    match (← Build.names m).lookup fallback with
    | some f => return .value (← apply load f (.str name))
    | none => Build.lack (.obj m) name

/-- The fault is of the kind that says that there is no such attribute. -/
def isMissing (f : Fault) : Bool := f.kind == (Misuse.noAttribute (.module none) "").kind

/-! ### Imports -/

/-- The file that makes a directory a package with names of its own. -/
def initialFile : String := "__init__.py"

/-- A path one name further on. -/
def join (directory name : String) : String :=
  if directory.isEmpty then name else directory ++ "/" ++ name

/-- The part of a name in a directory, if there is one. -/
def part? (fs : Files) (directory name : String) : Option (Origin × Attributes) := do
  let place ← fs.directory? (.read directory)
  let inside := place ++ [name]
  let path := join directory name
  if name.contains '/' then none
  else match (if name.isEmpty then none else fs.file? (inside ++ [initialFile])) with
  | some attributes => return (.package (join path initialFile) path, attributes)
  | none =>
    match fs.file? (place ++ [name ++ ".py"]) with
    | some attributes => return (.file (path ++ ".py"), attributes)
    | none =>
      if !name.isEmpty && fs.isDirectory inside then return (.directories [path], []) else none

/-- The part of a name in the first of the places that has it. Directories without an initial file,
which `found` lists, only count if no later place has more. -/
def partIn? (fs : Files) (name : String) (found : List String) :
    List Value → Option (Origin × Attributes)
  | [] => if found.isEmpty then none else some (.directories found, [])
  | .str directory :: rest =>
    match part? fs directory name with
    | some (.directories paths, _) => partIn? fs name (found ++ paths) rest
    | some part => some part
    | none => partIn? fs name found rest
  | _ :: rest => partIn? fs name found rest

/-- Where modules that are in no package are looked for. -/
def startingPlaces : List Value := [.str ""]

/-- Where the parts of the module `parent` are looked for, unless it has no places of its own;
`name` is the part that is imported. -/
def places? (s : Surroundings) (target : Value) (name parentName : String) (parent : Addr) :
    Build (Option (List Value)) := do
  let path ← tryCatch (attributeOf s.load parent "__path__") fun f => do
    if isMissing f then refuse target (.notAPackage name parentName) else throw f
  match path with
  | .value .none => return none
  | .value v => return some (← v.iterate)
  | .method run => return some (← (← run).iterate)

/-- Remember a module. -/
def remember (name : String) (m : Addr) : Build Unit :=
  modify fun w => { w with imported := Entries.insert (· == ·) w.imported name m }

/-- Forget a module. -/
def forget (name : String) : Build Unit :=
  modify fun w => { w with imported := w.imported.filter fun e => e.1 != name }

/-- Make the module of a part and execute it. It is remembered before it is executed. -/
def ofPart (load : Value → Build Value) (name : String) (part : Origin × Attributes) :
    Build Addr := do
  let m ← Build.new (.module (← initialNames name part.1))
  remember name m
  tryCatch (execute load m part.2) fun f => do
    forget name
    throw f
  return m

/-- Import the module of a name that is looked for in some places. Directories without an initial
file can only be parts of a package that has places of its own. -/
def importFrom (s : Surroundings) (target : Value) (name last : String)
    (places : Option (List Value)) : Build Addr :=
  match partIn? s.files last [] (places.getD startingPlaces), places with
  | none, _ => refuse target (.noModule name)
  | some (.directories _, _), none => Build.fail (.notIterable Atom.none.typeName)
  | some part, _ => ofPart s.load name part

/-- Import the module of a dotted name, which is given by its parts from the last to the first.
Importing a package can import the part as well. -/
def ofParts (s : Surroundings) (target : Value) : List String → Build Addr
  | [] => Build.fail .emptyName
  | last :: front => do
    let name := ".".intercalate (last :: front).reverse
    match (← get).imported.lookup name with
    | some m => return m
    | none =>
      if front.isEmpty then importFrom s target name last (some startingPlaces)
      else
        let parent ← ofParts s target front
        match (← get).imported.lookup name with
        | some m => return m
        | none =>
          let ps ← places? s target name (".".intercalate front.reverse) parent
          let m ← importFrom s target name last ps
          Build.bind parent last (.obj m)
          return m

/-- Import the module of a dotted name. -/
def ofName (s : Surroundings) (target : Value) (name : String) : Build Addr := do
  if name.startsWith "." then throw (.relativeImport name)
  ofParts s target ((Text.pieces '.' name.toList).map String.ofList).reverse

end Module
end OpenApiDoc
