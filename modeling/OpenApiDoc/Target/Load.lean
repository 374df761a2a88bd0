import OpenApiDoc.Target.Module

/-! # Loading the document of a target

A target names a module and, behind its last colon, an attribute. A module that ends in `.py` is
looked up as a file, any other as a dotted name. The document is the attribute itself, or what it
returns when it is called; it must be a mapping.

Errors of this library pass through unchanged. Every other failure becomes an error that names the
target and says which stage failed. -/

namespace OpenApiDoc.Target

/-- The texts before and behind the last colon. -/
def split? (target : String) : Option (String × String) :=
  let behind := (target.toList.reverse.takeWhile (· ≠ ':')).reverse
  let front := target.toList.take (target.toList.length - behind.length - 1)
  if behind.isEmpty ∨ front.isEmpty ∨ !target.toList.contains ':' then none
  else some (String.ofList front, String.ofList behind)

/-- Exceptions that are no ordinary failures: they are never turned into errors of a target. -/
def uncaught : List String := ["BaseException", "GeneratorExit", "KeyboardInterrupt", "SystemExit"]

/-- Exceptions of an import. -/
def importErrors : List String := ["ImportError", "ModuleNotFoundError"]

/-- Turn a failure of a stage into an error of the target. -/
def explain (target : Value) (reason : World → Fault → LoadFailure) (f : Fault) : Build Fault := do
  match f with
  | .document e => return .document e
  | .raised kind _ =>
    if uncaught.contains kind then return f
    else return .document (.targetLoad target (reason (← get) f))
  | f => return .document (.targetLoad target (reason (← get) f))

/-- Run a stage; what goes wrong is explained by a reason. -/
def guarded {α : Type} (target : Value) (reason : World → Fault → LoadFailure) (stage : Build α) :
    Build α :=
  tryCatch stage fun f => do throw (← explain target reason f)

/-- The reason for a failure while a module is loaded by its name. -/
def importReason (name : String) (w : World) : Fault → LoadFailure
  | .raised kind args =>
    if importErrors.contains kind then .notImported (Fault.raisedText w args)
    else .importing name ((Fault.raised kind args).shown w)
  | f => .importing name (f.shown w)

/-- The module that a reference stands for. -/
def module (s : Surroundings) (target : Value) (ref : String) : Build Addr := do
  if ref.endsWith ".py" then
    let path := Path.read ref
    match s.files.find path with
    | .tooLong => throw (.system .nameTooLong)
    | .nothing => Module.refuse target (.fileNotFound path.text)
    | .place names =>
      guarded target (fun w f => .executing path.text (f.shown w)) (match s.files.file? names with
        | some attributes => Module.ofFile s.load path attributes
        | none => throw (.system .isDirectory))
  else guarded target (importReason ref) (Module.ofName s target ref)

/-- The result of calling a value, if it can be called. -/
def call? (load : Value → Build Value) (o : Object) : Option (Build Value) :=
  match o with
  | .builder home body => some (body.eval load home)
  | .constructor c => some (Call.invoke load (.construct c .asBuilt) [] [])
  | _ => none

/-- The outcome of a call on behalf of a target. -/
def called (target : String) (run : Build Value) : Build Value := do
  Build.record "loader" ("Calling builder " ++ target)
  guarded (.str target) (fun w f => .builderFailed (f.shown w)) run

/-- An attribute, or the result of calling it. -/
def resolve (load : Value → Build Value) (target : String) : Module.Attribute → Build Value
  | .method run => called target run
  | .value (.atom a) => return .atom a
  | .value (.obj a) => do
    match call? load (← Build.look a) with
    | none => return .obj a
    | some run => called target run

/-- The attribute of a module. It is asked for twice: first whether there is one. -/
def attributeOf (load : Value → Build Value) (target : Value) (m : Addr) (name : String) :
    Build Module.Attribute := do
  let _ ← tryCatch (Module.attributeOf load m name) fun f => do
    if Module.isMissing f then Module.refuse target (.noAttribute name) else throw f
  Module.attributeOf load m name

/-- Load the document of a target. Modules may load further documents, to a bounded depth. -/
def load (fs : Files) : Nat → Value → Build Value
  | 0, _ => Build.fail .tooDeep
  | depth + 1, .str target => do
    let inner := load fs depth
    match split? target with
    | none => Module.refuse (.str target) .malformed
    | some (ref, name) =>
      let m ← module ⟨inner, fs⟩ (.str target) ref
      let doc ← resolve inner target (← attributeOf inner (.str target) m name)
      if (doc.mapping? (← get)).isSome then return doc
      else Module.refuse (.str target) (.notAMapping ((← get).typeName doc))
  | _ + 1, .bytes _ => Build.fail (.notBytes (Atom.str "").typeName)
  | _ + 1, target => Build.lack target "rpartition"

/-- How many documents may be loading at a time. -/
def maxDepth : Nat := 1000

/-- Load the document of a target from the modules at hand. -/
def document (fs : Files) (target : Value) : Build Value := load fs maxDepth target

end OpenApiDoc.Target
