import OpenApiDoc.Fault

/-! # Building

Everything that makes or reads objects is a step of `Build`: it runs in a world, which it may extend
and change, and ends with a result or a fault. The world of a step that fails is kept. -/

namespace OpenApiDoc

/-- A step of building: it may add and change objects, write to the log, and fail. -/
abbrev Build := EStateM Fault World

namespace Build

def fail {α : Type} (m : Misuse) : Build α := throw (.misuse m)

/-- Fail because a value has no attribute of a name. -/
def lack {α : Type} (v : Value) (name : String) : Build α := do
  fail (.noAttribute ((← get).owner v) name)

def refuse {α : Type} (e : DocumentError) : Build α := throw (.document e)

/-- The object at an address. -/
def look (a : Addr) : Build Object := return (← get).get a

/-- Add an object. -/
def new (o : Object) : Build Addr := modifyGet fun w => w.alloc o

def newMapping (entries : List (Value × Value)) : Build Value :=
  return .obj (← new (.mapping entries))

def newList (items : List Value) : Build Value := return .obj (← new (.list items))

def newTuple (items : List Value) : Build Value := return .obj (← new (.tuple items))

/-- Replace an object. -/
def put (a : Addr) (o : Object) : Build Unit := modify fun w => w.set a o

/-- The names of a module. -/
def names (m : Addr) : Build Names := do
  match ← look m with
  | .module names => return names
  | _ => return []

/-- A value that is to be a key must be able to be one. -/
def requireKey (k : Value) : Build Unit := do
  match (← get).unhashable? k with
  | some type => fail (.unhashable type)
  | none => return ()

/-- Write a line to the log. -/
def record (logger message : String) : Build Unit :=
  modify fun w => { w with log := w.log ++ ["DEBUG openapi_dsl." ++ logger ++ ": " ++ message] }

end Build
end OpenApiDoc
