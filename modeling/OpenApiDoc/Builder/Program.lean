import OpenApiDoc.Builder.Eval

/-! # Programs

A program is a list of steps that are evaluated in one module. Each evaluates an expression and may
bind its value to a name of the module. A step that fails binds nothing, keeps the objects and log
lines it made, and does not stop the program. -/

namespace OpenApiDoc

/-- A step of a program. -/
structure ProgramStep where
  name : Option String
  body : Expr

/-- What a step came to: its result, the world after it, and the log lines it wrote. -/
structure Outcome where
  result : Except Fault Value
  world : World
  log : List String

namespace Outcome

/-- Run a computation in a world. -/
def of (act : Build Value) (w : World) : Outcome :=
  match act.run { w with log := [] } with
  | .ok v w => ⟨.ok v, w, w.log⟩
  | .error f w => ⟨.error f, w, w.log⟩

end Outcome

namespace Program

/-- Evaluate the expression of a step and bind its value. -/
def step (load : Value → Build Value) (home : Addr) (s : ProgramStep) : Build Value := do
  let v ← s.body.eval load home
  if let some name := s.name then Build.bind home name v
  return v

/-- The outcomes of steps in a module, from a world. -/
def runFrom (load : Value → Build Value) (home : Addr) (w : World) : List ProgramStep → List Outcome
  | [] => []
  | s :: rest =>
    let o := Outcome.of (step load home s) w
    o :: runFrom load home o.world rest

def run (load : Value → Build Value) (steps : List ProgramStep) : List Outcome :=
  let (home, w) := World.initial.alloc (.module [])
  runFrom load home w steps

end Program
end OpenApiDoc
