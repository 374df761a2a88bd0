import OpenApiDoc.Build

/-! # Arguments

A function names its parameters. Arguments without a name fill the parameters from the left, named
arguments fill the others, and a parameter that is left takes its default.

`Signature.bind?` says why a call does not fit. It looks at the named arguments in their order, each
of which needs a parameter that has no value yet, then at the arguments without a name that no
parameter is left for, and last at the parameters without a value. -/

namespace OpenApiDoc

/-- The parameters of a function. -/
structure Signature where
  /-- The name that the function goes by when a call does not fit. -/
  function : String
  /-- Parameters that can be given with or without their names; some have defaults. -/
  parameters : List (String × Option Value)
  /-- Parameters that must be named. -/
  namedOnly : List (String × Option Value) := []
  /-- Whether further names are accepted. -/
  takesMore : Bool := false
  /-- How many arguments in front of the others are given by the call itself. -/
  implied : Nat := 0

namespace Signature

/-- The values of a call: one for each parameter, and the further names. -/
structure Bound where
  values : List (String × Value)
  more : List (String × Value)

namespace Bound

/-- The value of a parameter. -/
def arg (b : Bound) (name : String) : Value := (b.values.lookup name).getD .none

end Bound

/-- All parameters. -/
def known (s : Signature) : List (String × Option Value) := s.parameters ++ s.namedOnly

/-- Add a named argument to what is bound so far. -/
def addNamed (s : Signature) (b : Bound) (given : String × Value) : Except Mismatch Bound :=
  if (s.known.lookup given.1).isSome then
    if (b.values.lookup given.1).isSome then .error (.repeated given.1)
    else .ok { b with values := b.values ++ [given] }
  else if s.takesMore then .ok { b with more := b.more ++ [given] }
  else .error (.unknown given.1)

/-- Arguments without a name for which no parameter is left, given the parameters that have values.
-/
def surplus (s : Signature) (count : Nat) (values : List (String × Value)) : Mismatch :=
  .surplus ((s.parameters.filter (·.2.isNone)).length + s.implied)
    (s.parameters.length + s.implied) (count + s.implied)
    (s.namedOnly.filter fun p => (values.lookup p.1).isSome).length

/-- The value of every parameter, or the names of those that are left. -/
def complete (values : List (String × Value)) :
    List (String × Option Value) → Except (List String) (List (String × Value))
  | [] => .ok []
  | (name, default) :: ps =>
    match (values.lookup name).orElse fun _ => default, complete values ps with
    | some v, .ok rest => .ok ((name, v) :: rest)
    | some _, .error names => .error names
    | none, .ok _ => .error [name]
    | none, .error names => .error (name :: names)

/-- The values of the parameters for a call that fits. -/
def bind? (s : Signature) (args : List Value) (named : List (String × Value)) :
    Except Mismatch Bound := do
  let placed := (s.parameters.map (·.1)).zip args
  let b ← named.foldlM s.addNamed ⟨placed, []⟩
  if s.parameters.length < args.length then throw (s.surplus args.length b.values)
  match complete b.values s.known with
  | .ok values => return ⟨values, b.more⟩
  | .error names => throw (.missing names)

def bind (s : Signature) (args : List Value) (named : List (String × Value)) : Build Bound :=
  match s.bind? args named with
  | .ok b => return b
  | .error m => Build.fail (.mismatch s.function m)

/-- Parameters that must be given, followed by parameters that may be left out. -/
def of (function : String) (must : List String) (may : List String) : Signature where
  function := function
  parameters := must.map (·, none) ++ may.map (·, some .none)

end Signature
end OpenApiDoc
