import OpenApiDoc.Builder.Call

/-! # Evaluating expressions

Parts are evaluated from left to right; for an entry of a mapping the key comes before the value,
and the entry is inserted before the next one is looked at. Every evaluation of a literal collection
or calendar value makes a new object. A variable is a name of the module that the expression is
evaluated in, as it is bound at that time. -/

namespace OpenApiDoc

namespace Expr

/-- The value of an atom. One that is not a number is told apart from those of other evaluations. -/
def literal (a : Atom) : Build Value := do
  match a with
  | .float x =>
    if x.isNaN then
      modifyGet fun w => (.float (.notANumber w.nans), { w with nans := w.nans + 1 })
    else return .float x
  | a => return .atom a

/-- The address of a constructor. -/
def constructorAddr (c : Constructor) : Addr := Constructor.all.idxOf c

/-- Insert an entry into a mapping under construction. -/
def insertEntry (a : Addr) (k v : Value) : Build Unit := do
  Build.requireKey k
  match ← Build.look a with
  | .mapping es => Build.put a (.mapping (Entries.insert (← get).sameKey es k v))
  | _ => return ()

mutual

/-- The value of an expression among the names of a module; `load` loads a target's document. -/
def eval (load : Value → Build Value) (home : Addr) : Expr → Build Value
  | .atom a => literal a
  | .moment m => return .obj (← Build.new (.moment m))
  | .list xs => do Build.newList (← evalAll load home xs)
  | .tuple xs => do Build.newTuple (← evalAll load home xs)
  | .mapping es => do
    let a ← Build.new (.mapping [])
    evalEntries load home a es
    return .obj a
  | .constructor c => return .obj (constructorAddr c)
  | .reference name => do
    match (← Build.names home).lookup name with
    | some v => return v
    | none => throw (.unbound name)
  | .call f args named => do
    let args ← evalAll load home args
    let named ← evalNamed load home named
    Call.invoke load f args (Entries.overlay (· == ·) [] named)
  | .raise kind args => do Build.raise kind (← evalAll load home args)
  | .builder body => return .obj (← Build.new (.builder home body))

def evalAll (load : Value → Build Value) (home : Addr) : List Expr → Build (List Value)
  | [] => return []
  | x :: xs => do
    let v ← eval load home x
    let vs ← evalAll load home xs
    return v :: vs

def evalEntries (load : Value → Build Value) (home : Addr) (a : Addr) :
    List (Expr × Expr) → Build Unit
  | [] => return ()
  | (k, v) :: es => do
    let k ← eval load home k
    let v ← eval load home v
    insertEntry a k v
    evalEntries load home a es

def evalNamed (load : Value → Build Value) (home : Addr) :
    List (String × Expr) → Build (List (String × Value))
  | [] => return []
  | (name, x) :: xs => do
    let v ← eval load home x
    let vs ← evalNamed load home xs
    return (name, v) :: vs

end

end Expr
end OpenApiDoc
