import OpenApiDoc.Fault
import OpenApiDoc.Yaml.Writer

/-! # What is anchored

A mapping, a list, a tuple with items and a calendar value are anchored when they occur more than
once. `Graph.repeats` walks through a value, going into each object once, and lists the objects met
again in the order in which that happens; anchors are numbered in this order. `Graph.form` then
writes the value as a form. -/

namespace OpenApiDoc.Yaml.Graph

/-- The objects met so far, and those met more than once. -/
structure Seen where
  once : List Addr
  again : List Addr

abbrev Walk := StateT Seen (Except Fault)

/-- Meet an object; the answer says whether it is new. -/
def meet (a : Addr) : Walk Bool := do
  let s ← get
  if s.once.contains a then
    if !s.again.contains a then set { s with again := s.again ++ [a] }
    return false
  else
    set { s with once := a :: s.once }
    return true

/-- Walk through a value. Every nested call is for a new object. -/
def walk (w : World) : Nat → Value → Walk Unit
  | _, .atom (.pattern s) => throw (.unrepresentable (.atom (.pattern s)))
  | _, .atom _ => return ()
  | 0, .obj _ => return ()
  | fuel + 1, .obj a =>
    match w.get a with
    | .tuple [] => return ()
    | .mapping es => do
      if ← meet a then
        es.forM fun e => do
          walk w fuel e.1
          walk w fuel e.2
    | .list xs => do
      if ← meet a then xs.forM (walk w fuel)
    | .tuple xs => do
      if ← meet a then xs.forM (walk w fuel)
    | .moment _ => do
      let _ ← meet a
    | _ => throw (.unrepresentable (.obj a))

/-- The objects that occur more than once, or the first value that has no form. -/
def repeats (w : World) (v : Value) : Except Fault (List Addr) :=
  (fun p => p.2.again) <$> (walk w (w.objects.size + 1) v).run ⟨[], []⟩

/-- The number of an anchored object. -/
def number? (anchored : List Addr) (a : Addr) : Option Nat := (anchored.idxOf? a).map (· + 1)

def scalarOf : Atom → Scalar
  | .none => .null
  | .bool b => .bool b
  | .int i => .int i
  | .float x => .float x
  | .str s => .text s
  | .bytes bs => .binary bs
  | .pattern s => .text s

/-- Forms with a record of the anchored objects written so far. -/
abbrev Writing := StateM (List Addr)

/-- The form of a value. -/
def form (w : World) (anchored : List Addr) : Nat → Value → Writing Form
  | _, .atom a => return .scalar none (scalarOf a)
  | 0, .obj _ => return .scalar none .null
  | fuel + 1, .obj a => do
    let anchor := number? anchored a
    match anchor with
    | some n =>
      if (← get).contains a then return .alias n
      modify (a :: ·)
    | none => pure ()
    match w.get a with
    | .mapping es => .mapping anchor <$> es.mapM fun e => do
      let k ← form w anchored fuel e.1
      let v ← form w anchored fuel e.2
      return (k, v)
    | .list xs => .sequence anchor <$> xs.mapM (form w anchored fuel)
    | .tuple xs => .sequence anchor <$> xs.mapM (form w anchored fuel)
    | .moment m => return .scalar anchor (.moment m)
    | _ => return .scalar anchor .null

/-- The text of the mapping at an address. -/
def render (w : World) (a : Addr) : Except Fault String := do
  let anchored ← repeats w (.obj a)
  match (form w anchored (w.objects.size + 1) (.obj a)).run [] with
  | (.mapping _ es, _) => return Form.document es
  | _ => return Form.document []

end OpenApiDoc.Yaml.Graph
