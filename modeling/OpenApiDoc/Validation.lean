import OpenApiDoc.Mapping

/-! # Checking the input of records

A record's fields are read from values of any kind. A check either gives what it read or the reports
of everything that is wrong, in the order of the input.

* A text is a text, or bytes that encode one in UTF-8.
* A truth value is one, the number zero or one, or one of the usual words. Numbers of more than 64
  bits are not even looked at.
* A mapping must have texts as keys; keys that read as the same text are one key.
* A list may be given as a tuple. A record has fields to list as well, but none that would do.

Every check is given an `Input`, so that its report can show what was given. -/

namespace OpenApiDoc

/-- What was read, or every problem met on the way. -/
abbrev Checked (α : Type) := Except (List Report) α

namespace Checked

variable {α β : Type}

def refuse (p : Problem) (given : Input) : Checked α := .error [⟨p, [], given⟩]

/-- A check of a part, seen from the whole. -/
def under (s : Step) : Checked α → Checked α
  | .ok a => .ok a
  | .error rs => .error (rs.map (Report.under s))

/-- Both checks, with the problems of both. -/
def both : Checked α → Checked β → Checked (α × β)
  | .ok a, .ok b => .ok (a, b)
  | .ok _, .error rs => .error rs
  | .error rs, .ok _ => .error rs
  | .error rs, .error ss => .error (rs ++ ss)

/-- Every check of a list, with the problems of all. -/
def all : List (Checked α) → Checked (List α)
  | [] => .ok []
  | c :: cs => (both c (all cs)).map fun p => p.1 :: p.2

/-- Make something of what was read. -/
def after (c : Checked α) (make : α → Build β) : Build (Checked β) :=
  match c with
  | .ok a => return .ok (← make a)
  | .error rs => return .error rs

/-- Go on with what was read, or fail with a record's reports. -/
def require (m : Model) : Checked α → Build α
  | .ok a => return a
  | .error rs => throw (.invalid m rs)

theorem all_ok (xs : List α) : all (xs.map fun x => (.ok x : Checked α)) = .ok xs := by
  induction xs with
  | nil => rfl
  | cons x xs ih => simp [all, ih, both, Except.map]

end Checked

namespace Field

open Checked

def text : Input → Checked String
  | .value (.str s) => .ok s
  | .value (.bytes bs) => match Text.ofUtf8? bs with
    | some s => .ok s
    | none => refuse .notUtf8 (.value (.bytes bs))
  | given => refuse .notAText given

/-- The words for false and for true. -/
def falseWords : List String := ["0", "off", "f", "false", "n", "no"]

def trueWords : List String := ["1", "on", "t", "true", "y", "yes"]

/-- One of the words for a truth value, in any ASCII case. -/
def word? (s : String) : Option Bool :=
  let s := String.ofList (s.toList.map Char.toLower)
  if s ∈ falseWords then some false
  else if s ∈ trueWords then some true
  else none

/-- A whole number of 64 bits with its sign. -/
def isWord (i : Int) : Bool :=
  let bound : Int := Nat.pow 2 63
  decide (-bound ≤ i ∧ i < bound)

/-- A floating-point number without a fractional part and of less than 64 bits. -/
def isIntegral (x : Binary64) : Bool :=
  match x.parts with
  | .finite _ m q =>
    m % Nat.pow 2 (-q).toNat == 0 && m * Nat.pow 2 q.toNat < Nat.pow 2 (63 + (-q).toNat)
  | _ => false

/-- The truth value that an atom stands for, or why it stands for none. -/
def truth : Atom → Except Problem Bool
  | .bool b => .ok b
  | .int i =>
    if i = 0 then .ok false
    else if i = 1 then .ok true
    else .error (if isWord i then .unreadableBool else .notABool)
  | .float x =>
    if x.equalsInt 0 then .ok false
    else if x.equalsInt 1 then .ok true
    else .error (if isIntegral x then .unreadableBool else .notABool)
  | .str s => ((word? s).map .ok).getD (.error .unreadableBool)
  | .bytes bs => (((Text.ofUtf8? bs).bind word?).map .ok).getD (.error .unreadableBool)
  | _ => .error .notABool

def bool : Input → Checked Bool
  | .value (.atom a) => match truth a with
    | .ok b => .ok b
    | .error p => refuse p (.value (.atom a))
  | given => refuse .notABool given

/-- A value of any kind. -/
def any (v : Value) : Checked Value := .ok v

/-- Nothing, or what the check reads. -/
def orNone {α : Type} (check : Input → Checked α) : Input → Checked (Option α)
  | .value .none => .ok none
  | given => (check given).map some

/-- The step that names an entry of a mapping: a text by itself, a number if the key is one of 64
bits, and else what the key is shown as. -/
def entryStep (w : World) : Value → Step
  | .str s => .name s
  | .bool b => .index (if b then 1 else 0)
  | .int i => if isWord i then .index i else .name (toString i)
  | v => .name (w.shown v)

def entry {α : Type} (w : World) (check : Value → Checked α) (e : Value × Value) :
    Checked (String × α) :=
  let step := entryStep w e.1
  both (((text (.value e.1)).under (.name "[key]")).under step) ((check e.2).under step)

/-- A mapping from texts; of two keys that read as the same text, the first keeps its place and the
last its value. -/
def mapping {α : Type} (w : World) (check : Value → Checked α) : Input → Checked (List (String × α))
  | .value v => match v.mapping? w with
    | none => refuse .notAMapping (.value v)
    | some es =>
      (Checked.all (es.map (entry w check))).map fun fs => Entries.overlay (· == ·) [] fs
  | given => refuse .notAMapping given

/-- The items of a list or tuple; a record is read as the list of its fields. -/
def items? (w : World) : Value → Option (List Input)
  | .obj a => match w.get a with
    | .list xs => some (xs.map .value)
    | .tuple xs => some (xs.map .value)
    | .machinery _ parts => parts.map (·.map .value)
    | o => o.fields?.map (·.map fun f => .field f.1 f.2)
  | .atom _ => none

def list {α : Type} (w : World) (check : Input → Checked α) : Input → Checked (List α)
  | .value v => match items? w v with
    | none => refuse .notAList (.value v)
    | some xs => Checked.all ((xs.zipIdx).map fun p => (check p.1).under (.index p.2))
  | given => refuse .notAList given

/-- A field that must be among those given; `given` are all of them. -/
def required {α : Type} (given : List (String × Value)) (name : String) (v : Option Value)
    (check : Input → Checked α) : Checked α :=
  (match v with
    | some v => check (.value v)
    | none => refuse .missing (.fields given)).under (.name name)

/-- A field that has a value when it is not given. -/
def defaulted {α : Type} (name : String) (v : Option Value) (otherwise : α)
    (check : Input → Checked α) : Checked α :=
  (match v with
    | some v => check (.value v)
    | none => .ok otherwise).under (.name name)

end Field
end OpenApiDoc
