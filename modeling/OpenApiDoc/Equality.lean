import OpenApiDoc.Mapping

/-! # Equality of values

Two values are equal when the same is stored in them. Collections and records are compared part by
part from left to right, and the first part that differs decides; the order of a mapping's entries
does not count. A part is equal to itself without being looked at, so an atom that is not a number
equals itself inside a collection and nowhere else. Attributes that were set on records do not count
either, but where two records have equally many of them they are compared as well.

`World.equal?` is the outcome of a comparison. Values that hold themselves can lead a comparison
back to two objects that it is already comparing; it then has no outcome. -/

namespace OpenApiDoc.World

/-- Compare two sequences item by item. -/
def equalItems (equal : Value → Value → Option Bool) : List Value → List Value → Option Bool
  | [], [] => some true
  | x :: xs, y :: ys =>
    match equal x y with
    | some true => equalItems equal xs ys
    | outcome => outcome
  | _, _ => some false

/-- Compare every entry with the entry of the same key in another mapping. -/
def equalEntries (w : World) (equal : Value → Value → Option Bool) (others : Entries) :
    Entries → Option Bool
  | [] => some true
  | (k, v) :: rest =>
    match Entries.find? w.sameKey others k with
    | none => some false
    | some u =>
      match equal v u with
      | some true => w.equalEntries equal others rest
      | outcome => outcome

/-- Compare attributes in their order with the attributes of the same names in another list. -/
def equalNamed (equal : Value → Value → Option Bool) (others : List (String × Value)) :
    List (String × Value) → Option Bool
  | [] => some true
  | (name, v) :: rest =>
    match others.lookup name with
    | none => some false
    | some u =>
      match equal v u with
      | some true => equalNamed equal others rest
      | outcome => outcome

/-- Compare the records `a` and `b`, whose fields are given. What a comparison of their attributes
gives does not count, but it must come to an end. -/
def equalRecords (w : World) (equal : Value → Value → Option Bool) (a b : Addr)
    (fields others : List Value) : Option Bool :=
  match equalItems equal fields others with
  | some true =>
    let set := w.attributesOf a
    let setOthers := w.attributesOf b
    if set.length = setOthers.length then (equalNamed equal setOthers set).map fun _ => true
    else some true
  | outcome => outcome

/-- Compare two values; `path` holds the pairs of objects that are being compared. -/
def equalFrom (w : World) : Nat → List (Addr × Addr) → Value → Value → Option Bool
  | _, _, .atom a, .atom b => some (a.equals b)
  | _, _, .atom _, .obj _ => some false
  | _, _, .obj _, .atom _ => some false
  | 0, _, .obj _, .obj _ => none
  | fuel + 1, path, .obj a, .obj b =>
    if path.contains (a, b) then none
    else
      let part (u v : Value) : Option Bool :=
        if u = v then some true else w.equalFrom fuel ((a, b) :: path) u v
      match w.get a, w.get b with
      | .mapping es, .mapping fs =>
        if es.length = fs.length then w.equalEntries part fs es else some false
      | .list xs, .list ys =>
        if xs.length = ys.length then equalItems part xs ys else some false
      | .tuple xs, .tuple ys => equalItems part xs ys
      | .moment m, .moment n => some (m == n)
      | .node f o, .node g p => w.equalRecords part a b [.obj f, .bool o] [.obj g, .bool p]
      | .operation p, .operation q =>
        w.equalRecords part a b (p.fields.map (·.2)) (q.fields.map (·.2))
      | _, _ => some (a == b)

/-- The outcome of comparing two values. No pair of objects is compared twice on one path, so a
depth of one more than the number of pairs suffices. -/
def equal? (w : World) (u v : Value) : Option Bool :=
  w.equalFrom (w.objects.size * w.objects.size + 1) [] u v

end OpenApiDoc.World
