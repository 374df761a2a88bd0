import OpenApiDoc.Build

/-! # Mappings with an order

A mapping is a list of entries in the order in which their keys first arrived. `Entries.insert`
keeps the place and the key of an entry whose key is the same and replaces its value; a new key goes
to the end. `Entries.overlay` inserts the entries of a second mapping one after the other.

`Value.iterate` lists the parts of a collection, and `Value.entries` reads a mapping, or any
collection of pairs, as entries. -/

namespace OpenApiDoc

/-- Keys with their values, in order of arrival. -/
abbrev Entries := List (Value × Value)

namespace Entries

variable {κ α : Type}

/-- Replace the value of the entry whose key is the same, or add an entry at the end. -/
def insert (same : κ → κ → Bool) (es : List (κ × α)) (k : κ) (v : α) : List (κ × α) :=
  match es with
  | [] => [(k, v)]
  | (l, u) :: rest => if same l k then (l, v) :: rest else (l, u) :: insert same rest k v

/-- Insert every entry of `extra`. -/
def overlay (same : κ → κ → Bool) (es extra : List (κ × α)) : List (κ × α) :=
  extra.foldl (fun acc e => insert same acc e.1 e.2) es

/-- The value of the first entry whose key is the same. -/
def find? (same : κ → κ → Bool) : List (κ × α) → κ → Option α
  | [], _ => none
  | (l, u) :: rest, k => if same l k then some u else find? same rest k

/-- Entries under names. -/
def named (fields : List (String × Value)) : Entries := fields.map fun f => (.str f.1, f.2)

@[simp] theorem overlay_nil (same : κ → κ → Bool) (es : List (κ × α)) :
    overlay same es [] = es := rfl

@[simp] theorem overlay_cons (same : κ → κ → Bool) (es extra : List (κ × α)) (e : κ × α) :
    overlay same es (e :: extra) = overlay same (insert same es e.1 e.2) extra := rfl

section kept

variable {same : κ → κ → Bool} {P : κ → Prop} {Q : α → Prop} {es extra : List (κ × α)}

/-- Inserting keeps the key of an entry and changes its value, so what is asked of the two must be
asked of each alone. -/
theorem forall_insert {k : κ} {v : α} (h : ∀ e ∈ es, P e.1 ∧ Q e.2) (hk : P k) (hv : Q v) :
    ∀ e ∈ insert same es k v, P e.1 ∧ Q e.2 := by
  induction es with
  | nil => simpa [insert] using ⟨hk, hv⟩
  | cons e es ih =>
      obtain ⟨he, hes⟩ := List.forall_mem_cons.mp h
      by_cases hs : same e.1 k = true
      · rw [insert, if_pos hs]
        exact List.forall_mem_cons.mpr ⟨⟨he.1, hv⟩, hes⟩
      · rw [insert, if_neg hs]
        exact List.forall_mem_cons.mpr ⟨he, ih hes⟩

theorem forall_overlay (h : ∀ e ∈ es, P e.1 ∧ Q e.2) (hx : ∀ e ∈ extra, P e.1 ∧ Q e.2) :
    ∀ e ∈ overlay same es extra, P e.1 ∧ Q e.2 := by
  induction extra generalizing es with
  | nil => exact h
  | cons e extra ih =>
      obtain ⟨he, hx⟩ := List.forall_mem_cons.mp hx
      exact ih (forall_insert h he.1 he.2) hx

theorem forall_value_insert {k : κ} {v : α} (h : ∀ e ∈ es, Q e.2) (hv : Q v) :
    ∀ e ∈ insert same es k v, Q e.2 := fun e he =>
  (forall_insert (P := fun _ => True) (fun f hf => ⟨trivial, h f hf⟩) trivial hv e he).2

theorem forall_key_overlay (h : ∀ e ∈ es, P e.1) (hx : ∀ e ∈ extra, P e.1) :
    ∀ e ∈ overlay same es extra, P e.1 := fun e he =>
  (forall_overlay (Q := fun _ => True) (fun f hf => ⟨h f hf, trivial⟩)
    (fun f hf => ⟨hx f hf, trivial⟩) e he).1

theorem forall_value_overlay (h : ∀ e ∈ es, Q e.2) (hx : ∀ e ∈ extra, Q e.2) :
    ∀ e ∈ overlay same es extra, Q e.2 := fun e he =>
  (forall_overlay (P := fun _ => True) (fun f hf => ⟨trivial, h f hf⟩)
    (fun f hf => ⟨trivial, hx f hf⟩) e he).2

end kept

end Entries

/-- Bind a name of a module, in place of an earlier binding. -/
def Build.bind (m : Addr) (name : String) (v : Value) : Build Unit := do
  Build.put m (.module (Entries.insert (· == ·) (← Build.names m) name v))

/-- Set an attribute of an object, in place of an earlier one. -/
def Build.attach (a : Addr) (name : String) (v : Value) : Build Unit :=
  modify fun w => { w with attributes := Entries.insert (· == ·) w.attributes (a, name) v }

namespace Value

/-- The entries of a mapping. -/
def mapping? (w : World) : Value → Option Entries
  | .obj a => match w.get a with
    | .mapping es => some es
    | _ => Option.none
  | .atom _ => Option.none

/-- The items of a list or a tuple. -/
def items? (w : World) : Value → Option (List Value)
  | .obj a => match w.get a with
    | .list xs => some xs
    | .tuple xs => some xs
    | _ => Option.none
  | .atom _ => Option.none

/-- The parts that a loop over the value meets: the keys of a mapping, the items of a list or tuple,
the characters of a text, the numbers of a sequence of bytes, the fields of a record, the places of
a package. -/
def iterate (v : Value) : Build (List Value) := do
  match v with
  | .atom (.str s) => return s.toList.map fun c => .str (String.singleton c)
  | .atom (.bytes bs) => return bs.map fun b => .int b.toNat
  | .atom a => Build.fail (.notIterable a.typePath)
  | .obj a =>
    match ← Build.look a with
    | .mapping es => return es.map (·.1)
    | .list xs => return xs
    | .tuple xs => return xs
    | .machinery _ (some xs) => return xs
    | o => match o.fields? with
      | some fs => fs.mapM fun f => Build.newTuple [.str f.1, f.2]
      | Option.none => Build.fail (.notIterable o.typePath)

/-- The part at a place of a collection, which must hold a key and a value. -/
def pair (place : Nat) (v : Value) : Build (Value × Value) := do
  let parts ← tryCatch v.iterate fun _ => Build.fail (.notAPair place)
  match parts with
  | [k, u] =>
    Build.requireKey k
    return (k, u)
  | _ => Build.fail (.wrongPair place parts.length)

/-- The entries of a mapping, or of a collection of pairs. -/
def entries (v : Value) : Build Entries := do
  match v.mapping? (← get) with
  | some es => return es
  | Option.none =>
    let parts ← v.iterate
    parts.zipIdx.foldlM (fun (acc : Entries) p => do
      let e ← p.1.pair p.2
      return Entries.insert (← get).sameKey acc e.1 e.2) []

/-- The entries of a mapping, which are asked for by the attribute that lists them. -/
def items (v : Value) : Build Entries := do
  match v.mapping? (← get) with
  | some es => return es
  | Option.none => Build.lack v "items"

/-- The entries of a mapping that are laid over others. -/
def further (v : Value) : Build Entries := do
  let w ← get
  match v.mapping? w with
  | some es => return es
  | Option.none => Build.fail (.notAMapping (w.typePath v))

/-- The entries of a collection of pairs that may be absent or empty. -/
def entriesOrEmpty (v : Value) : Build Entries := do
  if (← get).isEmpty v then return [] else v.entries

/-- The entries of a mapping that are laid over others, which may be absent or empty. -/
def furtherOrEmpty (v : Value) : Build Entries := do
  if (← get).isEmpty v then return [] else v.further

/-- Nothing has been given. -/
def isNone (v : Value) : Bool := v == .none

end Value
end OpenApiDoc
