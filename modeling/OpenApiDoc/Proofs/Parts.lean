import OpenApiDoc.Copy

/-! # The parts of objects

What an object holds, and how a store grows.

* `Object.parts` lists the values that an object holds directly, `Object.rename` changes the
  addresses among them and `Object.view` is the finite view of an object whose parts are viewed by a
  given function.
* `World.Grows` says that a world has everything that an earlier one had, `World.Extends` that it
  has no further attributes either.
* `World.Holds` says that an object is a part of another. -/

namespace OpenApiDoc

/-- Change the address of an object. -/
def Value.rename (ρ : Addr → Addr) : Value → Value
  | .atom a => .atom a
  | .obj a => .obj (ρ a)

@[simp] theorem Value.rename_atom (ρ : Addr → Addr) (a : Atom) :
    (Value.atom a).rename ρ = .atom a := rfl

@[simp] theorem Value.rename_obj (ρ : Addr → Addr) (a : Addr) :
    (Value.obj a).rename ρ = .obj (ρ a) := rfl

namespace Operation

/-- Change the addresses of the collections that an operation holds. -/
def rename (ρ : Addr → Addr) (op : Operation) : Operation :=
  { op with
    responses := ρ op.responses, tags := op.tags.map ρ, parameters := op.parameters.map ρ,
    requestBody := op.requestBody.map ρ, extra := ρ op.extra }

theorem rename_optionalObject (ρ : Addr → Addr) (a : Option Addr) :
    optionalObject (a.map ρ) = (optionalObject a).rename ρ := by
  cases a <;> rfl

theorem fields_rename (ρ : Addr → Addr) (op : Operation) :
    (op.rename ρ).fields = op.fields.map fun e => (e.1, e.2.rename ρ) := by
  have text (s : Option String) : (optionalText s).rename ρ = optionalText s := by
    cases s <;> rfl
  simp [fields, rename, rename_optionalObject, text]

end Operation

namespace Object

/-- The values that an object holds directly. -/
def parts : Object → List Value
  | .mapping es => es.flatMap fun e => [e.1, e.2]
  | .list xs => xs
  | .tuple xs => xs
  | .node f _ => [.obj f]
  | .operation op => op.fields.map (·.2)
  | .module names => names.map (·.2)
  | .machinery _ xs => xs.getD []
  | .moment _ => []
  | .constructor _ => []
  | .builder _ _ => []

/-- Change the addresses that an object holds. -/
def rename (ρ : Addr → Addr) : Object → Object
  | .mapping es => .mapping (es.map fun e => (e.1.rename ρ, e.2.rename ρ))
  | .list xs => .list (xs.map (Value.rename ρ))
  | .tuple xs => .tuple (xs.map (Value.rename ρ))
  | .node f o => .node (ρ f) o
  | .operation op => .operation (op.rename ρ)
  | o => o

/-- The finite view of an object that data can hold, if `g` views its parts. -/
def view (g : Value → Tree) : Object → Option Tree
  | .mapping es => some (.mapping (es.map fun e => (g e.1, g e.2)))
  | .list xs => some (.list (xs.map g))
  | .tuple xs => some (.tuple (xs.map g))
  | .moment m => some (.moment m)
  | .node f o => some (.model .node ((nodeFields f o).map fun e => (e.1, g e.2)))
  | .operation op => some (.model .operation (op.fields.map fun e => (e.1, g e.2)))
  | _ => none

theorem mem_parts_key {es : List (Value × Value)} {e : Value × Value} (h : e ∈ es) :
    e.1 ∈ (Object.mapping es).parts :=
  List.mem_flatMap.mpr ⟨e, h, by simp⟩

theorem mem_parts_value {es : List (Value × Value)} {e : Value × Value} (h : e ∈ es) :
    e.2 ∈ (Object.mapping es).parts :=
  List.mem_flatMap.mpr ⟨e, h, by simp⟩

theorem mem_parts_mapping {es : List (Value × Value)} {v : Value} :
    v ∈ (Object.mapping es).parts ↔ ∃ e ∈ es, v = e.1 ∨ v = e.2 := by
  simp [parts]

/-- Objects with the same view of their parts have the same view. -/
theorem view_congr {g h : Value → Tree} {o : Object} (hp : ∀ v ∈ o.parts, g v = h v)
    (ha : ∀ a, g (.atom a) = h (.atom a)) : o.view g = o.view h := by
  cases o with
  | mapping es =>
      simp only [view, Option.some.injEq, Tree.mapping.injEq]
      apply List.map_congr_left
      intro e he
      rw [hp _ (mem_parts_key he), hp _ (mem_parts_value he)]
  | list xs => simpa [view, parts] using hp
  | tuple xs => simpa [view, parts] using hp
  | node f o => simp [view, nodeFields, hp (.obj f) (by simp [parts]), ha]
  | operation op =>
      simp only [view, Option.some.injEq, Tree.model.injEq, true_and]
      apply List.map_congr_left
      intro e he
      rw [hp _ (List.mem_map.mpr ⟨e, he, rfl⟩)]
  | moment m => rfl
  | constructor c => rfl
  | builder m b => rfl
  | module ns => rfl
  | machinery t ps => rfl

/-- The view of an object whose addresses were changed. -/
theorem view_rename (g : Value → Tree) (ρ : Addr → Addr) (o : Object) :
    (o.rename ρ).view g = o.view fun v => g (v.rename ρ) := by
  cases o <;> simp [view, rename, nodeFields, Operation.fields_rename, Function.comp_def]

theorem rename_congr {ρ σ : Addr → Addr} {o : Object}
    (h : ∀ a, .obj a ∈ o.parts → ρ a = σ a) : o.rename ρ = o.rename σ := by
  have value : ∀ v ∈ o.parts, v.rename ρ = v.rename σ := by
    intro v hv
    cases v with
    | atom a => rfl
    | obj a => simp [h a hv]
  have optional (a : Option Addr) (ha : Operation.optionalObject a ∈ o.parts) :
      a.map ρ = a.map σ := by
    cases a with
    | none => rfl
    | some b => simp [h b ha]
  cases o with
  | mapping es =>
      simp only [rename, mapping.injEq]
      apply List.map_congr_left
      intro e he
      rw [value _ (mem_parts_key he), value _ (mem_parts_value he)]
  | list xs => simpa [rename, parts] using value
  | tuple xs => simpa [rename, parts] using value
  | node f o => simp [rename, h f (by simp [parts])]
  | operation op =>
      simp only [rename, operation.injEq, Operation.rename]
      rw [h op.responses (by simp [parts, Operation.fields]),
        h op.extra (by simp [parts, Operation.fields]),
        optional op.tags (by simp [parts, Operation.fields]),
        optional op.parameters (by simp [parts, Operation.fields]),
        optional op.requestBody (by simp [parts, Operation.fields])]
  | moment m => rfl
  | constructor c => rfl
  | builder m b => rfl
  | module ns => rfl
  | machinery t ps => rfl

end Object

namespace World

/-- The number of objects. -/
abbrev size (w : World) : Nat := w.objects.size

theorem get_of_size_le {w : World} {a : Addr} (h : w.size ≤ a) : w.get a = .tuple [] := by
  simp [get, h]

theorem lt_size_of_mapping {w : World} {a : Addr} {es : List (Value × Value)}
    (h : w.get a = .mapping es) : a < w.size := by
  refine Nat.lt_of_not_le fun ha => ?_
  simp [get_of_size_le ha] at h

theorem size_alloc (w : World) (o : Object) : (w.alloc o).2.size = w.size + 1 := by
  simp [alloc, size]

theorem size_set (w : World) (a : Addr) (o : Object) : (w.set a o).size = w.size := by
  simp [set, size]

/-! ### Growth -/

/-- Nothing is attached to what is not there. -/
def Owned (w : World) : Prop := ∀ a, w.size ≤ a → w.attributesOf a = []

/-- Everything that was there is there as it was. -/
structure Grows (w w' : World) : Prop where
  size : w.size ≤ w'.size
  get : ∀ a < w.size, w'.get a = w.get a
  attributes : ∀ a < w.size, w'.attributesOf a = w.attributesOf a
  owned : w.Owned → w'.Owned

theorem Grows.refl (w : World) : w.Grows w :=
  ⟨Nat.le_refl _, fun _ _ => rfl, fun _ _ => rfl, fun h => h⟩

theorem Grows.trans {u v w : World} (h : u.Grows v) (k : v.Grows w) : u.Grows w where
  size := Nat.le_trans h.size k.size
  get a ha := (k.get a (Nat.lt_of_lt_of_le ha h.size)).trans (h.get a ha)
  attributes a ha := (k.attributes a (Nat.lt_of_lt_of_le ha h.size)).trans (h.attributes a ha)
  owned ho := k.owned (h.owned ho)

/-- Everything that was there is there as it was, and no attribute was set. -/
structure Extends (w w' : World) : Prop where
  size : w.size ≤ w'.size
  get : ∀ a < w.size, w'.get a = w.get a
  attributes : w'.attributes = w.attributes

theorem Extends.refl (w : World) : w.Extends w := ⟨Nat.le_refl _, fun _ _ => rfl, rfl⟩

theorem Extends.trans {u v w : World} (h : u.Extends v) (k : v.Extends w) : u.Extends w where
  size := Nat.le_trans h.size k.size
  get a ha := (k.get a (Nat.lt_of_lt_of_le ha h.size)).trans (h.get a ha)
  attributes := k.attributes.trans h.attributes

theorem Extends.attributesOf {w w' : World} (h : w.Extends w') (a : Addr) :
    w'.attributesOf a = w.attributesOf a := by
  simp [World.attributesOf, h.attributes]

theorem Owned.extends {w w' : World} (h : w.Owned) (k : w.Extends w') : w'.Owned := by
  intro a ha
  rw [k.attributesOf]
  exact h a (Nat.le_trans k.size ha)

theorem Extends.grows {w w' : World} (h : w.Extends w') : w.Grows w' :=
  ⟨h.size, h.get, fun a _ => h.attributesOf a, fun ho => ho.extends h⟩

theorem extends_alloc (w : World) (o : Object) : w.Extends (w.alloc o).2 where
  size := by simp [alloc, World.size]
  get a ha := w.get_alloc_of_lt o ha
  attributes := rfl

/-- Writing to an object that is newer than the store leaves the store as it was. -/
theorem Extends.set {w w' : World} (h : w.Extends w') {a : Addr} (ha : w.size ≤ a) (o : Object) :
    w.Extends (w'.set a o) where
  size := by simpa [World.set, World.size] using h.size
  get b hb := (w'.get_set_of_ne o (Nat.ne_of_gt (Nat.lt_of_lt_of_le hb ha))).trans (h.get b hb)
  attributes := h.attributes

theorem Grows.set {w w' : World} (h : w.Grows w') {a : Addr} (ha : w.size ≤ a) (o : Object) :
    w.Grows (w'.set a o) where
  size := by simpa [World.set, World.size] using h.size
  get b hb := (w'.get_set_of_ne o (Nat.ne_of_gt (Nat.lt_of_lt_of_le hb ha))).trans (h.get b hb)
  attributes := h.attributes
  owned ho b hb := h.owned ho b (by rwa [size_set] at hb)

/-! ### Ways through the store -/

/-- The first object holds the second one directly. -/
def Holds (w : World) (a b : Addr) : Prop := Value.obj b ∈ (w.get a).parts

theorem Holds.lt_size {w : World} {a b : Addr} (h : w.Holds a b) : a < w.size := by
  refine Nat.lt_of_not_le fun ha => ?_
  simp [Holds, get_of_size_le ha, Object.parts] at h

theorem Grows.holds_iff {w w' : World} (h : w.Grows w') {a b : Addr} (ha : a < w.size) :
    w'.Holds a b ↔ w.Holds a b := by
  simp [Holds, h.get a ha]

end World
end OpenApiDoc
