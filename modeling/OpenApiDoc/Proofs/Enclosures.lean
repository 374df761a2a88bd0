import OpenApiDoc.Proofs.Outcomes
import OpenApiDoc.Proofs.Ways

/-! # Enclosures

Some objects of a store are reached through few others only. An `Enclosure` names the objects inside
and the doors through which they are reached. `World.Encloses` is the invariant: an object that is
neither inside nor a door holds nothing that is inside. An enclosure may also promise that nothing is
written to what the fragments of nodes hold; then the invariant has it that they are unshared.

* `World.Tidy` holds of the stores that programs make which import no modules.
* `World.Inert` values cannot be written to, down to their last part. All keys are inert.
* `World.Open` values are outside, `World.Usable` values are no doors either.
* `Enclosure.Admits` holds of the objects that may be added outside. -/

namespace OpenApiDoc

/-- Objects that are written to in place. -/
def Object.isWritten : Object → Bool
  | .mapping _ | .list _ => true
  | _ => false

/-- Objects that hold nothing or are tuples. -/
def Object.isInert : Object → Bool
  | .moment _ | .constructor _ | .tuple _ => true
  | _ => false

namespace World

variable {w w' : World}

/-- The value is there. -/
def Has (w : World) : Value → Prop
  | .atom _ => True
  | .obj a => a < w.size

/-- Objects that are never written to are as they were. -/
structure Follows (w w' : World) : Prop where
  size : w.size ≤ w'.size
  get : ∀ a < w.size, (w.get a).isWritten = false → w'.get a = w.get a

theorem Extends.follows (h : w.Extends w') : w.Follows w' := ⟨h.size, fun a ha _ => h.get a ha⟩

theorem Has.mono {v : Value} (h : w.Has v) (k : w.size ≤ w'.size) : w'.Has v := by
  cases v with
  | atom a => trivial
  | obj a => exact Nat.lt_of_lt_of_le h k

theorem IsData.has {v : Value} (h : w.IsData v) : w.Has v := by
  cases v with
  | atom a => trivial
  | obj a => exact h.lt_size

/-- What is there is the same mapping, or none, in a world that extends this one. -/
theorem Extends.mapping? {v : Value} (k : w.Extends w') (h : w.Has v) :
    v.mapping? w' = v.mapping? w := by
  cases v with
  | atom a => rfl
  | obj a => simp only [Value.mapping?, k.get a h]

theorem Extends.items? {v : Value} (k : w.Extends w') (h : w.Has v) :
    v.items? w' = v.items? w := by
  cases v with
  | atom a => rfl
  | obj a => simp only [Value.items?, k.get a h]

/-! ### Inert values -/

/-- A value that cannot be written to, down to its last part. -/
inductive Inert (w : World) : Value → Prop
  | atom (a : Atom) : Inert w (.atom a)
  | moment {a : Addr} {m : Moment} (get : w.get a = .moment m) : Inert w (.obj a)
  | constructor {a : Addr} {c : Constructor} (get : w.get a = .constructor c) : Inert w (.obj a)
  | tuple {a : Addr} {xs : List Value} (lt : a < w.size) (get : w.get a = .tuple xs)
      (items : ∀ v ∈ xs, Inert w v) : Inert w (.obj a)

theorem lt_size_of_get {a : Addr} {o : Object} (h : w.get a = o) (ho : o ≠ .tuple []) :
    a < w.size := by
  refine Nat.lt_of_not_le fun ha => ho ?_
  rw [← h, get_of_size_le ha]

theorem Inert.has {v : Value} (h : w.Inert v) : w.Has v := by
  cases h with
  | atom a => trivial
  | moment get => exact lt_size_of_get get (by simp)
  | constructor get => exact lt_size_of_get get (by simp)
  | tuple lt => exact lt

theorem Inert.kind {a : Addr} (h : w.Inert (.obj a)) : (w.get a).isInert := by
  cases h with
  | moment get => rw [get]; rfl
  | constructor get => rw [get]; rfl
  | tuple _ get => rw [get]; rfl

theorem Inert.unwritten {a : Addr} (h : w.Inert (.obj a)) : (w.get a).isWritten = false := by
  have kind := h.kind
  cases hg : w.get a <;> simp_all [Object.isInert, Object.isWritten]

theorem Inert.part {a : Addr} (h : w.Inert (.obj a)) {v : Value} (hv : v ∈ (w.get a).parts) :
    w.Inert v := by
  cases h with
  | moment get => simp [get, Object.parts] at hv
  | constructor get => simp [get, Object.parts] at hv
  | tuple _ get items => exact items v (by simpa [get, Object.parts] using hv)

/-- Inert values depend on the objects only that inert values are made of. -/
theorem Inert.transfer {v : Value} (h : w.Inert v) (size : w.size ≤ w'.size)
    (get : ∀ a < w.size, (w.get a).isInert → w'.get a = w.get a) : w'.Inert v := by
  induction h with
  | atom a => exact .atom a
  | @moment a m hg =>
      refine .moment (m := m) ?_
      rw [get a (lt_size_of_get hg (by simp)) (by rw [hg]; rfl), hg]
  | @constructor a c hg =>
      refine .constructor (c := c) ?_
      rw [get a (lt_size_of_get hg (by simp)) (by rw [hg]; rfl), hg]
  | @tuple a xs lt hg _ ih =>
      refine .tuple (Nat.lt_of_lt_of_le lt size) ?_ ih
      rw [get a lt (by rw [hg]; rfl), hg]

theorem Inert.follows {v : Value} (h : w.Inert v) (k : w.Follows w') : w'.Inert v := by
  refine h.transfer k.size fun a ha hi => k.get a ha ?_
  cases hg : w.get a <;> simp_all [Object.isInert, Object.isWritten]

theorem Fixed.inert {a : Addr} (h : w.Fixed a) (ha : a < w.size)
    (part : ∀ a b, w.Holds a b → b < w.size) : w.Inert (.obj a) := by
  induction h with
  | @tuple a xs get _ ih =>
      refine .tuple ha get fun v hv => ?_
      cases v with
      | atom b => exact .atom b
      | obj b => exact ih b hv (part a b (by simpa [Holds, get, Object.parts] using hv))

/-! ### Tidy stores -/

/-- A store without modules and builders. Nothing is attached to its objects, its keys are inert, and
the fragments of its nodes are mappings. -/
structure Tidy (w : World) : Prop where
  attributes : w.attributes = []
  kind : ∀ a < w.size, (w.get a).isCopied
  part : ∀ a b, w.Holds a b → b < w.size
  older : ∀ a xs, w.get a = .tuple xs → ∀ b, .obj b ∈ xs → b < a
  keys : ∀ a es, w.get a = .mapping es → ∀ e ∈ es, w.Inert e.1
  fragment : ∀ a f o, w.get a = .node f o → ∃ es, w.get f = .mapping es

theorem Tidy.bare (h : w.Tidy) (a : Addr) : w.attributesOf a = [] := by
  simp [attributesOf, h.attributes]

theorem Tidy.owned (h : w.Tidy) : w.Owned := fun a _ => h.bare a

theorem Tidy.copyable (h : w.Tidy) : w.Copyable (· < w.size) where
  lt _ ha := ha
  bare a _ := h.bare a
  kind := h.kind
  older a xs _ := h.older a xs
  part a b _ := h.part a b

theorem Tidy.has_part (h : w.Tidy) {a : Addr} {v : Value} (hv : v ∈ (w.get a).parts) : w.Has v := by
  cases v with
  | atom b => trivial
  | obj b => exact h.part a b hv

/-- An inert value that was there has been inert. -/
theorem Tidy.inert_of_extends (h : w.Tidy) (k : w.Extends w') {v : Value} (hi : w'.Inert v)
    (hv : w.Has v) : w.Inert v := by
  induction hi with
  | atom a => exact .atom a
  | @moment a m get => exact .moment (m := m) ((k.get a hv).symm.trans get)
  | @constructor a c get => exact .constructor (c := c) ((k.get a hv).symm.trans get)
  | @tuple a xs _ get _ ih =>
      have get : w.get a = .tuple xs := (k.get a hv).symm.trans get
      refine .tuple hv get fun v hv => ih v hv (h.has_part (a := a) ?_)
      rwa [get]

/-- A value that can be a key is inert. -/
theorem Tidy.inert_of_hashable (h : w.Tidy) {v : Value} (hv : w.Has v)
    (hk : w.unhashable? v = none) : w.Inert v := by
  have deep (n : Nat) : ∀ (path : List Addr) (v : Value), w.Has v →
      (w.unfold n path v).unhashable? = none → w.Inert v := by
    induction n with
    | zero =>
        intro path v _ hk
        cases v with
        | atom a => exact .atom a
        | obj a => simp [unfold, Tree.unhashable?] at hk
    | succ n ih =>
        intro path v hv hk
        cases v with
        | atom a => exact .atom a
        | obj a =>
            by_cases hp : a ∈ path
            · simp [unfold, hp, Tree.unhashable?] at hk
            · have kind := h.kind a hv
              cases hg : w.get a with
              | moment m => exact .moment hg
              | constructor c => exact .constructor hg
              | tuple xs =>
                  refine .tuple hv hg fun x hx => ih (a :: path) x ?_ ?_
                  · exact h.has_part (a := a) (by simpa [hg, Object.parts] using hx)
                  · simp only [unfold, List.contains_eq_mem, hp, decide_false, Bool.false_eq_true,
                      if_false, hg, Tree.unhashable?, Tree.unhashableIn?_eq,
                      List.findSome?_eq_none_iff, List.mem_map, forall_exists_index, and_imp] at hk
                    exact hk _ x hx rfl
              | mapping es => simp [unfold, hp, hg, Tree.unhashable?] at hk
              | list xs => simp [unfold, hp, hg, Tree.unhashable?] at hk
              | node f o => simp [unfold, hp, hg, Tree.unhashable?] at hk
              | operation op => simp [unfold, hp, hg, Tree.unhashable?] at hk
              | builder m b => simp [hg, Object.isCopied, Object.isData] at kind
              | module ns => simp [hg, Object.isCopied, Object.isData] at kind
              | machinery t ps => simp [hg, Object.isCopied, Object.isData] at kind
  exact deep _ _ v hv hk

end World

/-! ### Enclosures -/

/-- Objects that are reached through a few others only, and whether the fragments of nodes are spared
when objects are written to. -/
structure Enclosure where
  doors : Addr → Prop
  inside : Addr → Prop
  spared : Prop

/-- Nothing is enclosed. -/
def Enclosure.empty : Enclosure := ⟨fun _ => False, fun _ => False, False⟩

namespace World

variable {w w' : World} {E : Enclosure}

/-- What is inside is held by what is inside and by the doors. -/
structure Encloses (E : Enclosure) (w : World) : Prop where
  tidy : w.Tidy
  apart : ∀ a b, ¬ E.inside a → ¬ E.doors a → w.Holds a b → ¬ E.inside b
  lt : ∀ a, E.inside a → a < w.size
  inert : ∀ a, E.inside a → ¬ w.Inert (.obj a)
  door : ∀ a, E.doors a → ∃ es, w.get a = .mapping es
  untangled : E.spared → w.Untangled

theorem Tidy.encloses_empty (h : w.Tidy) : w.Encloses .empty :=
  ⟨h, fun _ _ _ _ _ hb => hb, fun _ => False.elim, fun _ => False.elim, fun _ => False.elim,
    False.elim⟩

theorem Encloses.door_lt (h : w.Encloses E) {a : Addr} (ha : E.doors a) : a < w.size := by
  obtain ⟨es, hg⟩ := h.door a ha
  exact lt_size_of_mapping hg

/-- The value is not inside. -/
def Open (E : Enclosure) (w : World) : Value → Prop
  | .atom _ => True
  | .obj a => a < w.size ∧ ¬ E.inside a

/-- The value is not inside and no door. -/
def Usable (E : Enclosure) (w : World) : Value → Prop
  | .atom _ => True
  | .obj a => a < w.size ∧ ¬ E.inside a ∧ ¬ E.doors a

theorem Usable.open {v : Value} (h : w.Usable E v) : w.Open E v := by
  cases v with
  | atom a => trivial
  | obj a => exact ⟨h.1, h.2.1⟩

theorem Has.open_empty {v : Value} (h : w.Has v) : w.Open .empty v := by
  cases v with
  | atom a => trivial
  | obj a => exact ⟨h, fun hi => hi⟩

theorem Open.has {v : Value} (h : w.Open E v) : w.Has v := by
  cases v with
  | atom a => trivial
  | obj a => exact h.1

theorem Open.mono {v : Value} (h : w.Open E v) (k : w.size ≤ w'.size) : w'.Open E v := by
  cases v with
  | atom a => trivial
  | obj a => exact ⟨Nat.lt_of_lt_of_le h.1 k, h.2⟩

theorem Usable.mono {v : Value} (h : w.Usable E v) (k : w.size ≤ w'.size) : w'.Usable E v := by
  cases v with
  | atom a => trivial
  | obj a => exact ⟨Nat.lt_of_lt_of_le h.1 k, h.2⟩

theorem Encloses.usable_of_inert (h : w.Encloses E) {v : Value} (hv : w.Inert v) :
    w.Usable E v := by
  cases v with
  | atom a => trivial
  | obj a =>
      refine ⟨hv.has, fun ha => h.inert a ha hv, fun ha => ?_⟩
      obtain ⟨es, hg⟩ := h.door a ha
      simpa [hg, Object.isInert] using hv.kind

/-- The parts of what is usable are not inside. -/
theorem Encloses.open_part (h : w.Encloses E) {a : Addr} (ha : w.Usable E (.obj a)) {v : Value}
    (hv : v ∈ (w.get a).parts) : w.Open E v := by
  cases v with
  | atom b => trivial
  | obj b => exact ⟨h.tidy.part a b hv, h.apart a b ha.2.1 ha.2.2 hv⟩

/-- What the new objects of a store hold is not inside, and they are in order. -/
structure Joins (E : Enclosure) (w w' : World) : Prop where
  grows : w.Extends w'
  kind : ∀ a, w.size ≤ a → a < w'.size → (w'.get a).isCopied
  part : ∀ a, w.size ≤ a → ∀ v ∈ (w'.get a).parts, w'.Open E v
  older : ∀ a, w.size ≤ a → ∀ xs, w'.get a = .tuple xs → ∀ b, .obj b ∈ xs → b < a
  keys : ∀ a, w.size ≤ a → ∀ es, w'.get a = .mapping es → ∀ e ∈ es, w'.Inert e.1
  fragment : ∀ a, w.size ≤ a → ∀ f o, w'.get a = .node f o → ∃ es, w'.get f = .mapping es
  untangled : E.spared → ∀ a, w.size ≤ a → ∀ f o, w'.get a = .node f o → w'.Unshared (.obj f)

/-- The enclosure is closed in a store to which such objects were added. -/
theorem Encloses.joins (h : w.Encloses E) (k : Joins E w w') : w'.Encloses E where
  tidy := by
    refine ⟨k.grows.attributes.trans h.tidy.attributes, fun a ha => ?_, fun a b hab => ?_,
      fun a xs hx b hb => ?_, fun a es hg e he => ?_, fun a f o hg => ?_⟩
    · by_cases old : a < w.size
      · rw [k.grows.get a old]
        exact h.tidy.kind a old
      · exact k.kind a (Nat.not_lt.mp old) ha
    · by_cases old : a < w.size
      · rw [Holds, k.grows.get a old] at hab
        exact Nat.lt_of_lt_of_le (h.tidy.part a b hab) k.grows.size
      · exact (k.part a (Nat.not_lt.mp old) _ hab).1
    · by_cases old : a < w.size
      · rw [k.grows.get a old] at hx
        exact h.tidy.older a xs hx b hb
      · exact k.older a (Nat.not_lt.mp old) xs hx b hb
    · by_cases old : a < w.size
      · rw [k.grows.get a old] at hg
        exact (h.tidy.keys a es hg e he).follows k.grows.follows
      · exact k.keys a (Nat.not_lt.mp old) es hg e he
    · by_cases old : a < w.size
      · rw [k.grows.get a old] at hg
        obtain ⟨es, hf⟩ := h.tidy.fragment a f o hg
        exact ⟨es, (k.grows.get f (lt_size_of_mapping hf)).trans hf⟩
      · exact k.fragment a (Nat.not_lt.mp old) f o hg
  apart a b hi hd hab := by
    by_cases old : a < w.size
    · rw [Holds, k.grows.get a old] at hab
      exact h.apart a b hi hd hab
    · exact (k.part a (Nat.not_lt.mp old) _ hab).2
  lt a ha := Nat.lt_of_lt_of_le (h.lt a ha) k.grows.size
  inert a ha hin := by
    exact h.inert a ha (h.tidy.inert_of_extends k.grows hin (h.lt a ha))
  door a ha := by
    obtain ⟨es, hg⟩ := h.door a ha
    exact ⟨es, (k.grows.get a (lt_size_of_mapping hg)).trans hg⟩
  untangled hs a f o hg := by
    by_cases old : a < w.size
    · rw [k.grows.get a old] at hg
      exact (h.untangled hs a f o hg).extends k.grows |>.1
    · exact k.untangled hs a (Nat.not_lt.mp old) f o hg

/-- Entries that may be put into a mapping outside. -/
def OpenEntries (E : Enclosure) (w : World) (es : Entries) : Prop :=
  ∀ e ∈ es, w.Inert e.1 ∧ w.Open E e.2

/-- An object that may be added outside. -/
inductive Admits (E : Enclosure) (w : World) : Object → Prop
  | mapping {es : Entries} (entries : OpenEntries E w es) : Admits E w (.mapping es)
  | list {xs : List Value} (items : ∀ v ∈ xs, w.Open E v) : Admits E w (.list xs)
  | tuple {xs : List Value} (items : ∀ v ∈ xs, w.Open E v) : Admits E w (.tuple xs)
  | moment (m : Moment) : Admits E w (.moment m)
  | node {f : Addr} {o : Bool} {es : Entries} (fragment : w.Open E (.obj f))
      (mapping : w.get f = .mapping es) (untangled : E.spared → w.Unshared (.obj f)) :
      Admits E w (.node f o)
  | operation {op : Operation} (fields : ∀ e ∈ op.fields, w.Open E e.2) :
      Admits E w (.operation op)

theorem Encloses.openEntries (h : w.Encloses E) {a : Addr} (ha : w.Usable E (.obj a))
    {es : Entries} (hg : w.get a = .mapping es) : OpenEntries E w es := by
  intro e he
  refine ⟨h.tidy.keys a es hg e he, h.open_part ha ?_⟩
  rw [hg]
  exact Object.mem_parts_value he

theorem OpenEntries.mono {es : Entries} (h : OpenEntries E w es) (k : w.Extends w') :
    OpenEntries E w' es :=
  fun e he => ⟨(h e he).1.follows k.follows, (h e he).2.mono k.size⟩

theorem Encloses.open_of_admits (h : w.Encloses E) {o : Object} (ho : Admits E w o) {v : Value}
    (hv : v ∈ o.parts) : w.Open E v := by
  cases ho with
  | mapping entries =>
      obtain ⟨e, he, rfl | rfl⟩ := Object.mem_parts_mapping.mp hv
      · exact (h.usable_of_inert (entries e he).1).open
      · exact (entries e he).2
  | list items => exact items v hv
  | tuple items => exact items v hv
  | moment m => simp [Object.parts] at hv
  | node fragment =>
      obtain rfl : v = _ := by simpa [Object.parts] using hv
      exact fragment
  | operation fields =>
      obtain ⟨e, he, rfl⟩ := List.mem_map.mp hv
      exact fields e he

/-- An object that may be added outside can be used when it has been added. -/
theorem Encloses.alloc (h : w.Encloses E) {o : Object} (ho : Admits E w o) :
    (w.alloc o).2.Encloses E ∧ (w.alloc o).2.Usable E (.obj w.size) := by
  have grows := w.extends_alloc o
  have only {a : Addr} (ha : w.size ≤ a) (lt : a < (w.alloc o).2.size) : a = w.size := by
    rw [w.size_alloc] at lt
    exact Nat.le_antisymm (Nat.le_of_lt_succ lt) ha
  have get : (w.alloc o).2.get w.size = o := w.get_alloc_same o
  have joins : Joins E w (w.alloc o).2 := by
    refine ⟨grows, fun a ha lt => ?_, fun a ha v hv => ?_, fun a ha xs hx b hb => ?_,
      fun a ha es hg e he => ?_, fun a ha f b hg => ?_, fun hs a ha f b hg => ?_⟩
    · rw [only ha lt, get]
      cases ho <;> rfl
    · by_cases lt : a < (w.alloc o).2.size
      · rw [only ha lt, get] at hv
        exact (h.open_of_admits ho hv).mono grows.size
      · simp [get_of_size_le (Nat.not_lt.mp lt), Object.parts] at hv
    · by_cases lt : a < (w.alloc o).2.size
      · rw [only ha lt, get] at hx
        rw [only ha lt]
        exact (h.open_of_admits ho (v := .obj b) (by rwa [hx])).1
      · rw [get_of_size_le (Nat.not_lt.mp lt)] at hx
        obtain rfl : [] = xs := by simpa using hx
        simp at hb
    · have lt := lt_size_of_mapping hg
      rw [only ha lt, get] at hg
      subst hg
      cases ho with
      | mapping entries => exact (entries e he).1.follows grows.follows
    · have lt := lt_size_of_get hg (by simp)
      rw [only ha lt, get] at hg
      subst hg
      cases ho with
      | @node _ _ es fragment mapping =>
          exact ⟨es, (grows.get f (lt_size_of_mapping mapping)).trans mapping⟩
    · have lt := lt_size_of_get hg (by simp)
      rw [only ha lt, get] at hg
      subst hg
      cases ho with
      | node _ _ untangled => exact ((untangled hs).extends grows).1
  refine ⟨h.joins joins, ?_, fun hi => ?_, fun hd => ?_⟩
  · rw [w.size_alloc]
    exact Nat.lt_succ_self _
  · exact Nat.lt_irrefl _ (h.lt _ hi)
  · exact Nat.lt_irrefl _ (h.door_lt hd)

end World

namespace Build

variable {w : World} {E : Enclosure}

theorem Keeps.add {o : Object} (h : World.Admits E w o) :
    (Build.new o).Keeps (World.Encloses E) w fun a w' => w'.get a = o ∧ w'.Usable E (.obj a) :=
  .new fun hw => ⟨(hw.alloc h).1, w.get_alloc_same o, (hw.alloc h).2⟩

theorem newMapping_keeps {es : Entries} (h : World.OpenEntries E w es) :
    (newMapping es).Keeps (World.Encloses E) w fun v w' =>
      v.mapping? w' = some es ∧ w'.Usable E v :=
  (Keeps.add (.mapping h)).bind fun a w' _ ha => .pure ⟨by simp [Value.mapping?, ha.1], ha.2⟩

theorem newList_keeps {xs : List Value} (h : ∀ v ∈ xs, w.Open E v) :
    (newList xs).Keeps (World.Encloses E) w fun v w' => w'.Usable E v :=
  (Keeps.add (.list h)).bind fun _ _ _ ha => .pure ha.2

theorem newTuple_keeps {xs : List Value} (h : ∀ v ∈ xs, w.Open E v) :
    (newTuple xs).Keeps (World.Encloses E) w fun v w' => w'.Usable E v :=
  (Keeps.add (.tuple h)).bind fun _ _ _ ha => .pure ha.2

end Build
end OpenApiDoc
