import OpenApiDoc.Proofs.Detached

/-! # Ways through a value

A way goes from a value through its collections. It is the list of the places at which it enters the
next part: of a mapping it enters the values, never the keys.

* `World.Unshared` says that no two ways through a value lead to one mapping, list or calendar value,
  and that none leads to a tuple or a node.
* `World.Sprout` says in addition that these objects lie in an interval of addresses, and
  `World.Sprouts` that the values of a list have such intervals one behind the other. A collection of
  such values is a sprout again, whatever its objects are (`World.Sprouts.collection`).
* `Copying.Image.sprout`: a copy keeps what is shared and shares nothing else, so the copy of an
  unshared value is unshared. -/

namespace OpenApiDoc

/-- The values that an object holds under keys and indices. -/
def Object.children : Object → List Value
  | .mapping es => es.map (·.2)
  | .list xs => xs
  | .tuple xs => xs
  | _ => []

/-- Objects that can be told to be the same when they are met again. -/
def Object.isShareable : Object → Bool
  | .mapping _ | .list _ | .moment _ => true
  | _ => false

/-- Objects that plain copies are made of. -/
def Object.isPlain : Object → Bool
  | .tuple _ | .node _ _ => false
  | _ => true

theorem Object.children_rename (ρ : Addr → Addr) (o : Object) :
    (o.rename ρ).children = o.children.map (Value.rename ρ) := by
  cases o <;> simp [rename, children, Function.comp_def]

theorem Object.isShareable_rename (ρ : Addr → Addr) (o : Object) :
    (o.rename ρ).isShareable = o.isShareable := by
  cases o <;> rfl

theorem Object.isPlain_rename (ρ : Addr → Addr) (o : Object) :
    (o.rename ρ).isPlain = o.isPlain := by
  cases o <;> rfl

theorem Object.mem_parts_of_mem_children {o : Object} {v : Value} (h : v ∈ o.children) :
    v ∈ o.parts := by
  cases o with
  | mapping es =>
      obtain ⟨e, he, rfl⟩ := List.mem_map.mp h
      exact mem_parts_value he
  | list xs => exact h
  | tuple xs => exact h
  | _ => simp [children] at h

namespace World

variable {w w' : World}

/-- The values that a value holds under keys and indices. -/
def children (w : World) : Value → List Value
  | .atom _ => []
  | .obj a => (w.get a).children

/-- Where a way leads. -/
def follow (w : World) : List Nat → Value → Option Value
  | [], v => some v
  | i :: way, v => ((w.children v)[i]?).bind (w.follow way)

@[simp] theorem follow_nil (w : World) (v : Value) : w.follow [] v = some v := rfl

@[simp] theorem follow_cons (w : World) (i : Nat) (way : List Nat) (v : Value) :
    w.follow (i :: way) v = ((w.children v)[i]?).bind (w.follow way) := rfl

theorem follow_atom {way : List Nat} {a : Atom} {v : Value} (h : w.follow way (.atom a) = some v) :
    v = .atom a := by
  cases way with
  | nil => exact (Option.some.inj h).symm
  | cons i way => simp [children] at h

/-- The first step of a way to an object. -/
theorem follow_cons_eq {i : Nat} {way : List Nat} {v u : Value}
    (h : w.follow (i :: way) v = some u) :
    ∃ x, (w.children v)[i]? = some x ∧ w.follow way x = some u := by
  cases hx : (w.children v)[i]? with
  | none => simp [hx] at h
  | some x => exact ⟨x, rfl, by simpa [hx] using h⟩

theorem reaches_of_follow {way : List Nat} {v : Value} {b : Addr}
    (h : w.follow way v = some (.obj b)) : w.Reaches v b := by
  induction way generalizing v with
  | nil => exact ⟨b, Option.some.inj h, .refl⟩
  | cons i way ih =>
      obtain ⟨x, hx, hb⟩ := follow_cons_eq h
      cases v with
      | atom a => simp [children] at hx
      | obj a =>
          exact (ih hb).part (Object.mem_parts_of_mem_children (List.mem_of_getElem? hx))

/-- A way depends on nothing but the collections that it goes through. -/
theorem follow_congr {v : Value}
    (same : ∀ way a, w.follow way v = some (.obj a) → (w'.get a).children = (w.get a).children)
    (way : List Nat) : w'.follow way v = w.follow way v := by
  induction way generalizing v with
  | nil => rfl
  | cons i way ih =>
      have parts : w'.children v = w.children v := by
        cases v with
        | atom a => rfl
        | obj a => exact same [] a rfl
      rw [follow_cons, follow_cons, parts]
      cases hx : (w.children v)[i]? with
      | none => rfl
      | some x => exact ih fun way a ha => same (i :: way) a (by simpa [hx] using ha)

/-! ### Nothing is shared -/

/-- No two ways lead to one mapping, list or calendar value, none leads to a tuple or a node, and all
ways stay in the store. -/
structure Unshared (w : World) (v : Value) : Prop where
  there : ∀ way a, w.follow way v = some (.obj a) → a < w.size
  once : ∀ way way' a, w.follow way v = some (.obj a) → w.follow way' v = some (.obj a) →
    (w.get a).isShareable → way = way'
  plain : ∀ way a, w.follow way v = some (.obj a) → (w.get a).isPlain

theorem unshared_atom (w : World) (a : Atom) : w.Unshared (.atom a) where
  there way b h := by simpa using follow_atom h
  once way way' b h := by simpa using follow_atom h
  plain way b h := by simpa using follow_atom h

/-- What holds nothing under keys and indices. -/
theorem unshared_of_bare {a : Addr} (lt : a < w.size) (h : (w.get a).children = [])
    (plain : (w.get a).isPlain) : w.Unshared (.obj a) := by
  have only {way : List Nat} {b : Addr} (hb : w.follow way (.obj a) = some (.obj b)) :
      way = [] ∧ a = b := by
    cases way with
    | nil => exact ⟨rfl, by simpa using hb⟩
    | cons i way => simp [children, h] at hb
  exact ⟨fun way b hb => (only hb).2 ▸ lt,
    fun way way' b hb hb' _ => (only hb).1.trans (only hb').1.symm,
    fun way b hb => (only hb).2 ▸ plain⟩

/-- The collections that the ways go through may be read from another store. -/
theorem Unshared.transfer {v : Value} (h : w.Unshared v)
    (same : ∀ way a, w.follow way v = some (.obj a) → a < w'.size ∧
      (w'.get a).children = (w.get a).children ∧
      (w'.get a).isShareable = (w.get a).isShareable ∧ (w'.get a).isPlain = (w.get a).isPlain) :
    w'.Unshared v ∧ ∀ way, w'.follow way v = w.follow way v := by
  have ways (way : List Nat) : w'.follow way v = w.follow way v :=
    follow_congr (fun way a ha => (same way a ha).2.1) way
  refine ⟨⟨fun way a ha => ?_, fun way way' a ha ha' hs => ?_, fun way a ha => ?_⟩, ways⟩
  · exact (same way a (ways way ▸ ha)).1
  · rw [ways] at ha ha'
    exact h.once way way' a ha ha' ((same way a ha).2.2.1 ▸ hs)
  · rw [ways] at ha
    exact (same way a ha).2.2.2 ▸ h.plain way a ha

theorem Unshared.extends {v : Value} (h : w.Unshared v) (k : w.Extends w') :
    w'.Unshared v ∧ ∀ way, w'.follow way v = w.follow way v :=
  h.transfer fun way a ha => by
    have lt := h.there way a ha
    rw [k.get a lt]
    exact ⟨Nat.lt_of_lt_of_le lt k.size, rfl, rfl, rfl⟩

/-- A part of what is unshared. -/
theorem Unshared.part {v x : Value} {i : Nat} (h : w.Unshared v)
    (hx : (w.children v)[i]? = some x) : w.Unshared x := by
  have ways (way : List Nat) : w.follow (i :: way) v = w.follow way x := by simp [hx]
  refine ⟨fun way a ha => h.there (i :: way) a (by rwa [ways]), fun way way' a ha ha' hs => ?_,
    fun way a ha => h.plain (i :: way) a (by rwa [ways])⟩
  have := h.once (i :: way) (i :: way') a (by rwa [ways]) (by rwa [ways]) hs
  simpa using this

/-- Another object that holds the same. -/
theorem Unshared.twin {a b : Addr} (h : w.Unshared (.obj a))
    (same : (w.get b).children = (w.get a).children) (lt : b < w.size) (plain : (w.get b).isPlain)
    (fresh : ∀ way, w.follow way (.obj a) ≠ some (.obj b)) : w.Unshared (.obj b) := by
  have ways (i : Nat) (way : List Nat) :
      w.follow (i :: way) (.obj b) = w.follow (i :: way) (.obj a) := by
    simp only [follow_cons, children, same]
  have self {way : List Nat} (hw : w.follow way (.obj b) = some (.obj b)) : way = [] := by
    cases way with
    | nil => rfl
    | cons i way => exact absurd (ways i way ▸ hw) (fresh (i :: way))
  refine ⟨fun way c hc => ?_, fun way way' c hc hc' hs => ?_, fun way c hc => ?_⟩
  · cases way with
    | nil =>
        obtain rfl : b = c := by simpa using hc
        exact lt
    | cons i way => exact h.there _ c (ways i way ▸ hc)
  · by_cases hcb : c = b
    · subst hcb
      rw [self hc, self hc']
    · have further {p : List Nat} (hp : w.follow p (.obj b) = some (.obj c)) :
          w.follow p (.obj a) = some (.obj c) := by
        cases p with
        | nil => exact absurd (by simpa using hp.symm) hcb
        | cons i q => exact ways i q ▸ hp
      exact h.once way way' c (further hc) (further hc') hs
  · cases way with
    | nil =>
        obtain rfl : b = c := by simpa using hc
        exact plain
    | cons i way => exact h.plain _ c (ways i way ▸ hc)

/-! ### Sprouts -/

/-- The value is unshared, and its objects lie from `lo` on and before `hi`. -/
structure Sprout (w : World) (lo hi : Nat) (v : Value) : Prop extends w.Unshared v where
  within : ∀ way a, w.follow way v = some (.obj a) → (w.get a).isShareable → lo ≤ a ∧ a < hi

theorem sprout_atom (w : World) (lo hi : Nat) (a : Atom) : w.Sprout lo hi (.atom a) where
  toUnshared := w.unshared_atom a
  within way b h := by simpa using follow_atom h

theorem Sprout.extends {lo hi : Nat} {v : Value} (h : w.Sprout lo hi v) (k : w.Extends w') :
    w'.Sprout lo hi v := by
  obtain ⟨unshared, ways⟩ := h.toUnshared.extends k
  refine ⟨unshared, fun way a ha hs => ?_⟩
  rw [ways] at ha
  rw [k.get a (h.there way a ha)] at hs
  exact h.within way a ha hs

theorem Sprout.mono {lo hi lo' hi' : Nat} {v : Value} (h : w.Sprout lo hi v) (hl : lo' ≤ lo)
    (hh : hi ≤ hi') : w.Sprout lo' hi' v where
  toUnshared := h.toUnshared
  within way a ha hs :=
    ⟨Nat.le_trans hl (h.within way a ha hs).1, Nat.lt_of_lt_of_le (h.within way a ha hs).2 hh⟩

/-- Values with intervals one behind the other. -/
inductive Sprouts (w : World) : Nat → Nat → List Value → Prop
  | nil {lo hi : Nat} (le : lo ≤ hi) : Sprouts w lo hi []
  | cons {lo mid hi : Nat} {v : Value} {vs : List Value} (le : lo ≤ mid) (head : w.Sprout lo mid v)
      (rest : Sprouts w mid hi vs) : Sprouts w lo hi (v :: vs)

theorem Sprouts.le {lo hi : Nat} {vs : List Value} (h : w.Sprouts lo hi vs) : lo ≤ hi := by
  induction h with
  | nil le => exact le
  | cons le _ _ ih => exact Nat.le_trans le ih

theorem Sprouts.extends {lo hi : Nat} {vs : List Value} (h : w.Sprouts lo hi vs)
    (k : w.Extends w') : w'.Sprouts lo hi vs := by
  induction h with
  | nil le => exact .nil le
  | cons le head _ ih => exact .cons le (head.extends k) ih

theorem Sprouts.get {lo hi : Nat} {vs : List Value} (h : w.Sprouts lo hi vs) {i : Nat} {v : Value}
    (hi' : vs[i]? = some v) : w.Sprout lo hi v := by
  induction h generalizing i with
  | nil _ => simp at hi'
  | @cons lo mid hi u us le head rest ih =>
      cases i with
      | zero =>
          obtain rfl : u = v := by simpa using hi'
          exact head.mono (Nat.le_refl _) rest.le
      | succ i => exact (ih (by simpa using hi')).mono le (Nat.le_refl _)

/-- Different values of the list have no object in common. -/
theorem Sprouts.apart {lo hi : Nat} {vs : List Value} (h : w.Sprouts lo hi vs) {i j : Nat}
    {u v : Value} (hu : vs[i]? = some u) (hv : vs[j]? = some v) {way way' : List Nat} {a : Addr}
    (ha : w.follow way u = some (.obj a)) (ha' : w.follow way' v = some (.obj a))
    (hs : (w.get a).isShareable) : i = j := by
  induction h generalizing i j with
  | nil _ => simp at hu
  | @cons lo mid hi x xs le head rest ih =>
      have before {y : Value} (hy : some x = some y) {p : List Nat}
          (hp : w.follow p y = some (.obj a)) : a < mid := by
        obtain rfl := Option.some.inj hy
        exact (head.within p a hp hs).2
      have behind {k : Nat} {y : Value} (hy : xs[k]? = some y) {p : List Nat}
          (hp : w.follow p y = some (.obj a)) : mid ≤ a := ((rest.get hy).within p a hp hs).1
      cases i with
      | zero =>
          cases j with
          | zero => rfl
          | succ j => exact absurd (before hu ha) (Nat.not_lt.mpr (behind hv ha'))
      | succ i =>
          cases j with
          | zero => exact absurd (before hv ha') (Nat.not_lt.mpr (behind hu ha))
          | succ j => exact congrArg (· + 1) (ih hu hv)

/-- A collection of sprouts behind them. -/
theorem Sprouts.collection {lo hi a : Nat} {vs : List Value} (h : w.Sprouts lo hi vs)
    (ha : (w.get a).children = vs) (plain : (w.get a).isPlain) (le : hi ≤ a) (lt : a < w.size) :
    w.Sprout lo (a + 1) (.obj a) := by
  have step {i : Nat} {way : List Nat} {b : Addr}
      (hb : w.follow (i :: way) (.obj a) = some (.obj b)) :
      ∃ v, vs[i]? = some v ∧ w.follow way v = some (.obj b) := by
    obtain ⟨v, hv, hb⟩ := follow_cons_eq hb
    exact ⟨v, by rwa [children, ha] at hv, hb⟩
  have self {way : List Nat} (hb : w.follow way (.obj a) = some (.obj a))
      (hs : (w.get a).isShareable) : way = [] := by
    cases way with
    | nil => rfl
    | cons i way =>
        obtain ⟨v, hv, hb⟩ := step hb
        exact absurd ((h.get hv).within way a hb hs).2 (Nat.not_lt.mpr le)
  refine ⟨⟨fun way b hb => ?_, fun way way' b hb hb' hs => ?_, fun way b hb => ?_⟩,
    fun way b hb hs => ?_⟩
  · cases way with
    | nil =>
        obtain rfl : a = b := by simpa using hb
        exact lt
    | cons i way =>
        obtain ⟨v, hv, hb⟩ := step hb
        exact (h.get hv).there way b hb
  · by_cases hba : b = a
    · subst hba
      rw [self hb hs, self hb' hs]
    · have enters {p : List Nat} (hp : w.follow p (.obj a) = some (.obj b)) :
          ∃ i q, p = i :: q := by
        cases p with
        | nil => exact absurd (by simpa using hp.symm) hba
        | cons i q => exact ⟨i, q, rfl⟩
      obtain ⟨i, p, rfl⟩ := enters hb
      obtain ⟨j, q, rfl⟩ := enters hb'
      obtain ⟨u, hu, hp⟩ := step hb
      obtain ⟨v, hv, hq⟩ := step hb'
      obtain rfl := h.apart hu hv hp hq hs
      obtain rfl := Option.some.inj (hu.symm.trans hv)
      rw [(h.get hu).once p q b hp hq hs]
  · cases way with
    | nil =>
        obtain rfl : a = b := by simpa using hb
        exact plain
    | cons i way =>
        obtain ⟨v, hv, hb⟩ := step hb
        exact (h.get hv).plain way b hb
  · cases way with
    | nil =>
        obtain rfl : a = b := by simpa using hb
        exact ⟨Nat.le_trans h.le le, Nat.lt_succ_self a⟩
    | cons i way =>
        obtain ⟨v, hv, hb⟩ := step hb
        obtain ⟨hlo, hhi⟩ := (h.get hv).within way b hb hs
        exact ⟨hlo, Nat.lt_succ_of_lt (Nat.lt_of_lt_of_le hhi le)⟩

/-! ### The fragments of nodes -/

/-- The fragments of nodes are unshared. -/
def Untangled (w : World) : Prop := ∀ a f o, w.get a = .node f o → w.Unshared (.obj f)

/-- The object is the fragment of a node, or a way through one leads to it. -/
def InFragment (w : World) (b : Addr) : Prop :=
  ∃ a f o way, w.get a = .node f o ∧ w.follow way (.obj f) = some (.obj b)

end World

/-! ### Copies -/

namespace Copying

variable {w₀ w : World} {D : Addr → Prop} {m : Memo}

/-- A way through a copy leads to what takes the place of the original. -/
theorem Image.follow (hd : w₀.Copyable D) (h : Image w₀ D m w) {v : Value}
    (hv : ∀ a, v = .obj a → Copied w₀ D m a) (way : List Nat) :
    w.follow way (v.rename (target m)) = (w₀.follow way v).map (Value.rename (target m)) := by
  induction way generalizing v with
  | nil => rfl
  | cons i way ih =>
      cases v with
      | atom a => simp [World.children]
      | obj a =>
          have ha := hv a rfl
          rw [World.follow_cons, World.follow_cons, Value.rename_obj, World.children, World.children,
            h.get hd ha, Object.children_rename, List.getElem?_map]
          cases hx : (w₀.get a).children[i]? with
          | none => rfl
          | some x =>
              refine ih fun b hb => h.part hd ha ?_
              exact Object.mem_parts_of_mem_children (hb ▸ List.mem_of_getElem? hx)

/-- The copy of an unshared value is a sprout of new objects. -/
theorem Image.sprout (hd : w₀.Copyable D) (h : Image w₀ D m w) {a : Addr}
    (ha : Copied w₀ D m a) (hu : w₀.Unshared (.obj a)) :
    w.Sprout w₀.size w.size (.obj (target m a)) := by
  have ways := h.follow hd (v := .obj a) fun c hc => by
    obtain rfl : a = c := by simpa using hc
    exact ha
  have origin {way : List Nat} {b : Addr}
      (hb : w.follow way (.obj (target m a)) = some (.obj b)) :
      ∃ c, w₀.follow way (.obj a) = some (.obj c) ∧ Copied w₀ D m c ∧ b = target m c := by
    rw [← Value.rename_obj, ways] at hb
    obtain ⟨u, hu, hub⟩ := Option.map_eq_some_iff.mp hb
    cases u with
    | atom x => simp at hub
    | obj c => exact ⟨c, hu, h.copied_of_reaches hd ha (World.reaches_of_follow hu), by
        simpa using hub.symm⟩
  -- a shareable object is no tuple, so it has a copy of its own
  have recorded {c : Addr} (hc : Copied w₀ D m c) (hs : (w.get (target m c)).isShareable) :
      (w₀.get c).isShareable ∧ m.lookup c = some (target m c) := by
    rw [h.get hd hc, Object.isShareable_rename] at hs
    refine ⟨hs, ?_⟩
    rcases hc.2 with hf | ⟨b, hb⟩
    · cases hf with
      | tuple get _ => simp [get, Object.isShareable] at hs
    · simp [target, hb]
  refine ⟨⟨fun way b hb => ?_, fun way way' b hb hb' hs => ?_, fun way b hb => ?_⟩,
    fun way b hb hs => ?_⟩
  · obtain ⟨c, -, hc, rfl⟩ := origin hb
    exact h.target_lt hd hc
  · obtain ⟨c, hway, hc, rfl⟩ := origin hb
    obtain ⟨d, hway', hd', heq⟩ := origin hb'
    obtain ⟨shareable, hlc⟩ := recorded hc hs
    obtain ⟨-, hld⟩ := recorded hd' (heq ▸ hs)
    obtain rfl : c = d := h.record.inj c d _ hlc (heq ▸ hld)
    exact hu.once way way' c hway hway' shareable
  · obtain ⟨c, hway, hc, rfl⟩ := origin hb
    rw [h.get hd hc, Object.isPlain_rename]
    exact hu.plain way c hway
  · obtain ⟨c, -, hc, rfl⟩ := origin hb
    exact (h.record.copy c _ (recorded hc hs).2).2.2

end Copying
end OpenApiDoc
