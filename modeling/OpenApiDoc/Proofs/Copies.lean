import OpenApiDoc.Proofs.Copying

/-! # Copies come to an end

The copy of an object is found within the depth that `World.copyDepth` allows, and it holds copies
of everything that the object holds.

* `Copying.Copies` specifies a step by the parts that it copies and by what it makes of their copies.
* `Copying.GivesCopy` is about the copy of one object. There is a lemma for each kind of object; the
  one about tuples, `Copying.gives_tuple`, differs from the others as a tuple is made after its items.
* `Copying.copies_object`: each object is copied, by induction on the depth. The depth that is needed
  is bounded by the objects that are not yet in the record and, between two of them, by the age of a
  tuple.
* `Build.copyObject_gives` and `Build.copyNode_gives` are about whole copies. -/

namespace OpenApiDoc
namespace Copying

variable {w₀ : World} {D : Addr → Prop} {α β : Type} {m : Memo} {w : World}

/-! ### Copies of parts -/

/-- With at most `p` objects left to copy, the step copies the objects among `parts` and gives what
`result` makes of the addresses of the copies. -/
structure Copies (w₀ : World) (D : Addr → Prop) (p : Nat) (act : Copying α) (parts : List Value)
    (result : (Addr → Addr) → α) : Prop where
  depends : ∀ ρ σ : Addr → Addr, (∀ c, .obj c ∈ parts → ρ c = σ c) → result ρ = result σ
  gives : ∀ m w, Record w₀ D m w → pending w₀ m ≤ p → Gives act m w fun x m' w' =>
    Advances w₀ D m w m' w' ∧ (∀ c, .obj c ∈ parts → Settled w₀ m' c) ∧ x = result (target m')

theorem Copies.of_parts {p : Nat} {act : Copying α} {parts parts' : List Value}
    {result : (Addr → Addr) → α} (h : Copies w₀ D p act parts result)
    (hp : ∀ c, .obj c ∈ parts ↔ .obj c ∈ parts') : Copies w₀ D p act parts' result where
  depends ρ σ hc := h.depends ρ σ fun c hm => hc c ((hp c).mp hm)
  gives m w hr hl := (h.gives m w hr hl).mono fun _ _ _ _ ⟨ha, hs, hx⟩ =>
    ⟨ha, fun c hm => hs c ((hp c).mpr hm), hx⟩

theorem Copies.pure (p : Nat) (x : α) : Copies w₀ D p (pure x : Copying α) [] fun _ => x where
  depends _ _ _ := rfl
  gives _ _ hr _ := .pure ⟨.refl hr, by simp, rfl⟩

theorem Copies.bind {p : Nat} {act : Copying α} {f : α → Copying β} {parts parts' : List Value}
    {result : (Addr → Addr) → α} {result' : α → (Addr → Addr) → β}
    (h : Copies w₀ D p act parts result) (hf : ∀ x, Copies w₀ D p (f x) parts' (result' x)) :
    Copies w₀ D p (act >>= f) (parts ++ parts') fun ρ => result' (result ρ) ρ where
  depends ρ σ hc := by
    rw [h.depends ρ σ fun c hm => hc c (List.mem_append_left _ hm)]
    exact (hf _).depends ρ σ fun c hm => hc c (List.mem_append_right _ hm)
  gives m w hr hl := by
    refine (h.gives m w hr hl).bind fun x m₁ w₁ _ ⟨ha, hs, hx⟩ => ?_
    refine ((hf x).gives m₁ w₁ ha.record (Nat.le_trans (pending_keeps ha.keeps) hl)).mono ?_
    rintro y m₂ w₂ _ ⟨ha', hs', hy⟩
    refine ⟨ha.trans ha', ?_, ?_⟩
    · intro c hm
      rcases List.mem_append.mp hm with hm | hm
      · exact (hs c hm).keeps ha'.keeps
      · exact hs' c hm
    · rw [hy, hx]
      congr 1
      exact h.depends _ _ fun c hm => (target_keeps ha.record ha'.record ha'.keeps (hs c hm)).symm

theorem Copies.map {p : Nat} {act : Copying α} {parts : List Value} {result : (Addr → Addr) → α}
    (h : Copies w₀ D p act parts result) (g : α → β) :
    Copies w₀ D p (g <$> act) parts fun ρ => g (result ρ) := by
  rw [map_eq_pure_bind]
  simpa using h.bind fun x => Copies.pure p (g x)

theorem Copies.mapM {p : Nat} {f : α → Copying β} {parts : α → List Value}
    {result : α → (Addr → Addr) → β} {xs : List α}
    (h : ∀ x ∈ xs, Copies w₀ D p (f x) (parts x) (result x)) :
    Copies w₀ D p (xs.mapM f) (xs.flatMap parts) fun ρ => xs.map fun x => result x ρ := by
  induction xs with
  | nil => exact .pure p []
  | cons x xs ih =>
      have rest := ih fun z hz => h z (by simp [hz])
      have both := (h x (by simp)).bind fun y => rest.map (y :: ·)
      simpa [List.mapM_cons] using both

/-- Objects are copied by a function of their addresses. -/
abbrev CopiesObject (w₀ : World) (D : Addr → Prop) (p : Nat) (object : Addr → Copying Addr)
    (a : Addr) : Prop :=
  Copies w₀ D p (object a) [.obj a] fun ρ => ρ a

variable {p : Nat} {object : Addr → Copying Addr}

theorem copies_value {v : Value} (h : ∀ a, v = .obj a → CopiesObject w₀ D p object a) :
    Copies w₀ D p (value object v) [v] v.rename := by
  cases v with
  | atom a => exact (Copies.pure p _).of_parts (by simp)
  | obj a => exact (h a rfl).map Value.obj

theorem copies_entries {es : Entries}
    (h : ∀ a, .obj a ∈ (Object.mapping es).parts → CopiesObject w₀ D p object a) :
    Copies w₀ D p (es.mapM (entry object)) (Object.mapping es).parts fun ρ =>
      es.map fun e => (e.1.rename ρ, e.2.rename ρ) := by
  have each (e : Value × Value) (he : e ∈ es) : Copies w₀ D p (entry object e) [e.2, e.1] fun ρ =>
      (e.1.rename ρ, e.2.rename ρ) := by
    have key := copies_value fun a ha => h a (ha ▸ Object.mem_parts_key he)
    have value := copies_value fun a ha => h a (ha ▸ Object.mem_parts_value he)
    simpa [entry] using value.bind fun v => key.map (·, v)
  refine (Copies.mapM each).of_parts fun c => ?_
  simp [Object.parts, or_comm]

theorem copies_items {xs : List Value} (h : ∀ a, .obj a ∈ xs → CopiesObject w₀ D p object a) :
    Copies w₀ D p (xs.mapM (value object)) xs fun ρ => xs.map (Value.rename ρ) := by
  have each (v : Value) (hv : v ∈ xs) : Copies w₀ D p (value object v) [v] v.rename :=
    copies_value fun a ha => h a (ha ▸ hv)
  exact (Copies.mapM each).of_parts (by simp)

theorem copies_optional {a : Option Addr} (h : ∀ b, a = some b → CopiesObject w₀ D p object b) :
    Copies w₀ D p (optional object a) [Operation.optionalObject a] fun ρ => a.map ρ := by
  cases a with
  | none => exact (Copies.pure p _).of_parts (by simp [Operation.optionalObject])
  | some b => exact (h b rfl).map some

/-- The operation with the copies of its collections. -/
def collections (object : Addr → Copying Addr) (op : Operation) : Copying Operation := do
  let responses ← object op.responses
  let tags ← optional object op.tags
  let parameters ← optional object op.parameters
  let requestBody ← optional object op.requestBody
  let extra ← object op.extra
  return { op with
    responses := responses, tags := tags, parameters := parameters,
    requestBody := requestBody, extra := extra }

theorem operation_eq (object : Addr → Copying Addr) (a : Addr) (op : Operation) :
    operation object a op = (begin a (.operation op) >>= fun b => collections object op >>= fun op' => do
      Build.put b (.operation op')
      attributes object a b) := by
  simp [operation, collections]

theorem copies_collections (op : Operation)
    (h : ∀ a, .obj a ∈ (Object.operation op).parts → CopiesObject w₀ D p object a) :
    Copies w₀ D p (collections object op) (Object.operation op).parts fun ρ => op.rename ρ := by
  have part (a : Addr) (ha : .obj a ∈ (Object.operation op).parts) := h a ha
  have optional (a : Option Addr) (ha : Operation.optionalObject a ∈ (Object.operation op).parts) :=
    copies_optional (a := a) fun b hb => h b (by subst hb; exact ha)
  have all := (part op.responses (by simp [Object.parts, Operation.fields])).bind fun r =>
    (optional op.tags (by simp [Object.parts, Operation.fields])).bind fun t =>
    (optional op.parameters (by simp [Object.parts, Operation.fields])).bind fun ps =>
    (optional op.requestBody (by simp [Object.parts, Operation.fields])).bind fun b =>
    (part op.extra (by simp [Object.parts, Operation.fields])).bind fun e =>
    Copies.pure p { op with
      responses := r, tags := t, parameters := ps, requestBody := b, extra := e }
  have text (s : Option String) (c : Addr) : Value.obj c ≠ Operation.optionalText s := by
    cases s <;> simp [Operation.optionalText]
  refine Copies.of_parts all fun c => ?_
  simp [Object.parts, Operation.fields, text]

/-! ### Copies of objects -/

/-- A step that writes a copy which was begun, when its parts have been copied. -/
theorem Gives.close {act : Copying α} {result : (Addr → Addr) → α} {o : α → Object}
    {placeholder : Object} {last : Addr → Copying Addr} {a : Addr} (hw : w₀.size ≤ w.size)
    (hr : Record w₀ D ((a, w.size) :: m) (w.alloc placeholder).2)
    (hn : m.lookup a = none) (hl : pending w₀ ((a, w.size) :: m) ≤ p)
    (h : Copies w₀ D p act (w₀.get a).parts result)
    (ho : ∀ ρ, o (result ρ) = (w₀.get a).rename ρ) (ht : ∀ xs, w₀.get a ≠ .tuple xs)
    (hlast : ∀ b m' w', w'.attributes = w₀.attributes →
      ((last b).run m').run w' = .ok (b, m') w') :
    Gives (Copying.begin a placeholder >>= fun b => act >>= fun x => do
      Build.put b (o x); last b) m w
      fun b m' w' => Advances w₀ D m w m' w' ∧ m'.lookup a = some b := by
  obtain ⟨r, w', run, he, adv, hs, hx⟩ := h.gives _ _ hr hl
  have adv' := adv.close hw hn hs (o := o r.1) (by rw [hx, ho]) ht
  refine ⟨(w.size, r.2), w'.set w.size (o r.1), ?_, adv'.extends_world, adv',
    adv.keeps a _ (by simp)⟩
  have start : ((Copying.begin a placeholder).run m).run w =
    .ok (w.size, (a, w.size) :: m) (w.alloc placeholder).2 := rfl
  rw [StateT.run_bind, EStateM.run_bind, start]
  simp only
  rw [StateT.run_bind, EStateM.run_bind, run]
  exact hlast w.size r.2 _ adv'.record.attributes

theorem found {a b : Addr} (h : m.lookup a = some b) :
    (∀ c, .obj c ∈ [Value.obj a] → Settled w₀ m c) ∧ b = target m a := by
  refine ⟨fun c hc => ?_, by simp [target, h]⟩
  obtain rfl : c = a := by simpa using hc
  exact .inr ⟨b, h⟩

theorem fixed_iff_tuple {a : Addr} {xs : List Value} (hg : w₀.get a = .tuple xs) :
    w₀.Fixed a ↔ ∀ b, .obj b ∈ xs → w₀.Fixed b := by
  refine ⟨fun h => ?_, .tuple hg⟩
  cases h with
  | tuple get items =>
      rw [hg] at get
      cases get
      exact items

theorem not_fixed {a : Addr} (h : ∀ xs, w₀.get a ≠ .tuple xs) : ¬ w₀.Fixed a := by
  rintro ⟨get, -⟩
  exact h _ get

/-- The items of a tuple are their own copies if and only if the tuple is. -/
theorem map_target_eq_iff (hd : w₀.Copyable D) {a : Addr} (da : D a) {xs : List Value}
    (hg : w₀.get a = .tuple xs) (hr : Record w₀ D m w)
    (hs : ∀ c, .obj c ∈ xs → Settled w₀ m c) :
    xs.map (Value.rename (target m)) = xs ↔ w₀.Fixed a := by
  have item (c : Addr) (hc : .obj c ∈ xs) : target m c = c ↔ w₀.Fixed c := by
    constructor
    · intro ht
      rcases hs c hc with h | ⟨b, h⟩
      · exact h
      · have old := (hr.copy c b h).2.2.1
        have lt := hd.lt c (hd.part a c da (by simpa [World.Holds, hg, Object.parts] using hc))
        obtain rfl : b = c := by simpa [target, h] using ht
        exact absurd lt (Nat.not_lt.mpr old)
    · intro h
      cases hl : m.lookup c with
      | none => simp [target, hl]
      | some b => exact absurd h (hr.copy c b hl).2.1
  have each : xs.map (Value.rename (target m)) = xs ↔ ∀ v ∈ xs, v.rename (target m) = v := by
    simpa using List.map_inj_left (f := Value.rename (target m)) (g := id) (l := xs)
  rw [fixed_iff_tuple hg, each]
  constructor
  · intro h c hc
    exact (item c hc).mp (by simpa using h _ hc)
  · rintro h (a | c) hv
    · rfl
    · simp [(item c hv).mpr (h c hv)]

/-- Where no attribute is set on an object, none is set on its copy. -/
theorem attributes_bare (object : Addr → Copying Addr) {a : Addr} (h : w₀.attributesOf a = [])
    (b : Addr) (m : Memo) (w : World) (same : w.attributes = w₀.attributes) :
    ((attributes object a b).run m).run w = .ok (b, m) w := by
  have bare : w.attributesOf a = [] := by rwa [World.attributesOf, same]
  have : (attributes object a b).run m = (do
      let w ← get
      ((w.attributesOf a).forM fun e => do
        Build.attach b e.1 (← value object e.2) : Copying PUnit).run m >>= fun r =>
          Pure.pure (b, r.2) : Build _) := rfl
  rw [this]
  simp [bare]

/-- The step gives the copy of the object `a`, or `a` itself if it is its own copy. -/
abbrev GivesCopy (w₀ : World) (D : Addr → Prop) (a : Addr) (act : Copying Addr) (m : Memo)
    (w : World) : Prop :=
  Gives act m w fun b m' w' =>
    Advances w₀ D m w m' w' ∧ (∀ c, .obj c ∈ [Value.obj a] → Settled w₀ m' c) ∧ b = target m' a

theorem Gives.copy {a : Addr} {act : Copying Addr} (h : Gives act m w fun b m' w' =>
    Advances w₀ D m w m' w' ∧ m'.lookup a = some b) : GivesCopy w₀ D a act m w :=
  h.mono fun _ _ _ _ hb => ⟨hb.1, found hb.2⟩

section kinds

variable {a : Addr} (da : D a) (hr : Record w₀ D m w) (hn : m.lookup a = none)

section collections

variable (hl : pending w₀ ((a, w.size) :: m) ≤ p)
  (part : ∀ b, .obj b ∈ (w₀.get a).parts → CopiesObject w₀ D p object b)
include da hr hn hl

/-- What is not a tuple is in the record before its parts are copied. -/
theorem gives_closed {act : Copying α} {result : (Addr → Addr) → α} {o : α → Object}
    (placeholder : Object) {last : Addr → Copying Addr} (ht : ∀ xs, w₀.get a ≠ .tuple xs)
    (h : Copies w₀ D p act (w₀.get a).parts result)
    (ho : ∀ ρ, o (result ρ) = (w₀.get a).rename ρ)
    (hlast : ∀ b m' w', w'.attributes = w₀.attributes →
      ((last b).run m').run w' = .ok (b, m') w') :
    GivesCopy w₀ D a (begin a placeholder >>= fun b => act >>= fun x => do
      Build.put b (o x); last b) m w :=
  .copy (.close hr.size (hr.begin da (not_fixed ht) placeholder) hn hl h ho ht hlast)

include part

theorem gives_mapping {es : Entries} (hg : w₀.get a = .mapping es) :
    GivesCopy w₀ D a (do
      let b ← begin a (.mapping [])
      let copies ← es.mapM (entry object)
      Build.put b (.mapping copies)
      return b) m w := by
  have copied := copies_entries fun b hb => part b (by rwa [hg])
  rw [← hg] at copied
  refine gives_closed da hr hn hl (o := .mapping) _ (by simp [hg]) copied ?_ fun _ _ _ _ => rfl
  simp [hg, Object.rename]

theorem gives_list {xs : List Value} (hg : w₀.get a = .list xs) :
    GivesCopy w₀ D a (do
      let b ← begin a (.list [])
      let copies ← xs.mapM (value object)
      Build.put b (.list copies)
      return b) m w := by
  have copied : Copies w₀ D p (xs.mapM (value object)) (w₀.get a).parts
      fun ρ => xs.map (Value.rename ρ) := by
    rw [hg]
    exact copies_items fun b hb => part b (by rwa [hg])
  refine gives_closed da hr hn hl (o := .list) _ (by simp [hg]) copied ?_ fun _ _ _ _ => rfl
  simp [hg, Object.rename]

variable (hb : w₀.attributesOf a = [])
include hb

theorem gives_node {f : Addr} {flag : Bool} (hg : w₀.get a = .node f flag) :
    GivesCopy w₀ D a (node object a f flag) m w := by
  have copied : Copies w₀ D p (object f) (w₀.get a).parts fun ρ => ρ f := by
    rw [hg]
    exact part f (by simp [hg, Object.parts])
  refine gives_closed da hr hn hl (o := (.node · flag)) _ (by simp [hg]) copied ?_
    (attributes_bare object hb)
  simp [hg, Object.rename]

theorem gives_operation {op : Operation} (hg : w₀.get a = .operation op) :
    GivesCopy w₀ D a (operation object a op) m w := by
  have copied := copies_collections op fun b hb => part b (by rwa [hg])
  rw [← hg] at copied
  rw [operation_eq]
  refine gives_closed da hr hn hl (o := .operation) _ (by simp [hg]) copied ?_
    (attributes_bare object hb)
  simp [hg, Object.rename]

end collections

section leaves

include da hr hn

theorem gives_moment {mo : Moment} (hg : w₀.get a = .moment mo) :
    GivesCopy w₀ D a (begin a (.moment mo)) m w := by
  refine .copy (.begin ⟨.begin hr da (not_fixed (by simp [hg])) hn ?_ ?_, by simp⟩)
  · simp [World.Holds, hg, Object.parts]
  · simp [hg, Object.rename]

theorem gives_constructor {c : Constructor} (hg : w₀.get a = .constructor c)
    (hb : w₀.attributesOf a = []) :
    GivesCopy w₀ D a (begin a (.constructor c) >>= attributes object a) m w := by
  have adv := Advances.begin (o := .constructor c) hr da (not_fixed (by simp [hg])) hn
    (by simp [World.Holds, hg, Object.parts]) (by rw [hg]; rfl)
  exact .copy (.begin_bind
    ⟨_, _, attributes_bare object hb _ _ _ adv.record.attributes, .refl _, adv, by simp⟩)

end leaves

section tuple

variable (hd : w₀.Copyable D) {xs : List Value} (hg : w₀.get a = .tuple xs)
include hd hg da hr

/-- When the items of a tuple have been copied, it is kept if they are their own copies, and is
begun otherwise: its copy has nothing to wait for. -/
theorem gives_settled (hn : m.lookup a = none) (hs : ∀ c, .obj c ∈ xs → Settled w₀ m c) :
    GivesCopy w₀ D a (if xs.map (Value.rename (target m)) = xs then return a
      else begin a (.tuple (xs.map (Value.rename (target m))))) m w := by
  have same := map_target_eq_iff hd da hg hr hs
  by_cases hf : w₀.Fixed a
  · rw [if_pos (same.mpr hf)]
    exact .pure ⟨.refl hr, by simpa using .inl hf, by simp [target, hn]⟩
  · rw [if_neg fun h => hf (same.mp h)]
    have settled (c : Addr) (hc : w₀.Holds a c) : Settled w₀ m c ∧ target m c < w.size :=
      ⟨hs c (by simpa [World.Holds, hg, Object.parts] using hc),
        hr.target_lt (hd.lt c (hd.part a c da hc))⟩
    have begun := Advances.begin hr da hf hn settled rfl
    rw [hg] at begun
    exact .copy (.begin ⟨begun, List.lookup_cons_self⟩)

/-- The items of a tuple are copied before it is in the record, so one that holds the tuple has
copied it as well. -/
theorem gives_tuple (hl : pending w₀ m ≤ p)
    (items : ∀ b, .obj b ∈ xs → CopiesObject w₀ D p object b) :
    GivesCopy w₀ D a (do
      let copies ← xs.mapM (value object)
      match (← get).lookup a with
      | some b => return b
      | none => if copies = xs then return a else begin a (.tuple copies)) m w := by
  refine ((copies_items items).gives m w hr hl).bind fun us m₁ w₁ _ ⟨adv, hs, hus⟩ => .get_bind ?_
  cases hn : m₁.lookup a with
  | some b => exact .pure ⟨adv, found hn⟩
  | none =>
      rw [hus]
      exact (gives_settled da adv.record hd hg hn hs).mono fun b m₂ w₂ _ ⟨adv₂, rest⟩ =>
        ⟨adv.trans adv₂, rest⟩

end tuple

end kinds

/-- Every object is copied, if the depth allows for the objects that are left and for the tuples
between them. -/
theorem copies_object (hd : w₀.Copyable D) (fuel : Nat) :
    ∀ p a, D a → p * (w₀.size + 1) + a + 1 ≤ fuel →
      CopiesObject w₀ D p (Copying.object fuel) a := by
  induction fuel with
  | zero => intro p a _ h; omega
  | succ fuel ih =>
      intro p a da hfuel
      refine ⟨fun ρ σ h => h a (by simp), fun m w hr hl => ?_⟩
      have lt := hd.lt a da
      rw [Copying.object]
      refine .get_bind ?_
      cases hn : m.lookup a with
      | some b => exact .pure ⟨.refl hr, found hn⟩
      | none =>
          refine .look_bind ?_
          rw [hr.get a lt hn]
          -- Anything but a tuple is in the record when its parts are copied, so one object less is
          -- left for them. A tuple is not, but its items are older.
          have begun := pending_begin (b := w.size) lt hn
          obtain ⟨q, rfl⟩ : ∃ q, p = q + 1 := ⟨p - 1, by omega⟩
          have left : pending w₀ ((a, w.size) :: m) ≤ q := by omega
          have below (b : Nat) (hb : b < w₀.size) : q * (w₀.size + 1) + b + 1 ≤ fuel := by
            rw [Nat.succ_mul] at hfuel
            omega
          have part (b : Addr) (hb : .obj b ∈ (w₀.get a).parts) :
              CopiesObject w₀ D q (Copying.object fuel) b :=
            ih q b (hd.part a b da hb) (below b (hd.lt b (hd.part a b da hb)))
          have bare := hd.bare a da
          cases hg : w₀.get a with
          | mapping es => exact gives_mapping da hr hn left part hg
          | list xs => exact gives_list da hr hn left part hg
          | node f flag => exact gives_node da hr hn left part bare hg
          | operation op => exact gives_operation da hr hn left part bare hg
          | moment mo => exact gives_moment da hr hn hg
          | constructor c => exact gives_constructor da hr hn hg bare
          | tuple xs =>
              refine gives_tuple da hr hd hg hl fun b hb => ih (q + 1) b ?_ ?_
              · exact hd.part a b da (by simpa [World.Holds, hg, Object.parts] using hb)
              · have older := Nat.add_lt_add_left (hd.older a xs da hg b hb)
                  ((q + 1) * (w₀.size + 1))
                exact Nat.le_of_lt_succ (Nat.lt_of_lt_of_le (Nat.succ_lt_succ older) hfuel)
          | _ => exact absurd (hd.kind a da) (by simp [hg, Object.isCopied, Object.isData])

/-! ### Whole copies -/

/-- When copying is over, every object in the record has its finished copy, and nothing else is new.
-/
structure Image (w₀ : World) (D : Addr → Prop) (m : Memo) (w : World) : Prop where
  record : Record w₀ D m w
  done : ∀ a b, m.lookup a = some b → Done w₀ m w a b
  only : ∀ b, w₀.size ≤ b → b < w.size → ∃ a, m.lookup a = some b

theorem Advances.image {w' : World} {m' : Memo} (h : Advances w₀ D [] w m' w')
    (hw : w.size = w₀.size) : Image w₀ D m' w' where
  record := h.record
  done a b hl := (h.done a b hl rfl).2
  only b hb hb' := by
    obtain ⟨a, ha, -⟩ := h.only b (hw ▸ hb) hb'
    exact ⟨a, ha⟩

theorem Record.nil (w₀ : World) (D : Addr → Prop) : Record w₀ D [] w₀ where
  size := Nat.le_refl _
  get _ _ _ := rfl
  attributes := rfl
  copy _ _ h := by simp at h
  inj _ _ _ h := by simp at h

theorem depth_le {p a n : Nat} (hp : p ≤ n) (ha : a < n) :
    p * (n + 1) + a + 1 ≤ (n + 1) * (n + 1) := by
  have := Nat.mul_le_mul_right (n + 1) hp
  rw [Nat.succ_mul n (n + 1)]
  omega

end Copying

open Copying

/-- A copy of an object that holds nothing but what can be copied. -/
theorem Build.copyObject_gives {w : World} {D : Addr → Prop} (hd : w.Copyable D) {a : Addr}
    (da : D a) : (Build.copyObject a).Gives w fun b w' =>
      ∃ m, Image w D m w' ∧ Settled w m a ∧ b = target m a := by
  have copied := copies_object hd w.copyDepth w.size a da
    (depth_le (Nat.le_refl _) (hd.lt a da))
  refine .get_bind (.bind (copied.gives [] w (.nil w D) (pending_le w [])) ?_)
  rintro ⟨b, m⟩ w' _ ⟨adv, hs, hb⟩
  exact .pure ⟨m, adv.image rfl, hs a (by simp), hb⟩

/-- A copy of a node with another flag is a copy of the node that has this flag. -/
theorem Build.copyNode_gives {w : World} {D : Addr → Prop} {a f : Addr} {flag : Bool}
    (hd : (w.set a (.node f flag)).Copyable D) (da : D a) :
    (Build.copyNode a f flag).Gives w fun b w' => ∃ m, Image (w.set a (.node f flag)) D m w' ∧
      m.lookup a = some b := by
  have lt : a < w.size := Nat.lt_of_lt_of_eq (hd.lt a da) (w.size_set _ _)
  have hg := w.get_set_same (.node f flag) lt
  generalize hv : w.set a (.node f flag) = v at hd hg ⊢
  have size : v.size = w.size := by rw [← hv, World.size_set]
  have copied : Copies v D w.size (Copying.object w.copyDepth f) (v.get a).parts fun ρ => ρ f := by
    rw [hg]
    have df : D f := hd.part a f da (by simp [World.Holds, hg, Object.parts])
    refine copies_object hd _ _ f df ?_
    rw [size]
    exact depth_le (Nat.le_refl _) (size ▸ hd.lt f df)
  have begun : Record v D [(a, w.size)] (w.alloc (.node f flag)).2 := by
    have only {c b : Addr} (hl : [(a, w.size)].lookup c = some b) : c = a ∧ w.size = b := by
      by_cases hca : c = a
      · subst hca
        exact ⟨rfl, by simpa using hl⟩
      · rw [lookup_cons_of_ne hca] at hl
        cases hl
    refine ⟨?_, fun c hc hl => ?_, by rw [← hv]; rfl, fun c b hl => ?_,
      fun c d b hc hd => (only hc).1.trans (only hd).1.symm⟩
    · rw [size, w.size_alloc]
      exact Nat.le_succ _
    · have hca : c ≠ a := by
        rintro rfl
        simp at hl
      rw [w.get_alloc_of_lt _ (Nat.lt_of_lt_of_eq hc size), ← hv, w.get_set_of_ne _ (Ne.symm hca)]
    · obtain ⟨rfl, rfl⟩ := only hl
      refine ⟨da, not_fixed (by simp [hg]), Nat.le_of_eq size, ?_⟩
      rw [w.size_alloc]
      exact Nat.lt_succ_self _
  have left : pending v [(a, w.size)] ≤ w.size := size ▸ pending_le v _
  have closed := Gives.close (Nat.le_of_eq size) begun rfl left copied (o := (.node · flag))
    (by simp [hg, Object.rename]) (by simp [hg])
    (attributes_bare (Copying.object w.copyDepth) (hd.bare a da))
  refine .get_bind (.bind closed ?_)
  rintro ⟨b, m⟩ w' _ ⟨adv, hb⟩
  exact .pure ⟨m, adv.image size.symm, hb⟩

end OpenApiDoc
