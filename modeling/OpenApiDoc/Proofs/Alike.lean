import OpenApiDoc.Equality
import OpenApiDoc.Proofs.Fields

/-! # Values that look alike

A comparison goes through the objects that two values are made of, and looks up the entries of one
mapping in the other. For data the finite view tells the outcome.

* `Tree.same_self`: a view is the same as itself.
* `Tree.Keyed` says that the keys of every mapping in a view are told apart, as those of mappings are.
* `World.IsData.equal`: data that looks alike is found to be equal. The path of the comparison goes
  down in the first value, so it never meets a pair again. -/

namespace OpenApiDoc

namespace Tree

/-! ### Views are the same as themselves -/

mutual

theorem same_self (t : Tree) : t.same t = true := by
  cases t with
  | atom a => simp [same, Atom.same_refl]
  | moment m => simp [same]
  | list xs => simpa [same] using sameItems_self xs
  | tuple xs => simpa [same] using sameItems_self xs
  | mapping es => simpa [same] using sameEntries_of_mem es fun _ he => he
  | model m fs => simpa [same] using sameFields_self fs
  | sealed k i => simp [same]
  | cycle b => simp [same]

theorem sameItems_self (xs : List Tree) : sameItems xs xs = true := by
  match xs with
  | [] => simp [sameItems]
  | x :: xs => simp [sameItems, same_self x, sameItems_self xs]

/-- Entries that are all among others are the same there. -/
theorem sameEntries_of_mem {others : List (Tree × Tree)} (es : List (Tree × Tree))
    (h : ∀ e ∈ es, e ∈ others) : sameEntries es others = true := by
  match es with
  | [] => simp [sameEntries]
  | (k, v) :: es =>
      rw [List.forall_mem_cons] at h
      simp only [sameEntries, Bool.and_eq_true, List.any_eq_true]
      exact ⟨⟨(k, v), h.1, same_self k, same_self v⟩, sameEntries_of_mem es h.2⟩

theorem sameFields_self (fs : List (String × Tree)) : sameFields fs fs = true := by
  match fs with
  | [] => simp [sameFields]
  | (n, t) :: fs => simp [sameFields, same_self t, sameFields_self fs]

end

/-! ### Keys -/

/-- No two keys of these entries are the same. -/
def Apart (es : List (Tree × Tree)) : Prop := es.Pairwise fun e f => e.1.same f.1 = false

/-- The keys of every mapping in the view are told apart. -/
inductive Keyed : Tree → Prop
  | atom (a : Atom) : Keyed (.atom a)
  | moment (m : Moment) : Keyed (.moment m)
  | list {ts : List Tree} (each : ∀ t ∈ ts, Keyed t) : Keyed (.list ts)
  | tuple {ts : List Tree} (each : ∀ t ∈ ts, Keyed t) : Keyed (.tuple ts)
  | mapping {es : List (Tree × Tree)} (apart : Apart es) (keys : ∀ e ∈ es, Keyed e.1)
      (values : ∀ e ∈ es, Keyed e.2) : Keyed (.mapping es)
  | model {m : Model} {fs : List (String × Tree)} (each : ∀ f ∈ fs, Keyed f.2) :
      Keyed (.model m fs)

end Tree

namespace Entries

variable {κ α : Type} {same : κ → κ → Bool}

/-- Among keys that are told apart, an entry is found by any key that is taken for its own. -/
theorem find?_of_mem {es : List (κ × α)} (apart : es.Pairwise fun e f => same e.1 f.1 = false)
    {e : κ × α} (he : e ∈ es) {k : κ} (alike : ∀ l, same l k = same l e.1)
    (self : same e.1 e.1 = true) : find? same es k = some e.2 := by
  induction es with
  | nil => cases he
  | cons f es ih =>
      obtain ⟨l, u⟩ := f
      rw [List.pairwise_cons] at apart
      rcases List.mem_cons.mp he with rfl | he
      · simp [find?, alike, self]
      · have other : same l e.1 = false := apart.1 e he
        simpa [find?, alike, other] using ih apart.2 he

end Entries

namespace World

variable {w : World}

/-! ### The steps of a comparison -/

theorem equalItems_of_forall {equal : Value → Value → Option Bool} {xs ys : List Value}
    (h : List.Forall₂ (fun x y => equal x y = some true) xs ys) :
    equalItems equal xs ys = some true := by
  induction h with
  | nil => rfl
  | cons first _ ih => simp only [equalItems, first, ih]

theorem equalEntries_of_forall {equal : Value → Value → Option Bool} {es fs : Entries}
    (apart : fs.Pairwise fun e f => w.sameKey e.1 f.1 = false)
    (h : ∀ e ∈ es, ∃ f ∈ fs, w.tree f.1 = w.tree e.1 ∧ equal e.2 f.2 = some true) :
    w.equalEntries equal fs es = some true := by
  induction es with
  | nil => rfl
  | cons e es ih =>
      obtain ⟨k, v⟩ := e
      obtain ⟨⟨f, hf, key, value⟩, rest⟩ := List.forall_mem_cons.mp h
      have found : Entries.find? w.sameKey fs k = some f.2 :=
        Entries.find?_of_mem apart hf (fun l => by rw [sameKey, sameKey, key])
          (Tree.same_self (w.tree f.1))
      simp only [equalEntries, found, value]
      exact ih rest

/-- Mappings that look alike have equal entries, if what stands under the keys is equal when it looks
alike. -/
theorem equalEntries_of_alike {equal : Value → Value → Option Bool} {es fs : Entries}
    (views : (fs.map fun e => (w.tree e.1, w.tree e.2)) = es.map fun e => (w.tree e.1, w.tree e.2))
    (apart : Tree.Apart (es.map fun e => (w.tree e.1, w.tree e.2)))
    (h : ∀ e ∈ es, ∀ f ∈ fs, w.tree f.2 = w.tree e.2 → equal e.2 f.2 = some true) :
    w.equalEntries equal fs es = some true := by
  rw [← views] at apart
  refine equalEntries_of_forall (List.pairwise_map.mp apart) fun e he => ?_
  have mem : (w.tree e.1, w.tree e.2) ∈ fs.map fun e => (w.tree e.1, w.tree e.2) :=
    views ▸ List.mem_map_of_mem he
  obtain ⟨f, hf, same⟩ := List.mem_map.mp mem
  obtain ⟨key, value⟩ := Prod.mk.inj same
  exact ⟨f, hf, key, h e he f hf value⟩

/-- Records without attributes are compared by their fields. -/
theorem equalRecords_of_bare {equal : Value → Value → Option Bool} {a b : Addr}
    {xs ys : List Value} (h : List.Forall₂ (fun x y => equal x y = some true) xs ys)
    (bare : w.attributesOf a = []) (bare' : w.attributesOf b = []) :
    w.equalRecords equal a b xs ys = some true := by
  simp [equalRecords, equalItems_of_forall h, bare, bare', equalNamed]

/-! ### Data -/

theorem forall₂_of_map_eq {α β : Type} {f : α → β} {xs ys : List α} (h : ys.map f = xs.map f) :
    List.Forall₂ (fun x y => x ∈ xs ∧ y ∈ ys ∧ f y = f x) xs ys := by
  have same : List.Forall₂ (fun x y => f y = f x) xs ys := by
    rw [← List.forall₂_map_right_iff (f := f) (R := fun x z => z = f x), h,
      List.forall₂_map_right_iff, List.forall₂_same]
    exact fun _ _ => rfl
  exact List.forall₂_iff_zip.mpr ⟨same.length_eq, fun {x y} hz =>
    ⟨(List.of_mem_zip hz).1, (List.of_mem_zip hz).2, (List.forall₂_iff_zip.mp same).2 hz⟩⟩

/-- One step of a comparison, which goes on with the parts of two objects. -/
def equalObjects (w : World) (part : Value → Value → Option Bool) (a b : Addr) : Option Bool :=
  match w.get a, w.get b with
  | .mapping es, .mapping fs =>
    if es.length = fs.length then w.equalEntries part fs es else some false
  | .list xs, .list ys =>
    if xs.length = ys.length then equalItems part xs ys else some false
  | .tuple xs, .tuple ys => equalItems part xs ys
  | .moment m, .moment n => some (m == n)
  | .node f o, .node g p => w.equalRecords part a b [.obj f, .bool o] [.obj g, .bool p]
  | .operation p, .operation q =>
    w.equalRecords part a b (p.fields.map (·.2)) (q.fields.map (·.2))
  | _, _ => some (a == b)

theorem equalFrom_obj (w : World) (n : Nat) (path : List (Addr × Addr)) (a b : Addr) :
    w.equalFrom (n + 1) path (.obj a) (.obj b) =
      if path.contains (a, b) then none
      else w.equalObjects
        (fun u v => if u = v then some true else w.equalFrom n ((a, b) :: path) u v) a b :=
  rfl

/-- Objects that look alike are equal if their parts are. -/
theorem equalObjects_of_alike {part : Value → Value → Option Bool} {a b : Addr}
    (ha : w.IsData (.obj a)) (hb : w.IsData (.obj b)) (look : w.tree (.obj b) = w.tree (.obj a))
    (keyed : (w.tree (.obj a)).Keyed) (self : ∀ x, part x x = some true)
    (parts : ∀ x ∈ (w.get a).parts, ∀ y ∈ (w.get b).parts, w.tree y = w.tree x →
      (w.tree x).Keyed → part x y = some true) : w.equalObjects part a b = some true := by
  have views : (w.get b).view w.tree = (w.get a).view w.tree := by
    rw [ha.view_tree, hb.view_tree, look]
  have items {xs ys : List Value} (same : ys.map w.tree = xs.map w.tree)
      (hx : ∀ x ∈ xs, x ∈ (w.get a).parts) (hy : ∀ y ∈ ys, y ∈ (w.get b).parts)
      (each : ∀ x ∈ xs, (w.tree x).Keyed) :
      List.Forall₂ (fun x y => part x y = some true) xs ys :=
    (forall₂_of_map_eq same).imp fun x y ⟨mem, mem', alike⟩ =>
      parts x (hx x mem) y (hy y mem') alike (each x mem)
  have kind := ha.kind
  have view := ha.view_tree
  unfold equalObjects
  cases hg : w.get a with
  | mapping es =>
      cases hh : w.get b <;> simp only [hg, hh, Object.view, Option.some.injEq, reduceCtorEq,
        Tree.mapping.injEq] at views
      case mapping fs =>
        rw [ha.tree_mapping hg] at keyed
        cases keyed with
        | mapping apart _ values =>
            have length : es.length = fs.length := by simpa using (congrArg List.length views).symm
            simp only [length, if_true]
            refine equalEntries_of_alike views apart fun e he f hf value => ?_
            exact parts _ (hg ▸ Object.mem_parts_value he) _ (hh ▸ Object.mem_parts_value hf) value
              (values _ (List.mem_map_of_mem he))
  | list xs =>
      cases hh : w.get b <;> simp only [hg, hh, Object.view, Option.some.injEq, reduceCtorEq,
        Tree.list.injEq] at views
      case list ys =>
        rw [ha.tree_list hg] at keyed
        cases keyed with
        | list each =>
            have length : xs.length = ys.length := by simpa using (congrArg List.length views).symm
            simp only [length, if_true]
            exact equalItems_of_forall (items views (by simp [hg, Object.parts])
              (by simp [hh, Object.parts]) (List.forall_mem_map.mp each))
  | tuple xs =>
      cases hh : w.get b <;> simp only [hg, hh, Object.view, Option.some.injEq, reduceCtorEq,
        Tree.tuple.injEq] at views
      case tuple ys =>
        rw [ha.tree_tuple hg] at keyed
        cases keyed with
        | tuple each =>
            exact equalItems_of_forall (items views (by simp [hg, Object.parts])
              (by simp [hh, Object.parts]) (List.forall_mem_map.mp each))
  | moment m =>
      cases hh : w.get b <;> simp only [hg, hh, Object.view, Option.some.injEq, reduceCtorEq,
        Tree.moment.injEq] at views
      case moment m' => simp [views]
  | node f o =>
      cases hh : w.get b <;> simp only [hg, hh, Object.view, Option.some.injEq, reduceCtorEq,
        Tree.model.injEq, false_and, true_and] at views
      case node g p =>
        rw [ha.tree_node hg] at keyed
        cases keyed with
        | model each =>
            obtain ⟨fragment, flag⟩ : w.tree (.obj g) = w.tree (.obj f) ∧ p = o := by
              simpa [Object.nodeFields] using views
            have first := parts (.obj f) (by simp [hg, Object.parts]) (.obj g)
              (by simp [hh, Object.parts]) fragment (each _ List.mem_cons_self)
            exact equalRecords_of_bare (.cons first (.cons (flag ▸ self _) .nil)) ha.bare hb.bare
  | operation p =>
      cases hh : w.get b <;> simp only [hg, hh, Object.view, Option.some.injEq, reduceCtorEq,
        Tree.model.injEq, false_and, true_and] at views
      case operation q =>
        simp only [hg, Object.view, Option.some.injEq] at view
        rw [← view] at keyed
        cases keyed with
        | model each =>
            have same := congrArg (List.map (·.2)) views
            refine equalRecords_of_bare (items (by simpa [Function.comp_def] using same)
              (by simp [hg, Object.parts]) (by simp [hh, Object.parts]) ?_) ha.bare hb.bare
            exact List.forall_mem_map.mpr fun f hf => each _ (List.mem_map_of_mem hf)
  | _ => simp [hg, Object.isData] at kind

/-- A comparison of data with other data that looks alike. The objects of the first value are below
those that are being compared. -/
theorem IsData.equalFrom {u : Value} (hu : w.IsData u) {n : Nat} (hn : w.size ≤ n) :
    ∀ (path : List (Addr × Addr)) (v : Value), w.IsData v → w.tree v = w.tree u →
      (w.tree u).Keyed →
      (∀ p ∈ path, ∀ a, u = .obj a → Relation.TransGen w.Holds p.1 a) →
      ∀ a, u = .obj a → w.equalFrom n path u v = some true := by
  refine hu.deep (motive := fun n u => ∀ (path : List (Addr × Addr)) (v : Value), w.IsData v →
    w.tree v = w.tree u → (w.tree u).Keyed →
    (∀ p ∈ path, ∀ a, u = .obj a → Relation.TransGen w.Holds p.1 a) →
    ∀ a, u = .obj a → w.equalFrom n path u v = some true) ?_ ?_ hn
  · intro n a path v _ _ _ _ b hb
    cases hb
  · rintro n a ha ih path v hv look keyed above _ ⟨⟩
    cases v with
    | atom c =>
        rw [w.tree_atom] at look
        exact absurd (Shows.atom ⟨ha, look.symm⟩) (by simp)
    | obj b =>
        have fresh : path.contains (a, b) = false := by
          rw [List.contains_eq_any_beq, List.any_eq_false]
          intro p hp same
          obtain rfl : (a, b) = p := by simpa using same
          exact ha.acyclic a rfl (above _ hp a rfl)
        rw [equalFrom_obj, fresh, if_neg Bool.false_ne_true]
        refine equalObjects_of_alike ha hv look keyed (fun x => if_pos rfl)
          fun x hx y hy alike keyed => ?_
        by_cases same : x = y
        · exact if_pos same
        · rw [if_neg same]
          cases x with
          | atom c => exact absurd (Shows.atom ⟨hv.part hy, alike.trans (w.tree_atom c)⟩).symm same
          | obj c =>
              refine ih (.obj c) hx _ y (hv.part hy) alike keyed ?_ c rfl
              rintro p hp _ ⟨⟩
              rcases List.mem_cons.mp hp with rfl | hp
              · exact .single hx
              · exact (above p hp a rfl).tail hx

/-- Data that looks alike is equal. -/
theorem IsData.equal {a : Addr} {v : Value} (ha : w.IsData (.obj a)) (hv : w.IsData v)
    (look : w.tree v = w.tree (.obj a)) (keyed : (w.tree (.obj a)).Keyed) :
    w.equal? (.obj a) v = some true :=
  ha.equalFrom (Nat.le_succ_of_le (Nat.le_mul_self w.size)) [] v hv look keyed (by simp) a rfl

end World
end OpenApiDoc
