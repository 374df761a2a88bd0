import Mathlib.Data.List.Perm.Subperm
import Mathlib.Logic.Relation
import OpenApiDoc.Proofs.Parts

/-! # Finite data

Data is a value that is made of atoms, calendar values, lists, tuples, mappings and records and does
not hold itself. Its finite view does not depend on how deep one looks.

* `World.IsData` says that a value is data, `World.IsData.deep` is the induction over data with the
  number of objects as a bound on the depth.
* `World.IsData.view_tree` gives the finite view of an object from the views of its parts.
* `World.IsData.grows`: data stays what it is while the store grows. -/

namespace OpenApiDoc

/-- Objects that data can be made of. -/
def Object.isData : Object → Bool
  | .mapping _ | .list _ | .tuple _ | .moment _ | .node _ _ | .operation _ => true
  | .constructor _ | .builder _ _ | .module _ | .machinery _ _ => false

theorem Object.isSome_view (g : Value → Tree) (o : Object) : (o.view g).isSome = o.isData := by
  cases o <;> rfl

theorem Object.isData_rename (ρ : Addr → Addr) (o : Object) : (o.rename ρ).isData = o.isData := by
  cases o <;> rfl

/-- The collections that are being looked at inside an object. -/
def Object.inside (a : Addr) (path : List Addr) : Object → List Addr
  | .node _ _ => path
  | .operation _ => path
  | _ => a :: path

namespace World

variable {w w' : World}

/-- A value that is made of finitely many parts. The parts of a tuple are older than the tuple, and
nothing is attached to the objects. -/
inductive IsData (w : World) : Value → Prop
  | atom (a : Atom) : IsData w (.atom a)
  | obj {a : Addr} (lt : a < w.size) (bare : w.attributesOf a = []) (kind : (w.get a).isData)
      (older : ∀ xs, w.get a = .tuple xs → ∀ b, .obj b ∈ xs → b < a)
      (parts : ∀ v ∈ (w.get a).parts, IsData w v) : IsData w (.obj a)

theorem IsData.lt_size {a : Addr} (h : w.IsData (.obj a)) : a < w.size := by
  cases h with
  | obj lt => exact lt

theorem IsData.bare {a : Addr} (h : w.IsData (.obj a)) : w.attributesOf a = [] := by
  cases h with
  | obj _ bare => exact bare

theorem IsData.kind {a : Addr} (h : w.IsData (.obj a)) : (w.get a).isData := by
  cases h with
  | obj _ _ kind => exact kind

theorem IsData.older {a : Addr} (h : w.IsData (.obj a)) {xs : List Value}
    (hx : w.get a = .tuple xs) {b : Addr} (hb : .obj b ∈ xs) : b < a := by
  cases h with
  | obj _ _ _ older => exact older xs hx b hb

theorem IsData.part {a : Addr} (h : w.IsData (.obj a)) {v : Value} (hv : v ∈ (w.get a).parts) :
    w.IsData v := by
  cases h with
  | obj _ _ _ _ parts => exact parts v hv

/-! ### Induction over data -/

/-- Data does not hold itself. -/
theorem IsData.acyclic {v : Value} (h : w.IsData v) :
    ∀ a, v = .obj a → ¬ Relation.TransGen w.Holds a a := by
  induction h with
  | atom a =>
      intro b hb
      cases hb
  | @obj a _ _ _ _ _ ih =>
      rintro _ ⟨⟩ hc
      obtain ⟨b, hab, hba⟩ := Relation.TransGen.head'_iff.mp hc
      exact ih _ hab b rfl (Relation.TransGen.tail' hba hab)

theorem length_le_of_nodup {n : Nat} {l : List Nat} (h : l.Nodup) (hl : ∀ a ∈ l, a < n) :
    l.length ≤ n := by
  have hs : List.Subperm l (List.range n) := h.subperm fun a ha => List.mem_range.mpr (hl a ha)
  simpa using hs.length_le

/-- The bound on the depth of data with the objects that were passed on the way to it. -/
theorem IsData.deep_from {motive : Nat → Value → Prop} (atom : ∀ n a, motive n (.atom a))
    (obj : ∀ n a, w.IsData (.obj a) → (∀ v ∈ (w.get a).parts, motive n v) →
      motive (n + 1) (.obj a)) {v : Value} (h : w.IsData v) :
    ∀ (n : Nat) (trail : List Addr), trail.Nodup → (∀ p ∈ trail, p < w.size) →
      (∀ p ∈ trail, ∀ a, v = .obj a → Relation.TransGen w.Holds p a) →
      w.size ≤ n + trail.length → motive n v := by
  induction h with
  | atom a => exact fun n _ _ _ _ _ => atom n a
  | @obj a lt bare kind older parts ih =>
      intro n trail nodup below above bound
      have self : w.IsData (.obj a) := .obj lt bare kind older parts
      have fresh : a ∉ trail := fun ha => self.acyclic a rfl (above a ha a rfl)
      have nodup' : (a :: trail).Nodup := List.nodup_cons.mpr ⟨fresh, nodup⟩
      have below' : ∀ p ∈ a :: trail, p < w.size := by
        intro p hp
        rcases List.mem_cons.mp hp with rfl | hp
        · exact lt
        · exact below p hp
      have short := length_le_of_nodup nodup' below'
      simp only [List.length_cons] at short
      cases n with
      | zero => omega
      | succ n =>
          refine obj n a self fun v hv => ih v hv n (a :: trail) nodup' below' ?_ ?_
          · rintro p hp b rfl
            rcases List.mem_cons.mp hp with rfl | hp
            · exact .single hv
            · exact (above p hp a rfl).tail hv
          · simp only [List.length_cons]
            omega

/-- Induction over data. No way through data is longer than the store. -/
theorem IsData.deep {motive : Nat → Value → Prop} (atom : ∀ n a, motive n (.atom a))
    (obj : ∀ n a, w.IsData (.obj a) → (∀ v ∈ (w.get a).parts, motive n v) →
      motive (n + 1) (.obj a)) {v : Value} (h : w.IsData v) {n : Nat} (hn : w.size ≤ n) :
    motive n v :=
  h.deep_from atom obj n [] List.nodup_nil (by simp) (by simp) (by simpa using hn)

/-! ### The finite view -/

theorem unfold_obj {n : Nat} {path : List Addr} {a : Addr} (ha : a ∉ path)
    (hk : (w.get a).isData) :
    (w.get a).view (w.unfold n ((w.get a).inside a path)) = some (w.unfold (n + 1) path (.obj a)) := by
  cases h : w.get a with
  | constructor c => simp [h, Object.isData] at hk
  | builder m b => simp [h, Object.isData] at hk
  | module ns => simp [h, Object.isData] at hk
  | machinery t ps => simp [h, Object.isData] at hk
  | mapping es => simp [unfold, ha, h, Object.view, Object.inside]
  | list xs => simp [unfold, ha, h, Object.view, Object.inside]
  | tuple xs => simp [unfold, ha, h, Object.view, Object.inside]
  | moment m => simp [unfold, ha, h, Object.view]
  | node f o => simp [unfold, ha, h, Object.view, Object.inside]
  | operation op => simp [unfold, ha, h, Object.view, Object.inside]

theorem mem_inside {o : Object} {a p : Addr} {path : List Addr} (h : p ∈ o.inside a path) :
    p = a ∨ p ∈ path := by
  cases o <;> simp_all [Object.inside]

/-- Looking deeper into data shows nothing else. -/
theorem IsData.unfold_eq {v : Value} (h : w.IsData v) {n m : Nat} (hn : w.size ≤ n) (hm : n ≤ m)
    {path path' : List Addr}
    (hp : ∀ p ∈ path, ∀ a, v = .obj a → Relation.TransGen w.Holds p a)
    (hp' : ∀ p ∈ path', ∀ a, v = .obj a → Relation.TransGen w.Holds p a) :
    w.unfold n path v = w.unfold m path' v := by
  refine h.deep (motive := fun n v => ∀ m, n ≤ m → ∀ path path' : List Addr,
    (∀ p ∈ path, ∀ a, v = .obj a → Relation.TransGen w.Holds p a) →
    (∀ p ∈ path', ∀ a, v = .obj a → Relation.TransGen w.Holds p a) →
    w.unfold n path v = w.unfold m path' v) ?_ ?_ hn m hm path path' hp hp'
  · intro n a m _ path path' _ _
    simp [unfold]
  · intro n a hd ih m hm path path' hp hp'
    obtain ⟨k, rfl⟩ := Nat.exists_eq_add_of_lt hm
    have ha : a ∉ path := fun hc => hd.acyclic a rfl (hp a hc a rfl)
    have ha' : a ∉ path' := fun hc => hd.acyclic a rfl (hp' a hc a rfl)
    have inside : ∀ q : List Addr, (∀ p ∈ q, ∀ b, Value.obj a = .obj b →
        Relation.TransGen w.Holds p b) → ∀ v ∈ (w.get a).parts,
        ∀ p ∈ (w.get a).inside a q, ∀ b, v = .obj b → Relation.TransGen w.Holds p b := by
      rintro q hq v hv p hp b rfl
      rcases mem_inside hp with rfl | hp
      · exact .single hv
      · exact (hq p hp a rfl).tail hv
    have key := Object.view_congr (g := w.unfold n ((w.get a).inside a path))
      (h := w.unfold (n + k) ((w.get a).inside a path')) (o := w.get a)
      (fun v hv => ih v hv (n + k) (Nat.le_add_right n k) _ _ (inside path hp v hv)
        (inside path' hp' v hv)) (by simp [unfold])
    rw [unfold_obj ha hd.kind, unfold_obj ha' hd.kind] at key
    rw [Option.some.inj key, Nat.add_right_comm]

/-- The view of an object of data is made of the views of its parts. -/
theorem IsData.view_tree {a : Addr} (h : w.IsData (.obj a)) :
    (w.get a).view w.tree = some (w.tree (.obj a)) := by
  rw [tree, viewDepth, ← unfold_obj (by simp) h.kind]
  refine Object.view_congr (fun v hv => ?_) (by simp [unfold])
  refine ((h.part hv).unfold_eq ?_ (Nat.le_succ _) ?_ (by simp)).symm
  · exact Nat.le_trans (Nat.le_succ _) (Nat.le_mul_of_pos_left _ (Nat.succ_pos _))
  · rintro p hp b rfl
    rcases mem_inside hp with rfl | hp
    · exact .single hv
    · simp at hp

section views

variable {a : Addr} (h : w.IsData (.obj a))
include h

theorem IsData.tree_mapping {es : Entries} (hg : w.get a = .mapping es) :
    w.tree (.obj a) = .mapping (es.map fun e => (w.tree e.1, w.tree e.2)) := by
  simpa [hg, Object.view] using h.view_tree.symm

theorem IsData.tree_list {xs : List Value} (hg : w.get a = .list xs) :
    w.tree (.obj a) = .list (xs.map w.tree) := by
  simpa [hg, Object.view] using h.view_tree.symm

theorem IsData.tree_tuple {xs : List Value} (hg : w.get a = .tuple xs) :
    w.tree (.obj a) = .tuple (xs.map w.tree) := by
  simpa [hg, Object.view] using h.view_tree.symm

theorem IsData.tree_moment {m : Moment} (hg : w.get a = .moment m) :
    w.tree (.obj a) = .moment m := by
  simpa [hg, Object.view] using h.view_tree.symm

theorem IsData.tree_node {f : Addr} {o : Bool} (hg : w.get a = .node f o) :
    w.tree (.obj a) = .model .node [("fragment", w.tree (.obj f)), ("is_optional", .bool o)] := by
  simpa [hg, Object.view, Object.nodeFields] using h.view_tree.symm

end views

/-! ### Growth -/

/-- The way from a value to an object. -/
def Reaches (w : World) (v : Value) (b : Addr) : Prop :=
  ∃ a, v = .obj a ∧ Relation.ReflTransGen w.Holds a b

theorem Reaches.part {a b : Addr} {v : Value} (hv : v ∈ (w.get a).parts) (h : w.Reaches v b) :
    w.Reaches (.obj a) b := by
  obtain ⟨c, rfl, hc⟩ := h
  exact ⟨a, rfl, .head hv hc⟩

theorem IsData.reached {v : Value} (h : w.IsData v) {b : Addr} (hb : w.Reaches v b) :
    w.IsData (.obj b) := by
  obtain ⟨a, rfl, hab⟩ := hb
  induction hab with
  | refl => exact h
  | tail _ hc ih => exact ih.part hc

/-- Data depends on nothing but the objects that it is made of. -/
theorem IsData.agree {v : Value} (h : w.IsData v)
    (k : ∀ a, w.Reaches v a → a < w'.size ∧ w'.get a = w.get a ∧ w'.attributesOf a = []) :
    w'.IsData v ∧ w'.tree v = w.tree v := by
  induction h with
  | atom a => exact ⟨.atom a, by simp⟩
  | @obj a lt bare kind older parts ih =>
      obtain ⟨lt', hg, bare'⟩ := k a ⟨a, rfl, .refl⟩
      have part (v : Value) (hv : v ∈ (w.get a).parts) := ih v hv fun b hb => k b (hb.part hv)
      have hd : w'.IsData (.obj a) := by
        refine .obj lt' bare' ?_ ?_ ?_
        · rwa [hg]
        · rwa [hg]
        · rw [hg]
          exact fun v hv => (part v hv).1
      refine ⟨hd, Option.some.inj ?_⟩
      rw [← hd.view_tree, ← (IsData.obj lt bare kind older parts).view_tree, hg]
      exact Object.view_congr (fun v hv => (part v hv).2) (by simp)

theorem IsData.grows {v : Value} (h : w.IsData v) (k : w.Grows w') :
    w'.IsData v ∧ w'.tree v = w.tree v := by
  refine h.agree fun a ha => ?_
  have hd := h.reached ha
  exact ⟨Nat.lt_of_lt_of_le hd.lt_size k.size, k.get a hd.lt_size,
    (k.attributes a hd.lt_size).trans hd.bare⟩

theorem IsData.extends {v : Value} (h : w.IsData v) (k : w.Extends w') :
    w'.IsData v ∧ w'.tree v = w.tree v := h.grows k.grows

theorem lookup_attribute_of_bare {a : Addr} (h : w.attributesOf a = []) (name : String) :
    w.attributes.lookup (a, name) = none := by
  rw [List.lookup_eq_none_iff]
  intro e he
  have := List.filterMap_eq_nil_iff.mp h e he
  by_cases ha : e.1.1 = a
  · simp [ha] at this
  · simp [Prod.ext_iff, Ne.symm ha]

/-- A new object of data. -/
theorem IsData.alloc (ho : w.Owned) {o : Object} (hk : o.isData)
    (hp : ∀ v ∈ o.parts, w.IsData v) :
    (w.alloc o).2.IsData (.obj w.size) ∧
      o.view w.tree = some ((w.alloc o).2.tree (.obj w.size)) := by
  have he := w.extends_alloc o
  have hg : (w.alloc o).2.get w.size = o := w.get_alloc_same o
  have hd : (w.alloc o).2.IsData (.obj w.size) := by
    refine .obj ?_ ?_ ?_ ?_ ?_
    · rw [size_alloc]
      exact Nat.lt_succ_self _
    · rw [he.attributesOf]
      exact ho _ (Nat.le_refl _)
    · rwa [hg]
    · rw [hg]
      rintro xs rfl b hb
      exact (hp _ hb).lt_size
    · rw [hg]
      exact fun v hv => ((hp v hv).extends he).1
  refine ⟨hd, ?_⟩
  rw [← hd.view_tree, hg]
  exact Object.view_congr (fun v hv => ((hp v hv).extends he).2.symm) (by simp)

end World
end OpenApiDoc
