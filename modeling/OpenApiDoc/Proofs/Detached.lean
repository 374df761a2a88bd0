import OpenApiDoc.Proofs.Copies

/-! # Copies are detached

What can be seen of a copy, and what it shares with the original.

* `Copying.Copied` holds of the objects that have their place in a copy.
* `Copying.Image.get` and `Copying.Image.new_or_fixed`: the objects of a copy are those of the
  original under other addresses. None of them is old but tuples of atoms, which cannot be written to.
* `World.IsData.copyObject` and `World.IsData.copyNode`: the copy of data is data with the same
  finite view. -/

namespace OpenApiDoc

theorem Object.parts_rename (ρ : Addr → Addr) {o : Object} (h : o.isCopied) :
    (o.rename ρ).parts = o.parts.map (Value.rename ρ) := by
  cases o with
  | mapping es => simp [rename, parts, List.map_flatMap, List.flatMap_map]
  | list xs => rfl
  | tuple xs => rfl
  | node f o => rfl
  | operation op => simp [rename, parts, Operation.fields_rename]
  | moment m => rfl
  | constructor c => rfl
  | builder m b => simp [isCopied, isData] at h
  | module ns => simp [isCopied, isData] at h
  | machinery t ps => simp [isCopied, isData] at h

namespace Copying

variable {w₀ w : World} {D : Addr → Prop} {m : Memo}

/-- The object has its place in the copy. -/
def Copied (w₀ : World) (D : Addr → Prop) (m : Memo) (a : Addr) : Prop := D a ∧ Settled w₀ m a

theorem Image.lookup_fixed (h : Image w₀ D m w) {a : Addr} (hf : w₀.Fixed a) :
    m.lookup a = none := by
  cases hl : m.lookup a with
  | none => rfl
  | some b => exact absurd hf (h.record.copy a b hl).2.1

theorem Image.part (hd : w₀.Copyable D) (h : Image w₀ D m w) {a c : Addr} (ha : Copied w₀ D m a)
    (hc : w₀.Holds a c) : Copied w₀ D m c := by
  refine ⟨hd.part a c ha.1 hc, ?_⟩
  rcases ha.2 with hf | ⟨b, hb⟩
  · cases hf with
    | tuple get items => exact .inl (items c (by simpa [World.Holds, get, Object.parts] using hc))
  · exact (h.done a b hb).parts c hc

/-- What a copied object reaches is copied with it. -/
theorem Image.copied_of_reaches (hd : w₀.Copyable D) (h : Image w₀ D m w) {a b : Addr}
    (ha : Copied w₀ D m a) (hb : w₀.Reaches (.obj a) b) : Copied w₀ D m b := by
  obtain ⟨c, hc, hab⟩ := hb
  obtain rfl : a = c := by simpa using hc
  induction hab with
  | refl => exact ha
  | tail _ hbc ih => exact h.part hd ih hbc

theorem Image.target_fixed (h : Image w₀ D m w) {a : Addr} (hf : w₀.Fixed a) : target m a = a := by
  simp [target, h.lookup_fixed hf]

/-- The object at the place of `a` holds what `a` holds, each part at its own place. -/
theorem Image.get (hd : w₀.Copyable D) (h : Image w₀ D m w) {a : Addr} (ha : Copied w₀ D m a) :
    w.get (target m a) = (w₀.get a).rename (target m) := by
  rcases ha.2 with hf | ⟨b, hb⟩
  · rw [h.target_fixed hf, h.record.get a (hd.lt a ha.1) (h.lookup_fixed hf)]
    cases hf with
    | @tuple _ xs get items =>
        have item (v : Value) (hv : v ∈ (w₀.get a).parts) : v.rename (target m) = v := by
          cases v with
          | atom a => rfl
          | obj b => simp [h.target_fixed (items b (by simpa [get, Object.parts] using hv))]
        have same : xs.map (Value.rename (target m)) = xs.map id :=
          List.map_congr_left fun v hv => item v (by rwa [get])
        rw [get, Object.rename, same, List.map_id]
  · have ht : target m a = b := by simp [target, hb]
    rw [ht, (h.done a b hb).get]

theorem Image.target_lt (hd : w₀.Copyable D) (h : Image w₀ D m w) {a : Addr}
    (ha : Copied w₀ D m a) : target m a < w.size :=
  h.record.target_lt (hd.lt a ha.1)

/-- What stands in a copy is new, or is its own copy. -/
theorem Image.new_or_fixed (h : Image w₀ D m w) {a : Addr} (ha : Copied w₀ D m a) :
    w₀.size ≤ target m a ∨ w₀.Fixed a ∧ target m a = a := by
  rcases ha.2 with hf | ⟨b, hb⟩
  · exact .inr ⟨hf, h.target_fixed hf⟩
  · refine .inl ?_
    have ht : target m a = b := by simp [target, hb]
    rw [ht]
    exact (h.record.copy a b hb).2.2.1

theorem Image.older (hd : w₀.Copyable D) (h : Image w₀ D m w) {a c : Addr} (ha : Copied w₀ D m a)
    {xs : List Value} (hx : w₀.get a = .tuple xs) (hc : .obj c ∈ xs) :
    target m c < target m a := by
  rcases ha.2 with hf | ⟨b, hb⟩
  · have hfc := (fixed_iff_tuple hx).mp hf c hc
    rw [h.target_fixed hf, h.target_fixed hfc]
    exact hd.older a xs ha.1 hx c hc
  · have ht : target m a = b := by simp [target, hb]
    rw [ht]
    exact (h.done a b hb).older xs hx c hc

/-! ### Copies of data -/

/-- The copy of data is data and looks the same. -/
theorem Image.data (ho : w₀.Owned) (hd : w₀.Copyable D) (h : Image w₀ D m w) {v : Value}
    (hv : w₀.IsData v) (hc : ∀ a, v = .obj a → Copied w₀ D m a) :
    w.IsData (v.rename (target m)) ∧ w.tree (v.rename (target m)) = w₀.tree v := by
  induction hv with
  | atom a => exact ⟨.atom a, by simp⟩
  | @obj a lt bare kind older parts ih =>
      have ha := hc a rfl
      have hg := h.get hd ha
      have part (v : Value) (hv : v ∈ (w₀.get a).parts) := ih v hv fun c hc =>
        h.part hd ha (show .obj c ∈ (w₀.get a).parts from hc ▸ hv)
      have hdata : w.IsData (.obj (target m a)) := by
        refine .obj (h.target_lt hd ha) ?_ ?_ ?_ ?_
        · rw [World.attributesOf, h.record.attributes]
          rcases h.new_or_fixed ha with hn | ⟨-, hf⟩
          · exact ho _ hn
          · rw [hf]
            exact bare
        · rwa [hg, Object.isData_rename]
        · intro xs hx b hb
          rw [hg] at hx
          cases hy : w₀.get a with
          | tuple ys =>
              rw [hy] at hx
              obtain rfl : ys.map (Value.rename (target m)) = xs := by simpa [Object.rename] using hx
              obtain ⟨v, hv, hvb⟩ := List.mem_map.mp hb
              cases v with
              | atom a => simp at hvb
              | obj c =>
                  obtain rfl : target m c = b := by simpa using hvb
                  exact h.older hd ha hy hv
          | _ => simp [hy, Object.rename] at hx
        · rw [hg, Object.parts_rename _ (hd.kind a ha.1)]
          intro u hu
          obtain ⟨v, hv, rfl⟩ := List.mem_map.mp hu
          exact (part v hv).1
      refine ⟨hdata, Option.some.inj ?_⟩
      rw [Value.rename_obj, ← hdata.view_tree, ← (World.IsData.obj lt bare kind older parts).view_tree,
        hg, Object.view_rename]
      exact Object.view_congr (fun v hv => (part v hv).2) (by simp)

end Copying

namespace World

open Copying

variable {w : World}

theorem IsData.copyable {v : Value} (h : w.IsData v) : w.Copyable (w.Reaches v) where
  lt a ha := (h.reached ha).lt_size
  bare a ha := (h.reached ha).bare
  kind a ha := by
    have := (h.reached ha).kind
    cases hg : w.get a <;> simp_all [Object.isCopied, Object.isData]
  older a xs ha hx b hb := (h.reached ha).older hx hb
  part a b ha hab := by
    obtain ⟨c, rfl, hc⟩ := ha
    exact ⟨c, rfl, hc.tail hab⟩

/-- The copy of data is data and looks the same. -/
theorem IsData.copyObject (ho : w.Owned) {a : Addr} (h : w.IsData (.obj a)) :
    (Build.copyObject a).Gives w fun b w' =>
      w'.IsData (.obj b) ∧ w'.tree (.obj b) = w.tree (.obj a) := by
  have hd := h.copyable
  have ha : w.Reaches (.obj a) a := ⟨a, rfl, .refl⟩
  refine (Build.copyObject_gives hd ha).mono ?_
  rintro b w' _ ⟨m, image, hs, rfl⟩
  exact image.data ho hd h fun c hc => by
    obtain rfl : a = c := by simpa using hc
    exact ⟨ha, hs⟩

theorem IsData.copy (ho : w.Owned) {v : Value} (h : w.IsData v) :
    v.copy.Gives w fun u w' => w'.IsData u ∧ w'.tree u = w.tree v := by
  cases v with
  | atom a => exact .pure ⟨h, rfl⟩
  | obj a => exact (h.copyObject ho).bind fun b w' _ hb => .pure hb

/-- The copy of a node with another flag has the fragment of the node, as far as can be seen. -/
theorem IsData.copyNode (ho : w.Owned) {a f : Addr} {o : Bool} (h : w.IsData (.obj a))
    (hg : w.get a = .node f o) (flag : Bool) :
    (Build.copyNode a f flag).Gives w fun b w' =>
      w'.IsData (.obj b) ∧ w'.tree (.obj b) =
        .model .node [("fragment", w.tree (.obj f)), ("is_optional", .bool flag)] := by
  generalize hv : w.set a (.node f flag) = v
  have same : w.get a = .node f o := hg
  have hf : w.IsData (.obj f) := h.part (by simp [hg, Object.parts])
  have apart (b : Addr) (hb : w.Reaches (.obj f) b) : a ≠ b := by
    rintro rfl
    obtain ⟨_, ⟨⟩, hfa⟩ := hb
    refine h.acyclic a rfl (Relation.TransGen.head' (?_ : w.Holds a f) hfa)
    simp [Holds, hg, Object.parts]
  have size : v.size = w.size := by rw [← hv, size_set]
  have hva : v.get a = .node f flag := by rw [← hv, get_set_same _ _ h.lt_size]
  have hvo : v.Owned := by
    intro b hb
    rw [← hv]
    exact ho b (size ▸ hb)
  obtain ⟨hvf, tree⟩ : v.IsData (.obj f) ∧ v.tree (.obj f) = w.tree (.obj f) := by
    refine hf.agree fun b hb => ⟨?_, ?_, ?_⟩
    · rw [size]
      exact (hf.reached hb).lt_size
    · rw [← hv, get_set_of_ne _ _ (apart b hb)]
    · rw [← hv]
      exact (hf.reached hb).bare
  have hdata : v.IsData (.obj a) := by
    refine .obj (size ▸ h.lt_size) ?_ (by simp [hva, Object.isData]) (by simp [hva]) ?_
    · rw [← hv]
      exact h.bare
    · simpa [hva, Object.parts] using hvf
  have hd := hdata.copyable
  have ha : v.Reaches (.obj a) a := ⟨a, rfl, .refl⟩
  refine (Build.copyNode_gives (hv ▸ hd) (hv ▸ ha)).mono ?_
  rintro b w' _ ⟨m, image, hl⟩
  rw [hv] at image
  have copied := image.data hvo hd hdata fun c hc => by
    obtain rfl : a = c := by simpa using hc
    exact ⟨ha, .inr ⟨b, hl⟩⟩
  have ht : target m a = b := by simp [target, hl]
  rw [Value.rename_obj, ht, hdata.tree_node hva, tree] at copied
  exact copied

end World
end OpenApiDoc
