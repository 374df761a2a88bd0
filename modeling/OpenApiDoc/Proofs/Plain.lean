import OpenApiDoc.Proofs.Detached

/-! # Copies as trees

* `Tree.plain` is the view of a plain copy: the fragment in place of each node and lists in place of
  tuples.
* `World.IsData.plain`: the plain copy of data comes to an end, is data, and looks as it should. -/

namespace OpenApiDoc

namespace Tree

mutual

/-- The view of a plain copy. A fragment is copied as it is. -/
def plain : Tree → Tree
  | .list xs => .list (plainItems xs)
  | .tuple xs => .list (plainItems xs)
  | .mapping es => .mapping (plainEntries es)
  | .model .node (f :: _) => f.2
  | t => t

def plainItems : List Tree → List Tree
  | [] => []
  | x :: xs => plain x :: plainItems xs

def plainEntries : List (Tree × Tree) → List (Tree × Tree)
  | [] => []
  | (k, v) :: es => (k, plain v) :: plainEntries es

end

theorem plainItems_eq (xs : List Tree) : plainItems xs = xs.map plain := by
  induction xs with
  | nil => rfl
  | cons x xs ih => simp [plainItems, ih]

theorem plainEntries_eq (es : List (Tree × Tree)) :
    plainEntries es = es.map fun e => (e.1, plain e.2) := by
  induction es with
  | nil => rfl
  | cons e es ih => simp [plainEntries, ih]

end Tree

namespace World

variable {w w' : World}

/-- The value is data and looks like this. -/
def Shows (w : World) (v : Value) (t : Tree) : Prop := w.IsData v ∧ w.tree v = t

/-- The entries are data and look like these. -/
def ShowsEntries (w : World) (es : Entries) (ts : List (Tree × Tree)) : Prop :=
  List.Forall₂ (fun e t => w.Shows e.1 t.1 ∧ w.Shows e.2 t.2) es ts

theorem Shows.grows {v : Value} {t : Tree} (h : w.Shows v t) (k : w.Grows w') : w'.Shows v t :=
  ⟨(h.1.grows k).1, (h.1.grows k).2.trans h.2⟩

theorem Shows.extends {v : Value} {t : Tree} (h : w.Shows v t) (k : w.Extends w') : w'.Shows v t :=
  h.grows k.grows

theorem ShowsEntries.extends {es : Entries} {ts : List (Tree × Tree)} (h : w.ShowsEntries es ts)
    (k : w.Extends w') : w'.ShowsEntries es ts :=
  h.imp fun _ _ ⟨h₁, h₂⟩ => ⟨h₁.extends k, h₂.extends k⟩

theorem IsData.shows {v : Value} (h : w.IsData v) : w.Shows v (w.tree v) := ⟨h, rfl⟩

@[simp] theorem shows_atom (w : World) (a : Atom) : w.Shows (.atom a) (.atom a) :=
  ⟨.atom a, w.tree_atom a⟩

theorem showsAll_tree {vs : List Value} {ts : List Tree} (h : List.Forall₂ w.Shows vs ts) :
    (∀ v ∈ vs, w.IsData v) ∧ vs.map w.tree = ts := by
  induction h with
  | nil => simp
  | cons h _ ih =>
      simp only [List.forall_mem_cons, List.map_cons, h.2, ih.2, and_true]
      exact ⟨h.1, ih.1⟩

theorem ShowsEntries.tree {es : Entries} {ts : List (Tree × Tree)} (h : w.ShowsEntries es ts) :
    (∀ e ∈ es, w.IsData e.1 ∧ w.IsData e.2) ∧ es.map (fun e => (w.tree e.1, w.tree e.2)) = ts := by
  induction h with
  | nil => simp
  | cons h _ ih =>
      obtain ⟨⟨h₁, t₁⟩, h₂, t₂⟩ := h
      simpa [h₁, h₂, t₁, t₂, ih.2] using ih.1

/-- A new object looks as its parts do. -/
theorem Shows.alloc (ho : w.Owned) {o : Object} {t : Tree} (hp : ∀ v ∈ o.parts, w.IsData v)
    (hv : o.view w.tree = some t) : (w.alloc o).2.Shows (.obj w.size) t := by
  have hk : o.isData := by rw [← Object.isSome_view w.tree, hv]; rfl
  obtain ⟨hd, ht⟩ := IsData.alloc ho hk hp
  exact ⟨hd, Option.some.inj (ht.symm.trans hv)⟩

end World

namespace Build

open World

variable {w : World}

theorem newMapping_gives (ho : w.Owned) {es : Entries} {ts : List (Tree × Tree)}
    (h : w.ShowsEntries es ts) : (newMapping es).Gives w fun u w' =>
      w'.Shows u (.mapping ts) ∧ u.mapping? w' = some es := by
  have shown : (w.alloc (.mapping es)).2.Shows (.obj w.size) (.mapping ts) := by
    refine .alloc ho (fun v hv => ?_) (by simp [Object.view, h.tree.2])
    obtain ⟨e, he, rfl | rfl⟩ := Object.mem_parts_mapping.mp hv
    · exact (h.tree.1 e he).1
    · exact (h.tree.1 e he).2
  have held : (w.alloc (.mapping es)).2.get w.size = .mapping es := w.get_alloc_same _
  refine Gives.bind (Gives.new (Q := fun a w' => w'.Shows (.obj a) (.mapping ts) ∧
    w'.get a = .mapping es) ⟨shown, held⟩) fun a w' _ made => .pure ⟨made.1, ?_⟩
  simp [Value.mapping?, made.2]

theorem newList_gives (ho : w.Owned) {xs : List Value} {ts : List Tree}
    (h : List.Forall₂ w.Shows xs ts) : (newList xs).Gives w fun u w' => w'.Shows u (.list ts) := by
  have shown : (w.alloc (.list xs)).2.Shows (.obj w.size) (.list ts) :=
    .alloc ho (showsAll_tree h).1 (by simp [Object.view, (showsAll_tree h).2])
  exact Gives.bind (Gives.new (Q := fun a w' => w'.Shows (.obj a) (.list ts)) shown)
    fun a w' _ h => .pure h

theorem newTuple_gives (ho : w.Owned) {xs : List Value} {ts : List Tree}
    (h : List.Forall₂ w.Shows xs ts) : (newTuple xs).Gives w fun u w' => w'.Shows u (.tuple ts) := by
  have shown : (w.alloc (.tuple xs)).2.Shows (.obj w.size) (.tuple ts) :=
    .alloc ho (showsAll_tree h).1 (by simp [Object.view, (showsAll_tree h).2])
  exact Gives.bind (Gives.new (Q := fun a w' => w'.Shows (.obj a) (.tuple ts)) shown)
    fun a w' _ h => .pure h

theorem copyObject_shows (ho : w.Owned) {a : Addr} {t : Tree} (h : w.Shows (.obj a) t) :
    (copyObject a).Gives w fun b w' => w'.Shows (.obj b) t :=
  (h.1.copyObject ho).mono fun _ _ _ ⟨hd, ht⟩ => ⟨hd, ht.trans h.2⟩

/-- A step for each member of a list gives values that look as they should. -/
theorem Gives.mapM_shows {α : Type} {f : α → Build Value} {g : α → Tree} {xs : List α}
    (h : ∀ x ∈ xs, ∀ w', w.Extends w' → (f x).Gives w' fun u w'' => w''.Shows u (g x)) :
    (xs.mapM f).Gives w fun us w' => List.Forall₂ w'.Shows us (xs.map g) := by
  refine (Gives.mapM (R := fun x u w' => w'.Shows u (g x)) (fun _ _ _ _ h k => h.extends k) h).mono
    fun us w' _ hus => ?_
  rw [List.forall₂_map_right_iff]
  exact hus.flip

/-- A step for the value of each entry gives entries that look as they should. -/
theorem Gives.mapM_entries {α : Type} (key : α → Value) {act : α → Build Value}
    (k g : α → Tree) {xs : List α} (hk : ∀ x ∈ xs, w.Shows (key x) (k x))
    (h : ∀ x ∈ xs, ∀ w', w.Extends w' → (act x).Gives w' fun u w'' => w''.Shows u (g x)) :
    (xs.mapM fun x => do return (key x, ← act x)).Gives w fun us w' =>
      w'.ShowsEntries us (xs.map fun x => (k x, g x)) := by
  have each (x : α) (hx : x ∈ xs) (w' : World) (he : w.Extends w') :
      Gives (do return (key x, ← act x)) w' fun u w'' =>
        w''.Shows u.1 (k x) ∧ w''.Shows u.2 (g x) :=
    (h x hx w' he).bind fun u w'' he' hu => .pure ⟨(hk x hx).extends (he.trans he'), hu⟩
  have all := Gives.mapM (R := fun x (u : Value × Value) w' => w'.Shows u.1 (k x) ∧ w'.Shows u.2 (g x))
    (fun _ _ _ _ h he => ⟨h.1.extends he, h.2.extends he⟩) each
  refine all.mono fun us w' _ hus => ?_
  rw [ShowsEntries, List.forall₂_map_right_iff]
  exact hus.flip

end Build

namespace World

open Build

variable {w : World}

theorem plainFrom_gives (ho : w.Owned) {v : Value} (h : w.IsData v) {n : Nat} (hn : w.size ≤ n) :
    ∀ w', w.Extends w' → (v.plainFrom n).Gives w' fun u w'' => w''.Shows u (w.tree v).plain := by
  refine h.deep (motive := fun n v => ∀ w', w.Extends w' →
    (v.plainFrom n).Gives w' fun u w'' => w''.Shows u (w.tree v).plain) ?_ ?_ hn
  · intro n a w' _
    cases n <;> exact .pure (by simp [Tree.plain])
  · intro n a hd ih w' k
    have hg := k.get a hd.lt_size
    have ho' := ho.extends k
    have shown : w'.Shows (.obj a) (w.tree (.obj a)) := hd.shows.extends k
    have items (xs : List Value) (hx : ∀ x ∈ xs, x ∈ (w.get a).parts) :
        (xs.mapM (Value.plainFrom n)).Gives w' fun us w'' =>
          List.Forall₂ w''.Shows us (xs.map fun x => (w.tree x).plain) :=
      .mapM_shows fun x hv w'' k' => ih x (hx x hv) w'' (k.trans k')
    rw [Value.plainFrom]
    refine .look_bind ?_
    rw [hg]
    cases hk : w.get a with
    | node f o =>
        rw [hd.tree_node hk]
        have hf : w.IsData (.obj f) := hd.part (by simp [hk, Object.parts])
        exact (copyObject_shows ho' (hf.shows.extends k)).bind fun b w'' _ hb => .pure hb
    | mapping es =>
        rw [hd.tree_mapping hk]
        have key (e : Value × Value) (he : e ∈ es) : w.IsData e.1 :=
          hd.part (hk ▸ Object.mem_parts_key he)
        refine (Gives.mapM_entries (·.1) (fun e => w.tree e.1) (fun e => (w.tree e.2).plain)
          (fun e he => (key e he).shows.extends k) fun e he w'' k' =>
          ih e.2 (hk ▸ Object.mem_parts_value he) w'' (k.trans k')).bind fun us w'' k' hus => ?_
        refine (newMapping_gives (ho'.extends k') hus).mono fun u w₃ _ hu => ?_
        simpa [Tree.plain, Tree.plainEntries_eq, Function.comp_def] using hu.1
    | list xs =>
        rw [hd.tree_list hk]
        refine (items xs (by simp [hk, Object.parts])).bind fun us w'' k' hus => ?_
        refine (newList_gives (ho'.extends k') hus).mono fun u w₃ _ hu => ?_
        simpa [Tree.plain, Tree.plainItems_eq, Function.comp_def] using hu
    | tuple xs =>
        rw [hd.tree_tuple hk]
        refine (items xs (by simp [hk, Object.parts])).bind fun us w'' k' hus => ?_
        refine (newList_gives (ho'.extends k') hus).mono fun u w₃ _ hu => ?_
        simpa [Tree.plain, Tree.plainItems_eq, Function.comp_def] using hu
    | moment m =>
        rw [hd.tree_moment hk] at shown ⊢
        exact (copyObject_shows ho' shown).bind fun b w'' _ hb => .pure (by simpa [Tree.plain] using hb)
    | operation op =>
        have ht := hd.view_tree
        simp only [hk, Object.view, Option.some.injEq] at ht
        rw [← ht] at shown ⊢
        exact (copyObject_shows ho' shown).bind fun b w'' _ hb => .pure (by simpa [Tree.plain] using hb)
    | constructor c => simpa [hk, Object.isData] using hd.kind
    | builder m b => simpa [hk, Object.isData] using hd.kind
    | module ns => simpa [hk, Object.isData] using hd.kind
    | machinery t ps => simpa [hk, Object.isData] using hd.kind

/-- The plain copy of data. -/
theorem IsData.plain (ho : w.Owned) {v : Value} (h : w.IsData v) :
    v.plain.Gives w fun u w' => w'.Shows u (w.tree v).plain :=
  .get_bind (plainFrom_gives ho h (Nat.le_succ _) w (.refl w))

end World
end OpenApiDoc
