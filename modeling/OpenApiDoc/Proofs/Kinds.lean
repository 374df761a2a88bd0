import OpenApiDoc.Proofs.Nodes

/-! # Kinds of data

A `Kind` says which atoms data is made of and whether, besides lists and mappings with texts for keys,
it has calendar values, tuples and schema nodes in it. JSON has a form for data of `Kind.json`, and
schemas are made of data of `Kind.part`.

* `Tree.OfKind` is about what is seen, `World.Is` about values, `World.IsEntries` about the entries
  of a mapping.
* `Kind.plain` is the kind of plain copies: they have neither tuples nor nodes.
* Collections of values of a kind are of that kind, and so are copies. -/

namespace OpenApiDoc

/-- What data is made of. -/
structure Kind where
  atom : Atom → Prop
  moment : Prop
  tuple : Prop
  node : Prop

/-- The kind of what is left when tuples are made lists and nodes are emitted. -/
def Kind.plain (K : Kind) : Kind := { K with tuple := False, node := False }

/-- The second kind allows what the first one does. -/
structure Kind.Le (K L : Kind) : Prop where
  atom : ∀ a, K.atom a → L.atom a
  moment : K.moment → L.moment
  tuple : K.tuple → L.tuple
  node : K.node → L.node

theorem Kind.Le.plain {K L : Kind} (h : K.Le L) : K.plain.Le L.plain := ⟨h.atom, h.moment, id, id⟩

theorem Kind.plain_le (K : Kind) : K.plain.Le K := ⟨fun _ h => h, id, False.elim, False.elim⟩

/-- Data that JSON has a form for, in tuples as well. -/
def Kind.json : Kind where
  atom a := match a with
    | .bytes _ | .pattern _ => False
    | _ => True
  moment := False
  tuple := True
  node := False

/-- The data that schemas are made of: nodes may stand anywhere in it. -/
def Kind.part : Kind := { Kind.json with node := True }

theorem Kind.json_le_part : Kind.json.Le .part := ⟨fun _ h => h, id, id, False.elim⟩

theorem Kind.plain_part_le : Kind.part.plain.Le .json := ⟨fun _ h => h, id, False.elim, id⟩

namespace Tree

/-- A tree of a kind. The fragments of nodes are plain. -/
inductive OfKind : Kind → Tree → Prop
  | atom {K : Kind} {a : Atom} (h : K.atom a) : OfKind K (.atom a)
  | moment {K : Kind} {m : Moment} (h : K.moment) : OfKind K (.moment m)
  | list {K : Kind} {ts : List Tree} (each : ∀ t ∈ ts, OfKind K t) : OfKind K (.list ts)
  | tuple {K : Kind} {ts : List Tree} (h : K.tuple) (each : ∀ t ∈ ts, OfKind K t) :
      OfKind K (.tuple ts)
  | mapping {K : Kind} {es : List (Tree × Tree)} (keys : ∀ e ∈ es, ∃ s, e.1 = .str s)
      (each : ∀ e ∈ es, OfKind K e.2) : OfKind K (.mapping es)
  | node {K : Kind} {f : String × Tree} {fs : List (String × Tree)} (h : K.node)
      (fragment : OfKind K.plain f.2) : OfKind K (.model .node (f :: fs))

theorem OfKind.mono {K : Kind} {t : Tree} (h : OfKind K t) {L : Kind} (k : K.Le L) :
    OfKind L t := by
  induction h generalizing L with
  | atom h => exact .atom (k.atom _ h)
  | moment h => exact .moment (k.moment h)
  | list _ ih => exact .list fun t ht => ih t ht k
  | tuple h _ ih => exact .tuple (k.tuple h) fun t ht => ih t ht k
  | mapping keys _ ih => exact .mapping keys fun e he => ih e he k
  | node h _ ih => exact .node (k.node h) (ih k.plain)

/-- A plain copy is of the plain kind. -/
theorem OfKind.plain {K : Kind} {t : Tree} (h : OfKind K t) : OfKind K.plain t.plain := by
  induction h with
  | atom h => exact .atom h
  | moment h => exact .moment h
  | list _ ih =>
      rw [Tree.plain, plainItems_eq]
      exact .list fun t ht => by
        obtain ⟨u, hu, rfl⟩ := List.mem_map.mp ht
        exact ih u hu
  | tuple _ _ ih =>
      rw [Tree.plain, plainItems_eq]
      exact .list fun t ht => by
        obtain ⟨u, hu, rfl⟩ := List.mem_map.mp ht
        exact ih u hu
  | mapping keys _ ih =>
      rw [Tree.plain, plainEntries_eq]
      refine .mapping (fun e he => ?_) fun e he => ?_
      · obtain ⟨d, hd, rfl⟩ := List.mem_map.mp he
        exact keys d hd
      · obtain ⟨d, hd, rfl⟩ := List.mem_map.mp he
        exact ih d hd
  | node _ fragment => exact fragment

end Tree

namespace World

variable {w w' : World} {K : Kind}

/-- The value is data of a kind. -/
structure Is (w : World) (K : Kind) (v : Value) : Prop where
  data : w.IsData v
  kind : (w.tree v).OfKind K

theorem Is.extends {v : Value} (h : w.Is K v) (k : w.Extends w') : w'.Is K v :=
  ⟨(h.data.extends k).1, (h.data.extends k).2 ▸ h.kind⟩

theorem Is.mono {v : Value} (h : w.Is K v) {L : Kind} (k : K.Le L) : w.Is L v :=
  ⟨h.data, h.kind.mono k⟩

theorem Shows.is {v : Value} {t : Tree} (h : w.Shows v t) (kind : t.OfKind K) : w.Is K v :=
  ⟨h.1, h.2 ▸ kind⟩

theorem is_atom {a : Atom} (h : K.atom a) : w.Is K (.atom a) :=
  (w.shows_atom a).is (.atom h)

/-- The items of a list or a tuple are of its kind. -/
theorem Is.item {a : Addr} (h : w.Is K (.obj a)) {xs : List Value}
    (hg : w.get a = .list xs ∨ w.get a = .tuple xs) {x : Value} (hx : x ∈ xs) : w.Is K x := by
  have kind := h.kind
  rcases hg with hg | hg
  · rw [h.data.tree_list hg] at kind
    cases kind with
    | list each =>
        exact ⟨h.data.part (by simpa [hg, Object.parts] using hx), each _ (List.mem_map_of_mem hx)⟩
  · rw [h.data.tree_tuple hg] at kind
    cases kind with
    | tuple _ each =>
        exact ⟨h.data.part (by simpa [hg, Object.parts] using hx), each _ (List.mem_map_of_mem hx)⟩

/-- The keys of a mapping are texts, and its values are of its kind. -/
theorem Is.entry {a : Addr} (h : w.Is K (.obj a)) {es : Entries} (hg : w.get a = .mapping es)
    {e : Value × Value} (he : e ∈ es) : (∃ s, e.1 = .str s) ∧ w.Is K e.2 := by
  have kind := h.kind
  rw [h.data.tree_mapping hg] at kind
  cases kind with
  | mapping keys each =>
      obtain ⟨s, hs⟩ := keys _ (List.mem_map_of_mem he)
      have key : w.Shows e.1 (.str s) := ⟨h.data.part (hg ▸ Object.mem_parts_key he), hs⟩
      exact ⟨⟨s, key.atom⟩, h.data.part (hg ▸ Object.mem_parts_value he),
        each _ (List.mem_map_of_mem he)⟩

/-- The entries stand under texts, and their values are of a kind. -/
def IsEntries (K : Kind) (w : World) (es : Entries) : Prop :=
  ∀ e ∈ es, (∃ s, e.1 = .str s) ∧ w.Is K e.2

/-- The values under these names are of a kind. -/
def IsFields (K : Kind) (w : World) (fs : List (String × Value)) : Prop := ∀ f ∈ fs, w.Is K f.2

/-- The entries of a mapping of a kind. -/
theorem Is.entries {v : Value} (h : w.Is K v) {es : Entries} (hm : v.mapping? w = some es) :
    w.IsEntries K es := by
  obtain ⟨a, rfl, hg⟩ := Value.eq_obj_of_mapping? hm
  exact fun e he => h.entry hg he

section entries

variable {es fs : Entries}

theorem IsEntries.extends (h : w.IsEntries K es) (k : w.Extends w') : w'.IsEntries K es :=
  fun e he => ⟨(h e he).1, (h e he).2.extends k⟩

theorem IsEntries.mono (h : w.IsEntries K es) {L : Kind} (k : K.Le L) : w.IsEntries L es :=
  fun e he => ⟨(h e he).1, (h e he).2.mono k⟩

theorem IsEntries.overlay (h : w.IsEntries K es) (hf : w.IsEntries K fs)
    (same : Value → Value → Bool) : w.IsEntries K (Entries.overlay same es fs) :=
  Entries.forall_overlay (P := fun k : Value => ∃ s, k = .str s) h hf

end entries

theorem IsFields.named {fs : List (String × Value)} (h : w.IsFields K fs) :
    w.IsEntries K (Entries.named fs) := by
  intro e he
  obtain ⟨f, hf, rfl⟩ := List.mem_map.mp he
  exact ⟨⟨f.1, rfl⟩, h f hf⟩

/-- The value is a node or a mapping. -/
def IsSchema (w : World) (v : Value) : Prop :=
  ∃ a, v = .obj a ∧ ((∃ f o, w.get a = .node f o) ∨ ∃ es, w.get a = .mapping es)

theorem IsSchema.extends {v : Value} (h : w.IsSchema v) (k : w.Extends w') : w'.IsSchema v := by
  obtain ⟨a, rfl, hg⟩ := h
  have lt : a < w.size := by
    refine Nat.lt_of_not_le fun ha => ?_
    simp [get_of_size_le ha] at hg
  exact ⟨a, rfl, by rwa [k.get a lt]⟩

end World

/-! ### Collections and copies -/

namespace Build

open World

variable {w : World} {K : Kind}

theorem newMapping_is (ho : w.Owned) {es : Entries} (h : w.IsEntries K es) :
    (newMapping es).Gives w fun u w' => w'.Is K u ∧ u.mapping? w' = some es := by
  have key (e : Value × Value) (he : e ∈ es) : w.IsData e.1 := by
    obtain ⟨s, hs⟩ := (h e he).1
    exact hs ▸ .atom _
  have shown : w.ShowsEntries es (es.map fun e => (w.tree e.1, w.tree e.2)) := by
    rw [ShowsEntries, List.forall₂_map_right_iff, List.forall₂_same]
    exact fun e he => ⟨(key e he).shows, (h e he).2.data.shows⟩
  refine (newMapping_gives ho shown).mono fun u w' _ made =>
    ⟨made.1.is (.mapping ?_ ?_), made.2⟩
  · refine List.forall_mem_map.mpr fun e he => ?_
    obtain ⟨s, hs⟩ := (h e he).1
    exact ⟨s, by rw [hs, w.tree_atom]⟩
  · exact List.forall_mem_map.mpr fun e he => (h e he).2.kind

theorem newList_is (ho : w.Owned) {xs : List Value} (h : ∀ x ∈ xs, w.Is K x) :
    (newList xs).Gives w fun u w' => w'.Is K u := by
  have shown : List.Forall₂ w.Shows xs (xs.map w.tree) := by
    rw [List.forall₂_map_right_iff, List.forall₂_same]
    exact fun x hx => (h x hx).data.shows
  refine (newList_gives ho shown).mono fun u w' _ hu => hu.is (.list ?_)
  exact List.forall_mem_map.mpr fun x hx => (h x hx).kind

theorem newTuple_is (ho : w.Owned) (allowed : K.tuple) {xs : List Value} (h : ∀ x ∈ xs, w.Is K x) :
    (newTuple xs).Gives w fun u w' => w'.Is K u := by
  have shown : List.Forall₂ w.Shows xs (xs.map w.tree) := by
    rw [List.forall₂_map_right_iff, List.forall₂_same]
    exact fun x hx => (h x hx).data.shows
  refine (newTuple_gives ho shown).mono fun u w' _ hu => hu.is (.tuple allowed ?_)
  exact List.forall_mem_map.mpr fun x hx => (h x hx).kind

theorem copyObject_is (ho : w.Owned) {a : Addr} (h : w.Is K (.obj a)) :
    (copyObject a).Gives w fun b w' => w'.Is K (.obj b) :=
  (h.data.copyObject ho).mono fun _ _ _ ⟨data, tree⟩ => ⟨data, tree ▸ h.kind⟩

theorem copy_is (ho : w.Owned) {v : Value} (h : w.Is K v) :
    v.copy.Gives w fun u w' => w'.Is K u :=
  (h.data.copy ho).mono fun _ _ _ ⟨data, tree⟩ => ⟨data, tree ▸ h.kind⟩

end Build

namespace Node

open World Build

variable {w : World}

/-- Emitting a node or a mapping gives its plain view. -/
theorem emit_gives (ho : w.Owned) {v : Value} (h : w.IsData v) (hv : w.IsSchema v) :
    (emit v).Gives w fun u w' => w'.Shows u (w.tree v).plain := by
  obtain ⟨a, rfl, ⟨f, o, hg⟩ | ⟨es, hg⟩⟩ := hv
  · have parts : parts? w (.obj a) = some (f, o) := by simp [parts?, hg]
    refine .get_bind ?_
    rw [parts, h.tree_node hg]
    exact schema_gives ho (h.part (by simp [hg, Object.parts])).shows
  · rw [h.tree_mapping hg]
    exact emit_mapping_gives ho ⟨h, h.tree_mapping hg⟩

/-- What is emitted for a value of a kind is plain and of its kind. -/
theorem emit_is (ho : w.Owned) {K : Kind} {v : Value} (h : w.Is K v) (hv : w.IsSchema v) :
    (emit v).Gives w fun u w' => w'.Is K.plain u :=
  (emit_gives ho h.data hv).mono fun _ _ _ hu => hu.is h.kind.plain

end Node
end OpenApiDoc
