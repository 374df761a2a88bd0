import OpenApiDoc.Proofs.Detachment
import OpenApiDoc.Proofs.Properties

/-! # What parameters share

A parameter has its generated entries and, laid over them, the further entries it is given. Its
schema is emitted, so it is a copy. The further entries are taken as they are, where those of a node
are copied and the nodes in them emitted. So a parameter shares what the values of the further
entries reach, and nothing else.

* `World.ContainsNode` says that a node is in a value, below mappings, lists and tuples.
* `Parameter.generated` are the generated entries, `Parameter.run_build` says what is made of them.
* `Parameter.Overlays` is about a parameter that was just made: what it shares with what was there
  before, which nodes it contains, and which assignments do not show in it.
* `Parameter.invoke_overlays`: how a call of the parameter helpers ends. -/

namespace OpenApiDoc

open World Build

variable {w w' : World} {v : Value}

/-! ### What new mappings reach -/

namespace World

theorem Tidy.reaches_extends (h : w.Tidy) (hv : w.Has v) (k : w.Extends w') {b : Addr} :
    w'.Reaches v b ↔ w.Reaches v b := by
  refine ⟨k.reaches fun c hc => h.reaches_lt hv hc, ?_⟩
  rintro ⟨a, rfl, path⟩
  refine ⟨a, rfl, ?_⟩
  induction path with
  | refl => exact .refl
  | tail before step ih =>
      exact ih.tail ((k.grows.holds_iff (h.reaches_lt hv ⟨a, rfl, before⟩)).mpr step)

theorem Fresh.has {base : Nat} (h : w.Fresh base v) : w.Has v := by
  cases v with
  | atom a => trivial
  | obj a => exact (h a ⟨a, rfl, .refl⟩).1

/-- A new object reaches itself and what its parts reach. -/
theorem Tidy.reaches_alloc (h : w.Tidy) {o : Object} (has : ∀ v ∈ o.parts, w.Has v) {b : Addr} :
    (w.alloc o).2.Reaches (.obj w.size) b ↔ b = w.size ∨ ∃ v ∈ o.parts, w.Reaches v b := by
  have k := w.extends_alloc o
  have get : (w.alloc o).2.get w.size = o := w.get_alloc_same o
  constructor
  · rintro ⟨a, ⟨⟩, path⟩
    rcases path.cases_head with rfl | ⟨c, step, rest⟩
    · exact .inl rfl
    · have part : Value.obj c ∈ o.parts := by rwa [Holds, get] at step
      exact .inr ⟨_, part, (h.reaches_extends (has _ part) k).mp ⟨c, rfl, rest⟩⟩
  · rintro (rfl | ⟨v, hv, hb⟩)
    · exact ⟨_, rfl, .refl⟩
    · exact Reaches.part (by rwa [get]) ((h.reaches_extends (has v hv) k).mpr hb)

/-! ### Nodes in values -/

/-- The value is a node, or a node is in it, below mappings, lists and tuples. -/
inductive ContainsNode (w : World) : Value → Prop
  | node {v : Value} (here : w.IsNode v) : ContainsNode w v
  | entry {v : Value} {es : Entries} {e : Value × Value} (mapping : v.mapping? w = some es)
      (mem : e ∈ es) (inside : ContainsNode w e.2) : ContainsNode w v
  | item {v x : Value} {xs : List Value} (items : v.items? w = some xs) (mem : x ∈ xs)
      (inside : ContainsNode w x) : ContainsNode w v

theorem not_containsNode_atom (a : Atom) : ¬ w.ContainsNode (.atom a) := by
  rintro (⟨b, _, _, ⟨⟩, -⟩ | ⟨⟨⟩, -, -⟩ | ⟨⟨⟩, -, -⟩)

theorem Tidy.has_entry (h : w.Tidy) {es : Entries} (mapping : v.mapping? w = some es)
    {e : Value × Value} (he : e ∈ es) : w.Has e.2 := by
  obtain ⟨a, rfl, hg⟩ := Value.eq_obj_of_mapping? mapping
  exact h.has_part (hg ▸ Object.mem_parts_value he)

theorem Tidy.has_item (h : w.Tidy) {xs : List Value} (items : v.items? w = some xs) {x : Value}
    (hx : x ∈ xs) : w.Has x := by
  cases v with
  | atom a => cases items
  | obj a =>
      refine h.has_part (a := a) ?_
      cases hg : w.get a <;> simp_all [Value.items?, Object.parts]

/-- What is there contains the same nodes while the store grows. -/
theorem Tidy.containsNode_extends (h : w.Tidy) (hv : w.Has v) (k : w.Extends w') :
    w'.ContainsNode v ↔ w.ContainsNode v := by
  constructor
  · intro inside
    induction inside with
    | node here =>
        obtain ⟨a, f, o, rfl, hg⟩ := here
        exact .node ⟨a, f, o, rfl, (k.get a hv).symm.trans hg⟩
    | entry mapping mem _ ih =>
        rw [k.mapping? hv] at mapping
        exact .entry mapping mem (ih (h.has_entry mapping mem))
    | item items mem _ ih =>
        rw [k.items? hv] at items
        exact .item items mem (ih (h.has_item items mem))
  · intro inside
    induction inside with
    | node here =>
        obtain ⟨a, f, o, rfl, hg⟩ := here
        exact .node ⟨a, f, o, rfl, (k.get a hv).trans hg⟩
    | entry mapping mem _ ih =>
        exact .entry (k.mapping? hv ▸ mapping) mem (ih (h.has_entry mapping mem))
    | item items mem _ ih =>
        exact .item (k.items? hv ▸ items) mem (ih (h.has_item items mem))

/-- A mapping contains the nodes that its values contain. -/
theorem containsNode_mapping {es : Entries} (mapping : v.mapping? w = some es) :
    w.ContainsNode v ↔ ∃ e ∈ es, w.ContainsNode e.2 := by
  constructor
  · intro inside
    obtain ⟨a, rfl, hg⟩ := Value.eq_obj_of_mapping? mapping
    cases inside with
    | node here => obtain ⟨_, _, _, ⟨⟩, node⟩ := here; cases hg.symm.trans node
    | entry found mem inside =>
        cases mapping.symm.trans found
        exact ⟨_, mem, inside⟩
    | item items mem inside => simp [Value.items?, hg] at items
  · rintro ⟨e, he, inside⟩
    exact .entry mapping he inside

/-- Data whose view is plain contains no node. -/
theorem not_containsNode_of_plain (data : w.IsData v) (plain : (w.tree v).plain = w.tree v) :
    ¬ w.ContainsNode v := by
  intro inside
  induction inside with
  | node here =>
      -- The plain view of a node is a part of its view.
      obtain ⟨a, f, o, rfl, hg⟩ := here
      rw [data.tree_node hg, Tree.plain] at plain
      have size := congrArg sizeOf plain
      simp only [Tree.model.sizeOf_spec, List.cons.sizeOf_spec, Prod.mk.sizeOf_spec] at size
      omega
  | @entry v es e mapping mem _ ih =>
      obtain ⟨a, rfl, hg⟩ := Value.eq_obj_of_mapping? mapping
      refine ih (data.part (hg ▸ Object.mem_parts_value mem)) ?_
      rw [data.tree_mapping hg, Tree.plain, Tree.plainEntries_eq, List.map_map] at plain
      have same := List.map_inj_left.mp (Tree.mapping.inj plain) e mem
      exact (Prod.mk.inj same).2
  | @item v x xs items mem _ ih =>
      cases v with
      | atom a => cases items
      | obj a =>
          cases hg : w.get a with
          | list ys =>
              obtain rfl : ys = xs := by simpa [Value.items?, hg] using items
              refine ih (data.part (by simpa [hg, Object.parts] using mem)) ?_
              rw [data.tree_list hg, Tree.plain_list, List.map_map] at plain
              exact List.map_inj_left.mp (Tree.list.inj plain) x mem
          | tuple ys =>
              rw [data.tree_tuple hg, Tree.plain_tuple] at plain
              cases plain
          | _ => simp [Value.items?, hg] at items

end World

/-! ### What is laid over other entries -/

namespace Entries

variable {α : Type} {fs extra : List (String × α)} {n : String} {u : α}

theorem mem_iff_lookup (distinct : Distinct fs) : (n, u) ∈ fs ↔ fs.lookup n = some u := by
  refine ⟨fun h => ?_, mem_of_lookup⟩
  obtain ⟨front, back, rfl⟩ := List.append_of_mem h
  refine List.lookup_eq_some_iff.mpr ⟨front, back, rfl, fun e he => ?_⟩
  simp only [Distinct, List.map_append, List.map_cons, List.nodup_append] at distinct
  exact bne_iff_ne.mpr fun same =>
    distinct.2.2 e.1 (List.mem_map_of_mem he) n (by simp) same.symm

/-- The entries are the further ones, and those under other names. -/
theorem mem_overlay_iff (generated : Distinct fs) (further : Distinct extra) :
    (n, u) ∈ overlayNames fs extra ↔ (n, u) ∈ extra ∨ n ∉ extra.map (·.1) ∧ (n, u) ∈ fs := by
  rw [mem_iff_lookup (generated.overlay extra), mem_iff_lookup further, mem_iff_lookup generated]
  cases found : extra.lookup n with
  | some x =>
      have named : n ∈ extra.map (·.1) := List.mem_map_of_mem (mem_of_lookup found)
      simp [lookup_overlay_found further found, named]
  | none =>
      have free : n ∉ extra.map (·.1) := by
        intro named
        obtain ⟨⟨_, x⟩, hx, rfl⟩ := List.mem_map.mp named
        simp [(mem_iff_lookup further).mp hx] at found
      simp [lookup_overlay free, free]

end Entries

/-! ### What a parameter is made of -/

/-- Nothing, or a mapping from names. -/
def World.IsFurther (w : World) (extra : Value) (fs : List (String × Value)) : Prop :=
  extra = .none ∧ fs = [] ∨ extra.mapping? w = some (Entries.named fs)

theorem World.IsFurther.reads {extra : Value} {fs : List (String × Value)}
    (h : w.IsFurther extra fs) : extra.entriesOrEmpty.Reads w (Entries.named fs) := by
  rcases h with ⟨rfl, rfl⟩ | mapping
  · rfl
  · exact Value.entriesOrEmpty_reads mapping

theorem World.IsFurther.has {extra : Value} {fs : List (String × Value)}
    (h : w.IsFurther extra fs) (hw : w.Tidy) : ∀ f ∈ fs, w.Has f.2 := by
  intro f hf
  rcases h with ⟨-, rfl⟩ | mapping
  · cases hf
  · exact hw.has_entry mapping (e := (.str f.1, f.2)) (List.mem_map_of_mem hf)

theorem World.IsFurther.extends {extra : Value} {fs : List (String × Value)}
    (h : w.IsFurther extra fs) (k : w.Extends w') : w'.IsFurther extra fs := by
  refine h.imp_right fun mapping => ?_
  obtain ⟨a, rfl, hg⟩ := Value.eq_obj_of_mapping? mapping
  exact Value.mapping?_of_get ((k.get a (lt_size_of_mapping hg)).trans hg)

namespace Parameter

/-- A parameter is required if it is in a path or its schema is not optional. -/
def isNeeded (w : World) (location schema : Value) : Bool :=
  location == .str "path" || !Node.isOptional w schema

/-- The generated entries of a parameter, whose schema is emitted as the last value. -/
def generated (w : World) (name location schema description emitted : Value) :
    List (String × Value) :=
  [("name", name), ("in", location), ("required", .bool (isNeeded w location schema))] ++
    (if description.isNone then [] else [("description", description)]) ++ [("schema", emitted)]

variable {name location schema description extra s : Value} {fs : List (String × Value)}

theorem run_build_emitted (known : isLocation location) :
    (build name location schema description extra).run w = (do
      let emitted ← Node.emit schema
      let further ← extra.entriesOrEmpty
      newMapping (Entries.overlay (← get).sameKey
        (Entries.named (generated w name location schema description emitted)) further)).run w := by
  simp only [build, known, Bool.not_true, Bool.false_eq_true, if_false]
  rfl

/-- A parameter is a new mapping of the generated entries with the further ones laid over them. -/
theorem run_build (known : isLocation location) (further : w.IsFurther extra fs) {w₁ : World}
    (k : w.Extends w₁) (emitted : (Node.emit schema).run w = .ok s w₁) :
    (build name location schema description extra).run w =
      .ok (.obj w₁.size) (w₁.alloc (.mapping (Entries.named (Entries.overlayNames
        (generated w name location schema description s) fs)))).2 := by
  rw [run_build_emitted known, EStateM.run_bind, emitted]
  simp only
  rw [EStateM.run_bind, (further.extends k).reads]
  simp only [Entries.overlay_named]
  rfl

theorem run_build_error {f : Fault} {w₁ : World} (known : isLocation location)
    (failed : (Node.emit schema).run w = .error f w₁) :
    (build name location schema description extra).run w = .error f w₁ := by
  rw [run_build_emitted known, EStateM.run_bind, failed]

theorem generated_distinct : Entries.Distinct (generated w name location schema description s) := by
  unfold generated
  split <;> simp [Entries.Distinct]

/-- All that is generated but the schema is no part of the store. -/
theorem eq_atom_of_generated (known : isLocation location) (named : ∃ a, name = .atom a)
    (described : ∃ a, description = .atom a) {n : String} {u : Value}
    (h : (n, u) ∈ generated w name location schema description s) :
    (n = "schema" ∧ u = s) ∨ ∃ a, u = .atom a := by
  obtain ⟨place, rfl⟩ : ∃ place, location = .str place := by
    unfold isLocation at known
    split at known
    · exact ⟨_, rfl⟩
    · cases known
  obtain ⟨a, rfl⟩ := named
  obtain ⟨d, rfl⟩ := described
  unfold generated at h
  split at h <;> simp only [List.append_nil, List.cons_append, List.nil_append, List.mem_cons,
    Prod.mk.injEq, List.not_mem_nil, or_false] at h
  · rcases h with ⟨-, rfl⟩ | ⟨-, rfl⟩ | ⟨-, rfl⟩ | schema
    exacts [.inr ⟨_, rfl⟩, .inr ⟨_, rfl⟩, .inr ⟨_, rfl⟩, .inl schema]
  · rcases h with ⟨-, rfl⟩ | ⟨-, rfl⟩ | ⟨-, rfl⟩ | ⟨-, rfl⟩ | schema
    exacts [.inr ⟨_, rfl⟩, .inr ⟨_, rfl⟩, .inr ⟨_, rfl⟩, .inr ⟨_, rfl⟩, .inl schema]

theorem schema_mem_generated :
    ("schema", s) ∈ generated w name location schema description s := by
  simp [generated]

/-! ### What a parameter shares -/

/-- A parameter `r` was made from `w`, with further entries `fs` and the schema `s`, which had been
emitted in `w₁`. -/
structure Overlays (w w₁ w' : World) (b : Signature.Bound) (fs : List (String × Value))
    (s r : Value) : Prop where
  /-- The call changes nothing. -/
  kept : w.Extends w'
  entries : r.mapping? w' = some (Entries.named (Entries.overlayNames
    (generated w (b.arg "name") (b.arg "location") (b.arg "schema") (b.arg "description") s) fs))
  /-- What was there and can be written to is reached through the further entries only. -/
  shared : ∀ c < w.size, ¬ w.Inert (.obj c) →
    (w'.Reaches r c ↔ ∃ f ∈ fs, w.Reaches f.2 c)
  /-- Nodes in the further entries are not emitted. -/
  nodes : w'.ContainsNode r ↔
    (∃ f ∈ fs, w.ContainsNode f.2) ∨ "schema" ∉ fs.map (·.1) ∧ w₁.ContainsNode s

/-- Assignments show neither in the parameter nor in what was there before, but for those to what
the parameter shares. -/
structure Apart (w w' : World) (fs : List (String × Value)) (r : Value) : Prop where
  made : ∀ ts : List Access.Assignment,
    (∀ t ∈ ts, t.target < w.size ∧ ∀ f ∈ fs, ¬ w.Reaches f.2 t.target) →
    ∀ c, w'.Reaches r c → (Access.assigned w' ts).get c = w'.get c
  former : ∀ ts : List Access.Assignment,
    (∀ t ∈ ts, w'.Reaches r t.target ∧ ∀ f ∈ fs, ¬ w.Reaches f.2 t.target) →
    ∀ c < w.size, (Access.assigned w' ts).get c = w.get c

variable {w₁ : World} {b : Signature.Bound} {r : Value}

/-- What is assigned to in vain is as it was. -/
theorem assigned_inert (k : w.Extends w') (ts : List Access.Assignment) {c : Addr}
    (inert : ∀ t ∈ ts, t.target = c → c < w.size ∧ w.Inert (.obj c)) :
    (Access.assigned w' ts).get c = w'.get c := by
  refine (Access.assigned_touched ts w').get c ?_
  by_cases target : ∃ t ∈ ts, t.target = c
  · obtain ⟨t, ht, same⟩ := target
    obtain ⟨lt, inert⟩ := inert t ht same
    exact .inr (k.get c lt ▸ inert.unwritten)
  · exact .inl target

theorem Overlays.apart (h : Overlays w w₁ w' b fs s r) : Apart w w' fs r := by
  have inert {c : Addr} (lt : c < w.size) (reached : w'.Reaches r c)
      (free : ∀ f ∈ fs, ¬ w.Reaches f.2 c) : w.Inert (.obj c) := by
    by_contra hi
    obtain ⟨f, hf, through⟩ := (h.shared c lt hi).mp reached
    exact free f hf through
  constructor
  · intro ts apart c hc
    refine assigned_inert h.kept ts ?_
    rintro t ht rfl
    exact ⟨(apart t ht).1, inert (apart t ht).1 hc (apart t ht).2⟩
  · intro ts apart c hc
    refine (assigned_inert h.kept ts ?_).trans (h.kept.get c hc)
    rintro t ht rfl
    exact ⟨hc, inert hc (apart t ht).1 (apart t ht).2⟩

/-! ### Calls -/

/-- The entries of a parameter are the further ones, the schema unless it is replaced, and atoms. -/
structure Consists (es fs : List (String × Value)) (s : Value) : Prop where
  further : ∀ f ∈ fs, f ∈ es
  schema : "schema" ∉ fs.map (·.1) → ("schema", s) ∈ es
  only : ∀ e ∈ es, e ∈ fs ∨ "schema" ∉ fs.map (·.1) ∧ e.2 = s ∨ ∃ a, e.2 = .atom a

theorem consists_overlay (known : isLocation location) (named : ∃ a, name = .atom a)
    (described : ∃ a, description = .atom a) (distinct : Entries.Distinct fs) :
    Consists (Entries.overlayNames (generated w name location schema description s) fs) fs s where
  further _ hf := (Entries.mem_overlay_iff generated_distinct distinct).mpr (.inl hf)
  schema free :=
    (Entries.mem_overlay_iff generated_distinct distinct).mpr (.inr ⟨free, schema_mem_generated⟩)
  only e he := by
    refine ((Entries.mem_overlay_iff generated_distinct distinct).mp he).imp_right ?_
    rintro ⟨free, mem⟩
    refine (eq_atom_of_generated known named described mem).imp_left ?_
    rintro ⟨same, value⟩
    exact ⟨same ▸ free, value⟩

section made

variable {es : List (String × Value)} (hw : w.Tidy) (k : w.Extends w₁) (tidy : w₁.Tidy)
  (fresh : w₁.Fresh w.size s) (old : ∀ f ∈ fs, w.Has f.2) (consists : Consists es fs s)

include k fresh old consists in
theorem has_of_consists : ∀ v ∈ (Object.mapping (Entries.named es)).parts, w₁.Has v := by
  intro v hv
  obtain ⟨_, mem, rfl | rfl⟩ := Object.mem_parts_mapping.mp hv
  all_goals obtain ⟨e, he, rfl⟩ := List.mem_map.mp mem
  · trivial
  · rcases consists.only e he with further | ⟨-, rfl⟩ | ⟨a, value⟩
    · exact (old e further).mono k.size
    · exact fresh.has
    · simp only [value]
      trivial

include hw k tidy fresh old consists in
theorem reaches_of_consists {c : Addr} (lt : c < w.size) (written : ¬ w.Inert (.obj c)) :
    (w₁.alloc (.mapping (Entries.named es))).2.Reaches (.obj w₁.size) c ↔
      ∃ f ∈ fs, w.Reaches f.2 c := by
  rw [tidy.reaches_alloc (has_of_consists k fresh old consists)]
  constructor
  · rintro (rfl | ⟨v, hv, reached⟩)
    · exact absurd k.size (Nat.not_le.mpr lt)
    obtain ⟨_, mem, rfl | rfl⟩ := Object.mem_parts_mapping.mp hv
    all_goals obtain ⟨e, he, rfl⟩ := List.mem_map.mp mem
    · obtain ⟨_, ⟨⟩, -⟩ := reached
    · rcases consists.only e he with further | ⟨-, rfl⟩ | ⟨a, value⟩
      · exact ⟨e, further, (hw.reaches_extends (old e further) k).mp reached⟩
      · -- What the schema reaches was made anew or is inert.
        rcases (fresh c reached).2 with new | inert
        · exact absurd lt (Nat.not_lt.mpr new)
        · exact absurd (hw.inert_of_extends k inert lt) written
      · simp only [value] at reached
        obtain ⟨_, ⟨⟩, -⟩ := reached
  · rintro ⟨f, hf, reached⟩
    refine .inr ⟨f.2, ?_, (hw.reaches_extends (old f hf) k).mpr reached⟩
    exact Object.mem_parts_value (List.mem_map_of_mem (consists.further f hf))

include hw k tidy fresh old consists in
theorem containsNode_of_consists :
    (w₁.alloc (.mapping (Entries.named es))).2.ContainsNode (.obj w₁.size) ↔
      (∃ f ∈ fs, w.ContainsNode f.2) ∨ "schema" ∉ fs.map (·.1) ∧ w₁.ContainsNode s := by
  have k₂ := w₁.extends_alloc (.mapping (Entries.named es))
  have further (f : String × Value) (hf : f ∈ fs) :=
    (tidy.containsNode_extends ((old f hf).mono k.size) k₂).trans
      (hw.containsNode_extends (old f hf) k)
  have schema := tidy.containsNode_extends fresh.has k₂
  have mapping : (Value.obj w₁.size).mapping? (w₁.alloc (.mapping (Entries.named es))).2 =
      some (Entries.named es) := Value.mapping?_of_get (w₁.get_alloc_same _)
  rw [containsNode_mapping mapping]
  constructor
  · rintro ⟨_, mem, inside⟩
    obtain ⟨e, he, rfl⟩ := List.mem_map.mp mem
    rcases consists.only e he with hf | ⟨free, rfl⟩ | ⟨a, value⟩
    · exact .inl ⟨e, hf, (further e hf).mp inside⟩
    · exact .inr ⟨free, schema.mp inside⟩
    · simp only [value] at inside
      exact absurd inside (not_containsNode_atom a)
  · rintro (⟨f, hf, inside⟩ | ⟨free, inside⟩)
    · exact ⟨_, List.mem_map_of_mem (consists.further f hf), (further f hf).mpr inside⟩
    · exact ⟨_, List.mem_map_of_mem (consists.schema free), schema.mpr inside⟩

end made

theorem overlays_of_emitted (hw : w.Tidy) (known : isLocation (b.arg "location"))
    (name : ∃ a, b.arg "name" = .atom a) (description : ∃ a, b.arg "description" = .atom a)
    (schema : w.Has (b.arg "schema")) (further : w.IsFurther (b.arg "extra") fs)
    (distinct : Entries.Distinct fs) (emitted : (Node.emit (b.arg "schema")).run w = .ok s w₁) :
    ∃ r w', (Call.parameter.run b).run w = .ok r w' ∧ Overlays w w₁ w' b fs s r := by
  obtain ⟨k, closed, fresh⟩ :=
    (Node.emit_fresh (Nat.le_refl _) schema).ok hw.encloses_empty emitted
  have old := further.has hw
  have consists : Consists (Entries.overlayNames (generated w (b.arg "name") (b.arg "location")
      (b.arg "schema") (b.arg "description") s) fs) fs s :=
    consists_overlay known name description distinct
  refine ⟨_, _, run_build known further k emitted, k.trans (w₁.extends_alloc _),
    Value.mapping?_of_get (w₁.get_alloc_same _), fun c lt written => ?_, ?_⟩
  · exact reaches_of_consists hw k closed.tidy fresh old consists lt written
  · exact containsNode_of_consists hw k closed.tidy fresh old consists

variable {callee : Callee} {args : List Value} {named : List (String × Value)}

/-- A call of a parameter helper comes to what emitting the schema comes to. If that gives a schema,
the parameter has it among its generated entries, and shares what the further entries reach and
nothing else; and the nodes in these stay nodes. -/
theorem invoke_overlays (hw : w.Tidy) (call : Call.Runs callee args named Call.parameter b)
    (known : isLocation (b.arg "location")) (name : ∃ a, b.arg "name" = .atom a)
    (description : ∃ a, b.arg "description" = .atom a) (schema : w.Has (b.arg "schema"))
    (further : w.IsFurther (b.arg "extra") fs) (distinct : Entries.Distinct fs)
    (load : Value → Build Value) :
    (match (Node.emit (b.arg "schema")).run w with
      | .ok s w₁ => ∃ r w', (Call.invoke load callee args named).run w = .ok r w' ∧
          Overlays w w₁ w' b fs s r ∧ Apart w w' fs r
      | .error f w₁ => (Call.invoke load callee args named).run w = .error f w₁ ∧ w.Extends w₁) ∧
    (Schema.IsChild w (b.arg "schema") → (w.tree (b.arg "schema")).NodesPlain →
      ∃ s w₁, (Node.emit (b.arg "schema")).run w = .ok s w₁ ∧ ¬ w₁.ContainsNode s) := by
  constructor
  · rw [call.invoke load]
    cases emitted : (Node.emit (b.arg "schema")).run w with
    | ok s w₁ =>
        obtain ⟨r, w', run, overlays⟩ :=
          overlays_of_emitted hw known name description schema further distinct emitted
        exact ⟨r, w', run, overlays, overlays.apart⟩
    | error f w₁ =>
        exact ⟨run_build_error known emitted,
          ((Node.emit_fresh (Nat.le_refl _) schema).error hw.encloses_empty emitted).1⟩
  · intro child plain
    obtain ⟨s, w₁, run, -, data, view⟩ := (child.emits hw.owned w (.refl w)).1
    refine ⟨s, w₁, run, not_containsNode_of_plain data ?_⟩
    rw [view, plain.plain_plain]

/-! ### Runs -/

/-- A node, and further entries that hold it below a mapping. -/
def contentStore : World :=
  ((((World.initial.alloc (.mapping [(.str "type", .str "string")])).2.alloc
    (.node 16 false)).2.alloc (.mapping [(.str "schema", .obj 17)])).2.alloc
      (.mapping [(.str "content", .obj 18)])).2

theorem contentStore_tidy : contentStore.Tidy := by
  have entry {w : World} (name : String) {a : Addr} (lt : a < w.size) :
      OpenEntries .empty w [(.str name, .obj a)] := by
    simp only [OpenEntries, List.mem_singleton, forall_eq]
    exact ⟨.atom _, lt, fun inside => inside⟩
  have first := (Session.initial_tidy.encloses_empty.alloc
    (o := .mapping [(.str "type", .str "string")])
    (.mapping (by simp [OpenEntries, World.Open, Inert.atom]))).1
  have fragment : (World.initial.alloc (.mapping [(.str "type", .str "string")])).2.get 16 =
      .mapping [(.str "type", .str "string")] := rfl
  have second := (first.alloc (o := .node 16 false)
    (.node ⟨by decide, fun inside => inside⟩ fragment False.elim)).1
  have third := (second.alloc (o := .mapping [(.str "schema", .obj 17)])
    (.mapping (entry "schema" (by decide)))).1
  exact (third.alloc (o := .mapping [(.str "content", .obj 18)])
    (.mapping (entry "content" (by decide)))).1.tidy

/-- The parameter has the node of its further entries, and holds their mapping. -/
theorem invoke_overlays_content :
    (contentStore.Tidy ∧ isLocation (.str "query") ∧
      contentStore.IsFurther (.obj 19) [("content", .obj 18)]) ∧
    ∃ r w', (Call.invoke Delivered.unloaded .parameter
        [.str "a", .str "query", .obj 17, .none, .obj 19] []).run contentStore = .ok r w' ∧
      w'.ContainsNode r ∧ w'.Reaches r 18 := by
  have further : contentStore.IsFurther (.obj 19) [("content", .obj 18)] := .inr rfl
  have child : Schema.IsChild contentStore (.obj 17) := by
    refine ⟨.obj (by decide) rfl rfl (fun _ h => nomatch h) ?_, .inl rfl⟩
    change ∀ v ∈ [Value.obj 16], _
    rw [List.forall_mem_singleton]
    refine .obj (by decide) rfl rfl (fun _ h => nomatch h) ?_
    change ∀ v ∈ [Value.str "type", .str "string"], _
    simp [IsData.atom]
  have plain : (contentStore.tree (.obj 17)).NodesPlain :=
    show (Tree.node [("type", .str "string")] false).NodesPlain from .node rfl false
  have call : Call.Runs .parameter [.str "a", .str "query", .obj 17, .none, .obj 19] []
      Call.parameter _ := .parameter rfl
  obtain ⟨outcome, emits⟩ := invoke_overlays contentStore_tidy call rfl ⟨_, rfl⟩ ⟨_, rfl⟩
    child.data.has further (by simp [Entries.Distinct])
    Delivered.unloaded
  obtain ⟨s, w₁, emitted, -⟩ := emits child plain
  rw [emitted] at outcome
  obtain ⟨r, w', run, overlays, -⟩ := outcome
  refine ⟨⟨contentStore_tidy, rfl, further⟩, r, w', run, overlays.nodes.mpr (.inl ?_),
    (overlays.shared 18 (by decide) fun inert => absurd inert.kind (by decide)).mpr ?_⟩
  · have node : contentStore.IsNode (.obj 17) := ⟨17, 16, false, rfl, rfl⟩
    have entries : (Value.obj 18).mapping? contentStore = some [(.str "schema", .obj 17)] := rfl
    exact ⟨_, List.mem_singleton_self _, .entry entries (List.mem_singleton_self _) (.node node)⟩
  · exact ⟨_, List.mem_singleton_self _, 18, rfl, .refl⟩

/-- Make a parameter with a node in its further entries, and read the schema that it has there. -/
def nestedSchema : Build Value := do
  let node ← Call.invoke Delivered.unloaded (.construct .string .asBuilt) [] []
  let media ← newMapping [(.str "schema", node)]
  let extra ← newMapping [(.str "content", media)]
  let parameter ← Call.invoke Delivered.unloaded .parameter
    [.str "a", .str "query", node, .none, extra] []
  let content ← Call.invoke Delivered.unloaded .getItem [parameter, .str "content"] []
  Call.invoke Delivered.unloaded .getItem [content, .str "schema"] []

/-- Make a parameter, write to the mapping in its further entries, and read what it has there. -/
def writtenContent : Build Value := do
  let media ← newMapping [(.str "example", .int 1)]
  let extra ← newMapping [(.str "content", media)]
  let schema ← newMapping []
  let parameter ← Call.invoke Delivered.unloaded .parameter
    [.str "a", .str "query", schema, .none, extra] []
  let _ ← Call.invoke Delivered.unloaded .setItem [media, .str "example", .int 2] []
  let content ← Call.invoke Delivered.unloaded .getItem [parameter, .str "content"] []
  Call.invoke Delivered.unloaded .getItem [content, .str "example"] []

/-- A parameter has a node of its further entries as it is, and shows what is written to them
later. -/
theorem nested_unlike :
    (match nestedSchema.run World.initial with
      | .ok schema w => (Node.parts? w schema).isSome
      | .error _ _ => false) = true ∧
    (match writtenContent.run World.initial with
      | .ok shown _ => some shown
      | .error _ _ => none) = some (.int 2) :=
  ⟨by decide +kernel, by decide +kernel⟩

end Parameter
end OpenApiDoc
