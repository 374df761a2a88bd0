import OpenApiDoc.Proofs.Separation
import OpenApiDoc.Proofs.Kinds

/-! # What schemas are made of

Nodes that are made of parts are parts themselves, and what is emitted for them is JSON.

* `Build.Yields` is about steps that may fail: they change nothing that was there, and what they give
  has a property.
* `World.IsSchematic` says that a value is a node or a mapping and is made of parts.
* Every constructor of schemas, every modifier and every merge of such values gives one again, by
  `Node.ofFields_yields`: the fragment of a node is a plain copy, whatever parts it is made of.
* `Composition.part` is what the constructors put together. -/

namespace OpenApiDoc

open Build World

variable {w w' : World} {K : Kind}

/-- The step changes nothing that was there, and if it gives a result, `Q` holds of it. -/
abbrev Build.Yields {α : Type} (act : Build α) (w : World) (Q : α → World → Prop) : Prop :=
  act.Keeps Owned w Q

theorem Build.Keeps.of_gives {α : Type} {act : Build α} {Q : α → World → Prop}
    (h : w.Owned → act.Gives w Q) : act.Yields w Q :=
  .from fun ho => (h ho).keeps fun _ _ ho k hq => ⟨ho.extends k, hq⟩

theorem Tree.OfKind.record {fs : List (String × Tree)} (h : ∀ f ∈ fs, f.2.OfKind K) :
    (Tree.record fs).OfKind K :=
  .mapping (List.forall_mem_map.mpr fun f _ => ⟨f.1, rfl⟩) (List.forall_mem_map.mpr h)

/-! ### Reading -/

namespace Value

theorem further_yields {v : Value} (h : w.Is K v) :
    v.further.Yields w fun es w' => w'.IsEntries K es := by
  refine .get_bind ?_
  cases hm : v.mapping? w with
  | none => exact .throw _
  | some es => exact .pure (h.entries hm)

theorem furtherOrEmpty_yields {v : Value} (h : w.Is K v) :
    v.furtherOrEmpty.Yields w fun es w' => w'.IsEntries K es := by
  refine .get_bind ?_
  split
  · exact .pure (by simp [IsEntries])
  · exact further_yields h

end Value

/-- What is read from a mapping is of its kind. -/
theorem World.Is.fields {v : Value} (h : w.Is K v) {fs : List (String × Value)}
    (hf : Field.mapping w Field.any (.value v) = .ok fs) : w.IsFields K fs := by
  obtain ⟨es, hm, hes⟩ := Field.mapping_ok hf
  intro f hmem
  obtain ⟨e, he, heq⟩ := hes f hmem
  have same : e.2 = f.2 := by simpa [Field.any] using heq
  exact same ▸ (h.entries hm e he).2

/-! ### Nodes -/

namespace World

/-- A node or a mapping that is made of parts. -/
structure IsSchematic (w : World) (v : Value) : Prop where
  part : w.Is .part v
  schema : w.IsSchema v

theorem IsSchematic.extends {v : Value} (h : w.IsSchematic v) (k : w.Extends w') :
    w'.IsSchematic v :=
  ⟨h.part.extends k, h.schema.extends k⟩

theorem Is.fragment {a f : Addr} {o : Bool} (h : w.Is .part (.obj a)) (hg : w.get a = .node f o) :
    w.Is Kind.part.plain (.obj f) := by
  refine ⟨h.data.part (by simp [hg, Object.parts]), ?_⟩
  have kind := h.kind
  rw [h.data.tree_node hg] at kind
  cases kind with
  | node _ fragment => exact fragment

theorem IsSchematic.of_node {a f : Addr} {o : Bool} (data : w.IsData (.obj a))
    (hg : w.get a = .node f o) (fragment : (w.tree (.obj f)).OfKind Kind.part.plain) :
    w.IsSchematic (.obj a) := by
  refine ⟨⟨data, ?_⟩, a, rfl, .inl ⟨f, o, hg⟩⟩
  rw [data.tree_node hg]
  exact .node trivial fragment

end World

namespace Node

/-- Emitting leaves JSON. -/
theorem emit_json {v : Value} (h : w.IsSchematic v) :
    (emit v).Yields w fun u w' => w'.Is .json u :=
  .of_gives fun ho => (emit_is ho h.part h.schema).mono fun _ _ _ hu => hu.mono Kind.plain_part_le

theorem own_is (ho : w.Owned) {fs : List (String × Value)} (h : w.IsFields .part fs) :
    (own fs).Gives w fun a w' => w'.Is Kind.part.plain (.obj a) := by
  have paired : Entries.Paired w.Shows fs (fs.map fun f => (f.1, w.tree f.2)) := by
    rw [Entries.Paired, List.forall₂_map_right_iff, List.forall₂_same]
    exact fun f hf => ⟨rfl, (h f hf).data.shows⟩
  refine (own_gives ho paired).mono fun a w' _ ha => ha.is (.record ?_)
  rw [Tree.plainFields, List.map_map]
  exact List.forall_mem_map.mpr fun f hf => (h f hf).kind.plain

theorem new_node {f : Addr} (o : Bool) (h : w.Is Kind.part.plain (.obj f)) :
    (Build.new (.node f o)).Yields w fun a w' => w'.IsSchematic (.obj a) := by
  refine .new fun ho => ⟨ho.extends (w.extends_alloc _), ?_⟩
  have parts : ∀ v ∈ (Object.node f o).parts, w.IsData v := by simpa [Object.parts] using h.data
  obtain ⟨data, -⟩ := IsData.alloc ho (by rfl) parts
  exact .of_node data (w.get_alloc_same _) (h.extends (w.extends_alloc _)).kind

/-- A node of parts. -/
theorem ofFields_yields {given : List (String × Value)}
    (h : ∀ v, given.lookup "fragment" = some v → w.Is .part v) :
    (ofFields given).Yields w fun u w' => w'.IsSchematic u :=
  ofFields_rule (R := fun a w' => w'.Is Kind.part.plain (.obj a))
    (fun v _ hv hm => .of_gives fun ho => own_is ho ((h v hv).fields hm))
    fun _ o _ _ ha => new_node o ha

theorem ofEntries_yields {es : Entries} (h : w.IsEntries .part es) (o : Bool) :
    (ofEntries es o).Yields w fun u w' => w'.IsSchematic u := by
  have made : (newMapping es).Yields w fun u w' => w'.Is .part u :=
    .of_gives fun ho => (newMapping_is ho h).mono fun _ _ _ hu => hu.1
  refine made.bind fun u w₁ _ hu => ofFields_yields fun v hv => ?_
  obtain rfl : u = v := by simpa using hv
  exact hu

theorem withFlag_yields {v : Value} (h : w.Is .part v) (o : Bool) :
    (withFlag v o).Yields w fun u w' => w'.IsSchematic u := by
  refine .get_bind ?_
  cases hp : parts? w v with
  | none => cases v <;> exact .throw _
  | some p =>
      obtain ⟨a, rfl, hg⟩ := parts?_eq hp
      refine .of_gives fun ho => (h.data.copyNode ho hg o).bind fun b w₁ _ ⟨data, tree⟩ => .pure ?_
      obtain ⟨_, g, _, ⟨⟩, hb, -, fields⟩ := Shows.model ⟨data, tree⟩
      refine .of_node data hb ?_
      obtain ⟨same, -⟩ : w.tree (.obj p.1) = w₁.tree (.obj g) ∧ o = _ := by simpa using fields
      exact same ▸ (h.fragment hg).kind

theorem merge_yields {v extra : Value} (h : w.IsSchematic v) (hx : w.Is .part extra) :
    (merge v extra).Yields w fun u w' => w'.IsSchematic u := by
  refine .get_bind ?_
  cases hp : parts? w v with
  | none => exact .get_bind (.throw _)
  | some p =>
      obtain ⟨f, o⟩ := p
      obtain ⟨a, rfl, hg⟩ := parts?_eq hp
      refine .get_bind ?_
      split
      · exact .pure h
      · refine (Value.further_yields (h.part.fragment hg)).bind fun es w₁ k₁ hes => ?_
        refine (Value.further_yields (hx.extends k₁)).bind fun fs w₂ k₂ hfs => .get_bind ?_
        have own := (hes.extends k₂).mono (Kind.plain_le _)
        exact ofEntries_yields (own.overlay hfs _) o

theorem nullable_yields {v : Value} (h : w.IsSchematic v) :
    (nullable v).Yields w fun u w' => w'.IsSchematic u := by
  refine .get_bind ?_
  cases parts? w v with
  | none => exact .throw _
  | some p =>
      have flag : w.IsFields .part [("nullable", .bool true)] := by
        simpa [IsFields] using is_atom (K := .part) (a := .bool true) trivial
      refine (Keeps.of_gives fun ho => newMapping_is ho flag.named).bind fun x w₁ k ⟨hx, _⟩ => ?_
      exact merge_yields (h.extends k) hx

end Node

/-! ### Constructors -/

theorem World.mapping?_extends {v : Value} {es : Entries} (h : v.mapping? w = some es)
    (k : w.Extends w') : v.mapping? w' = some es := by
  obtain ⟨a, rfl, hg⟩ := Value.eq_obj_of_mapping? h
  rw [Value.mapping?, k.get a (lt_size_of_mapping hg), hg]

theorem newList_yields {xs : List Value} (h : ∀ x ∈ xs, w.Is K x) :
    (newList xs).Yields w fun u w' => w'.Is K u :=
  .of_gives fun ho => newList_is ho h

theorem log_yields (logger message : String) :
    (Build.record logger message).Yields w fun _ _ => True :=
  .record fun _ ho => ⟨ho, trivial⟩

/-- Mappings of parts are parts. -/
def Composition.part : Composition where
  inv := Owned
  key _ k := ∃ s, k = .str s
  value w := w.Is .part
  made w := w.Is .part
  key_text _ s := ⟨s, rfl⟩
  value_text _ _ := is_atom trivial
  value_flag _ _ := is_atom trivial
  value_none _ := is_atom trivial
  key_extends h _ := h
  value_extends h k := h.extends k
  value_of_made h := h
  mapping h := .of_gives fun ho => (newMapping_is ho h).mono fun _ _ _ hu => hu.1
  list := newList_yields
  logs logger message _ := log_yields logger message

namespace Composition

theorem nodes_schematic : part.Nodes fun _ u w' => w'.IsSchematic u where
  entries h o := Node.ofEntries_yields h o
  since h _ := h

theorem further_part {v : Value} (h : w.Is .part v) : part.Further w v :=
  fun _ k => Value.furtherOrEmpty_yields (h.extends k)

theorem supplies_part {v : Value} (h : w.IsSchematic v) : part.Supplies w (Node.emit v) :=
  fun _ k => (Node.emit_json (h.extends k)).mono fun _ _ _ _ hu => hu.mono Kind.json_le_part

end Composition

namespace Schema

variable {description extra : Value}

theorem leaf_yields (type : String) (format : Option String) (hd : w.Is .part description)
    (hx : w.Is .part extra) :
    (leaf type format description extra).Yields w fun u w' => w'.IsSchematic u :=
  Composition.nodes_schematic.keeps_leaf type format hd (Composition.further_part hx)

theorem pattern_yields (regex : Value) (hd : w.Is .part description) (hx : w.Is .part extra) :
    (pattern regex description extra).Yields w fun u w' => w'.IsSchematic u :=
  Composition.nodes_schematic.keeps_pattern regex hd (Composition.further_part hx)

theorem constant_yields {value : Value} (hv : w.Is .part value) (hd : w.Is .part description)
    (hx : w.Is .part extra) :
    (constant value description extra).Yields w fun u w' => w'.IsSchematic u :=
  Composition.nodes_schematic.keeps_constant hv hd (Composition.further_part hx)

/-- The values of a choice are parts. -/
theorem choice_yields {values : Value} {es : Entries} (hm : values.mapping? w = some es)
    (keys : ∀ e ∈ es, w.Is .part e.1) (hx : w.Is .part extra) :
    (choice values extra).Yields w fun u w' => w'.IsSchematic u := by
  obtain ⟨a, rfl, hg⟩ := Value.eq_obj_of_mapping? hm
  have iterated : (Value.obj a).iterate.Reads w (es.map (·.1)) := by
    simp [Reads, Value.iterate, look, hg]
  refine Composition.nodes_schematic.keeps_choice (iterated.keeps ?_) (fun w' k => ?_) (Composition.further_part hx)
  · exact List.forall_mem_map.mpr keys
  · exact (Value.items_reads (mapping?_extends hm k)).keeps trivial

theorem ref_yields (target : Value) :
    (ref target).Yields w fun u w' => w'.IsSchematic u :=
  Composition.nodes_schematic.keeps_ref target

theorem array_yields {items : Value} (hi : w.IsSchematic items) (hd : w.Is .part description)
    (hx : w.Is .part extra) :
    (array items description extra).Yields w fun u w' => w'.IsSchematic u :=
  Composition.nodes_schematic.keeps_array (Composition.supplies_part hi) hd (Composition.further_part hx)

theorem object_yields {children : Value} {es : Entries} (hm : children.mapping? w = some es)
    (hes : ∀ e ∈ es, w.IsSchematic e.2) (hd : w.Is .part description) (hx : w.Is .part extra) :
    (object children description extra).Yields w fun u w' => w'.IsSchematic u :=
  Composition.nodes_schematic.keeps_object
    ((Value.items_reads hm).keeps fun e he => Composition.supplies_part (hes e he)) hd (Composition.further_part hx)

end Schema
end OpenApiDoc
