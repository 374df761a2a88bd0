import OpenApiDoc.Proofs.Embedded
import OpenApiDoc.Proofs.Modifiers

/-! # Objects of every mapping

The object constructor takes a mapping whose keys may be anything and whose values are schemas. It
refuses the first key that is no text. Otherwise it lists every child under its name and requires
those that are not optional, unless further entries say something else.

* `Schema.Children` are the mappings in question; `Schema.neededKeys` are the keys of the children that
  are not optional.
* `Schema.IsObject` says what stands under each name in the schema of an object.
* `Schema.object_outcome`: how a call of the constructor ends. -/

namespace OpenApiDoc

open World Build

variable {w w' : World}

/-- The value is a text. -/
def Value.isText : Value → Bool
  | .str _ => true
  | _ => false

theorem Value.isText_iff {v : Value} : v.isText = true ↔ ∃ s, v = .str s := by
  unfold isText
  split <;> simp_all

/-- Entries whose keys are texts are entries under names. -/
theorem Entries.exists_named {es : Entries} (h : ∀ e ∈ es, e.1.isText) : ∃ fs, es = named fs := by
  induction es with
  | nil => exact ⟨[], rfl⟩
  | cons e es ih =>
      rw [List.forall_mem_cons] at h
      obtain ⟨s, hs⟩ := Value.isText_iff.mp h.1
      obtain ⟨fs, rfl⟩ := ih h.2
      exact ⟨(s, e.2) :: fs, by simp [named, ← hs]⟩

namespace Schema

/-! ### Children -/

/-- A node or a mapping that is data. -/
structure IsChild (w : World) (x : Value) : Prop where
  data : w.IsData x
  kind : (Node.parts? w x).isSome ∨ (x.mapping? w).isSome

/-- The entries of a mapping of children. -/
structure Children (w : World) (v : Value) (es : Entries) : Prop where
  mapping : v.mapping? w = some es
  distinct : (es.map (·.1)).Nodup
  each : ∀ e ∈ es, IsChild w e.2

/-- What a child is emitted as. -/
theorem IsChild.emit? {x : Value} (h : IsChild w x) : (w.tree x).emit? = some (w.tree x).plain := by
  rcases h.kind with node | mapping
  · cases hx : w.tree x with
    | model m fs =>
        cases m with
        | node =>
            obtain ⟨f, o, -, rfl, -⟩ := Node.parts?_of_model ⟨h.data, hx⟩
            rfl
        | operation => simp [Node.parts?_of_other ⟨h.data, hx⟩] at node
    | _ => simp [Node.parts?_of_other ⟨h.data, hx⟩] at node
  · obtain ⟨es, hm⟩ := Option.isSome_iff_exists.mp mapping
    obtain ⟨a, rfl, hg⟩ := Value.eq_obj_of_mapping? hm
    rw [h.data.tree_mapping hg]
    rfl

theorem IsChild.emits {x : Value} (h : IsChild w x) (ho : w.Owned) :
    w.Emits x (w.tree x).plain (Node.isOptional w x) := by
  intro w' k
  have shown := h.data.shows.extends k
  have denotes := Node.emit_denotes (ho.extends k) shown
  rw [h.emit?] at denotes
  exact ⟨denotes, (OpenApiDoc.isOptional_eq shown).trans (OpenApiDoc.isOptional_eq h.data.shows).symm⟩

/-- A mapping is never optional, whatever its keys are. -/
theorem isOptional_of_mapping? {x : Value} {es : Entries} (h : x.mapping? w = some es) :
    Node.isOptional w x = false := by
  obtain ⟨a, rfl, hg⟩ := Value.eq_obj_of_mapping? h
  simp [Node.isOptional, Node.parts?, hg]

/-- The keys of the children that are not optional, in their order. -/
def neededKeys (w : World) (es : Entries) : List Value :=
  (es.filter fun e => !Node.isOptional w e.2).map (·.1)

theorem neededKeys_sublist (w : World) (es : Entries) :
    (neededKeys w es).Sublist (es.map (·.1)) :=
  List.filter_sublist.map _

theorem mem_neededKeys {es : Entries} (distinct : (es.map (·.1)).Nodup) {e : Value × Value}
    (he : e ∈ es) : e.1 ∈ neededKeys w es ↔ Node.isOptional w e.2 = false := by
  constructor
  · intro h
    obtain ⟨e', he', same⟩ := List.mem_map.mp h
    obtain ⟨mem, needed⟩ := List.mem_filter.mp he'
    rw [← List.inj_on_of_nodup_map distinct mem he same]
    simpa using needed
  · exact fun h => List.mem_map_of_mem (List.mem_filter.mpr ⟨he, by simp [h]⟩)

/-- The keys of the children that an object requires: each of them once, in the order of the children,
those of plain mappings among them. -/
structure Requires (w : World) (es : Entries) (keys : List Value) : Prop where
  order : keys.Sublist (es.map (·.1))
  once : keys.Nodup
  exact : ∀ e ∈ es, e.1 ∈ keys ↔ Node.isOptional w e.2 = false
  mappings : ∀ e ∈ es, (e.2.mapping? w).isSome → e.1 ∈ keys

theorem requires_neededKeys {es : Entries} (distinct : (es.map (·.1)).Nodup) :
    Requires w es (neededKeys w es) where
  order := neededKeys_sublist w es
  once := (neededKeys_sublist w es).nodup distinct
  exact _ he := mem_neededKeys distinct he
  mappings e he mapping := by
    obtain ⟨fs, hm⟩ := Option.isSome_iff_exists.mp mapping
    exact (mem_neededKeys distinct he).mpr (isOptional_of_mapping? hm)

/-- The names of children with their views and flags. -/
def childViews (w : World) (fs : List (String × Value)) : List (String × Tree × Bool) :=
  fs.map fun f => (f.1, (w.tree f.2).plain, Node.isOptional w f.2)

theorem emitsAll_of_children (ho : w.Owned) {fs : List (String × Value)}
    (h : ∀ f ∈ fs, IsChild w f.2) : w.EmitsAll fs (childViews w fs) := by
  rw [EmitsAll, Entries.Paired, childViews, List.forall₂_map_right_iff, List.forall₂_same]
  exact fun f hf => ⟨rfl, (h f hf).emits ho⟩

theorem neededNames_childViews (fs : List (String × Value)) :
    (neededNames (childViews w fs)).map Value.str = neededKeys w (Entries.named fs) := by
  simp [neededNames, childViews, neededKeys, Entries.named, List.filter_map, Function.comp_def]

/-! ### The schema of an object -/

/-- What stands under each name in the schema of an object: first what further entries say, then what
is generated from the children and the description. -/
structure IsObject (w : World) (es : Entries) (description : Tree) (us ts : List (String × Tree)) :
    Prop where
  laid : ∀ n t, us.lookup n = some t → ts.lookup n = some t.plain
  type : us.lookup "type" = none → ts.lookup "type" = some (.str "object")
  closed : us.lookup "additionalProperties" = none →
    ts.lookup "additionalProperties" = some (.bool false)
  properties : us.lookup "properties" = none → ts.lookup "properties" =
    some (.mapping (es.map fun e => (w.tree e.1, (w.tree e.2).plain.plain)))
  required : us.lookup "required" = none → ∃ keys, Requires w es keys ∧ ts.lookup "required" =
    if keys = [] then none else some (.list (keys.map w.tree))
  described : us.lookup "description" = none → ts.lookup "description" =
    if description.isNone then none else some description.plain
  others : ∀ n, n ∉ ["type", "additionalProperties", "required", "properties", "description"] →
    us.lookup n = none → ts.lookup n = none

/-- A field that has no value is not there, and the others are. -/
theorem lookup_present {fs : List (String × Tree)} (distinct : Entries.Distinct fs) (n : String) :
    (present fs).lookup n = (fs.lookup n).filter fun t => !t.isNone :=
  Entries.lookup_filter (fun t : Tree => !t.isNone) distinct n

/-- What stands under a name that no further field has. -/
theorem lookup_free {fs us : List (String × Tree)} (distinct : Entries.Distinct fs) {n : String}
    (free : us.lookup n = none) :
    (Tree.plainFields (Entries.overlayNames (present fs) us)).lookup n =
      ((fs.lookup n).filter fun t => !t.isNone).map Tree.plain := by
  have missing : n ∉ us.map (·.1) := by
    intro hn
    obtain ⟨u, hu, rfl⟩ := List.mem_map.mp hn
    exact absurd rfl (bne_iff_ne.mp (List.lookup_eq_none_iff.mp free u hu))
  rw [Tree.plainFields, Entries.lookup_map, Entries.lookup_overlay missing, lookup_present distinct]

theorem isObject_of_overlay {fs : List (String × Value)} (d : Tree) {us : List (String × Tree)}
    (keys : ((Entries.named fs).map (·.1)).Nodup) (distinct : Entries.Distinct us) :
    IsObject w (Entries.named fs) d us
      (Tree.plainFields (Entries.overlayNames (present (objectFields (childViews w fs) d)) us)) := by
  have fresh : Entries.Distinct (objectFields (childViews w fs) d) := by
    simp [Entries.Distinct, objectFields]
  have free {n : String} (h : us.lookup n = none) := lookup_free fresh h
  have names : (neededKeys w (Entries.named fs)).map w.tree =
      (neededNames (childViews w fs)).map Tree.str := by
    rw [← neededNames_childViews, List.map_map]
    rfl
  have empty : neededKeys w (Entries.named fs) = [] ↔ neededNames (childViews w fs) = [] := by
    rw [← neededNames_childViews, List.map_eq_nil_iff]
  refine ⟨fun n t h => ?_, fun h => (free h).trans rfl, fun h => (free h).trans rfl,
    fun h => (free h).trans ?_, fun h => ⟨_, requires_neededKeys keys, (free h).trans ?_⟩,
    fun h => (free h).trans ?_, fun n hn h => (free h).trans ?_⟩
  · rw [Tree.plainFields, Entries.lookup_map, Entries.lookup_overlay_found distinct h]
    rfl
  · change some (Tree.plain (.record ((childViews w fs).map fun m => (m.1, m.2.1)))) = _
    rw [Tree.plain_record]
    simp [childViews, Entries.named, Tree.record, Function.comp_def]
  · change ((some (if ((neededNames (childViews w fs)).map Tree.str).isEmpty then Tree.none
      else .list ((neededNames (childViews w fs)).map .str))).filter _).map _ = _
    rw [names]
    cases needed : neededNames (childViews w fs) with
    | nil => simp [empty, needed, Tree.isNone]
    | cons n ns => simp [empty, needed, Tree.isNone, Tree.plain_list, Function.comp_def]
  · change ((some d).filter _).map _ = _
    cases given : d.isNone <;> simp [given]
  · have other : (objectFields (childViews w fs) d).lookup n = none :=
      List.lookup_eq_none_iff.mpr fun f hf => bne_iff_ne.mpr fun h => hn <| by
        simpa [objectFields, h] using List.mem_map_of_mem (f := (·.1)) hf
    rw [other]
    rfl

/-! ### Calls -/

/-- The first key that is no text. -/
def wrongKey? (es : Entries) : Option Value := (es.map (·.1)).find? fun key => !key.isText

/-- The entries before the first key that is no text are entries under names. -/
theorem split_of_wrongKey {es : Entries} {key : Value} (h : wrongKey? es = some key) :
    (∀ s, key ≠ .str s) ∧ ∃ fs child rest, es = Entries.named fs ++ (key, child) :: rest := by
  obtain ⟨bad, front, back, split, texts⟩ := List.find?_eq_some_iff_append.mp h
  refine ⟨fun s hs => by simp [hs, Value.isText] at bad, ?_⟩
  obtain ⟨before, others, rfl, rfl, last⟩ := List.map_eq_append_iff.mp split
  obtain ⟨⟨_, child⟩, rest, rfl, rfl, -⟩ := List.map_eq_cons_iff.mp last
  obtain ⟨fs, rfl⟩ := @Entries.exists_named before (by simpa using texts)
  exact ⟨fs, child, rest, rfl⟩

theorem named_of_wrongKey {es : Entries} (h : wrongKey? es = none) :
    ∃ fs, es = Entries.named fs :=
  Entries.exists_named (by simpa [wrongKey?] using h)

variable {v : Variant} {args : List Value} {named : List (String × Value)} {b : Signature.Bound}
  {es : Entries} {us : List (String × Tree)}

/-- The variants of a constructor fail as it does. -/
theorem variant_error {c : Constructor} {f : Fault} (v : Variant)
    (h : ((Call.constructor c).run b).run w = .error f w') :
    ((Call.variant c v).run b).run w = .error f w' := by
  cases v with
  | asBuilt => exact h
  | optional | required =>
      change ((Call.constructor c).run b >>= fun n => Node.withFlag n _).run w = _
      rw [EStateM.run_bind, h]

/-- A call of the object constructor fails for the first key that is no text, and otherwise makes a
node of the children. Nothing that was there is changed. -/
theorem object_outcome (ho : w.Owned)
    (call : Call.Runs (.construct .object v) args named (Call.variant .object v) b)
    (children : Children w (b.arg "properties") es) (description : w.IsData (b.arg "description"))
    (extra : w.ShowsExtra (b.arg "extra") us) (distinct : Entries.Distinct us)
    (load : Value → Build Value) :
    match wrongKey? es with
    | some key => ∃ w', (Call.invoke load (.construct .object v) args named).run w =
        .error (.document (.propertyName key)) w' ∧ w.Extends w' ∧
        (DocumentError.propertyName key).details w' = .record [("property", .str (w'.shown key))]
    | none =>
      Gives (do
        let node ← Call.invoke load (.construct .object v) args named
        let schema ← Call.invoke load .toSchema [node] []
        return (node, schema)) w fun r w' => ∃ ts, w'.ShowsNode r.1 ts v.flag ∧
          w'.Shows r.2 (.record ts) ∧ IsObject w es (w.tree (b.arg "description")) us ts ∧
        ∀ e ∈ es, (Call.invoke load .emit [e.2] []).Gives w'
            (fun u w'' => w''.Shows u (w.tree e.2).plain) ∧
          ((w.tree e.2).NodesPlain → (w.tree e.2).plain.plain = (w.tree e.2).plain) := by
  have invoked := call.invoke load
  cases wrong : wrongKey? es with
  | some key =>
      obtain ⟨bad, fs, child, rest, split⟩ := split_of_wrongKey wrong
      have emits := emitsAll_of_children ho fun (f : String × Value) (hf : f ∈ fs) =>
        children.each (.str f.1, f.2) (by
          rw [split]
          exact List.mem_append_left _ (List.mem_map_of_mem hf))
      obtain ⟨w', refused, k⟩ := properties_refuses emits bad child rest
      refine ⟨w', ?_, k, rfl⟩
      rw [invoked]
      refine variant_error v ?_
      change ((b.arg "properties").items >>= fun es => properties es >>= _).run w = _
      rw [EStateM.run_bind, Value.items_reads children.mapping]
      simp only
      rw [EStateM.run_bind, split, refused]
  | none =>
      obtain ⟨fs, rfl⟩ := named_of_wrongKey wrong
      have each (f : String × Value) (hf : f ∈ fs) : IsChild w f.2 :=
        children.each (.str f.1, f.2) (List.mem_map_of_mem hf)
      have made : ((Call.constructor .object).run b).Gives w _ :=
        object_shows ho children.mapping (emitsAll_of_children ho each) description.shows extra
      rw [invoked]
      refine (variant_gives ho made v).bind fun n w₁ k hn => ?_
      refine (toSchema_gives load (ho.extends k) hn).bind fun u w₂ k₂ hu => .pure ?_
      refine ⟨_, hn.extends k₂, hu, isObject_of_overlay _ children.distinct distinct,
        fun e he => ⟨?_, fun plain => plain.plain_plain⟩⟩
      exact ((children.each e he).emits ho w₂ (k.trans k₂)).1

/-! ### Runs -/

/-- An optional node and a mapping, under names and under a number. -/
def mixed : World :=
  { World.initial with objects := #[.mapping [(.str "type", .str "string")], .node 0 true,
      .mapping [(.str "is_optional", .bool true)],
      .mapping [(.str "a", .obj 1), (.str "b", .obj 2)],
      .mapping [(.str "a", .obj 1), (.int 5, .obj 2), (.int 6, .obj 2)],
      .mapping [(.str "description", .str "laid")]] }

theorem object_outcome_mixed :
    mixed.Owned ∧
    (Children mixed (.obj 3) [(.str "a", .obj 1), (.str "b", .obj 2)] ∧
      Gives (do
        let node ← Call.invoke Delivered.unloaded (.construct .object .asBuilt)
          [.obj 3, .none, .obj 5] []
        let schema ← Call.invoke Delivered.unloaded .toSchema [node] []
        return (node, schema)) mixed fun r w' => ∃ ts, w'.ShowsNode r.1 ts false ∧
          w'.Shows r.2 (.record ts) ∧
          IsObject mixed [(.str "a", .obj 1), (.str "b", .obj 2)] .none
            [("description", .str "laid")] ts) ∧
    Children mixed (.obj 4) [(.str "a", .obj 1), (.int 5, .obj 2), (.int 6, .obj 2)] ∧
      ∃ w', (Call.invoke Delivered.unloaded (.construct .object .asBuilt)
        [.obj 4, .none, .obj 5] []).run mixed =
          .error (.document (.propertyName (.int 5))) w' ∧ mixed.Extends w' := by
  have owned : mixed.Owned := fun _ _ => rfl
  have fragment : mixed.IsData (.obj 0) := .obj (by decide) rfl rfl (fun _ h => nomatch h) (by
    change ∀ v ∈ [Value.str "type", .str "string"], _
    simp [IsData.atom])
  have node : IsChild mixed (.obj 1) := by
    refine ⟨.obj (by decide) rfl rfl (fun _ h => nomatch h) ?_, .inl rfl⟩
    change ∀ v ∈ [Value.obj 0], _
    simp [fragment]
  have mapping : IsChild mixed (.obj 2) := by
    refine ⟨.obj (by decide) rfl rfl (fun _ h => nomatch h) ?_, .inr rfl⟩
    change ∀ v ∈ [Value.str "is_optional", .bool true], _
    simp [IsData.atom]
  have further : mixed.IsData (.obj 5) := .obj (by decide) rfl rfl (fun _ h => nomatch h) (by
    change ∀ v ∈ [Value.str "description", .str "laid"], _
    simp [IsData.atom])
  have extra : mixed.ShowsExtra (.obj 5) [("description", .str "laid")] := .inr ⟨further, rfl⟩
  have distinct : Entries.Distinct [("description", Tree.str "laid")] := by
    simp [Entries.Distinct]
  have named : Children mixed (.obj 3) [(.str "a", .obj 1), (.str "b", .obj 2)] :=
    ⟨rfl, by decide, by simp [node, mapping]⟩
  have numbered : Children mixed (.obj 4)
      [(.str "a", .obj 1), (.int 5, .obj 2), (.int 6, .obj 2)] :=
    ⟨rfl, by decide, by simp [node, mapping]⟩
  have call (children : Value) : Call.Runs (.construct .object .asBuilt) [children, .none, .obj 5] []
      (Call.variant .object .asBuilt)
      ⟨[("properties", children), ("description", .none), ("extra", .obj 5)], []⟩ :=
    .construct rfl rfl
  refine ⟨owned, ⟨named, ?_⟩, numbered, ?_⟩
  · have made := object_outcome owned (call (.obj 3)) named (.atom .none) extra distinct
      Delivered.unloaded
    refine made.mono fun r w' _ shown => ?_
    obtain ⟨ts, node, schema, object, -⟩ := shown
    exact ⟨ts, node, schema, object⟩
  · obtain ⟨w', refused, k, -⟩ := object_outcome owned (call (.obj 4)) numbered (.atom .none) extra
      distinct Delivered.unloaded
    exact ⟨w', refused, k⟩

/-- Make an object of a child that holds itself and of one under a number. -/
def cyclicChild : Build Value := do
  let child ← newMapping []
  let _ ← Call.invoke Delivered.unloaded .setItem [child, .str "x", child] []
  let other ← newMapping []
  let children ← newMapping [(.str "a", child), (.int 5, other)]
  Call.invoke Delivered.unloaded (.construct .object .asBuilt) [children] []

/-- Make an object of a child that holds a constructor, and compare its property with the emitted
child. -/
def sealedChild : Build Value := do
  let constructor ← Build.new (.constructor .string)
  let child ← newMapping [(.str "x", .obj constructor)]
  let children ← newMapping [(.str "a", child)]
  let node ← Call.invoke Delivered.unloaded (.construct .object .asBuilt) [children] []
  let schema ← Call.invoke Delivered.unloaded .toSchema [node] []
  let properties ← Call.invoke Delivered.unloaded .getItem [schema, .str "properties"] []
  let property ← Call.invoke Delivered.unloaded .getItem [properties, .str "a"] []
  let emitted ← Call.invoke Delivered.unloaded .emit [child] []
  Call.invoke Delivered.unloaded .equal [property, emitted] []

/-- A child that holds itself ends the loop before the key that is no text, and a constructor inside a
child is another one in the property. -/
theorem object_unlike :
    (match cyclicChild.run World.initial with
      | .ok _ _ => none
      | .error f _ => some f.kind) = some "RecursionError" ∧
    (match sealedChild.run World.initial with
      | .ok outcome _ => some outcome
      | .error _ _ => none) = some (.bool false) :=
  ⟨by decide +kernel, by decide +kernel⟩

end Schema
end OpenApiDoc
