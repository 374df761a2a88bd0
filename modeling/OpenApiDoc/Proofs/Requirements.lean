import OpenApiDoc.Proofs.Flags
import OpenApiDoc.Proofs.Parameters

/-! # The names that an object requires

An object lists the names of its properties that are not optional, whatever the properties are made
of. The list is copied when the object is made, when its flag is set, and when its schema is asked for.

* `World.IsTexts` holds of a list of texts. A copy of it is a list of the same texts.
* `World.Lists` says what a mapping lists under "required", `World.NodeLists` what the fragment of a
  node does.
* `Schema.object_lists`, `Node.withFlag_lists` and `Node.schema_lists` are about the object, about the
  copy with another flag, and about the schema. -/

namespace OpenApiDoc

open Build World Copying

variable {w w' : World} {u v : Value} {keys : List Value}

/-! ### Lists of texts -/

/-- The value is a list of these keys, which are texts. -/
structure World.IsTexts (w : World) (v : Value) (keys : List Value) : Prop where
  list : ∃ l, v = .obj l ∧ w.get l = .list keys
  texts : ∀ k ∈ keys, k.isText

theorem Value.rename_texts (texts : ∀ k ∈ keys, k.isText) (ρ : Addr → Addr) :
    keys.map (Value.rename ρ) = keys := by
  refine (List.map_congr_left fun k hk => ?_).trans (List.map_id keys)
  obtain ⟨s, rfl⟩ := Value.isText_iff.mp (texts k hk)
  rfl

theorem Value.plain_texts (texts : ∀ k ∈ keys, k.isText) (n : Nat) :
    keys.mapM (Value.plainFrom n) = (pure keys : Build (List Value)) := by
  induction keys with
  | nil => rfl
  | cons k keys ih =>
      rw [List.forall_mem_cons] at texts
      obtain ⟨s, rfl⟩ := Value.isText_iff.mp texts.1
      have first : Value.plainFrom n (.str s) = (pure (.str s) : Build Value) := by cases n <;> rfl
      rw [List.mapM_cons, first, ih texts.2, pure_bind, pure_bind]

namespace World

theorem IsTexts.extends (h : w.IsTexts v keys) (k : w.Extends w') : w'.IsTexts v keys := by
  obtain ⟨⟨l, rfl, hg⟩, texts⟩ := h
  exact ⟨⟨l, rfl, (k.get l (lt_size_of_get hg (by simp))).trans hg⟩, texts⟩

theorem IsTexts.plain (h : w.IsTexts v keys) : v.plain.Gives w fun u w' => w'.IsTexts u keys := by
  obtain ⟨⟨l, rfl, hg⟩, texts⟩ := h
  refine .get_bind (.look_bind ?_)
  simp only [hg, Value.plain_texts texts, pure_bind]
  exact (Gives.new (Q := fun a w' => w'.get a = .list keys) (w.get_alloc_same _)).bind
    fun a _ _ ha => .pure ⟨⟨a, rfl, ha⟩, texts⟩

/-! ### What a mapping lists -/

/-- The mapping lists the keys under "required". If there are none, nothing may stand there. -/
def Lists (w : World) (v : Value) (keys : List Value) : Prop :=
  ∃ fs, v.mapping? w = some (Entries.named fs) ∧ Entries.Distinct fs ∧
    ((keys = [] ∧ fs.lookup "required" = none) ∨ ∃ u, fs.lookup "required" = some u ∧ w.IsTexts u keys)

theorem Mirrors.lists (h : w.Mirrors v w' u) (lists : w.Lists v keys) : w'.Lists u keys := by
  obtain ⟨fs, mapping, distinct, listed⟩ := lists
  obtain ⟨ρ, rfl, get⟩ := h
  obtain ⟨a, rfl, hg⟩ := Value.eq_obj_of_mapping? mapping
  have copied := get a ⟨a, rfl, .refl⟩
  rw [hg] at copied
  refine ⟨fs.map fun f => (f.1, f.2.rename ρ), ?_, ?_, ?_⟩
  · refine Value.mapping?_of_get (copied.trans ?_)
    simp [Object.rename, Entries.named, Function.comp_def]
  · simpa [Entries.Distinct, Function.comp_def] using distinct
  · rw [Entries.lookup_map (Value.rename ρ)]
    refine listed.imp (fun none => ⟨none.1, by rw [none.2]; rfl⟩) ?_
    rintro ⟨_, found, ⟨l, rfl, hl⟩, texts⟩
    refine ⟨_, by rw [found]; rfl, ⟨ρ l, rfl, ?_⟩, texts⟩
    have inside : w.Reaches (.obj a) l := by
      refine ⟨a, rfl, .single ?_⟩
      rw [Holds, hg]
      exact Object.mem_parts_value (List.mem_map_of_mem (Entries.mem_of_lookup found))
    rw [get l inside, hl]
    exact congrArg Object.list (Value.rename_texts texts ρ)

/-- The flag of a node does not count. -/
theorem Lists.set_flag (h : w.Lists v keys) {a f : Addr} {o : Bool} (hg : w.get a = .node f o)
    (flag : Bool) : (w.set a (.node f flag)).Lists v keys := by
  obtain ⟨fs, mapping, distinct, listed⟩ := h
  obtain ⟨b, rfl, hb⟩ := Value.eq_obj_of_mapping? mapping
  have other {c : Addr} (hc : w.get c ≠ .node f o) : (w.set a (.node f flag)).get c = w.get c :=
    w.get_set_of_ne _ fun same => hc (same ▸ hg)
  refine ⟨fs, Value.mapping?_of_get ((other (by simp [hb])).trans hb), distinct,
    listed.imp_right ?_⟩
  rintro ⟨u, found, ⟨l, rfl, hl⟩, texts⟩
  exact ⟨_, found, ⟨l, rfl, (other (by simp [hl])).trans hl⟩, texts⟩

/-- The fragment of the node lists the keys. -/
def NodeLists (w : World) (v : Value) (keys : List Value) : Prop :=
  ∃ f o, Node.parts? w v = some (f, o) ∧ w.Lists (.obj f) keys

end World

/-! ### Nodes of fields -/

/-- Entries that stand under the names of fields are fields. -/
theorem Entries.paired_of_entries {R : Value → Value → Prop} {fs : List (String × Value)}
    {es : Entries} (h : List.Forall₂ (fun f e => ∃ u, e = (.str f.1, u) ∧ R f.2 u) fs es) :
    ∃ gs, es = named gs ∧ Paired R fs gs := by
  induction h with
  | nil => exact ⟨[], rfl, .nil⟩
  | @cons f e fs es hfe _ ih =>
      obtain ⟨u, rfl, hu⟩ := hfe
      obtain ⟨gs, rfl, paired⟩ := ih
      exact ⟨(f.1, u) :: gs, rfl, .cons ⟨rfl, hu⟩ paired⟩

namespace Node

variable {fs : List (String × Value)} {o : Bool}

/-- Lists of texts among the fields are copied to lists of the same texts. -/
def Copies (w : World) (fs : List (String × Value)) (w' : World) (gs : List (String × Value)) : Prop :=
  Entries.Paired (fun v u => ∀ keys, w.IsTexts v keys → w'.IsTexts u keys) fs gs

theorem own_copies (hw : w.Tidy) (has : ∀ f ∈ fs, w.Has f.2) {a : Addr}
    (run : (own fs).run w = .ok a w') :
    ∃ gs, w'.get a = .mapping (Entries.named gs) ∧ Copies w fs w' gs := by
  obtain ⟨es, w₁, made, run⟩ := bind_ok run
  cases run
  have k := w₁.extends_alloc (.mapping es)
  have each (f : String × Value) (hf : f ∈ fs) (w₂ : World) (k : w.Extends w₂) :
      Build.Keeps (Encloses .empty) (do return (Value.str f.1, ← f.2.plain)) w₂ fun e w₃ =>
        ∃ u, e = (.str f.1, u) ∧ ∀ keys, w.IsTexts f.2 keys → w₃.IsTexts u keys := by
    have copied : f.2.plain.Keeps (Encloses .empty) w₂ fun u w₃ =>
        ∀ keys, w.IsTexts f.2 keys → w₃.IsTexts u keys :=
      (Value.plain_grown ((has f hf).mono k.size)).of_run fun _ u w₃ run keys texts =>
        ((texts.extends k).plain.ok run).2
    exact copied.bind fun u w₃ _ hu => .pure ⟨u, rfl, hu⟩
  have stays (f : String × Value) (e : Value × Value) (w₂ w₃ : World)
      (h : ∃ u, e = (.str f.1, u) ∧ ∀ keys, w.IsTexts f.2 keys → w₂.IsTexts u keys)
      (k : w₂.Extends w₃) :
      ∃ u, e = (.str f.1, u) ∧ ∀ keys, w.IsTexts f.2 keys → w₃.IsTexts u keys := by
    obtain ⟨u, rfl, hu⟩ := h
    exact ⟨u, rfl, fun keys texts => (hu keys texts).extends k⟩
  obtain ⟨-, -, all⟩ := (Keeps.mapM stays each).ok hw.encloses_empty made
  obtain ⟨gs, rfl, paired⟩ := Entries.paired_of_entries
    (R := fun v u => ∀ keys, w.IsTexts v keys → w₁.IsTexts u keys) all
  exact ⟨gs, w₁.get_alloc_same _, paired.imp fun _ _ h =>
    ⟨h.1, fun keys texts => (h.2 keys texts).extends k⟩⟩

theorem ofEntries_copies (hw : w.Tidy) (has : ∀ f ∈ fs, w.Has f.2) (distinct : Entries.Distinct fs)
    (run : (ofEntries (Entries.named fs) o).run w = .ok u w') :
    ∃ f gs, parts? w' u = some (f, o) ∧ w'.get f = .mapping (Entries.named gs) ∧
      Copies w fs w' gs := by
  have entries : OpenEntries .empty w (Entries.named fs) := by
    intro e he
    obtain ⟨f, hf, rfl⟩ := List.mem_map.mp he
    exact ⟨.atom _, (has f hf).open_empty⟩
  obtain ⟨m, w₁, made, run⟩ := bind_ok run
  obtain ⟨k, closed, -⟩ := (newMapping_keeps entries).ok hw.encloses_empty made
  have mapping : m.mapping? w₁ = some (Entries.named fs) := by
    cases made
    exact Value.mapping?_of_get (w.get_alloc_same _)
  obtain ⟨_, _, read, run⟩ := bind_ok run
  cases read
  simp only [fragment_given mapping distinct, flag_given] at run
  obtain ⟨c, w₂, owned, run⟩ := bind_ok run
  obtain ⟨f, w₃, owned, last⟩ := bind_ok owned
  cases last
  obtain ⟨gs, hg, copies⟩ := own_copies closed.tidy (fun f hf => (has f hf).mono k.size) owned
  cases run
  have k₂ := w₂.extends_alloc (.node f o)
  refine ⟨f, gs, ?_, (k₂.get f (lt_size_of_mapping hg)).trans hg, copies.imp fun _ _ h =>
    ⟨h.1, fun keys texts => (h.2 keys (texts.extends k)).extends k₂⟩⟩
  have node : (w₂.alloc (.node f o)).2.get w₂.size = .node f o := w₂.get_alloc_same _
  show parts? (w₂.alloc (.node f o)).2 (.obj w₂.size) = some (f, o)
  simp [parts?, node]

end Node

/-! ### Objects -/

namespace Schema

variable {fs us : List (String × Value)} {es : Entries} {description extra : Value}

theorem neededKeys_extends (has : ∀ e ∈ es, w.Has e.2) (k : w.Extends w') :
    neededKeys w' es = neededKeys w es := by
  refine congrArg (List.map Prod.fst) (List.filter_congr fun e he => ?_)
  have same : Node.parts? w' e.2 = Node.parts? w e.2 := by
    cases h : e.2 with
    | atom a => rfl
    | obj a => simp [Node.parts?, k.get a (show w.Has (.obj a) from h ▸ has e he)]
  simp [Node.isOptional, same]

theorem neededKeys_texts (fs : List (String × Value)) :
    ∀ k ∈ neededKeys w (Entries.named fs), k.isText := by
  intro k hk
  obtain ⟨e, he, rfl⟩ := List.mem_map.mp hk
  obtain ⟨f, -, rfl⟩ := List.mem_map.mp (List.mem_filter.mp he).1
  rfl

/-- The loop over the children collects the keys of those that are not optional. -/
theorem properties_needed (has : ∀ e ∈ es, w.Has e.2) (acc : Entries × List Value) :
    (es.foldlM property acc).Keeps (Encloses .empty) w fun p _ =>
      p.2 = acc.2 ++ neededKeys w es := by
  induction es generalizing w acc with
  | nil => exact .pure (by simp [neededKeys])
  | cons e es ih =>
      obtain ⟨key, x⟩ := e
      rw [List.forall_mem_cons] at has
      rw [List.foldlM_cons]
      have first : (property acc (key, x)).Keeps (Encloses .empty) w fun p _ =>
          p.2 = acc.2 ++ neededKeys w [(key, x)] := by
        unfold property
        split
        · refine (Node.emit_keeps has.1.open_empty).bind fun u w₁ k _ => .get_bind (.pure ?_)
          have same : neededKeys w₁ [(key, x)] = neededKeys w [(key, x)] :=
            neededKeys_extends (by simpa using has.1) k
          rw [← same]
          cases flag : Node.isOptional w₁ x <;> simp [neededKeys, flag]
        · exact .throw _
      refine first.bind fun p w₁ k hp => ?_
      refine (ih (fun e he => (has.2 e he).mono k.size) p).mono fun q _ _ _ hq => ?_
      have split : neededKeys w ((key, x) :: es) = neededKeys w [(key, x)] ++ neededKeys w es := by
        rw [neededKeys, neededKeys, neededKeys, ← List.map_append, ← List.filter_append,
          List.singleton_append]
      rw [hq, hp, neededKeys_extends has.2 k, split, List.append_assoc]

/-- A node lists what its fields list, if further entries do not. -/
theorem node_lists (hw : w.Tidy) (has : ∀ f ∈ fs, w.Has f.2) (distinct : Entries.Distinct fs)
    {needed : Value} (found : fs.lookup "required" = some needed)
    (listed : (keys = [] ∧ needed = .none) ∨ w.IsTexts needed keys)
    (further : w.IsFurther extra us) (unset : "required" ∉ us.map (·.1))
    (run : (node fs extra).run w = .ok u w') : w'.NodeLists u keys := by
  have laid : extra.furtherOrEmpty.Reads w (Entries.named us) := by
    rcases further with ⟨rfl, rfl⟩ | mapping
    · rfl
    · obtain ⟨a, rfl, hg⟩ := Value.eq_obj_of_mapping? mapping
      exact furtherOrEmpty_reads hg
  obtain ⟨_, _, entries, run⟩ := bind_ok run
  cases laid.symm.trans entries
  obtain ⟨_, _, here, last⟩ := bind_ok run
  cases here
  rw [Entries.overlay_named] at last
  let generated := fs.filter fun f => !f.2.isNone
  have kept : Entries.Distinct generated := distinct.sublist (List.filter_sublist.map _)
  have given : ∀ f ∈ Entries.overlayNames generated us, w.Has f.2 :=
    Entries.forall_value_overlay (fun g hg => has g (List.mem_filter.mp hg).1) (further.has hw)
  obtain ⟨f, gs, parts, hg, copies⟩ := Node.ofEntries_copies hw given (kept.overlay us) last
  have standing : (Entries.overlayNames generated us).lookup "required" =
      (some needed).filter fun v => !v.isNone := by
    rw [Entries.lookup_overlay unset, Entries.lookup_filter (fun v => !v.isNone) distinct, found]
  have names : Entries.Distinct gs := by
    rw [Entries.Distinct, ← copies.keys]
    exact kept.overlay us
  refine ⟨f, false, parts, gs, Value.mapping?_of_get hg, names, ?_⟩
  rcases listed with ⟨none, rfl⟩ | texts
  · have missing := copies.lookup "required"
    rw [standing, Option.filter_some, if_neg (by simp [Value.isNone])] at missing
    refine .inl ⟨none, ?_⟩
    cases h : gs.lookup "required" with
    | none => rfl
    | some v => rw [h] at missing; cases missing
  · obtain ⟨l, rfl, -⟩ := texts.list
    obtain ⟨v, hv, copied⟩ := copies.lookup_left standing
    exact .inr ⟨v, hv, copied keys texts⟩

/-- An object lists the names of the children that are not optional. -/
theorem object_lists (hw : w.Tidy) {children : Value}
    (mapping : children.mapping? w = some (Entries.named fs)) (described : w.Has description)
    (further : w.IsFurther extra us) (unset : "required" ∉ us.map (·.1))
    (run : (object children description extra).run w = .ok u w') :
    w'.NodeLists u (neededKeys w (Entries.named fs)) := by
  have has : ∀ e ∈ Entries.named fs, w.Has e.2 := fun e he => hw.has_entry mapping he
  obtain ⟨_, _, read, run⟩ := bind_ok run
  cases (Value.items_reads mapping).symm.trans read
  obtain ⟨p, w₁, looped, run⟩ := bind_ok run
  have entries : OpenEntries .empty w (Entries.named fs) := by
    intro e he
    obtain ⟨f, -, rfl⟩ := List.mem_map.mp he
    exact ⟨.atom _, (has _ he).open_empty⟩
  obtain ⟨k₁, closed₁, opened⟩ := (properties_keeps entries).ok hw.encloses_empty looped
  have needed : p.2 = neededKeys w (Entries.named fs) := by
    simpa using ((properties_needed has ([], [])).ok hw.encloses_empty looped).2.2
  obtain ⟨emitted, names⟩ := p
  obtain rfl : names = neededKeys w (Entries.named fs) := needed
  -- What follows is the same whether a list was made or not.
  have finish {v : Value} {w₂ : World} (k₂ : w₁.Extends w₂) (closed₂ : w₂.Encloses .empty)
      (hv : w₂.Has v) (listed : (neededKeys w (Entries.named fs) = [] ∧ v = .none) ∨
        w₂.IsTexts v (neededKeys w (Entries.named fs)))
      (run : EStateM.run (do
        node [("type", .str "object"), ("additionalProperties", .bool false), ("required", v),
          ("properties", ← newMapping emitted), ("description", description)] extra) w₂ =
        .ok u w') : w'.NodeLists u (neededKeys w (Entries.named fs)) := by
    obtain ⟨m, w₃, made, last⟩ := bind_ok run
    obtain ⟨k₃, closed₃, -, hm⟩ := (newMapping_keeps (opened.1.mono k₂)).ok closed₂ made
    have k := (k₁.trans k₂).trans k₃
    refine node_lists closed₃.tidy ?_ (by simp [Entries.Distinct]) rfl
      (listed.imp_right fun texts => texts.extends k₃) (further.extends k) unset last
    simp only [List.forall_mem_cons]
    exact ⟨trivial, trivial, hv.mono k₃.size, hm.open.has, described.mono k.size, by simp⟩
  by_cases none : neededKeys w (Entries.named fs) = []
  · simp only [none, List.isEmpty_nil, if_true, pure_bind] at run
    exact finish (v := .none) (.refl _) closed₁ trivial (.inl ⟨none, rfl⟩) run
  · simp only [List.isEmpty_iff, none, if_false] at run
    obtain ⟨v, w₂, listed, rest⟩ := bind_ok run
    obtain ⟨k₂, closed₂, usable⟩ := (newList_keeps opened.2).ok closed₁ listed
    refine finish k₂ closed₂ usable.open.has (.inr ⟨?_, neededKeys_texts fs⟩) rest
    cases listed
    exact ⟨_, rfl, w₁.get_alloc_same _⟩

end Schema

/-! ### Copies and schemas of nodes -/

namespace Node

/-- A copy with another flag lists what the node does. -/
theorem withFlag_lists (hw : w.Tidy) (h : w.NodeLists v keys) (o : Bool) :
    (withFlag v o).Gives w fun u w' => w'.NodeLists u keys := by
  obtain ⟨f, flag, parts, lists⟩ := h
  obtain ⟨a, rfl, hg⟩ := parts?_eq parts
  -- The node with the other flag is what is copied.
  have lt : a < w.size := lt_size_of_get hg (by simp)
  have hd := (hw.encloses_empty.set_flag hg o).tidy.copyable
  have same : (w.set a (.node f o)).get a = .node f o := w.get_set_same (.node f o) lt
  have inside : a < (w.set a (.node f o)).size := (w.size_set a (.node f o)).symm ▸ lt
  have reaches : (w.set a (.node f o)).Reaches (.obj a) f :=
    ⟨a, rfl, .single (by simp [Holds, same, Object.parts])⟩
  have copy := copyNode_gives hd inside
  refine .get_bind ?_
  simp only [parts]
  refine copy.bind ?_
  rintro b w' - ⟨m, image, found⟩
  have copied : Copied (w.set a (.node f o)) (· < (w.set a (.node f o)).size) m a :=
    ⟨inside, .inr ⟨b, found⟩⟩
  have target : target m a = b := by simp [target, found]
  have node : w'.get b = .node (Copying.target m f) o := by
    rw [← target, image.get hd copied, same]
    rfl
  refine .pure ⟨Copying.target m f, o, by simp [parts?, node], ?_⟩
  exact (image.mirrors hd (image.copied_of_reaches hd copied reaches)).lists (lists.set_flag hg o)

theorem schema_lists (hw : w.Tidy) (load : Value → Build Value) (h : w.NodeLists v keys) :
    (Call.invoke load .toSchema [v] []).Gives w fun u w' => w'.Lists u keys := by
  obtain ⟨f, flag, parts, lists⟩ := h
  obtain ⟨a, rfl, hg⟩ := parts?_eq parts
  refine .get_bind ?_
  simp only [parts]
  have fragment : f < w.size := hw.part a f (by simp [Holds, hg, Object.parts])
  exact (hw.schema fragment).mono fun u w' _ hu => hu.1.lists lists

end Node
end OpenApiDoc
