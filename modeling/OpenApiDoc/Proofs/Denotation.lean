import OpenApiDoc.Proofs.Objects
import OpenApiDoc.Proofs.Terms

/-! # Terms mean what they build

* `NodeTerm.meaning_plain`: what a term means is free of tuples and records.
* `NodeTerm.build_gives`, `SchemaTerm.build_gives`, `DataTerm.build_gives`: building a term succeeds
  and gives an object that looks as the term says, by induction on the term.
* `SchemaTerm.emitted`: emitting what was built gives the meaning. -/

namespace OpenApiDoc

/-! ### Plain meanings -/

namespace Tree

theorem plainFields_overlay (fs extra : List (String × Tree)) :
    plainFields (Entries.overlayNames fs extra) =
      Entries.overlayNames (plainFields fs) (plainFields extra) :=
  Entries.map_overlay plain fs extra

theorem plainFields_literal (fs : List (String × Tree)) :
    plainFields (Entries.literal fs) = Entries.literal (plainFields fs) :=
  plainFields_overlay [] fs

theorem plainFields_present {fs : List (String × Tree)}
    (h : ∀ f ∈ fs, f.2.plain.isNone = f.2.isNone) :
    plainFields (Schema.present fs) = Schema.present (plainFields fs) := by
  induction fs with
  | nil => rfl
  | cons f fs ih =>
      rw [List.forall_mem_cons] at h
      have rest := ih h.2
      by_cases hf : f.2.isNone = true
      · simpa [Schema.present, hf, h.1] using rest
      · simpa [Schema.present, hf, h.1] using rest

@[simp] theorem plain_text? (s : Option String) : (text? s).plain = text? s := by
  cases s <;> simp [text?, plain]

@[simp] theorem plain_atom (a : Atom) : (Tree.atom a).plain = .atom a := by
  simp [plain]

theorem plain_list (ts : List Tree) : (Tree.list ts).plain = .list (ts.map plain) := by
  simp [plain, plainItems_eq]

theorem plain_tuple (ts : List Tree) : (Tree.tuple ts).plain = .list (ts.map plain) := by
  simp [plain, plainItems_eq]

end Tree

namespace Meaning

/-- The meaning with plain fields. -/
def plain (m : Meaning) : Meaning := { m with fields := Tree.plainFields m.fields }

theorem plain_tree (m : Meaning) : m.tree.plain = m.plain.tree := Tree.plain_record m.fields

theorem plain_eq {m : Meaning} (h : Tree.plainFields m.fields = m.fields) : m.plain = m := by
  rw [plain, h]

theorem plain_generated {v : Variant} {fields extra : List (String × Tree)}
    (hf : ∀ f ∈ fields, f.2.plain = f.2) (he : Tree.plainFields extra = extra) :
    Tree.plainFields (generated v fields (Entries.literal extra)).fields =
      (generated v fields (Entries.literal extra)).fields := by
  have same : Tree.plainFields fields = fields := by
    refine (List.map_congr_left fun f hm => ?_).trans (List.map_id fields)
    simp [hf f hm]
  simp only [generated, Tree.plainFields_overlay, Tree.plainFields_literal, he]
  rw [Tree.plainFields_present fun f hm => by rw [hf f hm], same]

theorem plain_choiceFields {es : List (Tree × Tree)} (h : ∀ e ∈ es, e.1.plain.plain = e.1.plain) :
    ∀ f ∈ choiceFields es, f.2.plain = f.2 := by
  simpa [choiceFields, Tree.plain_list] using fun a b hm => h (a, b) hm

theorem plain_objectFields {properties : List (String × Meaning)}
    (h : properties.map (fun p => (p.1, p.2.plain)) = properties) (description : Option String) :
    ∀ f ∈ objectFields properties description, f.2.plain = f.2 := by
  have needed (ns : List String) (t : Tree) (ht : t = if (ns.map Tree.str).isEmpty then .none
      else .list (ns.map Tree.str)) : t.plain = t := by
    rw [ht]
    split <;> simp [Tree.plain_list]
  have record : (Tree.record (properties.map fun p => (p.1, p.2.tree))).plain =
      .record (properties.map fun p => (p.1, p.2.tree)) := by
    rw [Tree.plain_record]
    conv => rhs; rw [← h]
    simp [Function.comp_def, plain_tree]
  simp only [objectFields, List.forall_mem_cons, record, Tree.plain_text?, Tree.plain_atom]
  refine ⟨trivial, trivial, needed _ _ (by rw [List.map_map]; rfl), trivial, trivial, by simp⟩

end Meaning

mutual

theorem KeyTerm.plain_plain (k : KeyTerm) : k.view.plain.plain = k.view.plain := by
  cases k with
  | atom a => simp [KeyTerm.view]
  | moment m => simp [KeyTerm.view, Tree.plain]
  | tuple ks =>
      simp only [KeyTerm.view, Tree.plain_tuple, Tree.plain_list, KeyTerm.plainAll_plain ks]

theorem KeyTerm.plainAll_plain (ks : List KeyTerm) :
    ((KeyTerm.views ks).map Tree.plain).map Tree.plain = (KeyTerm.views ks).map Tree.plain := by
  match ks with
  | [] => rfl
  | k :: ks => simp only [KeyTerm.views, List.map_cons, k.plain_plain, KeyTerm.plainAll_plain ks]

end

theorem DataTerm.viewEntries_plain (ds : List (KeyTerm × DataTerm)) :
    ∀ e ∈ DataTerm.viewEntries ds, e.1.plain.plain = e.1.plain := by
  induction ds with
  | nil => simp [DataTerm.viewEntries]
  | cons d ds ih =>
      rw [DataTerm.viewEntries, List.forall_mem_cons]
      exact ⟨d.1.plain_plain, ih⟩

mutual

theorem NodeTerm.meaning_plain (t : NodeTerm) :
    Tree.plainFields t.meaning.fields = t.meaning.fields := by
  cases t with
  | leaf kind v description extra =>
      exact Meaning.plain_generated (by simp) (DataTerm.plainFields_plain extra)
  | pattern source compiled v description extra =>
      exact Meaning.plain_generated (by simp) (DataTerm.plainFields_plain extra)
  | constant value v description extra =>
      refine Meaning.plain_generated ?_ (DataTerm.plainFields_plain extra)
      simp [Tree.plain_list, value.plain_plain]
  | choice first rest v extra =>
      refine Meaning.plain_generated (Meaning.plain_choiceFields ?_)
        (DataTerm.plainFields_plain extra)
      refine Entries.forall_key_overlay (P := fun t : Tree => t.plain.plain = t.plain) (by simp) ?_
      rw [List.forall_mem_cons]
      exact ⟨first.1.plain_plain, DataTerm.viewEntries_plain rest⟩
  | ref target v => simp [NodeTerm.meaning]
  | array items v description extra =>
      refine Meaning.plain_generated ?_ (DataTerm.plainFields_plain extra)
      simp [Meaning.plain_tree, Meaning.plain_eq items.meaning_plain]
  | object properties v description extra =>
      refine Meaning.plain_generated (Meaning.plain_objectFields ?_ description)
        (DataTerm.plainFields_plain extra)
      rw [Entries.literal, Entries.map_overlay, SchemaTerm.meanings_plain properties]
      rfl
  | optional t => exact t.meaning_plain
  | required t => exact t.meaning_plain
  | nullable t =>
      simp only [NodeTerm.meaning, Tree.plainFields_overlay, t.meaning_plain]
      simp
  | merge t extra =>
      simp only [NodeTerm.meaning, Tree.plainFields_overlay, t.meaning_plain,
        Tree.plainFields_literal, DataTerm.plainFields_plain extra]

theorem SchemaTerm.meaning_plain (s : SchemaTerm) :
    Tree.plainFields s.meaning.fields = s.meaning.fields := by
  cases s with
  | node t => exact t.meaning_plain
  | mapping es =>
      simp only [SchemaTerm.meaning, Tree.plainFields_literal, DataTerm.plainFields_plain es]

theorem SchemaTerm.meanings_plain (ss : List (String × SchemaTerm)) :
    (SchemaTerm.meanings ss).map (fun p => (p.1, p.2.plain)) = SchemaTerm.meanings ss := by
  match ss with
  | [] => rfl
  | (name, s) :: ss =>
      simp only [SchemaTerm.meanings, List.map_cons, Meaning.plain_eq s.meaning_plain,
        SchemaTerm.meanings_plain ss]

theorem DataTerm.plain_plain (d : DataTerm) : d.plain.plain = d.plain := by
  cases d with
  | atom a => simp [DataTerm.plain]
  | moment m => simp [DataTerm.plain, Tree.plain]
  | list xs => simp only [DataTerm.plain, Tree.plain_list, DataTerm.plainAll_plain xs]
  | tuple xs => simp only [DataTerm.plain, Tree.plain_list, DataTerm.plainAll_plain xs]
  | mapping es =>
      simp only [DataTerm.plain, Tree.plain_record]
      rw [← Tree.plainFields, Tree.plainFields_literal, DataTerm.plainFields_plain es]
  | node t =>
      simp only [DataTerm.plain, Meaning.tree, Tree.plain_record]
      rw [← Tree.plainFields, t.meaning_plain]

theorem DataTerm.plainAll_plain (ds : List DataTerm) :
    (DataTerm.plainAll ds).map Tree.plain = DataTerm.plainAll ds := by
  match ds with
  | [] => rfl
  | d :: ds => simp only [DataTerm.plainAll, List.map_cons, d.plain_plain, DataTerm.plainAll_plain ds]

theorem DataTerm.plainFields_plain (ds : List (String × DataTerm)) :
    Tree.plainFields (DataTerm.plainFields ds) = DataTerm.plainFields ds := by
  match ds with
  | [] => rfl
  | (name, d) :: ds =>
      have rest := DataTerm.plainFields_plain ds
      simp only [Tree.plainFields] at rest
      simp only [DataTerm.plainFields, Tree.plainFields, List.map_cons, d.plain_plain, rest]

end

/-! ### Constructors -/

/-- The value is a schema with this meaning. -/
def World.ShowsSchema (w : World) (v : Value) (m : Meaning) : Prop :=
  w.ShowsNode v m.fields m.optional ∨
    m.optional = false ∧ ∃ ts, w.Shows v (.record ts) ∧ m.fields = Tree.plainFields ts

theorem World.ShowsSchema.extends {w w' : World} {v : Value} {m : Meaning}
    (h : w.ShowsSchema v m) (k : w.Extends w') : w'.ShowsSchema v m := by
  rcases h with h | ⟨ho, ts, h, hm⟩
  · exact .inl (h.extends k)
  · exact .inr ⟨ho, ts, h.extends k, hm⟩

namespace Schema

open World Build

variable {w : World}

theorem emit_gives (ho : w.Owned) {v : Value} {m : Meaning} (h : w.ShowsSchema v m) :
    (Node.emit v).Gives w fun u w' => w'.Shows u m.tree := by
  rcases h with h | ⟨_, ts, h, hm⟩
  · exact Node.emit_node_gives ho h.1
  · rw [Meaning.tree, hm, Tree.plainFields, ← Tree.plain_record]
    exact Node.emit_mapping_gives ho h

theorem isOptional_eq {v : Value} {m : Meaning} (h : w.ShowsSchema v m) :
    Node.isOptional w v = m.optional := by
  rcases h with h | ⟨hm, ts, h, _⟩
  · exact Node.isOptional_of_node h.1
  · rw [hm]
    exact Node.isOptional_of_mapping h

/-- A constructor makes a node of the plain fields that it generates and of those given further. -/
theorem generated_gives (ho : w.Owned) {fs : List (String × Value)} {ts us : List (String × Tree)}
    {extra : Value} (h : Entries.Paired w.Shows fs ts) (hd : Entries.Distinct ts)
    (hn : ∀ f ∈ ts, f.2.plain.isNone = f.2.isNone) (he : w.ShowsExtra extra us) :
    (node fs extra).Gives w fun v w' =>
      w'.ShowsNode v (Meaning.generated .asBuilt (Tree.plainFields ts) (Tree.plainFields us)).fields
        false := by
  refine (node_gives ho h hd he).mono fun v w' _ hv => ?_
  rwa [Tree.plainFields_overlay, Tree.plainFields_present hn] at hv

theorem textOrNone_shows (w : World) (s : Option String) : w.Shows (textOrNone s) (.text? s) := by
  cases s <;> exact shows_atom w _

theorem leaf_gives (ho : w.Owned) (type : String) (format description : Option String)
    {extra : Value} {us : List (String × Tree)} (he : w.ShowsExtra extra us) :
    (leaf type format (textOrNone description) extra).Gives w fun v w' =>
      w'.ShowsNode v (Meaning.generated .asBuilt
        [("type", .str type), ("format", .text? format), ("description", .text? description)]
        (Tree.plainFields us)).fields false := by
  have paired : Entries.Paired w.Shows
      [("type", .str type), ("format", textOrNone format), ("description", textOrNone description)]
      [("type", .str type), ("format", .text? format), ("description", .text? description)] :=
    .cons ⟨rfl, shows_atom w _⟩ (.cons ⟨rfl, textOrNone_shows w _⟩
      (.cons ⟨rfl, textOrNone_shows w _⟩ .nil))
  simpa [leaf] using generated_gives ho paired (by simp [Entries.Distinct]) (by simp) he

theorem pattern_gives (ho : w.Owned) (source : String) (compiled : Bool)
    (description : Option String) {extra : Value} {us : List (String × Tree)}
    (he : w.ShowsExtra extra us) :
    (pattern (if compiled then .atom (.pattern source) else .str source) (textOrNone description)
      extra).Gives w fun v w' => w'.ShowsNode v (Meaning.generated .asBuilt
        [("type", .str "string"), ("description", .text? description), ("pattern", .str source)]
        (Tree.plainFields us)).fields false := by
  have paired : Entries.Paired w.Shows
      [("type", .str "string"), ("description", textOrNone description), ("pattern", .str source)]
      [("type", .str "string"), ("description", .text? description), ("pattern", .str source)] :=
    .cons ⟨rfl, shows_atom w _⟩ (.cons ⟨rfl, textOrNone_shows w _⟩
      (.cons ⟨rfl, shows_atom w _⟩ .nil))
  have made := generated_gives ho paired (by simp [Entries.Distinct]) (by simp) he
  cases compiled <;> simpa [pattern] using made

theorem typeOf_eq {v : Value} {t : Tree} (h : w.Shows v t) : typeOf v = t.jsonType := by
  obtain ⟨hd, rfl⟩ := h
  cases v with
  | atom a =>
      rw [tree_atom]
      cases a <;> rfl
  | obj a =>
      have view := hd.view_tree
      cases hg : w.get a <;> simp [hg, Object.view] at view <;> rw [← view] <;> rfl

/-- The fields that a constant generates from what it looks like. -/
def constantFields (value description : Tree) : List (String × Tree) :=
  [("type", .text? value.jsonType), ("description", description), ("enum", .list [value])]

theorem constant_shows (ho : w.Owned) {value description : Value} {t d : Tree}
    (h : w.Shows value t) (hd : w.Shows description d) {extra : Value} {us : List (String × Tree)}
    (he : w.ShowsExtra extra us) : (constant value description extra).Gives w fun v w' =>
      w'.ShowsNode v
        (Tree.plainFields (Entries.overlayNames (present (constantFields t d)) us)) false := by
  refine (newList_gives ho (.cons h .nil)).bind fun l w₁ k hl => ?_
  have paired : Entries.Paired w₁.Shows
      [("type", textOrNone (typeOf value)), ("description", description), ("enum", l)]
      (constantFields t d) :=
    .cons ⟨rfl, typeOf_eq h ▸ textOrNone_shows w₁ _⟩ (.cons ⟨rfl, hd.extends k⟩
      (.cons ⟨rfl, hl⟩ .nil))
  exact node_gives (ho.extends k) paired (by simp [Entries.Distinct, constantFields]) (he.extends k)

theorem constant_gives (ho : w.Owned) {value : Value} {t : Tree} (h : w.Shows value t)
    (description : Option String) {extra : Value} {us : List (String × Tree)}
    (he : w.ShowsExtra extra us) :
    (constant value (textOrNone description) extra).Gives w fun v w' =>
      w'.ShowsNode v (Meaning.generated .asBuilt
        [("type", .text? t.jsonType), ("description", .text? description),
         ("enum", .list [t.plain])] (Tree.plainFields us)).fields false := by
  have made := constant_shows ho h (textOrNone_shows w description) he
  rw [Tree.plainFields_overlay,
    Tree.plainFields_present (by simp [constantFields, Tree.plain_list, Tree.isNone])] at made
  simpa [constantFields, Meaning.generated, Tree.plain_list] using made

theorem ref_gives (ho : w.Owned) (target : String) :
    (ref (.str target)).Gives w fun v w' =>
      w'.ShowsNode v [("$ref", .str (pointer target))] false := by
  have paired : Entries.Paired w.Shows [("$ref", .str (pointer target))]
      [("$ref", .str (pointer target))] := .cons ⟨rfl, shows_atom w _⟩ .nil
  simpa [ref] using Node.ofEntries_gives ho paired (by simp [Entries.Distinct]) false

theorem array_gives (ho : w.Owned) {items : Value} {m : Meaning} (h : w.ShowsSchema items m)
    (hm : Tree.plainFields m.fields = m.fields) (description : Option String) {extra : Value}
    {us : List (String × Tree)} (he : w.ShowsExtra extra us) :
    (array items (textOrNone description) extra).Gives w fun v w' =>
      w'.ShowsNode v (Meaning.generated .asBuilt
        [("type", .str "array"), ("description", .text? description), ("items", m.tree)]
        (Tree.plainFields us)).fields false := by
  refine (emit_gives ho h).bind fun u w₁ k hu => ?_
  have paired : Entries.Paired w₁.Shows
      [("type", .str "array"), ("description", textOrNone description), ("items", u)]
      [("type", .str "array"), ("description", .text? description), ("items", m.tree)] :=
    .cons ⟨rfl, shows_atom w₁ _⟩ (.cons ⟨rfl, textOrNone_shows w₁ _⟩ (.cons ⟨rfl, hu⟩ .nil))
  have plain : m.tree.plain = m.tree := by rw [Meaning.plain_tree, Meaning.plain_eq hm]
  have made := generated_gives (ho.extends k) paired (by simp [Entries.Distinct])
    (by simp [plain]) (he.extends k)
  simpa [plain] using made

theorem commonType_eq {ks : List Value} {ts : List Tree} (h : List.Forall₂ w.Shows ks ts) :
    commonType ks = Tree.commonType ts := by
  cases h with
  | nil => rfl
  | @cons k t ks ts h hs =>
      have all : (ks.all fun l => typeOf l == t.jsonType) =
          ts.all fun l => l.jsonType == t.jsonType := by
        induction hs with
        | nil => rfl
        | cons h' _ ih => simp only [List.all_cons, ih, typeOf_eq h']
      simp only [commonType, Tree.commonType, all, typeOf_eq h]

/-- The fields that a choice generates from its entries. Only its keys become part of it. -/
def choiceFields (w : World) (es : Entries) : List (String × Tree) :=
  [("type", .text? (commonType (es.map (·.1)))),
   ("description", .str ("\n".intercalate (es.map (choiceLine w)))),
   ("enum", .list (es.map fun e => w.tree e.1))]

theorem choice_shows (ho : w.Owned) {values : Value} {es : Entries}
    (h : values.mapping? w = some es) (full : es ≠ []) (keys : ∀ e ∈ es, w.IsData e.1)
    {extra : Value} {us : List (String × Tree)} (he : w.ShowsExtra extra us) :
    (choice values extra).Gives w fun v w' => w'.ShowsNode v
      (Tree.plainFields (Entries.overlayNames (present (choiceFields w es)) us)) false := by
  obtain ⟨a, rfl, hg⟩ := Value.eq_obj_of_mapping? h
  have held : w.isEmpty (.obj a) = false := by simpa [World.isEmpty, hg] using full
  have listed : List.Forall₂ w.Shows (es.map (·.1)) (es.map fun e => w.tree e.1) := by
    rw [List.forall₂_map_left_iff, List.forall₂_map_right_iff, List.forall₂_same]
    exact fun e he => (keys e he).shows
  have iterated : (Value.obj a).iterate.Reads w (es.map (·.1)) := by
    simp [Reads, Value.iterate, Build.look, hg]
  refine .get_bind ?_
  simp only [held]
  refine iterated.bind ((Value.items_reads h).bind (.get_bind ?_))
  refine (newList_gives ho listed).bind fun l w₁ k hl => ?_
  have paired : Entries.Paired w₁.Shows
      [("type", textOrNone (commonType (es.map (·.1)))),
       ("description", .str ("\n".intercalate (es.map (choiceLine w)))), ("enum", l)]
      (choiceFields w es) :=
    .cons ⟨rfl, textOrNone_shows w₁ _⟩ (.cons ⟨rfl, shows_atom w₁ _⟩ (.cons ⟨rfl, hl⟩ .nil))
  exact node_gives (ho.extends k) paired (by simp [Entries.Distinct, choiceFields]) (he.extends k)

theorem choice_gives (ho : w.Owned) {values : Value} {ts : List (Tree × Tree)}
    (h : w.Shows values (.mapping ts)) (full : ts ≠ []) {extra : Value}
    {us : List (String × Tree)} (he : w.ShowsExtra extra us) :
    (choice values extra).Gives w fun v w' => w'.ShowsNode v
      (Meaning.generated .asBuilt (Meaning.choiceFields ts) (Tree.plainFields us)).fields false := by
  obtain ⟨a, es, rfl, hg, hes⟩ := h.mapping
  obtain ⟨data, rfl⟩ := hes.tree
  have made := choice_shows ho (Value.mapping?_of_get hg) (by simpa using full)
    (fun e he => (data e he).1) he
  have keys : List.Forall₂ w.Shows (es.map (·.1)) (es.map fun e => w.tree e.1) := by
    rw [List.forall₂_map_left_iff, List.forall₂_map_right_iff, List.forall₂_same]
    exact fun e he => (data e he).1.shows
  have lines : es.map (choiceLine w) =
      es.map fun e => "* \x60" ++ (w.tree e.1).text ++ "\x60 - " ++ (w.tree e.2).text := rfl
  rw [Tree.plainFields_overlay,
    Tree.plainFields_present (by simp [choiceFields, Tree.plain_list, Tree.isNone])] at made
  simpa [choiceFields, Meaning.choiceFields, Meaning.generated, commonType_eq keys, lines,
    Tree.plain_list, Function.comp_def] using made

theorem emits_of_showsSchema (ho : w.Owned) {x : Value} {m : Meaning} (h : w.ShowsSchema x m) :
    w.Emits x m.tree m.optional :=
  fun _ k => ⟨emit_gives (ho.extends k) (h.extends k), isOptional_eq (h.extends k)⟩

theorem object_gives (ho : w.Owned) {children : Value} {a : Addr} {fs : List (String × Value)}
    {ms : List (String × Meaning)} (hc : children = .obj a)
    (hg : w.get a = .mapping (Entries.named fs)) (h : Entries.Paired w.ShowsSchema fs ms)
    (hm : ms.map (fun p => (p.1, p.2.plain)) = ms) (description : Option String)
    {extra : Value} {us : List (String × Tree)} (he : w.ShowsExtra extra us) :
    (object children (textOrNone description) extra).Gives w fun v w' => w'.ShowsNode v
      (Meaning.generated .asBuilt (Meaning.objectFields ms description)
        (Tree.plainFields us)).fields false := by
  subst hc
  have emits : w.EmitsAll fs (ms.map fun p => (p.1, p.2.tree, p.2.optional)) :=
    List.forall₂_map_right_iff.mpr
      (h.imp fun _ _ hs => ⟨hs.1, emits_of_showsSchema ho hs.2⟩)
  have fields : objectFields (ms.map fun p => (p.1, p.2.tree, p.2.optional)) (.text? description) =
      Meaning.objectFields ms description := by
    have names : (neededNames (ms.map fun p => (p.1, p.2.tree, p.2.optional))).map Tree.str =
        (ms.filter fun p => !p.2.optional).map fun p => Tree.str p.1 := by
      simp [neededNames, List.filter_map, Function.comp_def]
    simp only [objectFields, names, Meaning.objectFields, List.map_map, Function.comp_def]
  have plain := Meaning.plain_objectFields hm description
  have same : Tree.plainFields (Meaning.objectFields ms description) =
      Meaning.objectFields ms description := by
    refine (List.map_congr_left fun f hf => ?_).trans (List.map_id _)
    simp [plain f hf]
  have made := object_shows ho (Value.mapping?_of_get hg) emits (textOrNone_shows w description) he
  rwa [fields, Tree.plainFields_overlay,
    Tree.plainFields_present (fun f hf => by rw [plain f hf]), same] at made

end Schema

/-! ### Views of terms -/

mutual

theorem DataTerm.plain_view (d : DataTerm) : d.view.plain = d.plain := by
  cases d with
  | atom a => simp [DataTerm.view, DataTerm.plain]
  | moment m => simp [DataTerm.view, DataTerm.plain, Tree.plain]
  | list xs => simp only [DataTerm.view, DataTerm.plain, Tree.plain_list, DataTerm.plain_viewAll xs]
  | tuple xs =>
      simp only [DataTerm.view, DataTerm.plain, Tree.plain_tuple, DataTerm.plain_viewAll xs]
  | mapping es =>
      rw [DataTerm.view, Tree.plain_record, ← Tree.plainFields, Tree.plainFields_literal,
        DataTerm.plain_viewFields es, DataTerm.plain]
  | node t => rw [DataTerm.view, Tree.plain_node, DataTerm.plain, Meaning.tree]

theorem DataTerm.plain_viewAll (ds : List DataTerm) :
    (DataTerm.viewAll ds).map Tree.plain = DataTerm.plainAll ds := by
  match ds with
  | [] => rfl
  | d :: ds =>
      simp only [DataTerm.viewAll, DataTerm.plainAll, List.map_cons, d.plain_view,
        DataTerm.plain_viewAll ds]

theorem DataTerm.plain_viewFields (ds : List (String × DataTerm)) :
    Tree.plainFields (DataTerm.viewFields ds) = DataTerm.plainFields ds := by
  match ds with
  | [] => rfl
  | (name, d) :: ds =>
      have rest := DataTerm.plain_viewFields ds
      simp only [Tree.plainFields] at rest
      simp only [DataTerm.viewFields, DataTerm.plainFields, Tree.plainFields, List.map_cons,
        d.plain_view, rest]

end

theorem DataTerm.plain_extra (ds : List (String × DataTerm)) :
    Tree.plainFields (Entries.literal (DataTerm.viewFields ds)) =
      Entries.literal (DataTerm.plainFields ds) := by
  rw [Tree.plainFields_literal, DataTerm.plain_viewFields]

/-! ### Terms -/

section build

open World Build

variable {w : World} (load : Value → Build Value)

theorem literal_gives (ho : w.Owned) {fs : List (String × Value)} {ts : List (String × Tree)}
    (h : Entries.Paired w.Shows fs ts) :
    (Build.literal fs).Gives w fun u w' => w'.Shows u (.record (Entries.literal ts)) :=
  (newMapping_gives ho (showsEntries_named (Entries.Paired.overlay .nil h))).mono
    fun _ _ _ hu => hu.1

theorem literal_holds (w : World) (fs : List (String × Value)) :
    (Build.literal fs).Gives w fun u w' =>
      ∃ a, u = .obj a ∧ w'.get a = .mapping (Entries.named (Entries.literal fs)) :=
  ⟨_, _, rfl, w.extends_alloc _, w.size, rfl, w.get_alloc_same _⟩

/-- A step that goes on with further fields, once they are built. -/
theorem extra_bind {β : Type} {extra : List (String × DataTerm)} {f : Value → Build β}
    {R : β → World → Prop} (ho : w.Owned)
    (h : (DataTerm.buildFields load extra).Gives w fun fs w' =>
      Entries.Paired w'.Shows fs (DataTerm.viewFields extra))
    (hf : ∀ x w', w.Extends w' → w'.Owned →
      w'.Shows x (.record (Entries.literal (DataTerm.viewFields extra))) → (f x).Gives w' R) :
    Gives (do
      let x ← Build.literal (← DataTerm.buildFields load extra)
      f x) w R :=
  h.bind fun _ _ k hfs => (literal_gives (ho.extends k) hfs).bind fun x w₂ k₂ hx =>
    hf x w₂ (k.trans k₂) ((ho.extends k).extends k₂) hx

/-- A variant sets the flag of what its constructor makes. -/
theorem construct_gives {c : Constructor} {args : List Value} {body : Build Value}
    {fields : List (String × Tree)} (ho : w.Owned)
    (hb : ∀ v, Call.invoke load (.construct c v) args [] = match v with
      | .asBuilt => body
      | .optional => do Node.withFlag (← body) true
      | .required => do Node.withFlag (← body) false)
    (h : body.Gives w fun u w' => w'.ShowsNode u fields false) (v : Variant) :
    (Call.invoke load (.construct c v) args []).Gives w fun u w' =>
      w'.ShowsNode u fields v.flag := by
  rw [hb]
  cases v with
  | asBuilt => exact h
  | optional => exact h.bind fun u w₁ k hu => Node.withFlag_gives (ho.extends k) hu true
  | required => exact h.bind fun u w₁ k hu => Node.withFlag_gives (ho.extends k) hu false

mutual

theorem KeyTerm.build_gives (k : KeyTerm) {w : World} (ho : w.Owned) :
    k.build.Gives w fun v w' => w'.Shows v k.view := by
  cases k with
  | atom a => exact .pure (by simp [KeyTerm.view])
  | moment m =>
      exact ⟨_, _, rfl, w.extends_alloc _, .alloc ho (by simp [Object.parts]) rfl⟩
  | tuple ks =>
      exact (KeyTerm.buildAll_gives ks ho).bind fun us w₁ k hus =>
        newTuple_gives (ho.extends k) hus

theorem KeyTerm.buildAll_gives (ks : List KeyTerm) {w : World} (ho : w.Owned) :
    (KeyTerm.buildAll ks).Gives w fun vs w' => List.Forall₂ w'.Shows vs (KeyTerm.views ks) := by
  match ks with
  | [] => exact .pure .nil
  | k :: ks =>
      refine (k.build_gives ho).bind fun v w₁ e hv => ?_
      refine (KeyTerm.buildAll_gives ks (ho.extends e)).bind fun vs w₂ e₂ hvs => ?_
      exact .pure (.cons (hv.extends e₂) hvs)

end

mutual

/-- Building a term makes a node with the fields and the flag that the term means. -/
theorem NodeTerm.build_gives (t : NodeTerm) {w : World} (ho : w.Owned) :
    (t.build load).Gives w fun v w' => w'.ShowsNode v t.meaning.fields t.meaning.optional := by
  cases t with
  | leaf kind v description extra =>
      refine extra_bind load ho (DataTerm.buildFields_gives extra ho) fun x w₁ k ho₁ hx => ?_
      have made := Schema.leaf_gives ho₁ kind.type kind.format description (.inr hx)
      rw [DataTerm.plain_extra] at made
      exact construct_gives load ho₁ (fun v => by cases kind <;> cases v <;> rfl) made v
  | pattern source compiled v description extra =>
      refine extra_bind load ho (DataTerm.buildFields_gives extra ho) fun x w₁ k ho₁ hx => ?_
      have made := Schema.pattern_gives ho₁ source compiled description (.inr hx)
      rw [DataTerm.plain_extra] at made
      exact construct_gives load ho₁ (fun v => by cases v <;> rfl) made v
  | constant value v description extra =>
      refine (value.build_gives ho).bind fun u w₁ k hu => ?_
      have ho₁ := ho.extends k
      refine extra_bind load ho₁ (DataTerm.buildFields_gives extra ho₁) fun x w₂ k₂ ho₂ hx => ?_
      have made := Schema.constant_gives ho₂ (hu.extends k₂) description (.inr hx)
      rw [DataTerm.plain_extra, value.plain_view] at made
      exact construct_gives load ho₂ (fun v => by cases v <;> rfl) made v
  | choice first rest v extra =>
      refine (first.1.build_gives ho).bind fun key w₁ k hkey => ?_
      have ho₁ := ho.extends k
      refine (first.2.build_gives ho₁).bind fun text w₂ k₂ htext => ?_
      have ho₂ := ho₁.extends k₂
      refine (DataTerm.buildEntries_gives rest ho₂).bind fun es w₃ k₃ hes => .get_bind ?_
      have ho₃ := ho₂.extends k₃
      have all : w₃.ShowsEntries ((key, text) :: es)
          ((first.1.view, first.2.view) :: DataTerm.viewEntries rest) :=
        .cons ⟨hkey.extends (k₂.trans k₃), htext.extends k₃⟩ hes
      refine (newMapping_gives ho₃ (ShowsEntries.overlay .nil all)).bind
        fun values w₄ k₄ ⟨hvalues, _⟩ => ?_
      have ho₄ := ho₃.extends k₄
      refine extra_bind load ho₄ (DataTerm.buildFields_gives extra ho₄) fun x w₅ k₅ ho₅ hx => ?_
      have made := Schema.choice_gives ho₅ (hvalues.extends k₅)
        (Entries.overlay_cons_ne_nil _ _ _ _) (.inr hx)
      rw [DataTerm.plain_extra] at made
      exact construct_gives load ho₅ (fun v => by cases v <;> rfl) made v
  | ref target v =>
      exact construct_gives load ho (fun v => by cases v <;> rfl) (Schema.ref_gives ho target) v
  | array items v description extra =>
      refine (items.build_gives ho).bind fun u w₁ k hu => ?_
      have ho₁ := ho.extends k
      refine extra_bind load ho₁ (DataTerm.buildFields_gives extra ho₁) fun x w₂ k₂ ho₂ hx => ?_
      have made := Schema.array_gives ho₂ (hu.extends k₂) items.meaning_plain description (.inr hx)
      rw [DataTerm.plain_extra] at made
      exact construct_gives load ho₂ (fun v => by cases v <;> rfl) made v
  | object properties v description extra =>
      refine (SchemaTerm.buildFields_gives properties ho).bind fun ps w₁ k hps => ?_
      have ho₁ := ho.extends k
      refine (literal_holds w₁ ps).bind fun u w₂ k₂ ⟨a, ha, hg⟩ => ?_
      have ho₂ := ho₁.extends k₂
      refine extra_bind load ho₂ (DataTerm.buildFields_gives extra ho₂) fun x w₃ k₃ ho₃ hx => ?_
      have held : w₃.get a = .mapping (Entries.named (Entries.literal ps)) := by
        rw [k₃.get a (World.lt_size_of_mapping hg), hg]
      have shown : Entries.Paired w₃.ShowsSchema (Entries.literal ps)
          (Entries.literal (SchemaTerm.meanings properties)) :=
        (Entries.Paired.overlay .nil hps).imp fun _ _ ⟨hn, hs⟩ => ⟨hn, hs.extends (k₂.trans k₃)⟩
      have plain : (Entries.literal (SchemaTerm.meanings properties)).map
          (fun p => (p.1, p.2.plain)) = Entries.literal (SchemaTerm.meanings properties) := by
        rw [Entries.literal, Entries.map_overlay, SchemaTerm.meanings_plain properties]
        rfl
      have made := Schema.object_gives ho₃ ha held shown plain description (.inr hx)
      rw [DataTerm.plain_extra] at made
      exact construct_gives load ho₃ (fun v => by cases v <;> rfl) made v
  | optional t =>
      exact (t.build_gives ho).bind fun v w₁ k hv => Node.withFlag_gives (ho.extends k) hv true
  | required t =>
      exact (t.build_gives ho).bind fun v w₁ k hv => Node.withFlag_gives (ho.extends k) hv false
  | nullable t =>
      exact (t.build_gives ho).bind fun v w₁ k hv =>
        Node.nullable_gives (ho.extends k) hv t.meaning_plain
  | merge t extra =>
      refine (t.build_gives ho).bind fun v w₁ k hv => ?_
      have ho₁ := ho.extends k
      refine extra_bind load ho₁ (DataTerm.buildFields_gives extra ho₁) fun x w₂ k₂ ho₂ hx => ?_
      have node := hv.extends k₂
      obtain ⟨f, hf, _⟩ := Node.parts?_of_node node.1
      have made := Node.merge_gives ho₂ node t.meaning_plain hx
      rw [DataTerm.plain_extra] at made
      refine .get_bind ?_
      simp only [hf]
      exact made

theorem SchemaTerm.build_gives (s : SchemaTerm) {w : World} (ho : w.Owned) :
    (s.build load).Gives w fun v w' => w'.ShowsSchema v s.meaning := by
  cases s with
  | node t => exact (t.build_gives ho).mono fun v w' _ hv => .inl hv
  | mapping es =>
      refine (DataTerm.buildFields_gives es ho).bind fun fs w₁ k hfs => ?_
      refine (literal_gives (ho.extends k) hfs).mono fun v w' _ hv => .inr ⟨rfl, _, hv, ?_⟩
      exact (DataTerm.plain_extra es).symm

theorem SchemaTerm.buildFields_gives (ss : List (String × SchemaTerm)) {w : World} (ho : w.Owned) :
    (SchemaTerm.buildFields load ss).Gives w fun fs w' =>
      Entries.Paired w'.ShowsSchema fs (SchemaTerm.meanings ss) := by
  match ss with
  | [] => exact .pure .nil
  | (name, s) :: ss =>
      refine (s.build_gives ho).bind fun v w₁ e hv => ?_
      refine (SchemaTerm.buildFields_gives ss (ho.extends e)).bind fun vs w₂ e₂ hvs => ?_
      exact .pure (.cons ⟨rfl, hv.extends e₂⟩ hvs)

theorem DataTerm.build_gives (d : DataTerm) {w : World} (ho : w.Owned) :
    (d.build load).Gives w fun v w' => w'.Shows v d.view := by
  cases d with
  | atom a => exact .pure (by simp [DataTerm.view])
  | moment m =>
      exact ⟨_, _, rfl, w.extends_alloc _, .alloc ho (by simp [Object.parts]) rfl⟩
  | list xs =>
      exact (DataTerm.buildAll_gives xs ho).bind fun us w₁ k hus => newList_gives (ho.extends k) hus
  | tuple xs =>
      exact (DataTerm.buildAll_gives xs ho).bind fun us w₁ k hus => newTuple_gives (ho.extends k) hus
  | mapping es =>
      exact (DataTerm.buildFields_gives es ho).bind fun fs w₁ k hfs =>
        literal_gives (ho.extends k) hfs
  | node t => exact (t.build_gives ho).mono fun v w' _ hv => hv.1

theorem DataTerm.buildAll_gives (ds : List DataTerm) {w : World} (ho : w.Owned) :
    (DataTerm.buildAll load ds).Gives w fun vs w' =>
      List.Forall₂ w'.Shows vs (DataTerm.viewAll ds) := by
  match ds with
  | [] => exact .pure .nil
  | d :: ds =>
      refine (d.build_gives ho).bind fun v w₁ e hv => ?_
      refine (DataTerm.buildAll_gives ds (ho.extends e)).bind fun vs w₂ e₂ hvs => ?_
      exact .pure (.cons (hv.extends e₂) hvs)

theorem DataTerm.buildFields_gives (ds : List (String × DataTerm)) {w : World} (ho : w.Owned) :
    (DataTerm.buildFields load ds).Gives w fun fs w' =>
      Entries.Paired w'.Shows fs (DataTerm.viewFields ds) := by
  match ds with
  | [] => exact .pure .nil
  | (name, d) :: ds =>
      refine (d.build_gives ho).bind fun v w₁ e hv => ?_
      refine (DataTerm.buildFields_gives ds (ho.extends e)).bind fun vs w₂ e₂ hvs => ?_
      exact .pure (.cons ⟨rfl, hv.extends e₂⟩ hvs)

theorem DataTerm.buildEntries_gives (ds : List (KeyTerm × DataTerm)) {w : World} (ho : w.Owned) :
    (DataTerm.buildEntries load ds).Gives w fun es w' =>
      w'.ShowsEntries es (DataTerm.viewEntries ds) := by
  match ds with
  | [] => exact .pure .nil
  | (k, d) :: ds =>
      refine (k.build_gives ho).bind fun key w₁ e hk => ?_
      refine (d.build_gives (ho.extends e)).bind fun v w₂ e₂ hv => ?_
      have ho₂ := (ho.extends e).extends e₂
      refine (DataTerm.buildEntries_gives ds ho₂).bind fun vs w₃ e₃ hvs => ?_
      exact .pure (.cons ⟨hk.extends (e₂.trans e₃), hv.extends e₃⟩ hvs)

end

/-! ### What is emitted -/

theorem toSchema_gives (ho : w.Owned) {v : Value} {fields : List (String × Tree)} {flag : Bool}
    (h : w.ShowsNode v fields flag) :
    (Call.invoke load .toSchema [v] []).Gives w fun u w' => w'.Shows u (.record fields) := by
  obtain ⟨f, hp, hf⟩ := Node.parts?_of_node h.1
  refine .get_bind ?_
  simp only [hp]
  exact Node.schema_gives ho hf

theorem getFlag_gives {v : Value} {fields : List (String × Tree)} {flag : Bool}
    (h : w.ShowsNode v fields flag) :
    (Call.invoke load .getAttribute [v, .str "is_optional"] []).Reads w (.bool flag) := by
  obtain ⟨a, f, rfl, hg, _⟩ := h.1.node
  have bare := lookup_attribute_of_bare h.1.1.bare "is_optional"
  show (Access.getAttribute (.obj a) (.str "is_optional")).Reads w (.bool flag)
  simp [Reads, Access.getAttribute, bare, hg, Access.attributes, Object.fields?, Object.nodeFields,
    List.lookup_cons]

/-- A node that was built is emitted as its term means, and has the flag that its term means. What
was built as a schema is emitted so, too, whether it is a node or a plain mapping. -/
theorem built_as_meant (ho : w.Owned) :
    (∀ t : NodeTerm, Gives (do
        let v ← t.build load
        let schema ← Call.invoke load .toSchema [v] []
        let flag ← Call.invoke load .getAttribute [v, .str "is_optional"] []
        return (schema, flag)) w fun r w' =>
      w'.Shows r.1 t.meaning.tree ∧ r.2 = .bool t.meaning.optional) ∧
    ∀ s : SchemaTerm, Gives (do
        let v ← s.build load
        let schema ← Call.invoke load .emit [v] []
        let flag ← Call.invoke load .isOptional [v] []
        return (schema, flag)) w fun r w' =>
      w'.Shows r.1 s.meaning.tree ∧ r.2 = .bool s.meaning.optional := by
  constructor
  · intro t
    refine (t.build_gives load ho).bind fun v w₁ k hv => ?_
    refine (toSchema_gives load (ho.extends k) hv).bind fun u w₂ k₂ hu => ?_
    exact (getFlag_gives load (hv.extends k₂)).bind (.pure ⟨hu, rfl⟩)
  · intro s
    refine (s.build_gives load ho).bind fun v w₁ k hv => ?_
    refine (Schema.emit_gives (ho.extends k) hv).bind fun u w₂ k₂ hu => ?_
    have flag : (Call.invoke load .isOptional [v] []).Reads w₂ (.bool s.meaning.optional) := by
      rw [← Schema.isOptional_eq (hv.extends k₂)]
      rfl
    exact flag.bind (.pure ⟨hu, rfl⟩)

end build

theorem owned_initial : World.initial.Owned := fun _ _ => rfl

/-- An object whose second property is optional, with a node inside what is laid over it. -/
def sampleTerm : NodeTerm :=
  .object [("id", .node (.leaf .integer .asBuilt none [])),
    ("name", .node (.leaf .string .optional (some "Display name") []))] .asBuilt none
    [("not", .node (.leaf .boolean .asBuilt none [])), ("example", .tuple [.atom .none])]

theorem built_as_meant_sample :
    World.initial.Owned ∧ Build.Gives (do
        let v ← sampleTerm.build fun _ => Build.fail .endless
        let schema ← Call.invoke (fun _ => Build.fail .endless) .toSchema [v] []
        let flag ← Call.invoke (fun _ => Build.fail .endless) .getAttribute
          [v, .str "is_optional"] []
        return (schema, flag)) World.initial fun r w' =>
      w'.Shows r.1 (.record [("type", .str "object"), ("additionalProperties", .bool false),
        ("required", .list [.str "id"]),
        ("properties", .record [("id", .record [("type", .str "integer")]),
          ("name", .record [("type", .str "string"), ("description", .str "Display name")])]),
        ("not", .record [("type", .str "boolean")]), ("example", .list [.none])]) ∧
      r.2 = .bool false :=
  ⟨owned_initial, (built_as_meant _ owned_initial).1 sampleTerm⟩

end OpenApiDoc
