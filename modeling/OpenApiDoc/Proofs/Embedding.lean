import OpenApiDoc.Proofs.Arguments
import OpenApiDoc.Proofs.Carriage
import OpenApiDoc.Proofs.Denotation

/-! # Schemas in other values

What a schema is emitted as stands in the nodes, responses, bodies, parameters and documents that it
is put into.

* `Call.Runs` says which function a call comes to, and with which values.
* `World.Occurs` says where a value is in another one, `World.Occurs.plain` that its plain view stands
  there in the plain view of the other.
* `Schema.Generates` lists the fields that a constructor generates.
* `Response.response_gives`, `Response.body_gives`, `Parameter.build_gives` and
  `Document.view?_schema` are about the places of schemas. -/

namespace OpenApiDoc

open Build World

variable {w w' : World} {v x : Value}

/-! ### Calls -/

namespace Call

open Signature

variable {args : List Value} {named : List (String × Value)} {b : Bound}

/-- The function that takes operations bound to names. -/
def paths : Function := function "paths" ["ops"] [] fun b => Paths.build (b.arg "ops")

/-- A call comes to a function with these values. The helpers for one media type or one location come
to the functions that they fix an argument of. -/
inductive Runs : Callee → List Value → List (String × Value) → Function → Bound → Prop
  | construct {c : Constructor} {v : Variant} {args : List Value} {named : List (String × Value)}
      {b : Bound} (method : named.lookup itself = none)
      (fits : (variant c v).Fits args named b) :
      Runs (.construct c v) args named (variant c v) b
  | response {args : List Value} {named : List (String × Value)} {b : Bound}
      (fits : response.Fits args named b) : Runs .response args named response b
  | json {args : List Value} {named : List (String × Value)} {b₀ b : Bound}
      (outer : (fixed "json" [] .response response).Fits args named b₀)
      (free : b₀.more.lookup "type" = none) (fits : response.Fits [] (b₀.values ++ b₀.more) b) :
      Runs .json args named response b
  | requestBody {args : List Value} {named : List (String × Value)} {b : Bound}
      (fits : requestBody.Fits args named b) : Runs .requestBody args named requestBody b
  | jsonBody {args : List Value} {named : List (String × Value)} {b₀ b : Bound}
      (outer : (fixed "json_body" ["schema"] .body requestBody).Fits args named b₀)
      (free : b₀.more.lookup "type" = none) (fits : requestBody.Fits [] (b₀.values ++ b₀.more) b) :
      Runs .jsonBody args named requestBody b
  | parameter {args : List Value} {named : List (String × Value)} {b : Bound}
      (fits : parameter.Fits args named b) : Runs .parameter args named parameter b
  | parameterIn {callee : Callee} {location : String} {args : List Value}
      {named : List (String × Value)} {b₀ b : Bound}
      (known : (callee, location) ∈
        [(.pathParam, "path"), (.queryParam, "query"), (.headerParam, "header")])
      (outer : (parameterIn location).Fits args named b₀)
      (fits : parameter.Fits [b₀.arg "name", .str location, b₀.arg "schema"] b₀.more b) :
      Runs callee args named parameter b
  | operation {args : List Value} {named : List (String × Value)} {b : Bound}
      (fits : operation.Fits args named b) : Runs .operation args named operation b
  | paths {args : List Value} {named : List (String × Value)} {b : Bound}
      (fits : paths.Fits args named b) : Runs .paths args named paths b
  | document {args : List Value} {named : List (String × Value)} {b : Bound}
      (fits : document.Fits args named b) : Runs .document args named document b

/-- The call does what the function does. -/
theorem Runs.invoke {callee : Callee} {f : Function} (h : Runs callee args named f b)
    (load : Value → Build Value) : invoke load callee args named = f.run b := by
  cases h with
  | construct method fits =>
      rw [Call.invoke, Call.construct, method]
      exact fits.call
  | response fits => exact fits.call
  | requestBody fits => exact fits.call
  | parameter fits => exact fits.call
  | operation fits => exact fits.call
  | paths fits => exact fits.call
  | document fits => exact fits.call
  | json outer free fits =>
      refine outer.call.trans ?_
      simp only [fixed, free, Option.isSome_none, Bool.false_eq_true, if_false]
      exact fits.call
  | jsonBody outer free fits =>
      refine outer.call.trans ?_
      simp only [fixed, free, Option.isSome_none, Bool.false_eq_true, if_false]
      exact fits.call
  | parameterIn known outer fits =>
      simp only [List.mem_cons, Prod.mk.injEq, List.not_mem_nil, or_false] at known
      obtain ⟨rfl, rfl⟩ | ⟨rfl, rfl⟩ | ⟨rfl, rfl⟩ := known <;> exact outer.call.trans fits.call

end Call

/-! ### Occurrences -/

/-- The value occurs in another at this place, below mappings, lists and tuples. -/
inductive World.Occurs (w : World) (x : Value) : Value → List Step → Prop
  | here : Occurs w x x []
  | entry {v u : Value} {name : String} {place : List Step}
      (found : Operation.itemIn w name v = some u) (inside : Occurs w x u place) :
      Occurs w x v (.name name :: place)
  | item {v u : Value} {xs : List Value} {i : Nat} {place : List Step}
      (items : v.items? w = some xs) (found : xs[i]? = some u) (inside : Occurs w x u place) :
      Occurs w x v (.index i :: place)

theorem Tree.find?_plain (es : List (Tree × Tree)) (n : String) :
    Entries.find? same (es.map fun e => (e.1, e.2.plain)) (.str n) =
      (Entries.find? same es (.str n)).map plain := by
  induction es with
  | nil => rfl
  | cons e es ih =>
      obtain ⟨k, u⟩ := e
      by_cases h : k.same (.str n)
      · simp [Entries.find?, h]
      · simpa [Entries.find?, h] using ih

/-- The plain view of what occurs stands at its place. -/
theorem World.Occurs.plain {place : List Step} (h : w.Occurs x v place) (hv : w.IsData v) :
    (w.tree v).plain.at? place = some (w.tree x).plain := by
  induction h with
  | here => rfl
  | @entry v u name place found inside ih =>
      obtain ⟨es, hm, hf⟩ := Option.bind_eq_some_iff.mp found
      obtain ⟨a, rfl, hg⟩ := Value.eq_obj_of_mapping? hm
      obtain ⟨e, he, rfl⟩ := Call.value_of_find? hf
      rw [Tree.at?_cons, hv.tree_mapping hg, Tree.plain, Tree.plainEntries_eq, Tree.part?,
        Tree.find?_plain, Operation.find?_view, hf]
      exact ih (hv.entries hm e he).2
  | @item v u xs i place items found inside ih =>
      obtain ⟨a, rfl, hg⟩ : ∃ a, v = .obj a ∧ (w.get a = .list xs ∨ w.get a = .tuple xs) := by
        cases v with
        | atom a => cases items
        | obj a => exact ⟨a, rfl, by cases hg : w.get a <;> simp_all [Value.items?]⟩
      have part : w.IsData u := by
        refine hv.part ?_
        rcases hg with hg | hg <;> rw [hg] <;> exact List.mem_of_getElem? found
      have view : (w.tree (.obj a)).plain = .list ((xs.map w.tree).map Tree.plain) := by
        rcases hg with hg | hg
        · rw [hv.tree_list hg, Tree.plain_list]
        · rw [hv.tree_tuple hg, Tree.plain_tuple]
      rw [Tree.at?_cons, view, Tree.part?_list]
      simpa [found] using ih part

/-! ### Constructors -/

theorem World.ShowsSchema.plain {m : Meaning} (h : w.ShowsSchema x m) : (w.tree x).plain = m.tree := by
  rcases h with ⟨h, -⟩ | ⟨-, ts, h, fields⟩
  · rw [h.2, Tree.plain_node, Meaning.tree]
  · rw [h.2, Tree.plain_record, Meaning.tree, fields]

theorem World.ShowsSchema.emit? {m : Meaning} (h : w.ShowsSchema x m) :
    (w.tree x).emit? = some m.tree := by
  rcases h with ⟨h, -⟩ | ⟨-, ts, h, fields⟩
  · rw [h.2]
    rfl
  · rw [h.2, Meaning.tree, fields, ← Tree.plain_record]
    rfl

theorem World.ShowsSchema.data {m : Meaning} (h : w.ShowsSchema x m) : w.IsData x := by
  rcases h with ⟨h, -⟩ | ⟨-, ts, h, -⟩
  exacts [h.1, h.1]

theorem World.ShowsSchema.isNone {m : Meaning} (h : w.ShowsSchema x m) :
    (w.tree x).isNone = false := by
  rcases h with ⟨h, -⟩ | ⟨-, ts, h, -⟩ <;> rw [h.2] <;> rfl

namespace Schema

/-- The fields that a constructor generates from its arguments. Further entries are none of them. -/
inductive Generates (w : World) : Constructor → Signature.Bound → List (String × Tree) → Prop
  | leaf {c : Constructor} {type : String} {format d : Option String} {b : Signature.Bound}
      (kind : Call.constructor c = Call.leaf c.name type format)
      (description : b.arg "description" = textOrNone d) :
      Generates w c b
        [("type", .str type), ("format", .text? format), ("description", .text? d)]
  | pattern {source : String} {compiled : Bool} {d : Option String} {b : Signature.Bound}
      (regex : b.arg "regex" = if compiled then .atom (.pattern source) else .str source)
      (description : b.arg "description" = textOrNone d) :
      Generates w .pattern b
        [("type", .str "string"), ("description", .text? d), ("pattern", .str source)]
  | constant {t : Tree} {d : Option String} {b : Signature.Bound}
      (value : w.Shows (b.arg "value") t) (description : b.arg "description" = textOrNone d) :
      Generates w .constant b [("type", .text? t.jsonType), ("description", .text? d),
        ("enum", .list [t.plain])]
  | choice {es : List (Tree × Tree)} {b : Signature.Bound}
      (values : w.Shows (b.arg "values") (.mapping es)) (full : es ≠ []) :
      Generates w .choice b (Meaning.choiceFields es)
  | array {s : SchemaTerm} {d : Option String} {b : Signature.Bound}
      (items : w.ShowsSchema (b.arg "items") s.meaning)
      (description : b.arg "description" = textOrNone d) :
      Generates w .array b
        [("type", .str "array"), ("description", .text? d), ("items", s.meaning.tree)]
  | object {fs : List (String × Value)} {ss : List (String × SchemaTerm)} {d : Option String}
      {b : Signature.Bound} (properties : (b.arg "properties").mapping? w = some (Entries.named fs))
      (schemas : Entries.Paired w.ShowsSchema fs (SchemaTerm.meanings ss))
      (description : b.arg "description" = textOrNone d) :
      Generates w .object b (Meaning.objectFields (SchemaTerm.meanings ss) d)

/-- A constructor makes a node with what it generates and the entries laid over it. -/
theorem Generates.gives {c : Constructor} {b : Signature.Bound} {ts us : List (String × Tree)}
    (h : Generates w c b ts) (ho : w.Owned) (he : w.ShowsExtra (b.arg "extra") us) :
    ((Call.constructor c).run b).Gives w fun n w' =>
      w'.ShowsNode n (Meaning.generated .asBuilt ts (Tree.plainFields us)).fields false := by
  cases h with
  | leaf kind description =>
      rw [kind]
      show Gives (Schema.leaf _ _ (b.arg "description") (b.arg "extra")) w _
      rw [description]
      exact leaf_gives ho _ _ _ he
  | pattern regex description =>
      show Gives (Schema.pattern (b.arg "regex") (b.arg "description") (b.arg "extra")) w _
      rw [regex, description]
      exact pattern_gives ho _ _ _ he
  | constant value description =>
      show Gives (Schema.constant (b.arg "value") (b.arg "description") (b.arg "extra")) w _
      rw [description]
      exact constant_gives ho value _ he
  | choice values full => exact choice_gives ho values full he
  | array items description =>
      show Gives (Schema.array (b.arg "items") (b.arg "description") (b.arg "extra")) w _
      rw [description]
      exact array_gives ho items (SchemaTerm.meaning_plain _) _ he
  | object properties schemas description =>
      obtain ⟨a, ha, hg⟩ := Value.eq_obj_of_mapping? properties
      show Gives (Schema.object (b.arg "properties") (b.arg "description") (b.arg "extra")) w _
      rw [description]
      exact object_gives ho ha hg schemas (SchemaTerm.meanings_plain _) _ he

theorem variant_gives {c : Constructor} {b : Signature.Bound} {fields : List (String × Tree)}
    (ho : w.Owned) (h : ((Call.constructor c).run b).Gives w fun n w' =>
      w'.ShowsNode n fields false) (v : Variant) :
    ((Call.variant c v).run b).Gives w fun n w' => w'.ShowsNode n fields v.flag := by
  cases v with
  | asBuilt => exact h
  | optional => exact h.bind fun n w₁ k hn => Node.withFlag_gives (ho.extends k) hn true
  | required => exact h.bind fun n w₁ k hn => Node.withFlag_gives (ho.extends k) hn false

theorem generated_at {v : Variant} {ts us : List (String × Tree)} {n : String} {t : Tree}
    (h : (present ts).lookup n = some t) (free : n ∉ us.map (·.1)) :
    (Meaning.generated v ts (Tree.plainFields us)).tree.part? (.name n) = some t := by
  rw [Meaning.tree, Tree.part?_record, Meaning.generated, Entries.lookup_overlay, h]
  simpa [Tree.plainFields] using free

/-- What occurs in the further entries stands at its place in the node. -/
theorem extra_at {extra : Value} {v : Variant} {ts us : List (String × Tree)} {n : String}
    {place : List Step} (he : w.Shows extra (.record us)) (hd : Entries.Distinct us)
    (h : w.Occurs x extra (.name n :: place)) :
    (Meaning.generated v ts (Tree.plainFields us)).tree.at? (.name n :: place) =
      some (w.tree x).plain := by
  have plain := h.plain he.1
  rw [he.2, Tree.plain_record, Tree.at?_cons, Tree.part?_record] at plain
  obtain ⟨u, hu, inside⟩ := Option.bind_eq_some_iff.mp plain
  have distinct : Entries.Distinct (Tree.plainFields us) := by
    simpa [Entries.Distinct, Tree.plainFields, List.map_map, Function.comp_def] using hd
  rw [Meaning.tree, Tree.at?_cons, Tree.part?_record, Meaning.generated,
    Entries.lookup_overlay_found distinct hu, Option.bind_some, inside]

end Schema

/-! ### Responses and bodies -/

/-- The value is a mapping from names, with this view at the place. -/
def World.Bears (w : World) (u : Value) (place : List Step) (t : Tree) : Prop :=
  ∃ ts, w.Shows u (.record ts) ∧ Entries.Distinct ts ∧ (Tree.record ts).at? place = some t

/-- Nothing, or a mapping that is data. -/
def World.MayBeMapping (w : World) (v : Value) : Prop :=
  v = .none ∨ w.IsData v ∧ ∃ es, v.mapping? w = some es

theorem World.MayBeMapping.data (h : w.MayBeMapping v) : w.IsData v := by
  rcases h with rfl | ⟨h, -⟩
  exacts [.atom _, h]

namespace Tree

/-- A field that may be left out. -/
def IsField (name : String) (fs : List (String × Tree)) : Prop := fs = [] ∨ ∃ u, fs = [(name, u)]

theorem isField_given (name : String) (t : Tree) :
    ∃ fs, t.field? name some = some fs ∧ IsField name fs := by
  rw [field?]
  split
  · exact ⟨_, rfl, .inl rfl⟩
  · exact ⟨_, rfl, .inr ⟨t, rfl⟩⟩

end Tree

theorem World.MayBeMapping.field? (h : w.MayBeMapping v) (name : String) :
    ∃ fs, (w.tree v).field? name Tree.detached? = some fs ∧ Tree.IsField name fs := by
  rcases h with rfl | ⟨h, es, hm⟩
  · exact ⟨[], by simp [Tree.field?, Tree.isNone], .inl rfl⟩
  · obtain ⟨a, rfl, hg⟩ := Value.eq_obj_of_mapping? hm
    rw [h.tree_mapping hg]
    exact ⟨_, rfl, .inr ⟨_, rfl⟩⟩

namespace Response

/-- A media type with a schema. -/
structure Media.Holds (w : World) (m : Media) (s : Meaning) : Prop where
  schema : w.ShowsSchema m.schema s
  examples : w.MayBeMapping m.examples
  encoding : w.MayBeMapping m.encoding

theorem Media.Holds.data {m : Media} {s : Meaning} (h : m.Holds w s) : m.IsData w :=
  ⟨h.schema.data, h.examples.data, h.encoding.data⟩

theorem Media.Holds.content? {m : Media} {s : Meaning} (h : m.Holds w s) (type : String) :
    ∃ media, content? (.str type) (MediaView.of w m) = some (.record [(type, media)]) ∧
      media.part? (.name "schema") = some s.tree := by
  obtain ⟨examples, he, -⟩ := h.examples.field? "examples"
  obtain ⟨encoding, hc, -⟩ := h.encoding.field? "encoding"
  have schema : (w.tree m.schema).field? "schema" Tree.emit? = some [("schema", s.tree)] := by
    rw [Tree.field?, h.schema.isNone, h.schema.emit?]
    rfl
  refine ⟨.record ([("schema", s.tree)] ++ examples ++ encoding), ?_, ?_⟩
  · simp [Response.content?, MediaView.build?, MediaView.of, schema, he, hc, Tree.key?,
      Tree.unhashable?, Tree.record]
  · simp

/-- The place of the schema in a response or a body. -/
def schemaPlace (type : String) : List Step := [.name "content", .name type, .name "schema"]

theorem at_schemaPlace {fs : List (String × Tree)} {type : String} {media t : Tree}
    (h : fs.lookup "content" = some (.record [(type, media)]))
    (hm : media.part? (.name "schema") = some t) :
    (Tree.record fs).at? (schemaPlace type) = some t := by
  simp [schemaPlace, h, hm]

theorem response_gives {description headers links : Value} {m : Media} {s : Meaning} (type : String)
    (ho : w.Owned) (hd : w.IsData description) (hh : w.MayBeMapping headers)
    (hl : w.MayBeMapping links) (hm : m.Holds w s) :
    (response description (.str type) headers links m).Gives w fun u w' =>
      w'.Bears u (schemaPlace type) s.tree := by
  obtain ⟨ds, hds, d⟩ := Tree.isField_given "description" (w.tree description)
  obtain ⟨hs, hhs, h⟩ := hh.field? "headers"
  obtain ⟨ls, hls, l⟩ := hl.field? "links"
  obtain ⟨media, content, schema⟩ := hm.content? type
  have view : response? (w.tree description) (.str type) (w.tree headers) (w.tree links)
      (MediaView.of w m) = some (.record (ds ++ hs ++ ls ++
        [("content", .record [(type, media)])])) := by
    simp [response?, hds, hhs, hls, content]
  have made := response_denotes ho hm.data hd (.atom (.str type)) hh.data hl.data
  rw [tree_atom, view] at made
  refine Gives.mono made fun u w' _ hu => ⟨_, hu, ?_, at_schemaPlace ?_ schema⟩ <;>
    rcases d with rfl | ⟨_, rfl⟩ <;> rcases h with rfl | ⟨_, rfl⟩ <;> rcases l with rfl | ⟨_, rfl⟩ <;>
    simp [Entries.Distinct, List.lookup_cons]

theorem body_gives {description required : Value} {m : Media} {s : Meaning} (type : String)
    (ho : w.Owned) (hd : w.IsData description) (hr : w.IsData required) (hm : m.Holds w s) :
    (body (.str type) description required m).Gives w fun u w' =>
      w'.Bears u (schemaPlace type) s.tree := by
  obtain ⟨ds, hds, d⟩ := Tree.isField_given "description" (w.tree description)
  obtain ⟨media, content, schema⟩ := hm.content? type
  obtain ⟨needed, view⟩ : ∃ needed, body? (.str type) (w.tree description) (w.tree required)
      (MediaView.of w m) = some (.record (ds ++ [("required", needed),
        ("content", .record [(type, media)])])) := by
    simp only [body?, hds, content, Option.bind_eq_bind, Option.bind_some]
    exact ⟨_, rfl⟩
  have made := body_denotes ho hm.data (.atom (.str type)) hd hr
  rw [tree_atom, view] at made
  refine Gives.mono made fun u w' _ hu => ⟨_, hu, ?_, at_schemaPlace ?_ schema⟩ <;>
    rcases d with rfl | ⟨_, rfl⟩ <;> simp [Entries.Distinct, List.lookup_cons]

end Response

/-! ### Parameters -/

theorem Value.entriesOrEmpty_extra {extra : Value} {us : List (String × Tree)}
    (h : w.ShowsExtra extra us) :
    ∃ gs, extra.entriesOrEmpty.Reads w (Entries.named gs) ∧ w.ShowsFields gs us := by
  rcases h with ⟨rfl, rfl⟩ | h
  · exact ⟨[], rfl, .nil⟩
  · obtain ⟨a, gs, rfl, hg, hgs⟩ := h.record
    exact ⟨gs, Value.entriesOrEmpty_reads (Value.mapping?_of_get hg), hgs⟩

/-- A parameter holds the emitted schema, unless the further entries replace it. -/
theorem Parameter.build_gives {name location schema description extra : Value} {s : Meaning}
    {us : List (String × Tree)} (ho : w.Owned) (known : isLocation location) (hn : w.IsData name)
    (hs : w.ShowsSchema schema s) (hd : w.IsData description) (he : w.ShowsExtra extra us)
    (free : "schema" ∉ us.map (·.1)) :
    (Parameter.build name location schema description extra).Gives w fun u w' =>
      w'.Bears u [.name "schema"] s.tree := by
  obtain ⟨place, rfl⟩ : ∃ place, location = .str place := by
    unfold isLocation at known
    split at known
    · exact ⟨_, rfl⟩
    · cases known
  simp only [Parameter.build, known, Bool.not_true, Bool.false_eq_true, if_false]
  refine .get_bind ((Schema.emit_gives ho hs).bind fun emitted w₁ k he' => ?_)
  obtain ⟨gs, read, hgs⟩ := Value.entriesOrEmpty_extra (he.extends k)
  refine read.bind (.get_bind ?_)
  let described : List (String × Tree) :=
    if description.isNone then [] else [("description", w.tree description)]
  have hdescribed : w₁.ShowsFields
      (if description.isNone then [] else [("description", description)]) described := by
    simp only [described]
    split
    · exact .nil
    · exact .cons ⟨rfl, hd.shows.extends k⟩ .nil
  have first (needed : Bool) : w₁.ShowsFields
      [("name", name), ("in", .str place), ("required", .bool needed)]
      [("name", w.tree name), ("in", .str place), ("required", .bool needed)] :=
    .cons ⟨rfl, hn.shows.extends k⟩
      (.cons ⟨rfl, shows_atom _ _⟩ (.cons ⟨rfl, shows_atom _ _⟩ .nil))
  have last : w₁.ShowsFields [("schema", emitted)] [("schema", s.tree)] :=
    .cons ⟨rfl, he'⟩ .nil
  have generated (needed : Bool) := List.rel_append (List.rel_append (first needed) hdescribed) last
  rw [Entries.overlay_named]
  refine (newMapping_gives (ho.extends k)
    (showsEntries_named (Entries.Paired.overlay (generated _) hgs))).mono fun u w₂ _ hu =>
      ⟨_, hu.1, Entries.Distinct.overlay ?_ us, ?_⟩
  · simp only [described]
    split <;> simp [Entries.Distinct]
  · rw [Tree.at?_cons, Tree.part?_record, Entries.lookup_overlay free]
    simp only [described]
    split <;> simp [List.lookup_cons]

/-! ### Components -/

theorem forall₂_of_mapM {α β : Type} {f : α → Option β} {R : α → β → Prop} {xs : List α}
    (h : ∀ x ∈ xs, ∃ y, f x = some y ∧ R x y) :
    ∃ ys, xs.mapM f = some ys ∧ List.Forall₂ R xs ys := by
  induction xs with
  | nil => exact ⟨[], rfl, .nil⟩
  | cons x xs ih =>
      rw [List.forall_mem_cons] at h
      obtain ⟨y, hy, hxy⟩ := h.1
      obtain ⟨ys, hys, paired⟩ := ih h.2
      exact ⟨y :: ys, by simp [List.mapM_cons, hy, hys], .cons hxy paired⟩

/-- Nothing, or a mapping without the name among its keys. -/
def World.Lacks (w : World) (v : Value) (name : String) : Prop :=
  v = .none ∨ ∃ es, v.mapping? w = some es ∧ ∀ e ∈ es, e.1 ≠ .str name

theorem entriesOrEmpty?_of_mapping (h : w.IsData v) {es : Entries} (hm : v.mapping? w = some es) :
    (w.tree v).entriesOrEmpty? = some (es.map fun e => (w.tree e.1, w.tree e.2)) := by
  obtain ⟨a, rfl, hg⟩ := Value.eq_obj_of_mapping? hm
  rw [h.tree_mapping hg, Tree.entriesOrEmpty?]
  cases es <;> simp [Tree.isEmpty, Tree.entries?]

theorem entriesOrEmpty?_none : (w.tree .none).entriesOrEmpty? = some [] := by
  simp [Tree.entriesOrEmpty?, Tree.isEmpty, Atom.isEmpty]

theorem World.MayBeMapping.entriesOrEmpty? (h : w.MayBeMapping v) :
    ∃ us, (w.tree v).entriesOrEmpty? = some us := by
  rcases h with rfl | ⟨h, es, hm⟩
  exacts [⟨_, entriesOrEmpty?_none⟩, ⟨_, entriesOrEmpty?_of_mapping h hm⟩]

/-- The entries of what lacks the name lack it. -/
theorem World.Lacks.entriesOrEmpty? {name : String} (h : w.Lacks v name) (hv : w.IsData v) :
    ∃ us, (w.tree v).entriesOrEmpty? = some us ∧ ∀ u ∈ us, u.1 ≠ .str name := by
  rcases h with rfl | ⟨es, hm, free⟩
  · exact ⟨[], entriesOrEmpty?_none, by simp⟩
  · refine ⟨_, entriesOrEmpty?_of_mapping hv hm, fun u hu named => ?_⟩
    obtain ⟨e, he, rfl⟩ := List.mem_map.mp hu
    exact free e he (Shows.atom ⟨(hv.entries hm e he).1, named⟩)

namespace Document

theorem spares_of_lacks {a : Arguments} {name : String} (h : w.Lacks a.extra name)
    (hx : w.IsData a.extra) : (ArgumentViews.of w a).Spares name := by
  obtain ⟨us, hus, free⟩ := h.entriesOrEmpty? hx
  intro es hes
  cases hus.symm.trans hes
  exact free

/-- Entries and what they are emitted as, one by one. -/
abbrev Emitted (es us : List (Tree × Tree)) : Prop :=
  List.Forall₂ (fun e u => u.1 = e.1 ∧ e.2.emit? = some u.2) es us

/-- The arguments make a document, and its components hold the value as a schema under the name. -/
structure Arguments.Holds (w : World) (a : Arguments) (name : String) (x : Value) : Prop where
  data : a.IsData w
  paths : w.MayBeMapping a.paths
  sections : ∃ es, a.components.mapping? w = some es ∧ ∀ e ∈ es, e.1 = .str "schemas" →
    ∃ fs, e.2.mapping? w = some fs ∧ ∀ f ∈ fs, ∃ t : SchemaTerm, w.ShowsSchema f.2 t.meaning
  schemas : ∃ v, Operation.itemIn w "schemas" a.components = some v ∧
    Operation.itemIn w name v = some x
  extra : w.Lacks a.extra "components"

/-- Every schema of a section of schemas is emitted. -/
theorem emitted_of_schemas {fs : Entries}
    (h : ∀ f ∈ fs, ∃ t : SchemaTerm, w.ShowsSchema f.2 t.meaning) :
    ∃ us, (fs.map fun f => (w.tree f.1, w.tree f.2)).mapM
        (fun e => e.2.emit?.map fun schema => (e.1, schema)) = some us ∧
      Emitted (fs.map fun f => (w.tree f.1, w.tree f.2)) us := by
  refine forall₂_of_mapM fun e he => ?_
  obtain ⟨f, hf, rfl⟩ := List.mem_map.mp he
  obtain ⟨t, ht⟩ := h f hf
  exact ⟨(w.tree f.1, t.meaning.tree), by simp [ht.emit?], rfl, ht.emit?⟩

/-- What becomes of the entries under the name of the schemas. -/
def Section (t u : Tree) : Prop := ∃ fs us, t = .mapping fs ∧ u = .mapping us ∧ Emitted fs us

theorem components?_of_sections {v : Value} (h : w.IsData v) {es : Entries}
    (hm : v.mapping? w = some es) (he : ∀ e ∈ es, e.1 = .str "schemas" → ∃ fs,
      e.2.mapping? w = some fs ∧ ∀ f ∈ fs, ∃ t : SchemaTerm, w.ShowsSchema f.2 t.meaning) :
    ∃ ps, components? (w.tree v) = some (.mapping ps) ∧
      List.Forall₂ (fun e p => p.1 = e.1 ∧ (e.1 = .str "schemas" → Section e.2 p.2))
        (es.map fun e => (w.tree e.1, w.tree e.2)) ps := by
  obtain ⟨a, rfl, hg⟩ := Value.eq_obj_of_mapping? hm
  have each (e : Tree × Tree) (mem : e ∈ es.map fun e => (w.tree e.1, w.tree e.2)) :
      ∃ p, section? e.1 e.2 = some p ∧ p.1 = e.1 ∧ (e.1 = .str "schemas" → Section e.2 p.2) := by
    obtain ⟨e, hmem, rfl⟩ := List.mem_map.mp mem
    obtain ⟨key, data⟩ := h.entries hm e hmem
    by_cases named : w.tree e.1 = .str "schemas"
    · obtain ⟨fs, hfs, schemas⟩ := he e hmem (Shows.atom ⟨key, named⟩)
      obtain ⟨b, hb, hget⟩ := Value.eq_obj_of_mapping? hfs
      obtain ⟨us, hus, emitted⟩ := emitted_of_schemas schemas
      have view : w.tree e.2 = .mapping (fs.map fun f => (w.tree f.1, w.tree f.2)) := by
        rw [hb] at data ⊢
        exact data.tree_mapping hget
      refine ⟨(w.tree e.1, .mapping us), ?_, rfl, fun _ => ⟨_, us, view, rfl, emitted⟩⟩
      rw [section?, if_pos (Tree.same_str_iff.mpr named), view]
      simp [Tree.items?, hus]
    · exact ⟨_, by rw [section?, if_neg (mt Tree.same_str_iff.mp named)], rfl,
        fun named' => absurd named' named⟩
  obtain ⟨ps, hps, paired⟩ := forall₂_of_mapM each
  exact ⟨ps, by rw [h.tree_mapping hg]; simp [components?, Tree.items?, hps], paired⟩

/-- The place of a schema in a document. -/
def schemaPlace (name : String) : List Step :=
  [.name "components", .name "schemas", .name name]

/-- A document comes of these arguments, with the emitted schema at its place. -/
theorem view?_schema {a : Arguments} {name : String} {s : Meaning} (h : a.Holds w name x)
    (hx : w.ShowsSchema x s) :
    ∃ d, view? (.of w a) = some d ∧ d.at? (schemaPlace name) = some s.tree := by
  obtain ⟨es, hm, sections⟩ := h.sections
  obtain ⟨ps, hps, paired⟩ := components?_of_sections h.data.components hm sections
  obtain ⟨servers, hs, -⟩ := Tree.isField_given "servers" (w.tree a.servers)
  obtain ⟨paths, hp⟩ := h.paths.entriesOrEmpty?
  obtain ⟨extra, hx', -⟩ := h.extra.entriesOrEmpty? h.data.extra
  have parts : (w.tree a.components).field? "components" components? =
      some [("components", .mapping ps)] := by
    obtain ⟨b, hb, hg⟩ := Value.eq_obj_of_mapping? hm
    have view := hb ▸ h.data.components
    rw [Tree.field?, hps]
    rw [hb, view.tree_mapping hg]
    rfl
  obtain ⟨d, hd⟩ : ∃ d, view? (.of w a) = some d := by
    simp only [view?, ArgumentViews.of, hs, hp, parts, hx', Option.bind_eq_bind, Option.bind_some]
    exact ⟨_, rfl⟩
  obtain ⟨servers', _, parts', hs', -, hparts, part⟩ :=
    view?_part hd (spares_of_lacks h.extra h.data.extra)
  cases parts.symm.trans hparts
  have components : d.part? (.name "components") = some (.mapping ps) := by
    rw [part]
    simp [List.lookup_append, List.lookup_cons, field?_lookup hs' (show "components" ≠ "servers" by simp)]
  obtain ⟨v, hv, hn⟩ := h.schemas
  obtain ⟨data, first⟩ := Operation.itemIn_part h.data.components hv
  obtain ⟨-, second⟩ := Operation.itemIn_part data hn
  obtain ⟨b, hb, hg⟩ := Value.eq_obj_of_mapping? hm
  have shown := h.data.components
  rw [hb] at shown first
  rw [shown.tree_mapping hg] at first
  obtain ⟨u, hu, fs, us, view, rfl, emitted⟩ := Tree.find?_forall₂ paired first
  rw [view] at second
  obtain ⟨t, ht, same⟩ := Tree.find?_forall₂ (R := fun t u => t.emit? = some u)
    (emitted.imp fun _ _ he => ⟨he.1, fun _ => he.2⟩) second
  have schema : t = s.tree := Option.some.inj (same.symm.trans hx.emit?)
  refine ⟨d, hd, ?_⟩
  simp only [schemaPlace, Tree.at?_cons, components, Option.bind_some]
  simp only [Tree.part?, hu, Option.bind_some, ht, schema, Tree.at?_nil]

end Document

end OpenApiDoc
