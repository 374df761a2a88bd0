import OpenApiDoc.Proofs.Embedding

/-! # A schema means the same wherever it is embedded

* `Schema.Carries` are the calls that put a schema into a response, a request body or a parameter, with
  the place at which it stands there. `Schema.Embeds` are these and the calls of constructors and of
  `document`.
* `Delivered` says how a response, a body or a parameter gets into a document, through an operation and
  a map of paths.
* `Schema.embedded`: at all of these places stands what the schema is emitted as. -/

namespace OpenApiDoc

open Build World

variable {w w' : World} {v x : Value} {load : Value → Build Value}

/-- The arguments of a document among the values of a call. -/
def Call.documentArguments (b : Signature.Bound) : Document.Arguments where
  title := b.arg "title"
  version := b.arg "version"
  paths := b.arg "paths"
  components := b.arg "components"
  openapi := b.arg "openapi"
  description := b.arg "description"
  servers := b.arg "servers"
  extra := b.arg "extra"

namespace Schema

/-- Calls that make a response, a request body or a parameter, in which a schema stands at a place. -/
inductive Carries (load : Value → Build Value) (w : World) (x : Value) :
    Build Value → List Step → Prop
  | response {callee : Callee} {args : List Value} {named : List (String × Value)}
      {b : Signature.Bound} {media : String} (runs : Call.Runs callee args named Call.response b)
      (schema : b.arg "schema" = x) (type : b.arg "type" = .str media)
      (description : w.IsData (b.arg "description"))
      (mappings : ∀ name ∈ ["headers", "links", "examples", "encoding"],
        w.MayBeMapping (b.arg name)) :
      Carries load w x (Call.invoke load callee args named) (Response.schemaPlace media)
  | body {callee : Callee} {args : List Value} {named : List (String × Value)}
      {b : Signature.Bound} {media : String} (runs : Call.Runs callee args named Call.requestBody b)
      (schema : b.arg "schema" = x) (type : b.arg "type" = .str media)
      (description : w.IsData (b.arg "description")) (required : w.IsData (b.arg "required"))
      (mappings : ∀ name ∈ ["examples", "encoding"], w.MayBeMapping (b.arg name)) :
      Carries load w x (Call.invoke load callee args named) (Response.schemaPlace media)
  | parameter {callee : Callee} {args : List Value} {named : List (String × Value)}
      {b : Signature.Bound} {us : List (String × Tree)}
      (runs : Call.Runs callee args named Call.parameter b) (schema : b.arg "schema" = x)
      (location : Parameter.isLocation (b.arg "location")) (name : w.IsData (b.arg "name"))
      (description : w.IsData (b.arg "description")) (extra : w.ShowsExtra (b.arg "extra") us)
      (free : "schema" ∉ us.map (·.1)) :
      Carries load w x (Call.invoke load callee args named) [.name "schema"]

/-- Calls in whose result a schema stands at a place. Of a node this is the result of `to_schema`. -/
inductive Embeds (load : Value → Build Value) (w : World) (x : Value) :
    Build Value → List Step → Prop
  | carried {act : Build Value} {place : List Step} (carries : Carries load w x act place) :
      Embeds load w x act place
  | items {v : Variant} {args : List Value} {named : List (String × Value)} {b : Signature.Bound}
      {d : Option String} {us : List (String × Tree)}
      (runs : Call.Runs (.construct .array v) args named (Call.variant .array v) b)
      (items : b.arg "items" = x) (description : b.arg "description" = textOrNone d)
      (extra : w.ShowsExtra (b.arg "extra") us) (free : "items" ∉ us.map (·.1)) :
      Embeds load w x (do
        let node ← Call.invoke load (.construct .array v) args named
        Call.invoke load .toSchema [node] []) [.name "items"]
  | property {v : Variant} {args : List Value} {named : List (String × Value)} {b : Signature.Bound}
      {name : String} {fs : List (String × Value)} {ss : List (String × SchemaTerm)}
      {d : Option String} {us : List (String × Tree)}
      (runs : Call.Runs (.construct .object v) args named (Call.variant .object v) b)
      (properties : (b.arg "properties").mapping? w = some (Entries.named fs))
      (schemas : Entries.Paired w.ShowsSchema fs (SchemaTerm.meanings ss))
      (found : fs.lookup name = some x) (description : b.arg "description" = textOrNone d)
      (extra : w.ShowsExtra (b.arg "extra") us) (free : "properties" ∉ us.map (·.1)) :
      Embeds load w x (do
        let node ← Call.invoke load (.construct .object v) args named
        Call.invoke load .toSchema [node] []) [.name "properties", .name name]
  | extra {c : Constructor} {v : Variant} {args : List Value} {named : List (String × Value)}
      {b : Signature.Bound} {ts us : List (String × Tree)} {name : String} {place : List Step}
      (runs : Call.Runs (.construct c v) args named (Call.variant c v) b)
      (generates : Generates w c b ts) (extra : w.Shows (b.arg "extra") (.record us))
      (distinct : Entries.Distinct us) (occurs : w.Occurs x (b.arg "extra") (.name name :: place)) :
      Embeds load w x (do
        let node ← Call.invoke load (.construct c v) args named
        Call.invoke load .toSchema [node] []) (.name name :: place)
  | component {args : List Value} {named : List (String × Value)} {b : Signature.Bound}
      {name : String} (runs : Call.Runs .document args named Call.document b)
      (holds : (Call.documentArguments b).Holds w name x) :
      Embeds load w x (Call.invoke load .document args named) (Document.schemaPlace name)

variable {s : Meaning} {act : Build Value} {place : List Step}

/-- What carries a schema is a mapping from names with the emitted schema at its place. -/
theorem Carries.gives (h : Carries load w x act place) (ho : w.Owned) (hx : w.ShowsSchema x s) :
    act.Gives w fun r w' => w'.Bears r place s.tree := by
  cases h with
  | @response _ _ _ b media runs schema type description mappings =>
      subst schema
      have holds : (Call.mediaOf b).Holds w s :=
        ⟨hx, mappings "examples" (by simp), mappings "encoding" (by simp)⟩
      have made := Response.response_gives media ho description (mappings "headers" (by simp))
        (mappings "links" (by simp)) holds
      rw [← type] at made
      exact runs.invoke load ▸ made
  | @body _ _ _ b media runs schema type description required mappings =>
      subst schema
      have holds : (Call.mediaOf b).Holds w s :=
        ⟨hx, mappings "examples" (by simp), mappings "encoding" (by simp)⟩
      have made := Response.body_gives media ho description required holds
      rw [← type] at made
      exact runs.invoke load ▸ made
  | parameter runs schema location name description extra free =>
      subst schema
      rw [runs.invoke load]
      exact Parameter.build_gives ho location name hx description extra free

theorem present_items (d : Option String) (m : Meaning) :
    (present [("type", .str "array"), ("description", .text? d), ("items", m.tree)]).lookup "items" =
      some m.tree := by
  cases d <;> simp [present, Tree.text?, Tree.isNone, Meaning.tree, Tree.record, List.lookup_cons]

theorem present_properties (ms : List (String × Meaning)) (d : Option String) :
    (present (Meaning.objectFields ms d)).lookup "properties" =
      some (.record (ms.map fun p => (p.1, p.2.tree))) := by
  simp only [Meaning.objectFields]
  split <;> simp [present, Tree.isNone, Tree.record, List.lookup_cons]

theorem embeds_node {c : Constructor} {v : Variant} {args : List Value}
    {named : List (String × Value)} {b : Signature.Bound} {ts us : List (String × Tree)}
    (runs : Call.Runs (.construct c v) args named (Call.variant c v) b) (ho : w.Owned)
    (generates : Generates w c b ts) (extra : w.ShowsExtra (b.arg "extra") us) :
    Gives (do
      let node ← Call.invoke load (.construct c v) args named
      Call.invoke load .toSchema [node] []) w fun u w' =>
        w'.Shows u (Meaning.generated v ts (Tree.plainFields us)).tree := by
  rw [runs.invoke load]
  refine (variant_gives ho (generates.gives ho extra) v).bind fun n w₁ k hn => ?_
  exact toSchema_gives load (ho.extends k) hn

/-- Where a schema is embedded, it stands as it is emitted. -/
theorem Embeds.gives {t : SchemaTerm} (h : Embeds load w x act place) (ho : w.Owned)
    (hx : w.ShowsSchema x t.meaning) :
    act.Gives w fun u w' => ∃ d, w'.Shows u d ∧ d.at? place = some t.meaning.tree := by
  cases h with
  | carried carries =>
      exact (carries.gives ho hx).mono fun u w' _ ⟨ts, hu, _, stands⟩ => ⟨_, hu, stands⟩
  | items runs items description extra free =>
      subst items
      refine (embeds_node runs ho (.array hx description) extra).mono fun u w' _ hu => ⟨_, hu, ?_⟩
      rw [Tree.at?_cons, generated_at (present_items _ _) free, Option.bind_some, Tree.at?_nil]
  | property runs properties schemas found description extra free =>
      refine (embeds_node runs ho (.object properties schemas description) extra).mono
        fun u w' _ hu => ⟨_, hu, ?_⟩
      obtain ⟨m, hm, hxm⟩ := schemas.lookup_left found
      rw [Tree.at?_cons, generated_at (present_properties _ _) free, Option.bind_some,
        Tree.at?_cons, Tree.part?_record, Entries.lookup_map Meaning.tree, hm, Option.map_some,
        Option.bind_some, Tree.at?_nil, ← hxm.plain, hx.plain]
  | extra runs generates extra distinct occurs =>
      refine (embeds_node runs ho generates (.inr extra)).mono fun u w' _ hu => ⟨_, hu, ?_⟩
      rw [extra_at extra distinct occurs, hx.plain]
  | @component _ _ b name runs holds =>
      rw [runs.invoke load]
      have made := Document.build_denotes ho holds.data
      obtain ⟨d, view, stands⟩ := Document.view?_schema holds hx
      rw [view] at made
      exact Gives.mono made fun u w' _ hu => ⟨d, hu, stands⟩

end Schema

/-! ### Through operations and maps of paths -/

/-- The value, which is a response, a request body or a parameter of an operation, gets into a document.
The operation is bound to a name in a map of paths, and the map is handed to `document`. No extra
entries replace the field of the operation that it is in, or the paths. In between, anything may be
made. -/
inductive Delivered (load : Value → Build Value) (w : World) (r : Value) :
    List Step → Value → World → Prop
  | intro {w₁ w₂ w₃ w₄ w₅ w₆ : World} {args args' args'' : List Value}
      {named named' named'' : List (String × Value)} {b b' b'' : Signature.Bound}
      {role : Operation.Role} {method path : String} {v d paths doc : Value}
      {es : Entries}
      -- The operation is made.
      (first : w.Extends w₁) (operation : Call.Runs .operation args named Call.operation b)
      (collections : ∀ name ∈ Operation.collected, w₁.IsData (b.arg name))
      (verb : b.arg "method" = .str method) (template : b.arg "path" = .str path)
      (given : role.IsGiven w₁ (b.arg "responses") (b.arg "parameters") (b.arg "request_body") r)
      (made : (Call.invoke load .operation args named).run w₁ = .ok v w₂)
      (unread : Operation.Unread w₁ (b.arg "extra") role.field)
      -- The map of paths is assembled.
      (second : w₂.Extends w₃) (assembly : Call.Runs .paths args' named' Call.paths b')
      (operations : (b'.arg "ops").mapping? w₃ = some es) (bindings : Paths.Bindings w₃ es)
      (bound : (d, v) ∈ es) (assembled : (Call.invoke load .paths args' named').run w₃ = .ok paths w₄)
      -- The document is made.
      (third : w₄.Extends w₅) (document : Call.Runs .document args'' named'' Call.document b'')
      (arguments : (Call.documentArguments b'').IsData w₅) (handed : b''.arg "paths" = paths)
      (lacks : w₅.Lacks (b''.arg "extra") "paths")
      (documented : (Call.invoke load .document args'' named'').run w₅ = .ok doc w₆) :
      Delivered load w r ([.name "paths", .name path, .name (Text.lower method)] ++ role.place) doc w₆

/-- What stands in the value stands in the document, at its place below that of the value. -/
theorem Delivered.at_place {r doc : Value} {front place : List Step} {t : Tree}
    (h : Delivered load w r front doc w') (ho : w.Owned) (hr : w.Bears r place t) :
    w.Extends w' ∧ ∃ d, w'.Shows doc d ∧ d.at? (front ++ place) = some t := by
  obtain ⟨ts, hts, distinct, stands⟩ := hr
  cases h with
  | @intro w₁ w₂ w₃ w₄ w₅ _ args args' args'' named named' named'' b b' b'' role method path v d paths
      _ es first operation collections verb template given made unread second assembly operations
      bindings bound assembled third document arguments handed lacks documented =>
      have ho₁ := ho.extends first
      rw [operation.invoke load] at made
      rw [assembly.invoke load] at assembled
      rw [document.invoke load] at documented
      have data (name : String) (h : name ∈ Operation.collected) := collections name h
      obtain ⟨k₁, op, found, hmethod, hpath, carried⟩ := Operation.build_carries ho₁
        (data "responses" (by simp [Operation.collected]))
        (data "parameters" (by simp [Operation.collected]))
        (data "request_body" (by simp [Operation.collected]))
        (data "extra" (by simp [Operation.collected])) made
      rw [verb] at hmethod
      rw [template] at hpath
      cases hmethod
      cases hpath
      have ho₃ := (ho₁.extends k₁).extends second
      obtain ⟨k₂, tp, htp, standing⟩ := Paths.build_at ho₃ operations bindings bound
        (found.grows second.grows).found assembled
      obtain ⟨td, view, k₃, hd⟩ := (Document.build_denotes
        ((ho₃.extends k₂).extends third) arguments).ok documented
      have hp : (Document.ArgumentViews.of w₅ (Call.documentArguments b'')).paths = .record tp := by
        show w₅.tree (b''.arg "paths") = .record tp
        rw [handed, (htp.extends third).2]
      have part := Document.view?_paths view (Document.spares_of_lacks lacks arguments.extra) hp
      have object := carried role r ts given (hts.extends first) distinct unread w₃ second d
      refine ⟨((((first.trans k₁).trans second).trans k₂).trans third).trans k₃, td, hd, ?_⟩
      have written : td.at? [.name "paths", .name op.path, .name (Text.lower op.method)] =
          some (op.written w₃ d) := by
        rw [Tree.at?_cons, part, Option.bind_some, standing]
      rw [Tree.at?_append, Tree.at?_append, written, Option.bind_some, object, Option.bind_some,
        stands]

/-! ### Everywhere -/

/-- A schema means the same wherever it is embedded: at its place stands what it is emitted as, in the
order in which it is emitted. This holds of the calls that embed it, and of the documents into which
a response, a body or a parameter with it is delivered. The schema itself stays what it is. -/
theorem Schema.embedded (load : Value → Build Value) {t : SchemaTerm} (ho : w.Owned)
    (hx : w.ShowsSchema x t.meaning) :
    (Call.invoke load .emit [x] []).Gives w (fun s w' => w'.Shows s t.meaning.tree) ∧
    (∀ act place, Embeds load w x act place → act.Gives w fun u w' =>
      w'.ShowsSchema x t.meaning ∧ ∃ d, w'.Shows u d ∧ d.at? place = some t.meaning.tree) ∧
    ∀ act place, Carries load w x act place → ∀ r w₁, act.run w = .ok r w₁ →
      ∀ front doc w', Delivered load w₁ r front doc w' →
        w'.ShowsSchema x t.meaning ∧
          ∃ d, w'.Shows doc d ∧ d.at? (front ++ place) = some t.meaning.tree := by
  refine ⟨emit_gives ho hx, fun act place embeds => ?_, fun act place carries r w₁ run front doc w'
    delivered => ?_⟩
  · exact (embeds.gives ho hx).mono fun u w' k hu => ⟨hx.extends k, hu⟩
  · obtain ⟨k, bears⟩ := (carries.gives ho hx).ok run
    obtain ⟨k', stands⟩ := delivered.at_place (ho.extends k) bears
    exact ⟨hx.extends (k.trans k'), stands⟩

/-! ### A document with one operation -/

theorem newMapping_entries {w w' : World} {v : Value} (ho : w.Owned) {es : Entries}
    (h : ∀ e ∈ es, w.IsData e.1 ∧ w.IsData e.2) (run : (newMapping es).run w = .ok v w') :
    w.Extends w' ∧ w'.IsData v ∧ v.mapping? w' = some es := by
  have entries : w.ShowsEntries es (es.map fun e => (w.tree e.1, w.tree e.2)) := by
    rw [ShowsEntries, List.forall₂_map_right_iff, List.forall₂_same]
    exact fun e he => ⟨(h e he).1.shows, (h e he).2.shows⟩
  obtain ⟨k, hv, -⟩ := (newMapping_gives ho entries).ok run
  cases run
  exact ⟨k, hv.1, Value.mapping?_of_get (w.get_alloc_same _)⟩

namespace Delivered

/-- Nothing is loaded. -/
def unloaded (_ : Value) : Build Value := fail .endless

/-- A response in the only operation of a document. -/
def lone (r : Value) : Build Value := do
  let responses ← newMapping [(.int 200, r)]
  let op ← Call.invoke unloaded .operation [.str "get", .str "/pets", responses] []
  let ops ← newMapping [(.str "pets", op)]
  let paths ← Call.invoke unloaded .paths [ops] []
  Call.invoke unloaded .document [.str "Pets", .str "1", paths] []

theorem of_lone {w w' : World} {r doc : Value} (ho : w.Owned) (hr : w.IsData r)
    (run : (lone r).run w = .ok doc w') : Delivered unloaded w r
      [.name "paths", .name "/pets", .name "get", .name "responses", .name "200"] doc w' := by
  obtain ⟨responses, w₁, coded, run⟩ := bind_ok run
  obtain ⟨op, w₂, made, run⟩ := bind_ok run
  obtain ⟨ops, w₃, bound, run⟩ := bind_ok run
  obtain ⟨paths, w₄, assembled, documented⟩ := bind_ok run
  have none {w : World} : w.IsData .none := .atom _
  -- The responses and the operation.
  obtain ⟨k₁, hresponses, mapping⟩ := newMapping_entries ho (by simp [IsData.atom, hr]) coded
  have first : Call.Runs .operation [.str "get", .str "/pets", responses] [] Call.operation _ :=
    .operation rfl
  have stored := made
  rw [first.invoke] at stored
  obtain ⟨k₂, o, found, -⟩ :=
    Operation.build_carries (ho.extends k₁) hresponses none none none stored
  have ho₂ := (ho.extends k₁).extends k₂
  -- The operation under its name, and the map of paths.
  obtain ⟨k₃, hops, operations⟩ :=
    newMapping_entries ho₂ (by simp [IsData.atom, found.data]) bound
  have bindings : Paths.Bindings w₃ [(.str "pets", op)] := by
    have later := found.grows k₃.grows
    refine ⟨by simp [IsData.atom], by simp [later.data], fun e he o' found' => ?_⟩
    obtain rfl := List.mem_singleton.mp he
    cases later.found.symm.trans found'
    exact later
  have second : Call.Runs .paths [ops] [] Call.paths _ := .paths rfl
  have gathered := assembled
  rw [second.invoke] at gathered
  obtain ⟨k₄, tp, hpaths, -⟩ := Paths.build_at (ho₂.extends k₃) operations bindings (.head _)
    (found.grows k₃.grows).found gathered
  -- The document.
  have third : Call.Runs .document [.str "Pets", .str "1", paths] [] Call.document _ :=
    .document rfl
  have given : (Operation.Role.response "200").IsGiven w₁ responses .none .none r :=
    ⟨[], .int 200, [], mapping, rfl, by simp⟩
  refine .intro k₁ first ?collections rfl rfl given made (.inl rfl) k₃ second operations bindings
    (.head _) assembled (.refl _) third ?arguments rfl (.inl rfl) documented
  case collections =>
    simp only [Operation.collected, List.forall_mem_cons]
    exact ⟨hresponses, none, none, none, by simp⟩
  case arguments =>
    exact ⟨.atom _, .atom _, hpaths.1, none, .atom _, none, none, none⟩

end Delivered

/-- A mapping with a node in it. -/
def SchemaTerm.texts : SchemaTerm :=
  .mapping [("type", .atom (.str "array")), ("items", .node (.leaf .string .asBuilt none []))]

/-- Make a schema, put it into a response, and the response into a document. -/
def Schema.documented : Build Value := do
  let x ← SchemaTerm.texts.build Delivered.unloaded
  let r ← Call.invoke Delivered.unloaded .json [] [("description", .str "ok"), ("schema", x)]
  Delivered.lone r

set_option maxRecDepth 4000 in
theorem Schema.embedded_texts : ∃ (x : Value) (w : World) (doc : Value) (w' : World) (d : Tree),
    w.Owned ∧ w.ShowsSchema x SchemaTerm.texts.meaning ∧
    documented.run World.initial = .ok doc w' ∧ w'.Shows doc d ∧
    d.at? [.name "paths", .name "/pets", .name "get", .name "responses", .name "200",
      .name "content", .name "application/json", .name "schema"] =
        some (.record [("type", .str "array"), ("items", .record [("type", .str "string")])]) := by
  obtain ⟨doc, w', run⟩ := Build.ran documented World.initial (by decide +kernel)
  have whole := run
  obtain ⟨x, w, built, run⟩ := bind_ok run
  obtain ⟨r, w₁, made, run⟩ := bind_ok run
  have start : World.initial.Owned := Session.initial_tidy.owned
  obtain ⟨k, hx⟩ := (SchemaTerm.texts.build_gives Delivered.unloaded start).ok built
  have ho := start.extends k
  have carries : Carries Delivered.unloaded w x (Call.invoke Delivered.unloaded .json []
      [("description", .str "ok"), ("schema", x)]) (Response.schemaPlace "application/json") := by
    refine .response (.json rfl rfl rfl) rfl rfl (.atom _) ?_
    simp only [List.forall_mem_cons]
    exact ⟨.inl rfl, .inl rfl, .inl rfl, .inl rfl, by simp⟩
  obtain ⟨-, -, through⟩ := embedded Delivered.unloaded ho hx
  obtain ⟨k₁, ts, hr, -⟩ := (carries.gives ho hx).ok made
  obtain ⟨-, d, hd, stands⟩ := through _ _ carries r w₁ made _ doc w'
    (Delivered.of_lone (ho.extends k₁) hr.1 run)
  exact ⟨x, w, doc, w', d, ho, hx, whole, hd, stands⟩

end OpenApiDoc
