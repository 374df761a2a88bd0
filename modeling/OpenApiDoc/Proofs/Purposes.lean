import OpenApiDoc.Proofs.Arguments
import OpenApiDoc.Proofs.Documents

/-! # What calls take and give

Every function of the library that makes a part of a document says what it expects of the values of
its parameters. If they serve these purposes and the call gives a result, it serves one, too.

* A `Purpose` is what a value is made for, `World.Serves` says that it will do.
* `Call.expects` is the purpose of each parameter, `Call.produces` that of the result.
* `Call.invoke_yields`: a call with values that will do gives one that will do. -/

namespace OpenApiDoc

open Build World

/-- What a value is made for. -/
inductive Purpose where
  | any
  | text
  /-- Data that JSON has a form for. -/
  | json
  /-- JSON in which nodes may occur. -/
  | part
  | schema
  /-- A mapping of JSON, as a response, a body, a parameter or a map of paths is. -/
  | record
  | schemas
  | choices
  | responses
  | operation
  | operations
  | sections
  | document
  | maybe (p : Purpose)

namespace World

variable {w w' : World} {v : Value}

/-- The value will do. -/
def Serves (w : World) : Purpose → Value → Prop
  | .any, _ => True
  | .text, v => ∃ s, v = .str s
  | .json, v => w.Is .json v
  | .part, v => w.Is .part v
  | .schema, v => w.IsSchematic v
  | .record, v => w.IsRecord v
  | .schemas, v => ∃ es, v.mapping? w = some es ∧ ∀ e ∈ es, (∃ s, e.1 = .str s) ∧ w.IsSchematic e.2
  | .choices, v => ∃ es, v.mapping? w = some es ∧ ∀ e ∈ es, w.Is .part e.1
  | .responses, v => w.Holding .json v
  | .operation, v => w.IsOperationOf .json v
  | .operations, v => Paths.Operations w v
  | .sections, v => Document.Sections w v
  | .document, v => w.IsRecord v
  | .maybe p, v => v = .none ∨ w.Serves p v

theorem Serves.extends {p : Purpose} (h : w.Serves p v) (k : w.Extends w') : w'.Serves p v := by
  induction p with
  | any => trivial
  | text => exact h
  | json => exact Is.extends h k
  | part => exact Is.extends h k
  | schema => exact IsSchematic.extends h k
  | record => exact IsRecord.extends h k
  | schemas =>
      obtain ⟨es, hm, hes⟩ := h
      exact ⟨es, mapping?_extends hm k, fun e he => ⟨(hes e he).1, (hes e he).2.extends k⟩⟩
  | choices =>
      obtain ⟨es, hm, hes⟩ := h
      exact ⟨es, mapping?_extends hm k, fun e he => (hes e he).extends k⟩
  | responses => exact Holding.extends h k
  | operation => exact IsOperationOf.extends h k
  | operations =>
      obtain ⟨es, hm, hes⟩ := h
      exact ⟨es, mapping?_extends hm k, fun e he =>
        ⟨(hes e he).1.extends k, (hes e he).2.extends k⟩⟩
  | sections => exact Document.Sections.extends h k
  | document => exact IsRecord.extends h k
  | maybe p ih => exact Or.imp_right ih h

end World

namespace Call

open Signature

/-! ### Expectations -/

/-- The purposes of the parameters that all described constructors have. -/
def describedPurposes : List (String × Purpose) := [("description", .json), ("extra", .part)]

/-- The purposes of the parameters of a media type. -/
def mediaPurposes : List (String × Purpose) :=
  [("schema", .maybe .schema), ("examples", .maybe .record), ("encoding", .maybe .record)]

/-- What is expected of the parameters of a function. -/
def expectations : Callee → List (String × Purpose)
  | .construct .constant _ => ("value", .part) :: describedPurposes
  | .construct .choice _ => [("values", .choices), ("extra", .part)]
  | .construct .array _ => ("items", .schema) :: describedPurposes
  | .construct .object _ => ("properties", .schemas) :: describedPurposes
  | .construct .ref _ => []
  | .construct _ _ => describedPurposes
  | .optional | .required | .nullable => [("node", .schema)]
  | .merge => [(itself, .schema), ("extra", .part)]
  | .emit => [("value", .schema)]
  | .response | .json => [("description", .json), ("type", .text), ("headers", .maybe .record),
      ("links", .maybe .record)] ++ mediaPurposes
  | .requestBody | .jsonBody =>
      [("type", .text), ("description", .json), ("required", .json)] ++ mediaPurposes
  | .parameter | .pathParam | .queryParam | .headerParam =>
      [("name", .json), ("schema", .schema), ("description", .json), ("extra", .maybe .record)]
  | .operation => [("responses", .responses), ("parameters", .json), ("request_body", .json),
      ("extra", .maybe .record)]
  | .paths => [("ops", .operations)]
  | .document => [("title", .json), ("version", .json), ("paths", .maybe .record),
      ("components", .maybe .sections), ("openapi", .json), ("description", .json),
      ("servers", .json), ("extra", .maybe .record)]
  | _ => []

/-- What is expected of a parameter. -/
def expects (f : Callee) (name : String) : Purpose := ((expectations f).lookup name).getD .any

/-- What the result of a function is for. -/
def produces : Callee → Option Purpose
  | .construct _ _ | .optional | .required | .nullable | .merge => some .schema
  | .emit => some .json
  | .response | .json | .requestBody | .jsonBody => some .record
  | .parameter | .pathParam | .queryParam | .headerParam => some .record
  | .operation => some .operation
  | .paths => some .record
  | .document => some .document
  | _ => none

/-! ### Calls that keep to it -/

variable {w : World} {args : List Value} {named : List (String × Value)} {b : Bound}

/-- The value will do for the parameter. -/
def Suits (w : World) (f : Callee) (e : String × Value) : Prop := w.Serves (expects f e.1) e.2

/-- The defaults of a function under the names of their parameters. -/
def Function.defaults (g : Function) : List (String × Value) :=
  g.signature.known.filterMap fun p => p.2.map (p.1, ·)

/-- A function is called with values that will do, or the call fails at once. -/
theorem Function.call_yields (f : Callee) {g : Function} {Q : Value → World → Prop}
    (defaults : ∀ e ∈ g.defaults, Suits w f e)
    (ha : ∀ e ∈ (g.signature.parameters.map (·.1)).zip args, Suits w f e)
    (hn : ∀ e ∈ named, Suits w f e)
    (h : ∀ b : Bound, b.All (Suits w f) →
      (∀ name ∈ g.signature.known.map (·.1), w.Serves (expects f name) (b.arg name)) →
      (g.run b).Yields w Q) : (g.call args named).Yields w Q := by
  have known : ∀ p ∈ g.signature.known, ∀ v, p.2 = some v → Suits w f (p.1, v) := fun p hp v hv =>
    defaults _ (List.mem_filterMap.mpr ⟨p, hp, by rw [hv]; rfl⟩)
  rcases g.call_cases known ha hn with ⟨b, fits, hb⟩ | ⟨m, fails⟩
  · exact fits.call ▸ h b hb fun name known => fits.arg hb known
  · exact fails ▸ .throw _

theorem constructor_yields (c : Constructor) (v : Variant)
    (given : ∀ name ∈ (constructor c).signature.known.map (·.1),
      w.Serves (expects (.construct c v) name) (b.arg name)) :
    ((constructor c).run b).Yields w fun u w' => w'.IsSchematic u := by
  have part (h : w.Is .json (b.arg "description")) : w.Is .part (b.arg "description") :=
    h.mono Kind.json_le_part
  have leaf (name type : String) (format : Option String) (hd : w.Is .json (b.arg "description"))
      (hx : w.Is .part (b.arg "extra")) :
      ((leaf name type format).run b).Yields w fun u w' => w'.IsSchematic u :=
    Schema.leaf_yields type format (part hd) hx
  cases c with
  | pattern =>
      exact Schema.pattern_yields _ (part (given "description" (by decide)))
        (given "extra" (by decide))
  | constant =>
      exact Schema.constant_yields (given "value" (by decide))
        (part (given "description" (by decide))) (given "extra" (by decide))
  | choice =>
      obtain ⟨es, hm, keys⟩ := given "values" (by decide)
      exact Schema.choice_yields hm keys (given "extra" (by decide))
  | ref => exact Schema.ref_yields _
  | array =>
      exact Schema.array_yields (given "items" (by decide))
        (part (given "description" (by decide))) (given "extra" (by decide))
  | object =>
      obtain ⟨es, hm, hes⟩ := given "properties" (by decide)
      exact Schema.object_yields hm (fun e he => (hes e he).2)
        (part (given "description" (by decide))) (given "extra" (by decide))
  | _ => exact leaf _ _ _ (given "description" (by decide)) (given "extra" (by decide))

theorem variant_yields (c : Constructor) (v : Variant)
    (given : ∀ name ∈ (variant c v).signature.known.map (·.1),
      w.Serves (expects (.construct c v) name) (b.arg name)) :
    ((variant c v).run b).Yields w fun u w' => w'.IsSchematic u := by
  have built := constructor_yields c v (b := b) (w := w)
  have flagged (o : Bool) (h : ((constructor c).run b).Yields w fun u w' => w'.IsSchematic u) :
      Build.Yields (do Node.withFlag (← (constructor c).run b) o) w
        fun u w' => w'.IsSchematic u :=
    h.bind fun u w₁ _ hu => Node.withFlag_yields hu.part o
  cases v with
  | asBuilt => exact built given
  | optional => exact flagged true (built given)
  | required => exact flagged false (built given)

theorem media_fits {f : Callee} (known : f ∈ [.response, .requestBody])
    (given : ∀ name ∈ mediaPurposes.map (·.1), w.Serves (expects f name) (b.arg name)) :
    (mediaOf b).Fits w := by
  simp only [List.mem_cons, List.not_mem_nil, or_false] at known
  rcases known with rfl | rfl <;>
    exact ⟨given "schema" (by decide), given "examples" (by decide), given "encoding" (by decide)⟩

theorem response_yields
    (given : ∀ name ∈ response.signature.known.map (·.1),
      w.Serves (expects .response name) (b.arg name)) :
    (response.run b).Yields w fun u w' => w'.IsRecord u := by
  obtain ⟨type, named⟩ := given "type" (by decide)
  have media : (mediaOf b).Fits w := media_fits (f := .response) (by decide) fun name known =>
    given name (by revert name; decide)
  have made := Response.response_yields type (given "description" (by decide))
    (given "headers" (by decide)) (given "links" (by decide)) media
  rw [← named] at made
  exact made

theorem requestBody_yields
    (given : ∀ name ∈ requestBody.signature.known.map (·.1),
      w.Serves (expects .requestBody name) (b.arg name)) :
    (requestBody.run b).Yields w fun u w' => w'.IsRecord u := by
  obtain ⟨type, named⟩ := given "type" (by decide)
  have media : (mediaOf b).Fits w := media_fits (f := .requestBody) (by decide) fun name known =>
    given name (by revert name; decide)
  have made := Response.body_yields type (given "description" (by decide))
    (given "required" (by decide)) media
  rw [← named] at made
  exact made

theorem parameter_yields
    (given : ∀ name ∈ parameter.signature.known.map (·.1),
      w.Serves (expects .parameter name) (b.arg name)) :
    (parameter.run b).Yields w fun u w' => w'.IsRecord u :=
  Parameter.build_yields (given "name" (by decide)) (given "schema" (by decide))
    (given "description" (by decide)) (given "extra" (by decide))

theorem operation_yields
    (given : ∀ name ∈ operation.signature.known.map (·.1),
      w.Serves (expects .operation name) (b.arg name)) :
    (operation.run b).Yields w fun u w' => w'.IsOperationOf .json u :=
  Operation.build_yields (given "responses" (by decide)) (given "parameters" (by decide))
    (given "request_body" (by decide)) (given "extra" (by decide))

theorem document_yields
    (given : ∀ name ∈ document.signature.known.map (·.1),
      w.Serves (expects .document name) (b.arg name)) :
    (document.run b).Yields w fun u w' => w'.IsRecord u :=
  Document.build_yields {
    title := given "title" (by decide)
    version := given "version" (by decide)
    paths := given "paths" (by decide)
    components := given "components" (by decide)
    openapi := given "openapi" (by decide)
    description := given "description" (by decide)
    servers := given "servers" (by decide)
    extra := given "extra" (by decide) }

/-! ### Defaults -/

theorem json_none : w.Serves .json .none := is_none w

theorem part_none : w.Serves .part .none := (is_none w).mono Kind.json_le_part

theorem absent {p : Purpose} : w.Serves (.maybe p) .none := .inl rfl

theorem variant_defaults (c : Constructor) (v : Variant) :
    ∀ e ∈ (variant c v).defaults, Suits w (.construct c v) e := by
  have same : (variant c v).defaults = (constructor c).defaults := by cases v <;> rfl
  have described (hd : expects (.construct c v) "description" = .json)
      (hx : expects (.construct c v) "extra" = .part) :
      ∀ e ∈ [("description", Value.none), ("extra", Value.none)], Suits w (.construct c v) e := by
    simp only [List.forall_mem_cons, Suits, hd, hx]
    exact ⟨json_none, part_none, by simp⟩
  rw [same]
  cases c with
  | choice => exact List.forall_mem_singleton.mpr part_none
  | ref => exact nofun
  | _ => exact described rfl rfl

theorem response_defaults : ∀ e ∈ response.defaults, Suits w .response e := by
  have same : response.defaults = [("description", .none), ("schema", .none),
    ("type", .str jsonMediaType), ("headers", .none), ("links", .none), ("examples", .none),
    ("encoding", .none)] := rfl
  rw [same]
  simp only [List.forall_mem_cons]
  exact ⟨json_none, absent, ⟨_, rfl⟩, absent, absent, absent, absent, by simp⟩

theorem requestBody_defaults : ∀ e ∈ requestBody.defaults, Suits w .requestBody e := by
  have same : requestBody.defaults = [("type", .str jsonMediaType), ("description", .none),
    ("required", .none), ("examples", .none), ("encoding", .none)] := rfl
  rw [same]
  simp only [List.forall_mem_cons]
  exact ⟨⟨_, rfl⟩, json_none, json_none, absent, absent, by simp⟩

theorem parameter_defaults : ∀ e ∈ parameter.defaults, Suits w .parameter e := by
  have same : parameter.defaults = [("description", .none), ("extra", .none)] := rfl
  rw [same]
  simp only [List.forall_mem_cons]
  exact ⟨json_none, absent, by simp⟩

theorem operation_defaults : ∀ e ∈ operation.defaults, Suits w .operation e := by
  have same : operation.defaults = [("operation_id", .none), ("summary", .none), ("tags", .none),
    ("parameters", .none), ("request_body", .none), ("extra", .none)] := rfl
  rw [same]
  simp only [List.forall_mem_cons]
  exact ⟨trivial, trivial, trivial, json_none, json_none, absent, by simp⟩

theorem document_defaults : ∀ e ∈ document.defaults, Suits w .document e := by
  have same : document.defaults = [("paths", .none), ("components", .none),
    ("openapi", .str Document.defaultVersion), ("description", .none), ("servers", .none),
    ("extra", .none)] := rfl
  rw [same]
  simp only [List.forall_mem_cons]
  exact ⟨absent, absent, is_text w _, json_none, json_none, absent, by simp⟩

/-! ### All calls -/

/-- A helper for one media type does what the function does. -/
theorem fixed_yields {f : Callee} {name : String} {must : List String} {j : JsonHelper}
    {g : Function} {Q : Value → World → Prop}
    (hg : ∀ named : List (String × Value), (∀ e ∈ named, Suits w f e) → (g.call [] named).Yields w Q)
    (ha : ∀ e ∈ must.zip args, Suits w f e) (hn : ∀ e ∈ named, Suits w f e) :
    ((fixed name must j g).call args named).Yields w Q := by
  refine Function.call_yields f ?_ ?_ hn fun b hb _ => ?_
  · intro e he
    obtain ⟨p, hp, default⟩ := List.mem_filterMap.mp he
    simp only [fixed, Signature.known, List.append_nil, List.mem_map] at hp
    obtain ⟨n, -, rfl⟩ := hp
    cases default
  · simpa [fixed, List.map_map, Function.comp_def] using ha
  · simp only [fixed]
    split
    · exact .throw _
    · exact hg _ fun e he => (List.mem_append.mp he).elim (hb.1 e) (hb.2 e)

/-- A helper for one location does what the function does. -/
theorem parameterIn_yields {f : Callee} (location : String)
    (same : ∀ name, expects f name = expects .parameter name)
    (ha : ∀ e ∈ ["name", "schema"].zip args, Suits w f e) (hn : ∀ e ∈ named, Suits w f e) :
    ((parameterIn location).call args named).Yields w fun u w' => w'.IsRecord u := by
  have suits (e : String × Value) : Suits w f e → Suits w .parameter e := by
    rw [Suits, Suits, same]
    exact id
  refine Function.call_yields f nofun ha hn fun b hb given => ?_
  refine Function.call_yields .parameter parameter_defaults ?_ (fun e he => suits e (hb.2 e he))
    fun _ _ given => parameter_yields given
  have located : (parameter.signature.parameters.map (·.1)).zip
      [b.arg "name", .str location, b.arg "schema"] =
        [("name", b.arg "name"), ("location", .str location), ("schema", b.arg "schema")] := rfl
  rw [located]
  simp only [List.forall_mem_cons]
  exact ⟨suits _ (given "name" (by simp [parameterIn, Signature.known])), trivial,
    suits _ (given "schema" (by simp [parameterIn, Signature.known])), by simp⟩

/-- A modifier of nodes. -/
theorem modifier_yields {f : Callee} {name : String} {run : Value → Build Value}
    (expected : expects f "node" = .schema)
    (h : ∀ v, w.IsSchematic v → (run v).Yields w fun u w' => w'.IsSchematic u)
    (ha : ∀ e ∈ ["node"].zip args, Suits w f e) (hn : ∀ e ∈ named, Suits w f e) :
    ((function name ["node"] [] fun b => run (b.arg "node")).call args named).Yields w
      fun u w' => w'.IsSchematic u := by
  refine Function.call_yields f nofun ha hn fun b _ given => h _ ?_
  have node := given "node" (by simp [function, Signature.known, Signature.of])
  rwa [expected] at node

/-- Nodes are merged with parts. -/
theorem merge_yields (load : Value → Build Value)
    (ha : ∀ e ∈ (positions .merge).zip args, Suits w .merge e) (hn : ∀ e ∈ named, Suits w .merge e) :
    (invoke load .merge args named).Yields w fun u w' => w'.IsSchematic u := by
  cases args with
  | nil => exact .throw _
  | cons self rest =>
      have own : w.IsSchematic self := ha (itself, self) (by simp [positions])
      refine .get_bind ?_
      cases Node.parts? w self with
      | none => exact .lack self _
      | some p =>
          exact Function.call_yields .merge
            (g := function "SchemaNode.merge" [itself, "extra"] [] fun b =>
              Node.merge self (b.arg "extra")) nofun ha hn
            fun b _ given => Node.merge_yields own
              (given "extra" (by simp [function, Signature.known, Signature.of]))

/-- A call with values that will do gives one that will do. -/
theorem invoke_yields (load : Value → Build Value) {f : Callee} {p : Purpose}
    (made : produces f = some p) (h : ∀ e ∈ underNames f args named, Suits w f e) :
    (invoke load f args named).Yields w fun u w' => w'.Serves p u := by
  have ha : ∀ e ∈ (positions f).zip args, Suits w f e := fun e he =>
    h e (List.mem_append_left _ he)
  have hn : ∀ e ∈ named, Suits w f e := fun e he => h e (List.mem_append_right _ he)
  cases f with
  | construct c v =>
      cases made
      show (construct c v args named).Yields w _
      unfold construct
      split
      · exact .throw _
      · have same : (variant c v).signature = (constructor c).signature := by cases v <;> rfl
        exact Function.call_yields (.construct c v) (variant_defaults c v) (same ▸ ha) hn
          fun b _ given => variant_yields c v given
  | optional =>
      cases made
      exact modifier_yields rfl (fun v hv => Node.withFlag_yields hv.part true) ha hn
  | required =>
      cases made
      exact modifier_yields rfl (fun v hv => Node.withFlag_yields hv.part false) ha hn
  | nullable =>
      cases made
      exact modifier_yields rfl (fun v hv => Node.nullable_yields hv) ha hn
  | merge =>
      cases made
      exact merge_yields load ha hn
  | emit =>
      cases made
      exact Function.call_yields .emit nofun ha hn fun b _ given =>
        Node.emit_json (given "value" (by decide))
  | response =>
      cases made
      exact Function.call_yields .response response_defaults ha hn fun b _ given =>
        response_yields given
  | json =>
      cases made
      refine fixed_yields (f := .response) (fun named hn => ?_) (by simp) hn
      exact Function.call_yields .response response_defaults (by simp) hn fun b _ given =>
        response_yields given
  | requestBody =>
      cases made
      exact Function.call_yields .requestBody requestBody_defaults ha hn fun b _ given =>
        requestBody_yields given
  | jsonBody =>
      cases made
      refine fixed_yields (f := .requestBody) (fun named hn => ?_) ha hn
      exact Function.call_yields .requestBody requestBody_defaults (by simp) hn fun b _ given =>
        requestBody_yields given
  | parameter =>
      cases made
      exact Function.call_yields .parameter parameter_defaults ha hn fun b _ given =>
        parameter_yields given
  | pathParam =>
      cases made
      exact parameterIn_yields (f := .pathParam) "path" (fun _ => rfl) ha hn
  | queryParam =>
      cases made
      exact parameterIn_yields (f := .queryParam) "query" (fun _ => rfl) ha hn
  | headerParam =>
      cases made
      exact parameterIn_yields (f := .headerParam) "header" (fun _ => rfl) ha hn
  | operation =>
      cases made
      exact Function.call_yields .operation operation_defaults ha hn fun b _ given =>
        operation_yields given
  | paths =>
      cases made
      exact Function.call_yields .paths nofun ha hn fun b _ given =>
        Paths.build_yields (given "ops" (by decide))
  | document =>
      cases made
      exact Function.call_yields .document document_defaults ha hn fun b _ given =>
        document_yields given
  | _ => cases made

end Call
end OpenApiDoc
