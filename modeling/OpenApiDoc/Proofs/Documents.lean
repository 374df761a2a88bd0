import OpenApiDoc.Proofs.Assembly
import OpenApiDoc.Proofs.Schematic

/-! # Documents are JSON

Responses, bodies, parameters, operation objects, the paths map and documents have nothing but JSON in
them, if they are made of JSON and every schema among their parts is made of what schemas are made of.

* `World.IsRecord` says that a value is a mapping of JSON, `World.IsOperationOf` that it is an
  operation whose fields are data of a kind.
* Each function has a lemma about what it yields: `Response.response_yields`,
  `Parameter.build_yields`, `Operation.ofFields_yields`, `Operation.emit_yields`,
  `Paths.build_yields` and `Document.build_yields`. -/

namespace OpenApiDoc

open Build World

variable {w w' : World} {K : Kind}

namespace World

/-- A mapping of JSON. -/
structure IsRecord (w : World) (v : Value) : Prop where
  json : w.Is .json v
  mapping : ∃ es, v.mapping? w = some es

theorem IsRecord.extends {v : Value} (h : w.IsRecord v) (k : w.Extends w') : w'.IsRecord v := by
  obtain ⟨es, hm⟩ := h.mapping
  exact ⟨h.json.extends k, es, mapping?_extends hm k⟩

/-- What a mapping holds under its keys is of a kind. -/
def Holding (K : Kind) (w : World) (v : Value) : Prop :=
  ∃ es, v.mapping? w = some es ∧ ∀ e ∈ es, w.Is K e.2

theorem Holding.extends {v : Value} (h : w.Holding K v) (k : w.Extends w') : w'.Holding K v := by
  obtain ⟨es, hm, hes⟩ := h
  exact ⟨es, mapping?_extends hm k, fun e he => (hes e he).extends k⟩

/-- An operation whose fields are data of a kind. -/
def IsOperationOf (K : Kind) (w : World) (v : Value) : Prop :=
  ∃ op, Operation.of? w v = some op ∧ ∀ e ∈ op.fields, w.Is K e.2

theorem IsOperationOf.extends {v : Value} (h : w.IsOperationOf K v) (k : w.Extends w') :
    w'.IsOperationOf K v := by
  obtain ⟨op, ho, fields⟩ := h
  obtain ⟨a, rfl, hg⟩ := Operation.of?_eq ho
  refine ⟨op, ?_, fun e he => (fields e he).extends k⟩
  rw [Operation.of?, k.get a (lt_size_of_get hg (by simp)), hg]

theorem is_text (w : World) (s : String) : w.Is .json (.str s) := is_atom trivial

theorem is_none (w : World) : w.Is .json .none := is_atom trivial

/-- Objects of JSON are collections. -/
theorem Is.collection {a : Addr} (h : w.Is .json (.obj a)) :
    (∃ es, w.get a = .mapping es) ∨ ∃ xs, w.get a = .list xs ∨ w.get a = .tuple xs := by
  have view := h.data.view_tree
  have kind := h.kind
  have data := h.data.kind
  cases hg : w.get a with
  | mapping es => exact .inl ⟨es, rfl⟩
  | list xs => exact .inr ⟨xs, .inl rfl⟩
  | tuple xs => exact .inr ⟨xs, .inr rfl⟩
  | moment m =>
      rw [h.data.tree_moment hg] at kind
      cases kind with
      | moment allowed => exact allowed.elim
  | node f o =>
      rw [h.data.tree_node hg] at kind
      cases kind with
      | node allowed => exact allowed.elim
  | operation op =>
      rw [hg] at view
      rw [← Option.some.inj view] at kind
      cases kind
  | _ => simp [hg, Object.isData] at data

/-- What a loop over a collection meets. -/
theorem Is.iterate {a : Addr} (h : w.Is .json (.obj a)) :
    (Value.obj a).iterate.Yields w fun xs w' => ∀ x ∈ xs, w'.Is .json x := by
  refine .look_bind ?_
  rcases h.collection with ⟨es, hg⟩ | ⟨xs, hg⟩
  · rw [hg]
    refine .pure fun x hx => ?_
    obtain ⟨e, he, rfl⟩ := List.mem_map.mp hx
    obtain ⟨s, hs⟩ := (h.entry hg he).1
    exact hs ▸ is_text w s
  · rcases hg with hx | hx <;> rw [hx] <;> exact .pure fun x => h.item (by simp [hx])

/-- What a list is read from. -/
theorem Is.of_item {v : Value} (h : w.Is .json v) {items : List Input}
    (hi : Field.items? w v = some items) {i : Input} (hmem : i ∈ items) :
    ∃ x, i = .value x ∧ w.Is .json x := by
  cases v with
  | atom a => cases hi
  | obj a =>
      rcases h.collection with ⟨es, hg⟩ | ⟨xs, hg⟩
      · simp [Field.items?, hg, Object.fields?] at hi
      · have same : xs.map Input.value = items := by
          rcases hg with hg | hg <;> simpa [Field.items?, hg] using hi
        subst same
        obtain ⟨x, hx, rfl⟩ := List.mem_map.mp hmem
        exact ⟨x, rfl, h.item hg hx⟩

end World

/-! ### Mappings -/

/-- Nothing, or a mapping of JSON. -/
abbrev World.MayBeRecord (w : World) (v : Value) : Prop := v = .none ∨ w.IsRecord v

theorem World.MayBeRecord.extends {v : Value} (h : w.MayBeRecord v) (k : w.Extends w') :
    w'.MayBeRecord v :=
  h.imp_right fun h => h.extends k

theorem newMapping_yields {es : Entries} (h : w.IsEntries .json es) :
    (newMapping es).Yields w fun u w' => w'.IsRecord u :=
  .of_gives fun ho => (newMapping_is ho h).mono fun _ _ _ hu => ⟨hu.1, es, hu.2⟩

theorem Value.copy_yields {v : Value} (h : w.Is .json v) :
    v.copy.Yields w fun u w' => w'.Is .json u :=
  .of_gives fun ho => copy_is ho h

theorem Value.entries_yields {v : Value} (h : w.IsRecord v) :
    v.entries.Yields w fun es w' => w'.IsEntries .json es := by
  obtain ⟨es, hm⟩ := h.mapping
  refine .get_bind ?_
  rw [hm]
  exact .pure (h.json.entries hm)

theorem Value.entriesOrEmpty_yields {v : Value} (h : w.MayBeRecord v) :
    v.entriesOrEmpty.Yields w fun es w' => w'.IsEntries .json es := by
  refine .get_bind ?_
  split
  next => exact .pure (by simp [IsEntries])
  next given =>
    rcases h with rfl | h
    · exact absurd rfl given
    · exact entries_yields h

/-- Mappings of JSON are put together from JSON. -/
def Composition.json : Composition :=
  { part with
    value := fun w => w.Is .json
    made := IsRecord
    value_text := is_text
    value_flag := fun _ _ => is_atom trivial
    value_none := is_none
    value_extends := fun h k => h.extends k
    value_of_made := fun h => h.json
    mapping := newMapping_yields
    list := newList_yields }

namespace Composition

/-- A mapping that may be given is detached. -/
theorem supplies_record {v : Value} (h : w.MayBeRecord v) (given : v ≠ .none) :
    json.Supplies w (detached v) := fun _ k =>
  (Value.entries_yields ((h.resolve_left given).extends k)).bind fun _ _ _ hes =>
    (newMapping_yields hes).bind fun _ _ _ hu => Value.copy_yields hu.json

theorem supplies_schema {v : Value} (h : w.IsSchematic v) : json.Supplies w (Node.emit v) :=
  fun _ k => Node.emit_json (h.extends k)

theorem copies_json {a : Option Addr} (h : w.Is .json (Operation.optionalObject a)) :
    json.Copies w a := by
  rintro b rfl w' k
  exact .of_gives fun ho => copyObject_is ho (h.extends k)

end Composition

/-! ### Responses, bodies and parameters -/

namespace Response

/-- A schema that may be given, with mappings of JSON that may be given. -/
structure Media.Fits (w : World) (m : Media) : Prop where
  schema : m.schema = .none ∨ w.IsSchematic m.schema
  examples : w.MayBeRecord m.examples
  encoding : w.MayBeRecord m.encoding

theorem Media.Fits.extends {m : Media} (h : m.Fits w) (k : w.Extends w') : m.Fits w' :=
  ⟨h.schema.imp_right fun h => h.extends k, h.examples.extends k, h.encoding.extends k⟩

theorem content_yields (type : String) {m : Media} (h : m.Fits w) :
    (content (.str type) m).Yields w fun u w' => w'.IsRecord u :=
  Composition.keeps_content (C := .json)
    (Composition.keeps_media
      (fun given => Composition.supplies_schema (h.schema.resolve_left given))
      (Composition.supplies_record h.examples) (Composition.supplies_record h.encoding))
    fun _ _ => .get_bind (.pure ⟨type, rfl⟩)

theorem response_yields {description headers links : Value} (type : String) {m : Media}
    (hd : w.Is .json description) (hh : w.MayBeRecord headers) (hl : w.MayBeRecord links)
    (hm : m.Fits w) : (response description (.str type) headers links m).Yields w
      fun u w' => w'.IsRecord u :=
  Composition.keeps_response (C := .json) hd (Composition.supplies_record hh)
    (Composition.supplies_record hl) fun _ k => content_yields type (hm.extends k)

theorem body_yields {description required : Value} (type : String) {m : Media}
    (hd : w.Is .json description) (hr : w.Is .json required) (hm : m.Fits w) :
    (body (.str type) description required m).Yields w fun u w' => w'.IsRecord u :=
  Composition.keeps_body (C := .json) hd hr fun _ k => content_yields type (hm.extends k)

end Response

theorem Parameter.build_yields {name location schema description extra : Value}
    (hn : w.Is .json name) (hs : w.IsSchematic schema) (hd : w.Is .json description)
    (hx : w.MayBeRecord extra) :
    (Parameter.build name location schema description extra).Yields w
      fun u w' => w'.IsRecord u := by
  refine Composition.keeps_parameter (C := .json) hn (fun known => ?_) hd
    (Composition.supplies_schema hs) fun _ k => Value.entriesOrEmpty_yields (hx.extends k)
  unfold isLocation at known
  split at known
  · exact is_text w _
  · cases known

/-! ### Operations -/

namespace Operation

/-- The copies of the responses stand under texts. -/
theorem withTextCodes_yields {responses : Value} (h : w.Holding .json responses) :
    (withTextCodes responses).Yields w fun u w' => w'.IsRecord u := by
  obtain ⟨es, hm, hes⟩ := h
  refine .get_bind ?_
  rw [hm]
  refine (Keeps.mapM_all (R := fun (f : String × Value) w => w.Is .json f.2)
    (fun f _ _ h k => h.extends k) fun e he w₁ k => ?_).bind fun coded w₁ _ hcoded => ?_
  · exact .get_bind ((Value.copy_yields ((hes e he).extends k)).bind fun u w₂ _ hu => .pure hu)
  · have fields : w₁.IsFields .json (Entries.overlay (· == ·) [] coded) :=
      Entries.forall_value_overlay (by simp) hcoded
    exact newMapping_yields fields.named

/-- What was read for an operation is JSON. -/
abbrev Fields.AreJson (w : World) (f : Fields) : Prop := f.All (w.Is .json)

theorem check_json {given read : List (String × Value)}
    (hr : ∀ f ∈ read, f.1 ∈ collected → w.Is .json f.2) {f : Fields}
    (h : check w given read = .ok f) : f.AreJson w := by
  refine check_all (fun v es hv hm e he => (hv.entries hm e he).2) (fun v is hv hi x hx => ?_) hr h
  obtain ⟨y, same, hy⟩ := hv.of_item hi hx
  cases same
  exact hy

theorem newOperation_yields {op : Operation} (h : ∀ e ∈ op.fields, w.Is .json e.2) :
    (Build.new (.operation op)).Yields w fun a w' => w'.IsOperationOf .json (.obj a) := by
  have grown := w.extends_alloc (.operation op)
  have stored : (w.alloc (.operation op)).2.get w.size = .operation op := w.get_alloc_same _
  exact .new fun ho => ⟨ho.extends grown, op, by simp [of?, stored],
    fun e he => (h e he).extends grown⟩

theorem make_yields {f : Fields} (h : f.AreJson w) :
    (make f).Yields w fun u w' => w'.IsOperationOf .json u :=
  Composition.keeps_make (C := .json) h fun _ _ _ fields => newOperation_yields fields

/-- An operation has fields of JSON, if its responses are JSON and so are its parameters, its body and
its extra entries. -/
theorem ofFields_yields {given : List (String × Value)}
    (responses : ∀ f ∈ given, f.1 = "responses" → w.Holding .json f.2)
    (others : ∀ f ∈ given, f.1 ≠ "responses" → f.1 ∈ collected → w.Is .json f.2) :
    (ofFields given).Yields w fun u w' => w'.IsOperationOf .json u := by
  refine (Keeps.mapM_all (R := fun (f : String × Value) w => f.1 ∈ collected → w.Is .json f.2)
    (fun f _ _ h k hn => (h hn).extends k) fun f hf w₁ k => ?_).bind fun read w₁ _ hread => ?_
  · obtain ⟨name, v⟩ := f
    by_cases coded : name = "responses"
    · subst coded
      have h : w₁.Holding .json v := (responses _ hf rfl).extends k
      exact (withTextCodes_yields h).bind fun u w₂ _ hu => .pure fun _ => hu.json
    · simp only [coded, if_false]
      exact .pure fun hn => (others _ hf coded hn).extends k
  · refine .get_bind ?_
    cases hc : check w₁ given read with
    | error rs => exact .throw _
    | ok f => exact make_yields (check_json hread hc)

theorem build_yields {method path responses operationId summary tags parameters requestBody
    extra : Value} (hr : w.Holding .json responses) (hp : w.Is .json parameters)
    (hb : w.Is .json requestBody) (hx : w.MayBeRecord extra) :
    (build method path responses operationId summary tags parameters requestBody extra).Yields w
      fun u w' => w'.IsOperationOf .json u := by
  refine (Value.entriesOrEmpty_yields hx).bind fun es w₁ k₁ hes => ?_
  refine (newMapping_yields hes).bind fun x w₂ k₂ hx => ?_
  have k := k₁.trans k₂
  refine ofFields_yields (fun f hf hn => ?_) fun f hf hn collected => ?_
  · obtain rfl : f = ("responses", responses) := by
      simp only [List.mem_cons, List.not_mem_nil, or_false] at hf
      rcases hf with rfl | rfl | rfl | rfl | rfl | rfl | rfl | rfl | rfl <;> simp at hn ⊢
    exact hr.extends k
  · simp only [List.mem_cons, List.not_mem_nil, or_false] at hf
    rcases hf with rfl | rfl | rfl | rfl | rfl | rfl | rfl | rfl | rfl <;>
      simp [Operation.collected] at collected hn
    · exact hp.extends k
    · exact hb.extends k
    · exact hx.json

theorem emit_yields {op : Operation} (h : ∀ e ∈ op.fields, w.Is .json e.2) {default : Value}
    (hd : w.Is .json default) :
    (op.emit default).Yields w fun u w' => w'.IsRecord u := by
  simp only [fields, List.mem_cons, List.not_mem_nil, or_false, forall_eq_or_imp,
    forall_eq] at h
  obtain ⟨-, -, responses, -, -, tags, parameters, body, extra⟩ := h
  refine Composition.keeps_emit (C := .json) hd (fun b hb => ?_)
    (Composition.copies_json parameters) (Composition.copies_json body)
    (Composition.copies_json (a := some op.responses) responses) fun _ k => ?_
  · rw [hb] at tags
    exact Is.iterate tags
  · exact .of_gives fun ho => (copyObject_is ho (extra.extends k)).mono
      fun _ _ _ hx => Value.further_yields hx

end Operation

/-! ### Documents -/

namespace Paths

/-- Operations bound to names. -/
def Operations (w : World) (v : Value) : Prop :=
  ∃ es, v.mapping? w = some es ∧ ∀ e ∈ es, w.Is .json e.1 ∧ w.IsOperationOf .json e.2

theorem build_yields {operations : Value} (h : Operations w operations) :
    (build operations).Yields w fun u w' => w'.IsRecord u := by
  obtain ⟨es, hm, hes⟩ := h
  refine Composition.keeps_paths (C := .json) ((Value.items_reads hm).keeps ?_)
  intro e he w' k op found
  obtain ⟨op', known, fields⟩ := (hes e he).2.extends k
  cases known.symm.trans found
  exact Operation.emit_yields fields ((hes e he).1.extends k)

end Paths

namespace Document

/-- The schemas of components and further sections of JSON, under texts. -/
def Sections (w : World) (v : Value) : Prop :=
  ∃ es, v.mapping? w = some es ∧ ∀ e ∈ es, ∃ s, e.1 = .str s ∧
    if s = "schemas" then
      ∃ fs, e.2.mapping? w = some fs ∧ ∀ f ∈ fs, (∃ t, f.1 = .str t) ∧ w.IsSchematic f.2
    else w.Is .json e.2

theorem detachedOrEmpty_yields {v : Value} (h : w.MayBeRecord v) :
    (detachedOrEmpty v).Yields w fun u w' => w'.Is .json u :=
  (Value.entriesOrEmpty_yields h).bind fun _ _ _ hes => (newMapping_yields hes).bind
    fun _ _ _ hu => Value.copy_yields hu.json

theorem components_yields {v : Value} (h : Sections w v) :
    (components v).Yields w fun u w' => w'.Is .json u := by
  obtain ⟨es, hm, hes⟩ := h
  refine (Composition.keeps_components (C := .json) ((Value.items_reads hm).keeps ?_)).mono
    fun _ _ _ _ hu => hu.json
  intro e he w' k
  obtain ⟨s, key, h⟩ := hes e he
  rw [key]
  refine Composition.keeps_section ⟨s, rfl⟩ (fun schemas => ?_) fun other => ?_
  · rw [if_pos (by simpa using schemas)] at h
    obtain ⟨fs, hm, hfs⟩ := h
    refine (Value.items_reads (mapping?_extends hm k)).keeps fun f hf => ?_
    exact ⟨(hfs f hf).1, Composition.supplies_schema ((hfs f hf).2.extends k)⟩
  · rw [if_neg (by simpa using other)] at h
    exact Value.copy_yields (h.extends k)

theorem Sections.extends {v : Value} (h : Sections w v) (k : w.Extends w') : Sections w' v := by
  obtain ⟨es, hm, hes⟩ := h
  refine ⟨es, mapping?_extends hm k, fun e he => ?_⟩
  obtain ⟨s, hs, h⟩ := hes e he
  refine ⟨s, hs, ?_⟩
  split at h
  next schemas =>
    obtain ⟨fs, hm, hfs⟩ := h
    rw [if_pos schemas]
    exact ⟨fs, mapping?_extends hm k, fun f hf => ⟨(hfs f hf).1, (hfs f hf).2.extends k⟩⟩
  next other =>
    rw [if_neg other]
    exact h.extends k

/-- What a document is made of. -/
structure Arguments.Fit (w : World) (a : Arguments) : Prop where
  title : w.Is .json a.title
  version : w.Is .json a.version
  paths : w.MayBeRecord a.paths
  components : a.components = .none ∨ Sections w a.components
  openapi : w.Is .json a.openapi
  description : w.Is .json a.description
  servers : w.Is .json a.servers
  extra : w.MayBeRecord a.extra

theorem build_yields {a : Arguments} (h : a.Fit w) :
    (build a).Yields w fun u w' => w'.IsRecord u :=
  Composition.keeps_document (C := .json) h.title h.version h.openapi h.description
    (fun _ _ k => Value.copy_yields (h.servers.extends k))
    (fun _ k => detachedOrEmpty_yields (h.paths.extends k))
    (fun given _ k => components_yields ((h.components.resolve_left given).extends k))
    fun _ k => (detachedOrEmpty_yields (h.extra.extends k)).mono
      fun _ _ _ _ hx => Value.further_yields hx

end Document
end OpenApiDoc
