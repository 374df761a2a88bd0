import OpenApiDoc.Document
import OpenApiDoc.Parameter
import OpenApiDoc.Schema.Constructors
import OpenApiDoc.Proofs.Outcomes

/-! # Putting mappings together

Schemas, responses, parameters, operations, maps of paths and documents are mappings that are put
together from values, from copies and from smaller mappings of this kind. What is kept on the way is
the same argument for each invariant, so each function is followed once, for any `Composition`: an
invariant of the world with a property of keys and one of values, such that entries of this kind can
be made a mapping. What a function takes from its arguments stands in the hypotheses.

* `Composition.Nodes` is what is known of nodes that are made of such entries. From it there is one
  rule for each constructor of schemas, as `Composition.Nodes.keeps_object`.
* `Composition.keeps_media`, `Composition.keeps_content`, `Composition.keeps_response` and
  `Composition.keeps_body` are about responses and bodies, `Composition.keeps_parameter` about
  parameters.
* `Composition.keeps_make` stores the fields of an operation, `Composition.keeps_emit` writes its
  operation object, and `Composition.keeps_paths` gathers such objects.
* `Composition.keeps_components` and `Composition.keeps_document` are about documents. -/

namespace OpenApiDoc

/-- A collection is an object. -/
theorem Build.Keeps.of_newObject {I : World → Prop} {w : World} {o : Object}
    {Q : Value → World → Prop} (h : (do return .obj (← Build.new o) : Build Value).Keeps I w Q) :
    (Build.new o).Keeps I w fun a w' => Q (.obj a) w' := h

/-- What was read for an operation, down to the values that are not looked into. -/
structure Operation.Fields.All (P : Value → Prop) (f : Operation.Fields) : Prop where
  responses : ∀ r ∈ f.responses, ∀ e ∈ r.2, P e.2
  parameters : ∀ ps, f.parameters = some ps → ∀ p ∈ ps, ∀ e ∈ p, P e.2
  requestBody : ∀ b, f.requestBody = some b → ∀ e ∈ b, P e.2
  extra : ∀ e ∈ f.extra, P e.2

/-- An invariant of the world, a property of keys, one of values, and one of the mappings that are
made of such entries. The properties last while the world grows. -/
structure Composition where
  inv : World → Prop
  key : World → Value → Prop
  value : World → Value → Prop
  made : World → Value → Prop
  key_text (w : World) (s : String) : key w (.str s)
  value_text (w : World) (s : String) : value w (.str s)
  value_flag (w : World) (b : Bool) : value w (.bool b)
  value_none (w : World) : value w .none
  key_extends {w w' : World} {k : Value} : key w k → w.Extends w' → key w' k
  value_extends {w w' : World} {v : Value} : value w v → w.Extends w' → value w' v
  value_of_made {w : World} {v : Value} : made w v → value w v
  mapping {w : World} {es : Entries} : (∀ e ∈ es, key w e.1 ∧ value w e.2) →
    (Build.newMapping es).Keeps inv w fun u w' => made w' u
  list {w : World} {xs : List Value} : (∀ x ∈ xs, value w x) →
    (Build.newList xs).Keeps inv w fun u w' => value w' u
  logs (logger message : String) (w : World) :
    (Build.record logger message).Keeps inv w fun _ _ => True

namespace Composition

variable {C : Composition} {w w' : World}

/-- The values of these fields are of the kind that is composed. -/
def Fields (C : Composition) (w : World) (fs : List (String × Value)) : Prop :=
  ∀ f ∈ fs, C.value w f.2

/-- These entries can be made a mapping. -/
def Pairs (C : Composition) (w : World) (es : Entries) : Prop :=
  ∀ e ∈ es, C.key w e.1 ∧ C.value w e.2

/-- From this world on, the step comes to a value of the kind that is composed. -/
def Supplies (C : Composition) (w : World) (act : Build Value) : Prop :=
  ∀ w', w.Extends w' → act.Keeps C.inv w' fun u w'' => C.value w'' u

/-- From this world on, the collection that may be there can be copied. -/
def Copies (C : Composition) (w : World) (a : Option Addr) : Prop :=
  ∀ b, a = some b → ∀ w', w.Extends w' →
    (Build.copyObject b).Keeps C.inv w' fun c w'' => C.value w'' (.obj c)

theorem Supplies.extends {act : Build Value} (h : C.Supplies w act) (k : w.Extends w') :
    C.Supplies w' act :=
  fun w'' k' => h w'' (k.trans k')

theorem Supplies.here {act : Build Value} (h : C.Supplies w act) :
    act.Keeps C.inv w fun u w' => C.value w' u :=
  h w (.refl w)

theorem Copies.extends {a : Option Addr} (h : C.Copies w a) (k : w.Extends w') : C.Copies w' a :=
  fun b hb w'' k' => h b hb w'' (k.trans k')

/-! ### Fields -/

theorem Fields.nil : C.Fields w [] := by
  simp [Fields]

theorem Fields.single {v : Value} (h : C.value w v) (name : String) : C.Fields w [(name, v)] := by
  simpa [Fields] using h

theorem Fields.append {fs gs : List (String × Value)} (h : C.Fields w fs) (k : C.Fields w gs) :
    C.Fields w (fs ++ gs) :=
  List.forall_mem_append.mpr ⟨h, k⟩

theorem Fields.extends {fs : List (String × Value)} (h : C.Fields w fs) (k : w.Extends w') :
    C.Fields w' fs :=
  fun f hf => C.value_extends (h f hf) k

theorem Fields.named {fs : List (String × Value)} (h : C.Fields w fs) :
    C.Pairs w (Entries.named fs) :=
  List.forall_mem_map.mpr fun f hf => ⟨C.key_text w f.1, h f hf⟩

theorem Pairs.extends {es : Entries} (h : C.Pairs w es) (k : w.Extends w') : C.Pairs w' es :=
  fun e he => ⟨C.key_extends (h e he).1 k, C.value_extends (h e he).2 k⟩

theorem Pairs.overlay {es extra : Entries} (h : C.Pairs w es) (hx : C.Pairs w extra)
    (same : Value → Value → Bool) : C.Pairs w (Entries.overlay same es extra) :=
  Entries.forall_overlay h hx

/-- A field that is left out when its value is not given. -/
theorem Fields.given {v : Value} (h : C.value w v) (name : String) :
    C.Fields w (if v.isNone then [] else [(name, v)]) := by
  split
  · exact .nil
  · exact .single h name

theorem keeps_record {fs : List (String × Value)} (h : C.Fields w fs) :
    (record fs).Keeps C.inv w fun u w' => C.made w' u :=
  C.mapping h.named

theorem keeps_optionalField {name : String} {v : Value} {make : Value → Build Value}
    (h : v ≠ .none → C.Supplies w (make v)) :
    (optionalField name v make).Keeps C.inv w fun fs w' => C.Fields w' fs := by
  unfold optionalField
  split
  next => exact .pure .nil
  next given =>
    have given : v ≠ .none := by simpa [Value.isNone] using given
    exact (h given).here.bind fun u w₁ _ hu => .pure (.single hu name)

/-- A value that may be given is taken as it is. -/
theorem keeps_givenField {name : String} {v : Value} (h : C.value w v) :
    (optionalField name v pure).Keeps C.inv w fun fs w' => C.Fields w' fs :=
  keeps_optionalField fun _ _ k => .pure (C.value_extends h k)

/-! ### Schemas -/

/-- What is known of the nodes that are made of such entries, by the world from which on they are
made. -/
structure Nodes (C : Composition) (N : World → Value → World → Prop) : Prop where
  entries {w : World} {es : Entries} : C.Pairs w es →
    ∀ o, (Node.ofEntries es o).Keeps C.inv w (N w)
  since {w₀ w w' : World} {u : Value} : N w u w' → w₀.Extends w → N w₀ u w'

/-- From this world on, the further entries can be laid over others. -/
def Further (C : Composition) (w : World) (extra : Value) : Prop :=
  ∀ w', w.Extends w' → extra.furtherOrEmpty.Keeps C.inv w' fun es w'' => C.Pairs w'' es

theorem Further.extends {extra : Value} (h : C.Further w extra) (k : w.Extends w') :
    C.Further w' extra :=
  fun w'' k' => h w'' (k.trans k')

section schema

open Schema

variable {N : World → Value → World → Prop} {description extra : Value}

theorem value_textOrNone (s : Option String) : C.value w (textOrNone s) := by
  cases s with
  | none => exact C.value_none w
  | some s => exact C.value_text w s

variable (hN : C.Nodes N)
include hN

theorem Nodes.later {act : Build Value} (k : w.Extends w') (h : act.Keeps C.inv w' (N w')) :
    act.Keeps C.inv w' (N w) :=
  h.mono fun _ _ _ _ hu => hN.since hu k

theorem Nodes.keeps_node {fs : List (String × Value)} (hf : C.Fields w fs)
    (hx : C.Further w extra) : (node fs extra).Keeps C.inv w (N w) := by
  have generated : C.Fields w (fs.filter fun f => !f.2.isNone) := fun f hmem =>
    hf f (List.mem_filter.mp hmem).1
  refine (hx w (.refl w)).bind fun es w₁ k hes => .get_bind ?_
  exact hN.later k (hN.entries ((generated.extends k).named.overlay hes _) false)

theorem Nodes.keeps_leaf (type : String) (format : Option String) (hd : C.value w description)
    (hx : C.Further w extra) :
    (leaf type format description extra).Keeps C.inv w (N w) := by
  refine hN.keeps_node ?_ hx
  simpa [Fields] using ⟨C.value_text w type, value_textOrNone format, hd⟩

theorem Nodes.keeps_pattern (regex : Value) (hd : C.value w description)
    (hx : C.Further w extra) : (pattern regex description extra).Keeps C.inv w (N w) := by
  have of_source (source : String) : (node [("type", .str "string"), ("description", description),
      ("pattern", .str source)] extra).Keeps C.inv w (N w) :=
    hN.keeps_node (by simpa [Fields] using ⟨C.value_text w _, hd, C.value_text w _⟩) hx
  cases regex with
  | obj a => exact .throw _
  | atom a =>
      cases a with
      | pattern source => exact of_source source
      | str source => exact of_source source
      | _ => exact .throw _

theorem Nodes.keeps_constant {value : Value} (hv : C.value w value) (hd : C.value w description)
    (hx : C.Further w extra) :
    (constant value description extra).Keeps C.inv w (N w) := by
  have only : ∀ v ∈ [value], C.value w v := by simpa using hv
  refine (C.list only).bind fun u w₁ k hu => hN.later k (hN.keeps_node ?_ (hx.extends k))
  simpa [Fields] using ⟨value_textOrNone _, C.value_extends hd k, hu⟩

/-- The values of a choice are the keys that a loop meets. -/
theorem Nodes.keeps_choice {values : Value}
    (keys : values.iterate.Keeps C.inv w fun xs w' => ∀ x ∈ xs, C.value w' x)
    (items : ∀ w', w.Extends w' → values.items.Keeps C.inv w' fun _ _ => True)
    (hx : C.Further w extra) : (choice values extra).Keeps C.inv w (N w) := by
  refine .get_bind ?_
  by_cases empty : w.isEmpty values
  · rw [if_pos empty]
    exact .throw _
  · rw [if_neg empty]
    refine keys.bind fun xs w₁ k₁ hxs => (items w₁ k₁).bind fun es w₂ k₂ _ => .get_bind ?_
    refine (C.list fun x hx => C.value_extends (hxs x hx) k₂).bind fun u w₃ k₃ hu => ?_
    have k := (k₁.trans k₂).trans k₃
    refine hN.later k (hN.keeps_node ?_ (hx.extends k))
    simpa [Fields] using ⟨value_textOrNone _, C.value_text w₃ _, hu⟩

theorem Nodes.keeps_ref (target : Value) : (ref target).Keeps C.inv w (N w) := by
  cases target with
  | obj a => exact .lack _ _
  | atom a =>
      cases a with
      | str s => exact hN.entries (Fields.single (C.value_text w (pointer s)) "$ref").named false
      | bytes bs => exact .throw _
      | _ => exact .lack _ _

theorem Nodes.keeps_array {items : Value} (hi : C.Supplies w (Node.emit items))
    (hd : C.value w description) (hx : C.Further w extra) :
    (array items description extra).Keeps C.inv w (N w) := by
  refine hi.here.bind fun u w₁ k hu => hN.later k (hN.keeps_node ?_ (hx.extends k))
  simpa [Fields] using ⟨C.value_text w₁ "array", C.value_extends hd k, hu⟩

omit hN in
/-- The properties are emitted one after the other. -/
theorem keeps_properties {children : Entries}
    (h : ∀ e ∈ children, C.Supplies w (Node.emit e.2)) :
    (properties children).Keeps C.inv w fun p w' =>
      C.Pairs w' p.1 ∧ ∀ v ∈ p.2, C.value w' v := by
  refine Build.Keeps.foldlM (by simp [Pairs]) fun child hmem acc w₁ k ⟨emitted, names⟩ => ?_
  obtain ⟨key, value⟩ := child
  cases key with
  | obj a => exact .throw _
  | atom a =>
      cases a with
      | str s =>
          refine (h _ hmem w₁ k).bind fun u w₂ k₂ hu => .get_bind (.pure ⟨?_, ?_⟩)
          · have last : C.Pairs w₂ [(.str s, u)] := by simpa [Pairs] using ⟨C.key_text w₂ s, hu⟩
            exact List.forall_mem_append.mpr ⟨emitted.extends k₂, last⟩
          · have names : ∀ v ∈ acc.2, C.value w₂ v := fun v hv => C.value_extends (names v hv) k₂
            split
            · exact List.forall_mem_append.mpr ⟨names, by simpa using C.value_text w₂ s⟩
            · exact names
      | _ => exact .throw _

theorem Nodes.keeps_object {children : Value}
    (items : children.items.Keeps C.inv w fun es w' => ∀ e ∈ es, C.Supplies w' (Node.emit e.2))
    (hd : C.value w description) (hx : C.Further w extra) :
    (object children description extra).Keeps C.inv w (N w) := by
  refine items.bind fun es w₁ k₁ hes => (keeps_properties hes).bind fun p w₂ k₂ hp => ?_
  obtain ⟨emitted, names⟩ := p
  have finish (needed : Value) (w₃ : World) (k₃ : w₂.Extends w₃) (hn : C.value w₃ needed) :
      Build.Keeps C.inv (do
        node [("type", .str "object"), ("additionalProperties", .bool false),
          ("required", needed), ("properties", ← Build.newMapping emitted),
          ("description", description)] extra) w₃ (N w) := by
    refine (C.mapping (hp.1.extends k₃)).bind fun u w₄ k₄ hu => ?_
    have k := ((k₁.trans k₂).trans k₃).trans k₄
    refine hN.later k (hN.keeps_node ?_ (hx.extends k))
    simp only [Fields, List.mem_cons, List.not_mem_nil, or_false, forall_eq_or_imp, forall_eq]
    exact ⟨C.value_text w₄ _, C.value_flag w₄ _, C.value_extends hn k₄, C.value_of_made hu,
      C.value_extends hd k⟩
  by_cases none : names.isEmpty
  · simp only [none, if_true, pure_bind]
    exact finish Value.none w₂ (.refl w₂) (C.value_none w₂)
  · simp only [none]
    exact (C.list hp.2).bind fun u w₃ k₃ hu => finish u w₃ k₃ hu

end schema

/-! ### Responses, bodies and parameters -/

section response

open Response

variable {m : Media} {type description : Value}

theorem keeps_media (schema : m.schema ≠ .none → C.Supplies w (Node.emit m.schema))
    (examples : m.examples ≠ .none → C.Supplies w (detached m.examples))
    (encoding : m.encoding ≠ .none → C.Supplies w (detached m.encoding)) :
    m.build.Keeps C.inv w fun u w' => C.made w' u := by
  refine (keeps_optionalField schema).bind fun fs w₁ k₁ hfs => ?_
  refine (keeps_optionalField fun given => (examples given).extends k₁).bind
    fun gs w₂ k₂ hgs => ?_
  refine (keeps_optionalField fun given => (encoding given).extends (k₁.trans k₂)).bind
    fun hs w₃ k₃ hhs => ?_
  exact keeps_record (((hfs.extends (k₂.trans k₃)).append (hgs.extends k₃)).append hhs)

theorem keeps_content (media : m.build.Keeps C.inv w fun u w' => C.made w' u)
    (key : ∀ w', w.Extends w' →
      (Build.requireKey type).Keeps C.inv w' fun _ w'' => C.key w'' type) :
    (content type m).Keeps C.inv w fun u w' => C.made w' u := by
  refine media.bind fun u w₁ k₁ hu => (key w₁ k₁).bind fun _ w₂ k₂ hkey => C.mapping ?_
  simpa using ⟨hkey, C.value_extends (C.value_of_made hu) k₂⟩

theorem keeps_response {headers links : Value} (hd : C.value w description)
    (hh : headers ≠ .none → C.Supplies w (detached headers))
    (hl : links ≠ .none → C.Supplies w (detached links))
    (hc : ∀ w', w.Extends w' → (content type m).Keeps C.inv w' fun u w'' => C.made w'' u) :
    (response description type headers links m).Keeps C.inv w fun u w' => C.made w' u := by
  refine (keeps_givenField hd).bind fun fs w₁ k₁ hfs => ?_
  refine (keeps_optionalField fun given => (hh given).extends k₁).bind fun gs w₂ k₂ hgs => ?_
  have k₁₂ := k₁.trans k₂
  refine (keeps_optionalField fun given => (hl given).extends k₁₂).bind fun ls w₃ k₃ hls => ?_
  refine (hc w₃ (k₁₂.trans k₃)).bind fun c w₄ k₄ hc => keeps_record ?_
  exact (((hfs.extends ((k₂.trans k₃).trans k₄)).append (hgs.extends (k₃.trans k₄))).append
    (hls.extends k₄)).append (.single (C.value_of_made hc) "content")

theorem keeps_body {required : Value} (hd : C.value w description) (hr : C.value w required)
    (hc : ∀ w', w.Extends w' → (content type m).Keeps C.inv w' fun u w'' => C.made w'' u) :
    (body type description required m).Keeps C.inv w fun u w' => C.made w' u := by
  refine .get_bind ((keeps_givenField hd).bind fun fs w₁ k₁ hfs => ?_)
  refine (hc w₁ k₁).bind fun c w₂ k₂ hc => keeps_record ((hfs.extends k₂).append ?_)
  have needed : C.value w₂
      (if required.isNone then .bool (!Node.isOptional w m.schema) else required) := by
    split
    · exact C.value_flag w₂ _
    · exact C.value_extends hr (k₁.trans k₂)
  exact Fields.append (.single needed "required") (.single (C.value_of_made hc) "content")

theorem keeps_parameter {name location schema extra : Value} (hn : C.value w name)
    (hl : Parameter.isLocation location → C.value w location) (hd : C.value w description)
    (hs : C.Supplies w (Node.emit schema))
    (hx : ∀ w', w.Extends w' →
      extra.entriesOrEmpty.Keeps C.inv w' fun es w'' => C.Pairs w'' es) :
    (Parameter.build name location schema description extra).Keeps C.inv w
      fun u w' => C.made w' u := by
  unfold Parameter.build
  by_cases known : Parameter.isLocation location
  · simp only [known, Bool.not_true, Bool.false_eq_true, if_false]
    refine .get_bind (hs.here.bind fun emitted w₁ k₁ he => ?_)
    refine (hx w₁ k₁).bind fun es w₂ k₂ hes => .get_bind (C.mapping ?_)
    have k := k₁.trans k₂
    have first (needed : Bool) : C.Fields w₂
        [("name", name), ("in", location), ("required", .bool needed)] := by
      simpa [Fields] using ⟨C.value_extends hn k, C.value_extends (hl known) k, C.value_flag w₂ _⟩
    exact Pairs.overlay (((first _).append (.given (C.value_extends hd k) "description")).append
      (.single (C.value_extends he k₂) "schema")).named hes _
  · simp only [known]
    exact .throw _

end response

/-! ### Operations -/

section operation

open Operation

variable {op : Operation}

theorem keeps_newRecord {fs : List (String × Value)} (h : C.Fields w fs) :
    (newRecord fs).Keeps C.inv w fun a w' => C.made w' (.obj a) :=
  Build.Keeps.of_newObject (keeps_record h)

theorem keeps_newListOrNone {α : Type} {item : α → Build Value} {xs : Option (List α)}
    (h : ∀ ys, xs = some ys → ∀ y ∈ ys, C.Supplies w (item y)) :
    (newListOrNone item xs).Keeps C.inv w fun a w' => C.value w' (optionalObject a) := by
  cases xs with
  | none => exact .pure (C.value_none w)
  | some ys =>
      refine (Build.Keeps.mapM_all (R := fun u w => C.value w u)
        (fun u _ _ h k => C.value_extends h k) (h ys rfl)).bind fun us w₁ _ hus => ?_
      exact (Build.Keeps.of_newObject (C.list hus)).bind fun a w₂ _ ha => .pure ha

/-- An operation holds new collections of the values that were read for it. -/
theorem keeps_make {f : Operation.Fields} {Q : Value → World → Prop} (h : f.All (C.value w))
    (store : ∀ op w', w.Extends w' → (∀ e ∈ op.fields, C.value w' e.2) →
      (Build.new (.operation op)).Keeps C.inv w' fun a w'' => Q (.obj a) w'') :
    (make f).Keeps C.inv w Q := by
  have later {fs : List (String × Value)} (hfs : ∀ e ∈ fs, C.value w e.2) {w' : World}
      (k : w.Extends w') : C.Fields w' fs := Fields.extends hfs k
  refine (Build.Keeps.mapM_all (R := fun (r : String × Value) w => C.value w r.2)
    (fun r _ _ h k => C.value_extends h k) fun r hr w₁ k => ?_).bind fun rs w₁ k₁ hrs => ?_
  · exact (keeps_record (later (h.responses r hr) k)).bind fun u w₂ _ hu =>
      .pure (C.value_of_made hu)
  refine (keeps_newRecord hrs).bind fun responses w₂ k₂ hresponses => ?_
  refine (keeps_newListOrNone fun ss _ s _ w' _ => .pure (C.value_text w' s)).bind
    fun tags w₃ k₃ htags => ?_
  have k₁₃ := (k₁.trans k₂).trans k₃
  refine (keeps_newListOrNone fun ps hps q hq w' k => ?_).bind
    fun parameters w₄ k₄ hparameters => ?_
  · exact (keeps_record (later (h.parameters ps hps q hq) (k₁₃.trans k))).mono
      fun _ _ _ _ hu => C.value_of_made hu
  have k₁₄ := k₁₃.trans k₄
  have body : (f.requestBody.mapM newRecord).Keeps C.inv w₄
      fun a w' => C.value w' (optionalObject a) := by
    cases hb : f.requestBody with
    | none => exact .pure (C.value_none w₄)
    | some fs =>
        exact (keeps_newRecord (later (h.requestBody fs hb) k₁₄)).bind fun a w₅ _ ha =>
          .pure (C.value_of_made ha)
  refine body.bind fun requestBody w₅ k₅ hbody => ?_
  have k₁₅ := k₁₄.trans k₅
  refine (keeps_newRecord (later h.extra k₁₅)).bind fun extra w₆ k₆ hextra => ?_
  refine (store _ w₆ (k₁₅.trans k₆) fun e he => ?_).bind fun a w₇ _ ha => .pure ha
  have text (s : Option String) : C.value w₆ (optionalText s) := by
    cases s with
    | none => exact C.value_none w₆
    | some s => exact C.value_text w₆ s
  simp only [fields, List.mem_cons, List.not_mem_nil, or_false] at he
  rcases he with rfl | rfl | rfl | rfl | rfl | rfl | rfl | rfl | rfl
  · exact C.value_text w₆ _
  · exact C.value_text w₆ _
  · exact C.value_extends (C.value_of_made hresponses) (((k₃.trans k₄).trans k₅).trans k₆)
  · exact text _
  · exact text _
  · exact C.value_extends htags ((k₄.trans k₅).trans k₆)
  · exact C.value_extends hparameters (k₅.trans k₆)
  · exact C.value_extends hbody k₆
  · exact C.value_of_made hextra

theorem keeps_copiedField {name : String} {a : Option Addr} (h : C.Copies w a) :
    (copiedField name a).Keeps C.inv w fun fs w' => C.Fields w' fs := by
  cases a with
  | none => exact .pure .nil
  | some b => exact (h b rfl w (.refl w)).bind fun c w₁ _ hc => .pure (.single hc name)

theorem keeps_listField {name : String} {a : Option Addr}
    (h : ∀ b, a = some b →
      (Value.obj b).iterate.Keeps C.inv w fun xs w' => ∀ x ∈ xs, C.value w' x) :
    (listField name a).Keeps C.inv w fun fs w' => C.Fields w' fs := by
  cases a with
  | none => exact .pure .nil
  | some b =>
      exact (h b rfl).bind fun xs w₁ _ hxs => (C.list hxs).bind fun u w₂ _ hu =>
        .pure (.single hu name)

/-- An operation object is made of the identifier, the summary, the tags, and copies of what else
the operation holds; the entries of a copy of its extra entries are laid over them. -/
theorem keeps_emit {default : Value} (hd : C.value w default)
    (tags : ∀ b, op.tags = some b →
      (Value.obj b).iterate.Keeps C.inv w fun xs w' => ∀ x ∈ xs, C.value w' x)
    (parameters : C.Copies w op.parameters) (requestBody : C.Copies w op.requestBody)
    (responses : C.Copies w (some op.responses))
    (extra : ∀ w', w.Extends w' → (Build.copyObject op.extra).Keeps C.inv w' fun c w'' =>
      (Value.obj c).further.Keeps C.inv w'' fun es w₃ => C.Pairs w₃ es) :
    (op.emit default).Keeps C.inv w fun u w' => C.made w' u := by
  have identified : C.Fields w (if (op.identifier default).isNone then []
      else [("operationId", op.identifier default)]) := by
    refine .given ?_ "operationId"
    unfold identifier
    split
    · split
      · exact hd
      · exact C.value_text w _
    · exact hd
  have summary : C.Fields w (op.summary.elim [] fun s => [("summary", Value.str s)]) := by
    cases op.summary with
    | none => exact .nil
    | some s => exact .single (C.value_text w s) "summary"
  refine (keeps_listField tags).bind fun tags w₁ k₁ htags => ?_
  refine (keeps_copiedField (parameters.extends k₁)).bind fun parameters w₂ k₂ hparameters => ?_
  have k₁₂ := k₁.trans k₂
  refine (keeps_copiedField (requestBody.extends k₁₂)).bind fun body w₃ k₃ hbody => ?_
  have k₁₃ := k₁₂.trans k₃
  refine (keeps_copiedField (responses.extends k₁₃)).bind fun responses w₄ k₄ hresponses => ?_
  have k₁₄ := k₁₃.trans k₄
  refine (extra w₄ k₁₄).bind fun x w₅ k₅ further => ?_
  refine further.bind fun extra w₆ k₆ hextra => .get_bind (C.mapping ?_)
  have k₅₆ := k₅.trans k₆
  have generated := (((((identified.extends (k₁₄.trans k₅₆)).append
    (summary.extends (k₁₄.trans k₅₆))).append
    (htags.extends (((k₂.trans k₃).trans k₄).trans k₅₆))).append
    (hparameters.extends ((k₃.trans k₄).trans k₅₆))).append
    (hbody.extends (k₄.trans k₅₆))).append (hresponses.extends k₅₆)
  exact generated.named.overlay hextra _

end operation

/-! ### Maps of paths -/

section paths

open Paths

/-- What holds of the operation objects that were gathered still does when one more of them is
added. -/
theorem fields_add {g : Gathered} (h : ∀ p ∈ g.paths, C.Fields w p.2) (path method : String)
    {name v : Value} (hv : C.value w v) :
    ∀ p ∈ (g.add path method name v).paths, C.Fields w p.2 := by
  refine Entries.forall_value_insert (Q := C.Fields w) h (Entries.forall_value_insert ?_ hv)
  cases found : g.paths.lookup path with
  | none => simp
  | some methods => exact h _ (Entries.mem_of_lookup found)

theorem keeps_step {g : Gathered} (h : ∀ p ∈ g.paths, C.Fields w p.2) {e : Value × Value}
    (emit : ∀ op, Operation.of? w e.2 = some op →
      (op.emit e.1).Keeps C.inv w fun u w' => C.made w' u) :
    (step g e).Keeps C.inv w fun g w' => ∀ p ∈ g.paths, C.Fields w' p.2 := by
  refine .get_bind ?_
  cases ho : Operation.of? w e.2 with
  | none => exact .throw _
  | some op =>
      simp only
      cases g.owners.lookup (op.path, Text.lower op.method) with
      | some first => exact .throw _
      | none =>
          refine (emit op ho).bind fun u w₁ k₁ hu => .get_bind ?_
          refine (C.logs _ _ w₁).bind fun _ w₂ k₂ _ => .pure ?_
          exact fields_add (fun p hp => (h p hp).extends (k₁.trans k₂)) _ _
            (C.value_extends (C.value_of_made hu) k₂)

theorem keeps_paths {operations : Value}
    (bindings : operations.items.Keeps C.inv w fun es w₁ => ∀ e ∈ es, ∀ w', w₁.Extends w' →
      ∀ op, Operation.of? w' e.2 = some op →
        (op.emit e.1).Keeps C.inv w' fun u w'' => C.made w'' u) :
    (build operations).Keeps C.inv w fun u w' => C.made w' u := by
  refine bindings.bind fun es w₁ k₁ emit => ?_
  refine (Build.Keeps.foldlM (R := fun g w => ∀ p ∈ g.paths, C.Fields w p.2) ?_
    fun e he g w₂ k hg => keeps_step hg (emit e he w₂ k)).bind fun g w₂ k₂ hg => ?_
  · simp [Gathered.empty]
  refine (C.logs _ _ w₂).bind fun _ w₃ k₃ _ => ?_
  refine (Build.Keeps.mapM_all (R := fun (p : String × Value) w => C.value w p.2)
    (fun p _ _ h k => C.value_extends h k) fun p hp w₄ k => ?_).bind
    fun ps w₄ k₄ hps => keeps_record hps
  exact (keeps_record ((hg p hp).extends (k₃.trans k))).bind fun u w₅ _ hu =>
    .pure (C.value_of_made hu)

end paths

/-! ### Documents -/

section document

open Document

/-- The schemas among the components are emitted, and any other section is copied. -/
theorem keeps_section {name entries : Value} (hn : C.key w name)
    (schemas : w.sameKey name (.str "schemas") → entries.items.Keeps C.inv w fun es w' =>
      ∀ e ∈ es, C.key w' e.1 ∧ C.Supplies w' (Node.emit e.2))
    (other : ¬ w.sameKey name (.str "schemas") →
      entries.copy.Keeps C.inv w fun u w' => C.value w' u) :
    (componentSection name entries).Keeps C.inv w fun p w' => C.key w' p.1 ∧ C.value w' p.2 := by
  refine .get_bind ?_
  by_cases same : w.sameKey name (.str "schemas")
  · rw [if_pos same]
    refine (schemas same).bind fun es w₁ k₁ hes => ?_
    refine (Build.Keeps.mapM_all (R := fun (e : Value × Value) w => C.key w e.1 ∧ C.value w e.2)
      (fun e _ _ h k => ⟨C.key_extends h.1 k, C.value_extends h.2 k⟩) fun e he w₂ k => ?_).bind
      fun fs w₂ k₂ hfs => ?_
    · exact ((hes e he).2 w₂ k).bind fun u w₃ k' hu =>
        .pure ⟨C.key_extends (hes e he).1 (k.trans k'), hu⟩
    · exact (C.mapping hfs).bind fun u w₃ k₃ hu =>
        .pure ⟨C.key_extends hn ((k₁.trans k₂).trans k₃), C.value_of_made hu⟩
  · rw [if_neg same]
    exact (other same).bind fun u w₁ k hu => .pure ⟨C.key_extends hn k, hu⟩

theorem keeps_components {v : Value}
    (sections : v.items.Keeps C.inv w fun es w₁ => ∀ e ∈ es, ∀ w', w₁.Extends w' →
      (componentSection e.1 e.2).Keeps C.inv w' fun p w'' => C.key w'' p.1 ∧ C.value w'' p.2) :
    (components v).Keeps C.inv w fun u w' => C.made w' u := by
  refine sections.bind fun es w₁ k₁ hes => ?_
  exact (Build.Keeps.mapM_all (R := fun (e : Value × Value) w => C.key w e.1 ∧ C.value w e.2)
    (fun e _ _ h k => ⟨C.key_extends h.1 k, C.value_extends h.2 k⟩) hes).bind
    fun fs w₂ _ hfs => C.mapping hfs

theorem keeps_document {a : Arguments} (title : C.value w a.title) (version : C.value w a.version)
    (openapi : C.value w a.openapi) (description : C.value w a.description)
    (servers : a.servers ≠ .none → C.Supplies w a.servers.copy)
    (paths : C.Supplies w (detachedOrEmpty a.paths))
    (parts : a.components ≠ .none → C.Supplies w (components a.components))
    (extra : ∀ w', w.Extends w' → (detachedOrEmpty a.extra).Keeps C.inv w' fun x w'' =>
      x.further.Keeps C.inv w'' fun es w₃ => C.Pairs w₃ es) :
    (build a).Keeps C.inv w fun u w' => C.made w' u := by
  have titled : C.Fields w [("title", a.title), ("version", a.version)] :=
    Fields.append (.single title "title") (.single version "version")
  refine (keeps_record (titled.append (.given description "description"))).bind
    fun info w₁ k₁ hinfo => ?_
  refine (keeps_optionalField fun given => (servers given).extends k₁).bind
    fun servers w₂ k₂ hservers => ?_
  have k₁₂ := k₁.trans k₂
  refine (paths w₂ k₁₂).bind fun paths w₃ k₃ hpaths => ?_
  have k₁₃ := k₁₂.trans k₃
  refine (keeps_optionalField fun given => (parts given).extends k₁₃).bind
    fun parts w₄ k₄ hparts => ?_
  have k₁₄ := k₁₃.trans k₄
  refine (extra w₄ k₁₄).bind fun x w₅ k₅ further => ?_
  refine further.bind fun extra w₆ k₆ hextra => .get_bind (C.mapping ?_)
  have k₅₆ := k₅.trans k₆
  have first : C.Fields w₆ [("openapi", a.openapi), ("info", info)] :=
    Fields.append (.single (C.value_extends openapi (k₁₄.trans k₅₆)) "openapi")
      (.single (C.value_extends (C.value_of_made hinfo)
        (((k₂.trans k₃).trans k₄).trans k₅₆)) "info")
  have second : C.Fields w₆ [("paths", paths)] :=
    .single (C.value_extends hpaths (k₄.trans k₅₆)) "paths"
  have generated := ((first.append (hservers.extends ((k₃.trans k₄).trans k₅₆))).append
    second).append (hparts.extends k₅₆)
  exact generated.named.overlay hextra _

end document

end Composition
end OpenApiDoc
