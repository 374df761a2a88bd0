import OpenApiDoc.Proofs.Requirements

/-! # What is required follows the flag

Whether something is required is said in three places: parameters and request bodies have a truth value
under "required", and the schema of an object has a list of names there, which is missing if it would
be empty. All of them follow the flag of the schema.

* `Tree.required?` and `Tree.requires?` read it off views.
* `Schema.Derives` are the calls that are given a schema, with what they say of it.
* `Delivered.carries`: operations, maps of paths and documents change nothing about this.
* `Schema.optionality_propagates` puts this together. -/

namespace OpenApiDoc

open Build World

variable {w w' : World} {v u x : Value} {keys : List Value} {o : Bool} {load : Value → Build Value}

/-! ### Views -/

namespace Tree

/-- The truth value that stands under "required". -/
def required? (t : Tree) : Option Bool :=
  match t.part? (.name "required") with
  | some (.bool b) => some b
  | _ => Option.none

/-- Whether the name is listed under "required". If nothing stands there, it is not. -/
def requires? (name : String) : Tree → Option Bool
  | .mapping es =>
    match Entries.find? same es (.str "required") with
    | Option.none => some false
    | some (.list ts) => some (ts.any fun t => t.same (.str name))
    | some _ => Option.none
  | _ => Option.none

variable {fs : List (String × Tree)} {name : String}

theorem required?_record {b : Bool} (h : fs.lookup "required" = some (.bool b)) :
    (record fs).required? = some b := by
  simp [required?, h]

theorem requires?_missing (h : fs.lookup "required" = Option.none) :
    (record fs).requires? name = some false := by
  simp only [record, requires?, find?_record, h]

theorem requires?_listed {ts : List Tree} (h : fs.lookup "required" = some (.list ts)) :
    (record fs).requires? name = some (ts.any fun t => t.same (.str name)) := by
  simp only [record, requires?, find?_record, h]

end Tree

namespace World

/-- The value is a mapping from distinct names. -/
def IsNamed (w : World) (v : Value) : Prop :=
  ∃ fs, v.mapping? w = some (Entries.named fs) ∧ Entries.Distinct fs

theorem IsNamed.shows (h : w.IsNamed v) (data : w.IsData v) :
    ∃ ts, w.Shows v (.record ts) ∧ Entries.Distinct ts := by
  obtain ⟨fs, mapping, distinct⟩ := h
  obtain ⟨a, rfl, hg⟩ := Value.eq_obj_of_mapping? mapping
  refine ⟨fs.map fun f => (f.1, w.tree f.2), ⟨data, ?_⟩, ?_⟩
  · rw [data.tree_mapping hg, Tree.record]
    simp [Entries.named, Function.comp_def]
  · simpa [Entries.Distinct, Function.comp_def] using distinct

/-- The mapping says under "required" whether something is. -/
def States (w : World) (v : Value) (needed : Bool) : Prop :=
  ∃ fs, v.mapping? w = some (Entries.named fs) ∧ Entries.Distinct fs ∧
    fs.lookup "required" = some (.bool needed)

/-- The view of a mapping from names, whatever its values are. -/
theorem tree_named {fs : List (String × Value)} (mapping : v.mapping? w = some (Entries.named fs)) :
    ∃ part : Value → Tree, w.tree v = .record (fs.map fun f => (f.1, part f.2)) ∧
      (∀ a, part (.atom a) = .atom a) ∧
      ∀ u keys, w.IsTexts u keys → part u = .list (keys.map w.tree) := by
  obtain ⟨a, rfl, hg⟩ := Value.eq_obj_of_mapping? mapping
  refine ⟨w.unfold ((w.objects.size + 1) * (w.objects.size + 1)) [a], ?_, fun b => by simp [unfold],
    ?_⟩
  · simp [tree, viewDepth, unfold, hg, Entries.named, Tree.record, Function.comp_def]
  · rintro _ keys ⟨⟨l, rfl, hl⟩, texts⟩
    have apart : l ≠ a := by
      rintro rfl
      simp [hg] at hl
    obtain ⟨n, hn⟩ : ∃ n, (w.objects.size + 1) * (w.objects.size + 1) = n + 1 :=
      Nat.exists_eq_succ_of_ne_zero (by simp)
    simp only [hn, unfold, List.contains_eq_mem, List.mem_singleton, apart, decide_false, hl]
    refine congrArg Tree.list (List.map_congr_left fun k hk => ?_)
    obtain ⟨s, rfl⟩ := Value.isText_iff.mp (texts k hk)
    simp [unfold]

theorem States.named {needed : Bool} (h : w.States v needed) : w.IsNamed v := by
  obtain ⟨fs, mapping, distinct, -⟩ := h
  exact ⟨fs, mapping, distinct⟩

theorem States.view {needed : Bool} (h : w.States v needed) :
    (w.tree v).required? = some needed := by
  obtain ⟨fs, mapping, -, found⟩ := h
  obtain ⟨part, view, atom, -⟩ := tree_named mapping
  rw [view]
  refine Tree.required?_record ?_
  rw [Entries.lookup_map part, found, Option.map_some, atom]

theorem Lists.named (h : w.Lists v keys) : w.IsNamed v := by
  obtain ⟨fs, mapping, distinct, -⟩ := h
  exact ⟨fs, mapping, distinct⟩

theorem Lists.view (h : w.Lists v keys) {name : String} {needed : Bool}
    (listed : .str name ∈ keys ↔ needed = true) : (w.tree v).requires? name = some needed := by
  obtain ⟨fs, mapping, -, listing⟩ := h
  obtain ⟨part, view, -, texts⟩ := tree_named mapping
  rw [view]
  rcases listing with ⟨rfl, missing⟩ | ⟨u, found, list⟩
  · rw [Tree.requires?_missing (by rw [Entries.lookup_map part, missing]; rfl)]
    simpa using listed
  · rw [Tree.requires?_listed (by rw [Entries.lookup_map part, found, Option.map_some, texts u keys list])]
    refine congrArg some (Bool.eq_iff_iff.mpr (Iff.trans ?_ listed))
    simp only [List.any_map, List.any_eq_true, Function.comp_apply, Tree.same_str_iff]
    constructor
    · rintro ⟨k, hk, same⟩
      obtain ⟨s, rfl⟩ := Value.isText_iff.mp (list.texts k hk)
      obtain rfl : s = name := by simpa using same
      exact hk
    · exact fun hk => ⟨_, hk, by simp⟩

end World

/-! ### Parameters and bodies -/

/-- A parameter is required in a path, and elsewhere if its schema is not optional. -/
theorem Parameter.build_states {name location schema description extra : Value}
    {fs : List (String × Value)} (hw : w.Tidy) (has : w.Has schema)
    (further : w.IsFurther extra fs) (unset : "required" ∉ fs.map (·.1))
    (run : (build name location schema description extra).run w = .ok u w') :
    w'.States u (isNeeded w location schema) := by
  have known : isLocation location := by
    by_contra unknown
    simp only [build, Bool.not_eq_true _ ▸ unknown, Bool.not_false, if_true] at run
    cases run
  cases emitted : (Node.emit schema).run w with
  | error f w₁ =>
      rw [run_build_error known emitted] at run
      cases run
  | ok s w₁ =>
      obtain ⟨k, -, -⟩ := (Node.emit_keeps has.open_empty).ok hw.encloses_empty emitted
      rw [run_build known further k emitted] at run
      cases run
      refine ⟨_, Value.mapping?_of_get (w₁.get_alloc_same _), generated_distinct.overlay fs, ?_⟩
      rw [Entries.lookup_overlay unset]
      rfl

/-- A body of which it is not said whether it is required is, if its schema is not optional. -/
theorem Response.body_states {type description required : Value} {m : Media}
    (unset : required = .none) (run : (body type description required m).run w = .ok u w') :
    w'.States u (!Node.isOptional w m.schema) := by
  subst unset
  obtain ⟨_, _, here, run⟩ := bind_ok run
  cases here
  obtain ⟨described, w₁, described_run, run⟩ := bind_ok run
  obtain ⟨c, w₂, -, last⟩ := bind_ok run
  cases last
  refine ⟨_, Value.mapping?_of_get (w₂.get_alloc_same _), ?_⟩
  unfold optionalField at described_run
  split at described_run <;> cases described_run <;>
    simp [Entries.Distinct, List.lookup_cons, Value.isNone]

/-- There is a body if there is an emitted schema. -/
theorem Response.body_returns {type : String} {description required : Value} {m : Media} (ho : w.Owned)
    (hd : w.IsData description) (hr : w.IsData required) (child : Schema.IsChild w m.schema)
    (examples : w.MayBeMapping m.examples) (encoding : w.MayBeMapping m.encoding) :
    (body (.str type) description required m).Gives w fun _ _ => True := by
  obtain ⟨ds, hds, -⟩ := Tree.isField_given "description" (w.tree description)
  obtain ⟨es, hes, -⟩ := examples.field? "examples"
  obtain ⟨cs, hcs, -⟩ := encoding.field? "encoding"
  obtain ⟨ss, hss⟩ : ∃ ss, (w.tree m.schema).field? "schema" Tree.emit? = some ss := by
    rw [Tree.field?, child.emit?]
    split
    exacts [⟨_, rfl⟩, ⟨_, rfl⟩]
  have made := body_denotes ho ⟨child.data, examples.data, encoding.data⟩ (.atom (.str type)) hd hr
  rw [tree_atom] at made
  simp only [body?, content?, MediaView.build?, MediaView.of, hds, hss, hes, hcs, Tree.key?,
    Tree.unhashable?, Option.pure_def, Option.bind_eq_bind, Option.bind_some, Option.isNone_none,
    if_true] at made
  exact Gives.mono made fun _ _ _ _ => trivial

/-! ### Objects -/

namespace Call

variable {callee : Callee} {f : Function} {args : List Value} {named : List (String × Value)}
  {b : Signature.Bound}

/-- What a function gets is there if what it is called with is. -/
theorem Function.Fits.has (fits : f.Fits args named b) (plain : f.Plain)
    (given : ∀ v ∈ args ++ named.map (·.2), w.Has v) : b.All fun e => w.Has e.2 := by
  refine Signature.bind?_all (fun p hp v hv => ?_)
    (fun e he => given e.2 (List.mem_append_left _ (List.of_mem_zip he).2))
    (fun e he => given e.2 (List.mem_append_right _ (List.mem_map_of_mem he))) fits
  obtain ⟨a, rfl⟩ := plain p hp v hv
  trivial

theorem Runs.harmless (runs : Runs callee args named f b) : writesOrLoads callee = false := by
  cases runs with
  | parameterIn known =>
      simp only [List.mem_cons, Prod.mk.injEq, List.not_mem_nil, or_false] at known
      obtain ⟨rfl, -⟩ | ⟨rfl, -⟩ | ⟨rfl, -⟩ := known <;> rfl
  | _ => rfl

end Call

namespace Schema

/-- A call makes an object that has the schema as a property. Its further entries do not say what is
required. -/
structure Names (w : World) (x : Value) (name : String) (v : Variant) (args : List Value)
    (named : List (String × Value)) (b : Signature.Bound) (fs us : List (String × Value)) : Prop where
  method : named.lookup Call.itself = none
  fits : (Call.variant .object v).Fits args named b
  given : ∀ u ∈ args ++ named.map (·.2), w.Has u
  properties : (b.arg "properties").mapping? w = some (Entries.named fs)
  distinct : Entries.Distinct fs
  found : fs.lookup name = some x
  further : w.IsFurther (b.arg "extra") us
  unset : "required" ∉ us.map (·.1)

variable {v : Variant} {args : List Value} {named : List (String × Value)} {b : Signature.Bound}
  {fs us : List (String × Value)} {name : String}

/-- The object needs the keys of those children that are not optional, so it needs the property if its
schema is not. -/
theorem Names.needed (h : Names w x name v args named b fs us) (flag : Node.isOptional w x = o) :
    .str name ∈ neededKeys w (Entries.named fs) ↔ (!o) = true := by
  have keys : ((Entries.named fs).map (·.1)).Nodup := by
    have names := h.distinct.map (f := Value.str) fun _ _ same => by simpa using same
    simpa [Entries.named, Function.comp_def] using names
  have child : (Value.str name, x) ∈ Entries.named fs :=
    List.mem_map_of_mem (f := fun f : String × Value => (Value.str f.1, f.2))
      (Entries.mem_of_lookup h.found)
  rw [mem_neededKeys keys child, flag]
  cases o <;> simp

/-- The node of an object lists what the object needs, whichever variant makes it. -/
theorem Names.lists (h : Names w x name v args named b fs us) (hw : w.Tidy)
    (run : (Call.invoke load (.construct .object v) args named).run w = .ok u w') :
    w'.NodeLists u (neededKeys w (Entries.named fs)) := by
  have has := h.fits.has (Call.variant_plain .object v) h.given
  have usable : b.All fun e => w.Usable .empty e.2 :=
    ⟨fun e he => (has.1 e he).usable_empty, fun e he => (has.2 e he).usable_empty⟩
  have made {n : Value} {w₁ : World} (built : ((Call.constructor .object).run b).run w = .ok n w₁) :
      w₁.Tidy ∧ w₁.NodeLists n (neededKeys w (Entries.named fs)) :=
    ⟨((Call.constructor_keeps usable .object).ok hw.encloses_empty built).2.1.tidy,
      object_lists hw h.properties (has.arg "description" trivial) h.further h.unset built⟩
  have flagged (o : Bool) (run : ((Call.constructor .object).run b >>= fun n =>
      Node.withFlag n o).run w = .ok u w') : w'.NodeLists u (neededKeys w (Entries.named fs)) := by
    obtain ⟨n, w₁, built, last⟩ := bind_ok run
    obtain ⟨tidy, lists⟩ := made built
    exact ((Node.withFlag_lists tidy lists o).ok last).2
  rw [(Call.Runs.construct h.method h.fits).invoke load] at run
  cases v with
  | asBuilt => exact (made run).2
  | optional => exact flagged true run
  | required => exact flagged false run

/-! ### What calls say -/

/-- Calls that are given a schema with this flag, and that say whether something is required: how this is
read off the view of the result, and what they say. What they are given besides says nothing about it.
There is a result if the last condition holds. -/
inductive Derives (load : Value → Build Value) (w : World) (x : Value) (o : Bool) :
    Build Value → (Tree → Option Bool) → Bool → Prop → Prop
  | parameter {callee : Callee} {args : List Value} {named : List (String × Value)}
      {b : Signature.Bound} {fs : List (String × Value)}
      (runs : Call.Runs callee args named Call.parameter b)
      (given : ∀ v ∈ args ++ named.map (·.2), w.Has v) (schema : b.arg "schema" = x)
      (further : w.IsFurther (b.arg "extra") fs) (unset : "required" ∉ fs.map (·.1)) :
      Derives load w x o (Call.invoke load callee args named) Tree.required?
        (b.arg "location" == .str "path" || !o)
        (Parameter.isLocation (b.arg "location") ∧ IsChild w x)
  | body {callee : Callee} {args : List Value} {named : List (String × Value)}
      {b : Signature.Bound} (runs : Call.Runs callee args named Call.requestBody b)
      (given : ∀ v ∈ args ++ named.map (·.2), w.Has v) (schema : b.arg "schema" = x)
      (unset : b.arg "required" = .none) :
      Derives load w x o (Call.invoke load callee args named) Tree.required? (!o)
        ((∃ media, b.arg "type" = .str media) ∧ w.IsData (b.arg "description") ∧
          w.MayBeMapping (b.arg "examples") ∧ w.MayBeMapping (b.arg "encoding") ∧ IsChild w x)
  | property {v : Variant} {args : List Value} {named : List (String × Value)}
      {b : Signature.Bound} {name : String} {fs us : List (String × Value)}
      (names : Names w x name v args named b fs us) :
      Derives load w x o (do
        let node ← Call.invoke load (.construct .object v) args named
        Call.invoke load .toSchema [node] []) (Tree.requires? name) (!o)
        (w.IsData (b.arg "description") ∧ (∃ ts, w.ShowsExtra (b.arg "extra") ts) ∧
          ∀ f ∈ fs, IsChild w f.2)

variable {act : Build Value} {view : Tree → Option Bool} {needed : Bool} {fit : Prop}

/-- What calls say follows the flag. -/
theorem Derives.told (h : Derives load w x o act view needed fit) (hw : w.Tidy) (has : w.Has x)
    (flag : Node.isOptional w x = o) (run : act.run w = .ok u w') :
    w'.Tidy ∧ w'.Has u ∧ w'.IsNamed u ∧ view (w'.tree u) = some needed := by
  cases h with
  | @parameter callee args named b fs runs given schema further unset =>
      obtain ⟨-, tidy, there⟩ := Call.invoke_tidy hw runs.harmless given run
      rw [runs.invoke load] at run
      have states := Parameter.build_states hw (schema ▸ has) further unset run
      rw [Parameter.isNeeded, schema, flag] at states
      exact ⟨tidy, there, states.named, states.view⟩
  | @body callee args named b runs given schema unset =>
      obtain ⟨-, tidy, there⟩ := Call.invoke_tidy hw runs.harmless given run
      rw [runs.invoke load] at run
      change (Response.body _ _ (b.arg "required") _).run w = _ at run
      have states := Response.body_states unset run
      rw [show (Call.mediaOf b).schema = x from schema, flag] at states
      exact ⟨tidy, there, states.named, states.view⟩
  | property names =>
      obtain ⟨n, w₁, made, last⟩ := bind_ok run
      obtain ⟨-, tidy₁, node⟩ := Call.invoke_tidy hw rfl names.given made
      have lists := names.lists hw made
      obtain ⟨-, tidy, there⟩ := Call.invoke_tidy tidy₁ rfl (by simpa using node) last
      have shown := ((Node.schema_lists tidy₁ load lists).ok last).2
      exact ⟨tidy, there, shown.named, shown.view (names.needed flag)⟩

/-- Calls that are given what fits have a result. -/
theorem Derives.returns (h : Derives load w x o act view needed fit) (hw : w.Tidy) (fits : fit) :
    ∃ u w', act.run w = .ok u w' := by
  have ho := hw.owned
  cases h with
  | parameter runs given schema further unset =>
      obtain ⟨known, child⟩ := fits
      obtain ⟨s, w₁, emitted, k, -⟩ := (child.emits ho w (.refl w)).1
      rw [runs.invoke load]
      exact ⟨_, _, Parameter.run_build known further k (schema ▸ emitted)⟩
  | @body callee args named b runs given schema unset =>
      obtain ⟨⟨media, type⟩, description, examples, encoding, child⟩ := fits
      rw [runs.invoke load]
      subst schema
      have unsaid : w.IsData (b.arg "required") := by
        rw [unset]
        exact .atom _
      have made : (Response.body (.str media) (b.arg "description") (b.arg "required")
          (Call.mediaOf b)).Gives w fun _ _ => True :=
        Response.body_returns ho description unsaid child examples encoding
      rw [← type] at made
      obtain ⟨u, w', run, -⟩ := made
      exact ⟨u, w', run⟩
  | property names =>
      obtain ⟨description, ⟨ts, extra⟩, children⟩ := fits
      have made : ((Call.constructor .object).run _).Gives w _ :=
        object_shows ho names.properties (emitsAll_of_children ho children) description.shows extra
      rw [(Call.Runs.construct names.method names.fits).invoke load]
      obtain ⟨u, w', run, -⟩ := (variant_gives ho made _).bind fun n w₁ k hn =>
        toSchema_gives load (ho.extends k) hn
      exact ⟨u, w', run⟩

end Schema

/-! ### Operations, maps of paths and documents -/

/-- What an operation is given is data if its collections are. -/
theorem Operation.Role.IsGiven.data {role : Role} {responses parameters requestBody r : Value}
    (h : role.IsGiven w responses parameters requestBody r) (hr : w.IsData responses)
    (hp : w.IsData parameters) (hb : w.IsData requestBody) : w.IsData r := by
  cases role with
  | response code =>
      obtain ⟨front, key, back, mapping, -⟩ := h
      exact (hr.entries mapping (key, r) (by simp)).2
  | requestBody => exact h ▸ hb
  | parameter i =>
      obtain ⟨xs, items, found⟩ := h
      obtain ⟨a, rfl⟩ : ∃ a, parameters = .obj a := by
        cases parameters with
        | atom a => cases items
        | obj a => exact ⟨a, rfl⟩
      refine hp.part ?_
      cases hg : w.get a <;> simp only [Value.items?, hg, Option.some.injEq, reduceCtorEq] at items
      all_goals exact items ▸ List.mem_of_getElem? found

/-- A mapping from names that is delivered stands in the document as it was. -/
theorem Delivered.carries {r doc : Value} {front : List Step}
    (h : Delivered load w r front doc w') (hw : w.Tidy) (has : w.Has r) (named : w.IsNamed r) :
    ∃ d, w'.Shows doc d ∧ d.at? front = some (w.tree r) := by
  -- It is data when the operation is made, and it was the same before.
  obtain ⟨w₁, k, later⟩ : ∃ w₁, w.Extends w₁ ∧ w₁.IsData r := by
    cases h with
    | intro first operation collections verb template given made unread =>
        exact ⟨_, first, given.data (collections _ (by simp [Operation.collected]))
          (collections _ (by simp [Operation.collected]))
          (collections _ (by simp [Operation.collected]))⟩
  have data : w.IsData r := by
    refine (later.agree fun c hc => ?_).1
    have lt := hw.reaches_lt has ((hw.reaches_extends has k).mp hc)
    exact ⟨lt, (k.get c lt).symm, hw.bare c⟩
  obtain ⟨ts, hts, distinct⟩ := named.shows data
  have bears : w.Bears r [] (w.tree r) := ⟨ts, hts, distinct, congrArg some hts.2.symm⟩
  obtain ⟨-, d, shown, stands⟩ := h.at_place hw.owned bears
  rw [List.append_nil] at stands
  exact ⟨d, shown, stands⟩

/-- What a node lists, if it is data. -/
theorem World.NodeLists.shown (h : w.NodeLists v keys) (data : w.IsData v) :
    ∃ s : Meaning, w.ShowsSchema v s ∧ ∀ (name : String) (needed : Bool),
      (.str name ∈ keys ↔ needed = true) → s.tree.requires? name = some needed := by
  obtain ⟨f, flag, parts, lists⟩ := h
  obtain ⟨a, rfl, hg⟩ := Node.parts?_eq parts
  have fragment : w.IsData (.obj f) := data.part (by simp [hg, Object.parts])
  obtain ⟨ts, hts, distinct⟩ := lists.named.shows fragment
  refine ⟨⟨ts, flag⟩, .inl ⟨⟨data, ?_⟩, distinct⟩, fun name needed listed => ?_⟩
  · rw [data.tree_node hg, hts.2]
    rfl
  · rw [Meaning.tree, ← hts.2]
    exact lists.view listed

/-! ### Everywhere -/

/-- What is required follows the flag that was applied last to a schema, wherever this is asked: in
parameters that are in no path, in bodies and in objects. Results of the calls stand in documents as
they were, and so do the lists of objects that are in a parameter, a body or a response. Whatever a
constructor is given, its node has the flag that its variant sets. -/
theorem Schema.optionality_propagates (h : Flagged load w x o) :
    Node.isOptional w x = o ∧
    (∀ act view needed fit, Derives load w x o act view needed fit →
      (fit → ∃ r w₁, act.run w = .ok r w₁) ∧
      ∀ r w₁, act.run w = .ok r w₁ → view (w₁.tree r) = some needed ∧
        ∀ front doc w', Delivered load w₁ r front doc w' →
          ∃ d, w'.Shows doc d ∧ d.at? front = some (w₁.tree r)) ∧
    (∀ name v args named b fs us, Names w x name v args named b fs us → ∀ n w₁,
      (Call.invoke load (.construct .object v) args named).run w = .ok n w₁ → w₁.IsData n →
      ∀ act place, Carries load w₁ n act place → ∀ r w₂, act.run w₁ = .ok r w₂ →
        ∀ front doc w', Delivered load w₂ r front doc w' → ∃ d, w'.Shows doc d ∧
          (d.at? (front ++ place)).bind (Tree.requires? name) = some (!o)) ∧
    ∀ (c : Constructor) (v : Variant) args named, (∀ u ∈ args ++ named.map (·.2), w.Has u) →
      ∀ r w', (Call.invoke load (.construct c v) args named).run w = .ok r w' →
        Node.isOptional w' r = v.flag := by
  obtain ⟨tidy, has, flag⟩ := h.state
  refine ⟨flag, fun act view needed fit derives => ⟨derives.returns tidy, fun r w₁ run => ?_⟩,
    fun name v args named b fs us names n w₁ made data act place carries r w₂ run front doc w'
      delivered => ?_, fun c v args named given r w' run => ?_⟩
  · obtain ⟨tidy₁, there, named, told⟩ := derives.told tidy has flag run
    exact ⟨told, fun front doc w' delivered => delivered.carries tidy₁ there named⟩
  · obtain ⟨-, tidy₁, -⟩ := Call.invoke_tidy tidy rfl names.given made
    obtain ⟨s, shown, lists⟩ := (names.lists tidy made).shown data
    obtain ⟨k, bears⟩ := (carries.gives tidy₁.owned shown).ok run
    obtain ⟨-, d, hd, stands⟩ := delivered.at_place (tidy₁.owned.extends k) bears
    exact ⟨d, hd, by rw [stands]; exact lists name (!o) (names.needed flag)⟩
  · exact ((Call.Sets.construct c v named).flag tidy given run).isOptional

open Schema in
/-- A node that was made optional and then nullable is not required in a query. -/
theorem Schema.optionality_propagates_nullable : ∃ n w x w',
    (Call.invoke Delivered.unloaded (.construct .string .optional) [] []).run World.initial = .ok n w ∧
    (Call.invoke Delivered.unloaded .nullable [n] []).run w = .ok x w' ∧
    Flagged Delivered.unloaded w' x true ∧
    ∃ r w₁, (Call.invoke Delivered.unloaded .parameter [.str "limit", .str "query", x] []).run w' =
      .ok r w₁ ∧ (w₁.tree r).required? = some false := by
  have ho : World.initial.Owned := Session.initial_tidy.owned
  have runs : Call.Runs (.construct .string .optional) [] [] (Call.variant .string .optional) _ :=
    .construct rfl rfl
  have generates : Generates World.initial .string ⟨[("description", .none), ("extra", .none)], []⟩
      [("type", .str "string"), ("format", .text? none), ("description", .text? none)] :=
    .leaf rfl rfl
  obtain ⟨n, w, built, k, node⟩ :=
    variant_gives ho (generates.gives ho (.inl ⟨rfl, rfl⟩)) .optional
  have made : (Call.invoke Delivered.unloaded (.construct .string .optional) [] []).run
      World.initial = .ok n w := by
    rw [runs.invoke]
    exact built
  obtain ⟨x, w', nulled, k', shown⟩ := Node.nullable_gives (ho.extends k) node rfl
  have set : Flagged Delivered.unloaded w n true :=
    .set Session.initial_tidy (.construct .string .optional []) (by simp) made
  have has : w.Has n := set.state.2.1
  have flagged : Flagged Delivered.unloaded w' x true :=
    .handedOn set (.nullable n) (by simpa using has) nulled
  obtain ⟨f, parts, -⟩ := Node.parts?_of_node shown.1
  have child : IsChild w' x := ⟨shown.1.1, .inl (by simp [parts])⟩
  obtain ⟨-, told, -⟩ := optionality_propagates flagged
  have call : Call.Runs .parameter [.str "limit", .str "query", x] [] Call.parameter _ :=
    .parameter rfl
  have given : ∀ v ∈ [Value.str "limit", .str "query", x] ++ ([] : List (String × Value)).map (·.2),
      w'.Has v := by
    simpa using ⟨trivial, trivial, child.data.has⟩
  have further : w'.IsFurther .none [] := .inl ⟨rfl, rfl⟩
  have derives : Derives Delivered.unloaded w' x true _ _ _ _ :=
    .parameter call given rfl further (by simp)
  obtain ⟨returns, required⟩ := told _ _ _ _ derives
  obtain ⟨r, w₁, run⟩ := returns ⟨rfl, child⟩
  exact ⟨n, w, x, w', made, nulled, flagged, r, w₁, run, (required r w₁ run).1⟩

end OpenApiDoc
