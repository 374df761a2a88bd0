import OpenApiDoc.Proofs.Separation

/-! # What documents are made of is outside

Responses, bodies, parameters, operations, the paths map and documents are usable, if what they are
made of is not inside of an enclosure. Two arguments are looked into: the items of the parameters of
an operation and the values of the components of a document must be usable as well. -/

namespace OpenApiDoc

open Build World

variable {E : Enclosure} {w w' : World}

/-! ### What is copied -/

namespace Composition

theorem supplies_detached {v : Value} (hv : w.Usable E v) :
    (outside E).Supplies w (detached v) := by
  intro w' k
  refine (Value.entries_keeps (hv.mono k.size)).bind fun es w₁ _ hes => ?_
  refine (newMapping_keeps hes).bind fun u w₂ _ hu => ?_
  exact (Value.copy_keeps hu.2.open.has).mono fun u w₃ _ _ hu => hu.open

theorem copies_open {a : Option Addr} (h : w.Open E (Operation.optionalObject a)) :
    (outside E).Copies w a := by
  rintro b rfl w' k
  exact (copyObject_keeps (h.mono k.size).has).mono fun _ _ _ _ hc => hc.open

end Composition

/-! ### Responses, bodies and parameters -/

namespace Response

/-- What a media type is made of is usable. -/
structure Media.Usable (E : Enclosure) (w : World) (m : Media) : Prop where
  schema : w.Usable E m.schema
  examples : w.Usable E m.examples
  encoding : w.Usable E m.encoding

theorem Media.Usable.mono {m : Media} (h : m.Usable E w) (k : w.size ≤ w'.size) : m.Usable E w' :=
  ⟨h.schema.mono k, h.examples.mono k, h.encoding.mono k⟩

theorem content_keeps {type : Value} {m : Media} (ht : w.Has type) (h : m.Usable E w) :
    (content type m).Keeps (Encloses E) w fun u w' => w'.Usable E u :=
  Composition.keeps_content (C := .outside E)
    (Composition.keeps_media (fun _ => Composition.supplies_emit h.schema.open)
      (fun _ => Composition.supplies_detached h.examples)
      fun _ => Composition.supplies_detached h.encoding)
    fun _ k => Value.requireKey_keeps (ht.mono k.size)

theorem response_keeps {description type headers links : Value} {m : Media}
    (hd : w.Usable E description) (ht : w.Usable E type) (hh : w.Usable E headers)
    (hl : w.Usable E links) (hm : m.Usable E w) :
    (response description type headers links m).Keeps (Encloses E) w fun u w' => w'.Usable E u :=
  Composition.keeps_response (C := .outside E) hd.open
    (fun _ => Composition.supplies_detached hh) (fun _ => Composition.supplies_detached hl)
    fun _ k => content_keeps (ht.mono k.size).open.has (hm.mono k.size)

theorem body_keeps {type description required : Value} {m : Media} (ht : w.Usable E type)
    (hd : w.Usable E description) (hr : w.Usable E required) (hm : m.Usable E w) :
    (body type description required m).Keeps (Encloses E) w fun u w' => w'.Usable E u :=
  Composition.keeps_body (C := .outside E) hd.open hr.open
    fun _ k => content_keeps (ht.mono k.size).open.has (hm.mono k.size)

end Response

theorem Parameter.build_keeps {name location schema description extra : Value}
    (hn : w.Usable E name) (hl : w.Usable E location) (hs : w.Usable E schema)
    (hd : w.Usable E description) (hx : w.Usable E extra) :
    (Parameter.build name location schema description extra).Keeps (Encloses E) w
      fun u w' => w'.Usable E u :=
  Composition.keeps_parameter (C := .outside E) hn.open (fun _ => hl.open) hd.open
    (Composition.supplies_emit hs.open) fun _ k => Value.entriesOrEmpty_keeps (hx.mono k.size)

/-! ### Operations -/

namespace World

/-- The values of the entries, if the value is a mapping. -/
def entryValues (w : World) (v : Value) : List Value := ((v.mapping? w).getD []).map (·.2)

/-- The items, if the value is a list or a tuple. -/
def listed (w : World) (v : Value) : List Value := (v.items? w).getD []

theorem Extends.entryValues {v : Value} (k : w.Extends w') (h : w.Has v) :
    w'.entryValues v = w.entryValues v := by
  rw [World.entryValues, World.entryValues, k.mapping? h]

theorem Extends.listed {v : Value} (k : w.Extends w') (h : w.Has v) :
    w'.listed v = w.listed v := by
  rw [World.listed, World.listed, k.items? h]

/-- What a collection is made of is there. -/
theorem Tidy.has_parts (h : w.Tidy) (v : Value) : ∀ u ∈ w.entryValues v ++ w.listed v, w.Has u := by
  intro u hu
  cases v with
  | atom a => simp [World.entryValues, World.listed, Value.mapping?, Value.items?] at hu
  | obj a =>
      refine h.has_part (a := a) ?_
      simp only [World.entryValues, World.listed, Value.mapping?, Value.items?] at hu
      cases hg : w.get a with
      | mapping es =>
          obtain ⟨e, he, rfl⟩ : ∃ e ∈ es, e.2 = u := by simpa [hg] using hu
          exact Object.mem_parts_value he
      | list xs => simpa [hg, Object.parts] using hu
      | tuple xs => simpa [hg, Object.parts] using hu
      | _ => simp [hg] at hu

theorem Encloses.entryValues (h : w.Encloses E) {v : Value} (hv : w.Usable E v) :
    ∀ u ∈ w.entryValues v, w.Open E u := by
  intro u hu
  cases hm : v.mapping? w with
  | none => simp [World.entryValues, hm] at hu
  | some es =>
      rw [World.entryValues, hm] at hu
      obtain ⟨e, he, rfl⟩ := List.mem_map.mp hu
      exact (h.entries_of_usable hv hm e he).2

theorem Encloses.listed (h : w.Encloses E) {v : Value} (hv : w.Usable E v) :
    ∀ u ∈ w.listed v, w.Open E u := by
  intro u hu
  cases hx : v.items? w with
  | none => simp [World.listed, hx] at hu
  | some xs =>
      rw [World.listed, hx] at hu
      exact h.items_of_usable hv hx u hu

end World

namespace Operation

/-- The copies of the values of a mapping can be looked into, wherever the mapping is. -/
theorem withTextCodes_copies (responses : Value) :
    (withTextCodes responses).Keeps (Encloses E) w fun u w' =>
      (u = responses ∨ w'.Usable E u) ∧ ∀ x ∈ w'.entryValues u, w'.Usable E x := by
  refine .get_bind ?_
  cases hm : responses.mapping? w with
  | none => exact .pure ⟨.inl rfl, by simp [entryValues, hm]⟩
  | some es =>
      refine .from fun hw => ?_
      refine (Keeps.mapM_all (R := fun (f : String × Value) w => w.Usable E f.2)
        (fun f _ _ h k => h.mono k.size) fun e he w₁ k => ?_).bind fun coded w₁ k hcoded => ?_
      · have has : w₁.Has e.2 := (hw.tidy.entries hm e he).2.mono k.size
        exact .get_bind ((Value.copy_keeps has).bind fun u w₂ _ hu => .pure hu)
      · have usable : ∀ f ∈ Entries.overlay (· == ·) [] coded, w₁.Usable E f.2 :=
          Entries.forall_value_overlay (by simp) hcoded
        have fields : OpenFields E w₁ (Entries.overlay (· == ·) [] coded) := fun f hf =>
          (usable f hf).open
        refine (newMapping_keeps fields.named).mono fun u w₂ k₂ _ hu => ⟨.inr hu.2, fun x hx => ?_⟩
        rw [entryValues, hu.1] at hx
        obtain ⟨e, he, rfl⟩ := List.mem_map.mp hx
        obtain ⟨f, hf, rfl⟩ := List.mem_map.mp he
        exact (usable f hf).mono k₂.size

/-- The checks that the fields have passed. -/
structure Fields.Passed (w : World) (given read : List (String × Value)) (f : Fields) : Prop where
  method : Field.required given "method" (read.lookup "method") Field.text = .ok f.method
  path : Field.required given "path" (read.lookup "path") Field.text = .ok f.path
  responses : Field.required given "responses" (read.lookup "responses") (Field.mapping w fun v =>
    Field.mapping w Field.any (.value v)) = .ok f.responses
  parameters : Field.defaulted "parameters" (read.lookup "parameters") none
    (Field.orNone (Field.list w (Field.mapping w Field.any))) = .ok f.parameters
  requestBody : Field.defaulted "request_body" (read.lookup "request_body") none
    (Field.orNone (Field.mapping w Field.any)) = .ok f.requestBody
  extra : Field.defaulted "extra" (read.lookup "extra") [] (Field.mapping w Field.any) = .ok f.extra

theorem check_passed {given read : List (String × Value)} {f : Fields}
    (h : check w given read = .ok f) : f.Passed w given read := by
  simp only [check, Checked.map_eq_ok, Checked.both_eq_ok] at h
  obtain ⟨p, ⟨method, path, responses, -, -, -, parameters, requestBody, extra⟩, rfl⟩ := h
  exact ⟨method, path, responses, parameters, requestBody, extra⟩

/-- The arguments that are collections of values of any kind. -/
def collected : List String := ["responses", "parameters", "request_body", "extra"]

/-- What holds of the arguments and of the parts of what it holds of holds of what is read. -/
theorem check_all {P : Value → Prop}
    (entries : ∀ v es, P v → v.mapping? w = some es → ∀ e ∈ es, P e.2)
    (items : ∀ v is, P v → Field.items? w v = some is → ∀ x, .value x ∈ is → P x)
    {given read : List (String × Value)} (hr : ∀ f ∈ read, f.1 ∈ collected → P f.2) {f : Fields}
    (h : check w given read = .ok f) : f.All P := by
  have passed := check_passed h
  have found {name : String} {v : Value} (hl : read.lookup name = some v)
      (hn : name ∈ collected) : P v := hr _ (Entries.mem_of_lookup hl) hn
  have fields {v : Value} (hv : P v) {fs : List (String × Value)}
      (hm : Field.mapping w Field.any (.value v) = .ok fs) : ∀ e ∈ fs, P e.2 := by
    obtain ⟨es, hes, hfs⟩ := Field.mapping_ok hm
    intro f hf
    obtain ⟨e, he, heq⟩ := hfs f hf
    have same : e.2 = f.2 := by simpa [Field.any] using heq
    exact same ▸ entries v es hv hes e he
  refine ⟨fun r hmem => ?_, fun ps hps q hq => ?_, fun b hb => ?_, ?_⟩
  · obtain ⟨v, hv, hm⟩ := Field.required_ok passed.responses
    obtain ⟨es, hes, hfs⟩ := Field.mapping_ok hm
    obtain ⟨e, he, heq⟩ := hfs r hmem
    exact fields (entries v es (found hv (by simp [collected])) hes e he) heq
  · rcases Field.defaulted_ok passed.parameters with none | ⟨v, hv, hl⟩
    · exact absurd (none.symm.trans hps) (by simp)
    · rw [hps] at hl
      obtain ⟨is, hi, read⟩ := Field.list_ok (Field.orNone_ok hl)
      obtain ⟨i, hmem, hm⟩ := read q hq
      cases i with
      | value x => exact fields (items v is (found hv (by simp [collected])) hi x hmem) hm
      | field name v => cases hm
      | fields given => cases hm
  · rcases Field.defaulted_ok passed.requestBody with none | ⟨v, hv, hm⟩
    · exact absurd (none.symm.trans hb) (by simp)
    · rw [hb] at hm
      exact fields (found hv (by simp [collected])) (Field.orNone_ok hm)
  · rcases Field.defaulted_ok passed.extra with none | ⟨v, hv, hm⟩
    · simp [none]
    · exact fields (found hv (by simp [collected])) hm

/-- A list of mappings is read from the items of a list or a tuple. -/
theorem mapping_of_item (hw : w.Tidy) {v : Value} (hv : w.Has v) {items : List Input}
    (hi : Field.items? w v = some items) {i : Input} (hmem : i ∈ items)
    {fs : List (String × Value)} (hm : Field.mapping w Field.any i = .ok fs) :
    ∃ x xs, i = .value x ∧ v.items? w = some xs ∧ x ∈ xs := by
  cases v with
  | atom a => simp [Field.items?] at hi
  | obj a =>
      have plain (t : String) (ps : Option (List Value)) : w.get a ≠ .machinery t ps := fun hg => by
        simpa [hg, Object.isCopied, Object.isData] using hw.kind a hv
      cases i with
      | value x =>
          obtain ⟨xs, hg | hg, mem⟩ := Field.value_of_items plain hi hmem <;>
            exact ⟨x, xs, rfl, by simp [Value.items?, hg], mem⟩
      | field name u => cases hm
      | fields given => cases hm

/-- What an operation reads from a field is not inside. -/
structure Fills (E : Enclosure) (w : World) (f : String × Value) : Prop where
  has : w.Has f.2
  parts : ∀ u ∈ w.entryValues f.2 ++ w.listed f.2, w.Has u
  responses : f.1 = "responses" → ∀ u ∈ w.entryValues f.2, ∀ x ∈ w.entryValues u, w.Open E x
  parameters : f.1 = "parameters" → ∀ u ∈ w.listed f.2, ∀ x ∈ w.entryValues u, w.Open E x
  requestBody : f.1 = "request_body" → ∀ x ∈ w.entryValues f.2, w.Open E x
  extra : f.1 = "extra" → ∀ x ∈ w.entryValues f.2, w.Open E x

theorem openFields_of_entryValues {v : Value} (hv : ∀ x ∈ w.entryValues v, w.Open E x)
    {fs : List (String × Value)} (hf : Field.mapping w Field.any (.value v) = .ok fs) :
    OpenFields E w fs := by
  obtain ⟨es, hm, hes⟩ := Field.mapping_ok hf
  intro f hmem
  obtain ⟨e, he, heq⟩ := hes f hmem
  have same : e.2 = f.2 := by simpa [Field.any] using heq
  refine same ▸ hv e.2 ?_
  rw [entryValues, hm]
  exact List.mem_map_of_mem he

theorem check_fills (hw : w.Tidy) {given read : List (String × Value)}
    (hr : ∀ f ∈ read, Fills E w f) {f : Fields} (h : check w given read = .ok f) :
    f.All (w.Open E) := by
  have passed := check_passed h
  have found {name : String} {v : Value} (hl : read.lookup name = some v) : Fills E w (name, v) :=
    hr _ (Entries.mem_of_lookup hl)
  refine ⟨fun r hmem => ?_, fun ps hps q hq => ?_, fun b hb => ?_, ?_⟩
  · obtain ⟨v, hv, hm⟩ := Field.required_ok passed.responses
    obtain ⟨es, hes, hfs⟩ := Field.mapping_ok hm
    obtain ⟨e, he, heq⟩ := hfs r hmem
    refine openFields_of_entryValues ((found hv).responses rfl e.2 ?_) heq
    rw [entryValues, hes]
    exact List.mem_map_of_mem he
  · rcases Field.defaulted_ok passed.parameters with none | ⟨v, hv, hl⟩
    · exact absurd (none.symm.trans hps) (by simp)
    · rw [hps] at hl
      obtain ⟨items, hi, read⟩ := Field.list_ok (Field.orNone_ok hl)
      obtain ⟨i, hmem, hm⟩ := read q hq
      obtain ⟨x, xs, rfl, hxs, hx⟩ := mapping_of_item hw (found hv).has hi hmem hm
      refine openFields_of_entryValues ((found hv).parameters rfl x ?_) hm
      rw [listed, hxs]
      exact hx
  · rcases Field.defaulted_ok passed.requestBody with none | ⟨v, hv, hm⟩
    · exact absurd (none.symm.trans hb) (by simp)
    · rw [hb] at hm
      exact openFields_of_entryValues ((found hv).requestBody rfl) (Field.orNone_ok hm)
  · rcases Field.defaulted_ok passed.extra with none | ⟨v, hv, hm⟩
    · simp [none]
    · exact openFields_of_entryValues ((found hv).extra rfl) hm

theorem make_keeps {f : Fields} (h : f.All (w.Open E)) :
    (make f).Keeps (Encloses E) w fun u w' => w'.Usable E u :=
  Composition.keeps_make (C := .outside E) h fun _ _ _ fields =>
    (Keeps.add (.operation fields)).mono fun _ _ _ _ ha => ha.2

theorem Fills.extends {f : String × Value} (h : Fills E w f) (k : w.Extends w') : Fills E w' f := by
  have values : w'.entryValues f.2 = w.entryValues f.2 := k.entryValues h.has
  have items : w'.listed f.2 = w.listed f.2 := k.listed h.has
  have part {u : Value} (hu : u ∈ w.entryValues f.2 ++ w.listed f.2) :
      w'.entryValues u = w.entryValues u := k.entryValues (h.parts u hu)
  refine ⟨h.has.mono k.size, ?_, fun hn u hu => ?_, fun hn u hu => ?_, fun hn x hx => ?_,
    fun hn x hx => ?_⟩
  · rw [values, items]
    exact fun u hu => (h.parts u hu).mono k.size
  · rw [values] at hu
    rw [part (List.mem_append_left _ hu)]
    exact fun x hx => (h.responses hn u hu x hx).mono k.size
  · rw [items] at hu
    rw [part (List.mem_append_right _ hu)]
    exact fun x hx => (h.parameters hn u hu x hx).mono k.size
  · rw [values] at hx
    exact (h.requestBody hn x hx).mono k.size
  · rw [values] at hx
    exact (h.extra hn x hx).mono k.size

/-- An operation is usable if what it reads from its fields is not inside. The responses are copied,
so that they may be. -/
theorem ofFields_fills {given : List (String × Value)}
    (h : ∀ f ∈ given, Fills E w f ∨ f.1 = "responses" ∧ w.Has f.2) :
    (ofFields given).Keeps (Encloses E) w fun u w' => w'.Usable E u := by
  refine (Keeps.mapM_all (R := fun f w => Fills E w f) (fun f _ _ h k => h.extends k)
    fun f hf w₁ k => ?_).bind fun read w₁ _ hread => ?_
  · obtain ⟨name, v⟩ := f
    by_cases responses : name = "responses"
    · subst responses
      have has : w.Has v := by
        rcases h _ hf with h | h
        · exact h.has
        · exact h.2
      have copies := (withTextCodes_copies (E := E) v).mono (w := w₁)
        (R := fun u w₂ => Fills E w₂ ("responses", u)) fun u w₂ k₂ hw₂ ⟨hu, hx⟩ => ?_
      · exact copies.bind fun u w₂ _ hu => .pure hu
      · have has : w₂.Has u := by
          rcases hu with rfl | hu
          · exact has.mono (k.trans k₂).size
          · exact hu.open.has
        exact ⟨has, hw₂.tidy.has_parts u, fun _ y hy => hw₂.entryValues (hx y hy),
          fun hn => absurd hn (by simp), fun hn => absurd hn (by simp),
          fun hn => absurd hn (by simp)⟩
    · simp only [responses, if_false]
      exact .pure (((h _ hf).resolve_right fun hr => responses hr.1).extends k)
  · refine .from fun hw₁ => .get_bind ?_
    cases hc : check w₁ given read with
    | error rs => exact .throw _
    | ok f => exact make_keeps (check_fills hw₁.tidy hread hc)

theorem ofFields_keeps {given : List (String × Value)} (hu : ∀ f ∈ given, w.Usable E f.2)
    (hp : ∀ f ∈ given, f.1 = "parameters" → ∀ u ∈ w.listed f.2, w.Usable E u) :
    (ofFields given).Keeps (Encloses E) w fun u w' => w'.Usable E u := by
  refine .from fun hw => ofFields_fills fun f hf => ?_
  have has := (hu f hf).open.has
  by_cases responses : f.1 = "responses"
  · exact .inr ⟨responses, has⟩
  · refine .inl ⟨has, hw.tidy.has_parts f.2, fun hn => absurd hn responses,
      fun hn u hmem => hw.entryValues (hp f hf hn u hmem), fun _ => ?_, fun _ => ?_⟩
    · exact hw.entryValues (hu f hf)
    · exact hw.entryValues (hu f hf)

/-- An operation is usable if what the mappings among its arguments hold is not inside. The mapping of
the extra entries is new. -/
theorem ofFields_entries_keeps {method path responses operationId summary tags parameters
    requestBody : Value} (has : ∀ u ∈ [method, path, responses, operationId, summary, tags,
      parameters, requestBody], w.Has u)
    (items : ∀ u ∈ w.listed parameters, ∀ x ∈ w.entryValues u, w.Open E x)
    (body : ∀ x ∈ w.entryValues requestBody, w.Open E x) {es : Entries}
    (hes : OpenEntries E w es) :
    (Build.newMapping es >>= fun extra => ofFields [("method", method), ("path", path),
      ("responses", responses), ("operation_id", operationId), ("summary", summary),
      ("tags", tags), ("parameters", parameters), ("request_body", requestBody),
      ("extra", extra)]).Keeps (Encloses E) w fun u w' => w'.Usable E u := by
  simp only [List.mem_cons, List.not_mem_nil, or_false, forall_eq_or_imp, forall_eq] at has
  obtain ⟨hm, hp, hr, hi, hs, ht, hps, hb⟩ := has
  refine .from fun hw => (newMapping_keeps hes).bind fun extra w₁ k ⟨hg, hx⟩ => ?_
  have parts := hw.tidy.has_parts
  have plain (name : String) (u : Value) (hu : w.Has u) (hn : name ∉ ["responses", "parameters",
      "request_body", "extra"]) : Fills E w (name, u) := by
    simp only [List.mem_cons, List.not_mem_nil, or_false, not_or] at hn
    exact ⟨hu, parts u, fun h => absurd h hn.1, fun h => absurd h hn.2.1,
      fun h => absurd h hn.2.2.1, fun h => absurd h hn.2.2.2⟩
  have parameters : Fills E w ("parameters", parameters) := ⟨hps, parts parameters,
    fun h => absurd h (by simp), fun _ => items, fun h => absurd h (by simp),
    fun h => absurd h (by simp)⟩
  have body : Fills E w ("request_body", requestBody) := ⟨hb, parts requestBody,
    fun h => absurd h (by simp), fun h => absurd h (by simp), fun _ => body,
    fun h => absurd h (by simp)⟩
  have values : ∀ x ∈ w₁.entryValues extra, w₁.Open E x := by
    rw [entryValues, hg]
    rintro x hx
    obtain ⟨e, he, rfl⟩ := List.mem_map.mp hx
    exact (hes e he).2.mono k.size
  have unlisted : w₁.listed extra = [] := by
    cases extra with
    | atom a => rfl
    | obj a => cases hx : w₁.get a <;> simp_all [Value.mapping?, listed, Value.items?]
  have extra : Fills E w₁ ("extra", extra) := by
    refine ⟨hx.open.has, ?_, fun h => absurd h (by simp), fun h => absurd h (by simp),
      fun h => absurd h (by simp), fun _ => values⟩
    rw [unlisted, List.append_nil]
    exact fun u hu => (values u hu).has
  refine ofFields_fills ?_
  simp only [List.mem_cons, List.not_mem_nil, or_false, forall_eq_or_imp, forall_eq]
  exact ⟨.inl ((plain _ _ hm (by simp)).extends k), .inl ((plain _ _ hp (by simp)).extends k),
    .inr ⟨trivial, hr.mono k.size⟩, .inl ((plain _ _ hi (by simp)).extends k),
    .inl ((plain _ _ hs (by simp)).extends k), .inl ((plain _ _ ht (by simp)).extends k),
    .inl (parameters.extends k), .inl (body.extends k), .inl extra⟩

theorem build_keeps {method path responses operationId summary tags parameters requestBody
    extra : Value} (hm : w.Usable E method) (hp : w.Usable E path) (hr : w.Usable E responses)
    (hi : w.Usable E operationId) (hs : w.Usable E summary) (ht : w.Usable E tags)
    (hps : w.Usable E parameters) (items : ∀ u ∈ w.listed parameters, w.Usable E u)
    (hb : w.Usable E requestBody) (hx : w.Usable E extra) :
    (build method path responses operationId summary tags parameters requestBody extra).Keeps
      (Encloses E) w fun u w' => w'.Usable E u := by
  refine (Value.entriesOrEmpty_keeps hx).bind fun es w₁ k hes => .from fun hw₁ => ?_
  refine ofFields_entries_keeps ?_ (fun u hu => ?_) (hw₁.entryValues (hb.mono k.size)) hes
  · simp only [List.mem_cons, List.not_mem_nil, or_false, forall_eq_or_imp, forall_eq]
    exact ⟨(hm.mono k.size).open.has, (hp.mono k.size).open.has, (hr.mono k.size).open.has,
      (hi.mono k.size).open.has, (hs.mono k.size).open.has, (ht.mono k.size).open.has,
      (hps.mono k.size).open.has, (hb.mono k.size).open.has⟩
  · rw [k.listed hps.open.has] at hu
    exact hw₁.entryValues ((items u hu).mono k.size)

theorem of?_eq {v : Value} {op : Operation} (h : of? w v = some op) :
    ∃ a, v = .obj a ∧ w.get a = .operation op := by
  cases v with
  | atom a => simp [of?] at h
  | obj a => exact ⟨a, rfl, by cases hg : w.get a <;> simp_all [of?]⟩

/-- The fields of an operation that is not inside. -/
theorem fields_open (hw : w.Encloses E) {v : Value} (hv : w.Open E v) {op : Operation}
    (h : of? w v = some op) : ∀ e ∈ op.fields, w.Open E e.2 := by
  obtain ⟨a, rfl, hg⟩ := of?_eq h
  have usable : w.Usable E (.obj a) := by
    refine ⟨hv.1, hv.2, fun hd => ?_⟩
    obtain ⟨es, hm⟩ := hw.door a hd
    simp [hg] at hm
  intro e he
  refine hw.open_part usable ?_
  rw [hg]
  exact List.mem_map.mpr ⟨e, he, rfl⟩

theorem emit_keeps {op : Operation} (h : ∀ e ∈ op.fields, w.Open E e.2) {default : Value}
    (hd : w.Open E default) :
    (op.emit default).Keeps (Encloses E) w fun u w' => w'.Usable E u := by
  simp only [fields, List.mem_cons, List.not_mem_nil, or_false, forall_eq_or_imp,
    forall_eq] at h
  obtain ⟨-, -, responses, -, -, tags, parameters, body, extra⟩ := h
  refine Composition.keeps_emit (C := .outside E) hd (fun b hb => ?_)
    (Composition.copies_open parameters) (Composition.copies_open body)
    (Composition.copies_open (a := some op.responses) responses) fun _ k => ?_
  · rw [hb] at tags
    exact Value.iterate_keeps tags
  · exact (copyObject_keeps (extra.mono k.size).has).mono fun _ _ _ _ hx => Value.further_keeps hx

end Operation

/-! ### Documents -/

namespace Paths

theorem build_keeps {operations : Value} (h : w.Usable E operations) :
    (build operations).Keeps (Encloses E) w fun u w' => w'.Usable E u := by
  refine Composition.keeps_paths (C := .outside E) ((Value.items_keeps h).mono
    fun es w₁ _ hw hes e he w₂ k op found => .from fun hw₂ => ?_)
  have name := (hw.usable_of_inert (hes e he).1).open.mono k.size
  exact Operation.emit_keeps (Operation.fields_open hw₂ ((hes e he).2.mono k.size) found) name

end Paths

namespace Document

theorem detachedOrEmpty_keeps {v : Value} (hv : w.Usable E v) :
    (detachedOrEmpty v).Keeps (Encloses E) w fun u w' => w'.Usable E u := by
  refine (Value.entriesOrEmpty_keeps hv).bind fun es w₁ _ hes => ?_
  exact (newMapping_keeps hes).bind fun u w₂ _ hu => Value.copy_keeps hu.2.open.has

theorem componentSection_keeps {name entries : Value} (hn : w.Inert name)
    (he : w.Usable E entries) : (componentSection name entries).Keeps (Encloses E) w fun p w' =>
      w'.Inert p.1 ∧ w'.Open E p.2 := by
  refine Composition.keeps_section (C := .outside E) hn (fun _ => ?_) fun _ => ?_
  · exact (Value.items_keeps he).mono fun es _ _ _ hes e he =>
      ⟨(hes e he).1, Composition.supplies_emit (hes e he).2⟩
  · exact (Value.copy_keeps he.open.has).mono fun _ _ _ _ hu => hu.open

theorem components_keeps {v : Value} (hv : ∀ u ∈ w.entryValues v, w.Usable E u) :
    (components v).Keeps (Encloses E) w fun u w' => w'.Open E u := by
  have items : v.items.Keeps (Encloses E) w fun es w' =>
      ∀ e ∈ es, w'.Inert e.1 ∧ w'.Usable E e.2 := by
    refine .from fun hw => .get_bind ?_
    cases hm : v.mapping? w with
    | none => exact .lack v "items"
    | some es =>
        refine .pure fun e he => ⟨(hw.tidy.entries hm e he).1, hv e.2 ?_⟩
        rw [entryValues, hm]
        exact List.mem_map_of_mem he
  refine (Composition.keeps_components (C := .outside E) (items.mono ?_)).mono
    fun _ _ _ _ hu => hu.open
  exact fun es w₁ _ _ hes e he w₂ k =>
    componentSection_keeps ((hes e he).1.follows k.follows) ((hes e he).2.mono k.size)

/-- What a document is made of is usable. -/
structure Arguments.Usable (E : Enclosure) (w : World) (a : Arguments) : Prop where
  title : w.Usable E a.title
  version : w.Usable E a.version
  paths : w.Usable E a.paths
  components : w.Usable E a.components
  sections : ∀ u ∈ w.entryValues a.components, w.Usable E u
  openapi : w.Usable E a.openapi
  description : w.Usable E a.description
  servers : w.Usable E a.servers
  extra : w.Usable E a.extra

theorem build_keeps {a : Arguments} (h : a.Usable E w) :
    (build a).Keeps (Encloses E) w fun u w' => w'.Usable E u := by
  refine Composition.keeps_document (C := .outside E) h.title.open h.version.open h.openapi.open
    h.description.open (fun _ w' k => ?_) (fun w' k => ?_) (fun _ w' k => components_keeps ?_)
    fun w' k => ?_
  · exact (Value.copy_keeps (h.servers.mono k.size).open.has).mono fun _ _ _ _ hu => hu.open
  · exact (detachedOrEmpty_keeps (h.paths.mono k.size)).mono fun _ _ _ _ hu => hu.open
  · rw [k.entryValues h.components.open.has]
    exact fun u hu => (h.sections u hu).mono k.size
  · exact (detachedOrEmpty_keeps (h.extra.mono k.size)).mono
      fun _ _ _ _ hx => Value.further_keeps hx

theorem render_keeps {doc format : Value} (hd : w.Usable E doc) :
    (render doc format).Keeps (Encloses E) w fun _ _ => True := by
  have finish {α : Type} (r : Except Fault α) (w' : World) :
      (orFail r).Keeps (Encloses E) w' fun _ _ => True := by
    cases r with
    | ok a => exact .pure trivial
    | error f => exact .throw f
  have yaml (w' : World) (k : w.Extends w') :
      (yaml doc).Keeps (Encloses E) w' fun _ _ => True := by
    refine (Value.entries_keeps (hd.mono k.size)).bind fun es w₁ _ hes => ?_
    exact (Keeps.add (.mapping hes)).bind fun a w₂ _ _ => .get_bind (finish _ _)
  have json (w' : World) : (json doc).Keeps (Encloses E) w' fun _ _ => True :=
    .get_bind ((finish _ _).bind fun _ _ _ _ => .pure trivial)
  refine .get_bind ((log_keeps _ _).bind fun _ w₁ k₁ _ => ?_)
  split
  · exact yaml w₁ k₁
  · exact json w₁
  · exact .throw _

end Document
end OpenApiDoc
