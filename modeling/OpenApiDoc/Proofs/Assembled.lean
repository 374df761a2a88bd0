import OpenApiDoc.Proofs.Purposes
import OpenApiDoc.Proofs.Rendering

/-! # What is assembled can be rendered

`Assembled` follows how the parts of a document come about: from JSON, by literals of lists, tuples and
mappings, and by calls whose arguments were assembled for what the calls expect of them. Nodes may
occur in schemas and in the further entries of constructors at any depth.

* `Assembled.serves`: what was assembled for a purpose serves it, by induction on how it came about.
* `Assembled.rendered`: a document is a mapping of JSON, and every format has a text for it. -/

namespace OpenApiDoc

open Build World

namespace Purpose

/-- What values of a purpose will do for as well. -/
def above : Purpose → List Purpose
  | .text => [.json]
  | .json => [.part]
  | .record => [.json]
  | .document => [.record]
  | .schema => [.part]
  | _ => []

/-- What has to stand under the names of a mapping for the purpose. -/
def inside : Purpose → Option (String → Purpose)
  | .record => some fun _ => .json
  | .schema => some fun _ => .part
  | .schemas => some fun _ => .schema
  | .operations => some fun _ => .operation
  | .sections => some fun s => if s = "schemas" then .schemas else .json
  | _ => none

end Purpose

/-- The value has been assembled for the purpose. What was assembled stays so while the store grows. -/
inductive Assembled (load : Value → Build Value) : World → Purpose → Value → Prop
  | any {w : World} (v : Value) : Assembled load w .any v
  | text {w : World} (s : String) : Assembled load w .text (.str s)
  | json {w : World} {v : Value} (json : w.Is .json v) : Assembled load w .json v
  | record {w : World} {v : Value} {es : Entries} (json : Assembled load w .json v)
      (mapping : v.mapping? w = some es) : Assembled load w .record v
  | schema {w : World} {v : Value} {es : Entries} (part : Assembled load w .part v)
      (mapping : v.mapping? w = some es) : Assembled load w .schema v
  | absent {w : World} (p : Purpose) : Assembled load w (.maybe p) .none
  | given {w : World} {p : Purpose} {v : Value} (h : Assembled load w p v) :
      Assembled load w (.maybe p) v
  | widened {w : World} {p q : Purpose} {v : Value} (h : Assembled load w p v) (above : q ∈ p.above) :
      Assembled load w q v
  | later {w w' : World} {p : Purpose} {v : Value} (h : Assembled load w p v)
      (grown : w.Extends w') : Assembled load w' p v
  | list {w w' : World} {p : Purpose} {xs : List Value} {u : Value} (owned : w.Owned)
      (kind : p ∈ [.json, .part]) (items : ∀ x ∈ xs, Assembled load w p x)
      (run : (newList xs).run w = .ok u w') : Assembled load w' p u
  | tuple {w w' : World} {p : Purpose} {xs : List Value} {u : Value} (owned : w.Owned)
      (kind : p ∈ [.json, .part]) (items : ∀ x ∈ xs, Assembled load w p x)
      (run : (newTuple xs).run w = .ok u w') : Assembled load w' p u
  | mapping {w w' : World} {p : Purpose} {inside : String → Purpose} {fs : List (String × Value)}
      {u : Value} (owned : w.Owned) (known : p.inside = some inside)
      (values : ∀ f ∈ fs, Assembled load w (inside f.1) f.2)
      (run : (newMapping (Entries.named fs)).run w = .ok u w') : Assembled load w' p u
  | responses {w w' : World} {es : Entries} {u : Value} (owned : w.Owned)
      (values : ∀ e ∈ es, Assembled load w .json e.2) (run : (newMapping es).run w = .ok u w') :
      Assembled load w' .responses u
  | choices {w w' : World} {es : Entries} {u : Value} (owned : w.Owned)
      (keys : ∀ e ∈ es, Assembled load w .json e.1) (run : (newMapping es).run w = .ok u w') :
      Assembled load w' .choices u
  | call {w w' : World} {p : Purpose} {f : Callee} {args : List Value}
      {named : List (String × Value)} {u : Value} (owned : w.Owned)
      (produces : Call.produces f = some p)
      (arguments : ∀ e ∈ Call.underNames f args named, Assembled load w (Call.expects f e.1) e.2)
      (run : (Call.invoke load f args named).run w = .ok u w') : Assembled load w' p u

variable {load : Value → Build Value} {w w' : World} {v : Value}

theorem World.Serves.above {p q : Purpose} (h : w.Serves p v) (hq : q ∈ p.above) : w.Serves q v := by
  cases p <;> simp only [Purpose.above, List.mem_cons, List.not_mem_nil, or_false] at hq <;> subst hq
  · obtain ⟨s, rfl⟩ := h
    exact is_text w s
  · exact Is.mono h Kind.json_le_part
  · exact IsSchematic.part h
  · exact IsRecord.json h
  · exact h

theorem newMapping_held (es : Entries) :
    (newMapping es).Gives w fun u w' => w.Extends w' ∧ u.mapping? w' = some es :=
  (Gives.new (Q := fun a w' => w.Extends w' ∧ (Value.obj a).mapping? w' = some es)
    ⟨w.extends_alloc _, Value.mapping?_of_get (w.get_alloc_same _)⟩).bind fun _ _ _ h => .pure h

/-- A mapping serves a purpose if its values serve what they stand for. -/
theorem newMapping_serves {p : Purpose} {inside : String → Purpose} {fs : List (String × Value)}
    (ho : w.Owned) (known : p.inside = some inside) (values : ∀ f ∈ fs, w.Serves (inside f.1) f.2) :
    (newMapping (Entries.named fs)).Gives w fun u w' => w'.Serves p u := by
  have held := newMapping_held (w := w) (Entries.named fs)
  cases p with
  | record =>
      cases known
      exact (newMapping_is ho (IsFields.named values)).mono fun _ _ _ hu => ⟨hu.1, _, hu.2⟩
  | schema =>
      cases known
      refine (newMapping_is ho (IsFields.named values)).mono fun _ _ _ hu => ?_
      obtain ⟨a, rfl, hg⟩ := Value.eq_obj_of_mapping? hu.2
      exact ⟨hu.1, a, rfl, .inr ⟨_, hg⟩⟩
  | schemas =>
      cases known
      exact held.mono fun _ _ _ ⟨k, hm⟩ => ⟨_, hm, List.forall_mem_map.mpr fun f hf =>
        ⟨⟨f.1, rfl⟩, IsSchematic.extends (values f hf) k⟩⟩
  | operations =>
      cases known
      exact held.mono fun _ w' _ ⟨k, hm⟩ => ⟨_, hm, List.forall_mem_map.mpr fun f hf =>
        ⟨is_text w' f.1, IsOperationOf.extends (values f hf) k⟩⟩
  | sections =>
      cases known
      refine held.mono fun _ w' _ ⟨k, hm⟩ => ⟨_, hm, List.forall_mem_map.mpr fun f hf =>
        ⟨f.1, rfl, ?_⟩⟩
      have value : w'.Serves (if f.1 = "schemas" then .schemas else .json) f.2 :=
        (values f hf).extends k
      split
      next schemas =>
        rw [if_pos schemas] at value
        exact value
      next other =>
        rw [if_neg other] at value
        exact value
  | _ => cases known

/-- What was assembled for a purpose serves it. -/
theorem Assembled.serves {p : Purpose} (h : Assembled load w p v) : w.Serves p v := by
  induction h with
  | any => trivial
  | text s => exact ⟨s, rfl⟩
  | json json => exact json
  | record _ mapping json => exact ⟨json, _, mapping⟩
  | schema _ mapping part =>
      obtain ⟨a, rfl, hg⟩ := Value.eq_obj_of_mapping? mapping
      exact ⟨part, a, rfl, .inr ⟨_, hg⟩⟩
  | absent => exact .inl rfl
  | given _ h => exact .inr h
  | widened _ above h => exact h.above above
  | later _ k h => exact h.extends k
  | list owned kind _ run items =>
      simp only [List.mem_cons, List.not_mem_nil, or_false] at kind
      rcases kind with rfl | rfl <;> exact ((newList_is owned items).ok run).2
  | tuple owned kind _ run items =>
      simp only [List.mem_cons, List.not_mem_nil, or_false] at kind
      rcases kind with rfl | rfl <;> exact ((newTuple_is owned trivial items).ok run).2
  | mapping owned known _ run values => exact ((newMapping_serves owned known values).ok run).2
  | responses _ _ run values =>
      obtain ⟨-, k, hm⟩ := (newMapping_held _).ok run
      exact ⟨_, hm, fun e he => Is.extends (values e he) k⟩
  | choices owned _ run keys =>
      obtain ⟨-, k, hm⟩ := (newMapping_held _).ok run
      exact ⟨_, hm, fun e he => Is.mono (Is.extends (keys e he) k) Kind.json_le_part⟩
  | call owned produces _ run arguments =>
      exact ((Call.invoke_yields load produces arguments).ok owned run).2.2

/-! ### Rendering -/

/-- A document that was assembled is a mapping of JSON, and it is rendered in every format. -/
theorem Assembled.rendered {doc : Value} (h : Assembled load w .document doc) :
    w.IsRecord doc ∧ ∀ format ∈ Document.formats, ∃ text w',
      (Call.invoke load .render [doc, .str format] []).run w = .ok (.str text) w' := by
  have record : w.IsRecord doc := h.serves
  refine ⟨record, fun format known => ?_⟩
  obtain ⟨text, w', run⟩ := Document.render_record record known
  have fits : Call.render.Fits [doc, .str format] [] _ := rfl
  refine ⟨text, w', ?_⟩
  change (Call.render.call [doc, .str format] []).run w = _
  rw [fits.call]
  change (do return .str (← Document.render doc (.str format)) : Build Value).run w = _
  rw [EStateM.run_bind, run]
  rfl

/-! ### Programs that assemble -/

namespace Assembled

variable (load)

variable {load} in
theorem of_schema (h : Assembled load w .schema v) : Assembled load w .part v :=
  h.widened (by simp [Purpose.above])

variable {load} in
theorem of_record (h : Assembled load w .record v) : Assembled load w .json v :=
  h.widened (by simp [Purpose.above])

/-- The step assembles something for the purpose, if it gives a result. -/
abbrev By (w : World) (p : Purpose) (act : Build Value) : Prop :=
  act.Yields w fun u w' => Assembled load w' p u

theorem by_call {p : Purpose} {f : Callee} {args : List Value} {named : List (String × Value)}
    (produces : Call.produces f = some p)
    (arguments : ∀ e ∈ Call.underNames f args named, Assembled load w (Call.expects f e.1) e.2) :
    By load w p (Call.invoke load f args named) :=
  (Call.invoke_yields load produces fun e he => (arguments e he).serves).of_run
    fun owned _ _ run => .call owned produces arguments run

theorem by_mapping {p : Purpose} {inside : String → Purpose} {fs : List (String × Value)}
    (known : p.inside = some inside) (values : ∀ f ∈ fs, Assembled load w (inside f.1) f.2) :
    By load w p (newMapping (Entries.named fs)) :=
  Keeps.of_run (.of_gives fun _ => newMapping_held _) fun owned _ _ run =>
    .mapping owned known values run

theorem by_responses {es : Entries} (values : ∀ e ∈ es, Assembled load w .json e.2) :
    By load w .responses (newMapping es) :=
  Keeps.of_run (.of_gives fun _ => newMapping_held _) fun owned _ _ run =>
    .responses owned values run

theorem by_list {p : Purpose} {xs : List Value} (kind : p ∈ [.json, .part])
    (items : ∀ x ∈ xs, Assembled load w p x) : By load w p (newList xs) := by
  have made : (newList xs).Gives w fun _ _ => True :=
    (Gives.new (Q := fun _ _ => True) trivial).bind fun _ _ _ _ => .pure trivial
  exact Keeps.of_run (.of_gives fun _ => made) fun owned _ _ run => .list owned kind items run

/-- A document with a node in the further entries of a component, which is a response as well. -/
def composed : Build Value := do
  let allOf ← newList [← Call.invoke load (.construct .ref .asBuilt) [.str "Base"] []]
  let extra ← newMapping (Entries.named [("allOf", allOf)])
  let name ← Call.invoke load (.construct .string .asBuilt) [] []
  let properties ← newMapping (Entries.named [("name", name)])
  let pet ← Call.invoke load (.construct .object .asBuilt) [properties] [("extra", extra)]
  let ok ← Call.invoke load .json [] [("description", .str "ok"), ("schema", pet)]
  let responses ← newMapping [(.int 200, ok)]
  let op ← Call.invoke load .operation [.str "get", .str "/pets", responses] []
  let paths ← Call.invoke load .paths [← newMapping (Entries.named [("getPet", op)])] []
  let schemas ← newMapping (Entries.named [("Pet", pet)])
  let components ← newMapping (Entries.named [("schemas", schemas)])
  Call.invoke load .document [.str "Pets", .str "1.0.0", paths, components] []

theorem by_composed (w : World) : By load w .document (composed load) := by
  have text {w : World} (s : String) : Assembled load w .json (.str s) := .json (is_text w s)
  refine (by_call load (p := .schema) rfl ?_).bind fun _ w₁ _ base => ?_
  · exact List.forall_mem_singleton.mpr (.any _)
  refine (by_list load (p := .part) (by simp) ?_).bind fun _ w₂ _ allOf => ?_
  · exact List.forall_mem_singleton.mpr base.of_schema
  refine (by_mapping load (p := .schema) rfl ?_).bind fun _ w₃ _ extra => ?_
  · exact List.forall_mem_singleton.mpr allOf
  refine (by_call load (p := .schema) rfl (by simp [Call.underNames])).bind fun _ w₄ k₄ name => ?_
  refine (by_mapping load (p := .schemas) rfl ?_).bind fun _ w₅ k₅ properties => ?_
  · exact List.forall_mem_singleton.mpr name
  refine (by_call load (p := .schema) rfl ?_).bind fun _ w₆ _ pet => ?_
  · refine List.forall_mem_cons.mpr ⟨properties, List.forall_mem_singleton.mpr ?_⟩
    exact (extra.later (k₄.trans k₅)).of_schema
  refine (by_call load (p := .record) rfl ?_).bind fun _ w₇ k₇ ok => ?_
  · exact List.forall_mem_cons.mpr ⟨text _, List.forall_mem_singleton.mpr (.given pet)⟩
  refine (by_responses load ?_).bind fun _ w₈ k₈ responses => ?_
  · exact List.forall_mem_singleton.mpr ok.of_record
  refine (by_call load (p := .operation) rfl ?_).bind fun _ w₉ k₉ op => ?_
  · exact List.forall_mem_cons.mpr ⟨.any _, List.forall_mem_cons.mpr ⟨.any _,
      List.forall_mem_singleton.mpr responses⟩⟩
  refine (by_mapping load (p := .operations) rfl ?_).bind fun _ w₁₀ k₁₀ ops => ?_
  · exact List.forall_mem_singleton.mpr op
  refine (by_call load (p := .record) rfl ?_).bind fun _ w₁₁ k₁₁ paths => ?_
  · exact List.forall_mem_singleton.mpr ops
  have k := (((k₇.trans k₈).trans k₉).trans k₁₀).trans k₁₁
  refine (by_mapping load (p := .schemas) rfl ?_).bind fun _ w₁₂ k₁₂ schemas => ?_
  · exact List.forall_mem_singleton.mpr (pet.later k)
  refine (by_mapping load (p := .sections) rfl ?_).bind fun _ w₁₃ k₁₃ components => ?_
  · exact List.forall_mem_singleton.mpr schemas
  refine by_call load rfl ?_
  exact List.forall_mem_cons.mpr ⟨text _, List.forall_mem_cons.mpr ⟨text _,
    List.forall_mem_cons.mpr ⟨.given (paths.later (k₁₂.trans k₁₃)),
      List.forall_mem_singleton.mpr (.given components)⟩⟩⟩

variable {load} in
theorem of_composed {doc : Value} (owned : w.Owned) (run : (composed load).run w = .ok doc w') :
    Assembled load w' .document doc := by
  obtain ⟨-, -, assembled⟩ := Keeps.ok (by_composed load w) owned run
  exact assembled

set_option maxRecDepth 4000 in
theorem rendered_composed : ∃ (load : Value → Build Value) (doc : Value) (w : World),
    (composed load).run World.initial = .ok doc w ∧ Assembled load w .document doc ∧
    w.IsRecord doc ∧ ∀ format ∈ Document.formats, ∃ text w',
      (Call.invoke load .render [doc, .str format] []).run w = .ok (.str text) w' := by
  obtain ⟨load, doc, w, run⟩ : ∃ (load : Value → Build Value) (doc : Value) (w : World),
      (composed load).run World.initial = .ok doc w :=
    ⟨fun _ => Build.fail .endless, Build.ran _ _ (by decide +kernel)⟩
  have assembled := of_composed (fun _ _ => rfl) run
  exact ⟨load, doc, w, run, assembled, assembled.rendered⟩

end Assembled
end OpenApiDoc
