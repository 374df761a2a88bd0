import OpenApiDoc.Proofs.Arguments
import OpenApiDoc.Proofs.Assembly

/-! # Calls of any function

Every call keeps an enclosure closed whose arguments are given from outside. `Call.invoke_widens` is
about every function but those that write to objects and the one that loads modules. -/

namespace OpenApiDoc

open Build World

namespace Call

open Signature

/-- The defaults of a function are atoms. -/
def Function.Plain (f : Function) : Prop :=
  ∀ p ∈ f.signature.known, ∀ v, p.2 = some v → ∃ a, v = .atom a

/-- A call of a function with values that have a property, which atoms have as well. -/
theorem Function.call_fits {P : Value → Prop} (atom : ∀ a, P (.atom a)) {f : Function}
    (hf : f.Plain) {args : List Value} {named : List (String × Value)} (ha : ∀ v ∈ args, P v)
    (hn : ∀ f ∈ named, P f.2) :
    (∃ b : Bound, f.Fits args named b ∧ b.All (fun f => P f.2)) ∨
      ∃ m, f.call args named = Build.fail m := by
  refine f.call_cases (fun p hp v hv => ?_) (fun e he => ha _ (List.of_mem_zip he).2) hn
  obtain ⟨a, rfl⟩ := hf p hp v hv
  exact atom a

theorem function_plain (name : String) (must may : List String) (run : Bound → Build Value) :
    (function name must may run).Plain := by
  intro p hp v hv
  simp only [function, Signature.known, Signature.of, List.append_nil, List.mem_append,
    List.mem_map] at hp
  rcases hp with ⟨n, -, rfl⟩ | ⟨n, -, rfl⟩
  · cases hv
  · cases hv
    exact ⟨_, rfl⟩

variable {E : Enclosure} {w : World} {args : List Value} {named : List (String × Value)}
  {P : Value → Prop}

theorem Function.call_keeps {f : Function} {Q : Value → World → Prop} (atom : ∀ a, P (.atom a))
    (hf : f.Plain) (ha : ∀ v ∈ args, P v) (hn : ∀ f ∈ named, P f.2)
    (h : ∀ b : Bound, b.All (fun f => P f.2) → (f.run b).Keeps (Encloses E) w Q) :
    (f.call args named).Keeps (Encloses E) w Q := by
  rcases f.call_fits atom hf ha hn with ⟨b, fits, hb⟩ | ⟨m, run⟩
  · rw [fits.call]
    exact h b hb
  · rw [run]
    exact .throw _

/-! ### Functions that make nodes -/

section nodes

variable {b : Bound} (hb : b.All (fun f => w.Usable E f.2))
include hb

theorem constructor_keeps (c : Constructor) :
    ((constructor c).run b).Keeps (Encloses E) w fun u w' => w'.Usable E u ∧ w.Made u w' := by
  have usable (name : String) : w.Usable E (b.arg name) := hb.arg name trivial
  have described := (usable "description").open
  have extra := usable "extra"
  have leaf (name type : String) (format : Option String) :
      ((leaf name type format).run b).Keeps (Encloses E) w fun u w' =>
        w'.Usable E u ∧ w.Made u w' :=
    Schema.leaf_keeps described extra
  cases c with
  | pattern => exact Schema.pattern_keeps described extra
  | constant => exact Schema.constant_keeps (usable "value").open described extra
  | choice => exact Schema.choice_keeps (usable "values") extra
  | ref => exact Schema.ref_keeps _
  | array => exact Schema.array_keeps (usable "items").open described extra
  | object => exact Schema.object_keeps (usable "properties") described extra
  | _ => exact leaf _ _ _

theorem variant_keeps (c : Constructor) (v : Variant) :
    ((variant c v).run b).Keeps (Encloses E) w fun u w' => w'.Usable E u ∧ w.Made u w' := by
  have built := constructor_keeps hb c
  have flagged (o : Bool) : Build.Keeps (Encloses E)
      (do Node.withFlag (← (constructor c).run b) o) w fun u w' =>
        w'.Usable E u ∧ w.Made u w' :=
    built.bind fun u w₁ k _ => (Node.withFlag_keeps u o).mono fun _ _ _ _ hu =>
      ⟨hu.1, hu.2.mono k.size⟩
  cases v with
  | asBuilt => exact built
  | optional => exact flagged true
  | required => exact flagged false

end nodes

theorem variant_plain (c : Constructor) (v : Variant) : (variant c v).Plain := by
  have plain : (constructor c).Plain := by
    cases c <;> exact function_plain _ _ _ _
  cases v <;> exact plain

/-! ### Functions that make documents -/

section documents

variable (ha : ∀ v ∈ args, w.Usable E v) (hn : ∀ f ∈ named, w.Usable E f.2)
include ha hn

theorem response_keeps : (response.call args named).Keeps (Encloses E) w
    fun u w' => w'.Usable E u := by
  refine Function.call_keeps (fun _ => trivial) ?_ ha hn fun b hb => ?_
  · simp [Function.Plain, Signature.known, response, optional, textDefault, Value.none, Value.str]
  · have usable (name : String) : w.Usable E (b.arg name) := hb.arg name trivial
    exact Response.response_keeps (usable _) (usable _) (usable _) (usable _)
      ⟨usable _, usable _, usable _⟩

theorem requestBody_keeps : (requestBody.call args named).Keeps (Encloses E) w
    fun u w' => w'.Usable E u := by
  refine Function.call_keeps (fun _ => trivial) ?_ ha hn fun b hb => ?_
  · simp [Function.Plain, Signature.known, requestBody, optional, textDefault, Value.none, Value.str]
  · have usable (name : String) : w.Usable E (b.arg name) := hb.arg name trivial
    exact Response.body_keeps (usable _) (usable _) (usable _) ⟨usable _, usable _, usable _⟩

/-- A helper that fixes the media type does what the other function does. -/
theorem fixed_keeps {name : String} {must : List String} {h : JsonHelper} {f : Function}
    (hf : ∀ named : List (String × Value), (∀ f ∈ named, w.Usable E f.2) →
      (f.call [] named).Keeps (Encloses E) w fun u w' => w'.Usable E u) :
    ((fixed name must h f).call args named).Keeps (Encloses E) w
      fun u w' => w'.Usable E u := by
  refine Function.call_keeps (fun _ => trivial) ?_ ha hn fun b hb => ?_
  · intro p hp v hv
    simp only [fixed, Signature.known, List.append_nil, List.mem_map] at hp
    obtain ⟨n, -, rfl⟩ := hp
    cases hv
  · simp only [fixed]
    split
    · exact .throw _
    · refine hf _ fun f hmem => ?_
      rcases List.mem_append.mp hmem with hmem | hmem
      · exact hb.1 f hmem
      · exact hb.2 f hmem

theorem parameter_keeps : (parameter.call args named).Keeps (Encloses E) w
    fun u w' => w'.Usable E u := by
  refine Function.call_keeps (fun _ => trivial) (function_plain _ _ _ _) ha hn fun b hb => ?_
  have usable (name : String) : w.Usable E (b.arg name) := hb.arg name trivial
  exact Parameter.build_keeps (usable _) (usable _) (usable _) (usable _) (usable _)

theorem parameterIn_keeps (location : String) :
    ((parameterIn location).call args named).Keeps (Encloses E) w fun u w' => w'.Usable E u := by
  refine Function.call_keeps (fun _ => trivial) ?_ ha hn fun b hb => parameter_keeps ?_ hb.2
  · simp [Function.Plain, Signature.known, parameterIn]
  · have usable (name : String) : w.Usable E (b.arg name) := hb.arg name trivial
    simpa using ⟨usable "name", trivial, usable "schema"⟩

theorem render_keeps : (render.call args named).Keeps (Encloses E) w
    fun u w' => w'.Usable E u := by
  refine Function.call_keeps (fun _ => trivial) ?_ ha hn fun b hb => ?_
  · simp [Function.Plain, Signature.known, render, textDefault, Value.str]
  · have doc := hb.arg "doc" trivial
    exact (Document.render_keeps doc).bind fun s w' _ _ => .pure trivial

end documents

/-! Two functions read out parts of their arguments, and keep the parts of these. -/

/-- The parts of an argument that the function reads out: the parameters of an operation, and the
sections of the components of a document. -/
def readParts (w : World) (f : Callee) (v : Value) : List Value :=
  match f with
  | .operation | .operationRecord => w.listed v
  | .document => w.entryValues v
  | _ => []

/-- The value may be an argument of the function. -/
def Takes (E : Enclosure) (w : World) (f : Callee) (v : Value) : Prop :=
  w.Usable E v ∧ ∀ u ∈ readParts w f v, w.Usable E u

theorem Takes.atom (E : Enclosure) (w : World) (f : Callee) (a : Atom) : Takes E w f (.atom a) :=
  ⟨trivial, by cases f <;> simp [readParts, listed, entryValues, Value.items?, Value.mapping?]⟩

theorem operation_keeps (ha : ∀ v ∈ args, Takes E w .operation v)
    (hn : ∀ f ∈ named, Takes E w .operation f.2) :
    (operation.call args named).Keeps (Encloses E) w fun u w' => w'.Usable E u := by
  refine Function.call_keeps (Takes.atom E w _) ?_ ha hn fun b hb => ?_
  · simp [Function.Plain, Signature.known, operation, optional, Value.none]
  · have takes (name : String) := hb.arg name (.atom E w _ _)
    have usable (name : String) : w.Usable E (b.arg name) := (takes name).1
    exact Operation.build_keeps (usable _) (usable _) (usable _) (usable _) (usable _) (usable _)
      (usable _) (takes _).2 (usable _) (usable _)

theorem document_keeps (ha : ∀ v ∈ args, Takes E w .document v)
    (hn : ∀ f ∈ named, Takes E w .document f.2) :
    (document.call args named).Keeps (Encloses E) w fun u w' => w'.Usable E u := by
  refine Function.call_keeps (Takes.atom E w _) ?_ ha hn fun b hb => ?_
  · simp [Function.Plain, Signature.known, document, optional, textDefault, Value.none, Value.str]
  · have takes (name : String) := hb.arg name (.atom E w _ _)
    have usable (name : String) : w.Usable E (b.arg name) := (takes name).1
    exact Document.build_keeps ⟨usable _, usable _, usable _, usable _, (takes _).2, usable _,
      usable _, usable _, usable _⟩

/-! ### Access -/

section access

variable {v k : Value}

theorem item_keeps {α : Type} {s : Sequence} {xs : List α} {P : α → Prop} (h : ∀ x ∈ xs, P x) :
    (Access.item s xs k).Keeps (Encloses E) w fun x _ => P x := by
  have position : (Access.position s k).Keeps (Encloses E) w fun _ _ => True := by
    unfold Access.position
    split
    · split
      · exact .pure trivial
      · exact .throw _
    · exact .pure trivial
    · exact .get_bind (.throw _)
  refine position.bind fun i w' _ _ => ?_
  cases hx : (Access.index? xs.length i).bind (xs[·]?) with
  | none => exact .throw _
  | some x =>
      obtain ⟨j, -, hj⟩ := Option.bind_eq_some_iff.mp hx
      exact .pure (h x (List.mem_of_getElem? hj))

theorem value_of_find? {κ α : Type} {same : κ → κ → Bool} {es : List (κ × α)} {k : κ} {u : α}
    (h : Entries.find? same es k = some u) : ∃ e ∈ es, e.2 = u := by
  induction es with
  | nil => cases h
  | cons e es ih =>
      unfold Entries.find? at h
      split at h
      · cases h
        exact ⟨e, by simp, rfl⟩
      · obtain ⟨f, hf, hu⟩ := ih h
        exact ⟨f, List.mem_cons_of_mem e hf, hu⟩

theorem getItem_keeps (hv : w.Usable E v) (hk : w.Usable E k) :
    (Access.getItem v k).Keeps (Encloses E) w fun u w' => w'.Open E u := by
  cases v with
  | atom a =>
      cases a with
      | str s => exact (item_keeps (P := fun _ => True) (by simp)).bind fun c w' _ _ => .pure trivial
      | bytes bs =>
          exact (item_keeps (P := fun _ => True) (by simp)).bind fun c w' _ _ => .pure trivial
      | _ => exact .throw _
  | obj a =>
      refine .from fun hw => .look_bind ?_
      have part {v : Value} (hm : v ∈ (w.get a).parts) : w.Open E v := hw.open_part hv hm
      have item {xs : List Value} {s : Sequence} (hx : ∀ x ∈ xs, w.Open E x) :
          (Access.item s xs k).Keeps (Encloses E) w fun u w' => w'.Open E u :=
        (item_keeps hx).mono fun u w' k _ hu => hu.mono k.size
      have kind := hw.tidy.kind a hv.1
      cases hg : w.get a with
      | mapping es =>
          refine (Value.requireKey_keeps hk.open.has).bind fun _ w₁ k₁ _ => .get_bind ?_
          cases hf : Entries.find? w₁.sameKey es k with
          | none => exact .throw _
          | some u =>
              obtain ⟨e, he, rfl⟩ := value_of_find? hf
              exact .pure ((hw.openEntries hv hg e he).2.mono k₁.size)
      | list xs => exact item fun x hx => part (by simpa [hg, Object.parts] using hx)
      | tuple xs => exact item fun x hx => part (by simpa [hg, Object.parts] using hx)
      | machinery t ps => simp [hg, Object.isCopied, Object.isData] at kind
      | _ => exact .throw _

theorem getAttribute_keeps (hv : w.Usable E v) (name : Value) :
    (Access.getAttribute v name).Keeps (Encloses E) w fun u w' => w'.Open E u := by
  cases name with
  | obj b => exact .look_bind (.throw _)
  | atom n =>
      cases n with
      | str s =>
          cases v with
          | atom a => exact .lack _ s
          | obj a =>
              refine .from fun hw => .get_bind ?_
              have bare : w.attributes.lookup (a, s) = none := by simp [hw.tidy.attributes]
              have own : ∀ f ∈ Access.attributes (w.get a), w.Open E f.2 := by
                have part {v : Value} (hm : v ∈ (w.get a).parts) : w.Open E v :=
                  hw.open_part hv hm
                have kind := hw.tidy.kind a hv.1
                intro f hf
                cases hg : w.get a with
                | constructor c =>
                    simp only [hg, Access.attributes, List.mem_cons, List.not_mem_nil,
                      or_false] at hf
                    rcases hf with rfl | rfl | rfl <;> trivial
                | node g o =>
                    simp only [hg, Access.attributes, Object.fields?, Object.nodeFields,
                      Option.getD_some, List.mem_cons, List.not_mem_nil, or_false] at hf
                    rcases hf with rfl | rfl
                    · exact part (by simp [hg, Object.parts])
                    · trivial
                | operation op =>
                    refine part ?_
                    rw [hg]
                    exact List.mem_map_of_mem (by simpa [hg, Access.attributes, Object.fields?] using hf)
                | module ns => simp [hg, Object.isCopied, Object.isData] at kind
                | _ => simp [hg, Access.attributes, Object.fields?] at hf
              simp only [bare, Option.orElse]
              cases hl : (Access.attributes (w.get a)).lookup s with
              | none => exact .lack _ s
              | some u => exact .pure (own _ (Entries.mem_of_lookup hl))
      | _ => cases v <;> exact .throw _

end access

/-! ### All functions -/

/-- The function makes a node, or gives one that was there. -/
def makesNodes : Callee → Bool
  | .construct _ _ | .optional | .required | .nullable | .schemaNode | .merge => true
  | _ => false

/-- The function writes to objects in place, or runs what is not known here. -/
def writesOrLoads : Callee → Bool
  | .setItem | .setAttribute | .loadDocument => true
  | _ => false

/-- The result was there before, or it is not inside; and if the function makes nodes it was made. -/
def Outcome (E : Enclosure) (w : World) (f : Callee) (u : Value) (E' : Enclosure) (w' : World) :
    Prop :=
  w.Usable E u ∨ w'.Open E' u ∧ (makesNodes f = true → w.Made u w')

theorem Function.call_widens {f : Function} {R : Value → Enclosure → World → Prop}
    (atom : ∀ a, P (.atom a)) (hf : f.Plain) (ha : ∀ v ∈ args, P v) (hn : ∀ f ∈ named, P f.2)
    (h : ∀ b : Bound, b.All (fun f => P f.2) → (f.run b).Widens E w R) :
    (f.call args named).Widens E w R := by
  rcases f.call_fits atom hf ha hn with ⟨b, fits, hb⟩ | ⟨m, run⟩
  · rw [fits.call]
    exact h b hb
  · rw [run]
    exact .throw _

theorem fields_plain (make : List (String × Value) → Build Value) : (fields make).Plain := by
  simp [Function.Plain, Signature.known, fields]

/-- A function of values without names. -/
theorem unnamed_widens {name : String} {run : List Value → Option (Build Value)} {arity : Nat}
    {R : Value → Enclosure → World → Prop} (h : ∀ act, run args = some act → act.Widens E w R) :
    (unnamed name run arity args named).Widens E w R := by
  unfold unnamed
  split
  · cases hr : run args with
    | none => exact .throw _
    | some act => exact h act hr
  · exact .throw _

theorem unary_widens {name : String} {run : Value → Build Value}
    {R : Value → Enclosure → World → Prop} (ha : ∀ v ∈ args, P v)
    (h : ∀ v, P v → (run v).Widens E w R) : (unary name run args named).Widens E w R := by
  refine unnamed_widens fun act hact => ?_
  match args, ha, hact with
  | [v], ha, rfl => exact h v (ha v (by simp))

theorem binary_widens {name : String} {run : Value → Value → Build Value}
    {R : Value → Enclosure → World → Prop} (ha : ∀ v ∈ args, P v)
    (h : ∀ u v, P u → P v → (run u v).Widens E w R) :
    (binary name run args named).Widens E w R := by
  refine unnamed_widens fun act hact => ?_
  match args, ha, hact with
  | [u, v], ha, rfl => exact h u v (ha u (by simp)) (ha v (by simp))

/-- A method of the first argument. -/
theorem method_widens {α : Type} {m : Model} {name : String} {must may : List String}
    {of? : World → Value → Option α} {run : Value → α → Bound → Build Value}
    {R : Value → Enclosure → World → Prop} (atom : ∀ a, P (.atom a)) (ha : ∀ v ∈ args, P v)
    (hn : ∀ f ∈ named, P f.2)
    (h : ∀ self ∈ args, ∀ found, of? w self = some found → ∀ b : Bound, b.All (fun f => P f.2) →
      (run self found b).Widens E w R) :
    (method m name must may of? run args named).Widens E w R := by
  cases args with
  | nil => exact .throw _
  | cons self rest =>
      refine .get_bind ?_
      cases hf : of? w self with
      | none => exact .get_bind (.throw _)
      | some found =>
          have called := Function.call_widens (R := R) atom
            (function_plain (m.name ++ "." ++ name) (itself :: must) may (run self found)) ha hn
            fun b hb => h self (by simp) found hf b hb
          exact called

theorem invoke_widens (load : Value → Build Value) (f : Callee) (hf : writesOrLoads f = false)
    (passed : ∀ v ∈ args ++ named.map (·.2), Takes E w f v) :
    (invoke load f args named).Widens E w (Outcome E w f) := by
  have placed : ∀ v ∈ args, Takes E w f v := fun v hv => passed v (List.mem_append_left _ hv)
  have called : ∀ e ∈ named, Takes E w f e.2 := fun e he =>
    passed e.2 (List.mem_append_right _ (List.mem_map_of_mem he))
  have ha : ∀ v ∈ args, w.Usable E v := fun v hv => (placed v hv).1
  have hn : ∀ e ∈ named, w.Usable E e.2 := fun e he => (called e he).1
  have atom (a : Atom) : w.Usable E (.atom a) := trivial
  have outside {act : Build Value} (hm : makesNodes f = false)
      (h : act.Keeps (Encloses E) w fun u w' => w'.Usable E u) : act.Widens E w (Outcome E w f) :=
    h.widens fun u w' hu => .inr ⟨hu.open, fun ht => absurd (hm.symm.trans ht) (by simp)⟩
  have opens {act : Build Value} (hm : makesNodes f = false)
      (h : act.Keeps (Encloses E) w fun u w' => w'.Open E u) : act.Widens E w (Outcome E w f) :=
    h.widens fun u w' hu => .inr ⟨hu, fun ht => absurd (hm.symm.trans ht) (by simp)⟩
  have nodes {act : Build Value}
      (h : act.Keeps (Encloses E) w fun u w' => w'.Usable E u ∧ w.Made u w') :
      act.Widens E w (Outcome E w f) :=
    h.widens fun u w' hu => .inr ⟨hu.1.open, fun _ => hu.2⟩
  cases f with
  | construct c v =>
      show (construct c v args named).Widens E w _
      unfold construct
      split
      · exact .throw _
      · exact Function.call_widens atom (variant_plain c v) ha hn fun b hb =>
          nodes (variant_keeps hb c v)
  | optional =>
      exact Function.call_widens atom (function_plain _ _ _ _) ha hn fun b _ =>
        nodes (Node.withFlag_keeps _ true)
  | required =>
      exact Function.call_widens atom (function_plain _ _ _ _) ha hn fun b _ =>
        nodes (Node.withFlag_keeps _ false)
  | nullable =>
      refine Function.call_widens atom (function_plain _ _ _ _) ha hn fun b hb =>
        (Node.nullable_widens _).mono fun u E' w' _ _ hu => ?_
      rcases hu with rfl | hu
      · exact .inl (hb.arg "node" trivial)
      · exact .inr ⟨hu.1.open, fun _ => hu.2⟩
  | merge =>
      refine method_widens atom ha hn fun self hs found _ b _ =>
        (Node.merge_widens self _).mono fun u E' w' _ _ hu => ?_
      rcases hu with rfl | hu
      · exact .inl (ha _ hs)
      · exact .inr ⟨hu.1.open, fun _ => hu.2⟩
  | schemaNode =>
      exact Function.call_widens atom (fields_plain _) ha hn fun b _ => nodes (Node.ofFields_keeps _)
  | operationRecord =>
      refine Function.call_widens (Takes.atom E w _) (fields_plain _) placed called
        fun b hb => outside rfl (Operation.ofFields_keeps (fun f hf => ?_) fun f hf _ => ?_)
      · exact (hb.2 f hf).1
      · exact (hb.2 f hf).2
  | response => exact outside rfl (response_keeps ha hn)
  | json => exact outside rfl (fixed_keeps ha hn fun _ hn => response_keeps (by simp) hn)
  | requestBody => exact outside rfl (requestBody_keeps ha hn)
  | jsonBody => exact outside rfl (fixed_keeps ha hn fun _ hn => requestBody_keeps (by simp) hn)
  | parameter => exact outside rfl (parameter_keeps ha hn)
  | pathParam => exact outside rfl (parameterIn_keeps ha hn "path")
  | queryParam => exact outside rfl (parameterIn_keeps ha hn "query")
  | headerParam => exact outside rfl (parameterIn_keeps ha hn "header")
  | operation => exact outside rfl (operation_keeps placed called)
  | paths =>
      exact Function.call_widens atom (function_plain _ _ _ _) ha hn fun b hb =>
        outside rfl (Paths.build_keeps (hb.arg "ops" trivial))
  | document => exact outside rfl (document_keeps placed called)
  | render => exact outside rfl (render_keeps ha hn)
  | emit =>
      exact Function.call_widens atom (function_plain _ _ _ _) ha hn fun b hb =>
        outside rfl (Node.emit_keeps (hb.arg "value" trivial).open)
  | isOptional =>
      exact Function.call_widens atom (function_plain _ _ _ _) ha hn fun b hb =>
        opens rfl (.get_bind (.pure trivial))
  | toSchema =>
      refine method_widens atom ha hn fun self _ found hp _ _ hw => ?_
      obtain ⟨a, rfl, hg⟩ := Node.parts?_eq hp
      have fragment : w.Has (.obj found.1) :=
        hw.tidy.has_part (a := a) (by simp [hg, Object.parts])
      exact outside rfl (Node.schema_keeps fragment) hw
  | emitOperation =>
      refine method_widens atom ha hn fun self hs op ho b hb hw => ?_
      have fields := Operation.fields_open hw (ha self hs).open ho
      have default := (hb.arg "default_id" trivial).open
      exact outside rfl (Operation.emit_keeps fields default) hw
  | getAttribute =>
      exact binary_widens ha fun u v hu _ => opens rfl (getAttribute_keeps hu v)
  | getItem =>
      exact binary_widens ha fun u v hu hv => opens rfl (getItem_keeps hu hv)
  | keys =>
      refine unary_widens ha fun v hv => outside rfl ?_
      exact (Value.iterate_keeps hv.open).bind fun us _ _ hus => newList_keeps hus
  | equal =>
      refine binary_widens ha fun u v _ _ => opens rfl (.get_bind ?_)
      cases w.equal? u v with
      | none => exact .throw _
      | some outcome => exact .pure trivial
  | shown => exact unary_widens ha fun v _ => opens rfl (.get_bind (.pure trivial))
  | text => exact unary_widens ha fun v _ => opens rfl (.get_bind (.pure trivial))
  | setAttribute => cases hf
  | setItem => cases hf
  | loadDocument => cases hf

end Call
end OpenApiDoc
