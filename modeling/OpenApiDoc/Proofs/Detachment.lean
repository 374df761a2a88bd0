import OpenApiDoc.Proofs.Arguments
import OpenApiDoc.Proofs.Fresh
import OpenApiDoc.Proofs.Isolation
import OpenApiDoc.Proofs.Renditions

/-! # Assembled values are detached

What `response`, `request_body` and their JSON forms, `Operation.to_dict`, `paths` and `document`
return shares no mapping and no list with anything that was there before the call.

* `Build.Settles` is what is proved of each helper: its result is fresh, and what the result looks
  like is decided by what its arguments look like.
* `Call.Handed` says what may be handed to a helper under a name.
* `Call.Detached` says what this comes to when items are assigned afterwards, in the arguments or in
  the result; `Call.invoke_detached` proves it of every call.
* `Operation.Proper` is needed of the operations that are involved. `Operation.build_proper` says that
  operations are made like this, `Call.labels_shared` what happens when the tags are overwritten with
  something else than texts. -/

namespace OpenApiDoc

open Build World

variable {w w' w₁ : World} {v : Value} {act : Build Value}

/-! ### Steps that settle -/

/-- From a world and from every later one, the step gives a result that is fresh and that shows the
same, if it gives one. -/
structure Build.Settles (w : World) (act : Build Value) : Prop where
  fresh : act.Keeps (Encloses .empty) w fun u w' => w'.Fresh w.size u
  denotes : ∃ d, ∀ w₁, w.Extends w₁ → act.Denotes w₁ Shows d

theorem Build.Settles.throw (f : Fault) : Settles w (throw f) :=
  ⟨.throw f, none, fun _ _ => .throw f⟩

theorem Build.Settles.lack (v : Value) (name : String) : Settles w (Build.lack v name) :=
  ⟨.lack v name, none, fun _ _ => .lack v name⟩

/-- The world is only looked at. -/
theorem Build.Settles.get_bind {f : World → Build Value} {g : Build Value}
    (same : ∀ w₁, w.Extends w₁ → f w₁ = g) (h : Settles w g) :
    Settles w ((MonadState.get : Build World) >>= f) where
  fresh := .get_bind (same w (.refl w) ▸ h.fresh)
  denotes := h.denotes.imp fun _ hd w₁ k => .get_bind (same w₁ k ▸ hd w₁ k)

theorem World.Tidy.reaches_lt (h : w.Tidy) (hv : w.Has v) {b : Addr} (hb : w.Reaches v b) :
    b < w.size := by
  obtain ⟨a, rfl, path⟩ := hb
  induction path with
  | refl => exact hv
  | tail _ step _ => exact h.part _ _ step

namespace Operation

/-- The tags are a list of texts and the extra entries a mapping, as in every operation when it is
made. -/
structure Proper (w : World) (op : Operation) : Prop where
  tags : op.Labelled w
  extra : ∃ es, w.get op.extra = .mapping es

theorem build_proper {method path responses operationId summary tags parameters requestBody
    extra v : Value} {w₁ : World} (run : (build method path responses operationId summary tags
      parameters requestBody extra).run w = .ok v w₁) : ∃ op, of? w₁ v = some op ∧ op.Proper w₁ := by
  obtain ⟨op, stored⟩ := build_stored run
  exact ⟨op, stored.found, stored.tags, stored.extra⟩

theorem Proper.isOperation {op : Operation} (h : op.Proper w) (hv : w.IsData v)
    (found : of? w v = some op) : w.IsOperation v op :=
  Stored.isOperation ⟨found, h.tags, h.extra⟩ hv

end Operation

namespace Call

open Signature

/-! ### What is handed over -/

/-- The parameters for texts and for a flag. -/
def plainNames : List String :=
  ["description", "type", "required", "title", "version", "openapi", "default_id"]

/-- What may be handed to a helper under a name: data, which is an atom where a text or a flag is
meant, and in which operations are as they were made. -/
structure Handed (w : World) (e : String × Value) : Prop where
  data : w.IsData e.2
  plain : e.1 ∈ plainNames → ∃ a, e.2 = .atom a
  operations : ∀ a op, w.Reaches e.2 a → w.get a = .operation op → op.Proper w

theorem Handed.atom (name : String) (a : Atom) : Handed w (name, .atom a) where
  data := .atom a
  plain _ := ⟨a, rfl⟩
  operations _ _ := by
    rintro ⟨_, ⟨⟩, -⟩

/-- The helpers that assemble. -/
def assembles : Callee → Bool
  | .response | .json | .requestBody | .jsonBody | .emitOperation | .paths | .document => true
  | _ => false

/-! ### The helpers settle -/

section settles

variable {b : Bound} {args : List Value} {named : List (String × Value)}

theorem Handed.arg (hb : b.All (Handed w)) (name : String) : Handed w (name, b.arg name) :=
  Bound.All.arg hb name (.atom name _)

theorem Handed.atomArg (hb : b.All (Handed w)) (name : String) (plain : name ∈ plainNames) :
    ∃ a, b.arg name = .atom a :=
  (Handed.arg hb name).plain plain

/-- A call that does not fit has settled, too. -/
theorem Function.call_settles {f : Function} (hf : f.Plain)
    (ha : ∀ e ∈ (f.signature.parameters.map (·.1)).zip args, Handed w e)
    (hn : ∀ e ∈ named, Handed w e)
    (h : ∀ b : Bound, b.All (Handed w) → Settles w (f.run b)) : Settles w (f.call args named) := by
  have defaults : ∀ p ∈ f.signature.known, ∀ v, p.2 = some v → Handed w (p.1, v) := by
    intro p hp v hv
    obtain ⟨a, rfl⟩ := hf p hp v hv
    exact .atom p.1 a
  rcases f.call_cases defaults ha hn with ⟨b, fits, hb⟩ | ⟨m, fails⟩
  · exact fits.call ▸ h b hb
  · exact fails ▸ .throw _

variable (hw : w.Tidy)
include hw

section arguments

variable (hb : b.All (Handed w))
include hb

omit hw in
theorem mediaOf_data : (mediaOf b).IsData w :=
  ⟨(Handed.arg hb _).data, (Handed.arg hb _).data, (Handed.arg hb _).data⟩

omit hw in
theorem mediaOf_has : (mediaOf b).Has w :=
  ⟨(Handed.arg hb _).data.has, (Handed.arg hb _).data.has, (Handed.arg hb _).data.has⟩

theorem response_settles : Settles w (response.run b) where
  fresh := Response.response_fresh (Nat.le_refl _) (mediaOf_has hb)
    (Handed.atomArg hb "type" (by decide)) (Handed.atomArg hb "description" (by decide))
    (Handed.arg hb _).data.has (Handed.arg hb _).data.has
  denotes := by
    refine ⟨Response.response? (w.tree (b.arg "description")) (w.tree (b.arg "type"))
      (w.tree (b.arg "headers")) (w.tree (b.arg "links")) (.of w (mediaOf b)), fun w₁ k => ?_⟩
    have data (name : String) := (Handed.arg hb name).data.extends k
    have media := (mediaOf_data hb).extends k
    have shown := Response.response_denotes (hw.owned.extends k) media.1 (data "description").1
      (data "type").1 (data "headers").1 (data "links").1
    rw [media.2, (data _).2, (data _).2, (data _).2, (data _).2] at shown
    exact shown

theorem requestBody_settles : Settles w (requestBody.run b) where
  fresh := Response.body_fresh (Nat.le_refl _) (mediaOf_has hb)
    (Handed.atomArg hb "type" (by decide)) (Handed.atomArg hb "description" (by decide))
    (Handed.atomArg hb "required" (by decide))
  denotes := by
    refine ⟨Response.body? (w.tree (b.arg "type")) (w.tree (b.arg "description"))
      (w.tree (b.arg "required")) (.of w (mediaOf b)), fun w₁ k => ?_⟩
    have data (name : String) := (Handed.arg hb name).data.extends k
    have media := (mediaOf_data hb).extends k
    have shown := Response.body_denotes (hw.owned.extends k) media.1 (data "type").1
      (data "description").1 (data "required").1
    rw [media.2, (data _).2, (data _).2, (data _).2] at shown
    exact shown

theorem document_settles : Settles w (document.run b) where
  fresh := Document.build_fresh (Nat.le_refl _)
    { title := Handed.atomArg hb "title" (by decide)
      version := Handed.atomArg hb "version" (by decide)
      openapi := Handed.atomArg hb "openapi" (by decide)
      description := Handed.atomArg hb "description" (by decide)
      paths := (Handed.arg hb _).data.has
      components := (Handed.arg hb _).data.has
      servers := (Handed.arg hb _).data.has
      extra := (Handed.arg hb _).data.has }
  denotes := by
    have data (name : String) := (Handed.arg hb name).data
    have all : Document.Arguments.IsData w ⟨b.arg "title", b.arg "version", b.arg "paths",
        b.arg "components", b.arg "openapi", b.arg "description", b.arg "servers",
        b.arg "extra"⟩ := ⟨data _, data _, data _, data _, data _, data _, data _, data _⟩
    exact ⟨_, fun w₁ k => (all.extends k).2 ▸
      Document.build_denotes (hw.owned.extends k) (all.extends k).1⟩

end arguments

theorem paths_settles (h : Handed w ("ops", v)) : Settles w (Paths.build v) := by
  have operation {es : Entries} (hm : v.mapping? w = some es) {e : Value × Value} (he : e ∈ es)
      {op : Operation} (found : Operation.of? w e.2 = some op) : op.Proper w := by
    obtain ⟨a, rfl, hg⟩ := Value.eq_obj_of_mapping? hm
    obtain ⟨c, hc, hop⟩ := Operation.of?_eq found
    have reached : w.Reaches e.2 c := ⟨c, hc, .refl⟩
    exact h.operations c op (reached.part (hg ▸ Object.mem_parts_value he)) hop
  refine ⟨Paths.build_fresh (Nat.le_refl _) fun es hm e he op found =>
    (operation hm he found).tags, ?_⟩
  cases hm : v.mapping? w with
  | none =>
      refine ⟨none, fun w₁ k => ?_⟩
      have other : v.mapping? w₁ = none := by
        rw [k.mapping? h.data.has, hm]
      have items : v.items.Denotes w₁ (fun _ _ (_ : Unit) => True) none :=
        .get_bind (by rw [other]; exact .lack v "items")
      exact items.bind (g := fun _ => none) fun _ _ _ ht => nomatch ht
  | some es =>
      have bindings : Paths.Bindings w es := by
        obtain ⟨a, rfl, hg⟩ := Value.eq_obj_of_mapping? hm
        have part {u : Value} (hu : u ∈ (w.get a).parts) : w.IsData u := h.data.part hu
        rw [hg] at part
        have value {e : Value × Value} (he : e ∈ es) := part (Object.mem_parts_value he)
        exact ⟨fun e he => part (Object.mem_parts_key he), fun e he => value he,
          fun e he op found => (operation hm he found).isOperation (value he) found⟩
      refine ⟨Paths.view? w es, fun w₁ k => ?_⟩
      rw [← Paths.view?_extends bindings k]
      refine Paths.build_denotes (hw.owned.extends k) ?_ (bindings.extends k)
      rw [k.mapping? h.data.has, hm]

theorem object_settles {op : Operation} (h : Handed w (itself, v))
    (found : Operation.of? w v = some op) {default : Value} (hd : ∃ a, default = .atom a) :
    Settles w (op.emit default) := by
  obtain ⟨a, rfl, hg⟩ := Operation.of?_eq found
  obtain ⟨d, rfl⟩ := hd
  have proper := h.operations a op ⟨a, rfl, .refl⟩ hg
  have operation := proper.isOperation h.data found
  have fields : ∀ e ∈ op.fields, w.Has e.2 := fun e he =>
    hw.has_part (a := a) (hg ▸ List.mem_map_of_mem he)
  refine ⟨Operation.emit_fresh (Nat.le_refl _) fields proper.tags (.atom d),
    op.written w (.atom d), fun w₁ k => ?_⟩
  rw [← Operation.written_grows operation (.atom d) k.grows]
  exact Gives.denotes (Operation.emit_gives (hw.owned.extends k) (operation.grows k.grows) (.atom d))

omit hw in
theorem fixed_settles {name : String} {must : List String} {j : JsonHelper} {f : Function}
    (hf : ∀ named : List (String × Value), (∀ e ∈ named, Handed w e) → Settles w (f.call [] named))
    (ha : ∀ e ∈ must.zip args, Handed w e) (hn : ∀ e ∈ named, Handed w e) :
    Settles w ((fixed name must j f).call args named) := by
  refine Function.call_settles (fun p hp v hv => ?_) (fun e he => ha e ?_) hn fun b hb => ?_
  · simp only [fixed, Signature.known, List.append_nil, List.mem_map] at hp
    obtain ⟨n, -, rfl⟩ := hp
    cases hv
  · simpa [fixed, List.map_map, Function.comp_def] using he
  · show Settles w (do
      if (b.more.lookup "type").isSome then throw (.fixedMediaType j)
      f.call [] (b.values ++ b.more))
    split
    · exact .throw _
    · refine hf _ fun e he => ?_
      rcases List.mem_append.mp he with he | he
      · exact hb.1 e he
      · exact hb.2 e he

theorem emitOperation_settles (load : Value → Build Value)
    (ha : ∀ e ∈ (positions .emitOperation).zip args, Handed w e)
    (hn : ∀ e ∈ named, Handed w e) : Settles w (invoke load .emitOperation args named) := by
  cases args with
  | nil => exact .throw _
  | cons self rest =>
      have own : Handed w (itself, self) := ha _ (by simp [positions])
      refine .get_bind (fun w₁ k => by rw [Paths.of?_extends k own.data]) ?_
      cases found : Operation.of? w self with
      | none => exact .lack self _
      | some op =>
          refine Function.call_settles (f := function "Operation.to_dict" [itself] ["default_id"]
            fun b => op.emit (b.arg "default_id")) (function_plain _ _ _ _) ha hn fun b hb => ?_
          exact object_settles hw own found (Handed.atomArg hb "default_id" (by decide))

theorem invoke_settles (load : Value → Build Value) {f : Callee} (hf : assembles f = true)
    (h : ∀ e ∈ underNames f args named, Handed w e) : Settles w (invoke load f args named) := by
  have ha : ∀ e ∈ (positions f).zip args, Handed w e := fun e he => h e (List.mem_append_left _ he)
  have hn : ∀ e ∈ named, Handed w e := fun e he => h e (List.mem_append_right _ he)
  have plainResponse : response.Plain := by
    simp [Function.Plain, response, Signature.known, optional, textDefault]
  have plainBody : requestBody.Plain := by
    simp [Function.Plain, requestBody, Signature.known, optional, textDefault]
  have plainDocument : document.Plain := by
    simp [Function.Plain, document, Signature.known, optional, textDefault]
  cases f with
  | response => exact Function.call_settles plainResponse ha hn fun b hb => response_settles hw hb
  | json =>
      refine fixed_settles (fun named hn => ?_) (by simp) hn
      exact Function.call_settles plainResponse (by simp) hn fun b hb => response_settles hw hb
  | requestBody =>
      exact Function.call_settles plainBody ha hn fun b hb => requestBody_settles hw hb
  | jsonBody =>
      refine fixed_settles (fun named hn => ?_) ha hn
      exact Function.call_settles plainBody (by simp) hn fun b hb => requestBody_settles hw hb
  | emitOperation => exact emitOperation_settles hw load ha hn
  | paths =>
      refine Function.call_settles (function_plain _ _ _ _) ha hn fun b hb => ?_
      exact paths_settles hw (Handed.arg hb "ops")
  | document => exact Function.call_settles plainDocument ha hn fun b hb => document_settles hw hb
  | _ => cases hf

end settles

/-! ### Assigning items afterwards -/

/-- What a call in `w` has returned stands by itself. It shares no mapping and no list with anything
that was there. Assignments to what was there, or to what it does not reach, leave it as it is.
Assignments to what it reaches, or to what was not there, leave what was there as it is, and a further
call returns what the first one did. -/
structure Detached (w : World) (call : Build Value) (u : Value) (w' : World) : Prop where
  apart : ∀ v, w.Has v → ∀ b, w'.Reaches v b → w'.Reaches u b → (w'.get b).isWritten = false
  lasts : ∀ w₁, w'.Extends w₁ → ∀ ts : List Access.Assignment,
    (∀ t ∈ ts, t.target < w.size ∨ ¬ w'.Reaches u t.target) →
      (∀ b, w'.Reaches u b → (Access.assigned w₁ ts).get b = w'.get b) ∧
        (Access.assigned w₁ ts).Shows u (w'.tree u)
  spares : ∀ w₁, w'.Extends w₁ → ∀ ts : List Access.Assignment,
    (∀ t ∈ ts, w.size ≤ t.target ∨ w'.Reaches u t.target) →
      (∀ a < w.size, (Access.assigned w₁ ts).get a = w.get a) ∧
        call.Gives (Access.assigned w₁ ts) fun u' w₂ => w₂.Shows u' (w'.tree u)

namespace Detached

variable {u : Value} (k : w.Extends w') (hu : w'.Fresh w.size u)
include hu

/-- What is fresh and was there is not written to. -/
theorem old_unwritten {b : Addr} (hb : w'.Reaches u b) (lt : b < w.size) :
    (w'.get b).isWritten = false :=
  ((hu b hb).2.resolve_left (Nat.not_le.mpr lt)).unwritten

theorem keeps_result (k₁ : w'.Extends w₁) {ts : List Access.Assignment}
    (h : ∀ t ∈ ts, t.target < w.size ∨ ¬ w'.Reaches u t.target) {b : Addr}
    (hb : w'.Reaches u b) : (Access.assigned w₁ ts).get b = w'.get b := by
  have there := k₁.get b (hu b hb).1
  rw [(Access.assigned_touched ts w₁).get b ?_, there]
  by_cases target : ∃ t ∈ ts, t.target = b
  · obtain ⟨t, ht, rfl⟩ := target
    have lt := (h t ht).resolve_right (not_not_intro hb)
    exact .inr (there ▸ old_unwritten hu hb lt)
  · exact .inl target

include k

theorem keeps_old (k₁ : w'.Extends w₁) {ts : List Access.Assignment}
    (h : ∀ t ∈ ts, w.size ≤ t.target ∨ w'.Reaches u t.target) :
    w.Extends (Access.assigned w₁ ts) := by
  have touched := Access.assigned_touched ts w₁
  have later := k.trans k₁
  refine ⟨touched.size ▸ later.size, fun a ha => ?_, touched.attributes.trans later.attributes⟩
  rw [touched.get a ?_, later.get a ha]
  by_cases target : ∃ t ∈ ts, t.target = a
  · obtain ⟨t, ht, rfl⟩ := target
    have reached := (h t ht).resolve_left (Nat.not_le.mpr ha)
    have same := k₁.get _ (hu _ reached).1
    exact .inr (same ▸ old_unwritten hu reached ha)
  · exact .inl target

end Detached

theorem settles_detached (hw : w.Tidy) (h : Settles w act) :
    match act.run w with
    | .ok u w' => w.Extends w' ∧ w'.Tidy ∧ Detached w act u w'
    | .error _ w' => w.Extends w' ∧ w'.Tidy := by
  cases run : act.run w with
  | error f w' =>
      obtain ⟨k, hw'⟩ := h.fresh.error hw.encloses_empty run
      exact ⟨k, hw'.tidy⟩
  | ok u w' =>
      obtain ⟨k, hw', hu⟩ := h.fresh.ok hw.encloses_empty run
      obtain ⟨d, denotes⟩ := h.denotes
      obtain ⟨t, ht, -⟩ := (denotes w (.refl w)).again (denotes w (.refl w)) run
      obtain rfl := ht.2
      refine ⟨k, hw'.tidy, ⟨fun v hv b hb hub => ?_, fun w₁ k₁ ts hts => ⟨fun b hb => ?_, ?_⟩,
        fun w₁ k₁ ts hts => ⟨fun a ha => ?_, ?_⟩⟩⟩
      · exact Detached.old_unwritten hu hub (hw.reaches_lt hv (k.reaches
          (fun c hc => hw.reaches_lt hv hc) hb))
      · exact Detached.keeps_result hu k₁ hts hb
      · have touched := Access.assigned_touched ts w₁
        refine ht.1.agree fun b hb => ⟨?_, Detached.keeps_result hu k₁ hts hb, ?_⟩
        · exact touched.size ▸ Nat.lt_of_lt_of_le (hu b hb).1 k₁.size
        · have bare := (ht.1.reached hb).bare
          rwa [attributesOf, touched.attributes, k₁.attributes]
      · exact (Detached.keeps_old k hu k₁ hts).get a ha
      · obtain ⟨t, ht', again⟩ := (denotes w (.refl w)).again
          (denotes _ (Detached.keeps_old k hu k₁ hts)) run
        rwa [ht'.2]

/-- What an assembling call returns is detached. The call itself changes nothing that was there, even
if it fails. -/
theorem invoke_detached (load : Value → Build Value) {f : Callee} (hf : assembles f = true)
    {args : List Value} {named : List (String × Value)} (hw : w.Tidy)
    (h : ∀ e ∈ underNames f args named, Handed w e) :
    match (invoke load f args named).run w with
    | .ok u w' => w.Extends w' ∧ w'.Tidy ∧ Detached w (invoke load f args named) u w'
    | .error _ w' => w.Extends w' ∧ w'.Tidy :=
  settles_detached hw (invoke_settles hw load hf h)

/-- A response whose schema and headers are one mapping, with a mapping below it. -/
def sharing : Build Value :=
  invoke (fun _ => Build.fail .endless) .response [.str "ok", .obj 18] [("headers", .obj 18)]

theorem invoke_detached_sharing :
    Operation.responsesStore.Tidy ∧ ∃ u w', sharing.run Operation.responsesStore = .ok u w' ∧
      Detached Operation.responsesStore sharing u w' := by
  have tidy := Operation.responsesStore_tidy
  have below : Operation.responsesStore.IsData (.obj 17) :=
    .obj (by decide) rfl rfl (fun _ h => nomatch h) fun _ hv => nomatch hv
  have data : Operation.responsesStore.IsData (.obj 18) := by
    refine .obj (by decide) rfl rfl (fun _ h => nomatch h) fun v hv => ?_
    replace hv : v ∈ [Value.int 200, .obj 17] := hv
    obtain rfl | rfl : v = .int 200 ∨ v = .obj 17 := by simpa using hv
    · exact .atom _
    · exact below
  have none : ∀ a < Operation.responsesStore.size,
      Operation.of? Operation.responsesStore (.obj a) = none := by decide
  have handed (name : String) (free : name ∉ plainNames) :
      Handed Operation.responsesStore (name, .obj 18) := by
    refine ⟨data, fun h => absurd h free, fun a op ha hop => ?_⟩
    have found := none a (tidy.reaches_lt data.has ha)
    simp [Operation.of?, hop] at found
  have passed : ∀ e ∈ underNames .response [.str "ok", .obj 18] [("headers", .obj 18)],
      Handed Operation.responsesStore e := by
    have names : underNames .response [.str "ok", .obj 18] [("headers", .obj 18)] =
        [("description", .str "ok"), ("schema", .obj 18), ("headers", .obj 18)] := rfl
    rw [names]
    simp only [List.mem_cons, List.not_mem_nil, or_false, forall_eq_or_imp, forall_eq]
    exact ⟨.atom _ _, handed _ (by decide), handed _ (by decide)⟩
  obtain ⟨u, w', run⟩ : ∃ u w', sharing.run Operation.responsesStore = .ok u w' := ⟨_, _, rfl⟩
  have outcome := invoke_detached (fun _ => Build.fail .endless) rfl tidy passed
  rw [sharing] at run ⊢
  rw [run] at outcome
  exact ⟨tidy, u, w', run, outcome.2.2⟩

/-- Put a mapping in the place of a tag of an operation, write the operation object, write to the
mapping in it, and compare with the operation object that is written afterwards. -/
def relabelled : Build Value := do
  let load (_ : Value) : Build Value := Build.fail .endless
  let tags ← newList [.str "read"]
  let op ← Operation.build (.str "get") (.str "/") (← newMapping []) .none .none tags .none .none .none
  let kept ← invoke load .getAttribute [op, .str "tags"] []
  let _ ← invoke load .setItem [kept, .int 0, ← newMapping []] []
  let first ← invoke load .emitOperation [op] []
  let before ← first.copy
  let written ← invoke load .getItem [first, .str "tags"] []
  let label ← invoke load .getItem [written, .int 0] []
  let _ ← invoke load .setItem [label, .str "name", .str "read"] []
  let second ← invoke load .emitOperation [op] []
  equal before second

set_option maxRecDepth 4000 in
/-- What stands among the tags is not copied. If it is a mapping, then writing to it in an operation
object changes the operation and what it is written as. -/
theorem labels_shared :
    (match relabelled.run World.initial with
      | .ok outcome _ => some outcome
      | .error _ _ => none) = some (.bool false) := by
  decide +kernel

end Call
end OpenApiDoc
