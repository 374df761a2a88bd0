import OpenApiDoc.Proofs.Assembly
import OpenApiDoc.Proofs.Renditions

/-! # What operations store

An operation stores texts, texts in lists, and mappings from names. Its view is put together from the
views of the values in them.

* `Operation.View` is what an operation stores, with views in place of values, and
  `Operation.View.tree` the view of the operation.
* `Operation.make_shows`: an operation looks as the fields do that it is made from.
* `Operation.View.Held.emit_gives`: its operation object shows what it stores. -/

namespace OpenApiDoc

open Build World

variable {w w' : World} {v : Value}

/-- The view of fields as a mapping. -/
abbrev World.recordOf (w : World) (fs : List (String × Value)) : Tree :=
  .record (fs.map fun f => (f.1, w.tree f.2))

theorem World.showsFields_self {fs : List (String × Value)} (h : ∀ f ∈ fs, w.IsData f.2) :
    w.ShowsFields fs (fs.map fun f => (f.1, w.tree f.2)) := by
  rw [ShowsFields, Entries.Paired, List.forall₂_map_right_iff, List.forall₂_same]
  exact fun f hf => ⟨rfl, (h f hf).shows⟩

namespace Operation

/-- What an operation stores, with views in place of values. -/
structure View where
  method : String
  path : String
  responses : List (String × List (String × Tree))
  operationId : Option String
  summary : Option String
  tags : Option (List String)
  parameters : Option (List (List (String × Tree)))
  requestBody : Option (List (String × Tree))
  extra : List (String × Tree)

namespace View

/-- The views of the fields under their names. -/
def fields (V : View) : List (String × Tree) :=
  [("method", .str V.method), ("path", .str V.path),
   ("responses", .record (V.responses.map fun r => (r.1, .record r.2))),
   ("operation_id", V.operationId.elim .none .str), ("summary", V.summary.elim .none .str),
   ("tags", V.tags.elim .none fun ts => .list (ts.map .str)),
   ("parameters", V.parameters.elim .none fun ps => .list (ps.map .record)),
   ("request_body", V.requestBody.elim .none .record), ("extra", .record V.extra)]

/-- The view of the operation. -/
def tree (V : View) : Tree := .model .operation V.fields

/-- The views of the fields of the operation object behind its identifier. What is not stored is left
out. -/
def generated (V : View) : List (String × Tree) :=
  V.summary.elim [] (fun s => [("summary", .str s)]) ++
    (V.tags.elim [] (fun ts => [("tags", .list (ts.map .str))]) ++
    (V.parameters.elim [] (fun ps => [("parameters", .list (ps.map .record))]) ++
    (V.requestBody.elim [] (fun b => [("requestBody", .record b)]) ++
    [("responses", .record (V.responses.map fun r => (r.1, .record r.2)))])))

/-- The identifier of the operation object under its name: that of the operation unless it is empty,
or else the given one unless there is none. -/
def identified (V : View) (default : Value) : List (String × Value) :=
  let id := match V.operationId with
    | some s => if s.isEmpty then default else .str s
    | none => default
  if id.isNone then [] else [("operationId", id)]

/-- The operation stores what the view says. -/
structure Held (V : View) (w : World) (op : Operation) : Prop where
  method : op.method = V.method
  path : op.path = V.path
  responses : w.Shows (.obj op.responses) (.record (V.responses.map fun r => (r.1, .record r.2)))
  operationId : op.operationId = V.operationId
  summary : op.summary = V.summary
  tags : w.Shows (optionalObject op.tags) (V.tags.elim .none fun ts => .list (ts.map .str))
  parameters : w.Shows (optionalObject op.parameters)
    (V.parameters.elim .none fun ps => .list (ps.map .record))
  requestBody : w.Shows (optionalObject op.requestBody) (V.requestBody.elim .none .record)
  extra : w.Shows (.obj op.extra) (.record V.extra)

end View

/-- The views of the fields of an operation. -/
def Fields.view (w : World) (f : Fields) : View where
  method := f.method
  path := f.path
  responses := f.responses.map fun r => (r.1, r.2.map fun e => (e.1, w.tree e.2))
  operationId := f.operationId
  summary := f.summary
  tags := f.tags
  parameters := f.parameters.map fun ps => ps.map fun p => p.map fun e => (e.1, w.tree e.2)
  requestBody := f.requestBody.map fun b => b.map fun e => (e.1, w.tree e.2)
  extra := f.extra.map fun e => (e.1, w.tree e.2)

theorem newRecord_shows (ho : w.Owned) {fs : List (String × Value)} {ts : List (String × Tree)}
    (h : w.ShowsFields fs ts) :
    (newRecord fs).Gives w fun a w' => w'.Shows (.obj a) (.record ts) := by
  obtain ⟨u, w', run, k, hu⟩ := record_shows ho h
  cases run
  exact ⟨_, _, rfl, k, hu⟩

/-- The views of the items of a list that may be absent. -/
theorem newListOrNone_shows {α : Type} {item : α → Build Value} {g : α → Tree} (ho : w.Owned)
    {xs : Option (List α)} (h : ∀ ys, xs = some ys → ∀ y ∈ ys, ∀ w', w.Extends w' →
      (item y).Gives w' fun u w'' => w''.Shows u (g y)) :
    (newListOrNone item xs).Gives w fun a w' =>
      w'.Shows (optionalObject a) (xs.elim .none fun ys => .list (ys.map g)) := by
  cases xs with
  | none => exact .pure (shows_atom w _)
  | some ys =>
      refine (Gives.mapM_shows (h ys rfl)).bind fun us w₁ k hus => ?_
      obtain ⟨u, w₂, run, k', hu⟩ := newList_gives (ho.extends k) hus
      cases run
      exact ⟨_, _, rfl, k', hu⟩

theorem newRecordOrNone_shows (ho : w.Owned) {b : Option (List (String × Value))}
    {g : List (String × Value) → List (String × Tree)}
    (h : ∀ fs, b = some fs → w.ShowsFields fs (g fs)) :
    (b.mapM newRecord).Gives w fun a w' =>
      w'.Shows (optionalObject a) ((b.map g).elim .none .record) := by
  cases b with
  | none => exact .pure (shows_atom w _)
  | some fs => exact (newRecord_shows ho (h fs rfl)).bind fun a w₁ _ ha => .pure ha

theorem fields_gives (ho : w.Owned) {fs : List (String × Value)} (h : ∀ f ∈ fs, w.IsData f.2)
    (k : w.Extends w') : (record fs).Gives w' fun u w'' => w''.Shows u (w.recordOf fs) :=
  record_shows (ho.extends k) (paired_extends (showsFields_self h) k)

/-- What is stored as nothing looks like nothing. -/
theorem shows_optional {a : Option Addr} {t : Tree} (h : w.Shows (optionalObject a) t)
    (given : t ≠ .none) : ∃ b, a = some b ∧ w.Shows (.obj b) t := by
  cases a with
  | none => exact absurd (h.2.symm.trans (w.tree_atom _)) given
  | some b => exact ⟨b, rfl, h⟩

theorem optionalText_shows (w : World) (s : Option String) :
    w.Shows (optionalText s) (s.elim .none .str) := by
  cases s <;> exact shows_atom w _

/-- An operation that stores what a view says looks like it. -/
theorem View.Held.showsFields {V : View} {op : Operation} (h : V.Held w op) :
    w.ShowsFields op.fields V.fields := by
  have method : w.Shows (.str op.method) (.str V.method) := h.method ▸ shows_atom w _
  have path : w.Shows (.str op.path) (.str V.path) := h.path ▸ shows_atom w _
  exact .cons ⟨rfl, method⟩ <| .cons ⟨rfl, path⟩ <| .cons ⟨rfl, h.responses⟩ <|
    .cons ⟨rfl, h.operationId ▸ optionalText_shows w _⟩ <|
    .cons ⟨rfl, h.summary ▸ optionalText_shows w _⟩ <|
    .cons ⟨rfl, h.tags⟩ <| .cons ⟨rfl, h.parameters⟩ <| .cons ⟨rfl, h.requestBody⟩ <|
    .cons ⟨rfl, h.extra⟩ .nil

theorem optionalText_inj {s t : Option String}
    (h : w.Shows (optionalText s) (t.elim .none .str)) : s = t := by
  cases s <;> cases t <;> simp_all [Shows, optionalText]

/-- What an operation stores is seen in its view. -/
theorem View.held {V : View} (h : w.Shows v V.tree) :
    ∃ a op, v = .obj a ∧ w.get a = .operation op ∧ V.Held w op := by
  cases v with
  | atom a => simpa [tree] using h.2
  | obj a =>
      have view := h.obj
      cases hg : w.get a <;> simp only [hg, Object.view, tree, Option.some.injEq, reduceCtorEq,
        Tree.model.injEq, false_and, true_and] at view
      case operation op =>
        have part (f : String × Value) (hf : f ∈ op.fields) : w.IsData f.2 :=
          h.1.part (by simpa [hg, Object.parts] using ⟨f.1, hf⟩)
        have shown : w.ShowsFields op.fields V.fields := view ▸ showsFields_self part
        simp only [ShowsFields, Entries.Paired, Operation.fields, fields, List.forall₂_cons,
          true_and, List.forall₂_nil_left_iff, and_true] at shown
        obtain ⟨method, path, responses, id, summary, tags, parameters, body, extra⟩ := shown
        exact ⟨a, op, rfl, hg, {
          method := by simpa using method.2, path := by simpa using path.2
          operationId := optionalText_inj id, summary := optionalText_inj summary
          responses, tags, parameters, requestBody := body, extra }⟩

/-- An operation looks as the fields do that it is made from. -/
theorem make_shows (ho : w.Owned) {f : Fields} (h : f.All w.IsData) :
    (make f).Gives w fun v w' => w'.Shows v (f.view w).tree := by
  have shown : Entries.Paired w.ShowsFields f.responses (f.view w).responses := by
    rw [Entries.Paired, Fields.view, List.forall₂_map_right_iff, List.forall₂_same]
    exact fun r hr => ⟨rfl, showsFields_self (h.responses r hr)⟩
  refine (Paths.templates_gives ho shown).bind fun rs w₁ k₁ hrs => ?_
  have ho₁ := ho.extends k₁
  refine (newRecord_shows ho₁ hrs).bind fun responses w₂ k₂ hresponses => ?_
  have ho₂ := ho₁.extends k₂
  refine (newListOrNone_shows (g := .str) ho₂ fun _ _ s _ w' _ => .pure (shows_atom w' (.str s))).bind
    fun tags w₃ k₃ htags => ?_
  have ho₃ := ho₂.extends k₃
  have k₁₃ := (k₁.trans k₂).trans k₃
  refine (newListOrNone_shows (g := w.recordOf) ho₃ fun ps hps p hp w' k =>
    fields_gives ho (h.parameters ps hps p hp) (k₁₃.trans k)).bind
    fun parameters w₄ k₄ hparameters => ?_
  have ho₄ := ho₃.extends k₄
  have k₁₄ := k₁₃.trans k₄
  refine (newRecordOrNone_shows ho₄ fun fs hfs =>
    paired_extends (showsFields_self (h.requestBody fs hfs)) k₁₄).bind
    fun requestBody w₅ k₅ hbody => ?_
  have ho₅ := ho₄.extends k₅
  refine (newRecord_shows ho₅ (paired_extends (showsFields_self h.extra) (k₁₄.trans k₅))).bind
    fun extra w₆ k₆ hextra => ?_
  have k₃₆ := (k₄.trans k₅).trans k₆
  let op : Operation := {
    method := f.method, path := f.path, operationId := f.operationId, summary := f.summary,
    responses, tags, parameters, requestBody, extra }
  have held : (f.view w).Held w₆ op := {
    method := rfl, path := rfl, operationId := rfl, summary := rfl,
    responses := hresponses.extends (k₃.trans k₃₆), tags := htags.extends k₃₆,
    parameters := by
      have later := hparameters.extends (k₅.trans k₆)
      cases hp : f.parameters <;> simpa [Fields.view, hp, Function.comp_def] using later
    requestBody := hbody.extends k₆, extra := hextra }
  obtain ⟨data, views⟩ := paired_tree held.showsFields
  have made := Shows.alloc (ho₅.extends k₆) (o := .operation op) (t := (f.view w).tree)
    (List.forall_mem_map.mpr data) (by rw [Object.view, View.tree, views])
  exact (Gives.new (Q := fun a w' => w'.Shows (.obj a) (f.view w).tree) made).bind
    fun a w₇ _ ha => .pure ha

/-- An operation that looks like a view is data, with a list of tags and a mapping of extra entries. -/
theorem View.Held.isOperation {V : View} {a : Addr} {op : Operation} (h : V.Held w op)
    (data : w.IsData (.obj a)) (hg : w.get a = .operation op) : w.IsOperation (.obj a) op where
  data := data
  found := by simp [of?, hg]
  tags t ht := by
    have tags := h.tags
    rw [ht] at tags
    cases hv : V.tags with
    | none =>
        rw [hv] at tags
        exact absurd tags.atom (by simp [optionalObject])
    | some ts =>
        rw [hv] at tags
        obtain ⟨b, xs, ⟨⟩, hxs, -⟩ := tags.list
        exact ⟨xs, hxs⟩
  extra := by
    obtain ⟨b, fs, ⟨⟩, hfs, -⟩ := h.extra.record
    exact ⟨_, hfs⟩

/-- A part is left out of the operation object if it is stored as nothing. -/
theorem shownField_optional {α : Type} {name : String} {a : Option Addr} {x : Option α}
    {g : α → Tree} (given : ∀ y, g y ≠ .none) (h : w.Shows (optionalObject a) (x.elim .none g)) :
    shownField w name a = x.elim [] fun y => [(name, g y)] := by
  cases x with
  | none =>
      cases a with
      | none => rfl
      | some b => exact absurd h.atom (by simp [optionalObject])
  | some y =>
      obtain ⟨b, rfl, hb⟩ := shows_optional h (given y)
      simp [shownField, hb.2]

theorem View.Held.generated {V : View} {op : Operation} (h : V.Held w op) :
    op.generated w = V.generated := by
  rw [Operation.generated, View.generated, h.summary,
    shownField_optional (by simp) h.tags, shownField_optional (by simp) h.parameters,
    shownField_optional (by simp [Tree.record]) h.requestBody, shownField, h.responses.2]

theorem View.Held.identified {V : View} {op : Operation} (h : V.Held w op) (default : Value) :
    op.identified default = V.identified default := by
  rw [Operation.identified, identifier, h.operationId]
  rfl

/-- The names in the operation object before the extra entries are laid over it. -/
theorem View.distinct (V : View) (default : Value) {fs : List (String × Value)}
    (h : w.ShowsFields fs V.generated) : Entries.Distinct (V.identified default ++ fs) := by
  have one {α : Type} (x : Option α) (name : String) (g : α → Tree) :
      ((x.elim [] fun y => [(name, g y)]).map (·.1)).Sublist [name] := by
    cases x <;> simp
  have id : ((V.identified default).map (·.1)).Sublist ["operationId"] := by
    rw [View.identified]
    generalize (match V.operationId with
      | some s => if s.isEmpty then default else Value.str s
      | none => default) = u
    cases u.isNone <;> simp
  have names : ((V.identified default ++ fs).map (·.1)).Sublist
      ["operationId", "summary", "tags", "parameters", "requestBody", "responses"] := by
    rw [List.map_append, h.keys, View.generated, List.map_append, List.map_append, List.map_append,
      List.map_append]
    exact id.append ((one V.summary _ _).append ((one V.tags _ _).append
      ((one V.parameters _ _).append ((one V.requestBody _ _).append (.refl _)))))
  exact names.nodup (by decide)

/-- What the operation object of an operation holds, whatever its identifier is. -/
theorem View.Held.emit_gives {V : View} {op : Operation} (h : V.Held w op) (ho : w.Owned)
    (hop : w.IsOperation v op) (default : Value) : (op.emit default).Gives w fun u w' =>
      ∃ a fs gs, u = .obj a ∧ w'.ShowsFields fs V.generated ∧ w'.ShowsFields gs V.extra ∧
        w'.get a =
          .mapping (Entries.named (Entries.overlayNames (V.identified default ++ fs) gs)) := by
  obtain ⟨w₁, fs, es, k, run, hfs, hes⟩ := emit_lays ho hop default
  rw [h.extra.2, Tree.record, entriesOf] at hes
  obtain ⟨gs, rfl, hgs⟩ := hes.of_names
  rw [h.generated] at hfs
  rw [Entries.overlay_named, h.identified] at run
  let all := Entries.named (Entries.overlayNames (V.identified default ++ fs) gs)
  have k' := w₁.extends_alloc (.mapping all)
  exact ⟨_, _, run, k.trans k', _, fs, gs, rfl, paired_extends hfs k', paired_extends hgs k',
    w₁.get_alloc_same _⟩

end Operation
end OpenApiDoc
