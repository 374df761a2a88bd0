import OpenApiDoc.Proofs.Carriage

/-! # Operations from what looks like one

Arguments that look like what an operation stores pass every check, and are read as they are.

* `Field.mapping_shown`, `Field.list_shown` and `Field.orNone_shown` are about the checks of values
  with a known view.
* `Operation.View.Proper` says that the names in a view are distinct, as those of mappings are.
* `Operation.ofFields_shows`: an operation that is made of such arguments looks as they do. -/

namespace OpenApiDoc

open Build World

variable {w w' : World} {v : Value}

/-! ### Checks of values with a known view -/

/-- Checks that all pass, when what each of them reads is known. -/
theorem Checked.all_forall {α β γ : Type} {P : α → Prop} {F : α → β} {check : γ → Checked α}
    {xs : List γ} {ts : List β}
    (h : List.Forall₂ (fun x t => ∃ y, check x = .ok y ∧ P y ∧ F y = t) xs ts) :
    ∃ ys, all (xs.map check) = .ok ys ∧ (∀ y ∈ ys, P y) ∧ ys.map F = ts := by
  induction h with
  | nil => exact ⟨[], rfl, by simp, rfl⟩
  | cons first _ ih =>
      obtain ⟨y, hy, py, rfl⟩ := first
      obtain ⟨ys, hys, pys, rfl⟩ := ih
      refine ⟨y :: ys, ?_, List.forall_mem_cons.mpr ⟨py, pys⟩, rfl⟩
      rw [List.map_cons, all, hy, hys]
      rfl

namespace Field

variable {α β : Type} {g : β → Tree} {P : α → Prop} {F : α → β}

/-- What looks like a mapping from names is read entry by entry. -/
theorem mapping_shown {check : Value → Checked α} {ts : List (String × β)}
    (h : w.Shows v (.record (ts.map fun t => (t.1, g t.2)))) (distinct : Entries.Distinct ts)
    (each : ∀ t ∈ ts, ∀ x, w.Shows x (g t.2) → ∃ y, check x = .ok y ∧ P y ∧ F y = t.2) :
    ∃ ys, mapping w check (.value v) = .ok ys ∧ (∀ y ∈ ys, P y.2) ∧
      (ys.map fun y => (y.1, F y.2)) = ts := by
  obtain ⟨a, fs, rfl, hg, hfs⟩ := h.record
  have entries : List.Forall₂ (fun e t => ∃ y, entry w check e = .ok y ∧ P y.2 ∧ (y.1, F y.2) = t)
      (Entries.named fs) ts := by
    rw [Entries.named, List.forall₂_map_left_iff]
    rw [Entries.Paired, List.forall₂_map_right_iff] at hfs
    refine ((List.forall₂_and_left _ _).mpr ⟨each, hfs.flip⟩).flip.imp ?_
    rintro ⟨n, x⟩ t ⟨read, rfl, hx⟩
    obtain ⟨y, hy, py, same⟩ := read x hx
    exact ⟨(t.1, y), by simp [entry, text, hy, Checked.both, Checked.under], py, by rw [same]⟩
  obtain ⟨ys, all, pys, views⟩ := Checked.all_forall entries
  have read : Entries.Distinct ys := by
    have keys : ys.map (·.1) = ts.map (·.1) := by
      rw [← views, List.map_map]
      rfl
    rwa [Entries.Distinct, keys]
  refine ⟨ys, ?_, pys, views⟩
  rw [mapping, Value.mapping?_of_get hg]
  simp only [all, Except.map]
  exact congrArg Except.ok (Entries.overlay_nil_left read)

/-- What looks like a list is read item by item. -/
theorem list_shown {check : Input → Checked α} {ts : List β} (h : w.Shows v (.list (ts.map g)))
    (each : ∀ t ∈ ts, ∀ x, w.Shows x (g t) → ∃ y, check (.value x) = .ok y ∧ P y ∧ F y = t) :
    ∃ ys, list w check (.value v) = .ok ys ∧ (∀ y ∈ ys, P y) ∧ ys.map F = ts := by
  obtain ⟨a, xs, rfl, hg, hxs⟩ := h.list
  have items : items? w (.obj a) = some (xs.map .value) := by simp [items?, hg]
  simp only [list, items]
  refine Checked.all_forall ?_
  have inputs : List.Forall₂ (fun (i : Input) t => ∃ y, check i = .ok y ∧ P y ∧ F y = t)
      (xs.map .value) ts := by
    rw [List.forall₂_map_left_iff]
    rw [List.forall₂_map_right_iff] at hxs
    exact ((List.forall₂_and_left _ _).mpr ⟨each, hxs.flip⟩).flip.imp fun x t h => h.1 x h.2
  rw [← List.zipIdx_map_fst 0 (xs.map Input.value), List.forall₂_map_left_iff] at inputs
  refine inputs.imp fun p t read => ?_
  obtain ⟨y, hy, known⟩ := read
  exact ⟨y, Checked.under_eq_ok.mpr hy, known⟩

/-- What may be absent is read if it is there. -/
theorem orNone_shown (check : Input → Checked α) {t : Option β} (given : ∀ s, g s ≠ .none)
    (h : w.Shows v (t.elim .none g))
    (each : ∀ s, w.Shows v (g s) → t = some s → ∃ y, check (.value v) = .ok y ∧ P y ∧ F y = s) :
    ∃ y, orNone check (.value v) = .ok y ∧ (∀ x, y = some x → P x) ∧ y.map F = t := by
  cases t with
  | none =>
      obtain rfl := h.atom
      exact ⟨none, rfl, by simp, rfl⟩
  | some s =>
      obtain ⟨y, hy, py, same⟩ := each s h rfl
      refine ⟨some y, ?_, by simpa using py, by simp [same]⟩
      have present : v ≠ .none := by
        rintro rfl
        exact given s (h.2.symm.trans (w.tree_atom _))
      rw [orNone, hy]
      · rfl
      · simpa using present

theorem text_shown {s : String} (h : w.Shows v (.str s)) : text (.value v) = .ok s := by
  rw [h.atom]
  rfl

/-- A mapping from names is read as it is. -/
theorem any_shown {ts : List (String × Tree)} (h : w.Shows v (.record ts))
    (distinct : Entries.Distinct ts) : ∃ fs, mapping w any (.value v) = .ok fs ∧
      (∀ f ∈ fs, w.IsData f.2) ∧ (fs.map fun f => (f.1, w.tree f.2)) = ts :=
  mapping_shown (g := id) (by simpa using h) distinct fun t _ x hx => ⟨x, rfl, hx.1, hx.2⟩

end Field

/-! ### Operations -/

namespace Operation

/-- The names in the view of an operation are distinct. -/
structure View.Proper (V : View) : Prop where
  codes : Entries.Distinct V.responses
  responses : ∀ r ∈ V.responses, Entries.Distinct r.2
  parameters : ∀ ps, V.parameters = some ps → ∀ p ∈ ps, Entries.Distinct p
  requestBody : ∀ b, V.requestBody = some b → Entries.Distinct b
  extra : Entries.Distinct V.extra

/-- The arguments look like what an operation stores. -/
structure View.Looks (V : View) (w : World) (method path responses operationId summary tags parameters
    requestBody extra : Value) : Prop where
  method : w.Shows method (.str V.method)
  path : w.Shows path (.str V.path)
  responses : w.Shows responses (.record (V.responses.map fun r => (r.1, .record r.2)))
  operationId : w.Shows operationId (V.operationId.elim .none .str)
  summary : w.Shows summary (V.summary.elim .none .str)
  tags : w.Shows tags (V.tags.elim .none fun ts => .list (ts.map .str))
  parameters : w.Shows parameters (V.parameters.elim .none fun ps => .list (ps.map .record))
  requestBody : w.Shows requestBody (V.requestBody.elim .none .record)
  extra : w.Shows extra (.record V.extra)

section looks

variable {V : View} {method path responses operationId summary tags parameters requestBody
  extra : Value}

theorem View.Looks.extends (h : V.Looks w method path responses operationId summary tags parameters
    requestBody extra) (k : w.Extends w') :
    V.Looks w' method path responses operationId summary tags parameters requestBody extra :=
  ⟨h.method.extends k, h.path.extends k, h.responses.extends k, h.operationId.extends k,
    h.summary.extends k, h.tags.extends k, h.parameters.extends k, h.requestBody.extends k,
    h.extra.extends k⟩

/-- Arguments that look like what an operation stores are read as what it stores. -/
theorem check_shown (proper : V.Proper) (h : V.Looks w method path responses operationId summary
    tags parameters requestBody extra) (given : List (String × Value)) :
    ∃ f, check w given (arguments method path responses operationId summary tags parameters
      requestBody extra) = .ok f ∧ f.All w.IsData ∧ f.view w = V := by
  have text (u : Option String) {v : Value} (hv : w.Shows v (u.elim .none .str)) :
      Field.orNone Field.text (.value v) = .ok u := by
    obtain ⟨y, hy, -, same⟩ := Field.orNone_shown (P := fun _ => True) (F := id) Field.text
      (by simp) hv fun s hs _ => ⟨s, Field.text_shown hs, trivial, rfl⟩
    rw [hy, ← same, Option.map_id_fun, id]
  have names (ts : List String) {v : Value} (hv : w.Shows v (.list (ts.map .str))) :
      Field.list w Field.text (.value v) = .ok ts := by
    obtain ⟨ys, hys, -, same⟩ := Field.list_shown (P := fun _ => True) (F := id) hv
      fun s _ u hu => ⟨s, Field.text_shown hu, trivial, rfl⟩
    rw [hys, ← same, List.map_id_fun, id]
  obtain ⟨rs, hrs, rsData, rsView⟩ := Field.mapping_shown h.responses proper.codes fun r hr x hx =>
    Field.any_shown hx (proper.responses r hr)
  obtain ⟨ts, hts, -, tsView⟩ := Field.orNone_shown (P := fun _ => True) (F := id)
    (Field.list w Field.text) (by simp) h.tags fun ts hts _ =>
      ⟨ts, names ts hts, trivial, rfl⟩
  obtain ⟨ps, hps, psData, psView⟩ := Field.orNone_shown
    (Field.list w (Field.mapping w Field.any)) (by simp) h.parameters fun qs hqs given =>
      Field.list_shown hqs fun q hq u hu => Field.any_shown hu (proper.parameters qs given q hq)
  obtain ⟨b, hb, bData, bView⟩ := Field.orNone_shown
    (Field.mapping w Field.any) (by simp [Tree.record]) h.requestBody fun c hc given =>
      Field.any_shown hc (proper.requestBody c given)
  obtain ⟨x, hx, xData, xView⟩ := Field.any_shown h.extra proper.extra
  refine ⟨⟨V.method, V.path, rs, V.operationId, V.summary, ts, ps, b, x⟩, ?_,
    ⟨rsData, psData, bData, xData⟩, ?_⟩
  · simp [check, arguments, Field.required, Field.defaulted, List.lookup_cons,
      Field.text_shown h.method, Field.text_shown h.path, hrs, text _ h.operationId,
      text _ h.summary, hts, hps, hb, hx, Checked.under, Checked.both, Except.map]
  · simp only [Option.map_id_fun, id] at tsView
    simp only [Fields.view, rsView, tsView, xView, bView]
    congr 1

/-- Texts for status codes are left as they are. -/
theorem withTextCodes_shows (ho : w.Owned) {rs : List (String × Tree)} (distinct : Entries.Distinct rs)
    (h : w.Shows responses (.record rs)) :
    (withTextCodes responses).Gives w fun u w' => w'.Shows u (.record rs) := by
  refine (withTextCodes_gives ho h.1).mono fun u w' _ hu => ?_
  obtain ⟨a, fs, rfl, hg, hfs⟩ := h.record
  have read : (Value.obj a).mapping? w = some (Entries.named fs) := Value.mapping?_of_get hg
  rcases hu.2 with ⟨none, -⟩ | ⟨es, found, shown⟩
  · cases read.symm.trans none
  · cases read.symm.trans found
    have views : codedViews w (Entries.named fs) = rs := by
      obtain ⟨-, rfl⟩ := paired_tree hfs
      have same : (Entries.named fs).map (fun e => (w.text e.1, w.tree e.2)) =
          fs.map fun f => (f.1, w.tree f.2) := by
        rw [Entries.named, List.map_map]
        exact List.map_congr_left fun f _ => by simp [World.text, Tree.text]
      rw [codedViews, same]
      exact Entries.overlay_nil_left distinct
    exact views ▸ shown

/-- An operation that is made of arguments looks as they do. -/
theorem ofFields_shows (ho : w.Owned) (proper : V.Proper) (h : V.Looks w method path responses
    operationId summary tags parameters requestBody extra) :
    (ofFields (arguments method path responses operationId summary tags parameters requestBody
      extra)).Gives w fun u w' => w'.Shows u V.tree := by
  have codes : Entries.Distinct (V.responses.map fun r => (r.1, Tree.record r.2)) := by
    simpa [Entries.Distinct, Function.comp_def] using proper.codes
  rw [ofFields_arguments]
  refine (withTextCodes_shows ho codes h.responses).bind fun coded w₁ k hcoded => .get_bind ?_
  obtain ⟨f, hf, data, view⟩ := check_shown proper { h.extends k with responses := hcoded }
    (arguments method path responses operationId summary tags parameters requestBody extra)
  rw [hf]
  exact view ▸ make_shows (ho.extends k) data

end looks

end Operation
end OpenApiDoc
