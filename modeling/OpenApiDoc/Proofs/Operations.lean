import OpenApiDoc.Operation
import OpenApiDoc.Proofs.Fields

/-! # What operations are written as

* `World.IsOperation` says that a value is an operation whose fields are data.
* `Operation.written` is the view of its operation object, `Operation.emit_gives` the specification
  of the step that writes it. -/

namespace OpenApiDoc

namespace World

variable {w w' : World}

/-- The value is an operation whose fields are data, with a list of tags and a mapping of extra
entries. -/
structure IsOperation (w : World) (v : Value) (op : Operation) : Prop where
  data : w.IsData v
  found : Operation.of? w v = some op
  tags : ∀ t, op.tags = some t → ∃ xs, w.get t = .list xs
  extra : ∃ es, w.get op.extra = .mapping es

theorem IsOperation.get {a : Addr} {op : Operation} (h : w.IsOperation (.obj a) op) :
    w.get a = .operation op := by
  have := h.found
  simp only [Operation.of?] at this
  cases hg : w.get a <;> simp_all

theorem IsOperation.part {v : Value} {op : Operation} (h : w.IsOperation v op) {u : Value}
    (hu : u ∈ (Object.operation op).parts) : w.IsData u := by
  cases v with
  | atom a => simpa [Operation.of?] using h.found
  | obj a => exact h.data.part (by rwa [h.get])

theorem IsOperation.grows {v : Value} {op : Operation} (h : w.IsOperation v op) (k : w.Grows w') :
    w'.IsOperation v op where
  data := (h.data.grows k).1
  found := by
    cases v with
    | atom a => simpa [Operation.of?] using h.found
    | obj a => simp [Operation.of?, k.get a h.data.lt_size, h.get]
  tags t ht := by
    have hd : w.IsData (.obj t) := h.part (by
      simp [Object.parts, Operation.fields, Operation.optionalObject, ht])
    rw [k.get t hd.lt_size]
    exact h.tags t ht
  extra := by
    have hd : w.IsData (.obj op.extra) := h.part (by simp [Object.parts, Operation.fields])
    rw [k.get op.extra hd.lt_size]
    exact h.extra

end World

namespace Operation

open World Build

variable {w w' : World}

/-- The view of a field that may be absent. -/
def shownField (w : World) (name : String) : Option Addr → List (String × Tree)
  | none => []
  | some a => [(name, w.tree (.obj a))]

/-- The entries that a view has, if it is that of a mapping. -/
def entriesOf : Tree → List (Tree × Tree)
  | .mapping es => es
  | _ => []

/-- The view of the object that an operation is written as. -/
def written (w : World) (op : Operation) (default : Value) : Tree :=
  let id := op.identifier default
  let fields := (if id.isNone then [] else [("operationId", w.tree id)]) ++
    op.summary.elim [] (fun s => [("summary", .str s)]) ++ shownField w "tags" op.tags ++
    shownField w "parameters" op.parameters ++ shownField w "requestBody" op.requestBody ++
    shownField w "responses" (some op.responses)
  .mapping (Entries.overlay Tree.same (fields.map fun f => (.str f.1, f.2))
    (entriesOf (w.tree (.obj op.extra))))

theorem shownField_congr {name : String} {a : Option Addr}
    (h : ∀ b, a = some b → w'.tree (.obj b) = w.tree (.obj b)) :
    shownField w' name a = shownField w name a := by
  cases a with
  | none => rfl
  | some b => simp [shownField, h b rfl]

theorem shownField_grows {name : String} {a : Option Addr}
    (h : ∀ b, a = some b → w.IsData (.obj b)) (k : w.Grows w') :
    shownField w' name a = shownField w name a :=
  shownField_congr fun b hb => ((h b hb).grows k).2

theorem identifier_data (op : Operation) {default : Value} (hd : w.IsData default) :
    w.IsData (op.identifier default) := by
  unfold identifier
  split
  · split
    · exact hd
    · exact .atom _
  · exact hd

/-- The view depends on the views of the identifier and of the fields. -/
theorem written_congr {op : Operation} {default : Value}
    (id : w'.tree (op.identifier default) = w.tree (op.identifier default))
    (part : ∀ a, .obj a ∈ (Object.operation op).parts → w'.tree (.obj a) = w.tree (.obj a)) :
    written w' op default = written w op default := by
  have field (name : String) (a : Option Addr)
      (ha : optionalObject a ∈ (Object.operation op).parts) :
      shownField w' name a = shownField w name a := by
    refine shownField_congr ?_
    rintro b rfl
    exact part b ha
  simp only [written, id, part op.extra (by simp [Object.parts, fields])]
  rw [field "tags" op.tags (by simp [Object.parts, fields]),
    field "parameters" op.parameters (by simp [Object.parts, fields]),
    field "requestBody" op.requestBody (by simp [Object.parts, fields]),
    field "responses" (some op.responses) (by simp [Object.parts, fields, optionalObject])]

/-- The view does not change while the store grows. -/
theorem written_grows {v : Value} {op : Operation} (h : w.IsOperation v op) {default : Value}
    (hd : w.IsData default) (k : w.Grows w') : written w' op default = written w op default :=
  written_congr ((identifier_data op hd).grows k).2 fun _ ha => ((h.part ha).grows k).2

theorem copiedField_gives (ho : w.Owned) (name : String) {a : Option Addr}
    (h : ∀ b, a = some b → w.IsData (.obj b)) :
    (copiedField name a).Gives w fun fs w' => Entries.Paired w'.Shows fs (shownField w name a) := by
  cases a with
  | none => exact .pure .nil
  | some b =>
      exact (copyObject_shows ho (h b rfl).shows).bind fun c w' _ hc => .pure (.cons ⟨rfl, hc⟩ .nil)

theorem listField_gives (ho : w.Owned) (name : String) {a : Option Addr}
    (h : ∀ b, a = some b → w.IsData (.obj b) ∧ ∃ xs, w.get b = .list xs) :
    (listField name a).Gives w fun fs w' => Entries.Paired w'.Shows fs (shownField w name a) := by
  cases a with
  | none => exact .pure .nil
  | some b =>
      obtain ⟨hd, xs, hg⟩ := h b rfl
      have iterated : (Value.obj b).iterate.Reads w xs := by
        simp [Reads, Value.iterate, Build.look, hg]
      have items : List.Forall₂ w.Shows xs (xs.map w.tree) := by
        rw [List.forall₂_map_right_iff, List.forall₂_same]
        exact fun v hv => (hd.part (by simpa [hg, Object.parts] using hv)).shows
      refine iterated.bind ((newList_gives ho items).bind fun u w' _ hu => .pure ?_)
      refine .cons ⟨rfl, ?_⟩ .nil
      rwa [hd.tree_list hg]

/-- The identifier of an operation object, under its name. -/
def identified (op : Operation) (default : Value) : List (String × Value) :=
  if (op.identifier default).isNone then [] else [("operationId", op.identifier default)]

/-- The views of the fields of an operation object behind its identifier. -/
def generated (w : World) (op : Operation) : List (String × Tree) :=
  op.summary.elim [] (fun s => [("summary", .str s)]) ++ (shownField w "tags" op.tags ++
    (shownField w "parameters" op.parameters ++ (shownField w "requestBody" op.requestBody ++
      shownField w "responses" (some op.responses))))

theorem written_eq (w : World) (op : Operation) (default : Value) : written w op default =
    .mapping (Entries.overlay Tree.same
      ((((op.identified default).map fun f => (f.1, w.tree f.2)) ++ generated w op).map
        fun f => (.str f.1, f.2)) (entriesOf (w.tree (.obj op.extra)))) := by
  have id : ((op.identified default).map fun f => (f.1, w.tree f.2)) =
      if (op.identifier default).isNone then []
      else [("operationId", w.tree (op.identifier default))] := by
    unfold identified
    split <;> rfl
  rw [written, id, generated]
  simp only [List.append_assoc]

/-- The operation object is a new mapping of the fields, which are copies, with copies of the extra
entries laid over them. The identifier is not looked into. -/
theorem emit_lays (ho : w.Owned) {v : Value} {op : Operation} (h : w.IsOperation v op)
    (default : Value) : ∃ w' fs es, w.Extends w' ∧
      (op.emit default).run w = (newMapping (Entries.overlay w'.sameKey
        (Entries.named (op.identified default ++ fs)) es)).run w' ∧
      Entries.Paired w'.Shows fs (generated w op) ∧
      w'.ShowsEntries es (entriesOf (w.tree (.obj op.extra))) := by
  have field (a : Option Addr) (ha : optionalObject a ∈ (Object.operation op).parts) :
      ∀ b, a = some b → w.IsData (.obj b) := by
    rintro b rfl
    exact h.part ha
  have later (a : Option Addr) (ha : optionalObject a ∈ (Object.operation op).parts) {w' : World}
      (k : w.Extends w') : ∀ b, a = some b → w'.IsData (.obj b) := fun b hb =>
    ((field a ha b hb).extends k).1
  have parameters : optionalObject op.parameters ∈ (Object.operation op).parts := by
    simp [Object.parts, fields]
  have body : optionalObject op.requestBody ∈ (Object.operation op).parts := by
    simp [Object.parts, fields]
  have responses : optionalObject (some op.responses) ∈ (Object.operation op).parts := by
    simp [Object.parts, fields, optionalObject]
  have tags (t : Addr) (ht : op.tags = some t) : w.IsData (.obj t) ∧ ∃ xs, w.get t = .list xs :=
    ⟨field op.tags (by simp [Object.parts, fields]) t ht, h.tags t ht⟩
  obtain ⟨ts, w₁, run₁, k₁, hts⟩ := listField_gives ho "tags" tags
  have ho₁ := ho.extends k₁
  obtain ⟨ps, w₂, run₂, k₂, hps⟩ := copiedField_gives ho₁ "parameters" (later _ parameters k₁)
  have ho₂ := ho₁.extends k₂
  have h₂ := k₁.trans k₂
  obtain ⟨bs, w₃, run₃, k₃, hbs⟩ := copiedField_gives ho₂ "requestBody" (later _ body h₂)
  have ho₃ := ho₂.extends k₃
  have h₃ := h₂.trans k₃
  obtain ⟨rs, w₄, run₄, k₄, hrs⟩ := copiedField_gives ho₃ "responses" (later _ responses h₃)
  have ho₄ := ho₃.extends k₄
  have h₄ := h₃.trans k₄
  have extra : w₄.Shows (.obj op.extra) (w.tree (.obj op.extra)) :=
    (h.part (by simp [Object.parts, fields])).shows.extends h₄
  obtain ⟨x, w₅, run₅, k₅, hx⟩ := copyObject_shows ho₄ extra
  obtain ⟨es, hes⟩ := h.extra
  have mapping : w.tree (.obj op.extra) =
      .mapping (es.map fun e => (w.tree e.1, w.tree e.2)) :=
    (h.part (by simp [Object.parts, fields])).tree_mapping hes
  rw [mapping] at hx
  obtain ⟨_, es', ⟨⟩, hg, shown⟩ := hx.mapping
  have read : (Value.obj x).further.run w₅ = .ok es' w₅ :=
    Value.further_reads (by simp [Value.mapping?, hg])
  have summary : Entries.Paired w₅.Shows (op.summary.elim [] fun s => [("summary", Value.str s)])
      (op.summary.elim [] fun s => [("summary", .str s)]) := by
    cases op.summary with
    | none => exact .nil
    | some s => exact .cons ⟨rfl, shows_atom w₅ _⟩ .nil
  have all := List.rel_append summary (List.rel_append
    (paired_extends hts (k₂.trans (k₃.trans (k₄.trans k₅)))) (List.rel_append
      (paired_extends hps (k₃.trans (k₄.trans k₅))) (List.rel_append
        (paired_extends hbs (k₄.trans k₅)) (paired_extends hrs k₅))))
  rw [shownField_grows (field _ parameters) k₁.grows, shownField_grows (field _ body) h₂.grows,
    shownField_grows (field _ responses) h₃.grows] at all
  refine ⟨w₅, _, es', h₄.trans k₅, ?_, all, by rwa [mapping]⟩
  simp only [emit, identified, EStateM.run_bind, EStateM.run_get, run₁, run₂, run₃, run₄, run₅,
    read, List.append_assoc]

/-- An operation whose fields are data is written in full. -/
theorem emit_gives (ho : w.Owned) {v : Value} {op : Operation} (h : w.IsOperation v op)
    {default : Value} (hd : w.IsData default) :
    (op.emit default).Gives w fun u w' => w'.Shows u (written w op default) := by
  obtain ⟨w₁, fs, es, k, run, hfs, hes⟩ := emit_lays ho h default
  have id : Entries.Paired w₁.Shows (op.identified default)
      ((op.identified default).map fun f => (f.1, w.tree f.2)) := by
    rw [identified]
    split
    · exact .nil
    · exact .cons ⟨rfl, (identifier_data op hd).shows.extends k⟩ .nil
  have laid := ShowsEntries.overlay (showsEntries_named (List.rel_append id hfs)) hes
  rw [Gives, run]
  obtain ⟨u, w₂, run', k', hu⟩ := newMapping_gives (ho.extends k) laid
  exact ⟨u, w₂, run', k.trans k', written_eq w op default ▸ hu.1⟩

end Operation
end OpenApiDoc
