import OpenApiDoc.Proofs.Stored

/-! # Records from what they store

A node or an operation that is made of what another one stores is equal to it, and both are emitted
as the same.

* `World.Matches` relates values that are the same or look alike, `World.equal_of_matches` compares
  mappings of such values.
* `rebuildNode` and `rebuildOperation` make a record from what another one stores.
* `rebuilt_same`: nothing changes, whatever calls the record came from. -/

namespace OpenApiDoc

open Build World

variable {w w' : World} {v : Value}

/-! ### Mappings of values that look alike -/

namespace World

/-- The values are the same, or they are data that looks alike. -/
def Matches (w : World) (x y : Value) : Prop :=
  x = y ∨ w.IsKeyed x ∧ w.IsData y ∧ w.tree y = w.tree x

theorem Shows.matches {x y : Value} {t : Tree} (hx : w.Shows x t) (hy : w.Shows y t)
    (keyed : t.Keyed) : w.Matches x y :=
  .inr ⟨hx.isKeyed keyed, hy.1, hy.2.trans hx.2.symm⟩

/-- Objects that look alike are equal. -/
theorem Shows.equal {x y : Value} {t : Tree} (hx : w.Shows x t) (hy : w.Shows y t)
    (keyed : t.Keyed) (object : ∀ a, t ≠ .atom a) : w.equal? x y = some true := by
  cases x with
  | atom a => exact absurd (hx.2.symm.trans (w.tree_atom a)) (object a)
  | obj a => exact hx.1.equal hy.1 (hy.2.trans hx.2.symm) (hx.2 ▸ keyed)

theorem ShowsFields.matches {fs gs : List (String × Value)} {ts : List (String × Tree)}
    (hf : w.ShowsFields fs ts) (hg : w.ShowsFields gs ts) (keyed : ∀ t ∈ ts, t.2.Keyed) :
    Entries.Paired w.Matches fs gs := by
  induction hf generalizing gs with
  | nil =>
      cases hg
      exact .nil
  | @cons f t fs ts first _ ih =>
      cases hg with
      | cons other rest =>
          rw [List.forall_mem_cons] at keyed
          exact .cons ⟨first.1.trans other.1.symm, first.2.matches other.2 keyed.1⟩
            (ih rest keyed.2)

/-- Mappings that hold matching values under the same names are equal. -/
theorem equal_of_matches {a b : Addr} {fs gs : List (String × Value)}
    (ha : w.get a = .mapping (Entries.named fs)) (hb : w.get b = .mapping (Entries.named gs))
    (distinct : Entries.Distinct gs) (h : Entries.Paired w.Matches fs gs) :
    w.equal? (.obj a) (.obj b) = some true := by
  have length : (Entries.named fs).length = (Entries.named gs).length := by
    simpa [Entries.named] using h.length_eq
  rw [equal?, equalFrom_obj, if_neg (by simp), equalObjects, ha, hb]
  simp only [length, if_true]
  refine equalEntries_of_forall ?_ fun e he => ?_
  · rw [Entries.named, List.pairwise_map]
    exact (List.pairwise_map.mp distinct).imp fun ne => by simp [sameKey, Tree.same, ne]
  · obtain ⟨f, hf, rfl⟩ := List.mem_map.mp he
    obtain ⟨i, hi, rfl⟩ := List.mem_iff_getElem.mp hf
    have hi' : i < gs.length := h.length_eq ▸ hi
    obtain ⟨name, alike⟩ := h.get hi hi'
    simp only [List.get_eq_getElem] at name alike
    refine ⟨_, List.mem_map_of_mem (List.getElem_mem hi'), by rw [name], ?_⟩
    by_cases same : fs[i].2 = gs[i].2
    · exact if_pos same
    · obtain ⟨keyed, data, look⟩ := alike.resolve_left same
      rw [if_neg same]
      cases hx : fs[i].2 with
      | atom c =>
          rw [hx] at look same
          exact absurd (Shows.atom ⟨data, look.trans (w.tree_atom c)⟩).symm same
      | obj c =>
          rw [hx] at keyed look
          refine keyed.data.equalFrom (Nat.le_mul_self _) [(a, b)] _ data look keyed.keyed ?_ c rfl
          rintro _ hp _ ⟨⟩
          obtain rfl := List.mem_singleton.mp hp
          refine .single ?_
          rw [Holds, ha]
          exact hx ▸ Object.mem_parts_value he

end World

/-! ### Rebuilding -/

section rebuild

variable (load : Value → Build Value)

/-- A node that was rebuilt, and what the node that it was rebuilt from is emitted as: by itself, by its
schema, and by what it is emitted as. -/
structure RebuiltNode where
  node : Value
  schema : Value
  emitted : Value
  schemaEmitted : Value
  emittedTwice : Value

/-- Make a node of the schema and the flag of a node. -/
def rebuildNode (v : Value) : Build RebuiltNode := do
  let schema ← Call.invoke load .toSchema [v] []
  let flag ← Call.invoke load .getAttribute [v, .str "is_optional"] []
  let node ← Call.invoke load .schemaNode [] [("fragment", schema), ("is_optional", flag)]
  let emitted ← Call.invoke load .emit [v] []
  let schemaEmitted ← Call.invoke load .emit [schema] []
  let emittedTwice ← Call.invoke load .emit [emitted] []
  return { node, schema, emitted, schemaEmitted, emittedTwice }

/-- The fields of an operation. -/
def operationFields : List String :=
  ["method", "path", "responses", "operation_id", "summary", "tags", "parameters", "request_body",
   "extra"]

/-- Make an operation of what an operation stores. -/
def rebuildOperation (v : Value) : Build Value := do
  let stored ← operationFields.mapM fun name => do
    return (name, ← Call.invoke load .getAttribute [v, .str name] [])
  Call.invoke load .operationRecord [] stored

/-- The operation objects of two operations. -/
def emitBoth (u v default : Value) : Build (Value × Value) := do
  return (← Call.invoke load .emitOperation [u, default] [],
    ← Call.invoke load .emitOperation [v, default] [])

theorem World.IsSettled.rebuild_gives (ho : w.Owned) (h : w.IsSettled v) :
    (rebuildNode load v).Gives w fun r w' => w'.equal? r.node v = some true ∧
      w'.equal? r.emitted r.schemaEmitted = some true ∧
      w'.equal? r.schemaEmitted r.emittedTwice = some true ∧
      ∃ fields, ∀ u ∈ [r.schema, r.emitted, r.schemaEmitted, r.emittedTwice],
        w'.Shows u (.record fields) := by
  obtain ⟨fields, flag, shown, regular⟩ := h.plainNode
  have plain : (Tree.record fields).plain = .record fields := by
    rw [Tree.plain_record]
    exact congrArg Tree.record shown.plain
  refine (toSchema_gives load ho shown.node).bind fun schema w₁ k₁ hs => ?_
  have ho₁ := ho.extends k₁
  refine (getFlag_gives load (shown.node.extends k₁)).bind ?_
  obtain ⟨a, fs, rfl, hg, hfs⟩ := hs.record
  refine (Node.ofFields_gives ho₁ (Value.mapping?_of_get hg) hfs regular.distinct flag).bind
    fun n w₂ k₂ hn => ?_
  rw [shown.plain] at hn
  have ho₂ := ho₁.extends k₂
  refine (Node.emit_node_gives ho₂ (shown.node.1.extends (k₁.trans k₂))).bind fun e w₃ k₃ he => ?_
  have ho₃ := ho₂.extends k₃
  refine (Node.emit_mapping_gives ho₃ (hs.extends (k₂.trans k₃))).bind fun f w₄ k₄ hf => ?_
  refine (Node.emit_mapping_gives (ho₃.extends k₄) (he.extends k₄)).bind fun g w₅ k₅ hg' => .pure ?_
  have k₃₅ := k₄.trans k₅
  have k₂₅ := k₃.trans k₃₅
  have emitted : w₅.Shows e (.record fields) := he.extends k₃₅
  have schemaEmitted : w₅.Shows f (.record fields) := (plain ▸ hf).extends k₅
  have emittedTwice : w₅.Shows g (.record fields) := plain ▸ hg'
  have record (a : Atom) : Tree.record fields ≠ .atom a := by simp [Tree.record]
  refine ⟨?_, emitted.equal schemaEmitted regular.keyed record,
    schemaEmitted.equal emittedTwice regular.keyed record, fields, ?_⟩
  · have node := Tree.Regular.node shown.plain regular flag
    exact (hn.1.extends k₂₅).equal (shown.node.1.extends ((k₁.trans k₂).trans k₂₅)) node.keyed
      (by simp [Tree.node])
  · simp only [List.forall_mem_cons, List.not_mem_nil, false_implies, implies_true, and_true]
    exact ⟨hs.extends (k₂.trans k₂₅), emitted, schemaEmitted, emittedTwice⟩

/-- A loop of steps that only read. -/
theorem Build.Reads.mapM {α β : Type} {f : α → Build β} {xs : List α} {ys : List β}
    (h : List.Forall₂ (fun x y => (f x).Reads w y) xs ys) : (xs.mapM f).Reads w ys := by
  induction h with
  | nil => rfl
  | cons first _ ih =>
      rw [Reads] at first ih ⊢
      simp only [List.mapM_cons, EStateM.run_bind, EStateM.run_pure, first, ih]

/-- The values that an operation stores are read as its attributes. -/
theorem getFields_reads {op : Operation} (h : w.IsOperation v op) :
    Build.Reads (operationFields.mapM fun name => do
      return (name, ← Call.invoke load .getAttribute [v, .str name] [])) w op.fields := by
  obtain ⟨a, rfl⟩ : ∃ a, v = .obj a := by
    cases v with
    | atom a => simpa [Operation.of?] using h.found
    | obj a => exact ⟨a, rfl⟩
  have read (name : String) (u : Value) (hu : op.fields.lookup name = some u) : Build.Reads (do
      return (name, ← Call.invoke load .getAttribute [.obj a, .str name] [])) w (name, u) := by
    have found : (Call.invoke load .getAttribute [.obj a, .str name] []).run w = .ok u w := by
      show (Access.getAttribute (.obj a) (.str name)).run w = .ok u w
      simp [Access.getAttribute, lookup_attribute_of_bare h.data.bare name, h.get,
        Access.attributes, Object.fields?, hu]
    rw [Reads, EStateM.run_bind, found]
    rfl
  refine Reads.mapM ?_
  exact .cons (read _ _ rfl) <| .cons (read _ _ rfl) <| .cons (read _ _ rfl) <|
    .cons (read _ _ rfl) <| .cons (read _ _ rfl) <| .cons (read _ _ rfl) <|
    .cons (read _ _ rfl) <| .cons (read _ _ rfl) <| .cons (read _ _ rfl) .nil

namespace Operation

theorem View.keyed {V : View} (h : V.tree.Keyed) :
    (∀ t ∈ V.generated, t.2.Keyed) ∧ ∀ t ∈ V.extra, t.2.Keyed := by
  cases h with
  | model each =>
      simp only [View.fields, List.forall_mem_cons] at each
      obtain ⟨-, -, responses, -, -, tags, parameters, body, extra, -⟩ := each
      -- What is stored is written under another name.
      have one {α : Type} {x : Option α} {g : α → Tree} (name : String)
          (hx : (x.elim .none g).Keyed) : ∀ t ∈ x.elim [] fun y => [(name, g y)], t.2.Keyed := by
        cases x with
        | none => simp
        | some y => simpa using hx
      refine ⟨?_, ?_⟩
      · simp only [View.generated, List.forall_mem_append]
        refine ⟨?_, one "tags" tags, one "parameters" parameters, one "requestBody" body,
          by simpa using responses⟩
        cases V.summary <;> simp [Tree.Keyed.atom]
      · cases extra with
        | mapping _ _ values => exact fun t ht => values _ (List.mem_map_of_mem ht)

/-- The operation object of an operation that looks as a view says. -/
theorem View.emit_gives (ho : w.Owned) {V : View} (h : w.Shows v V.tree) (default : Value) :
    (Call.invoke load .emitOperation [v, default] []).Gives w fun u w' => ∃ a fs gs, u = .obj a ∧
      w'.ShowsFields fs V.generated ∧ w'.ShowsFields gs V.extra ∧ w'.get a = .mapping
        (Entries.named (Entries.overlayNames (V.identified default ++ fs) gs)) := by
  obtain ⟨a, op, rfl, hg, held⟩ := V.held h
  have hop := held.isOperation h.1 hg
  refine .get_bind ?_
  rw [hop.found]
  exact held.emit_gives ho hop default

/-- Operations that look alike are emitted as mappings of matching values under the same names. -/
theorem View.emitBoth_gives (ho : w.Owned) {V : View} (keyed : V.tree.Keyed) {u : Value}
    (hu : w.Shows u V.tree) (hv : w.Shows v V.tree) (default : Value) :
    (emitBoth load u v default).Gives w fun r w' => w'.equal? r.1 r.2 = some true ∧
      ∃ a b es fs, r = (.obj a, .obj b) ∧ w'.get a = .mapping (Entries.named es) ∧
        w'.get b = .mapping (Entries.named fs) ∧ Entries.Paired w'.Matches es fs := by
  refine (View.emit_gives load ho hu default).bind fun x w₁ k₁ hx => ?_
  refine (View.emit_gives load (ho.extends k₁) (hv.extends k₁) default).bind fun y w₂ k₂ hy => .pure ?_
  obtain ⟨a, fs, gs, rfl, hfs, hgs, ha⟩ := hx
  obtain ⟨b, fs', gs', rfl, hfs', hgs', hb⟩ := hy
  have ha := (k₂.get a (lt_size_of_mapping ha)).trans ha
  have generated := ShowsFields.matches (paired_extends hfs k₂) hfs' (View.keyed keyed).1
  have extra := ShowsFields.matches (paired_extends hgs k₂) hgs' (View.keyed keyed).2
  have identified : Entries.Paired w₂.Matches (V.identified default) (V.identified default) :=
    List.forall₂_same.mpr fun _ _ => ⟨rfl, .inl rfl⟩
  have matching := Entries.Paired.overlay (List.rel_append identified generated) extra
  exact ⟨equal_of_matches ha hb ((V.distinct default hfs').overlay _) matching,
    a, b, _, _, rfl, ha, hb, matching⟩

end Operation

theorem Operation.IsStored.rebuild_gives (ho : w.Owned) (h : IsStored w v) :
    (rebuildOperation load v).Gives w fun u w' => w'.equal? u v = some true ∧
      ∀ default, (emitBoth load u v default).Gives w' fun r w'' => w''.equal? r.1 r.2 = some true ∧
        ∃ a b es fs, r = (.obj a, .obj b) ∧ w''.get a = .mapping (Entries.named es) ∧
          w''.get b = .mapping (Entries.named fs) ∧ Entries.Paired w''.Matches es fs := by
  obtain ⟨V, proper, shown, keyed⟩ := h
  obtain ⟨a, op, rfl, hg, held⟩ := V.held shown
  refine (getFields_reads load (held.isOperation shown.1 hg)).bind ?_
  have looks : V.Looks w (.str op.method) (.str op.path) (.obj op.responses)
      (optionalText op.operationId) (optionalText op.summary) (optionalObject op.tags)
      (optionalObject op.parameters) (optionalObject op.requestBody) (.obj op.extra) := {
    method := held.method ▸ shows_atom w (.str op.method)
    path := held.path ▸ shows_atom w (.str op.path)
    operationId := held.operationId ▸ optionalText_shows w op.operationId
    summary := held.summary ▸ optionalText_shows w op.summary
    responses := held.responses, tags := held.tags, parameters := held.parameters
    requestBody := held.requestBody, extra := held.extra }
  refine (ofFields_shows ho proper looks).mono fun u w' k hu => ?_
  have given := shown.extends k
  exact ⟨hu.equal given keyed (by simp [View.tree]), fun default =>
    View.emitBoth_gives load (ho.extends k) keyed hu given default⟩

/-- A node that is made of the schema and the flag of a node is equal to it, and the node, its schema
and what it is emitted as are emitted as equal mappings with the same entries in the same order. An
operation that is made of what an operation stores is equal to it, and for every identifier both are
emitted as equal mappings, whose entries have the same names in the same order and values that look
alike. -/
theorem rebuilt_same (ho : w.Owned) :
    (∀ v, Obtained load .node w v → (rebuildNode load v).Gives w fun r w' =>
      w'.equal? r.node v = some true ∧ w'.equal? r.emitted r.schemaEmitted = some true ∧
      w'.equal? r.schemaEmitted r.emittedTwice = some true ∧
      ∃ fields, ∀ u ∈ [r.schema, r.emitted, r.schemaEmitted, r.emittedTwice],
        w'.Shows u (.record fields)) ∧
    ∀ v, Obtained load .operation w v → (rebuildOperation load v).Gives w fun u w' =>
      w'.equal? u v = some true ∧ ∀ default, (emitBoth load u v default).Gives w' fun r w'' =>
        w''.equal? r.1 r.2 = some true ∧ ∃ a b es fs, r = (.obj a, .obj b) ∧
          w''.get a = .mapping (Entries.named es) ∧ w''.get b = .mapping (Entries.named fs) ∧
          Entries.Paired w''.Matches es fs :=
  ⟨fun _ h => IsSettled.rebuild_gives load ho h.state,
    fun _ h => Operation.IsStored.rebuild_gives load ho h.state⟩

end rebuild

/-! ### Runs -/

/-- A mapping from bytes to a tuple, and responses under a number and a text. -/
def stocked : World :=
  { World.initial with objects := #[.tuple [.int 1, .bool true],
      .mapping [(.bytes "enum".toUTF8.toList, .obj 0)], .mapping [(.int 200, .obj 1), (.str "4XX", .obj 1)]] }

theorem rebuilt_same_stocked : stocked.Owned ∧ (∃ v w', w'.Owned ∧
    Obtained Delivered.unloaded .node w' v ∧ (rebuildNode Delivered.unloaded v).Gives w'
      fun r w'' => w''.equal? r.node v = some true) ∧
    ∃ v w', w'.Owned ∧ Obtained Delivered.unloaded .operation w' v ∧
      (rebuildOperation Delivered.unloaded v).Gives w' fun u w'' => w''.equal? u v = some true := by
  have owned : stocked.Owned := fun _ _ => rfl
  have atoms (a : Atom) : stocked.IsKeyed (.atom a) := stocked.isKeyed_atom a
  have pair : stocked.IsKeyed (.obj 0) := by
    have data : stocked.IsData (.obj 0) := .obj (by decide) rfl rfl
      (by rintro _ ⟨⟩ b hb; simp at hb) (by
        change ∀ v ∈ [Value.int 1, .bool true], _
        simp [IsData.atom])
    have items : stocked.get 0 = .tuple [.int 1, .bool true] := rfl
    exact ⟨data, data.tree_tuple items ▸ .tuple (by simp [Tree.Keyed.atom])⟩
  have mapping (a : Addr) (es : Entries) (lt : a < stocked.size)
      (hg : stocked.get a = .mapping es) (parts : ∀ v ∈ (stocked.get a).parts, stocked.IsKeyed v)
      (apart : Tree.Apart (es.map fun e => (stocked.tree e.1, stocked.tree e.2))) :
      stocked.IsKeyed (.obj a) := by
    have data : stocked.IsData (.obj a) := .obj lt rfl (by rw [hg]; rfl) (by simp [hg])
      fun v hv => (parts v hv).data
    refine ⟨data, data.tree_mapping hg ▸ .mapping apart ?_ ?_⟩
    · exact List.forall_mem_map.mpr fun e he => (parts _ (hg ▸ Object.mem_parts_key he)).keyed
    · exact List.forall_mem_map.mpr fun e he => (parts _ (hg ▸ Object.mem_parts_value he)).keyed
  have fragment : stocked.IsKeyed (.obj 1) := mapping 1 _ (by decide) rfl (by
    change ∀ v ∈ [Value.bytes _, .obj 0], _
    simpa [pair] using atoms _) (by simp [Tree.Apart])
  have responses : stocked.IsKeyed (.obj 2) := mapping 2 _ (by decide) rfl (by
    change ∀ v ∈ [Value.int 200, .obj 1, Value.str "4XX", .obj 1], _
    simpa [fragment] using ⟨atoms _, atoms _⟩) (by
      simp [Tree.Apart, Tree.same, Atom.same, Atom.equals, Atom.number?])
  have free (a f : Addr) (o : Bool) : stocked.get a ≠ .node f o := by
    rcases a with _ | _ | _ | a <;> simp [stocked, World.get]
  refine ⟨owned, ?_, ?_⟩
  · have given : ∀ x ∈ ([] : List Value) ++ [("fragment", Value.obj 1), ("is_optional", .str "yes")].map (·.2),
        stocked.IsKeyed x := by simpa [fragment] using atoms _
    obtain ⟨v, w', run⟩ := Build.ran (Call.invoke Delivered.unloaded .schemaNode []
      [("fragment", .obj 1), ("is_optional", .str "yes")]) stocked (by decide +kernel)
    have made := Call.makes_settled Delivered.unloaded owned (f := .schemaNode) rfl (fun x hx =>
      (given x hx).isRegular fun a _ f o hg => absurd hg (free a f o)) v w' run
    have obtained : Obtained Delivered.unloaded .node w' v := .node owned rfl given
      (fun _ _ a _ f o hg => absurd hg (free a f o)) run
    have owned' := owned.extends made.1
    exact ⟨v, w', owned', obtained, ((rebuilt_same Delivered.unloaded owned').1 v obtained).mono
      fun _ _ _ h => h.1⟩
  · have given : ∀ x ∈ [Value.str "get", .str "/items", .obj 2] ++ ([] : List (String × Value)).map (·.2),
        stocked.IsKeyed x := by simpa [responses] using ⟨atoms _, atoms _⟩
    obtain ⟨v, w', run⟩ := Build.ran (Call.invoke Delivered.unloaded .operation
      [.str "get", .str "/items", .obj 2] []) stocked (by decide +kernel)
    have obtained : Obtained Delivered.unloaded .operation w' v := .operation owned (.inl rfl) given run
    have owned' := owned.extends (Call.makes_stored Delivered.unloaded owned (.inl rfl) given v w' run).1
    exact ⟨v, w', owned', obtained, ((rebuilt_same Delivered.unloaded owned').2 v obtained).mono
      fun _ _ _ h => h.1⟩

/-- Make an operation of a response that holds itself. -/
def cyclicOperation : Build Value := do
  let response ← newMapping [(.str "a", .int 1)]
  let _ ← Call.invoke Delivered.unloaded .setItem [response, .str "x", response] []
  let responses ← newMapping [(.int 200, response)]
  Call.invoke Delivered.unloaded .operation [.str "get", .str "/", responses] []

/-- Compare it with the operation that is made of what it stores. -/
def comparedCyclic : Build Value := do
  let operation ← cyclicOperation
  let again ← rebuildOperation Delivered.unloaded operation
  Call.invoke Delivered.unloaded .equal [again, operation] []

/-- An operation with a response that holds itself can be made, and so can one of what it stores, but
the two cannot be compared. -/
theorem rebuilt_unlike :
    (match (cyclicOperation >>= rebuildOperation Delivered.unloaded).run World.initial with
      | .ok _ _ => true
      | .error _ _ => false) = true ∧
    (match comparedCyclic.run World.initial with
      | .ok _ _ => none
      | .error f _ => some f.kind) = some "RecursionError" :=
  ⟨by decide +kernel, by decide +kernel⟩

end OpenApiDoc
