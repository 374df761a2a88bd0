import OpenApiDoc.Proofs.Properties

/-! # Choices and constants

A choice accepts the keys of a mapping, a constant one value. Keys of any kind may stand side by side;
truth values, numbers and texts have a type in the schema, and the schema declares a type when all of
its values have it.

* `Schema.IsChoice` says what the schema of a choice lists: the values, their type if they have one in
  common, and a line for each of them.
* `Schema.IsConstant` says it of a constant.
* `Schema.values_listed`: what calls of the two constructors give, and that they agree about the type
  of one value. -/

namespace OpenApiDoc

open World Build

variable {w : World}

namespace Schema

/-! ### Types -/

theorem commonType_eq_some_iff {keys : List Value} (full : keys ≠ []) {s : String} :
    commonType keys = some s ↔ ∀ k ∈ keys, typeOf k = some s := by
  cases keys with
  | nil => exact absurd rfl full
  | cons k rest =>
      simp only [commonType, List.all_eq_true, beq_iff_eq, List.forall_mem_cons]
      constructor
      · intro h
        split at h
        next same => exact ⟨h, fun l hl => (same l hl).trans h⟩
        next => cases h
      · rintro ⟨first, others⟩
        rw [if_pos fun l hl => (others l hl).trans first.symm, first]

/-- The type of a value is that of what is emitted for it. -/
theorem jsonType_plain {v : Value} (h : w.IsData v) : (w.tree v).plain.jsonType = typeOf v := by
  cases v with
  | atom a => rw [w.tree_atom, Tree.plain_atom, ← typeOf_eq (w.shows_atom a)]
  | obj a =>
      have kind := h.kind
      cases hg : w.get a with
      | mapping es => rw [h.tree_mapping hg]; rfl
      | list xs => rw [h.tree_list hg]; rfl
      | tuple xs => rw [h.tree_tuple hg]; rfl
      | moment m => rw [h.tree_moment hg]; rfl
      | node f o =>
          have fragment : w.IsData (.obj f) := h.part (by simp [hg, Object.parts])
          rw [h.tree_node hg]
          exact (typeOf_eq fragment.shows).symm
      | operation op =>
          have view := h.view_tree
          simp only [hg, Object.view, Option.some.injEq] at view
          rw [← view]
          rfl
      | _ => simp [hg, Object.isData] at kind

/-! ### Lines -/

theorem choiceLine_single {e : Value × Value} (key : '\n' ∉ (w.text e.1).toList)
    (meaning : '\n' ∉ (w.text e.2).toList) : '\n' ∉ (choiceLine w e).toList := by
  simp [choiceLine, key, meaning]

/-- Lines that are joined by line feeds are told apart again. -/
theorem splitOn_lines {ls : List String} (full : ls ≠ []) (single : ∀ l ∈ ls, '\n' ∉ l.toList) :
    ("\n".intercalate ls).toList.splitOn '\n' = ls.map String.toList := by
  rw [String.toList_intercalate]
  exact List.splitOn_intercalate '\n' (by simpa using single) (by simpa using full)

/-! ### Schemas -/

/-- What the schema of a choice says about the entries that it is made of. -/
structure IsChoice (w : World) (es : Entries) (ts : List (String × Tree)) : Prop where
  values : ts.lookup "enum" = some (.list (es.map fun e => (w.tree e.1).plain))
  typed : ∀ t, ts.lookup "type" = some t ↔ ∃ s, t = .str s ∧ ∀ e ∈ es, typeOf e.1 = some s
  sound : ∀ s, ts.lookup "type" = some (.str s) →
    ∀ e ∈ es, (w.tree e.1).plain.jsonType = some s
  described : ts.lookup "description" = some (.str ("\n".intercalate (es.map (choiceLine w))))
  lines : (∀ e ∈ es, '\n' ∉ (w.text e.1).toList ∧ '\n' ∉ (w.text e.2).toList) →
    ("\n".intercalate (es.map (choiceLine w))).toList.splitOn '\n' =
      es.map fun e => (choiceLine w e).toList

/-- What the schema of a constant says about its value. -/
structure IsConstant (w : World) (v : Value) (ts : List (String × Tree)) : Prop where
  value : ts.lookup "enum" = some (.list [(w.tree v).plain])
  typed : ∀ t, ts.lookup "type" = some t ↔ ∃ s, t = .str s ∧ typeOf v = some s

/-- A text is there when it is given. -/
theorem filter_text? (s : Option String) :
    ((some (Tree.text? s)).filter fun t => !t.isNone).map Tree.plain = s.map Tree.str := by
  cases s <;> rfl

theorem isChoice_of_overlay {es : Entries} (full : es ≠ []) (keys : ∀ e ∈ es, w.IsData e.1)
    {us : List (String × Tree)}
    (free : ∀ n ∈ ["type", "description", "enum"], us.lookup n = none) :
    IsChoice w es (Tree.plainFields (Entries.overlayNames (present (choiceFields w es)) us)) := by
  have distinct : Entries.Distinct (choiceFields w es) := by
    simp [Entries.Distinct, choiceFields]
  have type := lookup_free distinct (free "type" (by simp))
  have listed : es.map (·.1) ≠ [] := by simpa using full
  rw [show (choiceFields w es).lookup "type" = some (.text? (commonType (es.map (·.1)))) from rfl,
    filter_text?] at type
  have typed (t : Tree) :
      (commonType (es.map (·.1))).map Tree.str = some t ↔
        ∃ s, t = .str s ∧ ∀ e ∈ es, typeOf e.1 = some s := by
    simp only [Option.map_eq_some_iff, commonType_eq_some_iff listed, List.forall_mem_map]
    exact exists_congr fun s => and_comm.trans (and_congr_left fun _ => eq_comm)
  refine ⟨?_, fun t => by rw [type, typed], fun s hs e he => ?_, ?_, fun single => ?_⟩
  · rw [lookup_free distinct (free "enum" (by simp))]
    change some (Tree.plain (.list (es.map fun e => w.tree e.1))) = _
    rw [Tree.plain_list, List.map_map]
    rfl
  · rw [type, typed] at hs
    obtain ⟨s', same, all⟩ := hs
    cases same
    rw [jsonType_plain (keys e he), all e he]
  · rw [lookup_free distinct (free "description" (by simp))]
    rfl
  · rw [splitOn_lines (by simpa using full) (List.forall_mem_map.mpr fun e he =>
      choiceLine_single (single e he).1 (single e he).2), List.map_map]
    rfl

theorem isConstant_of_overlay {v : Value} (h : w.IsData v) (d : Tree) {us : List (String × Tree)}
    (free : ∀ n ∈ ["type", "enum"], us.lookup n = none) : IsConstant w v
      (Tree.plainFields (Entries.overlayNames (present (constantFields (w.tree v) d)) us)) := by
  have distinct : Entries.Distinct (constantFields (w.tree v) d) := by
    simp [Entries.Distinct, constantFields]
  refine ⟨?_, fun t => ?_⟩
  · rw [lookup_free distinct (free "enum" (by simp))]
    change some (Tree.plain (.list [w.tree v])) = _
    rw [Tree.plain_list]
    rfl
  · rw [lookup_free distinct (free "type" (by simp))]
    change ((some (Tree.text? (w.tree v).jsonType)).filter _).map _ = _ ↔ _
    rw [filter_text?, ← typeOf_eq h.shows, Option.map_eq_some_iff]
    exact exists_congr fun s => and_comm.trans (and_congr_left fun _ => eq_comm)

/-! ### Calls -/

variable {v : Variant} {args : List Value} {named : List (String × Value)} {b : Signature.Bound}
  {es : Entries} {us : List (String × Tree)}

/-- A call of a constructor or of one of its variants gives a node with the flag of the variant. -/
theorem construct_gives {c : Constructor} (ho : w.Owned)
    (call : Call.Runs (.construct c v) args named (Call.variant c v) b) {ts : List (String × Tree)}
    (made : ((Call.constructor c).run b).Gives w fun n w' => w'.ShowsNode n ts false)
    (load : Value → Build Value) :
    (Call.invoke load (.construct c v) args named).Gives w fun n w' => w'.ShowsNode n ts v.flag := by
  rw [call.invoke load]
  exact variant_gives ho made v

/-- A choice lists every key once and in order, next to a line for it, whatever the keys and their
meanings are; a constant lists its value. Either declares the type that all its values have, and of
one value both say the same. -/
theorem values_listed (ho : w.Owned) (load : Value → Build Value) :
    (∀ {v args named b es us}, Call.Runs (.construct .choice v) args named (Call.variant .choice v) b →
      (b.arg "values").mapping? w = some es → es ≠ [] → (∀ e ∈ es, w.IsData e.1) →
      w.ShowsExtra (b.arg "extra") us →
      (∀ n ∈ ["type", "description", "enum"], us.lookup n = none) →
      Gives (do
        let node ← Call.invoke load (.construct .choice v) args named
        let schema ← Call.invoke load .toSchema [node] []
        return (node, schema)) w fun r w' => ∃ ts, w'.ShowsNode r.1 ts v.flag ∧
          w'.Shows r.2 (.record ts) ∧ IsChoice w es ts ∧
          ∀ e ∈ es, e.1.plain.Gives w' fun u w'' => w''.Shows u (w.tree e.1).plain) ∧
    (∀ {v args named b us} d,
      Call.Runs (.construct .constant v) args named (Call.variant .constant v) b →
      w.IsData (b.arg "value") → w.IsData (b.arg "description") →
      w.ShowsExtra (b.arg "extra") us → (∀ n ∈ ["type", "enum"], us.lookup n = none) →
      Gives (do
        let node ← Call.invoke load (.construct .constant v) args named
        let schema ← Call.invoke load .toSchema [node] []
        let values ← newMapping [(b.arg "value", d)]
        let chosen ← Call.invoke load (.construct .choice .asBuilt) [values] []
        let other ← Call.invoke load .toSchema [chosen] []
        return (node, schema, other)) w fun r w' => ∃ ts us', w'.ShowsNode r.1 ts v.flag ∧
          w'.Shows r.2.1 (.record ts) ∧ w'.Shows r.2.2 (.record us') ∧
          IsConstant w (b.arg "value") ts ∧ us'.lookup "type" = ts.lookup "type" ∧
          (b.arg "value").plain.Gives w' fun u w'' =>
            w''.Shows u (w.tree (b.arg "value")).plain) := by
  refine ⟨fun {v args named b es us} call given full keys extra free => ?_,
    fun {v args named b us} d call value description extra free => ?_⟩
  · have made := construct_gives ho call (choice_shows ho given full keys extra) load
    refine made.bind fun n w₁ k₁ hn => (toSchema_gives load (ho.extends k₁) hn).bind
      fun u w₂ k₂ hu => .pure ⟨_, hn.extends k₂, hu, isChoice_of_overlay full keys free,
        fun e he => ?_⟩
    have k := k₁.trans k₂
    exact Value.plain_gives (ho.extends k) ((keys e he).shows.extends k)
  · have made := construct_gives ho call (constant_shows ho value.shows description.shows extra) load
    refine made.bind fun n w₁ k₁ hn => (toSchema_gives load (ho.extends k₁) hn).bind
      fun u w₂ k₂ hu => ?_
    have k := k₁.trans k₂
    -- The mapping of the one value to any meaning is given to the other constructor.
    have mapped : (newMapping [(b.arg "value", d)]).Gives w₂ fun x w' =>
        x.mapping? w' = some [(b.arg "value", d)] ∧ w'.Owned := by
      refine Gives.bind (Gives.new (Q := fun a w' => w'.get a = .mapping _ ∧ w'.Owned)
        ⟨w₂.get_alloc_same _, (ho.extends k).extends (w₂.extends_alloc _)⟩) fun a w' _ ha => ?_
      exact .pure ⟨Value.mapping?_of_get ha.1, ha.2⟩
    refine mapped.bind fun x w₃ k₃ ⟨hx, ho₃⟩ => ?_
    have key : ∀ e ∈ [(b.arg "value", d)], w₃.IsData e.1 := by
      simpa using (value.extends (k.trans k₃)).1
    have call' : Call.Runs (.construct .choice .asBuilt) [x] [] (Call.variant .choice .asBuilt)
        ⟨[("values", x), ("extra", .none)], []⟩ := .construct rfl rfl
    have chosen := construct_gives ho₃ call'
      (choice_shows ho₃ hx (by simp) key (.inl ⟨rfl, rfl⟩)) load
    refine chosen.bind fun m w₄ k₄ hm => (toSchema_gives load (ho₃.extends k₄) hm).bind
      fun o w₅ k₅ hother => .pure ?_
    have k' := (k₃.trans k₄).trans k₅
    have constant := isConstant_of_overlay value (w.tree (b.arg "description")) free
    have further : ∀ n ∈ ["type", "description", "enum"],
        ([] : List (String × Tree)).lookup n = none := by simp
    have choice := isChoice_of_overlay (by simp) key further
    refine ⟨_, _, hn.extends (k₂.trans k'), hu.extends k', hother, constant, ?_, ?_⟩
    · refine Option.ext fun t => ?_
      rw [constant.typed, choice.typed]
      simp
    · exact Value.plain_gives (ho.extends (k.trans k')) (value.shows.extends (k.trans k'))

/-! ### Runs -/

/-- A mapping of two texts, one of which has a mapping for its meaning, and an entry for an
extension. -/
def coded : World :=
  { World.initial with objects := #[.mapping [(.bool true, .str "yes")],
      .mapping [(.str "a", .str "first"), (.str "b", .obj 0)], .mapping [(.str "x-note", .int 1)]] }

theorem values_listed_coded :
    coded.Owned ∧
    Gives (do
      let node ← Call.invoke Delivered.unloaded (.construct .choice .optional) [.obj 1, .obj 2] []
      let schema ← Call.invoke Delivered.unloaded .toSchema [node] []
      return (node, schema)) coded (fun r w' => ∃ ts, w'.ShowsNode r.1 ts true ∧
        w'.Shows r.2 (.record ts) ∧
        IsChoice coded [(.str "a", .str "first"), (.str "b", .obj 0)] ts ∧
        ts.lookup "type" = some (.str "string")) ∧
    Gives (do
      let node ← Call.invoke Delivered.unloaded (.construct .constant .asBuilt) [.bool false] []
      let schema ← Call.invoke Delivered.unloaded .toSchema [node] []
      let values ← newMapping [(.bool false, .str "off")]
      let chosen ← Call.invoke Delivered.unloaded (.construct .choice .asBuilt) [values] []
      let other ← Call.invoke Delivered.unloaded .toSchema [chosen] []
      return (node, schema, other)) coded fun r w' => ∃ ts us, w'.ShowsNode r.1 ts false ∧
        w'.Shows r.2.1 (.record ts) ∧ w'.Shows r.2.2 (.record us) ∧
        IsConstant coded (.bool false) ts ∧ us.lookup "type" = ts.lookup "type" := by
  have owned : coded.Owned := fun _ _ => rfl
  have further : coded.IsData (.obj 2) := .obj (by decide) rfl rfl (fun _ h => nomatch h) (by
    change ∀ v ∈ [Value.str "x-note", .int 1], _
    simp [IsData.atom])
  have extra : coded.ShowsExtra (.obj 2) [("x-note", .atom (.int 1))] := .inr ⟨further, rfl⟩
  have choice : Call.Runs (.construct .choice .optional) [.obj 1, .obj 2] []
      (Call.variant .choice .optional) ⟨[("values", .obj 1), ("extra", .obj 2)], []⟩ :=
    .construct rfl rfl
  have constant : Call.Runs (.construct .constant .asBuilt) [.bool false] []
      (Call.variant .constant .asBuilt)
      ⟨[("value", .bool false), ("description", .none), ("extra", .none)], []⟩ :=
    .construct rfl rfl
  refine ⟨owned, ?_, ?_⟩
  · have entries : (Value.obj 1).mapping? coded =
        some [(.str "a", .str "first"), (.str "b", .obj 0)] := rfl
    have made := (values_listed owned Delivered.unloaded).1 choice entries (by simp)
      (by simp [IsData.atom]) extra (by simp)
    refine made.mono fun r w' _ ⟨ts, node, schema, listed, _⟩ => ⟨ts, node, schema, listed, ?_⟩
    exact (listed.typed _).mpr ⟨"string", rfl, by simp [typeOf]⟩
  · have made := (values_listed owned Delivered.unloaded).2 (.str "off") constant (.atom _) (.atom _)
      (.inl ⟨rfl, rfl⟩) (by simp)
    refine made.mono fun r w' _ shown => ?_
    obtain ⟨ts, us, node, schema, other, listed, same, -⟩ := shown
    exact ⟨ts, us, node, schema, other, listed, same⟩

/-- Make a constant of a list that holds itself. -/
def cyclicConstant : Build Value := do
  let value ← newList [.int 1]
  let _ ← Call.invoke Delivered.unloaded .setItem [value, .int 0, value] []
  Call.invoke Delivered.unloaded (.construct .constant .asBuilt) [value] []

/-- Make a constant of a constructor, and compare what it lists with the emitted constructor. -/
def sealedConstant : Build Value := do
  let value := .obj (← Build.new (.constructor .string))
  let node ← Call.invoke Delivered.unloaded (.construct .constant .asBuilt) [value] []
  let schema ← Call.invoke Delivered.unloaded .toSchema [node] []
  let values ← Call.invoke Delivered.unloaded .getItem [schema, .str "enum"] []
  let listed ← Call.invoke Delivered.unloaded .getItem [values, .int 0] []
  let mapping ← newMapping [(.str "x", value)]
  let schema ← Call.invoke Delivered.unloaded .emit [mapping] []
  let emitted ← Call.invoke Delivered.unloaded .getItem [schema, .str "x"] []
  Call.invoke Delivered.unloaded .equal [listed, emitted] []

/-- There is no constant of a value that holds itself, and a constructor is another one wherever it
is emitted. -/
theorem constant_unlike :
    (match cyclicConstant.run World.initial with
      | .ok _ _ => none
      | .error f _ => some f.kind) = some "RecursionError" ∧
    (match sealedConstant.run World.initial with
      | .ok outcome _ => some outcome
      | .error _ _ => none) = some (.bool false) :=
  ⟨by decide +kernel, by decide +kernel⟩

end Schema
end OpenApiDoc
