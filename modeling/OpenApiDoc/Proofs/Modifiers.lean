import OpenApiDoc.Proofs.Denotation
import OpenApiDoc.Proofs.Inputs

/-! # Chains of modifiers

A node is changed by making other nodes of it: one with another flag, one that accepts nothing as
well, one with further fields.

* `Modifier` is a step of such a chain, `Modifier.flagAfter` and `Modifier.fieldsAfter` are the
  normal form of a chain: the last flag that is set, and the fields laid over each other from left to
  right.
* `Modifier.call_gives` is one step, `applyAll_gives` a chain of them.
* `applyAll_normal`: every chain gives its normal form. So changes of the flag pass by the other
  changes, what is merged in two steps can be merged in one, and nothing is gained by doing the same
  again.
* `applyAll_unlike`: a constructor inside a node is another one in every copy, and fragments that
  were written to may have keys that cannot be merged. -/

namespace OpenApiDoc

/-! ### Laying fields over each other -/

namespace Entries

variable {α : Type}

theorem insert_insert_self (fs : List (String × α)) (n : String) (u v : α) :
    insert (· == ·) (insert (· == ·) fs n u) n v = insert (· == ·) fs n v := by
  induction fs with
  | nil => simp [insert]
  | cons f fs ih =>
      by_cases h : f.1 = n
      · simp [insert, h]
      · simp [insert, h, ih]

/-- A name that is there already keeps its place, so it does not matter when it takes its value. -/
theorem insert_insert_comm {fs : List (String × α)} {n m : String} (h : n ∈ fs.map (·.1))
    (hm : m ≠ n) (u v : α) : insert (· == ·) (insert (· == ·) fs m u) n v =
      insert (· == ·) (insert (· == ·) fs n v) m u := by
  induction fs with
  | nil => cases h
  | cons f fs ih =>
      obtain ⟨l, x⟩ := f
      by_cases hn : l = n
      · subst hn
        have hm' : ¬ l = m := Ne.symm hm
        simp [insert, hm']
      · have later : n ∈ fs.map (·.1) := by simpa [Ne.symm hn] using h
        by_cases hl : l = m
        · simp [insert, hl, hm]
        · simp [insert, hl, hn, ih later]

theorem overlay_insert_left {fs extra : List (String × α)} {n : String} (h : n ∈ fs.map (·.1))
    (hn : n ∉ extra.map (·.1)) (v : α) : insert (· == ·) (overlayNames fs extra) n v =
      overlayNames (insert (· == ·) fs n v) extra := by
  induction extra generalizing fs with
  | nil => rfl
  | cons e extra ih =>
      simp only [List.map_cons, List.mem_cons, not_or] at hn
      have there : n ∈ (insert (· == ·) fs e.1 e.2).map (·.1) := by
        rw [keys_insert]
        split
        · exact h
        · exact List.mem_append_left _ h
      simp only [overlayNames, overlay_cons] at ih ⊢
      rw [ih there hn.2, insert_insert_comm h (Ne.symm hn.1)]

theorem overlay_insert (fs : List (String × α)) {extra : List (String × α)} (hd : Distinct extra)
    (n : String) (v : α) : overlayNames fs (insert (· == ·) extra n v) =
      insert (· == ·) (overlayNames fs extra) n v := by
  induction extra generalizing fs with
  | nil => rfl
  | cons e extra ih =>
      obtain ⟨m, u⟩ := e
      obtain ⟨fresh, hd⟩ : m ∉ extra.map (·.1) ∧ Distinct extra := by
        simpa [Distinct] using hd
      by_cases h : m = n
      · subst h
        have there : m ∈ (insert (· == ·) fs m u).map (·.1) := by
          rw [keys_insert]
          split <;> simp_all
        have same := overlay_insert_left there fresh v
        rw [insert_insert_self] at same
        simpa [insert] using same.symm
      · simpa [insert, h] using ih (insert (· == ·) fs m u) hd

/-- Fields that are laid over others in two steps. -/
theorem overlay_assoc (fs : List (String × α)) {extra : List (String × α)} (hd : Distinct extra)
    (further : List (String × α)) : overlayNames (overlayNames fs extra) further =
      overlayNames fs (overlayNames extra further) := by
  induction further generalizing extra with
  | nil => rfl
  | cons e further ih =>
      simp only [overlayNames, overlay_cons] at ih ⊢
      rw [← ih (hd.insert e.1 e.2)]
      congr 1
      exact (overlay_insert fs hd e.1 e.2).symm

end Entries

/-! ### Plain views -/

/-- The nodes inside a view have fragments that are plain, as nodes have when they are made. -/
inductive Tree.NodesPlain : Tree → Prop
  | atom (a : Atom) : NodesPlain (.atom a)
  | moment (m : Moment) : NodesPlain (.moment m)
  | list {items : List Tree} (each : ∀ t ∈ items, NodesPlain t) : NodesPlain (.list items)
  | tuple {items : List Tree} (each : ∀ t ∈ items, NodesPlain t) : NodesPlain (.tuple items)
  | mapping {entries : List (Tree × Tree)} (each : ∀ e ∈ entries, NodesPlain e.2) :
      NodesPlain (.mapping entries)
  | node {fields : List (String × Tree)} (plain : Tree.plainFields fields = fields) (flag : Bool) :
      NodesPlain (.node fields flag)
  | operation (fields : List (String × Tree)) : NodesPlain (.model .operation fields)

theorem Tree.NodesPlain.plain_plain {t : Tree} (h : t.NodesPlain) : t.plain.plain = t.plain := by
  have items {xs : List Tree} (ih : ∀ t ∈ xs, t.plain.plain = t.plain) :
      (xs.map plain).map plain = xs.map plain := by
    rw [List.map_map]
    exact List.map_congr_left ih
  induction h with
  | atom a => rfl
  | moment m => rfl
  | list _ ih => simp only [plain, plainItems_eq, items ih]
  | tuple _ ih => simp only [plain, plainItems_eq, items ih]
  | mapping _ ih =>
      simp only [plain, plainEntries_eq, List.map_map]
      refine congrArg Tree.mapping (List.map_congr_left fun e he => ?_)
      simp only [Function.comp_apply, ih e he]
  | node fixed flag => rw [plain_node, plain_record, ← plainFields, fixed]
  | operation fields => rfl

theorem Tree.plainFields_plainFields {us : List (String × Tree)} (h : ∀ u ∈ us, u.2.NodesPlain) :
    plainFields (plainFields us) = plainFields us := by
  rw [plainFields, List.map_map]
  exact List.map_congr_left fun u hu => by simp only [Function.comp_apply, (h u hu).plain_plain]

/-- The fields that a view of a mapping has under texts. -/
def Tree.fieldsOf : Tree → List (String × Tree)
  | .mapping es => es.filterMap fun
    | (.str n, t) => some (n, t)
    | _ => Option.none
  | _ => []

@[simp] theorem Tree.fieldsOf_record (us : List (String × Tree)) : (record us).fieldsOf = us := by
  simp [record, fieldsOf, List.filterMap_map]

/-! ### Modifiers -/

/-- A step that makes a node of a node. -/
inductive Modifier where
  | optional
  | required
  | nullable
  | merge (extra : Value)

namespace Modifier

open Build World

variable {w w' : World} {m : Modifier}

/-- The flag that is set. -/
def flag? : Modifier → Option Bool
  | optional => some true
  | required => some false
  | _ => none

/-- The fields that are laid over those of the node. -/
def fields? (w : World) : Modifier → Option (List (String × Tree))
  | nullable => some [("nullable", .bool true)]
  | merge extra => some (w.tree extra).fieldsOf
  | _ => none

/-- What is merged is a mapping from distinct texts, in which nodes may occur. -/
def Fits (w : World) : Modifier → Prop
  | merge extra => ∃ us, w.Shows extra (.record us) ∧ Entries.Distinct us ∧ ∀ u ∈ us, u.2.NodesPlain
  | _ => True

theorem Fits.extends (h : m.Fits w) (k : w.Extends w') :
    m.Fits w' ∧ m.fields? w' = m.fields? w := by
  cases m with
  | merge extra =>
      obtain ⟨us, shown, distinct, nodes⟩ := h
      have later := shown.extends k
      exact ⟨⟨us, later, distinct, nodes⟩, by rw [fields?, fields?, later.2, shown.2]⟩
  | _ => exact ⟨trivial, rfl⟩

/-- The last flag that is set, or else the one that was there. -/
def flagAfter (b : Bool) (ms : List Modifier) : Bool := ((ms.filterMap flag?).getLast?).getD b

/-- The plain views of all further fields, laid over the fields from left to right. -/
def fieldsAfter (w : World) (fs : List (String × Tree)) (ms : List Modifier) :
    List (String × Tree) :=
  (ms.filterMap (fields? w)).foldl (fun fs us => Entries.overlayNames fs (Tree.plainFields us)) fs

theorem flagAfter_cons (b : Bool) (m : Modifier) (ms : List Modifier) :
    flagAfter b (m :: ms) = flagAfter (m.flag?.getD b) ms := by
  cases m <;> simp [flagAfter, flag?, List.getLast?_cons]

theorem fieldsAfter_cons (w : World) (fs : List (String × Tree)) (m : Modifier)
    (ms : List Modifier) :
    fieldsAfter w fs (m :: ms) = fieldsAfter w (fieldsAfter w fs [m]) ms := by
  rw [← List.singleton_append, fieldsAfter, List.filterMap_append, List.foldl_append]
  rfl

theorem fieldsAfter_extends {ms : List Modifier} (h : ∀ m ∈ ms, m.Fits w) (k : w.Extends w')
    (fs : List (String × Tree)) : fieldsAfter w' fs ms = fieldsAfter w fs ms := by
  rw [fieldsAfter, fieldsAfter, List.filterMap_congr fun m hm => ((h m hm).extends k).2]

variable (load : Value → Build Value)

/-- The call that a modifier stands for. -/
def call (v : Value) : Modifier → Build Value
  | optional => Call.invoke load .optional [v] []
  | required => Call.invoke load .required [v] []
  | nullable => Call.invoke load .nullable [v] []
  | merge extra => Call.invoke load .merge [v, extra] []

end Modifier

/-- Apply modifiers one after the other. -/
def applyAll (load : Value → Build Value) (ms : List Modifier) (v : Value) : Build Value :=
  ms.foldlM (fun v m => m.call load v) v

section chains

open Build World Modifier

variable {w w' : World} {v : Value} {fields : List (String × Tree)} {flag : Bool}

/-- The value is a node whose fragment is plain, as it is when a node is made. -/
structure World.ShowsPlainNode (w : World) (v : Value) (fields : List (String × Tree))
    (flag : Bool) : Prop where
  node : w.ShowsNode v fields flag
  plain : Tree.plainFields fields = fields

variable (load : Value → Build Value)

/-- One modifier gives a node that is changed as it should be. -/
theorem Modifier.call_gives (ho : w.Owned) (h : w.ShowsPlainNode v fields flag) {m : Modifier}
    (hm : m.Fits w) : (m.call load v).Gives w fun u w' =>
      w'.ShowsPlainNode u (fieldsAfter w fields [m]) (m.flag?.getD flag) := by
  have laid {us : List (String × Tree)} (fixed : Tree.plainFields (Tree.plainFields us) =
      Tree.plainFields us) : Tree.plainFields (Entries.overlayNames fields (Tree.plainFields us)) =
        Entries.overlayNames fields (Tree.plainFields us) := by
    rw [Tree.plainFields, Entries.map_overlay, ← Tree.plainFields, ← Tree.plainFields, h.plain,
      fixed]
  cases m with
  | optional => exact (Node.withFlag_gives ho h.node true).mono fun _ _ _ hu => ⟨hu, h.plain⟩
  | required => exact (Node.withFlag_gives ho h.node false).mono fun _ _ _ hu => ⟨hu, h.plain⟩
  | nullable =>
      exact (Node.nullable_gives ho h.node h.plain).mono fun _ _ _ hu => ⟨hu, laid rfl⟩
  | merge extra =>
      obtain ⟨us, shown, -, nodes⟩ := hm
      obtain ⟨f, found, -⟩ := Node.parts?_of_node h.node.1
      have view : fieldsAfter w fields [.merge extra] =
          Entries.overlayNames fields (Tree.plainFields us) := by
        simp [fieldsAfter, fields?, shown.2]
      refine .get_bind ?_
      simp only [found, view]
      exact (Node.merge_gives ho h.node h.plain shown).mono fun _ _ _ hu =>
        ⟨hu, laid (Tree.plainFields_plainFields nodes)⟩

/-- A chain of modifiers gives its normal form. -/
theorem applyAll_gives (ho : w.Owned) (h : w.ShowsPlainNode v fields flag) {ms : List Modifier}
    (hm : ∀ m ∈ ms, m.Fits w) : (applyAll load ms v).Gives w fun u w' =>
      w'.ShowsPlainNode u (fieldsAfter w fields ms) (flagAfter flag ms) := by
  induction ms generalizing w v fields flag with
  | nil => exact .pure h
  | cons m ms ih =>
      rw [List.forall_mem_cons] at hm
      refine (Modifier.call_gives load ho h hm.1).bind fun u w₁ k hu => ?_
      refine (ih (ho.extends k) hu fun n hn => ((hm.2 n hn).extends k).1).mono fun x w₂ _ hx => ?_
      rwa [fieldsAfter_extends hm.2 k, ← fieldsAfter_cons, ← flagAfter_cons] at hx

/-- Both steps change nothing that was there, and give values that look the same. -/
def Alike (w : World) (act act' : Build Value) : Prop :=
  ∃ t, act.Gives w (fun u w' => w'.Shows u t) ∧ act'.Gives w fun u w' => w'.Shows u t

/-- Chains with the same normal form give nodes that look the same. -/
theorem applyAll_alike (ho : w.Owned) (h : w.ShowsPlainNode v fields flag) {ms ns : List Modifier}
    (hm : ∀ m ∈ ms, m.Fits w) (hn : ∀ n ∈ ns, n.Fits w)
    (content : fieldsAfter w fields ms = fieldsAfter w fields ns)
    (flags : flagAfter flag ms = flagAfter flag ns) :
    Alike w (applyAll load ms v) (applyAll load ns v) := by
  refine ⟨.node (fieldsAfter w fields ms) (flagAfter flag ms), ?_, ?_⟩
  · exact (applyAll_gives load ho h hm).mono fun u w' _ hu => hu.node.1
  · rw [content, flags]
    exact (applyAll_gives load ho h hn).mono fun u w' _ hu => hu.node.1

/-- The modifiers that a variant of a constructor stands for. -/
def Variant.modifiers : Variant → List Modifier
  | .asBuilt => []
  | .optional => [.optional]
  | .required => [.required]

/-- A variant of a constructor is the constructor with the modifiers behind it. Calls that do not go
well need not say the same, since the variants are methods of their own. -/
theorem construct_variant (c : Constructor) (variant : Variant) (args : List Value)
    (named : List (String × Value)) :
    (Call.invoke load (.construct c variant) args named).run w = .ok v w' ↔
      (Call.invoke load (.construct c .asBuilt) args named >>=
        applyAll load variant.modifiers).run w = .ok v w' := by
  cases itself : (named.lookup Call.itself).isSome with
  | true => simp [Call.invoke, Call.construct, itself, Build.fail, EStateM.run_bind]
  | false =>
      let f := Call.constructor c
      have single (m : Modifier) : applyAll load [m] = fun v => m.call load v :=
        funext fun v => bind_pure (m.call load v)
      have body (u : Variant) : Call.invoke load (.construct c u) args named =
          f.signature.bind args named >>= fun b => f.run b >>= applyAll load u.modifiers := by
        simp only [Call.invoke, Call.construct, itself, Call.Function.call, Bool.false_eq_true,
          ↓reduceIte]
        cases u with
        | asBuilt => exact congrArg _ (funext fun b => (bind_pure (f.run b)).symm)
        | optional =>
            rw [Variant.modifiers, single]
            rfl
        | required =>
            rw [Variant.modifiers, single]
            rfl
      have plain : applyAll load Variant.asBuilt.modifiers = pure := rfl
      simp only [body, plain, bind_assoc, bind_pure]

/-- Every chain of modifiers of a node gives a node with the last flag that is set and with the
fields laid over each other, and that is what its schema shows; nothing that was there is changed.
So only the order of the flags and the order of the further fields count, further fields can be
merged at once, a modifier that is applied twice is applied once, and the variants of constructors
are modifiers. -/
theorem applyAll_normal (ho : w.Owned) (h : w.ShowsPlainNode v fields flag) :
    (∀ ms, (∀ m ∈ ms, m.Fits w) → Gives (do
        let u ← applyAll load ms v
        let schema ← Call.invoke load .toSchema [u] []
        return (u, schema)) w fun r w' =>
      w'.ShowsPlainNode r.1 (fieldsAfter w fields ms) (flagAfter flag ms) ∧
        w'.Shows r.2 (.record (fieldsAfter w fields ms))) ∧
    (∀ ms ns, (∀ m ∈ ms, m.Fits w) → (∀ n ∈ ns, n.Fits w) →
      ms.filterMap flag? = ns.filterMap flag? →
      ms.filterMap (fields? w) = ns.filterMap (fields? w) →
        Alike w (applyAll load ms v) (applyAll load ns v)) ∧
    (∀ a b c, (merge a).Fits w → (merge b).Fits w →
      w.Shows c (.record (Entries.overlayNames (w.tree a).fieldsOf (w.tree b).fieldsOf)) →
        Alike w (applyAll load [merge a, merge b] v) (applyAll load [merge c] v)) ∧
    (∀ m ∈ [optional, required, nullable], Alike w (applyAll load [m, m] v) (applyAll load [m] v)) ∧
    ∀ c (variant : Variant) args named u w',
      (Call.invoke load (.construct c variant) args named).run w = .ok u w' ↔
        (Call.invoke load (.construct c .asBuilt) args named >>=
          applyAll load variant.modifiers).run w = .ok u w' := by
  refine ⟨fun ms hm => ?_, fun ms ns hm hn flags content => ?_, fun a b c ha hb hc => ?_,
    fun m hm => ?_, fun c variant args named u w' => construct_variant load c variant args named⟩
  · refine (applyAll_gives load ho h hm).bind fun u w₁ k hu => ?_
    refine (toSchema_gives load (ho.extends k) hu.node).bind fun s w₂ k₂ hs => .pure ⟨?_, hs⟩
    exact ⟨hu.node.extends k₂, hu.plain⟩
  · exact applyAll_alike load ho h hm hn (by rw [fieldsAfter, fieldsAfter, content])
      (by rw [flagAfter, flagAfter, flags])
  · obtain ⟨us, hus, distinct, nodes⟩ := ha
    obtain ⟨vs, hvs, distinct', nodes'⟩ := hb
    rw [hus.2, hvs.2, Tree.fieldsOf_record, Tree.fieldsOf_record] at hc
    have together : ∀ u ∈ Entries.overlayNames us vs, u.2.NodesPlain :=
      Entries.forall_value_overlay nodes nodes'
    have apart : ∀ m ∈ [merge a, merge b], m.Fits w := by
      simpa using ⟨⟨us, hus, distinct, nodes⟩, vs, hvs, distinct', nodes'⟩
    have once : ∀ m ∈ [merge c], m.Fits w := by
      simpa using ⟨_, hc, distinct.overlay vs, together⟩
    refine applyAll_alike load ho h apart once ?_ rfl
    have plain : Entries.Distinct (Tree.plainFields us) := by
      simpa [Entries.Distinct, Function.comp_def] using distinct
    simp only [fieldsAfter, fields?, List.filterMap_cons, List.filterMap_nil, List.foldl_cons,
      List.foldl_nil, hus.2, hvs.2, hc.2, Tree.fieldsOf_record]
    rw [Entries.overlay_assoc _ plain, ← Entries.map_overlay]
  · simp only [List.mem_cons, List.not_mem_nil, or_false] at hm
    have fits : m.Fits w := by rcases hm with rfl | rfl | rfl <;> trivial
    have twice : ∀ n ∈ [m, m], n.Fits w := by simpa using fits
    have once : ∀ n ∈ [m], n.Fits w := by simpa using fits
    refine applyAll_alike load ho h twice once ?_ ?_
    · rcases hm with rfl | rfl | rfl
      · rfl
      · rfl
      · exact Entries.insert_insert_self fields "nullable" (.bool true) (.bool true)
    · rcases hm with rfl | rfl | rfl <;> rfl

end chains

/-- A node, and a mapping that holds it under a name of its own and a type under another. -/
def chained : World :=
  { World.initial with objects := #[.mapping [(.str "type", .str "string")], .node 0 false,
      .mapping [(.str "not", .obj 1), (.str "type", .str "integer")]] }

open Build World in
theorem applyAll_normal_chained : chained.Owned ∧
    chained.ShowsPlainNode (.obj 1) [("type", .str "string")] false ∧
    Gives (do
        let u ← applyAll (fun _ => Build.fail .endless)
          [.merge (.obj 2), .optional, .nullable, .required] (.obj 1)
        let schema ← Call.invoke (fun _ => Build.fail .endless) .toSchema [u] []
        return (u, schema)) chained fun r w' =>
      let fields := [("type", .str "integer"), ("not", .record [("type", .str "string")]),
        ("nullable", .bool true)]
      w'.ShowsPlainNode r.1 fields false ∧ w'.Shows r.2 (.record fields) := by
  have owned : chained.Owned := fun _ _ => rfl
  have fragment : chained.IsData (.obj 0) := .obj (by decide) rfl rfl (fun _ h => nomatch h) (by
    change ∀ v ∈ [Value.str "type", .str "string"], _
    simp [IsData.atom])
  have node : chained.IsData (.obj 1) := .obj (by decide) rfl rfl (fun _ h => nomatch h) (by
    change ∀ v ∈ [Value.obj 0], _
    simp [fragment])
  have extra : chained.IsData (.obj 2) := .obj (by decide) rfl rfl (fun _ h => nomatch h) (by
    change ∀ v ∈ [Value.str "not", .obj 1, .str "type", .str "integer"], _
    simp [IsData.atom, node])
  have plain : chained.ShowsPlainNode (.obj 1) [("type", .str "string")] false :=
    ⟨⟨⟨node, rfl⟩, by simp [Entries.Distinct]⟩, rfl⟩
  have fits : (Modifier.merge (.obj 2)).Fits chained := by
    refine ⟨[("not", .node [("type", .str "string")] false), ("type", .str "integer")],
      ⟨extra, rfl⟩, by simp [Entries.Distinct], ?_⟩
    simp only [List.mem_cons, List.not_mem_nil, or_false, forall_eq_or_imp, forall_eq]
    exact ⟨.node rfl false, .atom _⟩
  refine ⟨owned, plain, (applyAll_normal _ owned plain).1 _ ?_⟩
  simp only [List.mem_cons, List.not_mem_nil, or_false, forall_eq_or_imp, forall_eq]
  exact ⟨fits, trivial, trivial, trivial⟩

/-- Make a node of a constructor, and compare its schema with that of the optional node. -/
def comparedFlag : Build Value := do
  let load := fun _ => Build.fail .endless
  let node ← Call.invoke load (.construct .constant .asBuilt) [.obj 3] []
  let changed ← Call.invoke load .optional [node] []
  let before ← Call.invoke load .toSchema [node] []
  let after ← Call.invoke load .toSchema [changed] []
  Call.invoke load .equal [after, before] []

/-- A node with a number among the keys of its fragment. -/
def numberedNode : Build Value := do
  let load := fun _ => Build.fail .endless
  let node ← Call.invoke load (.construct .string .asBuilt) [] []
  let fragment ← Call.invoke load .getAttribute [node, .str "fragment"] []
  let _ ← Call.invoke load .setItem [fragment, .int 5, .int 1] []
  return node

set_option maxRecDepth 4000 in
/-- A constructor inside a node is another one in every copy, and a node whose keys are no texts
cannot be made to accept nothing. -/
theorem applyAll_unlike :
    (match comparedFlag.run World.initial with
      | .ok outcome _ => some outcome
      | .error _ _ => none) = some (.bool false) ∧
    (match numberedNode.run World.initial with
      | .ok node w =>
        match (Call.invoke (fun _ => Build.fail .endless) .nullable [node] []).run w with
        | .ok _ _ => some true
        | .error _ _ => some false
      | .error _ _ => none) = some false :=
  ⟨by decide +kernel, by decide +kernel⟩

end OpenApiDoc
