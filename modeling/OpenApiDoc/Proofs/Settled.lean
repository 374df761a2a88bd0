import OpenApiDoc.Proofs.Alike
import OpenApiDoc.Proofs.Carriage
import OpenApiDoc.Proofs.Flags
import OpenApiDoc.Proofs.Modifiers
import OpenApiDoc.Proofs.Schematic

/-! # Settled nodes

A node is made of plain copies: keys are texts, tuples have become lists, and nodes have been emitted.
Whatever goes into a node, nothing of this is left to be done afterwards.

* `Build.Brings` is about the results of steps that may fail.
* `Tree.Regular` says that the keys of mappings are told apart and that the fragment of every node in a
  view is the plain view of itself. Plain views and what is emitted are regular again.
* `Tree.Hereditary.entries` is about what is read from collections of pairs.
* `World.IsSettled` says that a value is a node with a regular view.
* `Call.makes_settled`: every constructor, every modifier and the record itself give a settled node if
  what they are given is regular. All of them come down to `Node.ofFields_brings`. -/

namespace OpenApiDoc

open Build World

variable {w w' : World}

/-! ### Results of steps that may fail -/

/-- If the step gives a result, it has changed nothing that was there, and `Q` holds of the result. -/
def Build.Brings {α : Type} (act : Build α) (w : World) (Q : α → World → Prop) : Prop :=
  ∀ a w', act.run w = .ok a w' → w.Extends w' ∧ Q a w'

namespace Build

variable {α β τ : Type} {Q : α → World → Prop} {R : β → World → Prop}

theorem Gives.brings {act : Build α} (h : act.Gives w Q) : act.Brings w Q := fun _ _ run => h.ok run

/-- Of a step that keeps an invariant no more is known than of its result. -/
theorem Keeps.brings {I : World → Prop} {act : Build α} (h : act.Keeps I w Q) (hw : I w) :
    act.Brings w Q := fun _ _ run => ⟨(h.ok hw run).1, (h.ok hw run).2.2⟩

theorem Brings.pure {a : α} (h : Q a w) : (pure a : Build α).Brings w Q := (Gives.pure h).brings

theorem Brings.throw (f : Fault) : (throw f : Build α).Brings w Q := by
  rintro a w' ⟨⟩

theorem Brings.lack (v : Value) (name : String) : (Build.lack v name : Build α).Brings w Q := by
  rintro a w' ⟨⟩

theorem Brings.bind {act : Build α} {f : α → Build β} (h : act.Brings w Q)
    (hf : ∀ a w', w.Extends w' → Q a w' → (f a).Brings w' R) : (act >>= f).Brings w R := by
  intro b w₂ run
  obtain ⟨a, w₁, first, second⟩ := bind_ok run
  obtain ⟨k, ha⟩ := h a w₁ first
  obtain ⟨k', hb⟩ := hf a w₁ k ha b w₂ second
  exact ⟨k.trans k', hb⟩

theorem Brings.get_bind {f : World → Build β} (h : (f w).Brings w R) :
    ((MonadState.get : Build World) >>= f).Brings w R :=
  h

theorem Brings.mono {act : Build α} {P : α → World → Prop} (h : act.Brings w P)
    (hq : ∀ a w', w.Extends w' → P a w' → Q a w') : act.Brings w Q := by
  intro a w' run
  obtain ⟨k, ha⟩ := h a w' run
  exact ⟨k, hq a w' k ha⟩

/-- A result looks as the view of the step says. -/
theorem Denotes.brings {act : Build α} {shows : World → α → τ → Prop} {d : Option τ}
    (h : act.Denotes w shows d) : act.Brings w fun a w' => ∃ t, d = some t ∧ shows w' a t := by
  intro a w' run
  obtain ⟨t, view, k, ha⟩ := h.ok run
  exact ⟨k, t, view, ha⟩

/-- A loop that keeps a fact about the members that it has passed and what it has gathered. -/
theorem Brings.foldlM {f : β → α → Build β} {S : List α → β → World → Prop} {xs : List α} {b : β}
    (start : S [] b w) (h : ∀ x ∈ xs, ∀ passed b w', w.Extends w' → S passed b w' →
      (f b x).Brings w' (S (passed ++ [x]))) : (xs.foldlM f b).Brings w (S xs) := by
  suffices loop : ∀ ys ⊆ xs, ∀ passed b w', w.Extends w' → S passed b w' →
      (ys.foldlM f b).Brings w' (S (passed ++ ys)) by
    simpa using loop xs (List.Subset.refl xs) [] b w (.refl w) start
  intro ys
  induction ys with
  | nil => exact fun _ passed b w' _ hb => .pure (by simpa using hb)
  | cons y ys ih =>
      intro sub passed b w' k hb
      rw [List.foldlM_cons]
      refine (h y (sub (by simp)) passed b w' k hb).bind fun c w₂ k' hc => ?_
      simpa using ih (fun z hz => sub (by simp [hz])) (passed ++ [y]) c w₂ (k.trans k') hc

end Build

/-! ### Regular views -/

namespace Tree

/-- The keys of every mapping are told apart, and the fragment of every node is the plain view of
itself. -/
inductive Regular : Tree → Prop
  | atom (a : Atom) : Regular (.atom a)
  | moment (m : Moment) : Regular (.moment m)
  | list {ts : List Tree} (each : ∀ t ∈ ts, Regular t) : Regular (.list ts)
  | tuple {ts : List Tree} (each : ∀ t ∈ ts, Regular t) : Regular (.tuple ts)
  | mapping {es : List (Tree × Tree)} (apart : Apart es) (keys : ∀ e ∈ es, Regular e.1)
      (values : ∀ e ∈ es, Regular e.2) : Regular (.mapping es)
  | node {fields : List (String × Tree)} (plain : plainFields fields = fields)
      (fragment : Regular (.record fields)) (flag : Bool) : Regular (.node fields flag)
  | operation {fields : List (String × Tree)} (each : ∀ f ∈ fields, Regular f.2) :
      Regular (.model .operation fields)

theorem Regular.keyed {t : Tree} (h : t.Regular) : t.Keyed := by
  induction h with
  | atom a => exact .atom a
  | moment m => exact .moment m
  | list _ ih => exact .list ih
  | tuple _ ih => exact .tuple ih
  | mapping apart _ _ keys values => exact .mapping apart keys values
  | node _ _ flag ih => exact .model (by simpa using ⟨ih, .atom _⟩)
  | operation _ ih => exact .model ih

/-- What a regular view of a node is made of. -/
theorem Regular.node_parts {fs : List (String × Tree)} (h : (Tree.model .node fs).Regular) :
    ∃ fields flag, Tree.model .node fs = .node fields flag ∧ plainFields fields = fields ∧
      (Tree.record fields).Regular := by
  generalize view : Tree.model .node fs = t at h
  cases h with
  | node plain fragment flag => exact ⟨_, flag, rfl, plain, fragment⟩
  | _ => cases view

theorem Regular.nodesPlain {t : Tree} (h : t.Regular) : t.NodesPlain := by
  induction h with
  | atom a => exact .atom a
  | moment m => exact .moment m
  | list _ ih => exact .list ih
  | tuple _ ih => exact .tuple ih
  | mapping _ _ _ _ values => exact .mapping values
  | node plain _ flag _ => exact .node plain flag
  | operation _ _ => exact .operation _

theorem apart_record {fs : List (String × Tree)} (h : Entries.Distinct fs) :
    Apart (fs.map fun f => (.str f.1, f.2)) := by
  rw [Apart, List.pairwise_map]
  refine (List.pairwise_map.mp h).imp fun ne => ?_
  simp [same, ne]

theorem Regular.record {fs : List (String × Tree)} (h : Entries.Distinct fs)
    (each : ∀ f ∈ fs, f.2.Regular) : (record fs).Regular :=
  .mapping (apart_record h) (List.forall_mem_map.mpr fun _ _ => .atom _)
    (List.forall_mem_map.mpr each)

/-- The names in a regular fragment are distinct. -/
theorem Regular.distinct {fs : List (String × Tree)} (h : (Tree.record fs).Regular) :
    Entries.Distinct fs := by
  cases h with
  | mapping apart _ _ =>
      rw [Apart, List.pairwise_map] at apart
      refine List.pairwise_map.mpr (apart.imp fun other same => ?_)
      simp [Tree.same, same] at other

theorem Regular.plain {t : Tree} (h : t.Regular) : t.plain.Regular := by
  induction h with
  | atom a => exact .atom a
  | moment m => exact .moment m
  | list _ ih | tuple _ ih =>
      rw [Tree.plain, plainItems_eq]
      exact .list (List.forall_mem_map.mpr ih)
  | mapping apart keys _ _ values =>
      rw [Tree.plain, plainEntries_eq]
      exact .mapping (List.pairwise_map.mpr apart) (List.forall_mem_map.mpr keys)
        (List.forall_mem_map.mpr values)
  | node _ fragment flag _ =>
      rw [plain_node]
      exact fragment
  | operation each _ => exact .operation each

/-! ### What is emitted for regular views -/

theorem mem_of_mapM {α β : Type} {f : α → Option β} {xs : List α} {ys : List β}
    (h : xs.mapM f = some ys) : ∀ y ∈ ys, ∃ x ∈ xs, f x = some y := by
  induction xs generalizing ys with
  | nil =>
      cases h
      simp
  | cons x xs ih =>
      simp only [List.mapM_cons, Option.bind_eq_bind, Option.bind_eq_some_iff, Option.pure_def,
        Option.some.injEq] at h
      obtain ⟨z, first, zs, rest, rfl⟩ := h
      rw [List.forall_mem_cons]
      exact ⟨⟨x, by simp, first⟩, fun y hy => (ih rest y hy).imp fun _ hx =>
        ⟨List.mem_cons_of_mem _ hx.1, hx.2⟩⟩

theorem Apart.insert {es : List (Tree × Tree)} (h : Apart es) (k v : Tree) :
    Apart (Entries.insert same es k v) := by
  induction es with
  | nil => simp [Apart, Entries.insert]
  | cons e es ih =>
      obtain ⟨l, u⟩ := e
      obtain ⟨first, rest⟩ := List.pairwise_cons.mp h
      by_cases known : l.same k = true
      · rw [Entries.insert, if_pos known]
        exact List.pairwise_cons.mpr ⟨first, rest⟩
      · rw [Entries.insert, if_neg known]
        refine List.pairwise_cons.mpr ⟨fun f hf => ?_, ih rest⟩
        have last : ∀ e ∈ [(k, v)], l.same e.1 = false := by simpa using known
        have mem : f ∈ Entries.overlay same es [(k, v)] := hf
        exact Entries.forall_key_overlay (P := fun n => l.same n = false) first last f mem

theorem Apart.overlay {es : List (Tree × Tree)} (h : Apart es) (extra : List (Tree × Tree)) :
    Apart (Entries.overlay same es extra) := by
  induction extra generalizing es with
  | nil => exact h
  | cons e extra ih => exact ih (h.insert e.1 e.2)

/-- A property of views that goes over to the parts that a loop meets and to the values of mappings,
whose keys are told apart. -/
structure Hereditary (P : Tree → Prop) : Prop where
  loop : ∀ {t : Tree} {ts : List Tree}, P t → t.loop? = some ts → ∀ u ∈ ts, P u
  mapping : ∀ {es : List (Tree × Tree)}, P (.mapping es) → Apart es ∧ ∀ e ∈ es, P e.2

section hereditary

variable {P : Tree → Prop} {t : Tree}

theorem Hereditary.pair (h : Hereditary P) (ht : P t) {p : Tree × Tree} (hp : t.pair? = some p) :
    P p.1 ∧ P p.2 := by
  obtain ⟨ts, parts, found⟩ := Option.bind_eq_some_iff.mp hp
  have each := h.loop ht parts
  split at found
  · obtain ⟨-, -, rfl⟩ := Option.map_eq_some_iff.mp found
    simpa using each
  · cases found

/-- The entries that are read from a mapping, or from a collection of pairs. -/
theorem Hereditary.entries (h : Hereditary P) (ht : P t) {es : List (Tree × Tree)}
    (found : t.entries? = some es) : Apart es ∧ (∀ e ∈ es, P e.1) ∧ ∀ e ∈ es, P e.2 := by
  have read (loop : (t.loop?.bind fun parts =>
      (parts.mapM pair?).map (Entries.overlay same [])) = some es) :
      Apart es ∧ (∀ e ∈ es, P e.1) ∧ ∀ e ∈ es, P e.2 := by
    obtain ⟨parts, hp, view⟩ := Option.bind_eq_some_iff.mp loop
    obtain ⟨ps, pairs, rfl⟩ := Option.map_eq_some_iff.mp view
    have each : ∀ p ∈ ps, P p.1 ∧ P p.2 := by
      intro p mem
      obtain ⟨u, hu, hup⟩ := mem_of_mapM pairs p mem
      exact h.pair (h.loop ht hp u hu) hup
    exact ⟨Apart.overlay .nil ps,
      Entries.forall_key_overlay (by simp) fun p mem => (each p mem).1,
      Entries.forall_value_overlay (by simp) fun p mem => (each p mem).2⟩
  cases t with
  | mapping fs =>
      cases found
      exact ⟨(h.mapping ht).1, List.forall_mem_map.mp (h.loop ht rfl), (h.mapping ht).2⟩
  | _ => exact read found

end hereditary

/-- A loop over an atom meets atoms. -/
theorem atom_of_loop {a : Atom} {ts : List Tree} (parts : (Tree.atom a).loop? = some ts) :
    ∀ u ∈ ts, ∃ b, u = .atom b := by
  cases a <;> simp only [loop?, Option.some.injEq, reduceCtorEq] at parts <;> subst parts <;>
    exact List.forall_mem_map.mpr fun _ _ => ⟨_, rfl⟩

theorem keyed_hereditary : Hereditary Keyed where
  loop {t ts} h parts := by
    cases h with
    | atom a =>
        intro u hu
        obtain ⟨b, rfl⟩ := atom_of_loop parts u hu
        exact .atom b
    | moment m => cases parts
    | list each | tuple each =>
        cases parts
        exact each
    | mapping _ keys _ =>
        cases parts
        exact List.forall_mem_map.mpr keys
    | model each =>
        cases parts
        exact List.forall_mem_map.mpr fun f hf => .tuple (by simpa using ⟨.atom _, each f hf⟩)
  mapping h := by
    cases h with
    | mapping apart _ values => exact ⟨apart, values⟩

theorem regular_hereditary : Hereditary Regular where
  loop {t ts} h parts := by
    have pair (n : String) {u : Tree} (hu : u.Regular) : (Tree.tuple [.str n, u]).Regular :=
      .tuple (by simpa using ⟨.atom _, hu⟩)
    cases h with
    | atom a =>
        intro u hu
        obtain ⟨b, rfl⟩ := atom_of_loop parts u hu
        exact .atom b
    | moment m => cases parts
    | list each | tuple each =>
        cases parts
        exact each
    | mapping _ keys _ =>
        cases parts
        exact List.forall_mem_map.mpr keys
    | node _ fragment flag =>
        cases parts
        simpa using ⟨pair _ fragment, pair _ (.atom (.bool flag))⟩
    | operation each =>
        cases parts
        exact List.forall_mem_map.mpr fun f hf => pair f.1 (each f hf)
  mapping h := by
    cases h with
    | mapping apart _ values => exact ⟨apart, values⟩

theorem Regular.emit {t u : Tree} (h : t.Regular) (emitted : t.emit? = some u) : u.Regular := by
  have read (view : (t.entries?.map fun es => Tree.mapping (plainEntries es)) = some u) :
      u.Regular := by
    obtain ⟨es, found, rfl⟩ := Option.map_eq_some_iff.mp view
    obtain ⟨apart, keys, values⟩ := regular_hereditary.entries h found
    exact (Regular.mapping apart keys values).plain
  cases h with
  | node _ fragment flag =>
      cases emitted
      exact fragment
  | _ => exact read emitted

end Tree

/-! ### Regular values -/

namespace World

/-- The value is data with a regular view. -/
structure IsRegular (w : World) (v : Value) : Prop where
  data : w.IsData v
  view : (w.tree v).Regular

theorem IsRegular.extends {v : Value} (h : w.IsRegular v) (k : w.Extends w') : w'.IsRegular v :=
  ⟨(h.data.extends k).1, (h.data.extends k).2 ▸ h.view⟩

theorem Shows.isRegular {v : Value} {t : Tree} (h : w.Shows v t) (regular : t.Regular) :
    w.IsRegular v :=
  ⟨h.1, h.2 ▸ regular⟩

theorem isRegular_atom (w : World) (a : Atom) : w.IsRegular (.atom a) :=
  (w.shows_atom a).isRegular (.atom a)

/-- The values that these entries hold are regular. -/
def HoldRegular (w : World) (es : Entries) : Prop := ∀ e ∈ es, w.IsRegular e.2

theorem HoldRegular.extends {es : Entries} (h : w.HoldRegular es) (k : w.Extends w') :
    w'.HoldRegular es :=
  fun e he => (h e he).extends k

theorem HoldRegular.overlay {es extra : Entries} (h : w.HoldRegular es)
    (hx : w.HoldRegular extra) (same : Value → Value → Bool) :
    w.HoldRegular (Entries.overlay same es extra) :=
  Entries.forall_value_overlay h hx

/-- The entries of a regular mapping. -/
theorem IsRegular.entries {v : Value} (h : w.IsRegular v) {es : Entries}
    (hm : v.mapping? w = some es) :
    (∀ e ∈ es, w.IsRegular e.1) ∧ w.HoldRegular es ∧
      Tree.Apart (es.map fun e => (w.tree e.1, w.tree e.2)) := by
  have data := h.data.entries hm
  obtain ⟨a, rfl, hg⟩ := Value.eq_obj_of_mapping? hm
  have view := h.view
  rw [h.data.tree_mapping hg] at view
  cases view with
  | mapping apart keys values =>
      exact ⟨fun e he => ⟨(data e he).1, List.forall_mem_map.mp keys e he⟩,
        fun e he => ⟨(data e he).2, List.forall_mem_map.mp values e he⟩, apart⟩

/-- A node with a regular view. -/
def IsSettled (w : World) (v : Value) : Prop :=
  ∃ fields flag, w.Shows v (.node fields flag) ∧ (Tree.node fields flag).Regular

theorem IsSettled.isRegular {v : Value} (h : w.IsSettled v) : w.IsRegular v := by
  obtain ⟨fields, flag, shown, regular⟩ := h
  exact shown.isRegular regular

/-- The fragment of a settled node is plain and regular. -/
theorem IsSettled.plainNode {v : Value} (h : w.IsSettled v) :
    ∃ fields flag, w.ShowsPlainNode v fields flag ∧ (Tree.record fields).Regular := by
  obtain ⟨fields, flag, shown, regular⟩ := h
  obtain ⟨fields', flag', same, plain, fragment⟩ := regular.node_parts
  have shown : w.Shows v (.node fields' flag') := same ▸ shown
  exact ⟨fields', flag', ⟨⟨shown, fragment.distinct⟩, plain⟩, fragment⟩

theorem ShowsPlainNode.isSettled {v : Value} {fields : List (String × Tree)} {flag : Bool}
    (h : w.ShowsPlainNode v fields flag) (regular : (Tree.record fields).Regular) : w.IsSettled v :=
  ⟨fields, flag, h.node.1, .node h.plain regular flag⟩

end World

/-! ### Reading mappings -/

namespace Value

theorem further_brings {v : Value} (h : w.IsRegular v) :
    v.further.Brings w fun es w' => w'.HoldRegular es := by
  refine .get_bind ?_
  cases hm : v.mapping? w with
  | none => exact .throw _
  | some es => exact .pure (h.entries hm).2.1

theorem items_brings (v : Value) : v.items.Brings w fun es _ => v.mapping? w = some es := by
  refine .get_bind ?_
  cases hm : v.mapping? w with
  | none => exact .lack v "items"
  | some es => exact .pure rfl

theorem furtherOrEmpty_brings {v : Value} (h : w.IsRegular v) :
    v.furtherOrEmpty.Brings w fun es w' => w'.HoldRegular es := by
  refine .get_bind ?_
  split
  · exact .pure (by simp [HoldRegular])
  · exact further_brings h

end Value

/-! ### Making nodes -/

theorem Field.mapping_distinct {α : Type} {check : Value → Checked α} {i : Input}
    {fs : List (String × α)} (h : mapping w check i = .ok fs) : Entries.Distinct fs := by
  cases i with
  | field name v => simp [mapping, Checked.refuse] at h
  | fields given => simp [mapping, Checked.refuse] at h
  | value v =>
      simp only [mapping] at h
      split at h
      · simp [Checked.refuse] at h
      · obtain ⟨read, -, rfl⟩ := Checked.map_eq_ok.mp h
        exact Entries.Distinct.overlay (by simp [Entries.Distinct]) read

namespace Node

theorem own_settles (ho : w.Owned) {fs : List (String × Value)} (distinct : Entries.Distinct fs)
    (h : ∀ f ∈ fs, w.IsRegular f.2) : (own fs).Gives w fun a w' => ∃ fields,
      w'.Shows (.obj a) (.record fields) ∧ Tree.plainFields fields = fields ∧
        (Tree.record fields).Regular := by
  have paired := showsFields_self fun f hf => (h f hf).data
  refine (own_gives ho paired).mono fun a w' _ ha => ⟨_, ha, ?_, .record ?_ ?_⟩
  · exact Tree.plainFields_plainFields (List.forall_mem_map.mpr fun f hf => (h f hf).view.nodesPlain)
  · simpa [Entries.Distinct, Function.comp_def] using distinct
  · exact List.forall_mem_map.mpr (List.forall_mem_map.mpr fun f hf => (h f hf).view.plain)

/-- A node is settled, whatever its fragment was read from. -/
theorem ofFields_brings (ho : w.Owned) {given : List (String × Value)}
    (h : ∀ v es, given.lookup "fragment" = some v → v.mapping? w = some es → w.HoldRegular es) :
    (ofFields given).Brings w fun u w' => w'.IsSettled u := by
  refine Keeps.brings (I := Owned) (ofFields_rule (R := fun a w' => ∃ fields,
    w'.Shows (.obj a) (.record fields) ∧ Tree.plainFields fields = fields ∧
      (Tree.record fields).Regular) (fun v fs hv hm => ?_)
    fun a o w₁ _ ⟨fields, shown, plain, fragment⟩ => ?_) ho
  · obtain ⟨es, hes, read⟩ := Field.mapping_ok hm
    refine .of_gives fun ho => own_settles ho (Field.mapping_distinct hm) fun f hmem => ?_
    obtain ⟨e, he, same⟩ := read f hmem
    exact Except.ok.inj same ▸ h v es hv hes e he
  · have view : (Object.node a o).view w₁.tree = some (.node fields o) := by
      simp [Object.view, Object.nodeFields, shown.2, Tree.node]
    refine .of_gives fun ho => .new ⟨fields, o, Shows.alloc ho ?_ view, .node plain fragment o⟩
    simpa [Object.parts] using shown.1

theorem ofEntries_brings (ho : w.Owned) {es : Entries} (h : w.HoldRegular es) (o : Bool) :
    (ofEntries es o).Brings w fun u w' => w'.IsSettled u := by
  have made : (newMapping es).Gives w fun u w' => u.mapping? w' = some es :=
    (Gives.new (Q := fun a w' => w'.get a = .mapping es) (w.get_alloc_same _)).bind
      fun a w' _ ha => .pure (Value.mapping?_of_get ha)
  refine made.brings.bind fun u w₁ k hu => ofFields_brings (ho.extends k) fun v fs hv hfs => ?_
  obtain rfl : u = v := by simpa using hv
  cases hu.symm.trans hfs
  exact h.extends k

theorem emit_brings (ho : w.Owned) {v : Value} (h : w.IsRegular v) :
    (emit v).Brings w fun u w' => w'.IsRegular u :=
  (emit_denotes ho h.data.shows).brings.mono fun _ _ _ ⟨_, emitted, hu⟩ =>
    hu.isRegular (h.view.emit emitted)

/-- A regular value is no node, or it is a settled one. -/
theorem settled_of_parts {v : Value} (h : w.IsRegular v) {p : Addr × Bool}
    (hp : parts? w v = some p) : w.IsSettled v := by
  obtain ⟨a, rfl, hg⟩ := parts?_eq hp
  have look := h.data.tree_node hg
  obtain ⟨fields, flag, same, plain, fragment⟩ := (look ▸ h.view).node_parts
  exact ⟨fields, flag, ⟨h.data, look.trans same⟩, .node plain fragment flag⟩

theorem withFlag_brings (ho : w.Owned) {v : Value} (h : w.IsRegular v) (o : Bool) :
    (withFlag v o).Brings w fun u w' => w'.IsSettled u := by
  cases hp : parts? w v with
  | none =>
      refine .get_bind ?_
      rw [hp]
      cases v <;> exact .throw _
  | some p =>
      obtain ⟨fields, flag, shown, fragment⟩ := (settled_of_parts h hp).plainNode
      exact ((withFlag_gives ho shown.node o).mono fun _ _ _ hu =>
        ShowsPlainNode.isSettled ⟨hu, shown.plain⟩ fragment).brings

theorem merge_brings (ho : w.Owned) {v extra : Value} (h : w.IsRegular v)
    (hx : w.IsRegular extra) : (merge v extra).Brings w fun u w' => w'.IsSettled u := by
  refine .get_bind ?_
  cases hp : parts? w v with
  | none => exact .lack v "merge"
  | some p =>
      obtain ⟨a, rfl, hg⟩ := parts?_eq hp
      have settled := settled_of_parts h hp
      obtain ⟨fields, flag, shown, fragment⟩ := settled.plainNode
      obtain ⟨f, hf, look⟩ := parts?_of_node shown.node.1
      obtain rfl : p = (f, flag) := Option.some.inj (hp.symm.trans hf)
      have own := look.isRegular fragment
      refine .get_bind ?_
      split
      · exact .pure settled
      · refine (Value.further_brings own).bind fun es w₁ k₁ hes => ?_
        refine (Value.further_brings (hx.extends k₁)).bind fun fs w₂ k₂ hfs => .get_bind ?_
        exact ofEntries_brings ((ho.extends k₁).extends k₂) ((hes.extends k₂).overlay hfs _) flag

theorem nullable_brings (ho : w.Owned) {v : Value} (h : w.IsRegular v) :
    (nullable v).Brings w fun u w' => w'.IsSettled u := by
  refine .get_bind ?_
  cases parts? w v with
  | none => exact .throw _
  | some p =>
      have flag : Entries.Paired w.Shows [("nullable", .bool true)] [("nullable", .bool true)] :=
        .cons ⟨rfl, shows_atom w _⟩ .nil
      refine (newMapping_gives ho (showsEntries_named flag)).brings.bind fun x w₁ k hx => ?_
      refine merge_brings (ho.extends k) (h.extends k) (hx.1.isRegular (.record ?_ ?_))
      · simp [Entries.Distinct]
      · simpa using Tree.Regular.atom _

end Node

/-! ### Constructors -/

namespace Schema

variable {description extra : Value}

theorem node_brings (ho : w.Owned) {fs : List (String × Value)} (hf : ∀ f ∈ fs, w.IsRegular f.2)
    (hx : w.IsRegular extra) : (node fs extra).Brings w fun u w' => w'.IsSettled u := by
  have generated : w.HoldRegular (Entries.named (fs.filter fun f => !f.2.isNone)) :=
    List.forall_mem_map.mpr fun f hmem => hf f (List.mem_filter.mp hmem).1
  refine (Value.furtherOrEmpty_brings hx).bind fun es w₁ k hes => .get_bind ?_
  exact Node.ofEntries_brings (ho.extends k) ((generated.extends k).overlay hes _) false

theorem text_regular (w : World) (s : Option String) : w.IsRegular (textOrNone s) := by
  cases s <;> exact w.isRegular_atom _

theorem newList_regular (ho : w.Owned) {xs : List Value} (h : ∀ x ∈ xs, w.IsRegular x) :
    (Build.newList xs).Gives w fun u w' => w'.IsRegular u :=
  (newList_gives ho (showsAll_map fun x hx => (h x hx).data)).mono fun _ _ _ hu =>
    hu.isRegular (.list (List.forall_mem_map.mpr fun x hx => (h x hx).view))

theorem leaf_brings (ho : w.Owned) (type : String) (format : Option String)
    (hd : w.IsRegular description) (hx : w.IsRegular extra) :
    (leaf type format description extra).Brings w fun u w' => w'.IsSettled u := by
  refine node_brings ho ?_ hx
  simpa using ⟨w.isRegular_atom _, text_regular w format, hd⟩

theorem pattern_brings (ho : w.Owned) (regex : Value) (hd : w.IsRegular description)
    (hx : w.IsRegular extra) :
    (pattern regex description extra).Brings w fun u w' => w'.IsSettled u := by
  have of_source (source : String) : (node [("type", .str "string"), ("description", description),
      ("pattern", .str source)] extra).Brings w fun u w' => w'.IsSettled u :=
    node_brings ho (by simpa using ⟨w.isRegular_atom _, hd, w.isRegular_atom _⟩) hx
  cases regex with
  | obj a => exact .throw _
  | atom a =>
      cases a with
      | pattern source => exact of_source source
      | str source => exact of_source source
      | _ => exact .throw _

theorem constant_brings (ho : w.Owned) {value : Value} (hv : w.IsRegular value)
    (hd : w.IsRegular description) (hx : w.IsRegular extra) :
    (constant value description extra).Brings w fun u w' => w'.IsSettled u := by
  refine (newList_regular ho (by simpa using hv)).brings.bind fun u w₁ k hu => ?_
  refine node_brings (ho.extends k) ?_ (hx.extends k)
  simpa using ⟨text_regular w₁ _, hd.extends k, hu⟩

theorem choice_brings (ho : w.Owned) {values : Value} (hv : w.IsRegular values)
    (hx : w.IsRegular extra) : (choice values extra).Brings w fun u w' => w'.IsSettled u := by
  refine .get_bind ?_
  split
  · exact .throw _
  · refine (Value.iterate_denotes ho hv.data.shows).brings.bind fun ks w₁ k₁ hks => ?_
    obtain ⟨ts, loop, hks⟩ := hks
    refine (Document.items_denotes (hv.data.shows.extends k₁)).brings.bind fun es w₂ k₂ _ => ?_
    refine .get_bind ?_
    obtain ⟨data, rfl⟩ := showsAll_tree hks
    have keys (x : Value) (hmem : x ∈ ks) : w₂.IsRegular x :=
      IsRegular.extends ⟨data x hmem, Tree.regular_hereditary.loop hv.view loop _ (List.mem_map_of_mem hmem)⟩ k₂
    have ho₂ := (ho.extends k₁).extends k₂
    refine (newList_regular ho₂ keys).brings.bind fun u w₃ k₃ hu => ?_
    refine node_brings (ho₂.extends k₃) ?_ (hx.extends ((k₁.trans k₂).trans k₃))
    simpa using ⟨text_regular w₃ _, w₃.isRegular_atom _, hu⟩

theorem ref_brings (ho : w.Owned) (target : Value) :
    (ref target).Brings w fun u w' => w'.IsSettled u := by
  cases target with
  | obj a => exact .lack _ _
  | atom a =>
      cases a with
      | str s =>
          exact Node.ofEntries_brings ho (List.forall_mem_map.mpr (by simpa using w.isRegular_atom _)) false
      | bytes bs => exact .throw _
      | _ => exact .lack _ _

theorem array_brings (ho : w.Owned) {items : Value} (hi : w.IsRegular items)
    (hd : w.IsRegular description) (hx : w.IsRegular extra) :
    (array items description extra).Brings w fun u w' => w'.IsSettled u := by
  refine (Node.emit_brings ho hi).bind fun u w₁ k hu => ?_
  refine node_brings (ho.extends k) ?_ (hx.extends k)
  simpa using ⟨w₁.isRegular_atom _, hd.extends k, hu⟩

/-- The properties are emitted one after the other, under the names of the children. -/
theorem properties_brings (ho : w.Owned) {children : Entries} (h : w.HoldRegular children) :
    (properties children).Brings w fun p w' => (∃ fs, p.1 = Entries.named fs ∧
      (fs.map fun f => Value.str f.1) = children.map (·.1) ∧ ∀ f ∈ fs, w'.IsRegular f.2) ∧
      ∀ v ∈ p.2, w'.IsRegular v := by
  refine Brings.foldlM (S := fun (passed : Entries) (p : Entries × List Value) w' => (∃ fs,
    p.1 = Entries.named fs ∧ (fs.map fun f => Value.str f.1) = passed.map (·.1) ∧
    ∀ f ∈ fs, w'.IsRegular f.2) ∧ ∀ v ∈ p.2, w'.IsRegular v)
    ⟨⟨[], rfl, rfl, by simp⟩, by simp⟩ fun child hmem passed acc w₁ k hacc => ?_
  obtain ⟨⟨fs, emitted, names, regular⟩, needed⟩ := hacc
  obtain ⟨key, value⟩ := child
  cases key with
  | obj a => exact .throw _
  | atom a =>
      cases a with
      | str s =>
          have child : w₁.IsRegular value := (h _ hmem).extends k
          refine (Node.emit_brings (ho.extends k) child).bind fun u w₂ k₂ hu => .get_bind ?_
          refine .pure ⟨⟨fs ++ [(s, u)], by simp [emitted, Entries.named], by simp [names], ?_⟩, ?_⟩
          · rw [List.forall_mem_append, List.forall_mem_singleton]
            exact ⟨fun f hf => (regular f hf).extends k₂, hu⟩
          · have before : ∀ v ∈ acc.2, w₂.IsRegular v := fun v hv => (needed v hv).extends k₂
            split
            · rw [List.forall_mem_append, List.forall_mem_singleton]
              exact ⟨before, w₂.isRegular_atom _⟩
            · exact before
      | _ => exact .throw _

theorem object_brings (ho : w.Owned) {children : Value} (hc : w.IsRegular children)
    (hd : w.IsRegular description) (hx : w.IsRegular extra) :
    (object children description extra).Brings w fun u w' => w'.IsSettled u := by
  refine (Value.items_brings children).bind fun es w₀ k₀ hm => ?_
  obtain ⟨-, values, apart⟩ := hc.entries hm
  refine (properties_brings (ho.extends k₀) (values.extends k₀)).bind fun p w₁ k' hp => ?_
  have k₁ := k₀.trans k'
  obtain ⟨emitted, names⟩ := p
  obtain ⟨⟨fs, rfl, keys, regular⟩, needed⟩ := hp
  have distinct : Entries.Distinct fs := by
    have apart : (es.map (·.1)).Pairwise fun k l => (w.tree k).same (w.tree l) = false := by
      rw [List.pairwise_map]
      exact List.pairwise_map.mp apart
    rw [← keys, List.pairwise_map] at apart
    refine List.pairwise_map.mpr (apart.imp fun other same => ?_)
    simp [Tree.same, same] at other
  have finish (list : Value) (w₂ : World) (k₂ : w₁.Extends w₂) (hl : w₂.IsRegular list) :
      Build.Brings (do
        node [("type", .str "object"), ("additionalProperties", .bool false),
          ("required", list), ("properties", ← Build.newMapping (Entries.named fs)),
          ("description", description)] extra) w₂ fun u w' => w'.IsSettled u := by
    have k := k₁.trans k₂
    have later := fun f hf => (regular f hf).extends k₂
    have shown := showsEntries_named (showsFields_self fun f hf => (later f hf).data)
    refine (newMapping_gives (ho.extends k) shown).brings.bind fun u w₃ k₃ hu => ?_
    have properties : w₃.IsRegular u := hu.1.isRegular (.record
      (by simpa [Entries.Distinct, Function.comp_def] using distinct)
      (List.forall_mem_map.mpr fun f hf => (later f hf).view))
    have grown := k.trans k₃
    refine node_brings (ho.extends grown) ?_ (hx.extends grown)
    simpa using ⟨w₃.isRegular_atom _, w₃.isRegular_atom _, hl.extends k₃, properties,
      hd.extends grown⟩
  by_cases none : names.isEmpty
  · simp only [none, if_true, pure_bind]
    exact finish Value.none w₁ (.refl w₁) (w₁.isRegular_atom _)
  · simp only [none]
    exact (newList_regular (ho.extends k₁) needed).brings.bind fun u w₂ k₂ hu => finish u w₂ k₂ hu

end Schema

/-! ### Calls -/

namespace Call

variable {b : Signature.Bound} {f : Callee} {args : List Value} {named : List (String × Value)}

theorem constructor_brings (ho : w.Owned) (hb : b.All fun f => w.IsRegular f.2) (c : Constructor) :
    ((constructor c).run b).Brings w fun u w' => w'.IsSettled u := by
  have regular (name : String) : w.IsRegular (b.arg name) := hb.arg name (w.isRegular_atom _)
  have described := regular "description"
  have extra := regular "extra"
  cases c with
  | pattern => exact Schema.pattern_brings ho _ described extra
  | constant => exact Schema.constant_brings ho (regular "value") described extra
  | choice => exact Schema.choice_brings ho (regular "values") extra
  | ref => exact Schema.ref_brings ho _
  | array => exact Schema.array_brings ho (regular "items") described extra
  | object => exact Schema.object_brings ho (regular "properties") described extra
  | _ => exact Schema.leaf_brings ho _ _ described extra

theorem variant_brings (ho : w.Owned) (hb : b.All fun f => w.IsRegular f.2) (c : Constructor)
    (v : Variant) : ((variant c v).run b).Brings w fun u w' => w'.IsSettled u := by
  have built := constructor_brings ho hb c
  cases v with
  | asBuilt => exact built
  | optional | required =>
      exact built.bind fun u w₁ k hu => Node.withFlag_brings (ho.extends k) hu.isRegular _

theorem Function.call_brings {g : Function} {Q : Value → World → Prop} (plain : g.Plain)
    (ha : ∀ v ∈ args, w.IsRegular v) (hn : ∀ f ∈ named, w.IsRegular f.2)
    (h : ∀ b : Signature.Bound, b.All (fun f => w.IsRegular f.2) → (g.run b).Brings w Q) :
    (g.call args named).Brings w Q := by
  rcases g.call_fits w.isRegular_atom plain ha hn with ⟨b, fits, hb⟩ | ⟨m, fails⟩
  · rw [fits.call]
    exact h b hb
  · rw [fails]
    exact .throw _

/-- Every call that makes a node of regular values gives a settled one. -/
theorem makes_settled (load : Value → Build Value) (ho : w.Owned) (makes : makesNodes f = true)
    (given : ∀ v ∈ args ++ named.map (·.2), w.IsRegular v) :
    (invoke load f args named).Brings w fun u w' => w'.IsSettled u := by
  have placed : ∀ v ∈ args, w.IsRegular v := fun v hv => given v (List.mem_append_left _ hv)
  have called : ∀ e ∈ named, w.IsRegular e.2 := fun e he =>
    given e.2 (List.mem_append_right _ (List.mem_map_of_mem he))
  have node {b : Signature.Bound} (hb : b.All fun f => w.IsRegular f.2) :
      w.IsRegular (b.arg "node") := hb.arg "node" (w.isRegular_atom _)
  cases f with
  | construct c v =>
      change (Call.construct c v args named).Brings w _
      unfold Call.construct
      split
      · exact .throw _
      · exact Function.call_brings (variant_plain c v) placed called fun b hb =>
          variant_brings ho hb c v
  | optional | required =>
      exact Function.call_brings (function_plain _ _ _ _) placed called fun b hb =>
        Node.withFlag_brings ho (node hb) _
  | nullable =>
      exact Function.call_brings (function_plain _ _ _ _) placed called fun b hb =>
        Node.nullable_brings ho (node hb)
  | schemaNode =>
      refine Function.call_brings (fields_plain _) placed called fun b hb =>
        Node.ofFields_brings ho fun v es hv hm => ?_
      exact ((hb.2 _ (Entries.mem_of_lookup hv)).entries hm).2.1
  | merge =>
      change (method .node "merge" ["extra"] [] _ _ args named).Brings w _
      cases args with
      | nil => exact .throw _
      | cons self rest =>
          refine .get_bind ?_
          cases Node.parts? w self with
          | none => exact .lack self "merge"
          | some found =>
              have merged := Function.call_brings (Q := fun u w' => w'.IsSettled u)
                (function_plain (Model.node.name ++ ".merge") [itself, "extra"] []
                  fun b => Node.merge self (b.arg "extra")) placed called fun b hb =>
                Node.merge_brings ho (placed self (by simp))
                  (hb.arg "extra" (w.isRegular_atom _))
              exact merged
  | _ => cases makes

end Call
end OpenApiDoc
