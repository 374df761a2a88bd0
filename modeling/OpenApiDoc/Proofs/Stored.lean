import OpenApiDoc.Proofs.Readings
import OpenApiDoc.Proofs.Settled

/-! # What calls leave behind

A node or an operation comes from a call that makes it. What it stores then is settled: whatever would
be done to it on its way into another record has been done already.

* `World.IsKeyed` says that a value is data whose mappings tell their keys apart, as mappings do.
* `Operation.IsStored` says that a value is an operation that looks as a proper view says;
  `Operation.ofFields_brings`: all that are made of keyed data are such.
* `Obtained` says that a record comes from a call that makes one. `Obtained.state` is what such a call
  leaves behind, by induction on the calls that led to it. -/

namespace OpenApiDoc

open Build World

variable {w w' : World} {v : Value}

/-! ### Data with its keys told apart -/

namespace World

/-- The value is data, and the keys of every mapping in it are told apart. -/
structure IsKeyed (w : World) (v : Value) : Prop where
  data : w.IsData v
  keyed : (w.tree v).Keyed

theorem IsKeyed.extends (h : w.IsKeyed v) (k : w.Extends w') : w'.IsKeyed v :=
  ⟨(h.data.extends k).1, (h.data.extends k).2 ▸ h.keyed⟩

theorem Shows.isKeyed {t : Tree} (h : w.Shows v t) (keyed : t.Keyed) : w.IsKeyed v :=
  ⟨h.1, h.2 ▸ keyed⟩

theorem isKeyed_atom (w : World) (a : Atom) : w.IsKeyed (.atom a) :=
  (w.shows_atom a).isKeyed (.atom a)

/-- The parts of an object are keyed if the object is. -/
theorem IsKeyed.part {a : Addr} (h : w.IsKeyed (.obj a)) {u : Value} (hu : u ∈ (w.get a).parts) :
    w.IsKeyed u := by
  refine ⟨h.data.part hu, ?_⟩
  have view := h.data.view_tree
  have keyed := h.keyed
  cases hg : w.get a with
  | mapping es =>
      rw [h.data.tree_mapping hg] at keyed
      cases keyed with
      | mapping _ keys values =>
          obtain ⟨e, he, rfl | rfl⟩ := Object.mem_parts_mapping.mp (hg ▸ hu)
          · exact keys _ (List.mem_map_of_mem he)
          · exact values _ (List.mem_map_of_mem he)
  | list xs =>
      rw [h.data.tree_list hg] at keyed
      rw [hg] at hu
      cases keyed with
      | list each => exact each _ (List.mem_map_of_mem hu)
  | tuple xs =>
      rw [h.data.tree_tuple hg] at keyed
      rw [hg] at hu
      cases keyed with
      | tuple each => exact each _ (List.mem_map_of_mem hu)
  | node f o =>
      rw [h.data.tree_node hg] at keyed
      cases keyed with
      | model each =>
          obtain rfl : u = .obj f := by simpa [hg, Object.parts] using hu
          exact each _ List.mem_cons_self
  | operation op =>
      rw [hg, Object.view] at view
      rw [← Option.some.inj view] at keyed
      rw [hg] at hu
      cases keyed with
      | model each =>
          obtain ⟨f, hf, rfl⟩ := List.mem_map.mp hu
          exact each _ (List.mem_map_of_mem hf)
  | moment m => simp [hg, Object.parts] at hu
  | _ => simp [hg, Object.view] at view

theorem IsKeyed.entries (h : w.IsKeyed v) {es : Entries} (hm : v.mapping? w = some es) :
    ∀ e ∈ es, w.IsKeyed e.1 ∧ w.IsKeyed e.2 := by
  obtain ⟨a, rfl, hg⟩ := Value.eq_obj_of_mapping? hm
  exact fun e he => ⟨h.part (hg ▸ Object.mem_parts_key he), h.part (hg ▸ Object.mem_parts_value he)⟩

theorem IsKeyed.of_item (h : w.IsKeyed v) {items : List Input}
    (hi : Field.items? w v = some items) {x : Value} (hx : .value x ∈ items) : w.IsKeyed x := by
  cases v with
  | atom a => cases hi
  | obj a => exact h.part (h.data.item_mem_parts hi hx)

end World

theorem Tree.Keyed.record {fs : List (String × Tree)} (h : Entries.Distinct fs)
    (each : ∀ f ∈ fs, f.2.Keyed) : (Tree.record fs).Keyed :=
  .mapping (Tree.apart_record h) (List.forall_mem_map.mpr fun _ _ => .atom _)
    (List.forall_mem_map.mpr each)

/-! ### Operations -/

namespace Operation

/-- The value is an operation that looks as a proper view says, with the keys told apart. -/
def IsStored (w : World) (v : Value) : Prop :=
  ∃ V : View, V.Proper ∧ w.Shows v V.tree ∧ V.tree.Keyed

/-- The names that have been read are distinct. -/
theorem check_proper {given read : List (String × Value)} {f : Fields}
    (h : check w given read = .ok f) : (f.view w).Proper := by
  have passed := check_passed h
  have views {fs : List (String × Value)} (hd : Entries.Distinct fs) :
      Entries.Distinct (fs.map fun e => (e.1, w.tree e.2)) := by
    simpa [Entries.Distinct, Function.comp_def] using hd
  obtain ⟨r, -, responses⟩ := Field.required_ok passed.responses
  refine ⟨?_, List.forall_mem_map.mpr fun g hg => ?_, fun ps hps => ?_, fun b hb => ?_, ?_⟩
  · simpa [Fields.view, Entries.Distinct, Function.comp_def] using Field.mapping_distinct responses
  · obtain ⟨es, -, each⟩ := Field.mapping_ok responses
    obtain ⟨e, -, read⟩ := each g hg
    exact views (Field.mapping_distinct read)
  · obtain ⟨qs, hqs, rfl⟩ := Option.map_eq_some_iff.mp hps
    refine List.forall_mem_map.mpr fun q hq => ?_
    rcases Field.defaulted_ok passed.parameters with none | ⟨u, -, list⟩
    · exact absurd (none.symm.trans hqs) (by simp)
    · rw [hqs] at list
      obtain ⟨items, -, each⟩ := Field.list_ok (Field.orNone_ok list)
      obtain ⟨i, -, read⟩ := each q hq
      exact views (Field.mapping_distinct read)
  · obtain ⟨c, hc, rfl⟩ := Option.map_eq_some_iff.mp hb
    rcases Field.defaulted_ok passed.requestBody with none | ⟨u, -, read⟩
    · exact absurd (none.symm.trans hc) (by simp)
    · rw [hc] at read
      exact views (Field.mapping_distinct (Field.orNone_ok read))
  · rcases Field.defaulted_ok passed.extra with none | ⟨u, -, read⟩
    · simp [Fields.view, none, Entries.Distinct]
    · exact views (Field.mapping_distinct read)

theorem view_keyed {f : Fields} (h : f.All w.IsKeyed) (proper : (f.view w).Proper) :
    (f.view w).tree.Keyed := by
  have record {fs : List (String × Value)} (hd : Entries.Distinct (fs.map fun e => (e.1, w.tree e.2)))
      (each : ∀ e ∈ fs, w.IsKeyed e.2) : (w.recordOf fs).Keyed :=
    .record hd (List.forall_mem_map.mpr fun e he => (each e he).keyed)
  have text (s : Option String) : (s.elim Tree.none Tree.str).Keyed := by cases s <;> exact .atom _
  refine .model ?_
  simp only [View.fields, List.forall_mem_cons, List.not_mem_nil, false_implies, implies_true,
    and_true]
  refine ⟨.atom _, .atom _, .record ?_ ?_, text _, text _, ?_, ?_, ?_, record proper.extra h.extra⟩
  · simpa [Entries.Distinct, Function.comp_def] using proper.codes
  · refine List.forall_mem_map.mpr (List.forall_mem_map.mpr fun r hr => ?_)
    exact record (List.forall_mem_map.mp proper.responses r hr) (h.responses r hr)
  · change (f.tags.elim Tree.none fun ts => Tree.list (ts.map .str)).Keyed
    cases f.tags with
    | none => exact .atom _
    | some ts => exact .list (List.forall_mem_map.mpr fun _ _ => .atom _)
  · have parameters := proper.parameters
    cases hps : f.parameters with
    | none =>
        simp only [Fields.view, hps]
        exact .atom _
    | some ps =>
        simp only [Fields.view, hps, Option.map_some, Option.some.injEq, forall_eq'] at parameters ⊢
        refine .list (List.forall_mem_map.mpr (List.forall_mem_map.mpr fun p hp => ?_))
        exact record (List.forall_mem_map.mp parameters p hp) (h.parameters ps hps p hp)
  · have body := proper.requestBody
    cases hb : f.requestBody with
    | none =>
        simp only [Fields.view, hb]
        exact .atom _
    | some b =>
        simp only [Fields.view, hb, Option.map_some, Option.some.injEq, forall_eq'] at body ⊢
        exact record body (h.requestBody b hb)

theorem withTextCodes_keyed (ho : w.Owned) {responses : Value} (h : w.IsKeyed responses) :
    (withTextCodes responses).Gives w fun u w' => w'.IsKeyed u := by
  obtain ⟨u, w', run, k, data, views⟩ := withTextCodes_gives ho h.data
  refine ⟨u, w', run, k, ?_⟩
  rcases views with ⟨-, rfl⟩ | ⟨es, hm, shown⟩
  · exact h.extends k
  · refine shown.isKeyed (.record (Entries.Distinct.overlay (by simp [Entries.Distinct]) _) ?_)
    refine Entries.forall_value_overlay (by simp) (List.forall_mem_map.mpr fun e he => ?_)
    exact (h.entries hm e he).2.keyed

theorem ofFields_brings (ho : w.Owned) {given : List (String × Value)}
    (h : ∀ f ∈ given, w.IsKeyed f.2) : (ofFields given).Brings w fun u w' => IsStored w' u := by
  refine Brings.bind (Q := fun fs w' => ∀ f ∈ fs, w'.IsKeyed f.2) (Gives.brings ?_)
    fun fs w₁ k hfs => .get_bind ?_
  · refine (Gives.mapM (R := fun _ (f : String × Value) w' => w'.IsKeyed f.2)
      (fun _ _ _ _ hf k => hf.extends k) fun f hf w₁ k => ?_).mono fun fs w' _ hfs f hf => ?_
    · obtain ⟨name, v⟩ := f
      have keyed : w₁.IsKeyed v := (h _ hf).extends k
      have named {u : Value} {w'' : World} (hu : w''.IsKeyed u) :
          Gives (pure (name, u)) w'' fun e w'' => w''.IsKeyed e.2 := .pure hu
      dsimp only
      split
      · exact (withTextCodes_keyed (ho.extends k) keyed).bind fun u w'' _ hu => named hu
      · exact named keyed
    · obtain ⟨i, hi, rfl⟩ := List.mem_iff_getElem.mp hf
      exact hfs.get (hfs.length_eq ▸ hi) hi
  · cases hf : check w₁ given fs with
    | error rs => exact .throw _
    | ok f =>
        have all : f.All w₁.IsKeyed := check_all
          (fun _ _ hv hm e he => (hv.entries hm e he).2) (fun _ _ hv hi _ hx => hv.of_item hi hx)
          (fun f hf _ => hfs f hf) hf
        have data : f.All w₁.IsData := check_data (fun f hmem _ => (hfs f hmem).data) hf
        have proper := check_proper hf
        exact ((make_shows (ho.extends k) data).mono fun u w₂ _ hu =>
          ⟨_, proper, hu, view_keyed all proper⟩).brings

theorem build_brings (ho : w.Owned) {method path responses operationId summary tags parameters
    requestBody extra : Value} (h : ∀ f ∈ arguments method path responses operationId summary tags
      parameters requestBody extra, w.IsKeyed f.2) :
    (build method path responses operationId summary tags parameters requestBody extra).Brings w
      fun u w' => IsStored w' u := by
  have further : w.IsKeyed extra := h ("extra", extra) (by simp [arguments])
  refine (Value.entriesOrEmpty_denotes ho further.data.shows).brings.bind fun es w₁ k₁ read => ?_
  obtain ⟨ts, view, hes⟩ := read
  have keyed : (Tree.mapping ts).Keyed := by
    rw [Tree.entriesOrEmpty?] at view
    split at view
    · cases view
      exact .mapping .nil (by simp) (by simp)
    · obtain ⟨apart, keys, values⟩ := Tree.keyed_hereditary.entries further.keyed view
      exact .mapping apart keys values
  refine (newMapping_gives (ho.extends k₁) hes).brings.bind fun x w₂ k₂ hx => ?_
  have k := k₁.trans k₂
  have later : ∀ f ∈ arguments method path responses operationId summary tags parameters requestBody
      extra, w₂.IsKeyed f.2 := fun f hf => (h f hf).extends k
  have changed : ∀ f ∈ arguments method path responses operationId summary tags parameters requestBody
      x, w₂.IsKeyed f.2 := by
    simp only [arguments, List.forall_mem_cons] at later ⊢
    obtain ⟨method, path, responses, id, summary, tags, parameters, body, -, none⟩ := later
    exact ⟨method, path, responses, id, summary, tags, parameters, body, hx.1.isKeyed keyed, none⟩
  exact ofFields_brings (ho.extends k) changed

end Operation

/-! ### Nodes in keyed data -/

/-- Keyed data is regular if the nodes in it are settled. -/
theorem World.IsKeyed.isRegular (h : w.IsKeyed v) (nodes : ∀ a, w.Reaches v a → ∀ f o,
    w.get a = .node f o → w.IsSettled (.obj a)) : w.IsRegular v := by
  obtain ⟨data, keyed⟩ := h
  induction data with
  | atom a => exact w.isRegular_atom a
  | @obj a lt bare kind older parts ih =>
      have data := IsData.obj lt bare kind older parts
      have part (u : Value) (hu : u ∈ (w.get a).parts) : (w.tree u).Regular :=
        (ih u hu (fun b hb => nodes b (hb.part hu)) (IsKeyed.part ⟨data, keyed⟩ hu).keyed).view
      have view := data.view_tree
      cases hg : w.get a with
      | mapping es =>
          refine ⟨data, ?_⟩
          rw [data.tree_mapping hg] at keyed ⊢
          cases keyed with
          | mapping apart _ _ =>
              refine .mapping apart (List.forall_mem_map.mpr fun e he => ?_)
                (List.forall_mem_map.mpr fun e he => ?_)
              · exact part _ (hg ▸ Object.mem_parts_key he)
              · exact part _ (hg ▸ Object.mem_parts_value he)
      | list xs =>
          refine ⟨data, ?_⟩
          rw [data.tree_list hg]
          exact .list (List.forall_mem_map.mpr fun x hx => part x (by simpa [hg, Object.parts] using hx))
      | tuple xs =>
          refine ⟨data, ?_⟩
          rw [data.tree_tuple hg]
          exact .tuple (List.forall_mem_map.mpr fun x hx => part x (by simpa [hg, Object.parts] using hx))
      | moment m => exact ⟨data, data.tree_moment hg ▸ .moment m⟩
      | node f o => exact (nodes a ⟨a, rfl, .refl⟩ f o hg).isRegular
      | operation op =>
          refine ⟨data, ?_⟩
          simp only [hg, Object.view, Option.some.injEq] at view
          rw [← view]
          exact .operation (List.forall_mem_map.mpr fun f hf =>
            part f.2 (by simpa [hg, Object.parts] using ⟨f.1, hf⟩))
      | _ => simp [hg, Object.isData] at kind

/-! ### Calls -/

/-- A node or an operation comes from a call that makes one, of keyed data. The nodes in what a node is
made of come from such calls, too. Afterwards the objects that it is made of stay as they are. -/
inductive Obtained (load : Value → Build Value) : Model → World → Value → Prop
  | node {w w' : World} {f : Callee} {args : List Value} {named : List (String × Value)} {v : Value}
      (owned : w.Owned) (makes : Call.makesNodes f = true)
      (keyed : ∀ x ∈ args ++ named.map (·.2), w.IsKeyed x)
      (nodes : ∀ x ∈ args ++ named.map (·.2), ∀ a, w.Reaches x a → ∀ g o, w.get a = .node g o →
        Obtained load .node w (.obj a))
      (run : (Call.invoke load f args named).run w = .ok v w') : Obtained load .node w' v
  | operation {w w' : World} {f : Callee} {args : List Value} {named : List (String × Value)}
      {v : Value} (owned : w.Owned) (makes : f = .operation ∨ f = .operationRecord)
      (keyed : ∀ x ∈ args ++ named.map (·.2), w.IsKeyed x)
      (run : (Call.invoke load f args named).run w = .ok v w') : Obtained load .operation w' v
  | later {m : Model} {w w' : World} {v : Value} (before : Obtained load m w v)
      (same : ∀ a, w.Reaches v a → a < w'.size ∧ w'.get a = w.get a ∧ w'.attributesOf a = []) :
      Obtained load m w' v

/-- The two calls that make operations. -/
theorem Call.makes_stored (load : Value → Build Value) (ho : w.Owned) {f : Callee}
    (makes : f = .operation ∨ f = .operationRecord) {args : List Value}
    {named : List (String × Value)} (keyed : ∀ x ∈ args ++ named.map (·.2), w.IsKeyed x) :
    (invoke load f args named).Brings w fun u w' => Operation.IsStored w' u := by
  have called (g : Function) (plain : g.Plain)
      (body : ∀ b : Signature.Bound, b.All (fun f => w.IsKeyed f.2) →
        (g.run b).Brings w fun u w' => Operation.IsStored w' u) :
      (g.call args named).Brings w fun u w' => Operation.IsStored w' u := by
    have placed : ∀ v ∈ args, w.IsKeyed v := fun v hv => keyed v (List.mem_append_left _ hv)
    have values : ∀ e ∈ named, w.IsKeyed e.2 := fun e he =>
      keyed e.2 (List.mem_append_right _ (List.mem_map_of_mem he))
    rcases g.call_fits w.isKeyed_atom plain placed values with ⟨b, fits, hb⟩ | ⟨m, fails⟩
    · rw [fits.call]
      exact body b hb
    · rw [fails]
      exact .throw _
  rcases makes with rfl | rfl
  · refine called operation ?_ fun b hb => Operation.build_brings ho ?_
    · simp [Function.Plain, Signature.known, operation, optional, Value.none]
    · have arg (name : String) : w.IsKeyed (b.arg name) := hb.arg name (w.isKeyed_atom _)
      simpa [Operation.arguments] using ⟨arg _, arg _, arg _, arg _, arg _, arg _, arg _, arg _, arg _⟩
  · exact called _ (fields_plain _) fun b hb => Operation.ofFields_brings ho hb.2

/-- What a call that makes a record leaves behind. -/
def StateOf : Model → World → Value → Prop
  | .node => World.IsSettled
  | .operation => Operation.IsStored

theorem StateOf.shows {m : Model} (h : StateOf m w v) : ∃ t : Tree, w.Shows v t ∧
    ∀ w', w'.Shows v t → StateOf m w' v := by
  cases m with
  | node =>
      obtain ⟨fields, flag, shown, regular⟩ := h
      exact ⟨_, shown, fun w' later => ⟨fields, flag, later, regular⟩⟩
  | operation =>
      obtain ⟨V, proper, shown, keyed⟩ := h
      exact ⟨_, shown, fun w' later => ⟨V, proper, later, keyed⟩⟩

theorem Obtained.state {load : Value → Build Value} {m : Model} (h : Obtained load m w v) :
    StateOf m w v := by
  induction h with
  | node owned makes keyed _ run nodes =>
      refine (Call.makes_settled load owned makes (fun x hx => ?_) _ _ run).2
      exact (keyed x hx).isRegular fun a ha f o hg => nodes x hx a ha f o hg
  | operation owned makes keyed run => exact (Call.makes_stored load owned makes keyed _ _ run).2
  | later _ same state =>
      obtain ⟨t, shown, keeps⟩ := state.shows
      obtain ⟨data, look⟩ := shown.1.agree same
      exact keeps _ ⟨data, look.trans shown.2⟩

end OpenApiDoc
