import OpenApiDoc.Proofs.Isolation
import OpenApiDoc.Proofs.Places
import OpenApiDoc.Proofs.Records

/-! # What operations carry

A response, a request body or a parameter that goes into an operation stands in the operation object,
in the map of paths and in the document as it was.

* `Operation.build_carries`: an operation is made of data that looks like its arguments.
* `Operation.written_at`, `Paths.build_at` and `Document.build_at` say where this stands afterwards. -/

namespace OpenApiDoc

open Build World

variable {w w' w₁ : World} {v : Value}

theorem Build.Denotes.ok {α τ : Type} {act : Build α} {shows : World → α → τ → Prop} {d : Option τ}
    (h : act.Denotes w shows d) {a : α} (run : act.run w = .ok a w') :
    ∃ t, d = some t ∧ w.Extends w' ∧ shows w' a t := by
  cases d with
  | none => exact absurd run (h a w')
  | some t => exact ⟨t, rfl, Gives.ok h run⟩

/-- The entries of a mapping that is data are data. -/
theorem World.IsData.entries (h : w.IsData v) {es : Entries} (hm : v.mapping? w = some es) :
    ∀ e ∈ es, w.IsData e.1 ∧ w.IsData e.2 := by
  obtain ⟨a, rfl, hg⟩ := Value.eq_obj_of_mapping? hm
  exact fun e he => ⟨h.part (hg ▸ Object.mem_parts_key he), h.part (hg ▸ Object.mem_parts_value he)⟩

/-- What is read from the items of data are its parts. -/
theorem World.IsData.item_mem_parts {a : Addr} (h : w.IsData (.obj a)) {items : List Input}
    (hi : Field.items? w (.obj a) = some items) {x : Value} (hx : .value x ∈ items) :
    x ∈ (w.get a).parts := by
  have plain (t : String) (ps : Option (List Value)) : w.get a ≠ .machinery t ps := fun hg => by
    simpa [hg, Object.isData] using h.kind
  obtain ⟨xs, hg | hg, mem⟩ := Field.value_of_items plain hi hx <;> exact hg ▸ mem

/-- A list of data is read from data. -/
theorem World.IsData.of_item (h : w.IsData v) {items : List Input}
    (hi : Field.items? w v = some items) {x : Value} (hx : .value x ∈ items) : w.IsData x := by
  cases v with
  | atom a => cases hi
  | obj a => exact h.part (h.item_mem_parts hi hx)

/-! ### The checks of fields -/

namespace Checked

variable {α β : Type}

theorem all_paired {f : α → Checked β} {xs : List α} {ys : List β} (h : all (xs.map f) = .ok ys) :
    List.Forall₂ (fun x y => f x = .ok y) xs ys := by
  induction xs generalizing ys with
  | nil =>
      obtain rfl : [] = ys := by simpa [all] using h
      exact .nil
  | cons x xs ih =>
      simp only [List.map_cons, all, map_eq_ok, both_eq_ok] at h
      obtain ⟨p, ⟨first, rest⟩, rfl⟩ := h
      exact .cons first (ih rest)

theorem require_ok {m : Model} {c : Checked α} {a : α} (h : (c.require m).run w = .ok a w') :
    c = .ok a ∧ w' = w := by
  cases c with
  | ok b =>
      cases h
      exact ⟨rfl, rfl⟩
  | error rs => cases h

end Checked

namespace Field

variable {α : Type}

/-- What is read from a mapping from names, name by name. -/
theorem mapping_paired {check : Value → Checked α} {fs : List (String × Value)}
    {gs : List (String × α)} (hm : v.mapping? w = some (Entries.named fs))
    (hd : Entries.Distinct fs) (h : mapping w check (.value v) = .ok gs) :
    Entries.Paired (fun x y => check x = .ok y) fs gs := by
  simp only [mapping, hm, Checked.map_eq_ok] at h
  obtain ⟨read, all, rfl⟩ := h
  rw [Entries.named, List.map_map] at all
  have paired : Entries.Paired (fun x y => check x = .ok y) fs read :=
    (Checked.all_paired all).imp fun f g hg => by
      simp only [Function.comp_apply, entry, Checked.both_eq_ok, Checked.under_eq_ok, text,
        Except.ok.injEq] at hg
      exact hg
  have distinct : Entries.Distinct read := by rwa [Entries.Distinct, ← paired.keys]
  show Entries.Paired _ fs (Entries.overlayNames [] read)
  rwa [Entries.overlay_nil_left distinct]

/-- The names that are read are those of the keys. -/
theorem mapping_names {check : Value → Checked α} {es : Entries} {gs : List (String × α)}
    (hm : v.mapping? w = some es) (h : mapping w check (.value v) = .ok gs) :
    ∀ g ∈ gs, ∃ e ∈ es, text (.value e.1) = .ok g.1 := by
  simp only [mapping, hm, Checked.map_eq_ok] at h
  obtain ⟨read, all, rfl⟩ := h
  refine Entries.forall_key_overlay (P := fun n => ∃ e ∈ es, text (.value e.1) = .ok n)
    (by simp) fun g hg => ?_
  obtain ⟨e, he, hge⟩ := List.mem_map.mp (Checked.mem_of_all all g hg)
  simp only [entry, Checked.both_eq_ok, Checked.under_eq_ok] at hge
  exact ⟨e, he, hge.1⟩

/-- A mapping from names is read as it is. -/
theorem mapping_record {ts : List (String × Tree)} {fs : List (String × Value)}
    (h : w.Shows v (.record ts)) (hd : Entries.Distinct ts)
    (read : mapping w any (.value v) = .ok fs) : w.recordOf fs = .record ts := by
  obtain ⟨a, gs, rfl, hg, hgs⟩ := h.record
  have distinct : Entries.Distinct gs := by rwa [Entries.Distinct, hgs.keys]
  have known := Node.mapping_named w (v := .obj a) (Value.mapping?_of_get hg) distinct
  obtain rfl : gs = fs := by simpa using known.symm.trans read
  rw [recordOf, (paired_tree hgs).2]

theorem orNone_given {check : Input → Checked α} {a : Addr} {x : Option α}
    (h : orNone check (.value (.obj a)) = .ok x) :
    ∃ y, x = some y ∧ check (.value (.obj a)) = .ok y := by
  simp only [orNone, Checked.map_eq_ok] at h
  obtain ⟨y, hy, rfl⟩ := h
  exact ⟨y, rfl, hy⟩

/-- What is read from a list or a tuple, item by item. -/
theorem list_paired {check : Input → Checked α} {xs : List Value} {ys : List α}
    (hx : v.items? w = some xs) (h : list w check (.value v) = .ok ys) :
    List.Forall₂ (fun x y => check (.value x) = .ok y) xs ys := by
  have items : items? w v = some (xs.map .value) := by
    cases v with
    | atom a => cases hx
    | obj a => cases hg : w.get a <;> simp_all [Value.items?, items?]
  simp only [list, items] at h
  have numbered := (Checked.all_paired h).imp (S := fun (p : Input × Nat) y =>
    check p.1 = .ok y) fun p y hp => Checked.under_eq_ok.mp hp
  have read : List.Forall₂ (fun i y => check i = .ok y) ((xs.map Input.value).zipIdx.map (·.1)) ys :=
    List.forall₂_map_left_iff.mpr numbered
  rwa [List.zipIdx_map_fst, List.forall₂_map_left_iff] at read

end Field

/-! ### Making operations -/

namespace Operation

theorem check_data {given read : List (String × Value)}
    (hr : ∀ f ∈ read, f.1 ∈ collected → w.IsData f.2) {f : Fields}
    (h : check w given read = .ok f) : f.All w.IsData :=
  check_all (fun _ _ hv hm e he => (hv.entries hm e he).2) (fun _ _ hv hi _ hx => hv.of_item hi hx)
    hr h

/-- The responses under the texts of their codes. -/
def codedViews (w : World) (es : Entries) : List (String × Tree) :=
  Entries.literal (es.map fun e => (w.text e.1, w.tree e.2))

theorem codedViews_extends {responses : Value} (h : w.IsData responses) {es : Entries}
    (hm : responses.mapping? w = some es) (k : w.Extends w') :
    codedViews w' es = codedViews w es := by
  rw [codedViews, codedViews]
  refine congrArg Entries.literal (List.map_congr_left fun e he => ?_)
  obtain ⟨key, value⟩ := h.entries hm e he
  rw [World.text, World.text, (key.extends k).2, (value.extends k).2]

/-- Responses that are no mapping are left as they are. -/
theorem withTextCodes_gives (ho : w.Owned) {responses : Value} (h : w.IsData responses) :
    (withTextCodes responses).Gives w fun u w' => w'.IsData u ∧
      ((responses.mapping? w = none ∧ u = responses) ∨ ∃ es, responses.mapping? w = some es ∧
        w'.Shows u (.record (codedViews w es))) := by
  refine .get_bind ?_
  cases hm : responses.mapping? w with
  | none => exact .pure ⟨h, .inl ⟨rfl, rfl⟩⟩
  | some es =>
      have coded : Gives (es.mapM fun e => do return ((← get).text e.1, ← e.2.copy)) w
          fun fs w' => w'.ShowsFields fs (es.map fun e => (w.text e.1, w.tree e.2)) := by
        refine (Gives.mapM (R := fun (e : Value × Value) (f : String × Value) w' =>
          f.1 = w.text e.1 ∧ w'.Shows f.2 (w.tree e.2)) (fun _ _ _ _ hf k =>
          ⟨hf.1, hf.2.extends k⟩) fun e he w₁ k => .get_bind ?_).mono fun fs w' _ hfs => ?_
        · obtain ⟨key, value⟩ := h.entries hm e he
          have same : w₁.text e.1 = w.text e.1 := congrArg Tree.text (key.extends k).2
          refine (Value.copy_gives (ho.extends k) (value.shows.extends k)).bind
            fun u w₂ _ hu => .pure ⟨same, hu⟩
        · exact List.forall₂_map_right_iff.mpr (hfs.flip.imp fun _ _ hf => hf)
      refine coded.bind fun fs w₁ k hfs => ?_
      have none : Entries.Paired w₁.Shows [] [] := .nil
      have shown := showsEntries_named (none.overlay hfs)
      exact (newMapping_gives (ho.extends k) shown).mono fun u w₂ _ hu =>
        ⟨hu.1.1, .inr ⟨es, rfl, hu.1⟩⟩

/-- What the stored operation looks like, by the fields that it was made from. -/
structure Holds (w : World) (f : Fields) (w' : World) (v : Value) (op : Operation) : Prop where
  operation : w'.IsOperation v op
  method : op.method = f.method
  path : op.path = f.path
  responses : w'.tree (.obj op.responses) = .record (f.responses.map fun r => (r.1, w.recordOf r.2))
  parameters : ∀ ps, f.parameters = some ps →
    ∃ a, op.parameters = some a ∧ w'.tree (.obj a) = .list (ps.map w.recordOf)
  requestBody : ∀ b, f.requestBody = some b →
    ∃ a, op.requestBody = some a ∧ w'.tree (.obj a) = w.recordOf b
  extra : w'.tree (.obj op.extra) = w.recordOf f.extra

theorem make_holds (ho : w.Owned) {f : Fields} (h : f.All w.IsData) :
    (make f).Gives w fun v w' => ∃ op, Holds w f w' v op := by
  refine (make_shows ho h).mono fun v w' _ shown => ?_
  obtain ⟨a, op, rfl, hg, held⟩ := View.held shown
  refine ⟨op, held.isOperation shown.1 hg, held.method, held.path, ?_, fun ps hps => ?_,
    fun b hb => ?_, held.extra.2⟩
  · rw [held.responses.2, Fields.view, List.map_map]
    rfl
  · have list := held.parameters
    rw [Fields.view, hps, Option.map_some, Option.elim_some, List.map_map] at list
    exact (shows_optional list (by simp)).imp fun _ ha => ⟨ha.1, ha.2.2⟩
  · have body := held.requestBody
    rw [Fields.view, hb, Option.map_some, Option.elim_some] at body
    exact (shows_optional body (by simp [Tree.record])).imp fun _ ha => ⟨ha.1, ha.2.2⟩

/-- The arguments of an operation under their names. -/
def arguments (method path responses operationId summary tags parameters requestBody
    extra : Value) : List (String × Value) :=
  [("method", method), ("path", path), ("responses", responses), ("operation_id", operationId),
    ("summary", summary), ("tags", tags), ("parameters", parameters), ("request_body", requestBody),
    ("extra", extra)]

/-- All arguments but one are read as they are. -/
theorem ofFields_arguments (method path responses operationId summary tags parameters requestBody
    extra : Value) :
    ofFields (arguments method path responses operationId summary tags parameters requestBody extra) =
      withTextCodes responses >>= fun coded => MonadState.get >>= fun w =>
        (check w
          (arguments method path responses operationId summary tags parameters requestBody extra)
          (arguments method path coded operationId summary tags parameters requestBody extra)).require
          .operation >>= make := by
  simp only [ofFields, arguments, List.mapM_cons, List.mapM_nil, bind_pure_comp, map_pure,
    Prod.mk.eta, String.reduceEq, ↓reduceIte, Functor.map_map, pure_bind, bind_map_left]

/-- How a call goes that gives an operation. -/
theorem build_steps {method path responses operationId summary tags parameters requestBody
    extra : Value} (run : (build method path responses operationId summary tags parameters
      requestBody extra).run w = .ok v w') :
    ∃ es w₁ x w₂ coded w₃ f, extra.entriesOrEmpty.run w = .ok es w₁ ∧
      (newMapping es).run w₁ = .ok x w₂ ∧ (withTextCodes responses).run w₂ = .ok coded w₃ ∧
      check w₃ (arguments method path responses operationId summary tags parameters requestBody x)
        (arguments method path coded operationId summary tags parameters requestBody x) = .ok f ∧
      (make f).run w₃ = .ok v w' := by
  obtain ⟨es, w₁, entries, run⟩ := bind_ok run
  obtain ⟨x, w₂, copied, run⟩ := bind_ok run
  change (ofFields (arguments _ _ _ _ _ _ _ _ _)).run w₂ = _ at run
  rw [ofFields_arguments] at run
  obtain ⟨coded, w₃, stringified, run⟩ := bind_ok run
  obtain ⟨w₄, w₅, here, run⟩ := bind_ok run
  cases here
  obtain ⟨f, w₆, passed, made⟩ := bind_ok run
  obtain ⟨checked, rfl⟩ := Checked.require_ok passed
  exact ⟨es, w₁, x, w₂, coded, _, f, entries, copied, stringified, checked, made⟩

/-- Nothing, or a mapping none of whose keys is read as the name. -/
def Unread (w : World) (v : Value) (name : String) : Prop :=
  v = .none ∨ ∃ es, v.mapping? w = some es ∧ ∀ e ∈ es, Field.text (.value e.1) ≠ .ok name

theorem Unread.entries {name : String} (h : Unread w v name) {es : Entries}
    (run : v.entriesOrEmpty.run w = .ok es w') : ∀ e ∈ es, Field.text (.value e.1) ≠ .ok name := by
  rcases h with rfl | ⟨fs, hm, free⟩
  · obtain ⟨rfl, -⟩ : [] = es ∧ w = w' := by
      simpa [Value.entriesOrEmpty, World.isEmpty, Atom.isEmpty] using run
    simp
  · have read : v.entriesOrEmpty.Reads w fs := Value.entriesOrEmpty_reads hm
    cases Eq.symm run |>.trans read
    exact free

/-- What is made of a call that gives an operation, when its collections are data. -/
theorem build_holds {method path responses operationId summary tags parameters requestBody
    extra : Value} (ho : w.Owned) (hr : w.IsData responses) (hp : w.IsData parameters)
    (hb : w.IsData requestBody) (hx : w.IsData extra)
    (run : (build method path responses operationId summary tags parameters requestBody
      extra).run w = .ok v w') :
    ∃ w₁ f op, w.Extends w₁ ∧ Holds w₁ f w' v op ∧ w₁.Extends w' ∧
      Field.text (.value method) = .ok op.method ∧ Field.text (.value path) = .ok op.path ∧
      (∃ es coded, responses.mapping? w = some es ∧ w₁.Shows coded (.record (codedViews w es)) ∧
        Field.mapping w₁ (fun v => Field.mapping w₁ Field.any (.value v)) (.value coded) =
          .ok f.responses) ∧
      Field.orNone (Field.list w₁ (Field.mapping w₁ Field.any)) (.value parameters) =
        .ok f.parameters ∧
      Field.orNone (Field.mapping w₁ Field.any) (.value requestBody) = .ok f.requestBody ∧
      ∀ name, Unread w extra name → ∀ g ∈ f.extra, g.1 ≠ name := by
  obtain ⟨es, w₀, x, w₁, coded, w₂, f, entries, copied, stringified, checked, made⟩ :=
    build_steps run
  obtain ⟨ts, -, k₀, hes⟩ := (Value.entriesOrEmpty_denotes ho hx.shows).ok entries
  obtain ⟨k₁, hx, -⟩ := (newMapping_gives (ho.extends k₀) hes).ok copied
  have k := k₀.trans k₁
  obtain ⟨k₂, hc, views⟩ :=
    (withTextCodes_gives (ho.extends k) (hr.extends k).1).ok stringified
  have k' := k.trans k₂
  have passed := check_passed checked
  have read : f.All w₂.IsData := by
    refine check_data (fun g hg hn => ?_) checked
    simp only [arguments, List.mem_cons, List.not_mem_nil, or_false] at hg
    rcases hg with rfl | rfl | rfl | rfl | rfl | rfl | rfl | rfl | rfl <;> simp [collected] at hn
    exacts [hc, (hp.extends k').1, (hb.extends k').1, (hx.extends k₂).1]
  obtain ⟨k₃, op, holds⟩ := (make_holds (ho.extends k') read).ok made
  obtain ⟨m, hm, method⟩ := Field.required_ok passed.method
  obtain ⟨p, hp, path⟩ := Field.required_ok passed.path
  obtain ⟨c, hc, texts⟩ := Field.required_ok passed.responses
  cases hm
  cases hp
  cases hc
  have parameters := passed.parameters
  have requestBody := passed.requestBody
  refine ⟨w₂, f, op, k', holds, k₃, holds.method ▸ method, holds.path ▸ path, ?_, ?_, ?_,
    fun name unread g hg named => ?_⟩
  · rcases views with ⟨none, rfl⟩ | ⟨es, hm, shown⟩
    · -- What is no mapping does not pass the check.
      obtain ⟨es, found, -⟩ := Field.mapping_ok texts
      rw [k₂.mapping? (hr.extends k).1.has, none] at found
      cases found
    · rw [k.mapping? hr.has] at hm
      exact ⟨es, coded, hm, codedViews_extends hr hm k ▸ shown, texts⟩
  · simpa [arguments, Field.defaulted, List.lookup_cons] using parameters
  · simpa [arguments, Field.defaulted, List.lookup_cons] using requestBody
  · have texts : Field.mapping w₂ Field.any (.value x) = .ok f.extra := by
      simpa [arguments, Field.defaulted, List.lookup_cons] using passed.extra
    have given : x.mapping? w₁ = some es := by
      cases copied
      exact Value.mapping?_of_get (w₀.get_alloc_same _)
    obtain ⟨e, he, text⟩ :=
      Field.mapping_names ((k₂.mapping? hx.1.has).trans given) texts g hg
    exact unread.entries entries e he (named ▸ text)

/-! ### Places in operation objects -/

theorem find?_view (w : World) (es : Entries) (n : String) :
    Entries.find? Tree.same (es.map fun e => (w.tree e.1, w.tree e.2)) (.str n) =
      (Entries.find? w.sameKey es (.str n)).map w.tree := by
  induction es with
  | nil => rfl
  | cons e es ih =>
      obtain ⟨k, u⟩ := e
      have same : w.sameKey k (.str n) = (w.tree k).same (.str n) := by rw [sameKey, tree_atom]
      by_cases h : (w.tree k).same (.str n)
      · simp [Entries.find?, same, h]
      · simpa [Entries.find?, same, h] using ih

theorem itemIn_part {n : String} {u : Value} (h : w.IsData v) (hi : itemIn w n v = some u) :
    w.IsData u ∧ (w.tree v).part? (.name n) = some (w.tree u) := by
  obtain ⟨es, hm, found⟩ := Option.bind_eq_some_iff.mp hi
  obtain ⟨a, rfl, hg⟩ := Value.eq_obj_of_mapping? hm
  obtain ⟨e, he, rfl⟩ := Call.value_of_find? found
  refine ⟨(h.entries hm e he).2, ?_⟩
  rw [h.tree_mapping hg, Tree.part?, find?_view, found, Option.map_some]

/-- The operation's own extra entries do not replace the field. -/
def Spares (w : World) (op : Operation) (name : String) : Prop :=
  ∀ es, w.get op.extra = .mapping es → ∀ e ∈ es, e.1 ≠ .str name

theorem Holds.spares {f : Fields} {op : Operation} {name : String} (h : Holds w f w' v op)
    (free : ∀ g ∈ f.extra, g.1 ≠ name) : op.Spares w' name := by
  intro es hg e he named
  have extra : w'.IsData (.obj op.extra) := h.operation.part (by simp [Object.parts, fields])
  have view : es.map (fun e => (w'.tree e.1, w'.tree e.2)) =
      (f.extra.map fun g => (g.1, w.tree g.2)).map fun g => (.str g.1, g.2) :=
    Tree.mapping.inj ((extra.tree_mapping hg).symm.trans h.extra)
  have mem : (w'.tree e.1, w'.tree e.2) ∈ es.map fun e => (w'.tree e.1, w'.tree e.2) :=
    List.mem_map_of_mem he
  rw [view, named] at mem
  simp only [List.mem_map, Prod.mk.injEq] at mem
  obtain ⟨-, ⟨g, hmem, rfl⟩, key, -⟩ := mem
  exact free g hmem (by simpa using key)

/-- What a mapping is for an operation. -/
inductive Role where
  | response (code : String)
  | requestBody
  | parameter (i : Nat)

namespace Role

/-- The field of the operation object in which the mapping stands. -/
def field : Role → String
  | response _ => "responses"
  | requestBody => "requestBody"
  | parameter _ => "parameters"

/-- The place of the mapping in the operation object. -/
def place : Role → List Step
  | response code => [.name "responses", .name code]
  | requestBody => [.name "requestBody"]
  | parameter i => [.name "parameters", .index i]

/-- The value has the role, among the arguments of an operation. Of the responses whose codes have the
same text, the last one counts. -/
def IsGiven (w : World) (responses parameters requestBody r : Value) : Role → Prop
  | response code => ∃ front key back, responses.mapping? w = some (front ++ (key, r) :: back) ∧
      w.text key = code ∧ ∀ e ∈ back, w.text e.1 ≠ code
  | .requestBody => requestBody = r
  | parameter i => ∃ xs, parameters.items? w = some xs ∧ xs[i]? = some r

/-- The collection of the operation in which the mapping stands. -/
def collection (op : Operation) : Role → Option Addr
  | response _ => some op.responses
  | .requestBody => op.requestBody
  | parameter _ => op.parameters

end Role

theorem lookup_shownField (w : World) (a : Option Addr) (name other : String) :
    (shownField w name a).lookup other =
      if other = name then a.map fun b => w.tree (.obj b) else none := by
  cases a with
  | none => simp [shownField]
  | some b =>
      by_cases h : other = name
      · simp [shownField, h]
      · rw [shownField, Entries.lookup_cons_other h, if_neg h]
        rfl

/-- The fields of an operation object that are collections, unless the extra entries replace them. -/
theorem written_part {op : Operation} (ho : w.IsOperation v op) {a : Addr} (role : Role)
    (spared : Spares w op role.field) (ha : role.collection op = some a) (d : Value) :
    (op.written w d).part? (.name role.field) = some (w.tree (.obj a)) := by
  obtain ⟨es, hg⟩ := ho.extra
  have extra : w.IsData (.obj op.extra) := ho.part (by simp [Object.parts, fields])
  have view := extra.tree_mapping hg
  have other (e : Tree × Tree) (he : e ∈ es.map fun e => (w.tree e.1, w.tree e.2)) :
      e.1 ≠ .str role.field := by
    obtain ⟨f, hf, rfl⟩ := List.mem_map.mp he
    exact fun same => spared es hg f hf
      (Shows.atom ⟨extra.part (hg ▸ Object.mem_parts_key hf), same⟩)
  have id : (if (op.identifier d).isNone then [] else
      [("operationId", w.tree (op.identifier d))]).lookup role.field = none := by
    split <;> cases role <;> simp [List.lookup_cons, Role.field]
  have summary : (op.summary.elim [] fun s => [("summary", Tree.str s)]).lookup role.field =
      none := by
    cases op.summary <;> cases role <;> simp [List.lookup_cons, Role.field]
  rw [written, view, entriesOf, Tree.part?, Tree.find?_overlay other, Tree.find?_record]
  simp only [List.lookup_append, id, summary, Option.none_or, lookup_shownField]
  cases role <;> simp only [Role.collection, Role.field] at ha ⊢ <;> simp [ha]

/-- The fields stay what they are while the store grows. -/
theorem written_part_extends {op : Operation} (ho : w.IsOperation v op) (k : w.Extends w') {a : Addr}
    (role : Role) (spared : op.Spares w role.field) (ha : role.collection op = some a) (d : Value) :
    (op.written w' d).part? (.name role.field) = some (w.tree (.obj a)) := by
  have extra : w.IsData (.obj op.extra) := ho.part (by simp [Object.parts, fields])
  have spared' : op.Spares w' role.field := fun es hg =>
    spared es ((k.get op.extra extra.lt_size).symm.trans hg)
  have part : w.IsData (.obj a) := ho.part (by
    cases role <;> simp only [Role.collection, Option.some.injEq] at ha <;>
      simp [Object.parts, fields, optionalObject, ha])
  rw [written_part (ho.grows k.grows) role spared' ha d, (part.extends k).2]

/-- An operation that gives a result carries its responses, its body and its parameters: they stand in
its operation object as they were given. -/
theorem build_carries {method path responses operationId summary tags parameters requestBody
    extra : Value} (ho : w.Owned) (hr : w.IsData responses) (hp : w.IsData parameters)
    (hb : w.IsData requestBody) (hx : w.IsData extra)
    (run : (build method path responses operationId summary tags parameters requestBody
      extra).run w = .ok v w') :
    w.Extends w' ∧ ∃ op, w'.IsOperation v op ∧ Field.text (.value method) = .ok op.method ∧
      Field.text (.value path) = .ok op.path ∧
      ∀ (role : Role) (r : Value) (ts : List (String × Tree)),
        role.IsGiven w responses parameters requestBody r → w.Shows r (.record ts) →
        Entries.Distinct ts → Unread w extra role.field →
          ∀ w₂, w'.Extends w₂ → ∀ d, (op.written w₂ d).at? role.place = some (.record ts) := by
  obtain ⟨w₁, f, op, k₁, holds, k₂, hmethod, hpath, ⟨es, coded, hm, shown, texts⟩, list, body, free⟩ :=
    build_holds ho hr hp hb hx run
  refine ⟨k₁.trans k₂, op, holds.operation, hmethod, hpath,
    fun role r ts given hts distinct unread w₂ k d => ?_⟩
  have later := hts.extends k₁
  have spared := holds.spares (free _ unread)
  cases role with
  | response code =>
      obtain ⟨front, key, back, hes, hkey, last⟩ := given
      cases hm.symm.trans hes
      obtain ⟨a, gs, rfl, hg, hgs⟩ := shown.record
      have view : (codedViews w (front ++ (key, r) :: back)).lookup code = some (w.tree r) := by
        simp only [codedViews, Entries.literal, List.map_append, List.map_cons, hkey]
        refine Entries.lookup_overlay_last ?_
        simpa using last
      obtain ⟨x, hx, hxr⟩ := hgs.lookup_right view
      have codes : Entries.Distinct gs := by
        rw [Entries.Distinct, hgs.keys]
        exact Entries.Distinct.overlay (by simp [Entries.Distinct]) _
      have read := Field.mapping_paired (Value.mapping?_of_get hg) codes texts
      obtain ⟨y, hy, hxy⟩ := read.lookup_left hx
      have same := Field.mapping_record (hts.2 ▸ hxr) distinct hxy
      have part := written_part_extends holds.operation k (.response code) spared rfl d
      have found : (f.responses.map fun r => (r.1, w₁.recordOf r.2)).lookup code =
          some (w₁.recordOf y) := by
        rw [Entries.lookup_map w₁.recordOf, hy, Option.map_some]
      simp only [Role.place, Role.field] at part ⊢
      simp [part, holds.responses, found, same]
  | requestBody =>
      obtain rfl : requestBody = r := given
      obtain ⟨a, -, rfl, -, -⟩ := later.record
      obtain ⟨b, hb, hm⟩ := Field.orNone_given body
      obtain ⟨c, hc, view⟩ := holds.requestBody b hb
      have part := written_part_extends holds.operation k .requestBody spared hc d
      simp only [Role.place, Role.field] at part ⊢
      simp [part, view, Field.mapping_record later distinct hm]
  | parameter i =>
      obtain ⟨xs, hxs, hi⟩ := given
      obtain ⟨a, rfl⟩ : ∃ a, parameters = .obj a := by
        cases parameters with
        | atom a => cases hxs
        | obj a => exact ⟨a, rfl⟩
      obtain ⟨ps, hps, read⟩ := Field.orNone_given list
      obtain ⟨c, hc, view⟩ := holds.parameters ps hps
      have paired := Field.list_paired ((k₁.items? hp.has).trans hxs) read
      obtain ⟨y, hy, hm⟩ : ∃ y, ps[i]? = some y ∧
          Field.mapping w₁ Field.any (.value r) = .ok y := by
        obtain ⟨lt, rfl⟩ := List.getElem?_eq_some_iff.mp hi
        have lt' : i < ps.length := paired.length_eq ▸ lt
        exact ⟨ps[i], List.getElem?_eq_getElem lt', paired.get lt lt'⟩
      have part := written_part_extends holds.operation k (.parameter i) spared hc d
      simp only [Role.place, Role.field] at part ⊢
      simp [part, view, hy, Field.mapping_record later distinct hm]

end Operation

/-! ### Places in maps of paths and in documents -/

/-- What an operation is written as stands under its template and its method. -/
theorem Paths.build_at {operations d paths : Value} {es : Entries} {op : Operation} (ho : w.Owned)
    (hm : operations.mapping? w = some es) (h : Bindings w es) (he : (d, v) ∈ es)
    (found : Operation.of? w v = some op) (run : (build operations).run w = .ok paths w') :
    w.Extends w' ∧ ∃ ts, w'.Shows paths (.record ts) ∧
      (Tree.record ts).at? [.name op.path, .name (Text.lower op.method)] =
        some (op.written w d) := by
  obtain ⟨t, view, k, shown⟩ := (build_denotes ho hm h).ok run
  obtain ⟨g, -, ⟨⟩⟩ := Option.bind_eq_some_iff.mp view
  obtain ⟨u, place, object⟩ := Operation.place_of_build ho (h.operations _ he op found)
    (h.names _ he) hm (fun e he => (h.values e he).has) he run
  obtain ⟨m, first, second⟩ := Option.bind_eq_some_iff.mp place
  obtain ⟨data, part⟩ := Operation.itemIn_part shown.1 first
  obtain ⟨-, part'⟩ := Operation.itemIn_part data second
  refine ⟨k, _, shown, ?_⟩
  rw [Tree.at?_cons, ← shown.2, part, Option.bind_some, Tree.at?_cons, part', Option.bind_some,
    object.2, Tree.at?_nil]

namespace Document

/-- No extra entry has this key. -/
def ArgumentViews.Spares (a : ArgumentViews) (name : String) : Prop :=
  ∀ es, a.extra.entriesOrEmpty? = some es → ∀ e ∈ es, e.1 ≠ .str name

theorem view?_part {a : ArgumentViews} {d : Tree} (h : view? a = some d) {name : String}
    (spared : a.Spares name) : ∃ servers ps parts,
      a.servers.field? "servers" some = some servers ∧ a.paths.entriesOrEmpty? = some ps ∧
      a.components.field? "components" components? = some parts ∧
      d.part? (.name name) = ([("openapi", a.openapi), ("info", a.info)] ++ servers ++
        [("paths", Tree.mapping ps)] ++ parts).lookup name := by
  simp only [view?, Option.bind_eq_bind, Option.bind_eq_some_iff, Option.pure_def,
    Option.some.injEq] at h
  obtain ⟨servers, hs, ps, hp, parts, hc, es, he, rfl⟩ := h
  refine ⟨servers, ps, parts, hs, hp, hc, ?_⟩
  rw [Tree.part?, Tree.find?_overlay (spared es he), Tree.find?_record]

theorem field?_lookup {t : Tree} {name other : String} {make : Tree → Option Tree}
    {fs : List (String × Tree)} (h : t.field? name make = some fs) (ne : other ≠ name) :
    fs.lookup other = none := by
  rw [Tree.field?] at h
  split at h
  · cases h
    rfl
  · obtain ⟨u, -, rfl⟩ := Option.map_eq_some_iff.mp h
    rw [Entries.lookup_cons_other ne]
    rfl

/-- The paths stand in the document as they were. -/
theorem view?_paths {a : ArgumentViews} {d : Tree} (h : view? a = some d)
    (spared : a.Spares "paths") {ts : List (String × Tree)} (hp : a.paths = .record ts) :
    d.part? (.name "paths") = some (.record ts) := by
  obtain ⟨servers, ps, parts, hs, hps, -, part⟩ := view?_part h spared
  have same : Tree.mapping ps = .record ts := by
    rw [hp, Tree.record, Tree.entriesOrEmpty?] at hps
    split at hps
    next empty =>
      cases hps
      simpa [Tree.record, Tree.isEmpty] using empty
    next => exact congrArg Tree.mapping (Option.some.inj hps).symm
  rw [part, ← same]
  simp [List.lookup_append, List.lookup_cons, field?_lookup hs (show "paths" ≠ "servers" by simp)]

end Document
end OpenApiDoc
