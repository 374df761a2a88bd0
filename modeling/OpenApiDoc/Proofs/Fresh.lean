import OpenApiDoc.Proofs.Assembly

/-! # What is made anew

A value is fresh if everything that it reaches was made since some moment or cannot be written to.
What a copy reaches is fresh, whatever it is a copy of, and so is a collection of fresh values. The
helpers that assemble responses, bodies, operation objects, maps of paths and documents copy all that
they are given but texts, so their results are fresh.

* `World.Fresh` is the property, with the number of objects there were as the moment.
* `Build.Keeps.fresh`: what no enclosure can keep inside is fresh.
* `Response.response_fresh`, `Response.body_fresh`, `Operation.emit_fresh`, `Paths.build_fresh` and
  `Document.build_fresh` are about the helpers. -/

namespace OpenApiDoc

open Build World

variable {base : Nat} {w w' : World}

namespace World

/-- Everything that the value reaches is there, and was made since `base` or cannot be written to. -/
def Fresh (base : Nat) (w : World) (v : Value) : Prop :=
  ∀ b, w.Reaches v b → b < w.size ∧ (base ≤ b ∨ w.Inert (.obj b))

@[simp] theorem fresh_atom (base : Nat) (w : World) (a : Atom) : w.Fresh base (.atom a) := by
  rintro b ⟨c, h, -⟩
  cases h

/-- What a value reaches that is there in full is the same while the store grows. -/
theorem Extends.reaches {v : Value} (k : w.Extends w') (there : ∀ b, w.Reaches v b → b < w.size)
    {b : Addr} (h : w'.Reaches v b) : w.Reaches v b := by
  obtain ⟨a, rfl, path⟩ := h
  refine ⟨a, rfl, ?_⟩
  induction path with
  | refl => exact .refl
  | tail _ step ih => exact ih.tail ((k.grows.holds_iff (there _ ⟨a, rfl, ih⟩)).mp step)

theorem Fresh.extends {v : Value} (h : w.Fresh base v) (k : w.Extends w') : w'.Fresh base v := by
  intro b hb
  obtain ⟨lt, made⟩ := h b (k.reaches (fun c hc => (h c hc).1) hb)
  exact ⟨Nat.lt_of_lt_of_le lt k.size, made.imp id fun hi => hi.follows k.follows⟩

theorem Fresh.part {a : Addr} {v : Value} (h : w.Fresh base (.obj a)) (hv : v ∈ (w.get a).parts) :
    w.Fresh base v :=
  fun b hb => h b (hb.part hv)

/-- What cannot be written to, down to its last part, is fresh. -/
theorem Inert.fresh {v : Value} (h : w.Inert v) : w.Fresh base v := by
  rintro b ⟨a, rfl, path⟩
  suffices inert : w.Inert (.obj b) from ⟨inert.has, .inr inert⟩
  induction path with
  | refl => exact h
  | tail _ step ih => exact ih.part step

/-- A new collection of fresh values. -/
theorem fresh_alloc {o : Object} (le : base ≤ w.size) (h : ∀ v ∈ o.parts, w.Fresh base v) :
    (w.alloc o).2.Fresh base (.obj w.size) := by
  have k := w.extends_alloc o
  have lt : w.size < (w.alloc o).2.size := by
    rw [w.size_alloc]
    exact Nat.lt_succ_self _
  rintro b ⟨a, ⟨⟩, path⟩
  rcases path.cases_head with rfl | ⟨c, step, rest⟩
  · exact ⟨lt, .inl le⟩
  · have part : Value.obj c ∈ o.parts := by
      rwa [Holds, show (w.alloc o).2.get w.size = o from w.get_alloc_same o] at step
    exact ((h _ part).extends k) b ⟨c, rfl, rest⟩

def FreshEntries (base : Nat) (w : World) (es : Entries) : Prop :=
  ∀ e ∈ es, w.Inert e.1 ∧ w.Fresh base e.2

theorem fresh_of_atom {v : Value} (h : ∃ a, v = .atom a) (base : Nat) (w : World) :
    w.Fresh base v := by
  obtain ⟨a, rfl⟩ := h
  exact fresh_atom base w a

/-- Nothing is hidden, and there have been at least so many objects. -/
def Since (base : Nat) (w : World) : Prop := w.Encloses .empty ∧ base ≤ w.size

end World

/-! ### Copies and collections -/

/-- What is usable whatever is enclosed reaches nothing that was there and can be written to. -/
theorem Build.Keeps.fresh {α : Type} {act : Build α} {f : α → Value} (le : base ≤ w.size)
    (h : ∀ E, act.Keeps (Encloses E) w fun u w' => w'.Usable E (f u)) :
    act.Keeps (Encloses .empty) w fun u w' => w'.Fresh base (f u) := by
  intro hw
  cases run : act.run w with
  | error e w' => exact (h .empty).error hw run
  | ok u w' =>
      obtain ⟨k, hw', -⟩ := (h .empty).ok hw run
      obtain ⟨-, apart, usable⟩ := (h w.past).ok hw.tidy.encloses_past run
      refine ⟨k, hw', fun b hb => ?_⟩
      have outside : ¬ w.past.inside b ∧ b < w'.size := by
        obtain ⟨a, same, path⟩ := hb
        rw [same] at usable
        induction path with
        | refl => exact ⟨usable.2.1, usable.1⟩
        | tail _ step ih =>
            exact ⟨apart.apart _ _ ih.1 (fun hd => hd) step, hw'.tidy.part _ _ step⟩
      refine ⟨outside.2, ?_⟩
      by_cases lt : b < w.size
      · have inert : w.Inert (.obj b) := Classical.not_not.mp fun hi => outside.1 ⟨lt, hi⟩
        exact .inr (inert.follows k.follows)
      · exact .inl (Nat.le_trans le (Nat.not_lt.mp lt))

section copies

variable {v : Value} {a : Addr}

/-- Entries under keys that cannot be written to, with values that are made anew. -/
theorem Build.Keeps.mapM_fresh {f : Value → Build Value} {es : Entries}
    (hk : ∀ e ∈ es, w.Inert e.1) (h : ∀ e ∈ es, ∀ w', w.Extends w' →
      (f e.2).Keeps (Encloses .empty) w' fun u w'' => w''.Fresh base u) :
    (es.mapM fun e : Value × Value => do return (e.1, ← f e.2)).Keeps (Encloses .empty) w fun fs w' =>
      w'.FreshEntries base fs := by
  refine Keeps.mapM_all (R := fun (e : Value × Value) w => w.Inert e.1 ∧ w.Fresh base e.2)
    (fun e _ _ h k => ⟨h.1.follows k.follows, h.2.extends k⟩) fun e he w₁ k => ?_
  refine (h e he w₁ k).bind fun u w₂ k₂ hu => .pure ⟨?_, hu⟩
  exact (hk e he).follows (k.trans k₂).follows

/-- The entries of what is made anew. -/
theorem further_fresh (hv : w.Fresh base v) :
    v.further.Keeps (Encloses .empty) w fun es w' => w'.FreshEntries base es := by
  refine .from fun hw => .get_bind ?_
  cases hm : v.mapping? w with
  | none => exact .throw _
  | some es =>
      obtain ⟨a, rfl, hg⟩ := Value.eq_obj_of_mapping? hm
      refine .pure fun e he => ⟨hw.tidy.keys a es hg e he, hv.part ?_⟩
      rw [hg]
      exact Object.mem_parts_value he

variable (le : base ≤ w.size)

include le

theorem Build.copyObject_fresh (ha : w.Has (.obj a)) :
    (copyObject a).Keeps (Encloses .empty) w fun b w' => w'.Fresh base (.obj b) :=
  .fresh le fun _ => copyObject_keeps ha

theorem Value.copy_fresh (hv : w.Has v) :
    v.copy.Keeps (Encloses .empty) w fun u w' => w'.Fresh base u :=
  Keeps.fresh (f := id) le fun _ => Value.copy_keeps hv

theorem Value.plain_fresh (hv : w.Has v) :
    v.plain.Keeps (Encloses .empty) w fun u w' => w'.Fresh base u :=
  Keeps.fresh (f := id) le fun _ => (Value.plain_grown hv).mono fun _ _ _ _ h => h.usable

theorem Build.newMapping_fresh {es : Entries} (h : w.FreshEntries base es) :
    (newMapping es).Keeps (Encloses .empty) w fun u w' => w'.Fresh base u := by
  have opened : OpenEntries .empty w es := by
    refine fun e he => ⟨(h e he).1, Has.open_empty ?_⟩
    cases hv : e.2 with
    | atom a => trivial
    | obj a => exact ((h e he).2 a ⟨a, hv, .refl⟩).1
  refine .bind (Q := fun a w' => w'.Fresh base (.obj a)) (.new fun hw => ?_)
    fun _ _ _ ha => .pure ha
  refine ⟨(hw.alloc (.mapping opened)).1, fresh_alloc le fun v hv => ?_⟩
  obtain ⟨e, he, rfl | rfl⟩ := Object.mem_parts_mapping.mp hv
  · exact (h e he).1.fresh
  · exact (h e he).2

theorem Build.newList_fresh {xs : List Value} (h : ∀ x ∈ xs, w.Fresh base x) :
    (newList xs).Keeps (Encloses .empty) w fun u w' => w'.Fresh base u := by
  have opened : ∀ x ∈ xs, w.Open .empty x := by
    intro x hx
    cases x with
    | atom a => trivial
    | obj a => exact ⟨(h _ hx a ⟨a, rfl, .refl⟩).1, id⟩
  refine .bind (Q := fun a w' => w'.Fresh base (.obj a)) (.new fun hw => ?_)
    fun _ _ _ ha => .pure ha
  exact ⟨(hw.alloc (.list opened)).1, fresh_alloc le h⟩

/-- A schema is emitted as a copy of the fragment, or as a new mapping of copies. -/
theorem Node.emit_fresh (hv : w.Has v) :
    (Node.emit v).Keeps (Encloses .empty) w fun u w' => w'.Fresh base u := by
  refine .from fun hw => .get_bind ?_
  cases hp : Node.parts? w v with
  | some p =>
      obtain ⟨a, rfl, hg⟩ := Node.parts?_eq (f := p.1) (o := p.2) hp
      have fragment : w.Has (.obj p.1) := hw.tidy.has_part (a := a) (by simp [hg, Object.parts])
      exact (copyObject_fresh le fragment).bind fun _ _ _ hb => .pure hb
  | none =>
      refine (Value.entries_has hv.open_empty).bind fun es w₁ k₁ hes => ?_
      have le₁ := Nat.le_trans le k₁.size
      refine (Keeps.mapM_fresh (f := Value.plain) (fun e he => (hes e he).1)
        fun e he w₂ k₂ => ?_).bind fun fs w₂ k₂ hfs =>
          newMapping_fresh (Nat.le_trans le₁ k₂.size) hfs
      exact Value.plain_fresh (Nat.le_trans le₁ k₂.size) ((hes e he).2.mono k₂.size)

/-- A copy of the mapping of some entries. -/
theorem copied_fresh {es : Entries} (h : ∀ e ∈ es, w.Inert e.1 ∧ w.Has e.2) :
    Build.Keeps (Encloses .empty) (do (← newMapping es).copy) w fun u w' => w'.Fresh base u := by
  refine (newMapping_keeps fun e he => ⟨(h e he).1, (h e he).2.open_empty⟩).bind
    fun u w₁ k₁ hu => ?_
  exact Value.copy_fresh (Nat.le_trans le k₁.size) hu.2.open.has

theorem detached_fresh (hv : w.Has v) :
    (detached v).Keeps (Encloses .empty) w fun u w' => w'.Fresh base u :=
  (Value.entries_has hv.open_empty).bind fun _ _ k hes =>
    copied_fresh (Nat.le_trans le k.size) hes

end copies

/-! ### What is put together anew -/

theorem Build.Keeps.since {α : Type} {act : Build α} {Q : α → World → Prop}
    (h : base ≤ w.size → act.Keeps (Encloses .empty) w Q) : act.Keeps (Since base) w Q := by
  intro ⟨hw, le⟩
  cases run : act.run w with
  | ok a w' =>
      obtain ⟨k, hw', hq⟩ := (h le).ok hw run
      exact ⟨k, ⟨hw', Nat.le_trans le k.size⟩, hq⟩
  | error e w' =>
      obtain ⟨k, hw'⟩ := (h le).error hw run
      exact ⟨k, hw', Nat.le_trans le k.size⟩

theorem Build.Keeps.of_since {α : Type} {act : Build α} {Q : α → World → Prop}
    (le : base ≤ w.size) (h : act.Keeps (Since base) w Q) : act.Keeps (Encloses .empty) w Q := by
  intro hw
  cases run : act.run w with
  | ok a w' =>
      obtain ⟨k, hw', hq⟩ := h.ok ⟨hw, le⟩ run
      exact ⟨k, hw'.1, hq⟩
  | error e w' =>
      obtain ⟨k, hw'⟩ := h.error ⟨hw, le⟩ run
      exact ⟨k, hw'.1⟩

/-- A mapping of what is fresh is fresh. -/
def Composition.fresh (base : Nat) : Composition :=
  { outside .empty with
    inv := Since base
    value := World.Fresh base
    made := World.Fresh base
    value_text := fun _ _ => fresh_atom _ _ _
    value_flag := fun _ _ => fresh_atom _ _ _
    value_none := fun _ => fresh_atom _ _ _
    value_extends := fun h k => h.extends k
    value_of_made := fun h => h
    mapping := fun h => .since fun le => newMapping_fresh le h
    list := fun h => .since fun le => newList_fresh le h
    logs := fun _ _ _ => .since fun _ => log_keeps _ _ }

namespace Composition

theorem supplies_copies {v : Value} (hv : w.Has v) : (fresh base).Supplies w (detached v) :=
  fun _ k => .since fun le => detached_fresh le (hv.mono k.size)

theorem copies_fresh {a : Option Addr} (h : w.Has (Operation.optionalObject a)) :
    (fresh base).Copies w a := by
  rintro b rfl w' k
  exact .since fun le => copyObject_fresh le (h.mono k.size)

end Composition

/-! ### Responses and bodies -/

namespace Response

/-- What a media type is made of is there. -/
structure Media.Has (w : World) (m : Media) : Prop where
  schema : w.Has m.schema
  examples : w.Has m.examples
  encoding : w.Has m.encoding

theorem Media.Has.mono {m : Media} (h : m.Has w) (k : w.size ≤ w'.size) : m.Has w' :=
  ⟨h.schema.mono k, h.examples.mono k, h.encoding.mono k⟩

variable {type description : Value} {m : Media}

theorem content_since (hm : m.Has w) (ht : ∃ a, type = .atom a) :
    (content type m).Keeps (Since base) w fun u w' => w'.Fresh base u := by
  obtain ⟨a, rfl⟩ := ht
  exact Composition.keeps_content (C := .fresh base)
    (Composition.keeps_media
      (fun _ _ k => .since fun le => Node.emit_fresh le (hm.schema.mono k.size))
      (fun _ => Composition.supplies_copies hm.examples)
      fun _ => Composition.supplies_copies hm.encoding)
    fun _ _ => .since fun _ => Value.requireKey_keeps trivial

variable (le : base ≤ w.size) (hm : m.Has w) (ht : ∃ a, type = .atom a)
  (hd : ∃ a, description = .atom a)

include le hm ht hd

/-- A response shares nothing with what it is made of but texts. -/
theorem response_fresh {headers links : Value} (hh : w.Has headers) (hl : w.Has links) :
    (response description type headers links m).Keeps (Encloses .empty) w
      fun u w' => w'.Fresh base u :=
  .of_since le (Composition.keeps_response (C := .fresh base) (fresh_of_atom hd base w)
    (fun _ => Composition.supplies_copies hh) (fun _ => Composition.supplies_copies hl)
    fun _ k => content_since (hm.mono k.size) ht)

/-- A request body shares nothing with what it is made of but texts. -/
theorem body_fresh {required : Value} (hr : ∃ a, required = .atom a) :
    (body type description required m).Keeps (Encloses .empty) w fun u w' => w'.Fresh base u :=
  .of_since le (Composition.keeps_body (C := .fresh base) (fresh_of_atom hd base w)
    (fresh_of_atom hr base w) fun _ k => content_since (hm.mono k.size) ht)

end Response

/-! ### Operations -/

namespace Operation

/-- The tags of the operation are texts. -/
def Labelled (w : World) (op : Operation) : Prop :=
  ∀ t, op.tags = some t → ∃ names : List String, w.get t = .list (names.map .str)

theorem Labelled.extends {op : Operation} (h : op.Labelled w) (k : w.Extends w')
    (lt : ∀ t, op.tags = some t → t < w.size) : op.Labelled w' := by
  intro t ht
  obtain ⟨names, hg⟩ := h t ht
  exact ⟨names, (k.get t (lt t ht)).trans hg⟩

theorem emit_since {op : Operation} (h : ∀ e ∈ op.fields, w.Has e.2) (tags : op.Labelled w)
    {default : Value} (hd : w.Inert default) :
    (op.emit default).Keeps (Since base) w fun u w' => w'.Fresh base u := by
  simp only [fields, List.mem_cons, List.not_mem_nil, or_false, forall_eq_or_imp,
    forall_eq] at h
  obtain ⟨-, -, responses, -, -, -, parameters, body, extra⟩ := h
  refine Composition.keeps_emit (C := .fresh base) hd.fresh (fun t ht => ?_)
    (Composition.copies_fresh parameters) (Composition.copies_fresh body)
    (Composition.copies_fresh (a := some op.responses) responses) fun _ k => .since fun le => ?_
  · obtain ⟨names, hg⟩ := tags t ht
    have iterated : (Value.obj t).iterate.Reads w (names.map .str) := by
      simp [Reads, Value.iterate, Build.look, hg]
    exact iterated.keeps (List.forall_mem_map.mpr fun s _ => fresh_atom _ _ _)
  · exact (copyObject_fresh le (extra.mono k.size)).mono
      fun _ _ _ _ hx => .since fun _ => further_fresh hx

/-- An operation object shares nothing with the operation but texts. -/
theorem emit_fresh (le : base ≤ w.size) {op : Operation} (h : ∀ e ∈ op.fields, w.Has e.2)
    (tags : op.Labelled w) {default : Value} (hd : w.Inert default) :
    (op.emit default).Keeps (Encloses .empty) w fun u w' => w'.Fresh base u :=
  .of_since le (emit_since h tags hd)

end Operation

/-! ### Maps of paths -/

namespace Paths

/-- The operations among the values of some entries have texts as their tags. -/
def Labelled (w : World) (es : Entries) : Prop :=
  ∀ e ∈ es, ∀ op, Operation.of? w e.2 = some op → op.Labelled w

theorem Labelled.at {es : Entries} (h : Labelled w es) (hw : w.Tidy) {e : Value × Value}
    (he : e ∈ es) (has : w.Has e.2) (k : w.Extends w') :
    ∀ op, Operation.of? w' e.2 = some op → op.Labelled w' := by
  intro op found
  obtain ⟨a, same, hg⟩ := Operation.of?_eq found
  rw [same] at has
  have there : w.get a = .operation op := (k.get a has).symm.trans hg
  refine (h e he op (by simp [same, Operation.of?, there])).extends k fun t ht => ?_
  refine hw.part a t ?_
  rw [Holds, there]
  simp [Object.parts, Operation.fields, ht, Operation.optionalObject]

/-- A map of paths shares nothing with the operations but texts. -/
theorem build_fresh {operations : Value} (le : base ≤ w.size)
    (tags : ∀ es, operations.mapping? w = some es → Labelled w es) :
    (build operations).Keeps (Encloses .empty) w fun u w' => w'.Fresh base u := by
  refine .of_since le (Composition.keeps_paths (C := .fresh base) (.from fun hw => ?_))
  cases hm : operations.mapping? w with
  | none =>
      refine .get_bind ?_
      rw [hm]
      exact .lack _ _
  | some es =>
      have held := hw.1.tidy.entries hm
      refine (Value.items_reads hm).keeps fun e he w' k op found => .from fun hw' => ?_
      have fields := Operation.fields_open hw'.1 ((held e he).2.mono k.size).open_empty found
      exact Operation.emit_since (fun f hf => (fields f hf).has)
        ((tags es hm).at hw.1.tidy he (held e he).2 k op found) ((held e he).1.follows k.follows)

end Paths

/-! ### Documents -/

namespace Document

/-- What a document is made of is there, and its texts are no part of the store. -/
structure Arguments.Given (w : World) (a : Arguments) : Prop where
  title : ∃ t, a.title = .atom t
  version : ∃ t, a.version = .atom t
  openapi : ∃ t, a.openapi = .atom t
  description : ∃ t, a.description = .atom t
  paths : w.Has a.paths
  components : w.Has a.components
  servers : w.Has a.servers
  extra : w.Has a.extra

variable {v : Value}

theorem detachedOrEmpty_fresh (le : base ≤ w.size) (hv : w.Has v) :
    (detachedOrEmpty v).Keeps (Encloses .empty) w fun u w' => w'.Fresh base u := by
  refine .bind (Q := fun es w' => ∀ e ∈ es, w'.Inert e.1 ∧ w'.Has e.2) (.get_bind ?_)
    fun es w₁ k hes => copied_fresh (Nat.le_trans le k.size) hes
  split
  · exact .pure (by simp)
  · exact Value.entries_has hv.open_empty

theorem items_since : v.items.Keeps (Since base) w fun es w' =>
    ∀ e ∈ es, w'.Inert e.1 ∧ w'.Has e.2 := by
  refine .from fun hw => .get_bind ?_
  cases hm : v.mapping? w with
  | none => exact .lack v "items"
  | some es => exact .pure (hw.1.tidy.entries hm)

theorem components_since : (components v).Keeps (Since base) w fun u w' => w'.Fresh base u := by
  refine Composition.keeps_components (C := .fresh base) (items_since.mono ?_)
  intro es w₁ _ _ hes e he w' k
  refine Composition.keeps_section (C := .fresh base) ((hes e he).1.follows k.follows)
    (fun _ => ?_) fun _ => .since fun le => Value.copy_fresh le ((hes e he).2.mono k.size)
  exact items_since.mono fun fs w₂ _ _ hfs f hf =>
    ⟨(hfs f hf).1, fun _ k => .since fun le => Node.emit_fresh le ((hfs f hf).2.mono k.size)⟩

/-- A document shares nothing with what it is made of but texts. -/
theorem build_fresh (le : base ≤ w.size) {a : Arguments} (h : a.Given w) :
    (build a).Keeps (Encloses .empty) w fun u w' => w'.Fresh base u :=
  .of_since le (Composition.keeps_document (C := .fresh base) (fresh_of_atom h.title base w)
    (fresh_of_atom h.version base w) (fresh_of_atom h.openapi base w)
    (fresh_of_atom h.description base w)
    (fun _ _ k => .since fun le => Value.copy_fresh le (h.servers.mono k.size))
    (fun _ k => .since fun le => detachedOrEmpty_fresh le (h.paths.mono k.size))
    (fun _ _ _ => components_since)
    fun _ k => .since fun le => (detachedOrEmpty_fresh le (h.extra.mono k.size)).mono
      fun _ _ _ _ hx => .since fun _ => further_fresh hx)

end Document

end OpenApiDoc
