import OpenApiDoc.Proofs.Embedding
import OpenApiDoc.Proofs.Passing

/-! # What is supplied

A response, a request body and a document have a field for every argument that is given, empty or not,
and none for those that are not.

* A `Slot` is a field that a result may have; `World.Lays` says that a mapping has the fields of the
  slots that are taken, in their order, and nothing else.
* `Response.response_lays`, `Response.body_lays`: what is made of any arguments, if there is a result.
* `Response.response_accepts`, `Response.body_accepts`: there is one if every argument will do by
  itself. -/

namespace OpenApiDoc

open Build World

variable {w w' w₀ w₁ : World} {v u : Value}

/-! ### Slots -/

/-- If the argument `v` is data, then `u` looks as the view says. -/
def World.Renders (w : World) (view : Tree → Option Tree) (v : Value) (w' : World) (u : Value) : Prop :=
  w.IsData v → ∃ t, view (w.tree v) = some t ∧ w'.Shows u t

theorem World.Renders.grows {view : Tree → Option Tree} (h : w.Renders view v w₁ u) (k : w₁.Grows w') :
    w.Renders view v w' u :=
  fun data => (h data).imp fun _ look => ⟨look.1, look.2.grows k⟩

/-- The argument will do: it is data, and what the view is of unless it is nothing. -/
def World.Accepts (w : World) (view : Tree → Option Tree) (v : Value) : Prop :=
  w.IsData v ∧ (v ≠ .none → ∃ t, view (w.tree v) = some t)

theorem World.Accepts.field? {view : Tree → Option Tree} (h : w.Accepts view v) (name : String) :
    ∃ fs, (w.tree v).field? name view = some fs := by
  rw [Tree.field?]
  split
  next => exact ⟨_, rfl⟩
  next given =>
    obtain ⟨t, ht⟩ := h.2 (by rintro rfl; exact given (by simp [Tree.isNone]))
    exact ⟨_, by rw [ht, Option.map_some]⟩

/-- The value is data that can be the key of a mapping. -/
def World.IsKey (w : World) (v : Value) : Prop := w.IsData v ∧ (w.tree v).key? = some ()

/-- A field that a mapping may have: its name, whether it is taken, and what its value is. -/
structure Slot where
  name : String
  taken : Bool
  holds : World → Value → Prop
  stays : ∀ {w w' : World} {u : Value}, holds w u → w.Grows w' → holds w' u

namespace Slot

/-- A field that is there whatever the arguments are. -/
def always (name : String) (holds : World → Value → Prop)
    (stays : ∀ {w w' : World} {u : Value}, holds w u → w.Grows w' → holds w' u) : Slot :=
  { name, taken := true, holds, stays }

/-- A field with this value. -/
def exactly (name : String) (v : Value) : Slot := .always name (fun _ u => u = v) fun h _ => h

/-- A field that is the argument itself, if one is given. -/
def given (name : String) (v : Value) : Slot :=
  { name, taken := !v.isNone, holds := fun _ u => u = v, stays := fun h _ => h }

/-- A field for an argument of the world `w`, if one is given. -/
def made (w : World) (name : String) (v : Value) (view : Tree → Option Tree) : Slot where
  name := name
  taken := !v.isNone
  holds w' u := w.Renders view v w' u
  stays h k := h.grows k

/-- A field for an argument that is there even if none is given. -/
def kept (w : World) (name : String) (v : Value) (view : Tree → Option Tree) : Slot :=
  { made w name v view with taken := true }

end Slot

namespace World

/-- The fields are those of the slots that are taken, in their order. -/
def Fills (w : World) (slots : List Slot) (fs : List (String × Value)) : Prop :=
  List.Forall₂ (fun s f => f.1 = s.name ∧ s.holds w f.2) (slots.filter (·.taken)) fs

/-- The value is a mapping with the fields of the slots that are taken, in their order. -/
def Lays (w : World) (slots : List Slot) (u : Value) : Prop :=
  ∃ a fs, u = .obj a ∧ w.get a = .mapping (Entries.named fs) ∧ w.Fills slots fs

variable {slots others : List Slot} {fs gs : List (String × Value)}

theorem Fills.grows (h : w.Fills slots fs) (k : w.Grows w') : w'.Fills slots fs :=
  List.Forall₂.imp (fun s _ h => ⟨h.1, s.stays h.2 k⟩) h

theorem Lays.grows (h : w.Lays slots u) (k : w.Grows w') : w'.Lays slots u := by
  obtain ⟨a, fs, rfl, hg, fills⟩ := h
  exact ⟨a, fs, rfl, (k.get a (lt_size_of_mapping hg)).trans hg, fills.grows k⟩

theorem Fills.append (h : w.Fills slots fs) (h' : w.Fills others gs) :
    w.Fills (slots ++ others) (fs ++ gs) := by
  rw [Fills, List.filter_append]
  exact List.rel_append h h'

theorem Fills.one {s : Slot} (taken : s.taken = true) (h : s.holds w u) :
    w.Fills [s] [(s.name, u)] := by
  rw [Fills, List.filter_cons_of_pos taken]
  exact .cons ⟨rfl, h⟩ .nil

theorem Fills.skip {s : Slot} (free : s.taken = false) : w.Fills [s] [] := by
  rw [Fills, List.filter_cons_of_neg (by simp [free])]
  exact .nil

theorem Fills.exactly (w : World) (name : String) (v : Value) :
    w.Fills [.exactly name v] [(name, v)] :=
  .one rfl rfl

/-- The names of the fields are those of the slots that are taken. -/
theorem Fills.names (h : w.Fills slots fs) :
    fs.map (·.1) = (slots.filter (·.taken)).map (·.name) := by
  unfold Fills at h
  generalize slots.filter (·.taken) = taken at h ⊢
  induction h with
  | nil => rfl
  | cons first _ ih => rw [List.map_cons, List.map_cons, first.1, ih]

theorem Fills.distinct (h : w.Fills slots fs) (names : (slots.map (·.name)).Nodup) :
    Entries.Distinct fs := by
  rw [Entries.Distinct, h.names]
  exact (List.filter_sublist.map _).nodup names

end World

/-- Fields are a mapping when they are recorded. -/
theorem record_lays {slots : List Slot} {fs : List (String × Value)} (h : w.Fills slots fs)
    (run : (record fs).run w = .ok u w') : w.Grows w' ∧ w'.Lays slots u := by
  cases run
  have k := (w.extends_alloc (.mapping (Entries.named fs))).grows
  exact ⟨k, _, fs, rfl, w.get_alloc_same _, h.grows k⟩

/-- What is known of a step when its argument is data. -/
theorem Build.renders {make : Value → Build Value} {view : Tree → Option Tree} (ho : w.Owned)
    (denotes : ∀ {w : World} {v : Value} {t : Tree}, w.Owned → w.Shows v t →
      (make v).Denotes w Shows (view t))
    (k : w.Grows w₁) (run : (make v).run w₁ = .ok u w') : w.Renders view v w' u := by
  intro data
  obtain ⟨t, ht, -, hu⟩ := (denotes (k.owned ho) (data.shows.grows k)).ok run
  exact ⟨t, ht, hu⟩

/-- An argument that is given fills its slot. -/
theorem optionalField_made {name : String} {make : Value → Build Value} {view : Tree → Option Tree}
    (ho : w.Owned) (leaves : ∀ {base : World} {k : Nat}, Leaves base k (make v))
    (denotes : ∀ {w : World} {v : Value} {t : Tree}, w.Owned → w.Shows v t →
      (make v).Denotes w Shows (view t))
    (k : w.Grows w₁) {fs : List (String × Value)}
    (run : (optionalField name v make).run w₁ = .ok fs w') :
    w₁.Grows w' ∧ w'.Fills [.made w name v view] fs := by
  refine ⟨(optionalField_leaves leaves).grows run, ?_⟩
  unfold optionalField at run
  split at run
  next none =>
    cases run
    exact .skip (by simp [Slot.made, none])
  next given =>
    obtain ⟨u, w₂, made, run⟩ := bind_ok run
    cases run
    exact .one (s := .made w name v view) (by simp [Slot.made, given]) (Build.renders ho denotes k made)

/-- An argument that is passed on fills its slot. -/
theorem optionalField_given {name : String} {fs : List (String × Value)}
    (run : (optionalField name v pure).run w = .ok fs w') :
    w.Grows w' ∧ w'.Fills [.given name v] fs := by
  refine ⟨(optionalField_leaves (Leaves.pure v)).grows run, ?_⟩
  unfold optionalField at run
  split at run
  next none =>
    cases run
    exact .skip (by simp [Slot.given, none])
  next given =>
    cases run
    exact .one (s := .given name v) (by simp [Slot.given, given]) rfl

namespace Response

/-! ### Responses and request bodies -/

/-- The fields of a media type. -/
def Media.slots (w : World) (m : Media) : List Slot :=
  [.made w "schema" m.schema Tree.emit?, .made w "examples" m.examples Tree.detached?,
    .made w "encoding" m.encoding Tree.detached?]

/-- The content, which has one media type. -/
def contentSlot (w : World) (type : Value) (m : Media) : Slot :=
  .always "content" (fun w' u => ∃ a media, u = .obj a ∧ w'.get a = .mapping [(type, media)] ∧
    w'.Lays (m.slots w) media) fun h k => by
      obtain ⟨a, media, rfl, hg, lays⟩ := h
      exact ⟨a, media, rfl, (k.get a (lt_size_of_mapping hg)).trans hg, lays.grows k⟩

/-- The fields of a response. -/
def slots (w : World) (description type headers links : Value) (m : Media) : List Slot :=
  [.given "description" description, .made w "headers" headers Tree.detached?,
    .made w "links" links Tree.detached?, contentSlot w type m]

/-- Whether a body is required: as it is said, or unless its schema is optional. -/
def needed (w : World) (required schema : Value) : Value :=
  if required.isNone then .bool (!Node.isOptional w schema) else required

/-- The fields of a request body. -/
def bodySlots (w : World) (type description required : Value) (m : Media) : List Slot :=
  [.given "description" description, .exactly "required" (needed w required m.schema),
    contentSlot w type m]

variable {m : Media} {description type headers links required : Value}

theorem Media.build_lays (ho : w.Owned) (k : w.Grows w₁) (run : m.build.run w₁ = .ok u w') :
    w₁.Grows w' ∧ w'.Lays (m.slots w) u := by
  obtain ⟨ss, w₂, schema, run⟩ := bind_ok run
  obtain ⟨xs, w₃, examples, run⟩ := bind_ok run
  obtain ⟨es, w₄, encoding, run⟩ := bind_ok run
  obtain ⟨k₁, hss⟩ := optionalField_made ho (Node.emit_leaves _) Node.emit_denotes k schema
  obtain ⟨k₂, hxs⟩ := optionalField_made ho (detached_leaves _) detached_denotes (k.trans k₁) examples
  obtain ⟨k₃, hes⟩ := optionalField_made ho (detached_leaves _) detached_denotes
    ((k.trans k₁).trans k₂) encoding
  have fills := ((hss.grows (k₂.trans k₃)).append (hxs.grows k₃)).append hes
  obtain ⟨k₄, lays⟩ := record_lays fills run
  exact ⟨(k₁.trans (k₂.trans k₃)).trans k₄, lays⟩

theorem content_fills (ho : w.Owned) (k : w.Grows w₁) (run : (content type m).run w₁ = .ok u w') :
    w₁.Grows w' ∧ w'.Fills [contentSlot w type m] [("content", u)] := by
  obtain ⟨media, w₂, build, run⟩ := bind_ok run
  obtain ⟨_, w₃, key, run⟩ := bind_ok run
  obtain ⟨k₁, lays⟩ := Media.build_lays ho k build
  have k₂ := (requireKey_leaves type).grows key
  cases run
  have k₃ := (w₃.extends_alloc (.mapping [(type, media)])).grows
  exact ⟨(k₁.trans k₂).trans k₃,
    Fills.one (s := contentSlot w type m) rfl
      ⟨_, media, rfl, w₃.get_alloc_same _, lays.grows (k₂.trans k₃)⟩⟩

/-- A response has the fields that are supplied, and its content. -/
theorem response_lays (ho : w.Owned)
    (run : (response description type headers links m).run w = .ok u w') :
    w'.Lays (slots w description type headers links m) u := by
  obtain ⟨ds, w₁, first, run⟩ := bind_ok run
  obtain ⟨hs, w₂, second, run⟩ := bind_ok run
  obtain ⟨ls, w₃, third, run⟩ := bind_ok run
  obtain ⟨c, w₄, last, run⟩ := bind_ok run
  obtain ⟨k₁, hds⟩ := optionalField_given first
  obtain ⟨k₂, hhs⟩ := optionalField_made ho (detached_leaves _) detached_denotes k₁ second
  obtain ⟨k₃, hls⟩ := optionalField_made ho (detached_leaves _) detached_denotes (k₁.trans k₂) third
  obtain ⟨k₄, hc⟩ := content_fills ho ((k₁.trans k₂).trans k₃) last
  have k₃₄ := k₃.trans k₄
  exact (record_lays ((((hds.grows (k₂.trans k₃₄)).append (hhs.grows k₃₄)).append
    (hls.grows k₄)).append hc) run).2

/-- A request body has the fields that are supplied, says whether it is required, and has its content.
-/
theorem body_lays (ho : w.Owned) (run : (body type description required m).run w = .ok u w') :
    w'.Lays (bodySlots w type description required m) u := by
  obtain ⟨_, _, ⟨⟩, run⟩ := bind_ok run
  obtain ⟨ds, w₁, first, run⟩ := bind_ok run
  obtain ⟨c, w₂, last, run⟩ := bind_ok run
  obtain ⟨k₁, hds⟩ := optionalField_given first
  obtain ⟨k₂, hc⟩ := content_fills ho k₁ last
  have said := Fills.exactly w₂ "required" (needed w required m.schema)
  exact (record_lays ((hds.grows k₂).append (said.append hc)) run).2

/-! ### Arguments that will do -/

/-- What a media type is made of will do, part by part. -/
structure Media.Accepted (w : World) (m : Media) : Prop where
  schema : w.Accepts Tree.emit? m.schema
  examples : w.Accepts Tree.detached? m.examples
  encoding : w.Accepts Tree.detached? m.encoding

theorem Media.Accepted.isData (h : m.Accepted w) : m.IsData w :=
  ⟨h.schema.1, h.examples.1, h.encoding.1⟩

theorem Media.Accepted.content? (h : m.Accepted w) (key : w.IsKey type) :
    ∃ c, content? (w.tree type) (MediaView.of w m) = some c := by
  obtain ⟨schema, hs⟩ := h.schema.field? "schema"
  obtain ⟨examples, hx⟩ := h.examples.field? "examples"
  obtain ⟨encoding, he⟩ := h.encoding.field? "encoding"
  simp only [Response.content?, MediaView.build?, MediaView.of, hs, hx, he, key.2,
    Option.bind_eq_bind, Option.bind_some, Option.pure_def]
  exact ⟨_, rfl⟩

/-- A response comes of any arguments each of which will do. -/
theorem response_accepts (ho : w.Owned) (hd : w.IsData description) (key : w.IsKey type)
    (hh : w.Accepts Tree.detached? headers) (hl : w.Accepts Tree.detached? links)
    (hm : m.Accepted w) : (response description type headers links m).Gives w fun _ _ => True := by
  obtain ⟨hs, hhs⟩ := hh.field? "headers"
  obtain ⟨ls, hls⟩ := hl.field? "links"
  obtain ⟨ds, hds, -⟩ := Tree.isField_given "description" (w.tree description)
  obtain ⟨c, hc⟩ := hm.content? key
  have made := response_denotes ho hm.isData hd key.1 hh.1 hl.1
  rw [response?, hds, hhs, hls, hc] at made
  exact Gives.mono made fun _ _ _ _ => trivial

/-- A request body comes of any arguments each of which will do. -/
theorem body_accepts (ho : w.Owned) (key : w.IsKey type) (hd : w.IsData description)
    (hr : w.IsData required) (hm : m.Accepted w) :
    (body type description required m).Gives w fun _ _ => True := by
  obtain ⟨ds, hds, -⟩ := Tree.isField_given "description" (w.tree description)
  obtain ⟨c, hc⟩ := hm.content? key
  have made := body_denotes ho hm.isData key.1 hd hr
  rw [body?, hds, hc] at made
  exact Gives.mono made fun _ _ _ _ => trivial

end Response

end OpenApiDoc
