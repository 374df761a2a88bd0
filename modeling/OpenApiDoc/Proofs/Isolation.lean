import OpenApiDoc.Proofs.Gathering
import OpenApiDoc.Proofs.Lasting

/-! # How far an operation is apart from its arguments

An operation copies its responses, reads its tags as texts, and makes its other collections anew. What
the mappings of its parameters, of its body and of its extra entries hold is not copied.

* `Operation.sharedValues` are the values that an operation has in common with its arguments.
* `World.Touched` says which objects items have been assigned to, `Access.assigned_touched` that a
  sequence of assignments touches their targets only.
* `Operation.Unmoved` says that an operation is in a later world what it was: everything that it
  reaches, its operation object, and its place in every map of paths.
* `Operation.build_isolated`: an operation is unmoved by assignments to what was there before, if no
  shared value reaches it. `Operation.build_shares`: otherwise it may be moved. -/

namespace OpenApiDoc

open Build World

/-! ### Assigning items -/

namespace World

variable {P : Addr → Prop} {u v w w' : World}

/-- Only these objects have been written to, and only those of them that are written to in place. -/
structure Touched (P : Addr → Prop) (w w' : World) : Prop where
  size : w'.size = w.size
  attributes : w'.attributes = w.attributes
  get : ∀ a, ¬ P a ∨ (w.get a).isWritten = false → w'.get a = w.get a

theorem Touched.refl (P : Addr → Prop) (w : World) : w.Touched P w := ⟨rfl, rfl, fun _ _ => rfl⟩

theorem Touched.trans (h : u.Touched P v) (k : v.Touched P w) : u.Touched P w where
  size := k.size.trans h.size
  attributes := k.attributes.trans h.attributes
  get a ha := by
    have same := h.get a ha
    rw [← same] at ha ⊢
    exact k.get a ha

theorem Touched.mono {Q : Addr → Prop} (h : w.Touched P w') (hq : ∀ a, P a → Q a) :
    w.Touched Q w' :=
  ⟨h.size, h.attributes, fun a ha => h.get a (ha.imp_left fun hn hp => hn (hq a hp))⟩

theorem Touched.owned (h : w.Touched P w') (ho : w.Owned) : w'.Owned := by
  intro a ha
  rw [h.size] at ha
  simpa [attributesOf, h.attributes] using ho a ha

/-- Data that holds nothing that was written to is the same data. -/
theorem Touched.data (h : w.Touched P w') {x : Value} (hx : w.IsData x)
    (same : ∀ b, w.Reaches x b → w'.get b = w.get b) : w'.IsData x ∧ w'.tree x = w.tree x := by
  refine hx.agree fun b hb => ?_
  have hd := hx.reached hb
  refine ⟨h.size ▸ hd.lt_size, same b hb, ?_⟩
  simpa [attributesOf, h.attributes] using hd.bare

end World

namespace Access

variable {α β : Type} {w : World}

theorem after_still_bind {act : Build α} {f : α → Build β} (h : act.Still w) :
    (act >>= f).after w = w ∨ ∃ a, (act >>= f).after w = (f a).after w := by
  unfold Build.Still at h
  simp only [after, EStateM.run_bind]
  cases run : act.run w with
  | ok a w' =>
      obtain rfl : w' = w := by simpa [run] using h
      exact .inr ⟨a, rfl⟩
  | error f w' =>
      obtain rfl : w' = w := by simpa [run] using h
      exact .inl rfl

theorem after_get_bind (f : World → Build β) :
    ((MonadState.get : Build World) >>= f).after w = (f w).after w :=
  rfl

theorem after_look_bind (a : Addr) (f : Object → Build β) :
    (look a >>= f).after w = (f (w.get a)).after w :=
  rfl

theorem refuseItem_after (v k : Value) : (refuseItem v k).after w = w := by
  rw [refuseItem, after_get_bind]
  split <;> rfl

/-- Assigning an item does nothing, or it writes to the mapping or the list. -/
theorem setItem_after (w : World) (a : Addr) (k u : Value) :
    (setItem (.obj a) k u).after w = w ∨
      (w.get a).isWritten ∧ ∃ o, (setItem (.obj a) k u).after w = w.set a o := by
  simp only [setItem, after_look_bind]
  cases hg : w.get a with
  | mapping es =>
      rcases after_still_bind (requireKey_still k) with h | ⟨_, h⟩
      · exact .inl h
      · exact .inr ⟨rfl, _, h⟩
  | list xs =>
      rcases after_still_bind (position_still .list k) with h | ⟨i, h⟩
      · exact .inl h
      · cases hi : index? xs.length i with
        | none => exact .inl (by rw [h, hi]; rfl)
        | some j => exact .inr ⟨rfl, .list (xs.set j u), by rw [h, hi]; rfl⟩
  | _ => exact .inl (refuseItem_after _ k)

/-- An assignment of an item. -/
structure Assignment where
  target : Addr
  key : Value
  value : Value

/-- The world after assignments, some of which may fail. -/
def assigned (w : World) (ts : List Assignment) : World :=
  ts.foldl (fun w t => (setItem (.obj t.target) t.key t.value).after w) w

theorem setItem_touched (w : World) (a : Addr) (k u : Value) :
    w.Touched (· = a) ((setItem (.obj a) k u).after w) := by
  rcases setItem_after w a k u with h | ⟨kind, o, h⟩
  · rw [h]
    exact .refl _ w
  · rw [h]
    refine ⟨w.size_set a o, rfl, fun b hb => w.get_set_of_ne o ?_⟩
    rintro rfl
    rcases hb with hb | hb
    · exact hb rfl
    · simp [kind] at hb

theorem assigned_touched (ts : List Assignment) (w : World) :
    w.Touched (fun a => ∃ t ∈ ts, t.target = a) (assigned w ts) := by
  induction ts generalizing w with
  | nil => exact .refl _ w
  | cons t ts ih =>
      have first := setItem_touched w t.target t.key t.value
      refine (first.mono fun a ha => ?_).trans ((ih _).mono fun a ha => ?_)
      · exact ⟨t, by simp, ha.symm⟩
      · obtain ⟨s, hs, rfl⟩ := ha
        exact ⟨s, List.mem_cons_of_mem t hs, rfl⟩

end Access

/-! ### What values do not reach -/

namespace World

variable {w w' : World} {E : Enclosure}

/-- What was there, can be written to and is not reached from the values. -/
def beyond (w : World) (vs : List Value) : Enclosure where
  doors _ := False
  inside b := b < w.size ∧ ¬ w.Inert (.obj b) ∧ ∀ v ∈ vs, ¬ w.Reaches v b
  spared := False

theorem Tidy.encloses_beyond (h : w.Tidy) (vs : List Value) : w.Encloses (w.beyond vs) where
  tidy := h
  apart a b ha _ hab := by
    rintro ⟨-, hb, apart⟩
    refine ha ⟨hab.lt_size, fun hi => hb (hi.part hab), fun v hv hr => ?_⟩
    obtain ⟨c, rfl, hc⟩ := hr
    exact apart _ hv ⟨c, rfl, hc.tail hab⟩
  lt a ha := ha.1
  inert a ha := ha.2.1
  door _ hd := hd.elim
  untangled hs := hs.elim

theorem open_beyond {vs : List Value} {v : Value} (hv : v ∈ vs) (has : w.Has v) :
    w.Open (w.beyond vs) v := by
  cases v with
  | atom a => trivial
  | obj a => exact ⟨has, fun hi => hi.2.2 _ hv ⟨a, rfl, .refl⟩⟩

/-- Where there are no doors, what is outside reaches nothing that is inside. -/
theorem Encloses.reached (h : w.Encloses E) (shut : ∀ a, ¬ E.doors a) {v : Value}
    (hv : w.Open E v) {b : Addr} (hb : w.Reaches v b) : ¬ E.inside b := by
  obtain ⟨a, rfl, hab⟩ := hb
  induction hab with
  | refl => exact hv.2
  | tail _ hbc ih => exact h.apart _ _ ih (shut _) hbc

end World

/-! ### Operations -/

namespace Operation

variable {w w' : World} {E : Enclosure}

/-- The values that an operation has in common with its arguments: those in the mappings of the
parameters, of the body and of the extra entries. -/
def sharedValues (w : World) (parameters requestBody : Value) (extra : Entries) : List Value :=
  (w.listed parameters).flatMap w.entryValues ++ w.entryValues requestBody ++ extra.map (·.2)

/-- Everything that can be written to and was there is beyond the operation that is built, unless it
is reached from one of the shared values. -/
theorem build_beyond {method path responses operationId summary tags parameters requestBody
    extra v : Value} {w₁ : World} (hw : w.Tidy)
    (has : ∀ u ∈ [method, path, responses, operationId, summary, tags, parameters, requestBody],
      w.Has u) (hx : w.Has extra)
    (run : (build method path responses operationId summary tags parameters requestBody
      extra).run w = .ok v w₁) :
    ∃ es w₀, extra.entriesOrEmpty.run w = .ok es w₀ ∧ w.Extends w₀ ∧ w₀.Extends w₁ ∧
      w₁.Encloses (w₀.beyond (sharedValues w₀ parameters requestBody es)) ∧
      w₁.Usable (w₀.beyond (sharedValues w₀ parameters requestBody es)) v := by
  have usable : w.Usable .empty extra := by
    cases extra with
    | atom a => trivial
    | obj a => exact ⟨hx, fun hi => hi, fun hd => hd⟩
  obtain ⟨es, w₀, read, rest⟩ := bind_ok run
  obtain ⟨k, hw₀, hes⟩ := (Value.entriesOrEmpty_keeps usable).ok hw.encloses_empty read
  have has₀ (u : Value) (hu : u ∈ [method, path, responses, operationId, summary, tags, parameters,
      requestBody]) : w₀.Has u := (has u hu).mono k.size
  have parts (u : Value) := hw₀.tidy.has_parts u
  have shared {x : Value} (hx : x ∈ sharedValues w₀ parameters requestBody es) (h : w₀.Has x) :
      w₀.Open (w₀.beyond (sharedValues w₀ parameters requestBody es)) x := open_beyond hx h
  have extras : OpenEntries (w₀.beyond (sharedValues w₀ parameters requestBody es)) w₀ es :=
    fun e he => ⟨(hes e he).1,
      shared (List.mem_append_right _ (List.mem_map_of_mem he)) (hes e he).2.has⟩
  have made := ofFields_entries_keeps has₀ (fun u hu x hx => shared ?_ ?_)
    (fun x hx => shared ?_ ?_) extras
  · obtain ⟨k', closed, hv⟩ := made.ok (hw₀.tidy.encloses_beyond _) rest
    exact ⟨es, w₀, read, k, k', closed, hv⟩
  · exact List.mem_append_left _ (List.mem_append_left _ (List.mem_flatMap.mpr ⟨u, hu, hx⟩))
  · exact parts u x (List.mem_append_left _ hx)
  · exact List.mem_append_left _ (List.mem_append_right _ hx)
  · exact parts requestBody x (List.mem_append_left _ hx)

/-! ### The operation that is built -/

/-- The value is an operation, with a list of texts as its tags and a mapping of extra entries. -/
structure Stored (w : World) (v : Value) (op : Operation) : Prop where
  found : of? w v = some op
  tags : ∀ t, op.tags = some t → ∃ names : List String, w.get t = .list (names.map .str)
  extra : ∃ es, w.get op.extra = .mapping es

theorem newListOrNone_gives {α : Type} {item : α → Build Value} {R : α → Value → Prop}
    {xs : Option (List α)} (h : ∀ x w, (item x).Gives w fun u _ => R x u) :
    (newListOrNone item xs).Gives w fun a w' => ∀ t, a = some t →
      ∃ ys us, w'.get t = .list us ∧ List.Forall₂ R ys us := by
  cases xs with
  | none => exact .pure (by simp)
  | some ys =>
      refine (Gives.mapM (R := fun x u _ => R x u) (fun _ _ _ _ hr _ => hr)
        fun x _ w' _ => h x w').bind fun us w₁ _ hus => ?_
      refine (Gives.new (Q := fun a w' => w'.get a = .list us) (w₁.get_alloc_same _)).bind
        fun a w₂ _ ha => .pure ?_
      rintro t ⟨⟩
      exact ⟨ys, us, ha, hus⟩

theorem newRecord_gives (fs : List (String × Value)) :
    (newRecord fs).Gives w fun a w' => w'.get a = .mapping (Entries.named fs) :=
  .new (w.get_alloc_same _)

theorem make_gives (f : Fields) : (make f).Gives w fun v w' => ∃ op, Stored w' v op := by
  have records (fs : List (String × Value)) (w : World) :
      (record fs).Gives w fun _ _ => True :=
    (Paths.record_gives w fs).mono fun _ _ _ _ => trivial
  refine (Gives.mapM (R := fun _ _ _ => True) (fun _ _ _ _ _ _ => trivial) fun r _ w' _ =>
    (records r.2 w').bind fun _ _ _ _ => .pure trivial).bind fun rs w₁ _ _ => ?_
  refine (newRecord_gives rs).bind fun responses w₂ _ _ => ?_
  refine (newListOrNone_gives fun s w => .pure rfl).bind fun tags w₃ _
    (htags : ∀ t, tags = some t →
      ∃ names us, w₃.get t = .list us ∧ List.Forall₂ (fun s u => Value.str s = u) names us) => ?_
  refine (newListOrNone_gives records).bind fun parameters w₄ k₄ _ => ?_
  have body : (f.requestBody.mapM newRecord).Gives w₄ fun _ _ => True := by
    cases f.requestBody with
    | none => exact .pure trivial
    | some fs => exact (newRecord_gives fs).bind fun _ _ _ _ => .pure trivial
  refine body.bind fun requestBody w₅ k₅ _ => ?_
  refine (newRecord_gives f.extra).bind fun extra w₆ k₆ hextra => ?_
  refine (Gives.new (Q := fun a w' => w₆.Extends w' ∧ w'.get a = .operation _)
    ⟨w₆.extends_alloc _, w₆.get_alloc_same _⟩).bind fun a w₇ _ ⟨k₇, ha⟩ => .pure ?_
  refine ⟨_, by rw [of?, ha], fun t ht => ?_, _, (k₇.get _ (lt_size_of_mapping hextra)).trans hextra⟩
  obtain ⟨names, us, hg, texts⟩ := htags t ht
  have lt := lt_size_of_get hg (by simp)
  have k := ((k₄.trans k₅).trans k₆).trans k₇
  rw [← List.forall₂_map_left_iff, List.forall₂_eq_eq_eq] at texts
  exact ⟨names, (k.get t lt).trans (texts ▸ hg)⟩

theorem build_stored {method path responses operationId summary tags parameters requestBody
    extra v : Value} {w₁ : World} (run : (build method path responses operationId summary tags
      parameters requestBody extra).run w = .ok v w₁) : ∃ op, Stored w₁ v op := by
  obtain ⟨es, w₂, -, run⟩ := bind_ok run
  obtain ⟨x, w₃, -, run⟩ := bind_ok run
  obtain ⟨read, w₄, -, run⟩ := bind_ok run
  obtain ⟨w₅, w₆, -, run⟩ := bind_ok run
  obtain ⟨f, w₇, -, run⟩ := bind_ok run
  obtain ⟨u, w', run', -, stored⟩ := make_gives (w := w₇) f
  obtain ⟨rfl, rfl⟩ : v = u ∧ w₁ = w' := by simpa using run.symm.trans run'
  exact stored

/-! ### What is left as it was -/

/-- The value under a text in a mapping. -/
def itemIn (w : World) (key : String) (v : Value) : Option Value :=
  (v.mapping? w).bind fun es => Entries.find? w.sameKey es (.str key)

theorem find?_named (w : World) (fs : List (String × Value)) (key : String) :
    Entries.find? w.sameKey (Entries.named fs) (.str key) = fs.lookup key := by
  induction fs with
  | nil => rfl
  | cons f fs ih =>
      obtain ⟨name, u⟩ := f
      by_cases h : name = key
      · simp [Entries.named, Entries.find?, h]
      · have h' : (key == name) = false := beq_eq_false_iff_ne.mpr (Ne.symm h)
        simpa [Entries.named, Entries.find?, List.lookup_cons, h, h'] using ih

theorem itemIn_named {a : Addr} {fs : List (String × Value)}
    (hg : w.get a = .mapping (Entries.named fs)) (key : String) :
    itemIn w key (.obj a) = fs.lookup key := by
  simp [itemIn, Value.mapping?, hg, find?_named]

/-- In the second world the operation is what it was in the first one. If it is data and the
identifier has not been written to, its operation object shows the same, written by itself or into a
map of paths. -/
structure Unmoved (w w' : World) (v : Value) (op : Operation) : Prop where
  found : of? w' v = some op
  reached : ∀ b, w.Reaches v b → w'.get b = w.get b
  object : w.IsData v → ∀ d, w.IsData d → (∀ b, w.Reaches d b → w'.get b = w.get b) →
    ∀ w₁, w'.Grows w₁ → (op.emit d).Gives w₁ fun u w₂ => w₂.Shows u (op.written w d)
  place : w.IsData v → ∀ d, w.IsData d → (∀ b, w.Reaches d b → w'.get b = w.get b) →
    ∀ w₁, w'.Grows w₁ → ∀ m es, m.mapping? w₁ = some es → (∀ e ∈ es, w₁.Has e.2) →
      (d, v) ∈ es → ∀ paths w₂, (Paths.build m).run w₁ = .ok paths w₂ →
        ∃ u, (itemIn w₂ op.path paths).bind (itemIn w₂ (Text.lower op.method)) = some u ∧
          w₂.Shows u (op.written w d)

theorem IsOperation.touched {P : Addr → Prop} {v : Value} {op : Operation}
    (h : w.IsOperation v op) (k : w.Touched P w')
    (same : ∀ b, w.Reaches v b → w'.get b = w.get b) : w'.IsOperation v op := by
  obtain ⟨a, rfl, hg⟩ := of?_eq h.found
  have part (b : Addr) (hb : .obj b ∈ (Object.operation op).parts) : w'.get b = w.get b :=
    same b ⟨a, rfl, .single (by rwa [Holds, hg])⟩
  refine ⟨(k.data h.data same).1, ?_, fun t ht => ?_, ?_⟩
  · rw [of?, same a ⟨a, rfl, .refl⟩, hg]
  · rw [part t (by simp [Object.parts, fields, optionalObject, ht])]
    exact h.tags t ht
  · rw [part op.extra (by simp [Object.parts, fields])]
    exact h.extra

theorem Stored.isOperation {v : Value} {op : Operation} (h : Stored w v op) (hv : w.IsData v) :
    w.IsOperation v op where
  data := hv
  found := h.found
  tags t ht := let ⟨_, hg⟩ := h.tags t ht; ⟨_, hg⟩
  extra := h.extra

/-- What is written into a map of paths stands at its place. -/
theorem place_of_build {m v d : Value} {es : Entries} {op : Operation} {paths : Value}
    (ho : w.Owned) (hv : w.IsOperation v op) (hd : w.IsData d) (hm : m.mapping? w = some es)
    (has : ∀ e ∈ es, w.Has e.2) (he : (d, v) ∈ es) (run : (Paths.build m).run w = .ok paths w') :
    ∃ u, (itemIn w' op.path paths).bind (itemIn w' (Text.lower op.method)) = some u ∧
      w'.Shows u (op.written w d) := by
  have walked := Paths.build_walked hm fun e he a ha => by
    have := has e he
    rwa [ha] at this
  obtain ⟨as, ⟨p, qs, rfl, hp, paired⟩, hw⟩ :
      ∃ as, Paths.HoldsPaths w' paths (Paths.grouped as) ∧ Paths.Walked w es as w' := by
    simpa [run] using walked
  obtain ⟨a, ha, name, found⟩ : ∃ a ∈ as, a.name = d ∧ of? w v = some a.op := by
    obtain ⟨i, hi, hei⟩ := List.mem_iff_getElem.mp he
    have hi' : i < as.length := hw.entries.length_eq ▸ hi
    have step := hw.entries.get hi hi'
    simp only [List.get_eq_getElem, hei] at step
    exact ⟨as[i], List.getElem_mem hi', step⟩
  obtain rfl : op = a.op := Option.some.inj (hv.found.symm.trans found)
  subst name
  refine ⟨a.object, ?_, (hw.made a ha).shows ho hv hd⟩
  have object := (Paths.gathers_grouped hw).object a ha
  obtain ⟨ms, hms, hobject⟩ := Option.bind_eq_some_iff.mp object
  obtain ⟨q, hq, b, rfl, hb⟩ := Entries.Paired.lookup_right paired hms
  rw [itemIn_named hp]
  show (qs.lookup a.path).bind _ = _
  rw [hq, Option.bind_some, itemIn_named hb]
  exact hobject

/-- An operation of which nothing has been written to. -/
theorem Stored.unmoved {P : Addr → Prop} {v : Value} {op : Operation} (h : Stored w v op)
    (ho : w.Owned) (k : w.Touched P w') (same : ∀ b, w.Reaches v b → w'.get b = w.get b) :
    Unmoved w w' v op := by
  have found : of? w' v = some op := by
    obtain ⟨a, rfl, hg⟩ := of?_eq h.found
    rw [of?, same a ⟨a, rfl, .refl⟩, hg]
  have operation (hv : w.IsData v) : w'.IsOperation v op :=
    IsOperation.touched (h.isOperation hv) k same
  have shown (hv : w.IsData v) {d : Value} (hd : w.IsData d) {w₁ : World} (g : w'.Grows w₁)
      (hs : ∀ b, w.Reaches d b → w'.get b = w.get b) :
      op.written w₁ d = op.written w d := by
    rw [written_grows (operation hv) (k.data hd hs).1 g]
    have part {u : Value} (hu : u ∈ (Object.operation op).parts) : w.IsData u :=
      (h.isOperation hv).part hu
    obtain ⟨a, rfl, hg⟩ := of?_eq h.found
    refine written_congr ?_ fun b hb => ?_
    · unfold identifier
      split
      · split
        · exact (k.data hd hs).2
        · simp
      · exact (k.data hd hs).2
    · refine (k.data (part hb) fun c hc => same c (hc.part (a := a) ?_)).2
      rwa [hg]
  refine ⟨found, same, fun hv d hd hs w₁ g => ?_, fun hv d hd hs w₁ g m es hm has he paths w₂ run => ?_⟩
  · have untouched := k.data hd hs
    rw [← shown hv hd g hs]
    exact emit_gives (g.owned (k.owned ho)) ((operation hv).grows g) (untouched.1.grows g).1
  · have untouched := k.data hd hs
    rw [← shown hv hd g hs]
    exact place_of_build (g.owned (k.owned ho)) ((operation hv).grows g) (untouched.1.grows g).1 hm
      has he run

/-- An operation is unmoved by assignments to what was there before it was built, as long as no value
that it shares with its arguments reaches what is assigned to. -/
theorem build_isolated {method path responses operationId summary tags parameters requestBody
    extra v : Value} {w₁ : World} (hw : w.Tidy)
    (has : ∀ u ∈ [method, path, responses, operationId, summary, tags, parameters, requestBody],
      w.Has u) (hx : w.Has extra)
    (run : (build method path responses operationId summary tags parameters requestBody
      extra).run w = .ok v w₁) :
    ∃ op es w₀, of? w₁ v = some op ∧ extra.entriesOrEmpty.run w = .ok es w₀ ∧
      ∀ ts : List Access.Assignment, (∀ t ∈ ts, t.target < w.size ∧
        ∀ u ∈ sharedValues w₀ parameters requestBody es, ¬ w₀.Reaches u t.target) →
        Unmoved w₁ (Access.assigned w₁ ts) v op := by
  obtain ⟨op, stored⟩ := build_stored run
  obtain ⟨es, w₀, read, k₀, k₁, closed, hv⟩ := build_beyond hw has hx run
  refine ⟨op, es, w₀, stored.found, read, fun ts apart => ?_⟩
  have touched := Access.assigned_touched ts w₁
  refine stored.unmoved closed.tidy.owned touched fun b hb => touched.get b ?_
  have outside := closed.reached (fun _ hd => hd) hv.open hb
  by_cases target : ∃ t ∈ ts, t.target = b
  · -- What is reached and was there is inert, so no assignment writes to it.
    obtain ⟨t, ht, rfl⟩ := target
    have lt : t.target < w₀.size := Nat.lt_of_lt_of_le (apart t ht).1 k₀.size
    have inert : w₀.Inert (.obj t.target) := by
      by_contra hi
      exact outside ⟨lt, hi, (apart t ht).2⟩
    exact .inr (k₁.get _ lt ▸ inert.unwritten)
  · exact .inl target

/-- A list of tags, and responses with one that is an empty mapping. -/
def responsesStore : World :=
  (((World.initial.alloc (.list [.str "read"])).2.alloc (.mapping [])).2.alloc
    (.mapping [(.int 200, .obj 17)])).2

theorem responsesStore_tidy : responsesStore.Tidy := by
  have first := (Session.initial_tidy.encloses_empty.alloc (o := .list [.str "read"])
    (.list (by simp [World.Open]))).1
  have second := (first.alloc (o := .mapping []) (.mapping (by simp [OpenEntries]))).1
  refine (second.alloc (o := .mapping [(.int 200, .obj 17)]) (.mapping ?_)).1.tidy
  simp only [OpenEntries, List.mem_singleton, forall_eq]
  exact ⟨.atom _, by decide, fun hi => hi⟩

/-- The tags, the responses and what is under them are written to. -/
def overwriting : List Access.Assignment :=
  [⟨16, .int 0, .str "write"⟩, ⟨17, .str "description", .str "ok"⟩, ⟨18, .int 200, .none⟩]

theorem build_isolated_overwriting :
    responsesStore.Tidy ∧ ∃ v w₁ op,
      (build (.str "get") (.str "/") (.obj 18) .none .none (.obj 16) .none .none .none).run
        responsesStore = .ok v w₁ ∧ of? w₁ v = some op ∧
      Unmoved w₁ (Access.assigned w₁ overwriting) v op := by
  have old (a : Addr) (ha : a < responsesStore.size) : responsesStore.Has (.obj a) := ha
  have has : ∀ u ∈ [Value.str "get", .str "/", .obj 18, .none, .none, .obj 16, .none, .none],
      responsesStore.Has u := by
    simp only [List.mem_cons, List.not_mem_nil, or_false, forall_eq_or_imp, forall_eq]
    exact ⟨trivial, trivial, old 18 (by decide), trivial, trivial, old 16 (by decide), trivial,
      trivial⟩
  obtain ⟨v, w₁, run⟩ : ∃ v w₁, (build (.str "get") (.str "/") (.obj 18) .none .none (.obj 16)
      .none .none .none).run responsesStore = .ok v w₁ := ⟨_, _, rfl⟩
  obtain ⟨op, es, w₀, found, read, unmoved⟩ :=
    build_isolated responsesStore_tidy has (show responsesStore.Has .none from trivial) run
  obtain ⟨rfl, rfl⟩ : [] = es ∧ responsesStore = w₀ := by
    simpa [Value.entriesOrEmpty, World.isEmpty, Atom.isEmpty] using read
  refine ⟨responsesStore_tidy, v, w₁, op, run, found, unmoved overwriting ?_⟩
  have shut : sharedValues responsesStore .none .none [] = [] := rfl
  simp only [overwriting, List.mem_cons, List.not_mem_nil, or_false, forall_eq_or_imp, forall_eq,
    shut, false_implies, implies_true, and_true]
  decide

/-- A schema in a parameter, which stands in a list. -/
def parametersStore : World := Paths.storeOf [.mapping [], .mapping [(.str "type", .str "string")],
  .mapping [(.str "name", .str "a"), (.str "in", .str "query"), (.str "schema", .obj 1)],
  .list [.obj 2]]

/-- The operation object of a value that is an operation. -/
def objectOf (v default : Value) : Build Value := do
  match of? (← get) v with
  | some op => op.emit default
  | none => return .none

/-- Build an operation, write to the schema in its parameter, and compare the operation objects before
and after. -/
def comparedAcross : Build Value := do
  let op ← build (.str "get") (.str "/") (.obj 0) .none .none .none (.obj 3) .none .none
  let before ← objectOf op .none
  let _ ← Access.setItem (.obj 1) (.str "type") (.str "integer")
  let after ← objectOf op .none
  Call.equal before after

set_option maxRecDepth 4000 in
/-- An operation does not stay what it was when a schema of its parameters is written to. -/
theorem build_shares : parametersStore.Reaches (.obj 3) 1 ∧
    (match comparedAcross.run parametersStore with
      | .ok outcome _ => some outcome
      | .error _ _ => none) = some (.bool false) := by
  refine ⟨⟨3, rfl, .head (b := 2) ?_ (.single ?_)⟩, by decide +kernel⟩
  · simp [Holds, parametersStore, Paths.storeOf, World.get, Object.parts]
  · simp [Holds, parametersStore, Paths.storeOf, World.get, Object.parts]

end Operation
end OpenApiDoc
