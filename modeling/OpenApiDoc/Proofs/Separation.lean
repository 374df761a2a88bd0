import OpenApiDoc.Proofs.Composition
import OpenApiDoc.Proofs.Inputs

/-! # Nodes are made outside

Every function that makes nodes keeps an enclosure closed, and what it gives is usable, if what it
was given is not inside. A node that it makes is made with everything that it reaches:

* `World.Made` says that a node was made by a step, with a part of the store that nothing before it
  holds and that holds nothing before it but inert values.
* `Node.ofFields_keeps`, `Node.withFlag_keeps`: the two ways in which nodes are made.
* `Build.Widens` is for merging, which lays out what may be inside before it is copied.
* `Composition.outside`: what is composed of values that are not inside is usable. With it the
  constructors of schemas are followed. -/

namespace OpenApiDoc

open Build World

variable {E : Enclosure} {w w' : World}

/-! ### Nodes -/

namespace World

/-- The value is a node. -/
def IsNode (w : World) (v : Value) : Prop := ∃ a f o, v = .obj a ∧ w.get a = .node f o

instance (w : World) (v : Value) : Decidable (w.IsNode v) :=
  decidable_of_iff (Node.parts? w v).isSome (by
    cases v with
    | atom a => simp [Node.parts?, IsNode]
    | obj a => cases hg : w.get a <;> simp [Node.parts?, IsNode, hg, -Bool.exists_bool])

/-- A step from `w` has made the node `v` together with all objects from some address on. Nothing
older holds one of them, and they hold nothing older but inert values. -/
structure Made (w : World) (v : Value) (w' : World) : Prop where
  split : ∃ base n f o, w.size ≤ base ∧ base ≤ n ∧ v = .obj n ∧ w'.get n = .node f o ∧
    (∀ a b, a < base → w'.Holds a b → b < base) ∧
    ∀ a b, base ≤ a → w'.Holds a b → base ≤ b ∨ w'.Inert (.obj b)

theorem Made.mono {v : Value} {w₀ : World} (h : w.Made v w') (k : w₀.size ≤ w.size) :
    w₀.Made v w' := by
  obtain ⟨base, n, f, o, hb, rest⟩ := h.split
  exact ⟨base, n, f, o, Nat.le_trans k hb, rest⟩

/-- Everything that was there, as an enclosure. -/
def past (w : World) : Enclosure where
  doors _ := False
  inside a := a < w.size ∧ ¬ w.Inert (.obj a)
  spared := False

theorem Tidy.encloses_past (h : w.Tidy) : w.Encloses w.past where
  tidy := h
  apart a b ha _ hab hb := by
    have inert : w.Inert (.obj a) := Classical.not_not.mp fun hi => ha ⟨hab.lt_size, hi⟩
    exact hb.2 (inert.part hab)
  lt a ha := ha.1
  inert a ha := ha.2
  door a ha := ha.elim
  untangled hs := hs.elim

end World

/-- A step that makes nodes outside of every enclosure makes them with all that they reach. -/
theorem Build.Keeps.made {act : Build Value}
    (h : ∀ E, act.Keeps (Encloses E) w fun u w' => w'.Usable E u ∧ w'.IsNode u) :
    act.Keeps (Encloses E) w fun u w' => w'.Usable E u ∧ w.Made u w' := by
  intro hw
  cases run : act.run w with
  | error f w' => exact (h E).error hw run
  | ok u w' =>
      obtain ⟨k, hw', usable, -⟩ := (h E).ok hw run
      obtain ⟨-, apart, outside, n, f, o, rfl, hn⟩ := (h w.past).ok hw.tidy.encloses_past run
      have free {a : Addr} (ha : ¬ w.past.inside a) : w.size ≤ a ∨ w'.Inert (.obj a) := by
        by_cases lt : a < w.size
        · have inert : w.Inert (.obj a) := Classical.not_not.mp fun hi => ha ⟨lt, hi⟩
          exact .inr (inert.follows k.follows)
        · exact .inl (Nat.not_lt.mp lt)
      refine ⟨k, hw', usable, w.size, n, f, o, Nat.le_refl _, ?_, rfl, hn, fun a b ha hab => ?_,
        fun a b ha hab => ?_⟩
      · refine (free outside.2.1).resolve_right fun hi => ?_
        simpa [hn, Object.isInert] using hi.kind
      · rw [Holds, k.get a ha] at hab
        exact hw.tidy.part a b hab
      · exact free (apart.apart a b (fun hi => Nat.not_lt.mpr ha hi.1) (fun hd => hd) hab)

namespace Node

theorem own_keeps {fs : List (String × Value)} (h : ∀ f ∈ fs, w.Has f.2) :
    (own fs).Keeps (Encloses E) w fun a w' =>
      w'.Grown E w.size (.obj a) ∧ ∃ es, w'.get a = .mapping es := by
  refine (Keeps.mapM_entries (fun f : String × Value => .str f.1) (fun _ _ => .atom _)
    fun f hf w₁ k => Value.plain_grown ((h f hf).mono k.size)).bind fun es w₁ _ hes => ?_
  refine (Keeps.collect (.mapping hes.entries) rfl hes.sprouts).mono ?_
  exact fun a w₂ _ _ ha => ⟨ha.2, es, ha.1⟩

/-- Making a node keeps what copying its fragment keeps, and what adding the node to it keeps. The
fragment is copied before the flag is refused. -/
theorem ofFields_rule {I : World → Prop} {given : List (String × Value)} {R : Addr → World → Prop}
    {Q : Value → World → Prop}
    (owns : ∀ v fs, given.lookup "fragment" = some v →
      Field.mapping w Field.any (.value v) = .ok fs → (own fs).Keeps I w R)
    (adds : ∀ a o w₁, w.Extends w₁ → R a w₁ →
      (Build.new (.node a o)).Keeps I w₁ fun n w₂ => Q (.obj n) w₂) :
    (ofFields given).Keeps I w Q := by
  refine .get_bind ?_
  simp only
  generalize Field.defaulted "is_optional" (given.lookup "is_optional") false Field.bool = flag
  cases hf : Field.required given "fragment" (given.lookup "fragment")
      (Field.mapping w Field.any) with
  | error rs =>
      refine .bind (Q := fun c _ => c = .error rs) (.pure rfl) fun c w₁ _ hc => ?_
      subst hc
      cases flag <;> exact .throw _
  | ok fs =>
      obtain ⟨v, hv, hm⟩ := Field.required_ok hf
      refine .bind (Q := fun c w' => ∃ a, c = .ok a ∧ R a w') ?_ fun c w₁ k hc => ?_
      · exact (owns v fs hv hm).bind fun a w₁ _ ha => .pure ⟨a, rfl, ha⟩
      · obtain ⟨a, rfl, ha⟩ := hc
        cases flag with
        | error rs => exact .throw _
        | ok o => exact (adds a o w₁ k ha).bind fun n w₂ _ hn => .pure hn

/-- A node from fields, wherever they are. -/
theorem ofFields_keeps (given : List (String × Value)) :
    (ofFields given).Keeps (Encloses E) w fun u w' => w'.Usable E u ∧ w.Made u w' := by
  refine Keeps.made fun E => .from fun hw => ofFields_rule
    (R := fun a w' => w'.Grown E w.size (.obj a) ∧ ∃ es, w'.get a = .mapping es)
    (fun v fs _ hm => ?_) fun a o w₁ _ ⟨ha, es, hg⟩ => ?_
  · obtain ⟨es, he, hfs⟩ := Field.mapping_ok hm
    refine own_keeps fun f hf => ?_
    obtain ⟨e, hmem, heq⟩ := hfs f hf
    have same : e.2 = f.2 := by simpa [Field.any] using heq
    exact same ▸ (hw.tidy.entries he e hmem).2
  · have untangled hs := (ha.sprout hs).toUnshared
    exact (Keeps.add (.node ha.usable.open hg untangled)).mono fun n w₂ _ _ hn =>
      ⟨hn.2, n, a, o, rfl, hn.1⟩

theorem ofEntries_keeps {es : Entries} (h : OpenEntries E w es) (o : Bool) :
    (ofEntries es o).Keeps (Encloses E) w fun u w' => w'.Usable E u ∧ w.Made u w' :=
  (newMapping_keeps h).bind fun _ _ k _ =>
    (ofFields_keeps _).mono fun _ _ _ _ hu => ⟨hu.1, hu.2.mono k.size⟩

theorem schema_keeps {f : Addr} (hf : w.Has (.obj f)) :
    (schema f).Keeps (Encloses E) w fun u w' => w'.Usable E u :=
  (copyObject_keeps hf).bind fun _ _ _ hb => .pure hb

theorem parts?_eq {v : Value} {f : Addr} {o : Bool} (h : parts? w v = some (f, o)) :
    ∃ a, v = .obj a ∧ w.get a = .node f o := by
  cases v with
  | atom a => simp [parts?] at h
  | obj a => exact ⟨a, rfl, by cases hg : w.get a <;> simp_all [parts?]⟩

/-- The schema of a node is made of new objects. -/
theorem schema_grown {a f : Addr} {o : Bool} (hg : w.get a = .node f o) :
    (schema f).Keeps (Encloses E) w fun u w' => w'.Grown E w.size u := by
  refine .from fun hw => ?_
  have there : w.Has (.obj f) := hw.tidy.has_part (a := a) (by simp [hg, Object.parts])
  exact (copyObject_grown there fun _ hs => hw.untangled hs a f o hg).bind fun _ _ _ hb => .pure hb

/-- The schema of any value that is not inside is made of new objects. -/
theorem emit_grown {v : Value} (hv : w.Open E v) :
    (emit v).Keeps (Encloses E) w fun u w' => w'.Grown E w.size u := by
  refine .get_bind ?_
  cases hp : parts? w v with
  | some p =>
      obtain ⟨a, rfl, hg⟩ := parts?_eq hp
      exact schema_grown hg
  | none =>
      refine (Value.entries_has hv).bind fun es w₁ k hes => ?_
      refine (Keeps.mapM_entries (fun e : Value × Value => e.1) (fun e he => (hes e he).1)
        fun e he w₂ k' => Value.plain_grown ((hes e he).2.mono k'.size)).bind fun fs w₂ _ hfs => ?_
      exact (newMapping_grown hfs).mono fun u w₃ _ _ hu =>
        ⟨hu.usable, fun hs => (hu.sprout hs).mono k.size (Nat.le_refl _)⟩

theorem emit_keeps {v : Value} (hv : w.Open E v) :
    (emit v).Keeps (Encloses E) w fun u w' => w'.Usable E u :=
  (emit_grown hv).mono fun _ _ _ _ hu => hu.usable

/-- A copy of a node with a flag. -/
theorem withFlag_keeps (v : Value) (o : Bool) :
    (withFlag v o).Keeps (Encloses E) w fun u w' => w'.Usable E u ∧ w.Made u w' := by
  refine Keeps.made fun E => .get_bind ?_
  cases hp : parts? w v with
  | none => cases v <;> exact .throw _
  | some p =>
      obtain ⟨a, rfl, hg⟩ := parts?_eq hp
      exact (copyNode_keeps hg o).bind fun b w₁ _ ⟨hb, _, g, hn⟩ => .pure ⟨hb, b, g, o, rfl, hn⟩

end Node

/-! ### Merging -/

/-- More is inside, but nothing that has been there before `w`. -/
structure Enclosure.Widens (E : Enclosure) (w : World) (E' : Enclosure) : Prop where
  doors : E'.doors = E.doors
  spared : E'.spared = E.spared
  inside : ∀ a, E.inside a → E'.inside a
  new : ∀ a, E'.inside a → E.inside a ∨ w.size ≤ a

theorem Enclosure.Widens.refl (E : Enclosure) (w : World) : E.Widens w E :=
  ⟨rfl, rfl, fun _ h => h, fun _ h => .inl h⟩

theorem Enclosure.Widens.trans {E' E'' : Enclosure} (h : E.Widens w E') (k : E'.Widens w' E'')
    (size : w.size ≤ w'.size) : E.Widens w E'' where
  doors := k.doors.trans h.doors
  spared := k.spared.trans h.spared
  inside a ha := k.inside a (h.inside a ha)
  new a ha := by
    rcases k.new a ha with ha | ha
    · exact h.new a ha
    · exact .inr (Nat.le_trans size ha)

theorem Enclosure.Widens.usable {E' : Enclosure} (h : E.Widens w E') {v : Value}
    (hv : w.Usable E v) : w.Usable E' v := by
  cases v with
  | atom a => trivial
  | obj a =>
      refine ⟨hv.1, fun hi => ?_, h.doors ▸ hv.2.2⟩
      exact (h.new a hi).elim hv.2.1 (Nat.not_le.mpr hv.1)

theorem Enclosure.Widens.open {E' : Enclosure} (h : E.Widens w E') {v : Value}
    (hv : w.Open E v) : w.Open E' v := by
  cases v with
  | atom a => trivial
  | obj a => exact ⟨hv.1, fun hi => (h.new a hi).elim hv.2 (Nat.not_le.mpr hv.1)⟩

/-- An enclosure with one more object inside. -/
def Enclosure.hide (E : Enclosure) (t : Addr) : Enclosure where
  doors := E.doors
  inside a := E.inside a ∨ a = t
  spared := E.spared

/-- The step may put what it leaves behind into the enclosure. Of its result `Q` holds. -/
def Build.Widens (E : Enclosure) (act : Build Value) (w : World)
    (Q : Value → Enclosure → World → Prop) : Prop :=
  w.Encloses E → ∃ E', E.Widens w E' ∧ match act.run w with
    | .ok u w' => w.Extends w' ∧ w'.Encloses E' ∧ Q u E' w'
    | .error _ w' => w.Extends w' ∧ w'.Encloses E'

theorem Build.Keeps.widens {act : Build Value} {Q : Value → World → Prop}
    {R : Value → Enclosure → World → Prop} (h : act.Keeps (Encloses E) w Q)
    (hr : ∀ u w', Q u w' → R u E w') : act.Widens E w R := by
  intro hw
  refine ⟨E, .refl E w, ?_⟩
  cases run : act.run w with
  | ok u w' =>
      obtain ⟨k, hw', hq⟩ := h.ok hw run
      exact ⟨k, hw', hr u w' hq⟩
  | error f w' => exact h.error hw run

namespace Build

variable {α : Type} {R : Value → Enclosure → World → Prop}

theorem Widens.mono {act : Build Value} {Q : Value → Enclosure → World → Prop}
    (h : act.Widens E w Q) (hr : ∀ u E' w', E.Widens w E' → w.Extends w' → Q u E' w' → R u E' w') :
    act.Widens E w R := by
  intro hw
  obtain ⟨E', widens, rest⟩ := h hw
  refine ⟨E', widens, ?_⟩
  cases run : act.run w with
  | error f w' => simpa [run] using rest
  | ok u w' =>
      rw [run] at rest
      exact ⟨rest.1, rest.2.1, hr u E' w' widens rest.1 rest.2.2⟩

theorem Widens.pure {u : Value} (h : w.Encloses E → R u E w) : (pure u : Build Value).Widens E w R :=
  fun hw => ⟨E, .refl E w, .refl w, hw, h hw⟩

theorem Widens.throw (f : Fault) : (throw f : Build Value).Widens E w R :=
  fun hw => ⟨E, .refl E w, .refl w, hw⟩

theorem Widens.get_bind {f : World → Build Value} (h : (f w).Widens E w R) :
    ((MonadState.get : Build World) >>= f).Widens E w R :=
  h

theorem Widens.reads_bind {act : Build α} {f : α → Build Value} {a : α} (h : act.Reads w a)
    (hf : (f a).Widens E w R) : (act >>= f).Widens E w R := by
  intro hw
  rw [EStateM.run_bind, h]
  exact hf hw

theorem Keeps.bind_widens {act : Build α} {f : α → Build Value} {Q : α → World → Prop}
    (h : act.Keeps (Encloses E) w Q)
    (hf : ∀ a w', w.Extends w' → Q a w' → (f a).Widens E w' R) : (act >>= f).Widens E w R := by
  intro hw
  rw [EStateM.run_bind]
  cases run : act.run w with
  | error e w₁ => exact ⟨E, .refl E w, h.error hw run⟩
  | ok a w₁ =>
      obtain ⟨k, hw₁, hq⟩ := h.ok hw run
      obtain ⟨E', widens, rest⟩ := hf a w₁ k hq hw₁
      refine ⟨E', ⟨widens.doors, widens.spared, widens.inside, fun b hb => ?_⟩, ?_⟩
      · exact (widens.new b hb).imp_right (Nat.le_trans k.size)
      · simp only
        cases run' : (f a).run w₁ with
        | error e w₂ =>
            rw [run'] at rest
            exact ⟨k.trans rest.1, rest.2⟩
        | ok u w₂ =>
            rw [run'] at rest
            exact ⟨k.trans rest.1, rest.2⟩

end Build

/-- The object of entries that may be inside is put inside itself. -/
theorem World.Encloses.hide (h : w.Encloses E) {es : Entries} (hes : OpenEntries .empty w es) :
    (w.alloc (.mapping es)).2.Encloses (E.hide w.size) := by
  have added := h.tidy.encloses_empty.alloc (.mapping hes)
  have k := w.extends_alloc (.mapping es)
  have get : (w.alloc (.mapping es)).2.get w.size = .mapping es := w.get_alloc_same _
  refine ⟨added.1.tidy, fun a b ha hd hab => ?_, fun a ha => ?_, fun a ha hi => ?_, fun a ha => ?_,
    fun hs a f o hg => ?_⟩
  · have lt : a < w.size := by
      have := hab.lt_size
      rw [w.size_alloc] at this
      exact Nat.lt_of_le_of_ne (Nat.le_of_lt_succ this) fun he => ha (.inr he)
    rw [Holds, k.get a lt] at hab
    rintro (hb | rfl)
    · exact h.apart a b (fun hi => ha (.inl hi)) hd hab hb
    · exact Nat.lt_irrefl _ (h.tidy.part a _ hab)
  · rw [w.size_alloc]
    exact ha.elim (fun hi => Nat.lt_succ_of_lt (h.lt a hi)) fun he => he ▸ Nat.lt_succ_self _
  · rcases ha with ha | rfl
    · exact h.inert a ha (h.tidy.inert_of_extends k hi (h.lt a ha))
    · simpa [get, Object.isInert] using hi.kind
  · obtain ⟨fs, hg⟩ := h.door a ha
    exact ⟨fs, (k.get a (lt_size_of_mapping hg)).trans hg⟩
  · have lt := lt_size_of_get hg (by simp)
    rw [w.size_alloc] at lt
    have old : a < w.size := Nat.lt_of_le_of_ne (Nat.le_of_lt_succ lt) fun he => by
      simp [he, get] at hg
    rw [k.get a old] at hg
    exact ((h.untangled hs a f o hg).extends k).1

namespace Node

theorem ofEntries_widens {es : Entries} (hes : OpenEntries .empty w es) (o : Bool) :
    (ofEntries es o).Widens E w fun u E' w' => w'.Usable E' u ∧ w.Made u w' := by
  intro hw
  have k := w.extends_alloc (.mapping es)
  refine ⟨E.hide w.size, ⟨rfl, rfl, fun _ h => .inl h,
    fun a h => h.imp_right fun he => Nat.le_of_eq he.symm⟩, ?_⟩
  have run : (ofEntries es o).run w =
      (ofFields [("fragment", .obj w.size), ("is_optional", .bool o)]).run
        (w.alloc (.mapping es)).2 := rfl
  have made := ofFields_keeps (E := E.hide w.size) (w := (w.alloc (.mapping es)).2)
    [("fragment", .obj w.size), ("is_optional", .bool o)]
  rw [run]
  cases run' : (ofFields [("fragment", .obj w.size), ("is_optional", .bool o)]).run
      (w.alloc (.mapping es)).2 with
  | ok u w' =>
      obtain ⟨k', hw', hu, hm⟩ := made.ok (hw.hide hes) run'
      exact ⟨k.trans k', hw', hu, hm.mono k.size⟩
  | error f w' =>
      obtain ⟨k', hw'⟩ := made.error (hw.hide hes) run'
      exact ⟨k.trans k', hw'⟩

/-- A node with further entries, or the node itself. -/
theorem merge_widens (v extra : Value) :
    (merge v extra).Widens E w fun u E' w' => u = v ∨ w'.Usable E' u ∧ w.Made u w' := by
  intro hw
  refine Widens.get_bind ?_ hw
  cases hp : parts? w v with
  | none => exact .get_bind (.throw _)
  | some p =>
      obtain ⟨f, o⟩ := p
      obtain ⟨a, rfl, hg⟩ := parts?_eq hp
      obtain ⟨es, hf⟩ := hw.tidy.fragment a f o hg
      have hm : (Value.obj f).mapping? w = some es := by simp [Value.mapping?, hf]
      refine .get_bind ?_
      by_cases he : w.isEmpty extra
      · rw [if_pos he]
        exact .pure fun _ => .inl rfl
      · rw [if_neg he]
        refine .reads_bind (Value.further_reads hm) ?_
        cases hx : extra.mapping? w with
        | none =>
            have fails : extra.further.Keeps (Encloses E) w fun _ _ => False := by
              refine .get_bind ?_
              rw [hx]
              exact .throw _
            exact fails.bind_widens fun _ _ _ hf => hf.elim
        | some fs =>
            refine .reads_bind (Value.further_reads hx) (.get_bind ?_)
            have entries {v : Value} {es : Entries} (hm : v.mapping? w = some es) :
                OpenEntries .empty w es := fun e he =>
              ⟨(hw.tidy.entries hm e he).1, (hw.tidy.entries hm e he).2.open_empty⟩
            exact (ofEntries_widens ((entries hm).overlay (entries hx) _) o).mono
              fun u E' w' _ _ hu => .inr hu

theorem nullable_widens (v : Value) :
    (nullable v).Widens E w fun u E' w' => u = v ∨ w'.Usable E' u ∧ w.Made u w' := by
  refine .get_bind ?_
  cases parts? w v with
  | none => exact .throw _
  | some p =>
      have flag : OpenFields E w [("nullable", .bool true)] := by simp [OpenFields, Open]
      refine (newMapping_keeps flag.named).bind_widens fun x w₁ k _ => ?_
      exact (merge_widens v x).mono fun u E' w' _ _ hu => hu.imp_right fun hu =>
        ⟨hu.1, hu.2.mono k.size⟩

end Node

/-! ### Constructors -/

theorem World.Encloses.log (h : w.Encloses E) (log : List String) :
    World.Encloses E { w with log := log } := by
  have inert {v : Value} : World.Inert { w with log := log } v ↔ w.Inert v :=
    ⟨fun hi => hi.transfer (Nat.le_refl _) fun _ _ _ => rfl,
      fun hi => hi.transfer (Nat.le_refl _) fun _ _ _ => rfl⟩
  refine ⟨⟨h.tidy.attributes, h.tidy.kind, h.tidy.part, h.tidy.older,
    fun a es hg e he => inert.mpr (h.tidy.keys a es hg e he), h.tidy.fragment⟩, h.apart, h.lt,
    fun a ha hi => h.inert a ha (inert.mp hi), h.door,
    fun hs a f o hg => ?_⟩
  have unshared := h.untangled hs a f o hg
  refine (unshared.transfer ?_).1
  exact fun way b hb => ⟨unshared.there way b hb, rfl, rfl, rfl⟩

theorem Build.log_keeps (logger message : String) :
    (record logger message).Keeps (Encloses E) w fun _ _ => True :=
  .record fun log h => ⟨h.log log, trivial⟩

/-- A mapping of what is not inside is usable. -/
def Composition.outside (E : Enclosure) : Composition where
  inv := Encloses E
  key := World.Inert
  value w := w.Open E
  made w := w.Usable E
  key_text _ _ := .atom _
  value_text _ _ := trivial
  value_flag _ _ := trivial
  value_none _ := trivial
  key_extends h k := h.follows k.follows
  value_extends h k := h.mono k.size
  value_of_made h := h.open
  mapping h := (newMapping_keeps h).mono fun _ _ _ _ hu => hu.2
  list h := (newList_keeps h).mono fun _ _ _ _ hu => hu.open
  logs logger message _ := log_keeps logger message

namespace Composition

theorem supplies_emit {v : Value} (hv : w.Open E v) : (outside E).Supplies w (Node.emit v) :=
  fun _ k => (Node.emit_keeps (hv.mono k.size)).mono fun _ _ _ _ hu => hu.open

theorem nodes_made : (outside E).Nodes fun w u w' => w'.Usable E u ∧ w.Made u w' where
  entries h o := Node.ofEntries_keeps h o
  since h k := ⟨h.1, h.2.mono k.size⟩

theorem further_usable {v : Value} (h : w.Usable E v) : (outside E).Further w v :=
  fun _ k => Value.furtherOrEmpty_keeps (h.mono k.size)

end Composition

namespace Schema

variable {description extra : Value}

theorem leaf_keeps {type : String} {format : Option String} (hd : w.Open E description)
    (hx : w.Usable E extra) :
    (leaf type format description extra).Keeps (Encloses E) w fun u w' =>
      w'.Usable E u ∧ w.Made u w' :=
  Composition.nodes_made.keeps_leaf type format hd (Composition.further_usable hx)

theorem pattern_keeps {regex : Value} (hd : w.Open E description) (hx : w.Usable E extra) :
    (pattern regex description extra).Keeps (Encloses E) w fun u w' =>
      w'.Usable E u ∧ w.Made u w' :=
  Composition.nodes_made.keeps_pattern regex hd (Composition.further_usable hx)

theorem constant_keeps {value : Value} (hv : w.Open E value) (hd : w.Open E description)
    (hx : w.Usable E extra) :
    (constant value description extra).Keeps (Encloses E) w fun u w' =>
      w'.Usable E u ∧ w.Made u w' :=
  Composition.nodes_made.keeps_constant hv hd (Composition.further_usable hx)

theorem choice_keeps {values : Value} (hv : w.Usable E values) (hx : w.Usable E extra) :
    (choice values extra).Keeps (Encloses E) w fun u w' => w'.Usable E u ∧ w.Made u w' :=
  Composition.nodes_made.keeps_choice (Value.iterate_keeps hv.open)
    (fun _ k => (Value.items_keeps (hv.mono k.size)).mono fun _ _ _ _ _ => trivial)
    (Composition.further_usable hx)

theorem ref_keeps (target : Value) :
    (ref target).Keeps (Encloses E) w fun u w' => w'.Usable E u ∧ w.Made u w' :=
  Composition.nodes_made.keeps_ref target

theorem array_keeps {items : Value} (hi : w.Open E items) (hd : w.Open E description)
    (hx : w.Usable E extra) :
    (array items description extra).Keeps (Encloses E) w fun u w' =>
      w'.Usable E u ∧ w.Made u w' :=
  Composition.nodes_made.keeps_array (Composition.supplies_emit hi) hd
    (Composition.further_usable hx)

theorem properties_keeps {children : Entries} (h : OpenEntries E w children) :
    (properties children).Keeps (Encloses E) w fun p w' =>
      OpenEntries E w' p.1 ∧ ∀ v ∈ p.2, w'.Open E v :=
  Composition.keeps_properties (C := .outside E) fun e he => Composition.supplies_emit (h e he).2

theorem object_keeps {children : Value} (hc : w.Usable E children) (hd : w.Open E description)
    (hx : w.Usable E extra) :
    (object children description extra).Keeps (Encloses E) w fun u w' =>
      w'.Usable E u ∧ w.Made u w' :=
  Composition.nodes_made.keeps_object
    ((Value.items_keeps hc).mono fun _ _ _ _ hes e he => Composition.supplies_emit (hes e he).2)
    hd (Composition.further_usable hx)

end Schema

end OpenApiDoc
