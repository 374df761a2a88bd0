import OpenApiDoc.Proofs.Outside
import OpenApiDoc.Validation

/-! # Reading what is outside

What is read from values that are usable is not inside of an enclosure.

* `Value.entries_keeps`, `Value.iterate_keeps` and their companions are about collections.
* `Field.mapping_ok`, `Field.list_ok` are about the checks of a record's fields. -/

namespace OpenApiDoc

open Build World

variable {E : Enclosure} {w w' : World}

/-! ### Entries -/

namespace World

theorem OpenEntries.insert {es : Entries} (h : OpenEntries E w es) {k v : Value} (hk : w.Inert k)
    (hv : w.Open E v) (same : Value → Value → Bool) :
    OpenEntries E w (Entries.insert same es k v) :=
  Entries.forall_insert h hk hv

theorem OpenEntries.overlay {es extra : Entries} (h : OpenEntries E w es)
    (hx : OpenEntries E w extra) (same : Value → Value → Bool) :
    OpenEntries E w (Entries.overlay same es extra) :=
  Entries.forall_overlay h hx

/-- Entries under names. -/
def OpenFields (E : Enclosure) (w : World) (fs : List (String × Value)) : Prop :=
  ∀ f ∈ fs, w.Open E f.2

theorem OpenFields.named {fs : List (String × Value)} (h : OpenFields E w fs) :
    OpenEntries E w (Entries.named fs) := by
  intro e he
  obtain ⟨f, hf, rfl⟩ := List.mem_map.mp he
  exact ⟨.atom _, h f hf⟩

theorem Encloses.entries_of_usable (h : w.Encloses E) {v : Value} (hv : w.Usable E v)
    {es : Entries} (hm : v.mapping? w = some es) : OpenEntries E w es := by
  obtain ⟨a, rfl, hg⟩ := Value.eq_obj_of_mapping? hm
  exact h.openEntries hv hg

theorem Encloses.items_of_usable (h : w.Encloses E) {v : Value} (hv : w.Usable E v)
    {xs : List Value} (hx : v.items? w = some xs) : ∀ x ∈ xs, w.Open E x := by
  cases v with
  | atom a => simp [Value.items?] at hx
  | obj a =>
      intro x hmem
      refine h.open_part hv ?_
      cases hg : w.get a <;> simp_all [Value.items?, Object.parts]

/-- The entries of a mapping, wherever it is. -/
theorem Tidy.entries (h : w.Tidy) {v : Value} {es : Entries} (hm : v.mapping? w = some es) :
    ∀ e ∈ es, w.Inert e.1 ∧ w.Has e.2 := by
  obtain ⟨a, rfl, hg⟩ := Value.eq_obj_of_mapping? hm
  refine fun e he => ⟨h.keys a es hg e he, h.has_part (a := a) ?_⟩
  rw [hg]
  exact Object.mem_parts_value he

end World

/-! ### Collections -/

namespace Value

theorem requireKey_keeps {k : Value} (hk : w.Has k) :
    (requireKey k).Keeps (Encloses E) w fun _ w' => w'.Inert k := by
  refine .from fun hw => .get_bind ?_
  cases hu : w.unhashable? k with
  | none => exact .pure (hw.tidy.inert_of_hashable hk hu)
  | some t => exact .throw _

theorem iterate_keeps {v : Value} (hv : w.Open E v) :
    v.iterate.Keeps (Encloses E) w fun us w' => ∀ u ∈ us, w'.Open E u := by
  cases v with
  | atom a =>
      cases a with
      | str s => exact .pure (by simp [Open])
      | bytes bs => exact .pure (by simp [Open])
      | _ => exact .throw _
  | obj a =>
      refine .from fun hw => .look_bind ?_
      by_cases door : E.doors a
      · obtain ⟨es, hg⟩ := hw.door a door
        rw [hg]
        refine .pure fun u hu => ?_
        obtain ⟨e, he, rfl⟩ := List.mem_map.mp hu
        exact (hw.usable_of_inert (hw.tidy.keys a es hg e he)).open
      · have part {v : Value} (hm : v ∈ (w.get a).parts) : w.Open E v :=
          hw.open_part ⟨hv.1, hv.2, door⟩ hm
        have pairs {fs : List (String × Value)} (hf : OpenFields E w fs) :
            (fs.mapM fun f => newTuple [.str f.1, f.2]).Keeps (Encloses E) w
              fun us w' => ∀ u ∈ us, w'.Open E u := by
          refine Keeps.mapM_all (fun u _ _ h k => h.mono k.size) fun f hm w' k => ?_
          refine (newTuple_keeps ?_).mono fun u _ _ _ hu => hu.open
          simpa [Open] using (hf f hm).mono k.size
        have kind := hw.tidy.kind a hv.1
        cases hg : w.get a with
        | mapping es =>
            refine .pure fun u hu => part ?_
            obtain ⟨e, he, rfl⟩ := List.mem_map.mp hu
            rw [hg]
            exact Object.mem_parts_key he
        | list xs => exact .pure fun u hu => part (by simpa [hg, Object.parts] using hu)
        | tuple xs => exact .pure fun u hu => part (by simpa [hg, Object.parts] using hu)
        | node f o =>
            refine pairs fun e he => ?_
            rcases List.mem_pair.mp he with rfl | rfl
            · exact part (by simp [hg, Object.parts])
            · trivial
        | operation op =>
            refine pairs fun e he => part ?_
            rw [hg]
            exact List.mem_map.mpr ⟨e, he, rfl⟩
        | moment m => exact .throw _
        | constructor c => exact .throw _
        | builder m b => simp [hg, Object.isCopied, Object.isData] at kind
        | module ns => simp [hg, Object.isCopied, Object.isData] at kind
        | machinery t ps => simp [hg, Object.isCopied, Object.isData] at kind

theorem pair_keeps {v : Value} (hv : w.Open E v) (place : Nat) :
    (v.pair place).Keeps (Encloses E) w fun e w' => w'.Inert e.1 ∧ w'.Open E e.2 := by
  refine (Keeps.tryCatch (iterate_keeps hv) fun f w' k => .throw _).bind fun parts w₁ _ hp => ?_
  match parts, hp with
  | [k, u], hp =>
      obtain ⟨hk, hu⟩ : w₁.Open E k ∧ w₁.Open E u := by simpa using hp
      exact (requireKey_keeps hk.has).bind fun _ w₂ k hk => .pure ⟨hk, hu.mono k.size⟩
  | [], _ => exact .throw _
  | [_], _ => exact .throw _
  | _ :: _ :: _ :: _, _ => exact .throw _

/-- The entries of a value that is usable. -/
theorem entries_keeps {v : Value} (hv : w.Usable E v) :
    v.entries.Keeps (Encloses E) w fun es w' => OpenEntries E w' es := by
  refine .from fun hw => .get_bind ?_
  cases hm : v.mapping? w with
  | some es => exact .pure (hw.entries_of_usable hv hm)
  | none =>
      refine (iterate_keeps hv.open).bind fun parts w₁ _ hp => ?_
      refine Keeps.foldlM (by simp [OpenEntries]) fun p hmem acc w₂ k hacc => ?_
      have open_part : w₂.Open E p.1 := (hp p.1 (List.fst_mem_of_mem_zipIdx hmem)).mono k.size
      refine (pair_keeps open_part p.2).bind fun e w₃ k he => .get_bind (.pure ?_)
      exact (hacc.mono k).insert he.1 he.2 _

/-- The entries of a value that is not inside; those of a door may be. -/
theorem entries_has {v : Value} (hv : w.Open E v) :
    v.entries.Keeps (Encloses E) w fun es w' => ∀ e ∈ es, w'.Inert e.1 ∧ w'.Has e.2 := by
  refine .from fun hw => ?_
  cases hm : v.mapping? w with
  | some es =>
      refine .get_bind ?_
      rw [hm]
      exact .pure (hw.tidy.entries hm)
  | none =>
      have usable : w.Usable E v := by
        cases v with
        | atom a => trivial
        | obj a =>
            refine ⟨hv.1, hv.2, fun hd => ?_⟩
            obtain ⟨es, hg⟩ := hw.door a hd
            simp [mapping?, hg] at hm
      exact (entries_keeps usable).mono fun es _ _ _ hes e he => ⟨(hes e he).1, (hes e he).2.has⟩

/-- The entries of a mapping that is asked for them. -/
theorem items_keeps {v : Value} (hv : w.Usable E v) :
    v.items.Keeps (Encloses E) w fun es w' => OpenEntries E w' es := by
  refine .from fun hw => .get_bind ?_
  cases hm : v.mapping? w with
  | some es => exact .pure (hw.entries_of_usable hv hm)
  | none => exact .lack v "items"

theorem further_keeps {v : Value} (hv : w.Usable E v) :
    v.further.Keeps (Encloses E) w fun es w' => OpenEntries E w' es := by
  refine .from fun hw => .get_bind ?_
  cases hm : v.mapping? w with
  | some es => exact .pure (hw.entries_of_usable hv hm)
  | none => exact .throw _

theorem entriesOrEmpty_keeps {v : Value} (hv : w.Usable E v) :
    v.entriesOrEmpty.Keeps (Encloses E) w fun es w' => OpenEntries E w' es := by
  refine .get_bind ?_
  by_cases h : w.isEmpty v
  · rw [if_pos h]
    exact .pure (by simp [OpenEntries])
  · rw [if_neg h]
    exact entries_keeps hv

theorem furtherOrEmpty_keeps {v : Value} (hv : w.Usable E v) :
    v.furtherOrEmpty.Keeps (Encloses E) w fun es w' => OpenEntries E w' es := by
  refine .get_bind ?_
  by_cases h : w.isEmpty v
  · rw [if_pos h]
    exact .pure (by simp [OpenEntries])
  · rw [if_neg h]
    exact further_keeps hv

end Value

/-! ### The checks of fields -/

namespace Checked

variable {α β : Type}

@[simp] theorem both_eq_ok {a : Checked α} {b : Checked β} {p : α × β} :
    both a b = .ok p ↔ a = .ok p.1 ∧ b = .ok p.2 := by
  obtain ⟨x, y⟩ := p
  cases a <;> cases b <;> simp [both]

@[simp] theorem under_eq_ok {s : Step} {c : Checked α} {a : α} : under s c = .ok a ↔ c = .ok a := by
  cases c <;> simp [under]

@[simp] theorem map_eq_ok {c : Checked α} {f : α → β} {b : β} :
    c.map f = .ok b ↔ ∃ a, c = .ok a ∧ f a = b := by
  cases c <;> simp [Except.map]

theorem mem_of_all {cs : List (Checked α)} {xs : List α} (h : all cs = .ok xs) :
    ∀ x ∈ xs, .ok x ∈ cs := by
  induction cs generalizing xs with
  | nil =>
      obtain rfl : [] = xs := by simpa [all] using h
      simp
  | cons c cs ih =>
      obtain ⟨p, ⟨hc, hcs⟩, rfl⟩ :
          ∃ p : α × List α, (c = .ok p.1 ∧ all cs = .ok p.2) ∧ p.1 :: p.2 = xs := by
        simpa only [all, map_eq_ok, both_eq_ok] using h
      intro x hx
      rcases List.mem_cons.mp hx with rfl | hx
      · simp [hc]
      · exact List.mem_cons_of_mem _ (ih hcs x hx)

end Checked

namespace Field

variable {α : Type}

/-- What is read from a mapping is read from its values. -/
theorem mapping_ok {check : Value → Checked α} {v : Value} {fs : List (String × α)}
    (h : mapping w check (.value v) = .ok fs) :
    ∃ es, v.mapping? w = some es ∧ ∀ f ∈ fs, ∃ e ∈ es, check e.2 = .ok f.2 := by
  cases hm : v.mapping? w with
  | none => simp [mapping, hm, Checked.refuse] at h
  | some es =>
      obtain ⟨gs, hall, rfl⟩ : ∃ gs, Checked.all (es.map (entry w check)) = .ok gs ∧
          Entries.overlay (· == ·) [] gs = fs := by simpa [mapping, hm] using h
      refine ⟨es, rfl, Entries.forall_value_overlay (Q := fun x => ∃ e ∈ es, check e.2 = .ok x)
        (by simp) fun g hg => ?_⟩
      obtain ⟨e, he, hge⟩ := List.mem_map.mp (Checked.mem_of_all hall g hg)
      simp only [entry, Checked.both_eq_ok, Checked.under_eq_ok] at hge
      exact ⟨e, he, hge.2⟩

/-- The values among the items of anything but machinery are those of a list or a tuple: a record is
read as its fields. -/
theorem value_of_items {a : Addr} (plain : ∀ t ps, w.get a ≠ .machinery t ps) {items : List Input}
    (hi : items? w (.obj a) = some items) {x : Value} (hx : .value x ∈ items) :
    ∃ xs, (w.get a = .list xs ∨ w.get a = .tuple xs) ∧ x ∈ xs := by
  have fields {fs : List (String × Value)}
      (named : fs.map (fun f => Input.field f.1 f.2) = items) : False := by
    obtain ⟨f, -, same⟩ := List.mem_map.mp (named ▸ hx)
    cases same
  cases hg : w.get a with
  | list xs | tuple xs =>
      obtain rfl : xs.map Input.value = items := by simpa [items?, hg] using hi
      exact ⟨xs, by simp, by simpa using hx⟩
  | machinery t ps => exact absurd hg (plain t ps)
  | node f o => exact (fields (by simpa [items?, hg, Object.fields?] using hi)).elim
  | operation op => exact (fields (by simpa [items?, hg, Object.fields?] using hi)).elim
  | _ => simp [items?, hg, Object.fields?] at hi

/-- What is read from a list is read from its items. -/
theorem list_ok {check : Input → Checked α} {v : Value} {xs : List α}
    (h : list w check (.value v) = .ok xs) :
    ∃ items, items? w v = some items ∧ ∀ x ∈ xs, ∃ i ∈ items, check i = .ok x := by
  cases hi : items? w v with
  | none => simp [list, hi, Checked.refuse] at h
  | some items =>
      refine ⟨items, rfl, fun x hx => ?_⟩
      simp only [list, hi] at h
      obtain ⟨p, hp, hpx⟩ := List.mem_map.mp (Checked.mem_of_all h x hx)
      exact ⟨p.1, List.fst_mem_of_mem_zipIdx hp, Checked.under_eq_ok.mp hpx⟩

theorem required_ok {given : List (String × Value)} {name : String} {v : Option Value}
    {check : Input → Checked α} {x : α} (h : required given name v check = .ok x) :
    ∃ u, v = some u ∧ check (.value u) = .ok x := by
  cases v with
  | none => simp [required, Checked.refuse] at h
  | some u => exact ⟨u, rfl, by simpa [required] using h⟩

theorem defaulted_ok {name : String} {v : Option Value} {otherwise : α}
    {check : Input → Checked α} {x : α} (h : defaulted name v otherwise check = .ok x) :
    x = otherwise ∨ ∃ u, v = some u ∧ check (.value u) = .ok x := by
  cases v with
  | none =>
      have h : otherwise = x := by simpa [defaulted] using h
      exact .inl h.symm
  | some u => exact .inr ⟨u, rfl, by simpa [defaulted] using h⟩

theorem orNone_ok {check : Input → Checked α} {i : Input} {x : α}
    (h : orNone check i = .ok (some x)) : check i = .ok x := by
  unfold orNone at h
  split at h
  · simp at h
  · simpa using h

end Field
end OpenApiDoc
