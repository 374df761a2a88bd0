import OpenApiDoc.Proofs.Data

/-! # What steps come to

A subroutine `act` that always succeeds is specified by a lemma `act.Gives w Q`: from the world `w`
it gives a result, `Q` holds of the result and of the world after it, and the world after it extends
`w`. The rules below follow the way in which steps are put together. -/

namespace OpenApiDoc

/-- From `w` the step gives a result for which `Q` holds, and changes nothing that was there. -/
def Build.Gives {α : Type} (act : Build α) (w : World) (Q : α → World → Prop) : Prop :=
  ∃ a w', act.run w = .ok a w' ∧ w.Extends w' ∧ Q a w'

namespace Build

variable {α β : Type} {w : World}

theorem Gives.mono {act : Build α} {Q R : α → World → Prop} (h : act.Gives w Q)
    (hr : ∀ a w', w.Extends w' → Q a w' → R a w') : act.Gives w R := by
  obtain ⟨a, w', run, he, hq⟩ := h
  exact ⟨a, w', run, he, hr a w' he hq⟩

theorem Gives.pure {Q : α → World → Prop} {a : α} (h : Q a w) : (pure a : Build α).Gives w Q :=
  ⟨a, w, rfl, .refl w, h⟩

theorem Gives.bind {act : Build α} {f : α → Build β} {Q : α → World → Prop}
    {R : β → World → Prop} (h : act.Gives w Q)
    (hf : ∀ a w', w.Extends w' → Q a w' → (f a).Gives w' R) : (act >>= f).Gives w R := by
  obtain ⟨a, w₁, run, he, hq⟩ := h
  obtain ⟨b, w₂, run', he', hr⟩ := hf a w₁ he hq
  refine ⟨b, w₂, ?_, he.trans he', hr⟩
  rw [EStateM.run_bind, run]
  exact run'

/-- A step that reads the world goes on with the world that it reads. -/
theorem Gives.get_bind {f : World → Build β} {R : β → World → Prop} (h : (f w).Gives w R) :
    ((MonadState.get : Build World) >>= f).Gives w R :=
  h

theorem Gives.look_bind {a : Addr} {f : Object → Build β} {R : β → World → Prop}
    (h : (f (w.get a)).Gives w R) : (look a >>= f).Gives w R :=
  h

theorem run_look_bind {w : World} (a : Addr) (f : Object → Build β) :
    (look a >>= f).run w = (f (w.get a)).run w :=
  rfl

/-- In `w` the step gives `a` and changes nothing. -/
def Reads (act : Build α) (w : World) (a : α) : Prop := act.run w = .ok a w

theorem Reads.bind {act : Build α} {f : α → Build β} {a : α} {R : β → World → Prop}
    (h : act.Reads w a) (hf : (f a).Gives w R) : (act >>= f).Gives w R := by
  obtain ⟨b, w', run, he, hr⟩ := hf
  refine ⟨b, w', ?_, he, hr⟩
  rw [EStateM.run_bind, h]
  exact run

theorem Gives.new {o : Object} {Q : Addr → World → Prop} (h : Q w.size (w.alloc o).2) :
    (new o).Gives w Q :=
  ⟨w.size, (w.alloc o).2, rfl, w.extends_alloc o, h⟩

/-- A step that gave a result gave the one that is known of it. -/
theorem Gives.ok {act : Build α} {Q : α → World → Prop} (h : act.Gives w Q) {a : α} {w' : World}
    (run : act.run w = .ok a w') : w.Extends w' ∧ Q a w' := by
  obtain ⟨b, w₂, run', k, hb⟩ := h
  cases run.symm.trans run'
  exact ⟨k, hb⟩

/-- A step for each member of a list. What holds of a result still holds when the store grows. -/
theorem Gives.mapM {f : α → Build β} {R : α → β → World → Prop}
    (mono : ∀ x y w w', R x y w → World.Extends w w' → R x y w') {xs : List α}
    (h : ∀ x ∈ xs, ∀ w', w.Extends w' → (f x).Gives w' (R x)) :
    (xs.mapM f).Gives w fun ys w' => List.Forall₂ (R · · w') xs ys := by
  induction xs generalizing w with
  | nil => exact .pure .nil
  | cons x xs ih =>
      rw [List.mapM_cons]
      refine (h x (by simp) w (.refl w)).bind fun y w₁ he hy => ?_
      refine (ih fun z hz w₂ he' => h z (by simp [hz]) w₂ (he.trans he')).bind
        fun ys w₂ he' hys => .pure (.cons (mono x y _ _ hy he') hys)

end Build

theorem Entries.mem_of_lookup {α : Type} {fs : List (String × α)} {name : String} {v : α}
    (h : fs.lookup name = some v) : (name, v) ∈ fs := by
  obtain ⟨xs, ys, rfl, -⟩ := List.lookup_eq_some_iff.mp h
  simp

namespace Value

open Build

variable {w : World} {v : Value} {es : Entries}

theorem eq_obj_of_mapping? (h : v.mapping? w = some es) : ∃ a, v = .obj a ∧ w.get a = .mapping es := by
  cases v with
  | atom a => simp [mapping?] at h
  | obj a => exact ⟨a, rfl, by cases hg : w.get a <;> simp_all [mapping?]⟩

theorem mapping?_of_get {a : Addr} (h : w.get a = .mapping es) : mapping? w (.obj a) = some es := by
  simp [mapping?, h]

theorem entries_reads (h : v.mapping? w = some es) : v.entries.Reads w es := by
  simp [Reads, entries, h]

theorem further_reads (h : v.mapping? w = some es) : v.further.Reads w es := by
  simp [Reads, further, h]

theorem items_reads (h : v.mapping? w = some es) : v.items.Reads w es := by
  simp [Reads, items, h]

theorem entriesOrEmpty_reads (h : v.mapping? w = some es) : v.entriesOrEmpty.Reads w es := by
  have read := entries_reads h
  obtain ⟨a, rfl, hg⟩ := eq_obj_of_mapping? h
  cases es with
  | nil => simp [Reads, entriesOrEmpty, World.isEmpty, hg]
  | cons e es => simpa [Reads, entriesOrEmpty, World.isEmpty, hg] using read

end Value
end OpenApiDoc
