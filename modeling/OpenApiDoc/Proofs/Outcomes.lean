import OpenApiDoc.Proofs.Steps

/-! # What steps keep, whatever they come to

A subroutine `act` that may fail is specified by a lemma `act.Keeps I w Q`: if the invariant `I`
holds of the world `w`, then it holds of the world after the subroutine, which extends `w`; and if
the subroutine gives a result, `Q` holds of the result and of the world after it. The rules below
follow the way in which steps are put together. -/

namespace OpenApiDoc
namespace Build

variable {α β : Type} {I : World → Prop} {w : World}

/-- What the first of two steps came to, if both gave a result. -/
theorem bind_ok {act : Build α} {f : α → Build β} {w' : World} {b : β}
    (h : (act >>= f).run w = .ok b w') :
    ∃ a w₁, act.run w = .ok a w₁ ∧ (f a).run w₁ = .ok b w' := by
  rw [EStateM.run_bind] at h
  cases run : act.run w with
  | ok a w₁ => exact ⟨a, w₁, rfl, by simpa [run] using h⟩
  | error e w₁ => simp [run] at h

/-- Which of two steps has failed. -/
theorem bind_error {act : Build α} {f : α → Build β} {e : Fault} {w' : World}
    (h : (act >>= f).run w = .error e w') :
    act.run w = .error e w' ∨ ∃ a w₁, act.run w = .ok a w₁ ∧ (f a).run w₁ = .error e w' := by
  rw [EStateM.run_bind] at h
  cases run : act.run w with
  | ok a w₁ => exact .inr ⟨a, w₁, rfl, by simpa [run] using h⟩
  | error e' w₁ => exact .inl (by simpa [run] using h)

/-- Whether a step gives a result is found by running it. -/
theorem ran (act : Build α) (w : World) (h : (match act.run w with
    | .ok _ _ => true
    | .error _ _ => false) = true) : ∃ a w', act.run w = .ok a w' := by
  split at h
  · exact ⟨_, _, ‹_›⟩
  · cases h

/-- From a world with the invariant the step leads to one with the invariant, and changes nothing
that was there. If it gives a result, `Q` holds of it. -/
def Keeps (I : World → Prop) (act : Build α) (w : World) (Q : α → World → Prop) : Prop :=
  I w → match act.run w with
    | .ok a w' => w.Extends w' ∧ I w' ∧ Q a w'
    | .error _ w' => w.Extends w' ∧ I w'

/-- What is known when the step has given a result. -/
theorem Keeps.ok {act : Build α} {Q : α → World → Prop} (h : act.Keeps I w Q) (hw : I w) {a : α}
    {w' : World} (run : act.run w = .ok a w') : w.Extends w' ∧ I w' ∧ Q a w' := by
  simpa [run] using h hw

/-- What is known when the step has failed. -/
theorem Keeps.error {act : Build α} {Q : α → World → Prop} (h : act.Keeps I w Q) (hw : I w)
    {f : Fault} {w' : World} (run : act.run w = .error f w') : w.Extends w' ∧ I w' := by
  simpa [run] using h hw

/-- The invariant may be used for what a step comes to. -/
theorem Keeps.from {act : Build α} {Q : α → World → Prop} (h : I w → act.Keeps I w Q) :
    act.Keeps I w Q :=
  fun hw => h hw hw

theorem Keeps.mono {act : Build α} {Q R : α → World → Prop} (h : act.Keeps I w Q)
    (hr : ∀ a w', w.Extends w' → I w' → Q a w' → R a w') : act.Keeps I w R := by
  intro hw
  cases run : act.run w with
  | ok a w' =>
      obtain ⟨he, hi, hq⟩ := h.ok hw run
      exact ⟨he, hi, hr a w' he hi hq⟩
  | error f w' => exact h.error hw run

/-- What is known of a result because the step has given it. -/
theorem Keeps.of_run {act : Build α} {Q R : α → World → Prop} (h : act.Keeps I w Q)
    (hr : I w → ∀ a w', act.run w = .ok a w' → R a w') : act.Keeps I w R := by
  intro hw
  cases run : act.run w with
  | ok a w' =>
      obtain ⟨k, hi, -⟩ := h.ok hw run
      exact ⟨k, hi, hr hw a w' run⟩
  | error f w' => exact h.error hw run

/-- A step that gives a result gives it from a world with the invariant, too. -/
theorem Gives.keeps {act : Build α} {Q R : α → World → Prop} (h : act.Gives w Q)
    (hr : ∀ a w', I w → w.Extends w' → Q a w' → I w' ∧ R a w') : act.Keeps I w R := by
  intro hw
  obtain ⟨a, w', run, he, hq⟩ := h
  rw [run]
  exact ⟨he, hr a w' hw he hq⟩

/-- A step that reads what is known changes nothing. -/
theorem Reads.keeps {act : Build α} {Q : α → World → Prop} {a : α} (h : act.Reads w a)
    (hq : Q a w) : act.Keeps I w Q := by
  intro hw
  rw [Reads] at h
  rw [h]
  exact ⟨.refl w, hw, hq⟩

/-- What is known of a step that gives a result, if it keeps the invariant as well. -/
theorem Gives.and_keeps {act : Build α} {Q R : α → World → Prop} (h : act.Gives w Q)
    (k : act.Keeps I w R) (hw : I w) : act.Gives w fun a w' => Q a w' ∧ I w' ∧ R a w' := by
  obtain ⟨a, w', run, he, hq⟩ := h
  obtain ⟨-, hi, hr⟩ := k.ok hw run
  exact ⟨a, w', run, he, hq, hi, hr⟩

theorem Keeps.pure {Q : α → World → Prop} {a : α} (h : Q a w) : (pure a : Build α).Keeps I w Q :=
  fun hw => ⟨.refl w, hw, h⟩

theorem Keeps.throw {Q : α → World → Prop} (f : Fault) : (throw f : Build α).Keeps I w Q :=
  fun hw => ⟨.refl w, hw⟩

theorem Keeps.bind {act : Build α} {f : α → Build β} {Q : α → World → Prop}
    {R : β → World → Prop} (h : act.Keeps I w Q)
    (hf : ∀ a w', w.Extends w' → Q a w' → (f a).Keeps I w' R) : (act >>= f).Keeps I w R := by
  intro hw
  rw [EStateM.run_bind]
  cases run : act.run w with
  | error e w₁ => exact h.error hw run
  | ok a w₁ =>
      obtain ⟨he, hi, hq⟩ := h.ok hw run
      simp only
      cases run' : (f a).run w₁ with
      | error e w₂ =>
          obtain ⟨he', hi'⟩ := (hf a w₁ he hq).error hi run'
          exact ⟨he.trans he', hi'⟩
      | ok b w₂ =>
          obtain ⟨he', hi', hr⟩ := (hf a w₁ he hq).ok hi run'
          exact ⟨he.trans he', hi', hr⟩

theorem Keeps.get_bind {f : World → Build β} {R : β → World → Prop} (h : (f w).Keeps I w R) :
    ((MonadState.get : Build World) >>= f).Keeps I w R :=
  h

theorem Keeps.look_bind {a : Addr} {f : Object → Build β} {R : β → World → Prop}
    (h : (f (w.get a)).Keeps I w R) : (look a >>= f).Keeps I w R :=
  h

theorem Keeps.lack {Q : α → World → Prop} (v : Value) (name : String) :
    (Build.lack v name : Build α).Keeps I w Q :=
  .get_bind (.throw _)

theorem Keeps.new {o : Object} {Q : Addr → World → Prop}
    (h : I w → I (w.alloc o).2 ∧ Q w.size (w.alloc o).2) : (new o).Keeps I w Q :=
  fun hw => ⟨w.extends_alloc o, h hw⟩

theorem Keeps.record {Q : Unit → World → Prop} {logger message : String}
    (h : ∀ log, I w → I { w with log := log } ∧ Q () { w with log := log }) :
    (record logger message).Keeps I w Q :=
  fun hw => ⟨⟨Nat.le_refl _, fun _ _ => rfl, rfl⟩, h _ hw⟩

/-- What a step for each member of a list comes to, if a fact about a result remains. -/
theorem Keeps.mapM {f : α → Build β} {R : α → β → World → Prop}
    (stays : ∀ x y w w', R x y w → World.Extends w w' → R x y w') {xs : List α}
    (h : ∀ x ∈ xs, ∀ w', w.Extends w' → (f x).Keeps I w' (R x)) :
    (xs.mapM f).Keeps I w fun ys w' => List.Forall₂ (R · · w') xs ys := by
  induction xs generalizing w with
  | nil => exact .pure .nil
  | cons x xs ih =>
      rw [List.mapM_cons]
      refine (h x (by simp) w (.refl w)).bind fun y w₁ he hy => ?_
      refine (ih fun z hz w₂ he' => h z (by simp [hz]) w₂ (he.trans he')).bind
        fun ys w₂ he' hys => .pure (.cons (stays x y _ _ hy he') hys)

/-- A fact about every result of a step for each member of a list. -/
theorem Keeps.mapM_all {f : α → Build β} {R : β → World → Prop}
    (stays : ∀ y w w', R y w → World.Extends w w' → R y w') {xs : List α}
    (h : ∀ x ∈ xs, ∀ w', w.Extends w' → (f x).Keeps I w' R) :
    (xs.mapM f).Keeps I w fun ys w' => ∀ y ∈ ys, R y w' := by
  induction xs generalizing w with
  | nil => exact .pure (by simp)
  | cons x xs ih =>
      rw [List.mapM_cons]
      refine (h x (by simp) w (.refl w)).bind fun y w₁ he hy => ?_
      refine (ih fun z hz w₂ he' => h z (by simp [hz]) w₂ (he.trans he')).bind
        fun ys w₂ he' hys => .pure ?_
      rintro z hz
      rcases List.mem_cons.mp hz with rfl | hz
      · exact stays _ _ _ hy he'
      · exact hys z hz

/-- A loop that keeps a fact about what it has gathered. -/
theorem Keeps.foldlM {f : β → α → Build β} {R : β → World → Prop}
    {xs : List α} {b : β} (start : R b w)
    (h : ∀ x ∈ xs, ∀ b w', w.Extends w' → R b w' → (f b x).Keeps I w' R) :
    (xs.foldlM f b).Keeps I w R := by
  induction xs generalizing w b with
  | nil => exact .pure start
  | cons x xs ih =>
      rw [List.foldlM_cons]
      refine (h x (by simp) b w (.refl w) start).bind fun b' w₁ he hb => ?_
      exact ih hb fun z hz c w₂ he' => h z (by simp [hz]) c w₂ (he.trans he')

/-- What a step that is caught comes to. -/
theorem run_tryCatch (act : Build α) (handle : Fault → Build α) (w : World) :
    (MonadExcept.tryCatch act handle : Build α).run w = match act.run w with
      | .ok a w' => .ok a w'
      | .error f w' => (handle f).run w' := by
  simp only [EStateM.run, MonadExcept.tryCatch, tryCatchThe, MonadExceptOf.tryCatch,
    EStateM.tryCatch]
  cases act w <;> rfl

/-- What goes wrong behind a handler comes from the handler. -/
theorem tryCatch_error {act : Build α} {handle : Fault → Build α} {e : Fault} {w' : World}
    (h : (tryCatch act handle).run w = .error e w') :
    ∃ f w₁, act.run w = .error f w₁ ∧ (handle f).run w₁ = .error e w' := by
  rw [run_tryCatch] at h
  cases run : act.run w with
  | ok a w₁ => simp [run] at h
  | error f w₁ => exact ⟨f, w₁, rfl, by simpa [run] using h⟩

theorem Keeps.tryCatch {act : Build α} {handle : Fault → Build α} {Q : α → World → Prop}
    (h : act.Keeps I w Q) (hf : ∀ f w', w.Extends w' → (handle f).Keeps I w' Q) :
    (MonadExcept.tryCatch act handle).Keeps I w Q := by
  intro hw
  rw [run_tryCatch]
  cases run : act.run w with
  | ok a w' => exact h.ok hw run
  | error f w₁ =>
      obtain ⟨he, hi⟩ := h.error hw run
      simp only
      cases run' : (handle f).run w₁ with
      | error e w₂ =>
          obtain ⟨he', hi'⟩ := (hf f w₁ he).error hi run'
          exact ⟨he.trans he', hi'⟩
      | ok a w₂ =>
          obtain ⟨he', hi', hq⟩ := (hf f w₁ he).ok hi run'
          exact ⟨he.trans he', hi', hq⟩

end Build
end OpenApiDoc
