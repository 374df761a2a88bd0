import Mathlib.Data.Finset.Card
import Mathlib.Data.Finset.Range
import OpenApiDoc.Proofs.Steps

/-! # What copies hold

A copy of an object is made with a record of the copies made so far. The lemmas here follow the
record.

* `World.Copyable` is a set of objects that can be copied: it has the parts of its members.
* `Copying.Done` says that an object is the finished copy of another: it has the same contents, with
  the addresses of copies in place of those of the parts. Tuples of atoms are their own copies.
* `Copying.Advances` leads from one record to a later one: everything new is in the record and
  finished, whereas a copy that was begun earlier may still wait for its parts.
* `Copying.pending` counts the objects that are left to copy. -/

namespace OpenApiDoc

/-- Objects that have copies. -/
def Object.isCopied : Object → Bool
  | .constructor _ => true
  | o => o.isData

/-- An object that is its own copy: a tuple of atoms and of such tuples. -/
inductive World.Fixed (w : World) : Addr → Prop
  | tuple {a : Addr} {xs : List Value} (get : w.get a = .tuple xs)
      (items : ∀ b, .obj b ∈ xs → Fixed w b) : Fixed w a

/-- Objects that can be copied together with everything that they hold. -/
structure World.Copyable (w : World) (D : Addr → Prop) : Prop where
  lt : ∀ a, D a → a < w.size
  bare : ∀ a, D a → w.attributesOf a = []
  kind : ∀ a, D a → (w.get a).isCopied
  older : ∀ a xs, D a → w.get a = .tuple xs → ∀ b, .obj b ∈ xs → b < a
  part : ∀ a b, D a → w.Holds a b → D b

namespace Copying

/-- The copies made so far. -/
abbrev Memo := List (Addr × Addr)

/-- The address that takes the place of another in copies. -/
def target (m : Memo) (a : Addr) : Addr := (m.lookup a).getD a

/-- The address that takes the place of this one is known. -/
def Settled (w₀ : World) (m : Memo) (a : Addr) : Prop := w₀.Fixed a ∨ ∃ b, m.lookup a = some b

/-- The object at `b` is the copy of the object at `a`. -/
structure Done (w₀ : World) (m : Memo) (w : World) (a b : Addr) : Prop where
  get : w.get b = (w₀.get a).rename (target m)
  parts : ∀ c, w₀.Holds a c → Settled w₀ m c
  older : ∀ xs, w₀.get a = .tuple xs → ∀ c, .obj c ∈ xs → target m c < b

/-- A record of copies of objects in `D`. Only what is in the record may have been read differently.
-/
structure Record (w₀ : World) (D : Addr → Prop) (m : Memo) (w : World) : Prop where
  size : w₀.size ≤ w.size
  get : ∀ a < w₀.size, m.lookup a = none → w.get a = w₀.get a
  attributes : w.attributes = w₀.attributes
  copy : ∀ a b, m.lookup a = some b → D a ∧ ¬ w₀.Fixed a ∧ w₀.size ≤ b ∧ b < w.size
  inj : ∀ a b c, m.lookup a = some c → m.lookup b = some c → a = b

/-- From the record `m` in `w` to the record `m'` in `w'`: what was in the record is in it, and what
is new in it is copied in full. -/
structure Advances (w₀ : World) (D : Addr → Prop) (m : Memo) (w : World) (m' : Memo) (w' : World) :
    Prop where
  record : Record w₀ D m' w'
  extends_world : w.Extends w'
  keeps : ∀ a b, m.lookup a = some b → m'.lookup a = some b
  done : ∀ a b, m'.lookup a = some b → m.lookup a = none → w.size ≤ b ∧ Done w₀ m' w' a b
  only : ∀ b, w.size ≤ b → b < w'.size → ∃ a, m'.lookup a = some b ∧ m.lookup a = none

variable {w₀ : World} {D : Addr → Prop}

theorem lookup_cons_of_ne {m : Memo} {a b c : Addr} (h : c ≠ a) :
    ((a, b) :: m : Memo).lookup c = m.lookup c := by
  simp only [List.lookup_cons, beq_eq_false_iff_ne.mpr h]

theorem Settled.keeps {m m' : Memo} (hk : ∀ a b, m.lookup a = some b → m'.lookup a = some b)
    {a : Addr} (h : Settled w₀ m a) : Settled w₀ m' a := by
  rcases h with h | ⟨b, h⟩
  · exact .inl h
  · exact .inr ⟨b, hk a b h⟩

/-- What takes the place of an address does not change when the record grows. -/
theorem target_keeps {m m' : Memo} {w w' : World} (hr : Record w₀ D m w) (hr' : Record w₀ D m' w')
    (hk : ∀ a b, m.lookup a = some b → m'.lookup a = some b) {a : Addr} (h : Settled w₀ m a) :
    target m' a = target m a := by
  rcases h with h | ⟨b, h⟩
  · have none (m : Memo) (w : World) (hr : Record w₀ D m w) : m.lookup a = none := by
      cases hl : m.lookup a with
      | none => rfl
      | some b => exact absurd h (hr.copy a b hl).2.1
    simp [target, none m w hr, none m' w' hr']
  · simp [target, h, hk a b h]

theorem Record.target_lt {m : Memo} {w : World} (hr : Record w₀ D m w) {a : Addr} (ha : a < w₀.size) :
    target m a < w.size := by
  cases hl : m.lookup a with
  | none => simpa [target, hl] using Nat.lt_of_lt_of_le ha hr.size
  | some b => simpa [target, hl] using (hr.copy a b hl).2.2.2

theorem Done.keeps {m m' : Memo} {w w' : World} (hr : Record w₀ D m w) (hr' : Record w₀ D m' w')
    (hk : ∀ a b, m.lookup a = some b → m'.lookup a = some b) {a b : Addr}
    (hg : w'.get b = w.get b) (h : Done w₀ m w a b) : Done w₀ m' w' a b where
  get := by
    rw [hg, h.get]
    exact Object.rename_congr fun c hc => (target_keeps hr hr' hk (h.parts c hc)).symm
  parts c hc := (h.parts c hc).keeps hk
  older xs hx c hc := by
    have held : w₀.Holds a c := by simpa [World.Holds, hx, Object.parts] using hc
    rw [target_keeps hr hr' hk (h.parts c held)]
    exact h.older xs hx c hc

theorem Advances.refl {m : Memo} {w : World} (hr : Record w₀ D m w) : Advances w₀ D m w m w where
  record := hr
  extends_world := .refl w
  keeps _ _ h := h
  done a b h h' := by simp [h] at h'
  only b h h' := absurd h' (Nat.not_lt.mpr h)

theorem Advances.trans {m₁ m₂ m₃ : Memo} {w₁ w₂ w₃ : World} (h : Advances w₀ D m₁ w₁ m₂ w₂)
    (k : Advances w₀ D m₂ w₂ m₃ w₃) : Advances w₀ D m₁ w₁ m₃ w₃ where
  record := k.record
  extends_world := h.extends_world.trans k.extends_world
  keeps a b hl := k.keeps a b (h.keeps a b hl)
  done a b hl hn := by
    cases h₂ : m₂.lookup a with
    | none =>
        obtain ⟨hb, hd⟩ := k.done a b hl h₂
        exact ⟨Nat.le_trans h.extends_world.size hb, hd⟩
    | some c =>
        obtain rfl : c = b := Option.some.inj ((k.keeps a c h₂).symm.trans hl)
        obtain ⟨hb, hd⟩ := h.done a c h₂ hn
        have hlt := (h.record.copy a c h₂).2.2.2
        exact ⟨hb, hd.keeps h.record k.record k.keeps (k.extends_world.get c hlt)⟩
  only b hb hb' := by
    by_cases h₂ : b < w₂.size
    · obtain ⟨a, ha, hn⟩ := h.only b hb h₂
      exact ⟨a, k.keeps a b ha, hn⟩
    · obtain ⟨a, ha, hn⟩ := k.only b (Nat.not_lt.mp h₂) hb'
      refine ⟨a, ha, ?_⟩
      cases h₁ : m₁.lookup a with
      | none => rfl
      | some c => simp [h.keeps a c h₁] at hn

/-- A copy of `a` is begun. -/
theorem Record.begin {m : Memo} {w : World} (hr : Record w₀ D m w) {a : Addr} (da : D a)
    (hf : ¬ w₀.Fixed a) (o : Object) : Record w₀ D ((a, w.size) :: m) (w.alloc o).2 where
  size := Nat.le_trans hr.size (w.extends_alloc o).size
  get c hc hl := by
    have hca : c ≠ a := by
      rintro rfl
      simp at hl
    rw [lookup_cons_of_ne hca] at hl
    rw [w.get_alloc_of_lt o (Nat.lt_of_lt_of_le hc hr.size), hr.get c hc hl]
  attributes := hr.attributes
  copy c d hl := by
    rw [World.size_alloc]
    by_cases hc : c = a
    · subst hc
      obtain rfl : w.size = d := by simpa using hl
      exact ⟨da, hf, hr.size, Nat.lt_succ_self _⟩
    · rw [lookup_cons_of_ne hc] at hl
      obtain ⟨dc, nf, old, lt⟩ := hr.copy c d hl
      exact ⟨dc, nf, old, Nat.lt_succ_of_lt lt⟩
  inj c d e hc hd := by
    have new {b : Addr} (hb : m.lookup b ≠ some w.size) (hl : ((a, w.size) :: m).lookup b = some w.size) :
        b = a := by
      refine Classical.byContradiction fun hba => hb ?_
      rwa [lookup_cons_of_ne hba] at hl
    have old (b : Addr) : m.lookup b ≠ some w.size := fun hl =>
      Nat.lt_irrefl _ (hr.copy b _ hl).2.2.2
    by_cases he : e = w.size
    · subst he
      rw [new (old c) hc, new (old d) hd]
    · have other {b : Addr} (hl : ((a, w.size) :: m).lookup b = some e) : m.lookup b = some e := by
        by_cases hba : b = a
        · subst hba
          exact absurd (by simpa using hl.symm) he
        · rwa [lookup_cons_of_ne hba] at hl
      exact hr.inj c d e (other hc) (other hd)

theorem keeps_begin {m : Memo} {a b : Addr} (hn : m.lookup a = none) :
    ∀ c d, m.lookup c = some d → ((a, b) :: m : Memo).lookup c = some d := by
  intro c d hl
  rwa [lookup_cons_of_ne]
  rintro rfl
  simp [hn] at hl

/-- The copy of `a` is finished when its parts have been copied. -/
theorem Advances.close {m m' : Memo} {w w' : World} {a : Addr} {placeholder o : Object}
    (hw : w₀.size ≤ w.size) (hn : m.lookup a = none)
    (h : Advances w₀ D ((a, w.size) :: m) (w.alloc placeholder).2 m' w')
    (hs : ∀ c, w₀.Holds a c → Settled w₀ m' c) (ho : o = (w₀.get a).rename (target m'))
    (ht : ∀ xs, w₀.get a ≠ .tuple xs) : Advances w₀ D m w m' (w'.set w.size o) where
  record := by
    refine ⟨?_, fun c hc hl => ?_, h.record.attributes, fun c d hl => ?_, h.record.inj⟩
    · rw [World.size_set]
      exact h.record.size
    · rw [World.get_set_of_ne _ _ (Nat.ne_of_gt (Nat.lt_of_lt_of_le hc hw)), h.record.get c hc hl]
    · rw [World.size_set]
      exact h.record.copy c d hl
  extends_world := ((w.extends_alloc _).trans h.extends_world).set (Nat.le_refl _) o
  keeps c d hl := h.keeps c d (keeps_begin hn c d hl)
  done c d hl hc := by
    by_cases hca : c = a
    · subst hca
      have hd := h.keeps c w.size (by simp)
      obtain rfl : w.size = d := Option.some.inj (hd.symm.trans hl)
      refine ⟨Nat.le_refl _, ?_, hs, fun xs hx => absurd hx (ht xs)⟩
      rw [World.get_set_same, ho]
      exact (h.record.copy c _ hl).2.2.2
    · obtain ⟨hd, done⟩ := h.done c d hl (by rwa [lookup_cons_of_ne hca])
      rw [World.size_alloc] at hd
      refine ⟨Nat.le_of_succ_le hd, ?_, done.parts, done.older⟩
      rw [World.get_set_of_ne _ _ (Nat.ne_of_lt hd), done.get]
  only d hd hd' := by
    rw [World.size_set] at hd'
    rcases Nat.eq_or_lt_of_le hd with rfl | hlt
    · exact ⟨a, h.keeps a w.size (by simp), hn⟩
    · obtain ⟨c, hc, hn'⟩ := h.only d (by rwa [World.size_alloc]) hd'
      have hca : c ≠ a := by
        rintro rfl
        simp at hn'
      exact ⟨c, hc, by rwa [lookup_cons_of_ne hca] at hn'⟩

/-- A copy that is finished when it is begun. -/
theorem Advances.begin {m : Memo} {w : World} {a : Addr} {o : Object} (hr : Record w₀ D m w)
    (da : D a) (hf : ¬ w₀.Fixed a) (hn : m.lookup a = none)
    (hs : ∀ c, w₀.Holds a c → Settled w₀ m c ∧ target m c < w.size)
    (ho : o = (w₀.get a).rename (target m)) :
    Advances w₀ D m w ((a, w.size) :: m) (w.alloc o).2 where
  record := hr.begin da hf o
  extends_world := w.extends_alloc o
  keeps := keeps_begin hn
  done c d hl hc := by
    have hca : c = a := by
      refine Classical.byContradiction fun hca => ?_
      rw [lookup_cons_of_ne hca, hc] at hl
      cases hl
    subst hca
    obtain rfl : w.size = d := by simpa using hl
    have same (e : Addr) (he : w₀.Holds c e) : target ((c, w.size) :: m) e = target m e :=
      target_keeps hr (hr.begin da hf o) (keeps_begin hn) (hs e he).1
    refine ⟨Nat.le_refl _, ?_, fun e he => (hs e he).1.keeps (keeps_begin hn), ?_⟩
    · rw [show (w.alloc o).2.get w.size = o from w.get_alloc_same o, ho]
      exact Object.rename_congr fun e he => (same e he).symm
    · intro xs hx e he
      have held : w₀.Holds c e := by simpa [World.Holds, hx, Object.parts] using he
      rw [same e held]
      exact (hs e held).2
  only d hd hd' := by
    rw [World.size_alloc] at hd'
    obtain rfl : d = w.size := by omega
    exact ⟨a, by simp, hn⟩

/-! ### Specifications of copying steps -/

/-- From the record `m` and the world `w` the step gives a result. -/
def Gives {α : Type} (act : Copying α) (m : Memo) (w : World) (Q : α → Memo → World → Prop) :
    Prop :=
  Build.Gives (act.run m) w fun r w' => Q r.1 r.2 w'

variable {α β : Type} {m : Memo} {w : World}

theorem Gives.mono {act : Copying α} {Q R : α → Memo → World → Prop} (h : Gives act m w Q)
    (hr : ∀ a m' w', w.Extends w' → Q a m' w' → R a m' w') : Gives act m w R :=
  Build.Gives.mono h fun a w' he hq => hr a.1 a.2 w' he hq

theorem Gives.pure {Q : α → Memo → World → Prop} {a : α} (h : Q a m w) :
    Gives (pure a : Copying α) m w Q :=
  Build.Gives.pure h

theorem Gives.bind {act : Copying α} {f : α → Copying β} {Q : α → Memo → World → Prop}
    {R : β → Memo → World → Prop} (h : Gives act m w Q)
    (hf : ∀ a m' w', w.Extends w' → Q a m' w' → Gives (f a) m' w' R) :
    Gives (act >>= f) m w R := by
  unfold Gives
  rw [StateT.run_bind]
  exact Build.Gives.bind h fun r w' he hq => hf r.1 r.2 w' he hq

theorem Gives.get_bind {f : Memo → Copying β} {R : β → Memo → World → Prop}
    (h : Gives (f m) m w R) : Gives ((get : Copying Memo) >>= f) m w R :=
  h

theorem Gives.look_bind {a : Addr} {f : Object → Copying β} {R : β → Memo → World → Prop}
    (h : Gives (f (w.get a)) m w R) : Gives ((Build.look a : Copying Object) >>= f) m w R :=
  h

theorem Gives.begin_bind {a : Addr} {o : Object} {f : Addr → Copying β}
    {R : β → Memo → World → Prop}
    (h : Gives (f w.size) ((a, w.size) :: m) (w.alloc o).2 R) :
    Gives (begin a o >>= f) m w R := by
  obtain ⟨r, w', run, he, hq⟩ := h
  exact ⟨r, w', run, (w.extends_alloc o).trans he, hq⟩

theorem Gives.begin {a : Addr} {o : Object} {Q : Addr → Memo → World → Prop}
    (h : Q w.size ((a, w.size) :: m) (w.alloc o).2) : Gives (begin a o) m w Q :=
  ⟨(w.size, (a, w.size) :: m), (w.alloc o).2, rfl, w.extends_alloc o, h⟩

/-! ### The objects that are left to copy -/

/-- The number of objects that are not in the record. -/
def pending (w₀ : World) (m : Memo) : Nat :=
  ((Finset.range w₀.size).filter fun a => m.lookup a = none).card

theorem pending_le (w₀ : World) (m : Memo) : pending w₀ m ≤ w₀.size := by
  simpa [pending] using Finset.card_filter_le (Finset.range w₀.size) fun a => m.lookup a = none

theorem pending_keeps {m m' : Memo} (hk : ∀ a b, m.lookup a = some b → m'.lookup a = some b) :
    pending w₀ m' ≤ pending w₀ m := by
  refine Finset.card_le_card fun a ha => ?_
  simp only [Finset.mem_filter] at ha ⊢
  refine ⟨ha.1, ?_⟩
  cases h : m.lookup a with
  | none => rfl
  | some b => simp [hk a b h] at ha

theorem pending_begin {m : Memo} {a b : Addr} (ha : a < w₀.size) (hn : m.lookup a = none) :
    pending w₀ ((a, b) :: m) < pending w₀ m := by
  refine Finset.card_lt_card (Finset.ssubset_iff_of_subset ?_ |>.mpr ⟨a, ?_, ?_⟩)
  · intro c hc
    simp only [Finset.mem_filter] at hc ⊢
    refine ⟨hc.1, ?_⟩
    by_cases h : c = a
    · simpa [h] using hn
    · rw [← lookup_cons_of_ne h]
      exact hc.2
  · simpa [hn] using ha
  · simp

end Copying
end OpenApiDoc
