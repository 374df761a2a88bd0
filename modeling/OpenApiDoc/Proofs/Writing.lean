import OpenApiDoc.Builder.Access
import OpenApiDoc.Proofs.Separation

/-! # Writing outside

Assigning an item writes to an object that is usable, so an enclosure stays closed, and what is
inside, the doors, and what is never written to are as they were.

* `World.Spares` says what writing leaves as it was.
* `World.Rewrites` holds when one mapping or list outside is written to.
* `Access.setItem_writes` is about items, `Access.setAttribute_node` about attributes of nodes, which
  are not written to. -/

namespace OpenApiDoc

open Build World

namespace World

variable {w w' : World} {E : Enclosure}

/-- What is inside, the doors, and what is never written to are as they were. -/
structure Spares (E : Enclosure) (w w' : World) : Prop where
  size : w.size ≤ w'.size
  get : ∀ a < w.size, E.inside a ∨ E.doors a ∨ (w.get a).isWritten = false → w'.get a = w.get a

theorem Extends.spares (h : w.Extends w') : Spares E w w' := ⟨h.size, fun a ha _ => h.get a ha⟩

theorem Spares.refl (E : Enclosure) (w : World) : Spares E w w := (Extends.refl w).spares

theorem Spares.trans {E' : Enclosure} {w'' : World} (h : Spares E w w') (k : Spares E' w' w'')
    (he : E.Widens w E') : Spares E w w'' where
  size := Nat.le_trans h.size k.size
  get a ha hs := by
    have same := h.get a ha hs
    rw [k.get a (Nat.lt_of_lt_of_le ha h.size), same]
    rcases hs with hs | hs | hs
    · exact .inl (he.inside a hs)
    · exact .inr (.inl (he.doors ▸ hs))
    · exact .inr (.inr (by rw [same]; exact hs))

/-- A mapping or a list outside is written to, and no part of a fragment if those are spared. -/
structure Rewrites (E : Enclosure) (w w' : World) : Prop where
  written : ∃ a o, w.Usable E (.obj a) ∧ Admits E w o ∧ (E.spared → ¬ w.InFragment a) ∧
    w' = w.set a o ∧ ((∃ es fs, w.get a = .mapping es ∧ o = .mapping fs) ∨
      ∃ xs ys, w.get a = .list xs ∧ o = .list ys)

theorem Rewrites.spares (h : Rewrites E w w') : Spares E w w' := by
  obtain ⟨a, o, ha, -, -, rfl, kind⟩ := h.written
  refine ⟨Nat.le_of_eq (w.size_set a o).symm, fun b _ hb => w.get_set_of_ne o ?_⟩
  rintro rfl
  rcases hb with hb | hb | hb
  · exact ha.2.1 hb
  · exact ha.2.2 hb
  · rcases kind with ⟨es, fs, hg, -⟩ | ⟨xs, ys, hg, -⟩ <;> simp [hg, Object.isWritten] at hb

/-- The enclosure is closed when an object outside is written to. -/
theorem Encloses.rewrites (h : w.Encloses E) (k : Rewrites E w w') : w'.Encloses E := by
  have spares := k.spares
  obtain ⟨a, o, ha, ho, apart, hw, kind⟩ := k.written
  have size : w'.size = w.size := by rw [hw, w.size_set]
  have same : w'.get a = o := by rw [hw, w.get_set_same o ha.1]
  have other {b : Addr} (hb : b ≠ a) : w'.get b = w.get b := by
    rw [hw, w.get_set_of_ne o (Ne.symm hb)]
  have attributes : w'.attributes = w.attributes := by rw [hw]; rfl
  have not_inert : (w.get a).isInert = false ∧ o.isInert = false := by
    rcases kind with ⟨es, fs, hg, rfl⟩ | ⟨xs, ys, hg, rfl⟩ <;> simp [hg, Object.isInert]
  have inert {v : Value} : w'.Inert v ↔ w.Inert v := by
    constructor
    · refine fun hi => hi.transfer (Nat.le_of_eq size) fun b _ hb => (other ?_).symm
      rintro rfl
      simp [same, not_inert.2] at hb
    · refine fun hi => hi.transfer (Nat.le_of_eq size.symm) fun b _ hb => other ?_
      rintro rfl
      simp [not_inert.1] at hb
  have mapping {b : Addr} {es : Entries} (hg : w.get b = .mapping es) :
      ∃ fs, w'.get b = .mapping fs := by
    by_cases hb : b = a
    · subst hb
      rcases kind with ⟨es, fs, -, rfl⟩ | ⟨xs, ys, hg', -⟩
      · exact ⟨fs, same⟩
      · simp [hg] at hg'
    · exact ⟨es, (other hb).trans hg⟩
  have unwritten {b : Addr} {p : Object} (hp : w'.get b = p) (hk : p.isWritten = false) :
      w.get b = p := by
    rw [← hp, other]
    rintro rfl
    rw [same] at hp
    rcases kind with ⟨es, fs, -, rfl⟩ | ⟨xs, ys, -, rfl⟩ <;> simp [← hp, Object.isWritten] at hk
  have part {v : Value} (hv : v ∈ o.parts) : w.Open E v := h.open_of_admits ho hv
  refine ⟨⟨attributes.trans h.tidy.attributes, fun b hb => ?_, fun b c hbc => ?_,
    fun b xs hx => h.tidy.older b xs (unwritten hx rfl), fun b es hg e he => ?_,
    fun b f p hg => ?_⟩, fun b c hi hd hbc => ?_, fun b hb => size ▸ h.lt b hb,
    fun b hb hi => h.inert b hb (inert.mp hi), fun b hb => ?_, fun hs b f p hg => ?_⟩
  · by_cases hba : b = a
    · rw [hba, same]
      cases ho <;> rfl
    · rw [other hba]
      exact h.tidy.kind b (size ▸ hb)
  · by_cases hba : b = a
    · rw [Holds, hba, same] at hbc
      exact size ▸ (part hbc).1
    · rw [Holds, other hba] at hbc
      exact size ▸ h.tidy.part b c hbc
  · refine inert.mpr ?_
    by_cases hba : b = a
    · rw [hba, same] at hg
      subst hg
      cases ho with
      | mapping entries => exact (entries e he).1
    · rw [other hba] at hg
      exact h.tidy.keys b es hg e he
  · obtain ⟨es, hf⟩ := h.tidy.fragment b f p (unwritten hg rfl)
    exact mapping hf
  · by_cases hba : b = a
    · rw [Holds, hba, same] at hbc
      exact (part hbc).2
    · rw [Holds, other hba] at hbc
      exact h.apart b c hi hd hbc
  · obtain ⟨es, hg⟩ := h.door b hb
    exact mapping hg
  · have old := unwritten hg rfl
    have unshared := h.untangled hs b f p old
    refine (unshared.transfer fun way c hc => ⟨size.symm ▸ unshared.there way c hc, ?_⟩).1
    rw [other fun hca => apart hs ⟨b, f, p, way, old, hca ▸ hc⟩]
    exact ⟨rfl, rfl, rfl⟩

end World

/-- The step writes to one object outside and gives an atom, or it fails and does nothing. -/
def Build.Writes (E : Enclosure) (act : Build Value) (w : World) : Prop :=
  match act.run w with
  | .ok u w' => (∃ a, u = .atom a) ∧ Rewrites E w w'
  | .error _ w' => w' = w

/-- The step changes nothing, whatever it comes to. -/
def Build.Still {α : Type} (act : Build α) (w : World) : Prop :=
  match act.run w with
  | .ok _ w' => w' = w
  | .error _ w' => w' = w

namespace Build

variable {α : Type} {w : World} {E : Enclosure}

theorem Writes.throw (f : Fault) : (throw f : Build Value).Writes E w := rfl

theorem Writes.get_bind {f : World → Build Value} (h : (f w).Writes E w) :
    ((MonadState.get : Build World) >>= f).Writes E w :=
  h

theorem Writes.look_bind {a : Addr} {f : Object → Build Value} (h : (f (w.get a)).Writes E w) :
    (look a >>= f).Writes E w :=
  h

theorem Writes.still_bind {act : Build α} {f : α → Build Value} (h : act.Still w)
    (hf : ∀ a, act.run w = .ok a w → (f a).Writes E w) : (act >>= f).Writes E w := by
  unfold Still at h
  unfold Writes
  rw [EStateM.run_bind]
  cases run : act.run w with
  | ok a w' =>
      obtain rfl : w' = w := by simpa [run] using h
      exact hf a run
  | error f w' => simpa [run] using h

theorem Still.get_bind {f : World → Build α} (h : (f w).Still w) :
    ((MonadState.get : Build World) >>= f).Still w :=
  h

theorem requireKey_still (k : Value) : (requireKey k).Still w := by
  refine Still.get_bind ?_
  cases w.unhashable? k <;> rfl

end Build

namespace Access

variable {w : World} {E : Enclosure} {v k u : Value}

theorem position_still (s : Sequence) (k : Value) : (position s k).Still w := by
  cases k with
  | obj a => rfl
  | atom a =>
      cases a with
      | int i =>
          show (if Field.isWord i then pure i else Build.fail .hugeIndex : Build Int).Still w
          split <;> rfl
      | _ => rfl

theorem refuseItem_writes (v k : Value) : (refuseItem v k).Writes E w := by
  refine .get_bind ?_
  split <;> exact .throw _

/-- Assigning an item writes to a mapping or a list outside. -/
theorem setItem_writes (hw : w.Encloses E) (hv : w.Usable E v) (hk : w.Usable E k)
    (hu : w.Open E u) (hs : E.spared → ∀ a, v = .obj a → ¬ w.InFragment a) :
    (setItem v k u).Writes E w := by
  cases v with
  | atom a => exact refuseItem_writes _ k
  | obj a =>
      refine .look_bind ?_
      cases hg : w.get a with
      | mapping es =>
          refine .still_bind (requireKey_still k) fun _ hr => ?_
          have key := ((Value.requireKey_keeps (E := E) hk.open.has).ok hw hr).2.2
          refine ⟨⟨_, rfl⟩, a, _, hv, .mapping ((hw.openEntries hv hg).insert key hu w.sameKey),
            fun spared => hs spared a rfl, rfl, .inl ⟨es, _, hg, rfl⟩⟩
      | list xs =>
          refine .still_bind (position_still .list k) fun i _ => ?_
          cases index? xs.length i with
          | none => exact .throw _
          | some j =>
              refine ⟨⟨_, rfl⟩, a, _, hv, .list fun x hx => ?_, fun spared => hs spared a rfl, rfl,
                .inr ⟨xs, _, hg, rfl⟩⟩
              rcases List.mem_or_eq_of_mem_set hx with hx | rfl
              · exact hw.open_part hv (by simpa [hg, Object.parts] using hx)
              · exact hu
      | _ => exact refuseItem_writes _ k

/-- Assigning an attribute of a node fails and changes nothing. -/
theorem setAttribute_node {a f : Addr} {o : Bool} (hg : w.get a = .node f o) {name : String}
    (hn : name.startsWith "_" = false) (u : Value) :
    (setAttribute (.obj a) (.str name) u).run w =
      .error (.invalid .node [⟨.frozen, [.name name], .value u⟩]) w := by
  have other : name ≠ typeName := by
    rintro rfl
    simp [typeName] at hn
  have run : (setAttribute (.obj a) (.str name) u).run w = (assign .node a name u).run w := by
    refine (congrArg (EStateM.run · w) (if_neg other)).trans ((run_look_bind a _).trans ?_)
    rw [hg]
  rw [run, assign, hn]
  rfl

/-- Whatever it is given, setting an attribute of a node does nothing. -/
theorem setAttribute_writes
    (h : ∀ name, k = .str name → w.IsNode v ∧ name.startsWith "_" = false) :
    (setAttribute v k u).Writes E w := by
  cases k with
  | obj a => exact Writes.get_bind (.throw _)
  | atom n =>
      cases n with
      | str name =>
          obtain ⟨⟨a, f, o, rfl, hg⟩, hn⟩ := h name rfl
          unfold Build.Writes
          rw [setAttribute_node hg hn]
      | _ => exact Writes.get_bind (.throw _)

end Access
end OpenApiDoc
