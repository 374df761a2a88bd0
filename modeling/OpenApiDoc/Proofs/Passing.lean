import OpenApiDoc.Document
import OpenApiDoc.Proofs.Frames
import OpenApiDoc.Proofs.Outcomes

/-! # What helpers leave alone

A helper that puts a part of a document together takes what it is given, whatever that is, and makes
objects of its own. Everything that was there is left as it was, also if the helper fails.

* `Node.emit_leaves`, `detached_leaves` and `Value.entries_leaves` are about what becomes of arguments.
* `Document.components_leaves` and `Operation.withTextCodes_leaves` go through all entries of a mapping.
* `Build.Leaves.grows`: a step that gives a result leads to a world that has grown.
* `Build.copyObject_mapping`: whatever a mapping holds, its copy is a mapping with as many entries. -/

namespace OpenApiDoc

open Build

variable {base : World} {k : Nat}

namespace Build

variable {α β : Type}

theorem Leaves.newMapping (es : Entries) : Leaves base k (newMapping es) :=
  (Leaves.new _).bind fun _ => .pure _

theorem Leaves.newList (xs : List Value) : Leaves base k (newList xs) :=
  (Leaves.new _).bind fun _ => .pure _

theorem Leaves.lack (v : Value) (name : String) : Leaves base k (Build.lack v name : Build α) :=
  Leaves.get.bind fun _ => .throw _

theorem Leaves.foldlM {f : β → α → Build β} {xs : List α} (h : ∀ b, ∀ x ∈ xs, Leaves base k (f b x)) :
    ∀ b, Leaves base k (xs.foldlM f b) := by
  induction xs with
  | nil => exact fun b => .pure b
  | cons x xs ih =>
      intro b
      rw [List.foldlM_cons]
      exact (h b x (by simp)).bind fun c => ih (fun d y hy => h d y (List.mem_cons_of_mem x hy)) c

theorem Leaves.tryCatch {act : Build α} {handle : Fault → Build α} (h : Leaves base k act)
    (hf : ∀ f, Leaves base k (handle f)) : Leaves base k (MonadExcept.tryCatch act handle) := by
  intro w hw hk
  have first := h w hw hk
  simp only [after, run_tryCatch] at first ⊢
  cases run : act.run w with
  | ok a w₁ =>
      rw [run] at first
      exact first
  | error f w₁ =>
      rw [run] at first
      exact hf f w₁ first.1 first.2

/-- A step that leaves everything alone leads to a world that has grown. -/
theorem Leaves.grows {act : Build α} {w w' : World} {a : α} (h : Leaves w 0 act)
    (run : act.run w = .ok a w') : w.Grows w' := by
  have after := (h w (.refl w) (Nat.zero_le _)).1
  rwa [Build.after, run] at after

theorem requireKey_leaves (v : Value) : Leaves base k (requireKey v) := by
  refine Leaves.get.bind fun w => ?_
  cases w.unhashable? v with
  | none => exact .pure ()
  | some type => exact .throw _

end Build

namespace Value

theorem pair_leaves (place : Nat) (v : Value) : Leaves base k (v.pair place) := by
  refine (Leaves.tryCatch (Operation.iterate_leaves v) fun _ => .throw _).bind fun parts => ?_
  rcases parts with _ | ⟨key, _ | ⟨value, _ | _⟩⟩
  · exact .throw _
  · exact .throw _
  · exact (requireKey_leaves key).bind fun _ => .pure _
  · exact .throw _

theorem entries_leaves (v : Value) : Leaves base k v.entries := by
  refine Leaves.get.bind fun w => ?_
  cases v.mapping? w with
  | some es => exact .pure es
  | none =>
      refine (Operation.iterate_leaves v).bind fun parts => .foldlM (fun es p _ => ?_) []
      exact (pair_leaves p.2 p.1).bind fun e => Leaves.get.bind fun _ => .pure _

theorem entriesOrEmpty_leaves (v : Value) : Leaves base k v.entriesOrEmpty := by
  refine Leaves.get.bind fun w => ?_
  split
  · exact .pure []
  · exact entries_leaves v

theorem items_leaves (v : Value) : Leaves base k v.items := by
  refine Leaves.get.bind fun w => ?_
  cases v.mapping? w with
  | some es => exact .pure es
  | none => exact .lack v _

theorem copy_leaves (v : Value) : Leaves base k v.copy := by
  cases v with
  | atom a => exact .pure _
  | obj a => exact (copyObject_leaves a).bind fun _ => .pure _

theorem plainFrom_leaves (n : Nat) : ∀ v, Leaves base k (plainFrom n v) := by
  induction n with
  | zero =>
      intro v
      cases v with
      | atom a => exact .pure _
      | obj a => exact .throw _
  | succ n ih =>
      intro v
      have copied (a : Addr) : Leaves base k (do return Value.obj (← copyObject a)) :=
        (copyObject_leaves a).bind fun _ => .pure _
      have listed (xs : List Value) : Leaves base k (do newList (← xs.mapM (plainFrom n))) :=
        (Leaves.mapM fun x _ => ih x).bind fun ys => .newList ys
      cases v with
      | atom a => exact .pure _
      | obj a =>
          refine (Leaves.look a).bind fun o => ?_
          cases o with
          | node f o => exact copied f
          | mapping es =>
              exact (Leaves.mapM fun e _ => (ih e.2).bind fun _ => .pure _).bind fun fs =>
                .newMapping fs
          | list xs => exact listed xs
          | tuple xs => exact listed xs
          | _ => exact copied a

theorem plain_leaves (v : Value) : Leaves base k v.plain :=
  Leaves.get.bind fun _ => plainFrom_leaves _ v

end Value

theorem Node.emit_leaves (v : Value) : Leaves base k (emit v) := by
  refine Leaves.get.bind fun w => ?_
  cases parts? w v with
  | some p => exact (copyObject_leaves p.1).bind fun _ => .pure _
  | none =>
      refine (Value.entries_leaves v).bind fun es => ?_
      exact (Leaves.mapM fun e _ => (Value.plain_leaves e.2).bind fun _ => .pure _).bind fun fs =>
        .newMapping fs

theorem optionalField_leaves {name : String} {v : Value} {make : Value → Build Value}
    (h : Leaves base k (make v)) : Leaves base k (optionalField name v make) := by
  unfold optionalField
  split
  · exact .pure []
  · exact h.bind fun _ => .pure _

theorem detached_leaves (v : Value) : Leaves base k (detached v) :=
  (Value.entries_leaves v).bind fun es => (Leaves.newMapping es).bind Value.copy_leaves

namespace Document

theorem detachedOrEmpty_leaves (v : Value) : Leaves base k (detachedOrEmpty v) :=
  (Value.entriesOrEmpty_leaves v).bind fun es => (Leaves.newMapping es).bind Value.copy_leaves

theorem componentSection_leaves (name entries : Value) :
    Leaves base k (componentSection name entries) := by
  refine Leaves.get.bind fun w => ?_
  split
  · refine (Value.items_leaves entries).bind fun es => ?_
    refine (Leaves.mapM fun e _ => (Node.emit_leaves e.2).bind fun _ => .pure _).bind fun fs => ?_
    exact (Leaves.newMapping fs).bind fun _ => .pure _
  · exact (Value.copy_leaves entries).bind fun _ => .pure _

theorem components_leaves (v : Value) : Leaves base k (components v) :=
  (Value.items_leaves v).bind fun _ =>
    (Leaves.mapM fun e _ => componentSection_leaves e.1 e.2).bind fun fs => .newMapping fs

end Document

theorem Operation.withTextCodes_leaves (responses : Value) :
    Leaves base k (withTextCodes responses) := by
  refine Leaves.get.bind fun w => ?_
  cases responses.mapping? w with
  | none => exact .pure responses
  | some _ =>
      exact (Leaves.mapM fun e _ => Leaves.get.bind fun _ => (Value.copy_leaves e.2).bind fun _ =>
        .pure _).bind fun _ => .newMapping _

/-! ### Copies of mappings -/

namespace Entries

/-- The entries correspond to each other, and keys without parts are the same. -/
def KeepKeys (es copies : Entries) : Prop :=
  List.Forall₂ (fun e c => ∀ a, e.1 = .atom a → c.1 = .atom a) es copies

theorem KeepKeys.named {fs : List (String × Value)} {copies : Entries}
    (h : KeepKeys (named fs) copies) :
    ∃ gs, copies = Entries.named gs ∧ gs.map (·.1) = fs.map (·.1) := by
  induction fs generalizing copies with
  | nil =>
      cases h
      exact ⟨[], rfl, rfl⟩
  | cons f fs ih =>
      cases h with
      | @cons _ c _ _ first rest =>
          obtain ⟨gs, rfl, names⟩ := ih rest
          obtain ⟨k, u⟩ := c
          obtain rfl : k = .str f.1 := first _ rfl
          exact ⟨(f.1, u) :: gs, rfl, by rw [List.map_cons, List.map_cons, names]⟩

end Entries

namespace Copying

variable {α β : Type} {w w' : World} {m m' : List (Addr × Addr)}

/-- What the first of two steps came to, if both gave a result. -/
theorem bind_ok {act : Copying α} {f : α → Copying β} {b : β}
    (h : ((act >>= f).run m).run w = .ok (b, m') w') :
    ∃ a m₁ w₁, (act.run m).run w = .ok (a, m₁) w₁ ∧ ((f a).run m₁).run w₁ = .ok (b, m') w' := by
  rw [StateT.run_bind] at h
  obtain ⟨r, w₁, first, second⟩ := Build.bind_ok h
  exact ⟨r.1, r.2, w₁, first, second⟩

variable {object : Addr → Copying Addr}

theorem value_atom {a : Atom} {u : Value}
    (h : ((value object (.atom a)).run m).run w = .ok (u, m') w') : u = .atom a := by
  cases h
  rfl

/-- Keys without parts are kept. -/
theorem mapM_entry_keys {es copies : Entries}
    (h : ((es.mapM (entry object)).run m).run w = .ok (copies, m') w') :
    Entries.KeepKeys es copies := by
  induction es generalizing copies m w with
  | nil =>
      cases h
      exact .nil
  | cons e es ih =>
      rw [List.mapM_cons] at h
      obtain ⟨c, m₁, w₁, first, h⟩ := bind_ok h
      obtain ⟨cs, m₂, w₂, rest, h⟩ := bind_ok h
      cases h
      refine .cons (fun a ha => ?_) (ih rest)
      obtain ⟨v, m₃, w₃, -, first⟩ := bind_ok first
      obtain ⟨k, m₄, w₄, key, first⟩ := bind_ok first
      cases first
      rw [ha] at key
      exact value_atom key

theorem mapM_entry_leaves {base : World} {k : Nat} (n : Nat) (es : Entries) :
    Leaves base k (es.mapM (entry (Copying.object n))) :=
  .mapM fun e _ => entry_leaves (object_leaves n k) e

end Copying

/-- The copy of a mapping is a mapping, and keys without parts are kept. -/
theorem Build.copyObject_mapping {w w' : World} {a b : Addr} {es : Entries} (hg : w.get a = .mapping es)
    (run : (copyObject a).run w = .ok b w') : ∃ gs, w'.get b = .mapping gs ∧ Entries.KeepKeys es gs := by
  obtain ⟨_, _, ⟨⟩, run⟩ := bind_ok run
  obtain ⟨⟨c, m⟩, w₁, copied, run⟩ := bind_ok run
  cases run
  obtain ⟨n, depth⟩ : ∃ n, w.copyDepth = n + 1 :=
    Nat.exists_eq_succ_of_ne_zero (Nat.mul_ne_zero (Nat.succ_ne_zero _) (Nat.succ_ne_zero _))
  rw [depth] at copied
  obtain ⟨_, _, _, ⟨⟩, copied⟩ := Copying.bind_ok copied
  obtain ⟨_, _, _, ⟨⟩, copied⟩ := Copying.bind_ok copied
  rw [hg] at copied
  obtain ⟨_, _, _, ⟨⟩, copied⟩ := Copying.bind_ok copied
  obtain ⟨gs, m₁, w₂, entries, copied⟩ := Copying.bind_ok copied
  obtain ⟨_, _, _, ⟨⟩, copied⟩ := Copying.bind_ok copied
  cases copied
  have grown := (Copying.mapM_entry_leaves n es _).grows entries
  refine ⟨gs, World.get_set_same _ _ ?_, Copying.mapM_entry_keys entries⟩
  exact Nat.lt_of_lt_of_le (Nat.lt_of_lt_of_le (Nat.lt_succ_self _) (Nat.le_of_eq (w.size_alloc _).symm))
    grown.size

end OpenApiDoc
