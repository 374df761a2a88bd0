import OpenApiDoc.Operation
import OpenApiDoc.Proofs.Parts

/-! # What steps leave alone

A step may fail, and it may write to objects that it made itself. `act.Leaves base k` says that,
whatever the step comes to, everything that was in the world `base` is left as it was, if there are
at least `k` objects at its start.

* `Build.copyObject_leaves`: copies of any objects, also of those that cannot be copied in full.
* `Operation.emit_leaves`: writing an operation object leaves everything alone. -/

namespace OpenApiDoc

namespace Build

variable {α β : Type} {base : World} {k : Nat}

/-- The world after a step, whether it gives a result or fails. -/
def after (act : Build α) (w : World) : World :=
  match act.run w with
  | .ok _ w' => w'
  | .error _ w' => w'

/-- Everything that was in `base` is left as it was, and objects do not vanish. -/
def Leaves (base : World) (k : Nat) (act : Build α) : Prop :=
  ∀ w, base.Grows w → k ≤ w.size → base.Grows (act.after w) ∧ k ≤ (act.after w).size

theorem Leaves.pure (a : α) : Leaves base k (pure a : Build α) := fun _ h hk => ⟨h, hk⟩

theorem Leaves.throw (f : Fault) : Leaves base k (throw f : Build α) := fun _ h hk => ⟨h, hk⟩

theorem Leaves.bind {act : Build α} {f : α → Build β} (h : Leaves base k act)
    (hf : ∀ a, Leaves base k (f a)) : Leaves base k (act >>= f) := by
  intro w hw hk
  have first := h w hw hk
  simp only [after, EStateM.run_bind] at first ⊢
  cases run : act.run w with
  | ok a w₁ =>
      rw [run] at first
      exact hf a w₁ first.1 first.2
  | error e w₁ =>
      rw [run] at first
      exact first

theorem Leaves.get : Leaves base k (MonadState.get : Build World) := fun _ h hk => ⟨h, hk⟩

theorem Leaves.look (a : Addr) : Leaves base k (look a) := fun _ h hk => ⟨h, hk⟩

theorem Leaves.new (o : Object) : Leaves base k (new o) := fun w h hk =>
  ⟨h.trans (w.extends_alloc o).grows, Nat.le_trans hk (w.extends_alloc o).size⟩

theorem Leaves.put {b : Addr} (hb : base.size ≤ b) (o : Object) : Leaves base k (put b o) :=
  fun w h hk => ⟨h.set hb o, Nat.le_trans hk (Nat.le_of_eq (w.size_set b o).symm)⟩

theorem attributesOf_insert {w : World} {a b : Addr} (h : a ≠ b) (name : String) (v : Value) :
    ({ w with attributes := Entries.insert (· == ·) w.attributes (b, name) v } :
      World).attributesOf a = w.attributesOf a := by
  simp only [World.attributesOf]
  induction w.attributes with
  | nil => simp [Entries.insert, Ne.symm h]
  | cons e es ih =>
      by_cases he : e.1 = (b, name)
      · simp [Entries.insert, he, Ne.symm h]
      · simp only [Entries.insert, beq_iff_eq, he, if_false, List.filterMap_cons, ih]

theorem Leaves.attach {b : Addr} (hb : base.size ≤ b) (hk : b < k) (name : String) (v : Value) :
    Leaves base k (attach b name v) := by
  intro w h hw
  refine ⟨⟨h.size, h.get, fun a ha => ?_, fun ho a ha => ?_⟩, hw⟩
  · rw [← h.attributes a ha]
    exact attributesOf_insert (Nat.ne_of_lt (Nat.lt_of_lt_of_le ha hb)) name v
  · rw [← h.owned ho a ha]
    exact attributesOf_insert (Nat.ne_of_gt (Nat.lt_of_lt_of_le (Nat.lt_of_lt_of_le hk hw) ha)) name v

theorem Leaves.mapM {f : α → Build β} {xs : List α} (h : ∀ x ∈ xs, Leaves base k (f x)) :
    Leaves base k (xs.mapM f) := by
  induction xs with
  | nil => exact .pure []
  | cons x xs ih =>
      rw [List.mapM_cons]
      refine (h x (by simp)).bind fun y => ?_
      exact (ih fun z hz => h z (by simp [hz])).bind fun ys => .pure (y :: ys)

end Build

namespace Copying

variable {α β : Type} {base : World} {k : Nat}

/-- Whatever is in the record of copies, the step leaves everything alone. -/
def Leaves (base : World) (k : Nat) (act : Copying α) : Prop :=
  ∀ m, Build.Leaves base k (act.run m)

theorem Leaves.pure (a : α) : Leaves base k (pure a : Copying α) := fun m => .pure (a, m)

theorem Leaves.lift {act : Build α} (h : Build.Leaves base k act) :
    Leaves base k (liftM act : Copying α) :=
  fun m => h.bind fun a => .pure (a, m)

theorem Leaves.bind {act : Copying α} {f : α → Copying β} (h : Leaves base k act)
    (hf : ∀ a, Leaves base k (f a)) : Leaves base k (act >>= f) := by
  intro m
  rw [StateT.run_bind]
  exact (h m).bind fun r => hf r.1 r.2

theorem Leaves.get : Leaves base k (MonadState.get : Copying (List (Addr × Addr))) :=
  fun m => .pure (m, m)

theorem Leaves.throw (f : Fault) : Leaves base k (throw f : Copying α) :=
  fun _ => Build.Leaves.throw f

theorem Leaves.mapM {f : α → Copying β} {xs : List α} (h : ∀ x ∈ xs, Leaves base k (f x)) :
    Leaves base k (xs.mapM f) := by
  induction xs with
  | nil => exact .pure []
  | cons x xs ih =>
      rw [List.mapM_cons]
      refine (h x (by simp)).bind fun y => ?_
      exact (ih fun z hz => h z (by simp [hz])).bind fun ys => .pure (y :: ys)

/-- A copy that was begun is new. -/
theorem Leaves.begin_bind {a : Addr} {o : Object} {f : Addr → Copying β}
    (h : ∀ b, base.size ≤ b → Leaves base (b + 1) (f b)) : Leaves base k (begin a o >>= f) := by
  intro m w hw hk
  have grown := hw.trans (w.extends_alloc o).grows
  have size := w.size_alloc o
  have rest := h w.size hw.size ((a, w.size) :: m) (w.alloc o).2 grown (Nat.le_of_eq size.symm)
  exact ⟨rest.1, Nat.le_trans hk (Nat.le_of_succ_le rest.2)⟩

theorem Leaves.begin (a : Addr) (o : Object) : Leaves base k (begin a o) := by
  have begun : Leaves base k (Copying.begin a o >>= Pure.pure) := .begin_bind fun b _ => .pure b
  simpa using begun

theorem Leaves.forM {f : α → Copying PUnit} {xs : List α} (h : ∀ x ∈ xs, Leaves base k (f x)) :
    Leaves base k (xs.forM f) := by
  induction xs with
  | nil => exact .pure _
  | cons x xs ih =>
      show Leaves base k (f x >>= fun _ => xs.forM f)
      exact (h x (by simp)).bind fun _ => ih fun z hz => h z (by simp [hz])

variable {object : Addr → Copying Addr}

theorem value_leaves (h : ∀ a, Leaves base k (object a)) (v : Value) :
    Leaves base k (value object v) := by
  cases v with
  | atom a => exact .pure _
  | obj a => exact (h a).bind fun b => .pure _

theorem entry_leaves (h : ∀ a, Leaves base k (object a)) (e : Value × Value) :
    Leaves base k (entry object e) :=
  (value_leaves h e.2).bind fun _ => (value_leaves h e.1).bind fun _ => .pure _

theorem optional_leaves (h : ∀ a, Leaves base k (object a)) (a : Option Addr) :
    Leaves base k (optional object a) := by
  cases a with
  | none => exact .pure _
  | some b => exact (h b).bind fun _ => .pure _

theorem attributes_leaves {b : Addr} (hb : base.size ≤ b)
    (h : ∀ a, Leaves base (b + 1) (object a)) (a : Addr) :
    Leaves base (b + 1) (attributes object a b) := by
  refine Leaves.bind (.lift .get) fun w => ?_
  refine (Leaves.forM fun e _ => ?_).bind fun _ => .pure b
  exact (value_leaves h e.2).bind fun v =>
    .lift (.attach hb (Nat.lt_succ_self b) e.1 v)

theorem node_leaves (h : ∀ l a, Leaves base l (object a)) (a f : Addr) (flag : Bool) :
    Leaves base k (node object a f flag) :=
  .begin_bind fun b hb => (h (b + 1) f).bind fun g =>
    (Leaves.lift (.put hb (.node g flag))).bind fun _ => attributes_leaves hb (h (b + 1)) a

theorem operation_leaves (h : ∀ l a, Leaves base l (object a)) (a : Addr) (op : Operation) :
    Leaves base k (operation object a op) := by
  refine .begin_bind fun b hb => ?_
  refine (h (b + 1) op.responses).bind fun responses => ?_
  refine (optional_leaves (h (b + 1)) op.tags).bind fun tags => ?_
  refine (optional_leaves (h (b + 1)) op.parameters).bind fun parameters => ?_
  refine (optional_leaves (h (b + 1)) op.requestBody).bind fun requestBody => ?_
  refine (h (b + 1) op.extra).bind fun extra => ?_
  exact (Leaves.lift (.put hb _)).bind fun _ => attributes_leaves hb (h (b + 1)) a

theorem object_leaves (fuel : Nat) : ∀ k a, Leaves base k (Copying.object fuel a) := by
  induction fuel with
  | zero => exact fun k a => .throw _
  | succ fuel ih =>
      intro k a
      refine Leaves.get.bind fun m => ?_
      cases m.lookup a with
      | some b => exact .pure b
      | none =>
          refine (Leaves.lift (.look a)).bind fun o => ?_
          cases o with
          | mapping es =>
              exact .begin_bind fun b hb =>
                (Leaves.mapM fun e _ => entry_leaves (ih (b + 1)) e).bind fun es' =>
                  (Leaves.lift (.put hb (.mapping es'))).bind fun _ => .pure b
          | list xs =>
              exact .begin_bind fun b hb =>
                (Leaves.mapM fun v _ => value_leaves (ih (b + 1)) v).bind fun xs' =>
                  (Leaves.lift (.put hb (.list xs'))).bind fun _ => .pure b
          | tuple xs =>
              refine (Leaves.mapM fun v _ => value_leaves (ih k) v).bind fun xs' => ?_
              refine Leaves.get.bind fun m => ?_
              cases m.lookup a with
              | some b => exact .pure b
              | none =>
                  by_cases h : xs' = xs
                  · simp only [h, if_true]
                    exact .pure a
                  · simp only [h, if_false]
                    exact .begin a (.tuple xs')
          | moment m => exact .begin a (.moment m)
          | node f o => exact node_leaves (fun l a => ih l a) a f o
          | operation op => exact operation_leaves (fun l a => ih l a) a op
          | constructor c => exact .begin_bind fun b hb => attributes_leaves hb (ih (b + 1)) a
          | builder h b => exact .pure a
          | machinery t ps => exact .pure a
          | module names => exact .throw _

end Copying

namespace Build

variable {base : World} {k : Nat}

/-- Copying leaves everything alone, whatever is copied. -/
theorem copyObject_leaves (a : Addr) : Leaves base k (copyObject a) :=
  Leaves.get.bind fun w => (Copying.object_leaves w.copyDepth k a []).bind fun _ => .pure _

theorem record_leaves (logger message : String) : Leaves base k (record logger message) := by
  intro w h hk
  have grown : w.Extends ((record logger message).after w) := ⟨Nat.le_refl _, fun _ _ => rfl, rfl⟩
  exact ⟨h.trans grown.grows, hk⟩

end Build

namespace Operation

open Build

variable {base : World} {k : Nat}

theorem iterate_leaves (v : Value) : Leaves base k v.iterate := by
  have pair (xs : List Value) : Leaves base k (newTuple xs) :=
    (Leaves.new _).bind fun _ => .pure _
  cases v with
  | atom a =>
      cases a with
      | str s => exact .pure _
      | bytes bs => exact .pure _
      | _ => exact .throw _
  | obj a =>
      refine (Leaves.look a).bind fun o => ?_
      cases o with
      | mapping es => exact .pure _
      | list xs => exact .pure _
      | tuple xs => exact .pure _
      | node f o => exact .mapM fun _ _ => pair _
      | operation op => exact .mapM fun _ _ => pair _
      | machinery t ps =>
          cases ps with
          | some xs => exact .pure _
          | none => exact .throw _
      | _ => exact .throw _

/-- Writing an operation object leaves everything alone. -/
theorem emit_leaves (op : Operation) (default : Value) : Leaves base k (op.emit default) := by
  have copied (name : String) (a : Option Addr) : Leaves base k (copiedField name a) := by
    cases a with
    | none => exact .pure []
    | some b => exact (copyObject_leaves b).bind fun _ => .pure _
  have listed (name : String) (a : Option Addr) : Leaves base k (listField name a) := by
    cases a with
    | none => exact .pure []
    | some b =>
        exact (iterate_leaves (.obj b)).bind fun xs => ((Leaves.new _).bind fun _ => .pure _).bind
          fun _ => .pure _
  have further (v : Value) : Leaves base k v.further := by
    refine Leaves.get.bind fun w => ?_
    cases v.mapping? w with
    | some es => exact .pure es
    | none => exact .throw _
  refine (listed "tags" op.tags).bind fun tags => ?_
  refine (copied "parameters" op.parameters).bind fun parameters => ?_
  refine (copied "requestBody" op.requestBody).bind fun requestBody => ?_
  refine (copied "responses" (some op.responses)).bind fun responses => ?_
  refine (copyObject_leaves op.extra).bind fun a => (further (.obj a)).bind fun extra => ?_
  exact Leaves.get.bind fun w => (Leaves.new _).bind fun _ => .pure _

end Operation
end OpenApiDoc
