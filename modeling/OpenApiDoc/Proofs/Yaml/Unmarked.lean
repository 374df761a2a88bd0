import OpenApiDoc.Proofs.Kinds
import OpenApiDoc.Proofs.Ways
import OpenApiDoc.Proofs.Yaml.Aliases

/-! # Documents without anchors

The YAML text of an unshared value has no anchors and no aliases, and is determined by what the value
looks like.

* `World.Writable` says of data that everything in it has a form: keys are texts, and no atom is a
  pattern.
* `Form.Unmarked` forms have neither. `Form.ofTree` is the unmarked form of a tree.
* `Graph.Passes` is what a walk does that meets new objects only, each of them once: nothing repeats.
* `Graph.render_unshared` and `Document.render_yaml_unshared`: an unshared value is written as the form
  of its tree. -/

namespace OpenApiDoc

/-! ### What can be written -/

/-- No atom is a pattern, and all keys are texts. A node stands for its fragment. -/
inductive Tree.Writable : Tree → Prop
  | atom {a : Atom} (h : ∀ s, a ≠ .pattern s) : Writable (.atom a)
  | moment (m : Moment) : Writable (.moment m)
  | list {ts : List Tree} (each : ∀ t ∈ ts, Writable t) : Writable (.list ts)
  | tuple {ts : List Tree} (each : ∀ t ∈ ts, Writable t) : Writable (.tuple ts)
  | mapping {es : List (Tree × Tree)} (keys : ∀ e ∈ es, ∃ s, e.1 = .str s)
      (each : ∀ e ∈ es, Writable e.2) : Writable (.mapping es)
  | node {f : String × Tree} {fs : List (String × Tree)} (fragment : Writable f.2) :
      Writable (.model .node (f :: fs))

theorem Tree.Writable.record {fs : List (String × Tree)} (h : ∀ f ∈ fs, f.2.Writable) :
    (Tree.record fs).Writable := by
  refine .mapping (fun e he => ?_) fun e he => ?_
  · obtain ⟨f, -, rfl⟩ := List.mem_map.mp he
    exact ⟨f.1, rfl⟩
  · obtain ⟨f, hf, rfl⟩ := List.mem_map.mp he
    exact h f hf

theorem Tree.Writable.plain {t : Tree} (h : t.Writable) : t.plain.Writable := by
  induction h with
  | atom h => exact .atom h
  | moment m => exact .moment m
  | list _ ih | tuple _ ih =>
      rw [Tree.plain, plainItems_eq]
      exact .list (List.forall_mem_map.mpr ih)
  | mapping keys _ ih =>
      rw [Tree.plain, plainEntries_eq]
      exact .mapping (List.forall_mem_map.mpr keys) (List.forall_mem_map.mpr ih)
  | node fragment => exact fragment

namespace World

variable {w w' : World}

/-- The value is data that can be written. -/
structure Writable (w : World) (v : Value) : Prop where
  data : w.IsData v
  tree : (w.tree v).Writable

theorem Writable.extends {v : Value} (h : w.Writable v) (k : w.Extends w') : w'.Writable v :=
  ⟨(h.data.extends k).1, (h.data.extends k).2 ▸ h.tree⟩

theorem Writable.item {a : Addr} (h : w.Writable (.obj a)) {xs : List Value}
    (hg : w.get a = .list xs) {x : Value} (hx : x ∈ xs) : w.Writable x := by
  have tree := h.tree
  rw [h.data.tree_list hg] at tree
  cases tree with
  | list each =>
      exact ⟨h.data.part (by simpa [hg, Object.parts] using hx), each _ (List.mem_map_of_mem hx)⟩

theorem Writable.entry {a : Addr} (h : w.Writable (.obj a)) {es : Entries}
    (hg : w.get a = .mapping es) {e : Value × Value} (he : e ∈ es) :
    (∃ s, e.1 = .str s) ∧ w.Writable e.2 := by
  have tree := h.tree
  rw [h.data.tree_mapping hg] at tree
  cases tree with
  | mapping keys each =>
      obtain ⟨s, hs⟩ := keys _ (List.mem_map_of_mem he)
      have key : w.Shows e.1 (.str s) := ⟨h.data.part (hg ▸ Object.mem_parts_key he), hs⟩
      exact ⟨⟨s, key.atom⟩, h.data.part (hg ▸ Object.mem_parts_value he),
        each _ (List.mem_map_of_mem he)⟩

theorem Writable.atom {a : Atom} (h : ∀ s, a ≠ .pattern s) : w.Writable (.atom a) :=
  ⟨.atom a, w.tree_atom a ▸ .atom h⟩

/-- Looking this deep shows that the value can be written. -/
def writableTo (w : World) : Nat → Value → Bool
  | _, .atom (.pattern _) => false
  | _, .atom _ => true
  | 0, .obj _ => false
  | n + 1, .obj a => decide (a < w.size) && (w.attributesOf a).isEmpty &&
    match w.get a with
    | .moment _ => true
    | .list xs => xs.all (w.writableTo n)
    | .mapping es => es.all fun e =>
        (match e.1 with | .str _ => true | _ => false) && w.writableTo n e.2
    | .node f _ => w.writableTo n (.obj f)
    | _ => false

theorem Writable.of_writableTo {n : Nat} {v : Value} (h : w.writableTo n v) : w.Writable v := by
  have atom {n : Nat} {a : Atom} (h : w.writableTo n (.atom a)) : w.Writable (.atom a) :=
    .atom fun s hs => by cases n <;> simp [hs, writableTo] at h
  induction n generalizing v with
  | zero =>
      cases v with
      | atom a => exact atom h
      | obj a => simp [writableTo] at h
  | succ n ih =>
      cases v with
      | atom a => exact atom h
      | obj a =>
          simp only [writableTo, Bool.and_eq_true, decide_eq_true_iff, List.isEmpty_iff] at h
          obtain ⟨⟨lt, bare⟩, h⟩ := h
          have data (kind : (w.get a).isData) (tuple : ∀ xs, w.get a ≠ .tuple xs)
              (parts : ∀ v ∈ (w.get a).parts, w.Writable v) : w.IsData (.obj a) :=
            .obj lt bare kind (fun xs hx => absurd hx (tuple xs)) fun v hv => (parts v hv).data
          cases hg : w.get a with
          | moment m =>
              have self := data (by rw [hg]; rfl) (by simp [hg]) (by simp [hg, Object.parts])
              exact ⟨self, self.tree_moment hg ▸ .moment m⟩
          | list xs =>
              have each : ∀ x ∈ xs, w.Writable x := fun x hx => ih (by simp_all)
              have self := data (by rw [hg]; rfl) (by simp [hg]) (by simpa [hg, Object.parts])
              refine ⟨self, self.tree_list hg ▸ .list ?_⟩
              exact List.forall_mem_map.mpr fun x hx => (each x hx).tree
          | mapping es =>
              simp only [hg, List.all_eq_true, Bool.and_eq_true] at h
              have key : ∀ e ∈ es, ∃ s, e.1 = .str s := fun e he => by
                have := (h e he).1
                split at this
                · exact ⟨_, ‹_›⟩
                · simp at this
              have each : ∀ e ∈ es, w.Writable e.2 := fun e he => ih (h e he).2
              have parts : ∀ v ∈ (w.get a).parts, w.Writable v := by
                rw [hg]
                intro v hv
                obtain ⟨e, he, rfl | rfl⟩ := Object.mem_parts_mapping.mp hv
                · obtain ⟨s, hs⟩ := key e he
                  exact hs ▸ .atom (by simp)
                · exact each e he
              have self := data (by rw [hg]; rfl) (by simp [hg]) parts
              refine ⟨self, self.tree_mapping hg ▸ .mapping ?_ ?_⟩
              · refine List.forall_mem_map.mpr fun e he => ?_
                obtain ⟨s, hs⟩ := key e he
                exact ⟨s, hs ▸ w.tree_atom _⟩
              · exact List.forall_mem_map.mpr fun e he => (each e he).tree
          | node f o =>
              have fragment : w.Writable (.obj f) := ih (by simpa [hg] using h)
              have self := data (by rw [hg]; rfl) (by simp [hg]) (by simpa [hg, Object.parts])
              exact ⟨self, self.tree_node hg ▸ .node fragment.tree⟩
          | _ => simp [hg] at h

end World

namespace Yaml

open World

/-! ### Unmarked forms -/

namespace Form

/-- No part is anchored, and none is referred to. -/
inductive Unmarked : Form → Prop
  | scalar (s : Scalar) : Unmarked (.scalar none s)
  | sequence {items : List Form} (each : ∀ x ∈ items, Unmarked x) : Unmarked (.sequence none items)
  | mapping {entries : List (Form × Form)} (keys : ∀ e ∈ entries, Unmarked e.1)
      (each : ∀ e ∈ entries, Unmarked e.2) : Unmarked (.mapping none entries)

mutual

/-- The form of a tree, each part of which is written where it occurs. -/
def ofTree : Tree → Form
  | .atom a => .scalar none (Graph.scalarOf a)
  | .moment m => .scalar none (.moment m)
  | .list ts => .sequence none (ofItems ts)
  | .tuple ts => .sequence none (ofItems ts)
  | .mapping es => .mapping none (ofEntries es)
  | .model _ _ | .sealed _ _ | .cycle _ => .scalar none .null

def ofItems : List Tree → List Form
  | [] => []
  | t :: ts => ofTree t :: ofItems ts

def ofEntries : List (Tree × Tree) → List (Form × Form)
  | [] => []
  | (k, t) :: es => (ofTree k, ofTree t) :: ofEntries es

end

theorem ofItems_eq (ts : List Tree) : ofItems ts = ts.map ofTree := by
  induction ts with
  | nil => rfl
  | cons t ts ih => simp [ofItems, ih]

theorem ofEntries_eq (es : List (Tree × Tree)) :
    ofEntries es = es.map fun e => (ofTree e.1, ofTree e.2) := by
  induction es with
  | nil => rfl
  | cons e es ih => simp [ofEntries, ih]

mutual

theorem ofTree_unmarked : ∀ t : Tree, (ofTree t).Unmarked
  | .atom _ => .scalar _
  | .moment _ => .scalar _
  | .list ts => .sequence (ofItems_unmarked ts)
  | .tuple ts => .sequence (ofItems_unmarked ts)
  | .mapping es => .mapping (ofEntries_unmarked es).1 (ofEntries_unmarked es).2
  | .model _ _ => .scalar _
  | .sealed _ _ => .scalar _
  | .cycle _ => .scalar _

theorem ofItems_unmarked : ∀ ts : List Tree, ∀ x ∈ ofItems ts, x.Unmarked
  | [] => by simp [ofItems]
  | t :: ts => by
      rw [ofItems]
      exact List.forall_mem_cons.mpr ⟨ofTree_unmarked t, ofItems_unmarked ts⟩

theorem ofEntries_unmarked : ∀ es : List (Tree × Tree),
    (∀ e ∈ ofEntries es, e.1.Unmarked) ∧ ∀ e ∈ ofEntries es, e.2.Unmarked
  | [] => by simp [ofEntries]
  | (k, t) :: es => by
      rw [ofEntries]
      exact ⟨List.forall_mem_cons.mpr ⟨ofTree_unmarked k, (ofEntries_unmarked es).1⟩,
        List.forall_mem_cons.mpr ⟨ofTree_unmarked t, (ofEntries_unmarked es).2⟩⟩

end

end Form

namespace Graph

variable {w : World}

theorem mapM_pure_of {α β : Type} {act : α → Writing β} {g : α → β} {xs : List α}
    (h : ∀ x ∈ xs, act x = pure (g x)) : xs.mapM act = pure (xs.map g) := by
  induction xs with
  | nil => rfl
  | cons x xs ih =>
      rw [List.mapM_cons, h x (by simp), ih fun y hy => h y (by simp [hy])]
      rfl

/-- Without anchors, data is written as the form of its tree. -/
theorem form_unanchored {v : Value} (h : w.IsData v) {n : Nat} (hn : w.size ≤ n) :
    form w [] n v = pure (Form.ofTree (w.tree v)) := by
  refine h.deep (motive := fun n v => form w [] n v = pure (Form.ofTree (w.tree v))) ?_ ?_ hn
  · intro n a
    rw [w.tree_atom]
    cases n <;> rfl
  · intro n a hd ih
    have body : form w [] (n + 1) (.obj a) = formBody w [] n a none := by
      refine StateT.ext fun written => ?_
      rw [form_obj_run]
      rfl
    rw [body, formBody]
    cases hg : w.get a with
    | mapping es =>
        have each (e : Value × Value) (he : e ∈ es) : formEntry w [] n e =
            pure (Form.ofTree (w.tree e.1), Form.ofTree (w.tree e.2)) := by
          rw [formEntry, ih e.1 (hg ▸ Object.mem_parts_key he),
            ih e.2 (hg ▸ Object.mem_parts_value he)]
          rfl
        simp only [mapM_pure_of each, hd.tree_mapping hg, Form.ofTree, Form.ofEntries_eq,
          List.map_map]
        rfl
    | list xs =>
        have each (x : Value) (hx : x ∈ xs) : form w [] n x = pure (Form.ofTree (w.tree x)) :=
          ih x (by simpa [hg, Object.parts] using hx)
        simp only [mapM_pure_of each, hd.tree_list hg, Form.ofTree, Form.ofItems_eq, List.map_map]
        rfl
    | tuple xs =>
        have each (x : Value) (hx : x ∈ xs) : form w [] n x = pure (Form.ofTree (w.tree x)) :=
          ih x (by simpa [hg, Object.parts] using hx)
        simp only [mapM_pure_of each, hd.tree_tuple hg, Form.ofTree, Form.ofItems_eq, List.map_map]
        rfl
    | moment m => rw [hd.tree_moment hg, Form.ofTree]
    | node f o => rw [hd.tree_node hg, Form.ofTree]
    | operation op =>
        have view := hd.view_tree
        simp only [hg, Object.view, Option.some.injEq] at view
        rw [← view, Form.ofTree]
    | constructor c => simpa [hg, Object.isData] using hd.kind
    | builder m b => simpa [hg, Object.isData] using hd.kind
    | module ns => simpa [hg, Object.isData] using hd.kind
    | machinery t ps => simpa [hg, Object.isData] using hd.kind

/-! ### Walks without repetition -/

/-- If none of its objects was met before, the walk meets them and no others, and finds no
repetition. -/
def Passes (act : Walk PUnit) (met : Addr → Prop) : Prop :=
  ∀ s : Seen, (∀ b ∈ s.once, ¬ met b) → ∃ once, act.run s = .ok ((), ⟨once, s.again⟩) ∧
    ∀ b ∈ once, b ∈ s.once ∨ met b

theorem Passes.mono {act : Walk PUnit} {met met' : Addr → Prop} (h : Passes act met)
    (k : ∀ b, met b → met' b) : Passes act met' := by
  intro s fresh
  obtain ⟨once, run, new⟩ := h s fun b hb hm => fresh b hb (k b hm)
  exact ⟨once, run, fun b hb => (new b hb).imp_right (k b)⟩

theorem Passes.pure (met : Addr → Prop) : Passes (pure ()) met :=
  fun s _ => ⟨s.once, rfl, fun _ hb => .inl hb⟩

/-- An object that is met before its parts. -/
theorem Passes.meet {a : Addr} {inside : Walk PUnit} {met : Addr → Prop} (h : Passes inside met)
    (fresh : ¬ met a) : Passes (do if ← meet a then inside) fun b => b = a ∨ met b := by
  intro s unmet
  have new : s.once.contains a = false := by
    simpa using fun ha => unmet a ha (.inl rfl)
  obtain ⟨once, run, added⟩ := h ⟨a :: s.once, s.again⟩ fun b hb hm => by
    rcases List.mem_cons.mp hb with rfl | hb
    · exact fresh hm
    · exact unmet b hb (.inr hm)
  refine ⟨once, ?_, fun b hb => ?_⟩
  · have first : (Graph.meet a).run s = .ok (true, ⟨a :: s.once, s.again⟩) := by
      unfold Graph.meet
      change (if s.once.contains a then _ else _ : Walk Bool).run s = _
      rw [new]
      rfl
    rw [StateT.run_bind, first]
    exact run
  · rcases added b hb with hb | hb
    · rcases List.mem_cons.mp hb with rfl | hb
      · exact .inr (.inl rfl)
      · exact .inl hb
    · exact .inr (.inr hb)

/-- Walks that have no object in common, one after the other. -/
theorem Passes.forM {α : Type} {f : α → Walk PUnit} {met : α → Addr → Prop} {xs : List α}
    (h : ∀ x ∈ xs, Passes (f x) (met x))
    (apart : xs.Pairwise fun x y => ∀ b, met x b → ¬ met y b) :
    Passes (xs.forM f) fun b => ∃ x ∈ xs, met x b := by
  induction xs with
  | nil => exact .pure _
  | cons x xs ih =>
      intro s fresh
      obtain ⟨now, later⟩ := List.pairwise_cons.mp apart
      obtain ⟨once, run, added⟩ := h x (by simp) s fun b hb hm => fresh b hb ⟨x, by simp, hm⟩
      obtain ⟨once', run', added'⟩ := ih (fun y hy => h y (by simp [hy])) later ⟨once, s.again⟩
        fun b hb ⟨y, hy, hm⟩ => by
          rcases added b hb with hb | hb
          · exact fresh b hb ⟨y, by simp [hy], hm⟩
          · exact now y hy b hb hm
      refine ⟨once', ?_, fun b hb => ?_⟩
      · change (f x >>= fun _ => xs.forM f).run s = _
        rw [StateT.run_bind, run]
        exact run'
      · rcases added' b hb with hb | ⟨y, hy, hm⟩
        · exact (added b hb).imp_right fun hm => ⟨x, by simp, hm⟩
        · exact .inr ⟨y, by simp [hy], hm⟩

/-- The mappings, lists and calendar values that ways through the value lead to. -/
def Meets (w : World) (v : Value) (b : Addr) : Prop :=
  ∃ way, w.follow way v = some (.obj b) ∧ (w.get b).isShareable

theorem Meets.child {v x : Value} {i : Nat} (hx : (w.children v)[i]? = some x) {b : Addr}
    (h : Meets w x b) : Meets w v b := by
  obtain ⟨way, hb, hs⟩ := h
  exact ⟨i :: way, by simpa [hx] using hb, hs⟩

/-- The parts of an unshared value have nothing in common. -/
theorem apart_of_unshared {v : Value} (h : w.Unshared v) :
    (w.children v).Pairwise fun x y => ∀ b, Meets w x b → ¬ Meets w y b := by
  refine List.pairwise_iff_getElem.mpr fun i j hi hj lt b hx hy => ?_
  obtain ⟨way, hb, hs⟩ := hx
  obtain ⟨way', hb', -⟩ := hy
  have same := h.once (i :: way) (j :: way') b
    (by simpa [List.getElem?_eq_getElem hi] using hb)
    (by simpa [List.getElem?_eq_getElem hj] using hb') hs
  exact Nat.ne_of_lt lt (List.cons.inj same).1

/-- No part of an unshared object meets the object. -/
theorem not_meets_self {a : Addr} (h : w.Unshared (.obj a)) {x : Value}
    (hx : x ∈ w.children (.obj a)) : ¬ Meets w x a := by
  rintro ⟨way, ha, hs⟩
  obtain ⟨i, hi⟩ := List.mem_iff_getElem?.mp hx
  cases h.once (i :: way) [] a (by simpa [hi] using ha) rfl hs

/-- Walking through an unshared value finds nothing that repeats. -/
theorem walk_passes {v : Value} (h : w.Writable v) (hu : w.Unshared v) {n : Nat} (hn : w.size ≤ n) :
    Passes (walk w n v) (Meets w v) := by
  refine h.data.deep (motive := fun n v => (w.tree v).Writable → w.Unshared v →
    Passes (walk w n v) (Meets w v)) ?_ ?_ hn h.tree hu
  · intro n a tree _
    rw [w.tree_atom] at tree
    cases tree with
    | atom ha =>
        have : walk w n (.atom a) = pure () := by
          cases a <;> first | (cases n <;> rfl) | exact absurd rfl (ha _)
        rw [this]
        exact .pure _
  · intro n a hd ih tree hu
    have self : w.Writable (.obj a) := ⟨hd, tree⟩
    have plain : (w.get a).isPlain := hu.plain [] a rfl
    have part {x : Value} (hx : x ∈ w.children (.obj a)) (hw : w.Writable x) :
        Passes (walk w n x) (Meets w x) := by
      obtain ⟨i, hi⟩ := List.mem_iff_getElem?.mp hx
      exact ih x (Object.mem_parts_of_mem_children hx) hw.tree (hu.part hi)
    have whole {inside : Walk PUnit} (hs : (w.get a).isShareable)
        (h : Passes inside fun b => ∃ x ∈ w.children (.obj a), Meets w x b) :
        Passes (do if ← meet a then inside) (Meets w (.obj a)) := by
      refine (h.meet ?_).mono ?_
      · rintro ⟨x, hx, hm⟩
        exact not_meets_self hu hx hm
      · rintro b (rfl | ⟨x, hx, hm⟩)
        · exact ⟨[], rfl, hs⟩
        · obtain ⟨i, hi⟩ := List.mem_iff_getElem?.mp hx
          exact hm.child hi
    rw [walk]
    cases hg : w.get a with
    | mapping es =>
        have children : w.children (.obj a) = es.map (·.2) := by rw [children, hg]; rfl
        have entry (e : Value × Value) (he : e ∈ es) :
            Passes (do walk w n e.1; walk w n e.2) (Meets w e.2) := by
          obtain ⟨⟨s, hs⟩, hw⟩ := self.entry hg he
          have key : walk w n e.1 = pure () := by
            rw [hs]
            cases n <;> rfl
          rw [key]
          exact part (children ▸ List.mem_map_of_mem he) hw
        have apart := apart_of_unshared hu
        rw [children, List.pairwise_map] at apart
        refine whole (by rw [hg]; rfl) ((Passes.forM entry apart).mono ?_)
        rintro b ⟨e, he, hm⟩
        exact ⟨e.2, children ▸ List.mem_map_of_mem he, hm⟩
    | list xs =>
        have children : w.children (.obj a) = xs := by rw [children, hg]; rfl
        have item (x : Value) (hx : x ∈ xs) : Passes (walk w n x) (Meets w x) :=
          part (children ▸ hx) (self.item hg hx)
        have apart := apart_of_unshared hu
        rw [children] at apart
        refine whole (by rw [hg]; rfl) ((Passes.forM item apart).mono ?_)
        rintro b ⟨x, hx, hm⟩
        exact ⟨x, children ▸ hx, hm⟩
    | moment m =>
        have alone : (do let _ ← meet a; return () : Walk PUnit) =
            do if ← meet a then return () := by simp
        show Passes (do let _ ← meet a; return ()) _
        rw [alone]
        exact whole (by rw [hg]; rfl) (.pure _)
    | tuple xs => simp [hg, Object.isPlain] at plain
    | node f o => simp [hg, Object.isPlain] at plain
    | operation op =>
        have view := hd.view_tree
        simp only [hg, Object.view, Option.some.injEq] at view
        rw [← view] at tree
        cases tree
    | constructor c => simpa [hg, Object.isData] using hd.kind
    | builder m b => simpa [hg, Object.isData] using hd.kind
    | module ns => simpa [hg, Object.isData] using hd.kind
    | machinery t ps => simpa [hg, Object.isData] using hd.kind

/-- An unshared mapping is written as the form of its tree. -/
theorem render_unshared {a : Addr} {es : List (Tree × Tree)} (h : w.Writable (.obj a))
    (ht : w.tree (.obj a) = .mapping es) (hu : w.Unshared (.obj a)) :
    render w a = .ok (Form.document (Form.ofEntries es)) := by
  have none : repeats w (.obj a) = .ok [] := by
    obtain ⟨once, run, -⟩ := walk_passes h hu (Nat.le_succ w.size) ⟨[], []⟩ (by simp)
    rw [repeats, run]
    rfl
  have written : (form w [] (w.size + 1) (.obj a)).run [] =
      (Form.ofTree (w.tree (.obj a)), []) := by
    rw [form_unanchored h.data (Nat.le_succ w.size)]
    rfl
  rw [ht, Form.ofTree] at written
  exact render_mapping none written

end Graph
end Yaml

namespace Document

open Yaml World

/-- The YAML text of an unshared document has no anchors and shows what the document looks like. -/
theorem render_yaml_unshared {w : World} {d : Value} {es : List (Tree × Tree)} (h : w.Writable d)
    (ht : w.tree d = .mapping es) (hu : w.Unshared d) (owned : w.Owned) :
    (render d (.str "yaml")).Gives w fun text _ => text = Form.document (Form.ofEntries es) := by
  obtain ⟨b, fs, rfl, hg, -⟩ := World.Shows.mapping ⟨h.data, ht⟩
  have read : (Value.obj b).mapping? w = some fs := by simp [Value.mapping?, hg]
  have grown := extends_yamlWorld w fs
  have copy := get_yamlWorld w fs
  -- the mapping is copied, and the copy has the same parts
  have same : ((yamlWorld w fs).get w.size).parts = (w.get b).parts := by rw [copy, hg]
  have lt : w.size < (yamlWorld w fs).size := lt_size_of_mapping copy
  have part (v : Value) (hv : v ∈ (w.get b).parts) := (h.data.part hv).extends grown
  have data : (yamlWorld w fs).IsData (.obj w.size) := by
    refine .obj lt ?_ (by rw [copy]; rfl) (by simp [copy]) fun v hv => (part v (same ▸ hv)).1
    rw [grown.attributesOf]
    exact owned _ (Nat.le_refl _)
  have tree : (yamlWorld w fs).tree (.obj w.size) = w.tree (.obj b) := by
    rw [data.tree_mapping copy, h.data.tree_mapping hg]
    congr 1
    refine List.map_congr_left fun e he => ?_
    rw [(part e.1 (hg ▸ Object.mem_parts_key he)).2, (part e.2 (hg ▸ Object.mem_parts_value he)).2]
  have unshared : (yamlWorld w fs).Unshared (.obj w.size) := by
    obtain ⟨still, ways⟩ := hu.extends grown
    refine still.twin ?_ lt (copy ▸ rfl) fun way hw => ?_
    · rw [copy, grown.get b (lt_size_of_mapping hg), hg]
    · exact Nat.lt_irrefl _ (hu.there way _ (ways way ▸ hw))
  refine ⟨_, _, ?_, grown, rfl⟩
  rw [render_yaml_run read, Graph.render_unshared ⟨data, tree ▸ h.tree⟩ (tree.trans ht) unshared]

end Document
end OpenApiDoc
