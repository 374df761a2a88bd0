import OpenApiDoc.Proofs.Steps
import OpenApiDoc.Proofs.Yaml.Layout
import OpenApiDoc.Document

/-! # Forms read back

A form with its aliases expanded is the tree of the value that was written.

* `Form.read` expands the aliases of a form: it goes through the form in the order of the text and
  remembers the tree of every anchored part.
* `Recalls` is what a step of writing keeps: the anchored objects that were written before, and can
  be reached from what is written now, are remembered with their trees. An object that is still
  being written cannot be reached, since data does not hold itself.
* `World.IsData.recalls` says that the form of a value is read back as its tree. -/

namespace OpenApiDoc

/-- A tree of nothing, truth values, whole numbers, texts, lists and mappings with texts for keys. -/
inductive Tree.IsBasic : Tree → Prop
  | none : IsBasic .none
  | bool (b : Bool) : IsBasic (.bool b)
  | int (i : Int) : IsBasic (.atom (.int i))
  | str (s : String) : IsBasic (.str s)
  | list {items : List Tree} (each : ∀ t ∈ items, IsBasic t) : IsBasic (.list items)
  | mapping {entries : List (Tree × Tree)} (keys : ∀ e ∈ entries, ∃ s, e.1 = .str s)
      (each : ∀ e ∈ entries, IsBasic e.2) : IsBasic (.mapping entries)

namespace Yaml

/-! ### Reading a form -/

/-- The tree of a scalar. -/
def Scalar.tree : Scalar → Tree
  | .null => .none
  | .bool b => .bool b
  | .int i => .atom (.int i)
  | .float x => .atom (.float x)
  | .moment m => .moment m
  | .text s => .str s
  | .binary bs => .atom (.bytes bs)

namespace Form

/-- Trees by the numbers of their anchors. -/
abbrev Memory := Nat → Tree

/-- Before a document, nothing is remembered. -/
def blank : Memory := fun _ => .none

/-- Remember the tree of an anchored part. -/
def remember (anchor : Option Nat) (t : Tree) (memory : Memory) : Memory :=
  match anchor with
  | none => memory
  | some n => Function.update memory n t

mutual

/-- The tree of a form whose aliases stand for what is remembered, and what is remembered then. -/
def read (memory : Memory) : Form → Tree × Memory
  | .alias n => (memory n, memory)
  | .scalar anchor s => (s.tree, remember anchor s.tree memory)
  | .sequence anchor items =>
    let p := readItems memory items
    (.list p.1, remember anchor (.list p.1) p.2)
  | .mapping anchor entries =>
    let p := readEntries memory entries
    (.mapping p.1, remember anchor (.mapping p.1) p.2)

def readItems (memory : Memory) : List Form → List Tree × Memory
  | [] => ([], memory)
  | x :: xs =>
    let p := read memory x
    let q := readItems p.2 xs
    (p.1 :: q.1, q.2)

def readEntries (memory : Memory) : List (Form × Form) → List (Tree × Tree) × Memory
  | [] => ([], memory)
  | (k, v) :: es =>
    let p := read memory k
    let q := read p.2 v
    let r := readEntries q.2 es
    ((p.1, q.1) :: r.1, r.2)

end

end Form

/-! ### What writing keeps -/

namespace Graph

open Form

theorem number?_inj {anchored : List Addr} {a b : Addr} {n : Nat}
    (ha : number? anchored a = some n) (hb : number? anchored b = some n) : a = b := by
  have place {a : Addr} (h : number? anchored a = some n) :
      ∃ i, n = i + 1 ∧ anchored[i]? = some a := by
    obtain ⟨i, hi, rfl⟩ := Option.map_eq_some_iff.mp h
    obtain ⟨hlt, heq, -⟩ := List.findIdx?_eq_some_iff_getElem.mp hi
    refine ⟨i, rfl, ?_⟩
    rw [List.getElem?_eq_getElem hlt]
    exact congrArg some (eq_of_beq heq)
  obtain ⟨i, hi, ha⟩ := place ha
  obtain ⟨j, hj, hb⟩ := place hb
  obtain rfl : i = j := by omega
  exact Option.some.inj (ha.symm.trans hb)

variable {w : World} {anchored : List Addr}

/-- The object has an anchor, and its tree is remembered. -/
def Remembered (w : World) (anchored : List Addr) (memory : Memory) (b : Addr) : Prop :=
  ∃ n, number? anchored b = some n ∧ memory n = w.tree (.obj b)

/-- What was written and can be reached is remembered. -/
def Covers (w : World) (anchored : List Addr) (reached : Addr → Prop) (written : List Addr)
    (memory : Memory) : Prop :=
  ∀ b ∈ written, reached b → Remembered w anchored memory b

/-- Nothing is forgotten, and what is newly written is remembered. -/
structure Recalled (w : World) (anchored written written' : List Addr) (memory memory' : Memory) :
    Prop where
  keeps : ∀ b, Remembered w anchored memory b → Remembered w anchored memory' b
  adds : ∀ b ∈ written', b ∈ written ∨ Remembered w anchored memory' b

theorem Recalled.refl (written : List Addr) (memory : Memory) :
    Recalled w anchored written written memory memory :=
  ⟨fun _ h => h, fun _ h => .inl h⟩

theorem Recalled.trans {s₁ s₂ s₃ : List Addr} {m₁ m₂ m₃ : Memory}
    (h : Recalled w anchored s₁ s₂ m₁ m₂) (k : Recalled w anchored s₂ s₃ m₂ m₃) :
    Recalled w anchored s₁ s₃ m₁ m₃ where
  keeps b hb := k.keeps b (h.keeps b hb)
  adds b hb := by
    rcases k.adds b hb with hb | hb
    · rcases h.adds b hb with hb | hb
      · exact .inl hb
      · exact .inr (k.keeps b hb)
    · exact .inr hb

theorem Covers.recalled {reached : Addr → Prop} {s s' : List Addr} {m m' : Memory}
    (h : Covers w anchored reached s m) (k : Recalled w anchored s s' m m') :
    Covers w anchored reached s' m' := by
  intro b hb hr
  rcases k.adds b hb with hb | hb
  · exact k.keeps b (h b hb hr)
  · exact hb

/-- A step that writes something whose objects are `reached`: what it writes is basic and is read
back as `t`. -/
def Recalls {α τ : Type} (w : World) (anchored : List Addr) (reached : Addr → Prop)
    (basic : α → Prop) (read : Memory → α → τ × Memory) (act : Writing α) (t : τ) : Prop :=
  ∀ written memory, Covers w anchored reached written memory →
    basic (act.run written).1 ∧ (read memory (act.run written).1).1 = t ∧
      Recalled w anchored written (act.run written).2 memory (read memory (act.run written).1).2

/-- The form of a value is read back as its tree. -/
abbrev RecallsForm (w : World) (anchored : List Addr) (v : Value) (act : Writing Form) : Prop :=
  Recalls w anchored (w.Reaches v) Basic Form.read act (w.tree v)

theorem recalls_items {n : Nat} {xs : List Value}
    (each : ∀ x ∈ xs, RecallsForm w anchored x (form w anchored n x)) :
    Recalls w anchored (fun b => ∃ x ∈ xs, w.Reaches x b) (fun fs => ∀ f ∈ fs, f.Basic) readItems
      (xs.mapM (form w anchored n)) (xs.map w.tree) := by
  induction xs with
  | nil => exact fun written memory _ => ⟨fun _ hf => absurd hf List.not_mem_nil, rfl, .refl written memory⟩
  | cons x xs ih =>
      intro written memory cover
      obtain ⟨basic, tree, recalled⟩ := each x (by simp) written memory
        fun b hb hr => cover b hb ⟨x, by simp, hr⟩
      have further : Covers w anchored (fun b => ∃ x ∈ xs, w.Reaches x b) _ _ :=
        Covers.recalled (fun b hb ⟨y, hy, hr⟩ => cover b hb ⟨y, by simp [hy], hr⟩) recalled
      obtain ⟨basic', tree', recalled'⟩ := ih (fun x hx => each x (by simp [hx])) _ _ further
      rw [List.mapM_cons]
      refine ⟨?_, ?_, recalled.trans recalled'⟩
      · intro f hf
        rcases List.mem_cons.mp hf with rfl | hf
        · exact basic
        · exact basic' f hf
      · rw [List.map_cons, ← tree, ← tree']
        rfl

/-- The form of an entry. -/
def formEntry (w : World) (anchored : List Addr) (n : Nat) (e : Value × Value) :
    Writing (Form × Form) := do
  let k ← form w anchored n e.1
  let v ← form w anchored n e.2
  return (k, v)

theorem recalls_entries {n : Nat} {es : Entries}
    (keys : ∀ e ∈ es, ∃ s, e.1 = .str s)
    (each : ∀ e ∈ es, RecallsForm w anchored e.2 (form w anchored n e.2)) :
    Recalls w anchored (fun b => ∃ e ∈ es, w.Reaches e.2 b)
      (fun fs => (∀ f ∈ fs, ∃ u, f.1 = .scalar none (.text u)) ∧ ∀ f ∈ fs, f.2.Basic) readEntries
      (es.mapM (formEntry w anchored n)) (es.map fun e => (w.tree e.1, w.tree e.2)) := by
  induction es with
  | nil =>
      intro written memory _
      exact ⟨⟨fun _ hf => absurd hf List.not_mem_nil, fun _ hf => absurd hf List.not_mem_nil⟩, rfl,
        .refl written memory⟩
  | cons e es ih =>
      intro written memory cover
      obtain ⟨k, v⟩ := e
      obtain ⟨s, rfl⟩ := keys (k, v) (by simp)
      have key : (form w anchored n (.str s)) = pure (.scalar none (.text s)) := by
        cases n <;> rfl
      obtain ⟨basic, tree, recalled⟩ := each (.str s, v) (by simp) written memory
        fun b hb hr => cover b hb ⟨(.str s, v), by simp, hr⟩
      have further : Covers w anchored (fun b => ∃ e ∈ es, w.Reaches e.2 b) _ _ :=
        Covers.recalled (fun b hb ⟨y, hy, hr⟩ => cover b hb ⟨y, by simp [hy], hr⟩) recalled
      obtain ⟨⟨texts, basic'⟩, tree', recalled'⟩ := ih (fun e he => keys e (by simp [he]))
        (fun e he => each e (by simp [he])) _ _ further
      rw [List.mapM_cons, formEntry, key]
      refine ⟨⟨?_, ?_⟩, ?_, recalled.trans recalled'⟩
      · intro f hf
        rcases List.mem_cons.mp hf with rfl | hf
        · exact ⟨s, rfl⟩
        · exact texts f hf
      · intro f hf
        rcases List.mem_cons.mp hf with rfl | hf
        · exact basic
        · exact basic' f hf
      · rw [List.map_cons, ← tree, ← tree', w.tree_atom]
        rfl

/-- What is written for an object behind its anchor. -/
def formBody (w : World) (anchored : List Addr) (n : Nat) (a : Addr) (anchor : Option Nat) :
    Writing Form :=
  match w.get a with
  | .mapping es => .mapping anchor <$> es.mapM (formEntry w anchored n)
  | .list xs => .sequence anchor <$> xs.mapM (form w anchored n)
  | .tuple xs => .sequence anchor <$> xs.mapM (form w anchored n)
  | .moment m => return .scalar anchor (.moment m)
  | _ => return .scalar anchor .null

/-- An object is written behind its anchor, if it has one; an anchored object that was written before
is referred to. -/
theorem form_obj_run (n : Nat) (a : Addr) (written : List Addr) :
    (form w anchored (n + 1) (.obj a)).run written =
      match number? anchored a with
      | none => (formBody w anchored n a none).run written
      | some k => if written.contains a then (.alias k, written)
        else (formBody w anchored n a (some k)).run (a :: written) := by
  rw [form]
  cases hn : number? anchored a with
  | none => rfl
  | some k =>
      change (if written.contains a then (return .alias k : Writing Form)
        else do modify (a :: ·); formBody w anchored n a (some k)).run written = if _ then _ else _
      by_cases hc : written.contains a
      · rw [if_pos hc, if_pos hc]
        rfl
      · rw [if_neg hc, if_neg hc]
        rfl

theorem eq_atom_of_tree {v : Value} {x : Atom} (h : w.IsData v) (ht : w.tree v = .atom x) :
    v = .atom x := by
  cases v with
  | atom y =>
      rw [w.tree_atom] at ht
      rw [Tree.atom.inj ht]
  | obj a =>
      have shown := h.view_tree
      rw [ht] at shown
      cases hg : w.get a <;> simp [hg, Object.view] at shown

/-- Basic data is a list or a mapping of basic data, the keys of which are texts. -/
theorem basic_object {a : Addr} (h : w.IsData (.obj a)) (hb : (w.tree (.obj a)).IsBasic) :
    (∃ xs, w.get a = .list xs ∧ ∀ x ∈ xs, (w.tree x).IsBasic) ∨
      ∃ es, w.get a = .mapping es ∧ (∀ e ∈ es, ∃ s, e.1 = .str s) ∧
        ∀ e ∈ es, (w.tree e.2).IsBasic := by
  have shown := h.view_tree
  cases hg : w.get a with
  | list xs =>
      rw [h.tree_list hg] at hb
      cases hb with
      | list each => exact .inl ⟨xs, rfl, fun x hx => each _ (List.mem_map_of_mem hx)⟩
  | mapping es =>
      rw [h.tree_mapping hg] at hb
      cases hb with
      | mapping keys each =>
          refine .inr ⟨es, rfl, fun e he => ?_, fun e he => each _ (List.mem_map_of_mem he)⟩
          obtain ⟨s, hs⟩ := keys _ (List.mem_map_of_mem he)
          exact ⟨s, eq_atom_of_tree (h.part (hg ▸ Object.mem_parts_key he)) hs⟩
  | tuple xs =>
      rw [h.tree_tuple hg] at hb
      cases hb
  | moment m =>
      rw [h.tree_moment hg] at hb
      cases hb
  | _ =>
      simp only [hg, Object.view, reduceCtorEq, Option.some.injEq] at shown
      all_goals (rw [← shown] at hb; cases hb)

theorem recalls_body {n : Nat} {a : Addr} (hd : w.IsData (.obj a))
    (hb : (w.tree (.obj a)).IsBasic)
    (each : ∀ v ∈ (w.get a).parts, (w.tree v).IsBasic → RecallsForm w anchored v (form w anchored n v))
    (anchor : Option Nat) {written : List Addr} {memory : Memory}
    (cover : Covers w anchored (Relation.TransGen w.Holds a) written memory) :
    let p := (formBody w anchored n a anchor).run written
    p.1.Basic ∧ (p.1.read memory).1 = w.tree (.obj a) ∧
      ∃ memory', (p.1.read memory).2 = remember anchor (w.tree (.obj a)) memory' ∧
        Recalled w anchored written p.2 memory memory' := by
  have way {v : Value} (hv : v ∈ (w.get a).parts) {b : Addr} (hr : w.Reaches v b) :
      Relation.TransGen w.Holds a b := by
    obtain ⟨c, rfl, hcb⟩ := hr
    exact .head' hv hcb
  rcases basic_object hd hb with ⟨xs, hg, basic⟩ | ⟨es, hg, keys, basic⟩
  · have part {x : Value} (hx : x ∈ xs) : x ∈ (w.get a).parts := by simpa [hg, Object.parts] using hx
    obtain ⟨items, tree, recalled⟩ := recalls_items (fun x hx => each x (part hx) (basic x hx))
      written memory fun b hb ⟨x, hx, hr⟩ => cover b hb (way (part hx) hr)
    rw [formBody, hg, hd.tree_list hg, ← tree]
    exact ⟨.sequence anchor items, rfl, _, rfl, recalled⟩
  · have part {e : Value × Value} (he : e ∈ es) : e.2 ∈ (w.get a).parts :=
      hg ▸ Object.mem_parts_value he
    obtain ⟨⟨texts, values⟩, tree, recalled⟩ := recalls_entries keys
      (fun e he => each e.2 (part he) (basic e he)) written memory
      fun b hb ⟨e, he, hr⟩ => cover b hb (way (part he) hr)
    rw [formBody, hg, hd.tree_mapping hg, ← tree]
    exact ⟨.mapping anchor texts values, rfl, _, rfl, recalled⟩

/-- The form of data is read back as its tree. -/
theorem recalls_form {v : Value} (h : w.IsData v) (hb : (w.tree v).IsBasic) {n : Nat}
    (hn : w.size ≤ n) : RecallsForm w anchored v (form w anchored n v) := by
  refine h.deep (motive := fun n v => (w.tree v).IsBasic →
    RecallsForm w anchored v (form w anchored n v)) ?_ ?_ hn hb
  · intro n a hb written memory _
    have written' : form w anchored n (.atom a) = pure (.scalar none (scalarOf a)) := by
      cases n <;> rfl
    rw [written']
    rw [w.tree_atom] at hb ⊢
    refine ⟨?_, ?_, .refl _ _⟩
    · cases hb <;> exact .scalar (by constructor)
    · cases hb <;> rfl
  · intro n a hd ih hb written memory cover
    have below : Covers w anchored (Relation.TransGen w.Holds a) written memory :=
      fun b hb hr => cover b hb ⟨a, rfl, hr.to_reflTransGen⟩
    rw [form_obj_run]
    cases hk : number? anchored a with
    | none =>
        obtain ⟨basic, tree, memory', hm, recalled⟩ := recalls_body hd hb ih none below
        exact ⟨basic, tree, hm ▸ recalled⟩
    | some k =>
        by_cases hc : written.contains a
        · simp only [hc, if_true]
          obtain ⟨k', hk', remembered⟩ := cover a (by simpa using hc) ⟨a, rfl, .refl⟩
          obtain rfl := Option.some.inj (hk'.symm.trans hk)
          exact ⟨.alias _, remembered, .refl _ _⟩
        · simp only [if_neg hc]
          have inside : Covers w anchored (Relation.TransGen w.Holds a) (a :: written) memory := by
            intro b hb hr
            rcases List.mem_cons.mp hb with rfl | hb
            · exact absurd hr (hd.acyclic b rfl)
            · exact below b hb hr
          obtain ⟨basic, tree, memory', hm, recalled⟩ := recalls_body hd hb ih (some k) inside
          refine ⟨basic, tree, ?_⟩
          rw [hm]
          have self : Remembered w anchored (remember (some k) (w.tree (.obj a)) memory') a :=
            ⟨k, hk, Function.update_self _ _ _⟩
          have others {b : Addr} (hb : Remembered w anchored memory' b) :
              Remembered w anchored (remember (some k) (w.tree (.obj a)) memory') b := by
            obtain ⟨m, hn, ht⟩ := hb
            by_cases h : m = k
            · subst h
              rwa [number?_inj hn hk]
            · exact ⟨m, hn, by rw [remember, Function.update_of_ne h, ht]⟩
          refine ⟨fun b hb => others (recalled.keeps b hb), fun b hb => ?_⟩
          rcases recalled.adds b hb with hb | hb
          · rcases List.mem_cons.mp hb with rfl | hb
            · exact .inr self
            · exact .inl hb
          · exact .inr (others hb)

/-- A mapping is rendered as the form that is written for it. -/
theorem render_mapping {a : Addr} {anchored written : List Addr} {anchor : Option Nat}
    {fs : List (Form × Form)} (hr : repeats w (.obj a) = .ok anchored)
    (hf : (form w anchored (w.size + 1) (.obj a)).run [] = (.mapping anchor fs, written)) :
    render w a = .ok (document fs) := by
  have hf : (form w anchored (w.objects.size + 1) (.obj a)).run [] =
      (.mapping anchor fs, written) := hf
  simp only [render, hr, bind, Except.bind, hf]
  rfl

/-- The text of a mapping of basic data is that of a basic form, which is read back as its tree. -/
theorem render_reads {a : Addr} {es : Entries} {text : String} (hg : w.get a = .mapping es)
    (data : ∀ e ∈ es, w.IsData e.2) (keys : ∀ e ∈ es, ∃ s, e.1 = .str s)
    (basic : ∀ e ∈ es, (w.tree e.2).IsBasic) (fresh : ∀ e ∈ es, ¬ w.Reaches e.2 a)
    (h : Graph.render w a = .ok text) :
    ∃ anchor fs, (mapping anchor fs).Basic ∧ text = document fs ∧
      (readEntries blank fs).1 = es.map fun e => (w.tree e.1, w.tree e.2) := by
  cases hr : repeats w (.obj a) with
  | error f => simp [Graph.render, hr, bind, Except.bind] at h
  | ok anchored =>
      have body (anchor : Option Nat) {written : List Addr} (only : ∀ b ∈ written, b = a) :
          ∃ fs s, (formBody w anchored w.size a anchor).run written = (.mapping anchor fs, s) ∧
            (mapping anchor fs).Basic ∧
            (readEntries blank fs).1 = es.map fun e => (w.tree e.1, w.tree e.2) := by
        have each (e : Value × Value) (he : e ∈ es) :
            RecallsForm w anchored e.2 (form w anchored w.size e.2) :=
          recalls_form (data e he) (basic e he) (Nat.le_refl _)
        obtain ⟨⟨texts, values⟩, tree, -⟩ := recalls_entries keys each written blank
          fun b hb ⟨e, he, hr⟩ => absurd (only b hb ▸ hr) (fresh e he)
        rw [formBody, hg]
        exact ⟨_, _, rfl, .mapping anchor texts values, tree⟩
      obtain ⟨anchor, fs, s, hf, hb, hm⟩ : ∃ anchor fs s,
          (form w anchored (w.size + 1) (.obj a)).run [] = (.mapping anchor fs, s) ∧
            (mapping anchor fs).Basic ∧
            (readEntries blank fs).1 = es.map fun e => (w.tree e.1, w.tree e.2) := by
        rw [form_obj_run]
        cases number? anchored a with
        | none => exact ⟨none, body none (by simp)⟩
        | some k => exact ⟨some k, body (some k) (by simp)⟩
      exact ⟨anchor, fs, hb, Except.ok.inj (h.symm.trans (render_mapping hr hf)), hm⟩

end Graph
end Yaml

namespace Document

open Yaml

/-- A mapping of basic data. Its parts may be shared; it does not hold itself. -/
structure IsBasic (w : World) (d : Value) : Prop where
  data : w.IsData d
  basic : (w.tree d).IsBasic
  mapping : ∃ es, d.mapping? w = some es

/-- The world with a line in the log about what is rendered. -/
def logged (w : World) (format : Value) : World :=
  { w with log := w.log ++ ["DEBUG openapi_dsl.documents: " ++
    ("Rendering document as " ++ w.text format)] }

/-- The world in which a mapping is written as YAML: the mapping is copied. -/
def yamlWorld (w : World) (es : Entries) : World := ((logged w (.str "yaml")).alloc (.mapping es)).2

theorem extends_yamlWorld (w : World) (es : Entries) : w.Extends (yamlWorld w es) := by
  have noted : w.Extends (logged w (.str "yaml")) := ⟨Nat.le_refl _, fun _ _ => rfl, rfl⟩
  exact noted.trans (World.extends_alloc _ _)

theorem get_yamlWorld (w : World) (es : Entries) : (yamlWorld w es).get w.size = .mapping es :=
  World.get_alloc_same _ _

theorem render_yaml_run {w : World} {d : Value} {es : Entries} (h : d.mapping? w = some es) :
    (render d (.str "yaml")).run w =
      match Graph.render (yamlWorld w es) w.size with
      | .ok text => .ok text (yamlWorld w es)
      | .error f => .error f (yamlWorld w es) := by
  have entries : d.entries.run (logged w (.str "yaml")) = .ok es (logged w (.str "yaml")) :=
    Value.entries_reads h
  change (yaml d).run (logged w (.str "yaml")) = _
  rw [yaml, EStateM.run_bind, entries]
  change (orFail (Graph.render (yamlWorld w es) w.size)).run (yamlWorld w es) = _
  cases Graph.render (yamlWorld w es) w.size <;> rfl

/-- The text of a document is that of a form, which is read back as the document. -/
theorem render_yaml_reads {w u : World} {d : Value} {text : String} (h : IsBasic w d)
    (run : (render d (.str "yaml")).run w = .ok text u) :
    ∃ anchor fs, (Form.mapping anchor fs).Basic ∧ text = Form.document fs ∧
      w.tree d = .mapping (Form.readEntries Form.blank fs).1 := by
  obtain ⟨es, hes⟩ := h.mapping
  obtain ⟨b, rfl, hg⟩ := Value.eq_obj_of_mapping? hes
  have grown := extends_yamlWorld w es
  have written : Graph.render (yamlWorld w es) w.size = .ok text := by
    rw [render_yaml_run hes] at run
    cases hr : Graph.render (yamlWorld w es) w.size with
    | ok t =>
        rw [hr] at run
        cases run
        rfl
    | error f =>
        rw [hr] at run
        cases run
  obtain ⟨keys, basic⟩ : (∀ e ∈ es, ∃ s, e.1 = .str s) ∧ ∀ e ∈ es, (w.tree e.2).IsBasic := by
    rcases Graph.basic_object h.data h.basic with ⟨xs, hx, -⟩ | ⟨es', hx, h₁, h₂⟩
    · simp [hg] at hx
    · obtain rfl := Object.mapping.inj (hg.symm.trans hx)
      exact ⟨h₁, h₂⟩
  have data (e : Value × Value) (he : e ∈ es) : w.IsData e.2 :=
    h.data.part (hg ▸ Object.mem_parts_value he)
  have seen (e : Value × Value) (he : e ∈ es) := (data e he).extends grown
  have fresh (e : Value × Value) (he : e ∈ es) : ¬ (yamlWorld w es).Reaches e.2 w.size := by
    intro hr
    refine ((seen e he).1.reached hr).acyclic _ rfl ?_
    obtain ⟨c, hc, hcb⟩ := hr
    refine .head' ?_ hcb
    rw [World.Holds, get_yamlWorld, ← hc]
    exact Object.mem_parts_value he
  obtain ⟨anchor, fs, hb, ht, hr⟩ := Graph.render_reads (get_yamlWorld w es)
    (fun e he => (seen e he).1) keys (fun e he => (seen e he).2 ▸ basic e he) fresh written
  refine ⟨anchor, fs, hb, ht, ?_⟩
  rw [hr, h.data.tree_mapping hg]
  congr 1
  refine List.map_congr_left fun e he => ?_
  obtain ⟨s, hs⟩ := keys e he
  rw [(seen e he).2, hs, World.tree_atom, World.tree_atom]

/-- Two documents of basic data with the same YAML text are the same tree. -/
theorem yaml_determines {w w' u u' : World} {d d' : Value} {text : String} (h : IsBasic w d)
    (h' : IsBasic w' d') (run : (render d (.str "yaml")).run w = .ok text u)
    (run' : (render d' (.str "yaml")).run w' = .ok text u') : w.tree d = w'.tree d' := by
  obtain ⟨anchor, fs, basic, rfl, tree⟩ := render_yaml_reads h run
  obtain ⟨anchor', fs', basic', texts, tree'⟩ := render_yaml_reads h' run'
  obtain rfl := Form.document_inj basic basic' texts
  rw [tree, tree']

/-- A mapping that is held twice by another one, behind some other objects. -/
def twice (before : List Object) : World :=
  let part : Object := .mapping [(.str "k", .int 12), (.str "", .none)]
  let whole : Object := .mapping [(.str "no", .obj before.length), (.str "#", .obj before.length),
    (.str "long", .str "1:30")]
  { World.initial with objects := (before ++ [part, whole]).toArray }

theorem isBasic_twice (before : List Object) : IsBasic (twice before) (.obj (before.length + 1)) := by
  have inner : (twice before).get before.length = .mapping [(.str "k", .int 12), (.str "", .none)] := by
    simp [twice, World.get]
  have outer : (twice before).get (before.length + 1) = .mapping [(.str "no", .obj before.length),
      (.str "#", .obj before.length), (.str "long", .str "1:30")] := by
    simp [twice, World.get]
  have size : (twice before).size = before.length + 2 := by simp [twice, World.size]
  have part : (twice before).IsData (.obj before.length) := by
    refine .obj (by simp [size]) rfl (by rw [inner]; rfl) (by simp [inner]) ?_
    simp [inner, Object.parts, World.IsData.atom]
  have data : (twice before).IsData (.obj (before.length + 1)) := by
    refine .obj (by simp [size]) rfl (by rw [outer]; rfl) (by simp [outer]) ?_
    simp [outer, Object.parts, World.IsData.atom, part]
  have basic : ((twice before).tree (.obj before.length)).IsBasic := by
    rw [part.tree_mapping inner]
    refine .mapping (by simp) ?_
    simp [Tree.IsBasic.int, Tree.IsBasic.none]
  refine ⟨data, ?_, _, by rw [Value.mapping?, outer]⟩
  rw [data.tree_mapping outer]
  refine .mapping (by simp) ?_
  simp [basic, Tree.IsBasic.str]

/-- The same document at different places of two stores. -/
theorem yaml_determines_twice :
    let text := "'no': &id001\n  k: 12\n  ? ''\n  : null\n'#': *id001\nlong: '1:30'\n"
    (∃ u, (render (.obj 1) (.str "yaml")).run (twice []) = .ok text u) ∧
      (∃ u, (render (.obj 2) (.str "yaml")).run (twice [.tuple []]) = .ok text u) ∧
      (twice []).tree (.obj 1) = (twice [.tuple []]).tree (.obj 2) := by
  have run : ∃ u, (render (.obj 1) (.str "yaml")).run (twice []) = .ok _ u := ⟨_, rfl⟩
  have run' : ∃ u, (render (.obj 2) (.str "yaml")).run (twice [.tuple []]) = .ok _ u := ⟨_, rfl⟩
  obtain ⟨u, run⟩ := run
  obtain ⟨u', run'⟩ := run'
  exact ⟨⟨u, run⟩, ⟨u', run'⟩,
    yaml_determines (isBasic_twice []) (isBasic_twice [.tuple []]) run run'⟩

end Document
end OpenApiDoc
