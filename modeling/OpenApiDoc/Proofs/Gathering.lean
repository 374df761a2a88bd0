import OpenApiDoc.Builder.Call
import OpenApiDoc.Proofs.Frames
import OpenApiDoc.Proofs.Operations
import OpenApiDoc.Proofs.Outcomes

/-! # The paths map gathers every operation once

* `Paths.Added` is an operation that was added, with its name and the object it was written as.
  `Paths.grouped` is the map that a list of them makes.
* `Paths.Walked` is the invariant of the walk through the bindings: what has been gathered is in step
  with the bindings that were passed. `Paths.step_walked` is one step of it, `Paths.walk` the whole.
* `Paths.build_gathers`: the first binding that cannot be added decides the error; without one,
  every binding has its place in the map, and nothing else has. -/

namespace OpenApiDoc.Paths

/-! ### Grouping -/

theorem nodup_eraseDups (xs : List String) : xs.eraseDups.Nodup := by
  induction h : xs.length using Nat.strong_induction_on generalizing xs with
  | _ n ih =>
      cases xs with
      | nil => simp
      | cons x xs =>
          rw [List.eraseDups_cons, List.nodup_cons, List.mem_eraseDups]
          refine ⟨by simp, ih _ ?_ _ rfl⟩
          have := List.length_filter_le (fun y => !y == x) xs
          simp only [List.length_cons] at h
          omega

theorem eraseDups_snoc (xs : List String) (x : String) :
    (xs ++ [x]).eraseDups = if x ∈ xs then xs.eraseDups else xs.eraseDups ++ [x] := by
  rw [List.eraseDups_append]
  by_cases h : x ∈ xs
  · simp [List.removeAll, h]
  · simp [List.removeAll, h, List.eraseDups_cons]

/-- Entries whose values are a function of their keys. -/
theorem lookup_map_self {α : Type} (f : String → α) (ks : List String) (k : String) :
    (ks.map fun l => (l, f l)).lookup k = if k ∈ ks then some (f k) else none := by
  induction ks with
  | nil => simp
  | cons l ks ih =>
      by_cases h : k = l
      · simp [h]
      · have h' : (k == l) = false := beq_eq_false_iff_ne.mpr h
        simp only [List.map_cons, List.lookup_cons, h', ih, List.mem_cons, h, false_or]

theorem insert_map_self {α : Type} (f : String → α) {ks : List String} (hn : ks.Nodup)
    (k : String) (v : α) : Entries.insert (· == ·) (ks.map fun l => (l, f l)) k v =
      (if k ∈ ks then ks else ks ++ [k]).map fun l => (l, if l = k then v else f l) := by
  induction ks with
  | nil => simp [Entries.insert]
  | cons l ks ih =>
      obtain ⟨hl, hn⟩ := List.nodup_cons.mp hn
      by_cases h : l = k
      · subst h
        have rest : ks.map (fun m => (m, if m = l then v else f m)) = ks.map fun m => (m, f m) := by
          refine List.map_congr_left fun m hm => ?_
          have : m ≠ l := by
            rintro rfl
            exact hl hm
          simp [this]
        simp [Entries.insert, rest]
      · have h' : ¬ k = l := fun hk => h hk.symm
        simp only [List.map_cons, Entries.insert, beq_iff_eq, h, if_false, ih hn, List.mem_cons, h',
          false_or]
        by_cases hm : k ∈ ks <;> simp [hm, h]

/-- An operation that was added: the name it is bound to and the object it was written as. -/
structure Added where
  name : Value
  op : Operation
  object : Value

namespace Added

def path (a : Added) : String := a.op.path

def method (a : Added) : String := Text.lower a.op.method

/-- The place of the operation in the map. -/
def key (a : Added) : String × String := (a.path, a.method)

end Added

/-- The entries of one path, in the order in which they were added. -/
def methods (as : List Added) (path : String) : List (String × Value) :=
  (as.filter fun a => a.path = path).map fun a => (a.method, a.object)

/-- The map of what was added, paths and methods in the order of their first occurrence. -/
def grouped (as : List Added) : List (String × List (String × Value)) :=
  (as.map Added.path).eraseDups.map fun p => (p, methods as p)

/-- What has been gathered when these operations were added. -/
def gathered (as : List Added) : Gathered where
  paths := grouped as
  owners := as.map fun a => (a.key, a.name)

theorem methods_snoc (as : List Added) (a : Added) (path : String) :
    methods (as ++ [a]) path =
      if a.path = path then methods as path ++ [(a.method, a.object)] else methods as path := by
  by_cases h : a.path = path <;> simp [methods, List.filter_append, h]

theorem mem_methods {as : List Added} {path method : String} :
    method ∈ (methods as path).map (·.1) ↔ (path, method) ∈ as.map Added.key := by
  simp only [methods, List.map_map, List.mem_map, List.mem_filter, decide_eq_true_eq,
    Function.comp, Added.key, Prod.mk.injEq]
  constructor
  · rintro ⟨a, ⟨ha, hp⟩, hm⟩
    exact ⟨a, ha, hp, hm⟩
  · rintro ⟨a, ha, hp, hm⟩
    exact ⟨a, ⟨ha, hp⟩, hm⟩

theorem lookup_grouped (as : List Added) (path : String) :
    ((grouped as).lookup path).getD [] = methods as path := by
  rw [grouped, lookup_map_self]
  by_cases h : path ∈ (as.map Added.path).eraseDups
  · simp [h]
  · have none : as.filter (fun a => a.path = path) = [] := by
      rw [List.filter_eq_nil_iff]
      intro a ha hp
      rw [List.mem_eraseDups] at h
      exact h (List.mem_map.mpr ⟨a, ha, by simpa using hp⟩)
    simp [h, methods, none]

/-- The gathered operations with one more whose place is free. -/
theorem gathered_snoc {as : List Added} {a : Added} (h : a.key ∉ as.map Added.key) :
    (gathered as).add a.path a.method a.name a.object = gathered (as ++ [a]) := by
  have free : a.method ∉ (methods as a.path).map (·.1) := fun hm => h (mem_methods.mp hm)
  have paths : Entries.insert (· == ·) (grouped as) a.path
      (methods as a.path ++ [(a.method, a.object)]) = grouped (as ++ [a]) := by
    rw [grouped, insert_map_self _ (nodup_eraseDups _), grouped, List.map_append, List.map_singleton,
      eraseDups_snoc]
    simp only [List.mem_eraseDups]
    refine List.map_congr_left fun p _ => ?_
    rw [methods_snoc]
    by_cases hp : p = a.path
    · simp [hp]
    · simp [hp, Ne.symm hp]
  have owners : (gathered as).owners ++ [(a.key, a.name)] = (gathered (as ++ [a])).owners := by
    simp [gathered]
  simp only [Gathered.add, gathered] at owners ⊢
  rw [lookup_grouped, Entries.insert_fresh free, paths, ← owners]
  rfl

theorem lookup_owners_none {as : List Added} {key : String × String} :
    (gathered as).owners.lookup key = none ↔ key ∉ as.map Added.key := by
  rw [List.lookup_eq_none_iff]
  constructor
  · rintro h hm
    obtain ⟨a, ha, rfl⟩ := List.mem_map.mp hm
    simpa using h (a.key, a.name) (List.mem_map.mpr ⟨a, ha, rfl⟩)
  · rintro h e he
    obtain ⟨a, ha, rfl⟩ := List.mem_map.mp he
    have : key ≠ a.key := by
      rintro rfl
      exact h (List.mem_map.mpr ⟨a, ha, rfl⟩)
    simpa using this

theorem lookup_owners_some {as : List Added} {key : String × String} {first : Value}
    (h : (gathered as).owners.lookup key = some first) : ∃ a ∈ as, a.key = key ∧ a.name = first := by
  simp only [gathered] at h
  induction as with
  | nil => simp at h
  | cons a as ih =>
      by_cases hk : key = a.key
      · exact ⟨a, by simp, hk.symm, by simpa [hk] using h⟩
      · have hk' : (key == a.key) = false := beq_eq_false_iff_ne.mpr hk
        simp only [List.map_cons, List.lookup_cons, hk'] at h
        obtain ⟨b, hb, same⟩ := ih h
        exact ⟨b, List.mem_cons_of_mem a hb, same⟩

/-! ### The walk -/

/-- The object is what the operation was written as at some time between two worlds, and it has been
left as it was since. -/
def Added.Made (a : Added) (base w : World) : Prop :=
  ∃ w₁ w₂, base.Grows w₁ ∧ (a.op.emit a.name).run w₁ = .ok a.object w₂ ∧ w₂.Grows w

/-- What was added is in step with the bindings that were passed. -/
structure Walked (base : World) (passed : Entries) (as : List Added) (w : World) : Prop where
  grows : base.Grows w
  entries : List.Forall₂ (fun e a => a.name = e.1 ∧ Operation.of? base e.2 = some a.op) passed as
  distinct : (as.map Added.key).Nodup
  made : ∀ a ∈ as, a.Made base w

/-- The fault is an error of the library of this kind, with these details. -/
def Told (w : World) (f : Fault) (kind : String) (details : List (String × Tree)) : Prop :=
  ∃ d : DocumentError, f = .document d ∧ d.kind = kind ∧ d.details w = .record details

/-- Why a binding cannot be added after those that were: it is no operation, its place is taken, or
the operation, which is not one of plain data, cannot be written. -/
inductive Stops (base : World) (as : List Added) (e : Value × Value) (f : Fault) (w' : World) : Prop
  | foreign (h : Operation.of? base e.2 = none)
      (told : Told w' f "SchemaTypeError" [("binding", w'.tree e.1)])
  | taken {op : Operation} {a : Added} (h : Operation.of? base e.2 = some op) (ha : a ∈ as)
      (same : a.key = (op.path, Text.lower op.method))
      (told : Told w' f "DuplicateOperationError" [("path", .str op.path),
        ("method", .str (Text.lower op.method)),
        ("bindings", .list [w'.tree a.name, w'.tree e.1])])
  | unwritten {op : Operation} {w : World} (h : Operation.of? base e.2 = some op)
      (free : (op.path, Text.lower op.method) ∉ as.map Added.key) (grows : base.Grows w)
      (run : (op.emit e.1).run w = .error f w')
      (wild : ¬ (base.Owned ∧ base.IsOperation e.2 op ∧ base.IsData e.1))

/-- An object that was there is the operation that it was. -/
theorem of?_grows {base w : World} (h : base.Grows w) {v : Value}
    (hv : ∀ a, v = .obj a → a < base.size) : Operation.of? w v = Operation.of? base v := by
  cases v with
  | atom a => rfl
  | obj a => simp [Operation.of?, h.get a (hv a rfl)]

theorem Added.Made.grows {a : Added} {base w w' : World} (h : a.Made base w) (k : w.Grows w') :
    a.Made base w' := by
  obtain ⟨w₁, w₂, h₁, run, h₂⟩ := h
  exact ⟨w₁, w₂, h₁, run, h₂.trans k⟩

/-- One step of the walk. -/
theorem step_walked {base w : World} {passed : Entries} {as : List Added}
    (h : Walked base passed as w) {e : Value × Value} (he : ∀ a, e.2 = .obj a → a < base.size) :
    (∃ f w', (step (gathered as) e).run w = .error f w' ∧ Stops base as e f w') ∨
    ∃ a w', (step (gathered as) e).run w = .ok (gathered (as ++ [a])) w' ∧
      Walked base (passed ++ [e]) (as ++ [a]) w' := by
  obtain ⟨name, value⟩ := e
  have same : Operation.of? w value = Operation.of? base value := of?_grows h.grows he
  cases ho : Operation.of? base value with
  | none =>
      refine .inl ⟨_, w, ?_, .foreign ho ⟨.notAnOperation name value, rfl, rfl, rfl⟩⟩
      simp only [step, EStateM.run_bind, EStateM.run_get, same, ho]
      rfl
  | some op =>
      cases hl : (gathered as).owners.lookup (op.path, Text.lower op.method) with
      | some first =>
          obtain ⟨a, ha, hk, rfl⟩ := lookup_owners_some hl
          refine .inl ⟨_, w, ?_, .taken ho ha hk ⟨.duplicateOperation (.str op.path)
            (.str (Text.lower op.method)) a.name name, rfl, rfl, ?_⟩⟩
          rotate_left
          · simp only [DocumentError.details, World.tree_atom]
            rfl
          simp only [step, EStateM.run_bind, EStateM.run_get, same, ho, hl]
          rfl
      | none =>
          have free := lookup_owners_none.mp hl
          cases run : (op.emit name).run w with
          | error f w' =>
              refine .inl ⟨f, w', ?_, .unwritten ho free h.grows run ?_⟩
              rotate_left
              · rintro ⟨owned, hv, hd⟩
                obtain ⟨u, w₁, run', -⟩ := Operation.emit_gives (h.grows.owned owned)
                  (hv.grows h.grows) (hd.grows h.grows).1
                simpa using run.symm.trans run'
              simp only [step, EStateM.run_bind, EStateM.run_get, same, ho, hl, run]
          | ok u w₁ =>
              have left := Operation.emit_leaves (k := 0) op name w (.refl w) (Nat.zero_le _)
              simp only [Build.after, run] at left
              generalize hline : "Added " ++ Text.upper (Text.lower op.method) ++ " " ++ op.path ++
                " as " ++ w₁.text name = line
              have logged := Build.record_leaves (k := 0) "operations" line w₁ (.refl w₁)
                (Nat.zero_le _)
              have grown := left.1.trans logged.1
              refine .inr ⟨⟨name, op, u⟩, (Build.record "operations" line).after w₁, ?_,
                h.grows.trans grown, ?_, ?_, ?_⟩
              · simp only [step, EStateM.run_bind, EStateM.run_get, same, ho, hl, run, hline]
                exact congrArg (EStateM.Result.ok · _) (gathered_snoc (a := ⟨name, op, u⟩) free)
              · exact List.rel_append h.entries (.cons ⟨rfl, ho⟩ .nil)
              · rw [List.map_append, List.nodup_append]
                refine ⟨h.distinct, by simp, fun k hk l hl hkl => ?_⟩
                obtain rfl : l = _ := List.mem_singleton.mp hl
                rw [hkl] at hk
                exact free hk
              · intro a ha
                rcases List.mem_append.mp ha with ha | ha
                · exact (h.made a ha).grows grown
                · obtain rfl := List.mem_singleton.mp ha
                  exact ⟨w, w₁, h.grows, run, logged.1⟩

/-- The whole walk: it stops at the first binding that cannot be added, or adds all of them. -/
theorem walk {base : World} (es : Entries) (he : ∀ e ∈ es, ∀ a, e.2 = .obj a → a < base.size)
    {w : World} {passed : Entries} {as : List Added} (h : Walked base passed as w) :
    (∃ f w', (es.foldlM step (gathered as)).run w = .error f w' ∧
      ∃ done e rest bs w₁, es = done ++ e :: rest ∧ Walked base (passed ++ done) bs w₁ ∧
        Stops base bs e f w') ∨
    ∃ bs w', (es.foldlM step (gathered as)).run w = .ok (gathered bs) w' ∧
      Walked base (passed ++ es) bs w' := by
  induction es generalizing w passed as with
  | nil => exact .inr ⟨as, w, rfl, by simpa using h⟩
  | cons e es ih =>
      rw [List.forall_mem_cons] at he
      rcases step_walked h he.1 with ⟨f, w', run, stops⟩ | ⟨a, w₁, run, h₁⟩
      · refine .inl ⟨f, w', ?_, [], e, es, as, w, rfl, by simpa using h, stops⟩
        rw [List.foldlM_cons, EStateM.run_bind, run]
      · rw [List.foldlM_cons, EStateM.run_bind, run]
        rcases ih he.2 h₁ with ⟨f, w', run', done, e', rest, bs, w₂, rfl, hw, stops⟩ |
          ⟨bs, w', run', hw⟩
        · exact .inl ⟨f, w', run', e :: done, e', rest, bs, w₂, rfl, by simpa using hw, stops⟩
        · exact .inr ⟨bs, w', run', by simpa using hw⟩

/-! ### The map -/

/-- The value is a mapping from paths to mappings from methods. -/
def HoldsPaths (w : World) (v : Value) (ps : List (String × List (String × Value))) : Prop :=
  ∃ a qs, v = .obj a ∧ w.get a = .mapping (Entries.named qs) ∧
    Entries.Paired (fun u ms => ∃ b, u = .obj b ∧ w.get b = .mapping (Entries.named ms)) qs ps

theorem record_gives (w : World) (fs : List (String × Value)) :
    (record fs).Gives w fun u w' => ∃ b, u = .obj b ∧ w'.get b = .mapping (Entries.named fs) :=
  ⟨_, _, rfl, w.extends_alloc _, w.size, rfl, w.get_alloc_same _⟩

theorem records_gives (w : World) (ps : List (String × List (String × Value))) :
    Build.Gives (do record (← ps.mapM fun p => do return (p.1, ← record p.2))) w
      fun u w' => HoldsPaths w' u ps := by
  have each (p : String × List (String × Value)) (_ : p ∈ ps) (w' : World) (_ : w.Extends w') :
      Build.Gives (do return (p.1, ← record p.2)) w' fun q w'' => q.1 = p.1 ∧
        ∃ b, q.2 = .obj b ∧ w''.get b = .mapping (Entries.named p.2) :=
    (record_gives w' p.2).bind fun u w'' _ hu => .pure ⟨rfl, hu⟩
  refine (Build.Gives.mapM (fun p q w w' h k => ?_) each).bind fun qs w₁ _ hqs => ?_
  · obtain ⟨hn, b, hb, hg⟩ := h
    exact ⟨hn, b, hb, by rw [k.get b (World.lt_size_of_mapping hg), hg]⟩
  · refine (record_gives w₁ qs).mono fun u w₂ k ⟨a, hu, hg⟩ => ⟨a, qs, hu, hg, ?_⟩
    refine hqs.flip.imp fun q p ⟨hn, b, hb, hg⟩ => ⟨hn, b, hb, ?_⟩
    rw [k.get b (World.lt_size_of_mapping hg), hg]

/-- The operations that the bindings name, in their order. -/
def InStep (w : World) (es : Entries) (as : List Added) : Prop :=
  List.Forall₂ (fun e a => a.name = e.1 ∧ Operation.of? w e.2 = some a.op) es as

/-- The map has a place for every binding and for nothing else. -/
structure Gathers (w w' : World) (es : Entries) (as : List Added)
    (ps : List (String × List (String × Value))) : Prop where
  inStep : InStep w es as
  distinct : (as.map Added.key).Nodup
  places : ∀ path method, (∃ ms, (path, ms) ∈ ps ∧ method ∈ ms.map (·.1)) ↔
    (path, method) ∈ as.map Added.key
  object : ∀ a ∈ as, (ps.lookup a.path).bind (·.lookup a.method) = some a.object
  made : ∀ a ∈ as, a.Made w w'
  looks : ∀ a ∈ as, ∀ v, w.Owned → w.IsOperation v a.op → w.IsData a.name →
    (a.op.emit a.name).Gives w fun u w₀ => w₀.tree u = w'.tree a.object
  paths : ps.map (·.1) = (as.map Added.path).eraseDups
  methods : ∀ p ∈ ps, p.2.map (·.1) = (as.filter fun a => a.path = p.1).map Added.method
  full : ∀ p ∈ ps, p.2 ≠ []

/-- What an operation of data was written as looks as it should. -/
theorem Added.Made.shows {a : Added} {w w' : World} (h : a.Made w w') {v : Value} (ho : w.Owned)
    (hv : w.IsOperation v a.op) (hd : w.IsData a.name) :
    w'.Shows a.object (a.op.written w a.name) := by
  obtain ⟨w₁, w₂, h₁, run, h₂⟩ := h
  obtain ⟨u, w₃, run', _, shows⟩ :=
    Operation.emit_gives (h₁.owned ho) (hv.grows h₁) (hd.grows h₁).1
  obtain ⟨rfl, rfl⟩ : a.object = u ∧ w₂ = w₃ := by simpa using run.symm.trans run'
  rw [← Operation.written_grows hv hd h₁]
  exact shows.grows h₂

theorem Added.Made.looks {a : Added} {w w' : World} (h : a.Made w w') {v : Value} (ho : w.Owned)
    (hv : w.IsOperation v a.op) (hd : w.IsData a.name) :
    (a.op.emit a.name).Gives w fun u w₀ => w₀.tree u = w'.tree a.object :=
  (Operation.emit_gives ho hv hd).mono fun _ _ _ hu => hu.2.trans (h.shows ho hv hd).2.symm

/-- The entries of a path are those that were added under it. -/
theorem lookup_methods {as : List Added} (h : (as.map Added.key).Nodup) {a : Added} (ha : a ∈ as) :
    (methods as a.path).lookup a.method = some a.object := by
  induction as with
  | nil => simp at ha
  | cons b as ih =>
      obtain ⟨hb, h⟩ := List.nodup_cons.mp h
      rcases List.mem_cons.mp ha with rfl | ha
      · simp [methods]
      · have other : a.key ≠ b.key := fun hk => hb (hk ▸ List.mem_map_of_mem ha)
        by_cases hp : b.path = a.path
        · have hm : (a.method == b.method) = false := by
            refine beq_eq_false_iff_ne.mpr fun hm => other ?_
            simp [Added.key, hp, hm]
          have first : methods (b :: as) a.path = (b.method, b.object) :: methods as a.path := by
            simp [methods, hp]
          rw [first, List.lookup_cons, hm]
          exact ih h ha
        · simpa [methods, hp] using ih h ha

theorem mem_grouped {as : List Added} {p : String × List (String × Value)} :
    p ∈ grouped as ↔ p.1 ∈ as.map Added.path ∧ p.2 = methods as p.1 := by
  simp only [grouped, List.mem_map, List.mem_eraseDups]
  constructor
  · rintro ⟨path, h, rfl⟩
    exact ⟨h, rfl⟩
  · rintro ⟨h, hm⟩
    exact ⟨p.1, h, by rw [← hm]⟩

theorem gathers_grouped {w w' : World} {es : Entries} {as : List Added}
    (h : Walked w es as w') : Gathers w w' es as (grouped as) where
  inStep := h.entries
  distinct := h.distinct
  places path method := by
    rw [← mem_methods]
    constructor
    · rintro ⟨ms, hp, hm⟩
      obtain ⟨-, (rfl : ms = methods as path)⟩ := mem_grouped.mp hp
      exact hm
    · intro hm
      obtain ⟨a, ha, hk⟩ := List.mem_map.mp (mem_methods.mp hm)
      have : a.path = path := congrArg Prod.fst hk
      exact ⟨_, mem_grouped.mpr ⟨List.mem_map.mpr ⟨a, ha, this⟩, rfl⟩, hm⟩
  object a ha := by
    have hp : a.path ∈ as.map Added.path := List.mem_map_of_mem ha
    rw [grouped, lookup_map_self, if_pos (List.mem_eraseDups.mpr hp)]
    exact lookup_methods h.distinct ha
  made := h.made
  looks a ha v ho hv hd := (h.made a ha).looks ho hv hd
  paths := by simp [grouped, Function.comp_def]
  methods p hp := by
    obtain ⟨-, hm⟩ := mem_grouped.mp hp
    simp [hm, Paths.methods]
  full p hp := by
    obtain ⟨hpath, hm⟩ := mem_grouped.mp hp
    obtain ⟨a, ha, hk⟩ := List.mem_map.mp hpath
    have : a ∈ as.filter fun b => b.path = p.1 := by simpa [ha] using hk
    rw [hm, Paths.methods]
    exact fun none => List.ne_nil_of_mem this (List.map_eq_nil_iff.mp none)

/-- A map of paths is made of what the walk has gathered. -/
theorem build_walked {w : World} {v : Value} {es : Entries} (hv : v.mapping? w = some es)
    (he : ∀ e ∈ es, ∀ a, e.2 = .obj a → a < w.size) :
    match (build v).run w with
    | .error f w' => ∃ passed e rest as w₁, es = passed ++ e :: rest ∧ Walked w passed as w₁ ∧
        Stops w as e f w'
    | .ok u w' => ∃ as, HoldsPaths w' u (grouped as) ∧ Walked w es as w' := by
  have start : Walked w [] [] w := ⟨.refl w, .nil, by simp, by simp⟩
  have items : v.items.run w = .ok es w := Value.items_reads hv
  rcases walk es he start with ⟨f, w', run, passed, e, rest, as, w₁, hes, hw, stops⟩ |
    ⟨as, w₁, run, hw⟩
  · have failed : (build v).run w = .error f w' := by
      have run : (es.foldlM step Gathered.empty).run w = .error f w' := run
      rw [build, EStateM.run_bind, items]
      simp only
      rw [EStateM.run_bind, run]
    rw [failed]
    exact ⟨passed, e, rest, as, w₁, hes, hw, stops⟩
  · generalize hline : "Assembled " ++ Nat.repr (gathered as).owners.length ++
      " operations under " ++ Nat.repr (gathered as).paths.length ++ " paths" = line
    have logged := Build.record_leaves (k := 0) "operations" line w₁ (.refl w₁) (Nat.zero_le _)
    obtain ⟨u, w', run', ext, holds⟩ :=
      records_gives ((Build.record "operations" line).after w₁) (grouped as)
    have made : (build v).run w = .ok u w' := by
      have run : (es.foldlM step Gathered.empty).run w = .ok (gathered as) w₁ := run
      rw [build, EStateM.run_bind, items]
      simp only
      rw [EStateM.run_bind, run]
      simp only [hline]
      exact run'
    rw [made]
    have grown := logged.1.trans ext.grows
    exact ⟨as, holds, hw.grows.trans grown, hw.entries, hw.distinct,
      fun a ha => (hw.made a ha).grows grown⟩

/-- The paths map of a mapping of bindings. The first binding that cannot be added decides the error.
Without one, the map has a place for every binding and for nothing else. -/
theorem build_gathers {w : World} {v : Value} {es : Entries} (hv : v.mapping? w = some es)
    (he : ∀ e ∈ es, ∀ a, e.2 = .obj a → a < w.size) :
    match (build v).run w with
    | .error f w' => ∃ passed e rest as w₁, es = passed ++ e :: rest ∧ Walked w passed as w₁ ∧
        Stops w as e f w'
    | .ok u w' => w.Grows w' ∧ ∃ as ps, HoldsPaths w' u ps ∧ Gathers w w' es as ps := by
  have walked := build_walked hv he
  cases run : (build v).run w with
  | error f w' => simpa [run] using walked
  | ok u w' =>
      obtain ⟨as, holds, hw⟩ : ∃ as, HoldsPaths w' u (grouped as) ∧ Walked w es as w' := by
        simpa [run] using walked
      exact ⟨hw.grows, as, grouped as, holds, gathers_grouped hw⟩

/-- An operation without anything but its place, its responses and what is laid over them. -/
def sampleOperation (method : String) (responses extra : Addr) : Operation where
  method := method
  path := "/items"
  responses := responses
  operationId := none
  summary := none
  tags := none
  parameters := none
  requestBody := none
  extra := extra

/-- A store with these objects and nothing else. -/
def storeOf (objects : List Object) : World where
  objects := objects.toArray
  log := []
  nans := 0
  imported := []
  attributes := []

def twoOperations : World := storeOf [.mapping [], .operation (sampleOperation "GET" 0 0),
  .operation (sampleOperation "post" 0 0),
  .mapping [(.str "read", .obj 1), (.str "write", .obj 2)]]

theorem build_gathers_two :
    (Value.obj 3).mapping? twoOperations = some [(.str "read", .obj 1), (.str "write", .obj 2)] ∧
    ∃ u w', (build (.obj 3)).run twoOperations = .ok u w' ∧ twoOperations.Grows w' ∧
      ∃ as ps, HoldsPaths w' u ps ∧
        Gathers twoOperations w' [(.str "read", .obj 1), (.str "write", .obj 2)] as ps := by
  have entries : (Value.obj 3).mapping? twoOperations =
      some [(.str "read", .obj 1), (.str "write", .obj 2)] := rfl
  obtain ⟨u, w', run⟩ := Build.ran (build (.obj 3)) twoOperations (by decide +kernel)
  have gathers := build_gathers entries (by simp [twoOperations, storeOf, World.size])
  rw [run] at gathers
  exact ⟨entries, u, w', run, gathers⟩

/-- A module under an extra key cannot be copied. -/
def uncopied : World := storeOf [.mapping [], .module [], .mapping [(.str "x-home", .obj 1)],
  .operation (sampleOperation "get" 0 2), .mapping [(.str "read", .obj 3), (.str "none", .int 5)]]

/-- A constructor under an extra key is copied to another one. -/
def recopied : World := storeOf [.mapping [], .constructor .string,
  .mapping [(.str "x-schema", .obj 1)], .operation (sampleOperation "get" 0 2),
  .mapping [(.str "read", .obj 3)]]

/-- Write an operation into a map of paths and by itself, and compare. -/
def writtenTwice : Build Value := do
  let paths ← build (.obj 4)
  let methods ← Access.getItem paths (.str "/items")
  let gathered ← Access.getItem methods (.str "get")
  let object ← (sampleOperation "get" 0 2).emit (.str "read")
  Call.equal gathered object

set_option maxRecDepth 4000 in
/-- The first binding that is no operation need not decide the error, and what an operation is
written as twice need not be equal. -/
theorem build_uncopied_recopied :
    (Operation.of? uncopied (.int 5) = none ∧
      ∃ f w', (build (.obj 4)).run uncopied = .error f w' ∧
        ¬ Told w' f "SchemaTypeError" [("binding", .str "none")]) ∧
    (match writtenTwice.run recopied with
      | .ok outcome _ => some outcome
      | .error _ _ => none) = some (.bool false) := by
  refine ⟨⟨rfl, _, _, rfl, ?_⟩, by decide +kernel⟩
  rintro ⟨d, h, -, -⟩
  simp at h

end OpenApiDoc.Paths
