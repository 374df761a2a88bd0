import OpenApiDoc.Document
import OpenApiDoc.Proofs.Nodes
import OpenApiDoc.Proofs.Outcomes

/-! # What helpers make of views

A helper that is given data makes of it what the views of its arguments say, and nothing else counts.
For each helper there is a function on views that gives the view of its result, or none if the helper
gives no result.

* `Build.Denotes` ties a step to a view; the rules follow the way in which steps are put together.
* `Tree.entries?` is the view of `Value.entries`, `Tree.emit?` that of `Node.emit` and
  `Tree.detached?` that of `detached`. -/

namespace OpenApiDoc

open World

/-! ### Steps with a view -/

/-- The step gives a result that shows the view. Without a view it gives none. -/
def Build.Denotes {α τ : Type} (act : Build α) (w : World) (shows : World → α → τ → Prop) :
    Option τ → Prop
  | some t => act.Gives w fun a w' => shows w' a t
  | none => ∀ a w', act.run w ≠ .ok a w'

namespace Build

variable {α β τ σ : Type} {w : World} {shows : World → α → τ → Prop}
  {shows' : World → β → σ → Prop}

theorem Gives.denotes {act : Build α} {t : τ} (h : act.Gives w fun a w' => shows w' a t) :
    act.Denotes w shows (some t) :=
  h

theorem Denotes.throw (f : Fault) : (throw f : Build α).Denotes w shows none := by
  rintro a w' ⟨⟩

theorem Denotes.lack (v : Value) (name : String) :
    (Build.lack v name : Build α).Denotes w shows none := by
  rintro a w' ⟨⟩

theorem Denotes.bind {act : Build α} {f : α → Build β} {d : Option τ} {g : τ → Option σ}
    (h : act.Denotes w shows d) (hf : ∀ a w' t, d = some t → w.Extends w' → shows w' a t →
      (f a).Denotes w' shows' (g t)) : (act >>= f).Denotes w shows' (d.bind g) := by
  cases d with
  | none =>
      intro b w' run
      obtain ⟨a, w₁, first, -⟩ := bind_ok run
      exact h a w₁ first
  | some t =>
      obtain ⟨a, w₁, run, k, ha⟩ := h
      have rest := hf a w₁ t rfl k ha
      rw [Option.bind_some]
      cases hg : g t with
      | none =>
          rw [hg] at rest
          intro b w' whole
          rw [EStateM.run_bind, run] at whole
          exact rest b w' whole
      | some s =>
          rw [hg] at rest
          obtain ⟨b, w₂, run', k', hb⟩ := rest
          refine ⟨b, w₂, ?_, k.trans k', hb⟩
          rw [EStateM.run_bind, run]
          exact run'

/-- A step that only puts together what was shown. -/
theorem Denotes.map {act : Build α} {f : α → Build β} {d : Option τ} {g : τ → σ}
    (h : act.Denotes w shows d) (hf : ∀ a w' t, d = some t → w.Extends w' → shows w' a t →
      (f a).Gives w' fun b w'' => shows' w'' b (g t)) :
    (act >>= f).Denotes w shows' (d.map g) := by
  rw [Option.map_eq_bind]
  exact h.bind fun a w' t hd k ha => hf a w' t hd k ha

/-- A first step that always gives a result. -/
theorem Gives.denotes_bind {act : Build α} {f : α → Build β} {Q : α → World → Prop} {d : Option σ}
    (h : act.Gives w Q) (hf : ∀ a w', w.Extends w' → Q a w' → (f a).Denotes w' shows' d) :
    (act >>= f).Denotes w shows' d :=
  have first : act.Denotes w (fun w a (_ : Unit) => Q a w) (some ()) := h
  first.bind (g := fun _ => d) fun a w' _ _ => hf a w'

theorem Denotes.get_bind {f : World → Build β} {d : Option σ} (h : (f w).Denotes w shows' d) :
    ((MonadState.get : Build World) >>= f).Denotes w shows' d :=
  h

theorem Denotes.look_bind {a : Addr} {f : Object → Build β} {d : Option σ}
    (h : (f (w.get a)).Denotes w shows' d) : (look a >>= f).Denotes w shows' d :=
  h

/-- Going on with what was read. -/
theorem Reads.denotes_bind {act : Build α} {f : α → Build β} {a : α} {d : Option σ}
    (h : act.Reads w a) (hf : (f a).Denotes w shows' d) : (act >>= f).Denotes w shows' d := by
  have run : (act >>= f).run w = (f a).run w := by
    rw [EStateM.run_bind, h]
  cases d with
  | some s => simpa only [Denotes, Gives, run] using hf
  | none => simpa only [Denotes, run] using hf

/-- A step for each member of a list. -/
theorem Denotes.mapM {f : α → Build β} {d : α → Option σ}
    (stays : ∀ b s w w', shows' w b s → World.Extends w w' → shows' w' b s) {xs : List α}
    (h : ∀ x ∈ xs, ∀ w', w.Extends w' → (f x).Denotes w' shows' (d x)) :
    (xs.mapM f).Denotes w (fun w' => List.Forall₂ (shows' w')) (xs.mapM d) := by
  induction xs generalizing w with
  | nil => exact Gives.denotes (.pure .nil)
  | cons x xs ih =>
      rw [List.mapM_cons, List.mapM_cons]
      refine (h x (by simp) w (.refl w)).bind fun b w₁ s _ k hb => ?_
      refine (ih fun y hy w₂ k' => h y (by simp [hy]) w₂ (k.trans k')).bind
        fun bs w₂ ss _ k' hbs => Gives.denotes (.pure ?_)
      exact .cons (stays b s _ _ hb k') hbs

/-- A step for each of some entries. -/
theorem Denotes.mapM_entries {f : α → Build (Value × Value)} {d : α → Option (Tree × Tree)}
    {xs : List α} (h : ∀ x ∈ xs, ∀ w', w.Extends w' → (f x).Denotes w'
      (fun w e p => w.Shows e.1 p.1 ∧ w.Shows e.2 p.2) (d x)) :
    (xs.mapM f).Denotes w World.ShowsEntries (xs.mapM d) :=
  .mapM (fun _ _ _ _ h k => ⟨h.1.extends k, h.2.extends k⟩) h

/-- A loop over a list. -/
theorem Denotes.foldlM {f : β → α → Build β} {d : σ → α → Option σ} {xs : List α} {b : β} {s : σ}
    (start : shows' w b s) (h : ∀ x ∈ xs, ∀ b s w', w.Extends w' → shows' w' b s →
      (f b x).Denotes w' shows' (d s x)) :
    (xs.foldlM f b).Denotes w shows' (xs.foldlM d s) := by
  induction xs generalizing w b s with
  | nil => exact Gives.denotes (.pure start)
  | cons x xs ih =>
      rw [List.foldlM_cons, List.foldlM_cons]
      refine (h x (by simp) b s w (.refl w) start).bind fun b₁ w₁ s₁ _ k hb => ?_
      exact ih hb fun y hy c u w₂ k' => h y (by simp [hy]) c u w₂ (k.trans k')

/-- What a step that is shown by its view comes to in two worlds. -/
theorem Denotes.again {act : Build α} {d : Option τ} {w₁ : World} (h : act.Denotes w shows d)
    (h₁ : act.Denotes w₁ shows d) {a : α} {w' : World} (run : act.run w = .ok a w') :
    ∃ t, shows w' a t ∧ act.Gives w₁ fun a₁ w₁' => shows w₁' a₁ t := by
  cases d with
  | none => exact absurd run (h a w')
  | some t =>
      obtain ⟨b, w₂, run', -, hb⟩ := h
      cases run.symm.trans run'
      exact ⟨t, hb, h₁⟩

end Build

/-! ### Views of collections -/

namespace Tree

/-- The parts that a loop over the value meets. -/
def loop? : Tree → Option (List Tree)
  | .str s => some (s.toList.map fun c => .str (String.singleton c))
  | .atom (.bytes bs) => some (bs.map fun b => .atom (.int b.toNat))
  | .list xs => some xs
  | .tuple xs => some xs
  | .mapping es => some (es.map (·.1))
  | .model _ fs => some (fs.map fun f => .tuple [.str f.1, f.2])
  | _ => Option.none

/-- A view that can be a key. -/
def key? (t : Tree) : Option Unit := if t.unhashable?.isNone then some () else Option.none

/-- A key and a value. -/
def pair? (t : Tree) : Option (Tree × Tree) :=
  t.loop?.bind fun
    | [k, u] => k.key?.map fun _ => (k, u)
    | _ => Option.none

/-- The entries of a mapping, or of a collection of pairs. -/
def entries? : Tree → Option (List (Tree × Tree))
  | .mapping es => some es
  | t => t.loop?.bind fun parts => (parts.mapM pair?).map (Entries.overlay same [])

/-- The entries of a mapping. -/
def items? : Tree → Option (List (Tree × Tree))
  | .mapping es => some es
  | _ => Option.none

/-- The schema that a value stands for. -/
def emit? : Tree → Option Tree
  | .model .node (f :: _) => some f.2
  | t => t.entries?.map fun es => .mapping (plainEntries es)

/-- A detached mapping. -/
def detached? (t : Tree) : Option Tree := t.entries?.map .mapping

/-- The values that count as absent, and empty collections. -/
def isEmpty : Tree → Bool
  | .atom a => a.isEmpty
  | .mapping es => es.isEmpty
  | .list xs => xs.isEmpty
  | .tuple xs => xs.isEmpty
  | _ => false

/-- The entries of a collection of pairs that may be absent or empty. -/
def entriesOrEmpty? (t : Tree) : Option (List (Tree × Tree)) :=
  if t.isEmpty then some [] else t.entries?

end Tree

open Build

variable {w w' : World} {v : Value} {t : Tree}

/-- The values show the views, one by one. -/
abbrev World.ShowsAll (w : World) (vs : List Value) (ts : List Tree) : Prop :=
  List.Forall₂ w.Shows vs ts

theorem World.showsAll_map {vs : List Value} (h : ∀ v ∈ vs, w.IsData v) :
    w.ShowsAll vs (vs.map w.tree) := by
  rw [ShowsAll, List.forall₂_map_right_iff, List.forall₂_same]
  exact fun v hv => (h v hv).shows

theorem World.showsAll_atoms {α : Type} (f : α → Atom) (xs : List α) :
    w.ShowsAll (xs.map fun x => .atom (f x)) (xs.map fun x => .atom (f x)) := by
  rw [ShowsAll, List.forall₂_map_left_iff, List.forall₂_map_right_iff, List.forall₂_same]
  exact fun x _ => w.shows_atom (f x)

namespace Value

/-- The fields of a record, each as a pair of its name and its value. -/
theorem fields_gives (ho : w.Owned) {fs : List (String × Value)} (h : ∀ f ∈ fs, w.IsData f.2) :
    (fs.mapM fun f => newTuple [.str f.1, f.2]).Gives w fun us w' =>
      w'.ShowsAll us (fs.map fun f => .tuple [.str f.1, w.tree f.2]) := by
  refine Gives.mapM_shows fun f hf w₁ k => newTuple_gives (ho.extends k) ?_
  exact .cons (shows_atom _ _) (.cons ((h f hf).shows.extends k) .nil)

theorem iterate_denotes (ho : w.Owned) (h : w.Shows v t) :
    v.iterate.Denotes w ShowsAll t.loop? := by
  cases v with
  | atom a =>
      obtain rfl : Tree.atom a = t := by simpa using h.2
      cases a with
      | str s => exact Gives.denotes (.pure (showsAll_atoms (fun c => .str (String.singleton c)) _))
      | bytes bs => exact Gives.denotes (.pure (showsAll_atoms (fun b => .int b.toNat) bs))
      | _ => exact .throw _
  | obj a =>
      have view := h.obj
      have part {u : Value} (hu : u ∈ (w.get a).parts) : w.IsData u := h.1.part hu
      refine .look_bind ?_
      generalize hg : w.get a = o at view part ⊢
      cases o with
      | mapping es =>
          obtain rfl : Tree.mapping _ = t := Option.some.inj view
          refine Gives.denotes (.pure ?_)
          have keys := @showsAll_map w (es.map (·.1)) fun v hv => by
            obtain ⟨e, he, rfl⟩ := List.mem_map.mp hv
            exact part (Object.mem_parts_key he)
          simpa [List.map_map, Function.comp_def] using keys
      | list xs =>
          obtain rfl : Tree.list _ = t := Option.some.inj view
          exact Gives.denotes (.pure (showsAll_map fun v hv => part hv))
      | tuple xs =>
          obtain rfl : Tree.tuple _ = t := Option.some.inj view
          exact Gives.denotes (.pure (showsAll_map fun v hv => part hv))
      | moment m =>
          obtain rfl : Tree.moment m = t := Option.some.inj view
          exact .throw _
      | node f o =>
          obtain rfl : Tree.model .node _ = t := Option.some.inj view
          have data : ∀ e ∈ Object.nodeFields f o, w.IsData e.2 := by
            simpa [Object.nodeFields, IsData.atom] using part (u := .obj f) (by simp [Object.parts])
          simpa [Object.fields?, Tree.loop?, Build.Denotes] using fields_gives ho data
      | operation op =>
          obtain rfl : Tree.model .operation _ = t := Option.some.inj view
          have data : ∀ e ∈ op.fields, w.IsData e.2 := fun e he =>
            part (List.mem_map.mpr ⟨e, he, rfl⟩)
          simpa [Object.fields?, Tree.loop?, Build.Denotes] using fields_gives ho data
      | constructor c => cases view
      | builder m b => cases view
      | module ns => cases view
      | machinery k ps => cases view

theorem requireKey_denotes {k : Value} (h : w.Shows k t) :
    (requireKey k).Denotes w (fun _ _ _ => True) t.key? := by
  refine .get_bind ?_
  rw [show w.unhashable? k = t.unhashable? from congrArg _ h.2, Tree.key?]
  cases t.unhashable? with
  | none => exact Gives.denotes (.pure trivial)
  | some type => exact .throw _

/-- A part that must hold a key and a value. -/
theorem pair_denotes (ho : w.Owned) (h : w.Shows v t) (place : Nat) :
    (v.pair place).Denotes w (fun w e p => w.Shows e.1 p.1 ∧ w.Shows e.2 p.2) t.pair? := by
  have parts : (tryCatch v.iterate fun _ => Build.fail (.notAPair place) :
      Build (List Value)).Denotes w ShowsAll t.loop? := by
    have loop := iterate_denotes ho h
    cases ht : t.loop? with
    | some ts =>
        rw [ht] at loop
        obtain ⟨us, w₁, run, k, hus⟩ := loop
        exact ⟨us, w₁, by rw [run_tryCatch, run], k, hus⟩
    | none =>
        rw [ht] at loop
        intro us w₁ run
        rw [run_tryCatch] at run
        cases first : v.iterate.run w with
        | ok vs w₂ => exact loop vs w₂ first
        | error f w₂ =>
            rw [first] at run
            cases run
  refine parts.bind fun us w₁ ts _ k hus => ?_
  match us, ts, hus with
  | [x, y], [k, u], .cons hx (.cons hy .nil) =>
      exact (requireKey_denotes hx).map fun _ w₂ _ _ k _ => .pure ⟨hx.extends k, hy.extends k⟩
  | [], [], _ => exact .throw _
  | [_], [_], _ => exact .throw _
  | _ :: _ :: _ :: _, _ :: _ :: _ :: _, _ => exact .throw _

/-- Pairs are inserted one after the other, and the first that is none ends the loop. -/
theorem pairs_denotes {w : World} (ho : w.Owned) {us : List Value} {ts : List Tree}
    (h : w.ShowsAll us ts) {acc : Entries} {gathered : List (Tree × Tree)}
    (hacc : w.ShowsEntries acc gathered) (n : Nat) :
    Build.Denotes ((us.zipIdx n).foldlM (fun (acc : Entries) p => do
      let e ← p.1.pair p.2
      return Entries.insert (← get).sameKey acc e.1 e.2) acc) w ShowsEntries
      ((ts.mapM Tree.pair?).map (Entries.overlay Tree.same gathered)) := by
  induction us generalizing w ts acc gathered n with
  | nil =>
      cases h
      exact Gives.denotes (.pure hacc)
  | cons u us ih =>
      obtain ⟨t, ts, hu, hus, rfl⟩ := List.forall₂_cons_left_iff.mp h
      have view : ((t :: ts).mapM Tree.pair?).map (Entries.overlay Tree.same gathered) =
          (t.pair?.map fun p => Entries.insert Tree.same gathered p.1 p.2).bind fun next =>
            (ts.mapM Tree.pair?).map (Entries.overlay Tree.same next) := by
        rw [List.mapM_cons]
        cases t.pair? with
        | none => rfl
        | some p => cases ts.mapM Tree.pair? <;> simp
      rw [view, List.zipIdx_cons, List.foldlM_cons]
      have inserted : Build.Denotes (do
          let e ← u.pair n
          return Entries.insert (← get).sameKey acc e.1 e.2) w ShowsEntries
          (t.pair?.map fun p => Entries.insert Tree.same gathered p.1 p.2) :=
        (pair_denotes ho hu n).map fun e w₁ p _ k he =>
          .get_bind (.pure ((hacc.extends k).insert he.1 he.2))
      refine inserted.bind fun acc₁ w₁ next _ k hacc₁ => ?_
      exact ih (ho.extends k) (hus.imp fun _ _ hx => hx.extends k) hacc₁ (n + 1)

/-- The entries of a value are those of its view. -/
theorem entries_denotes (ho : w.Owned) (h : w.Shows v t) :
    v.entries.Denotes w ShowsEntries t.entries? := by
  refine .get_bind ?_
  cases hm : v.mapping? w with
  | some es =>
      obtain ⟨a, rfl, hg⟩ := eq_obj_of_mapping? hm
      obtain rfl : Tree.mapping _ = t := (h.1.tree_mapping hg).symm.trans h.2
      refine Gives.denotes (.pure ?_)
      rw [ShowsEntries, List.forall₂_map_right_iff, List.forall₂_same]
      exact fun e he => ⟨(h.1.part (hg ▸ Object.mem_parts_key he)).shows,
        (h.1.part (hg ▸ Object.mem_parts_value he)).shows⟩
  | none =>
      have view : t.entries? =
          t.loop?.bind fun parts => (parts.mapM Tree.pair?).map (Entries.overlay Tree.same []) := by
        cases t with
        | mapping ts =>
            obtain ⟨a, es, rfl, hg, -⟩ := h.mapping
            simp [mapping?, hg] at hm
        | _ => rfl
      rw [view]
      refine (iterate_denotes ho h).bind fun us w₁ ts _ k hus => ?_
      exact pairs_denotes (ho.extends k) hus .nil 0

end Value

/-! ### Copies and schemas -/

theorem Value.copy_gives (ho : w.Owned) (h : w.Shows v t) :
    v.copy.Gives w fun u w' => w'.Shows u t :=
  (h.1.copy ho).mono fun _ _ _ hu => ⟨hu.1, hu.2.trans h.2⟩

theorem Value.plain_gives (ho : w.Owned) (h : w.Shows v t) :
    v.plain.Gives w fun u w' => w'.Shows u t.plain :=
  h.2 ▸ h.1.plain ho

/-- A copy of the mapping of some entries. -/
theorem copied_gives (ho : w.Owned) {es : Entries} {ts : List (Tree × Tree)}
    (h : w.ShowsEntries es ts) :
    Build.Gives (do (← newMapping es).copy) w fun u w' => w'.Shows u (.mapping ts) :=
  (newMapping_gives ho h).bind fun _ _ k hu => Value.copy_gives (ho.extends k) hu.1

theorem detached_denotes (ho : w.Owned) (h : w.Shows v t) :
    (detached v).Denotes w Shows t.detached? :=
  (Value.entries_denotes ho h).map fun _ _ _ _ k hes => copied_gives (ho.extends k) hes

theorem isEmpty_eq (h : w.Shows v t) : w.isEmpty v = t.isEmpty := by
  cases v with
  | atom a =>
      obtain rfl : Tree.atom a = t := by simpa using h.2
      rfl
  | obj a =>
      have view := h.obj
      cases hg : w.get a <;> rw [hg] at view <;> cases view <;> simp [World.isEmpty, Tree.isEmpty, hg]

theorem Value.entriesOrEmpty_denotes (ho : w.Owned) (h : w.Shows v t) :
    v.entriesOrEmpty.Denotes w ShowsEntries t.entriesOrEmpty? := by
  refine .get_bind ?_
  rw [isEmpty_eq h, Tree.entriesOrEmpty?]
  split
  · exact Gives.denotes (.pure .nil)
  · exact entries_denotes ho h

theorem Node.parts?_of_model {fs : List (String × Tree)} (h : w.Shows v (.model .node fs)) :
    ∃ f o, parts? w v = some (f, o) ∧
      fs = [("fragment", w.tree (.obj f)), ("is_optional", .bool o)] ∧ w.IsData (.obj f) := by
  obtain ⟨a, f, o, rfl, hg, data, hfs⟩ := h.model
  exact ⟨f, o, by simp [parts?, hg], hfs, data⟩

theorem Node.parts?_of_other (h : w.Shows v t) (other : ∀ fs, t ≠ .model .node fs) :
    parts? w v = none := by
  cases hp : parts? w v with
  | none => rfl
  | some p =>
      cases v with
      | atom a => cases hp
      | obj a =>
          have view := h.obj
          cases hg : w.get a <;> simp [parts?, hg] at hp
          rw [hg] at view
          exact absurd (Option.some.inj view).symm (other _)

/-- Entries under the same keys, copied as trees. -/
theorem plainEntries_gives (ho : w.Owned) {es : Entries} {ts : List (Tree × Tree)}
    (h : w.ShowsEntries es ts) :
    Build.Gives (do newMapping (← es.mapM fun e => do return (e.1, ← e.2.plain))) w fun u w' =>
      w'.Shows u (.mapping (Tree.plainEntries ts)) := by
  obtain ⟨data, rfl⟩ := h.tree
  refine (Gives.mapM_entries (·.1) (fun e => w.tree e.1) (fun e => (w.tree e.2).plain)
    (fun e he => (data e he).1.shows) fun e he w' k => ?_).bind fun us w' k hus => ?_
  · exact Value.plain_gives (ho.extends k) ((data e he).2.shows.extends k)
  · refine (newMapping_gives (ho.extends k) hus).mono fun u w'' _ hu => ?_
    simpa [Tree.plainEntries_eq, Function.comp_def] using hu.1

theorem Node.emit_denotes (ho : w.Owned) (h : w.Shows v t) :
    (emit v).Denotes w Shows t.emit? := by
  refine .get_bind ?_
  by_cases node : ∃ fs, t = .model .node fs
  · obtain ⟨fs, rfl⟩ := node
    obtain ⟨f, o, hp, rfl, data⟩ := parts?_of_model h
    rw [hp]
    exact Gives.denotes (schema_gives ho data.shows)
  · rw [not_exists] at node
    rw [parts?_of_other h node]
    have view : t.emit? = t.entries?.map fun ts => .mapping (Tree.plainEntries ts) := by
      cases t with
      | model m fs =>
          cases m with
          | node => exact absurd rfl (node fs)
          | operation => rfl
      | _ => rfl
    rw [view]
    exact (Value.entries_denotes ho h).map fun es w₁ ts _ k hes =>
      plainEntries_gives (ho.extends k) hes

end OpenApiDoc
