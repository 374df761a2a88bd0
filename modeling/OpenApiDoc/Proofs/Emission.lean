import OpenApiDoc.Proofs.Lasting
import OpenApiDoc.Proofs.Yaml.Unmarked

/-! # Emitted schemas share nothing

However often an object is reached from what a program gives to the constructors, it is not reached
twice from what is emitted, as long as nothing is written to the fragments of nodes.

* `Document.ofSchemas_gives`: the document that has schemas as its components is unshared, and shows
  the plain views of the schemas.
* `Session.schemas_unshared` is the result about whole programs: fragments, schemas and emitted
  values are unshared, and the YAML text of component schemas depends on their plain view alone. -/

namespace OpenApiDoc

open Build World

/-- Nothing is enclosed, but the fragments of nodes are spared. -/
def Enclosure.sparing : Enclosure := ⟨fun _ => False, fun _ => False, True⟩

namespace World

variable {w w' : World}

theorem Tidy.encloses_sparing (h : w.Tidy) (hu : w.Untangled) : w.Encloses .sparing :=
  ⟨h, fun _ _ _ _ _ hb => hb, fun _ => False.elim, fun _ => False.elim, fun _ => False.elim,
    fun _ => hu⟩

theorem Has.open_sparing {v : Value} (h : w.Has v) : w.Open .sparing v := by
  cases v with
  | atom a => trivial
  | obj a => exact ⟨h, id⟩

/-- A mapping of schemas under texts, which can be written. -/
structure IsSchemas (w : World) (m : Value) : Prop where
  writable : w.Writable m
  mapping : ∃ es, m.mapping? w = some es ∧ ∀ e ∈ es, w.IsSchema e.2

theorem IsSchemas.extends {m : Value} (h : w.IsSchemas m) (k : w.Extends w') :
    w'.IsSchemas m := by
  obtain ⟨es, hm, schemas⟩ := h.mapping
  obtain ⟨a, rfl, hg⟩ := Value.eq_obj_of_mapping? hm
  refine ⟨h.writable.extends k, es, ?_, fun e he => (schemas e he).extends k⟩
  rw [Value.mapping?, k.get a (lt_size_of_mapping hg), hg]

end World

namespace Document

/-- The document of components that are schemas. -/
def ofSchemas (title version : String) (schemas : Value) : Build Value := do
  let components ← newMapping [(.str "schemas", schemas)]
  Call.document.call [.str title, .str version] [("components", components)]

/-- The YAML text of this document. -/
def textOfSchemas (title version : String) (schemas : Value) : Build Value := do
  Call.render.call [← ofSchemas title version schemas, .str "yaml"] []

/-- The document of components that look like this. -/
def shownSchemas (title version : String) (schemas : Tree) : List (String × Tree) :=
  [("openapi", .str defaultVersion),
    ("info", .record [("title", .str title), ("version", .str version)]),
    ("paths", .record []), ("components", .record [("schemas", schemas.plain)])]

variable {w : World} {m : Value}

/-- The steps in which the document is made. -/
theorem ofSchemas_eq (title version : String) (schemas : Value) :
    ofSchemas title version schemas = (do
      let c ← new (.mapping [(.str "schemas", schemas)])
      let info ← record [("title", .str title), ("version", .str version)]
      let paths ← (do (← newMapping []).copy)
      let parts ← components (.obj c)
      let extra ← (← (do (← newMapping []).copy)).further
      newMapping (Entries.overlay (← get).sameKey (Entries.named
        [("openapi", .str defaultVersion), ("info", info), ("paths", paths), ("components", parts)])
        extra)) := by
  have called (c : Addr) : Call.document.call [.str title, .str version] [("components", .obj c)] =
      build ⟨.str title, .str version, .none, .obj c, .str defaultVersion, .none, .none, .none⟩ :=
    rfl
  have described : (if Value.none.isNone then [] else [("description", Value.none)]) = [] := rfl
  have servers : optionalField "servers" .none Value.copy = pure [] := rfl
  have empty : detachedOrEmpty .none = (do (← newMapping []).copy) := rfl
  have parts (c : Addr) : optionalField "components" (.obj c) components =
      (do return [("components", ← components (.obj c))]) := rfl
  simp only [ofSchemas, newMapping, bind_assoc, pure_bind, called]
  simp only [build, described, servers, empty, parts, newMapping, bind_assoc, pure_bind,
    List.append_nil, List.cons_append, List.nil_append]

/-- The value shows a tree and is a sprout of objects from `lo` on. -/
structure Fresh (w : World) (lo : Nat) (v : Value) (t : Tree) : Prop where
  encloses : w.Encloses .sparing
  shows : w.Shows v t
  sprout : w.Sprout lo w.size v

/-- Entries of new values. -/
structure FreshEntries (w : World) (lo : Nat) (es : Entries) (ts : List (Tree × Tree)) : Prop where
  encloses : w.Encloses .sparing
  shows : w.ShowsEntries es ts
  sprouts : w.Sprouts lo w.size (es.map (·.2))
  keys : ∀ e ∈ es, w.Inert e.1

theorem FreshEntries.newMapping {lo : Nat} {es : Entries} {ts : List (Tree × Tree)}
    (h : FreshEntries w lo es ts) :
    (Build.newMapping es).Gives w fun u w' => Fresh w' lo u (.mapping ts) := by
  have opened : OpenEntries .sparing w es := fun e he =>
    ⟨h.keys e he, (h.shows.tree.1 e he).2.has.open_sparing⟩
  refine ((newMapping_gives h.encloses.tidy.owned h.shows).and_keeps
    (newMapping_grown ⟨opened, fun _ => h.sprouts⟩) h.encloses).mono ?_
  rintro u w' - ⟨⟨hu, -⟩, hw', grown⟩
  exact ⟨hw', hu, grown.sprout trivial⟩

/-- The schemas are emitted one after the other. -/
theorem componentSection_gives (hw : w.Encloses .sparing) (h : w.IsSchemas m) :
    (componentSection (.str "schemas") m).Gives w fun p w' =>
      p.1 = .str "schemas" ∧ Fresh w' w.size p.2 (w.tree m).plain := by
  obtain ⟨es, hm, schemas⟩ := h.mapping
  obtain ⟨a, rfl, hg⟩ := Value.eq_obj_of_mapping? hm
  have key (e : Value × Value) (he : e ∈ es) : w.IsData e.1 :=
    h.writable.data.part (hg ▸ Object.mem_parts_key he)
  have schema (e : Value × Value) (he : e ∈ es) : w.IsData e.2 :=
    h.writable.data.part (hg ▸ Object.mem_parts_value he)
  have shown (e : Value × Value) (he : e ∈ es) (w' : World) (k : w.Extends w') :
      (Node.emit e.2).Gives w' fun u w'' => w''.Shows u (w.tree e.2).plain := by
    rw [← ((schema e he).extends k).2]
    exact Node.emit_gives (hw.tidy.owned.extends k) ((schema e he).extends k).1
      ((schemas e he).extends k)
  have grown (e : Value × Value) (he : e ∈ es) (w' : World) (k : w.Extends w') :
      (Node.emit e.2).Keeps (Encloses .sparing) w' fun u w'' => w''.Grown .sparing w'.size u :=
    Node.emit_grown ((schema e he).extends k).1.has.open_sparing
  have emitted := (Gives.mapM_entries (·.1) (fun e => w.tree e.1) (fun e => (w.tree e.2).plain)
    (fun e he => (key e he).shows) shown).and_keeps
    (Keeps.mapM_entries (·.1) (hw.tidy.keys a es hg) grown) hw
  refine .get_bind ?_
  simp only [sameKey_str, decide_true, if_true]
  refine (Value.items_reads hm).bind (emitted.bind ?_)
  rintro fs w₁ k ⟨hfs, hw₁, entries⟩
  have fresh : FreshEntries w₁ w.size fs (es.map fun e => (w.tree e.1, (w.tree e.2).plain)) :=
    ⟨hw₁, hfs, entries.sprouts trivial, fun e he => (entries.entries e he).1⟩
  refine fresh.newMapping.bind fun u w₂ _ hu => .pure ⟨rfl, ?_⟩
  rw [h.writable.data.tree_mapping hg, Tree.plain, Tree.plainEntries_eq, List.map_map]
  exact hu

/-- A copy of a new value is as new. -/
theorem Fresh.copy {lo : Nat} {v : Value} {t : Tree} (h : Fresh w lo v t) :
    v.copy.Gives w fun u w' => Fresh w' w.size u t := by
  cases v with
  | atom a => exact .pure ⟨h.encloses, h.shows, w.sprout_atom _ _ a⟩
  | obj a =>
      have ho := h.encloses.tidy.owned
      refine ((h.shows.1.copyObject ho).and_keeps (copyObject_grown h.shows.1.lt_size
        fun _ _ => h.sprout.toUnshared) h.encloses).bind ?_
      rintro b w' - ⟨⟨data, tree⟩, hw', grown⟩
      exact .pure ⟨hw', ⟨data, tree.trans h.shows.2⟩, grown.sprout trivial⟩

theorem empty_gives (hw : w.Encloses .sparing) :
    Build.Gives (do (← newMapping []).copy) w fun u w' => Fresh w' w.size u (.record []) := by
  have none : FreshEntries w w.size [] [] := ⟨hw, .nil, .nil (Nat.le_refl _), by simp⟩
  exact none.newMapping.bind fun u w₁ k hu => hu.copy.mono fun x w₂ _ hx =>
    ⟨hx.encloses, hx.shows, hx.sprout.mono k.size (Nat.le_refl _)⟩

theorem components_gives {c : Addr} (hw : w.Encloses .sparing)
    (hc : w.get c = .mapping [(.str "schemas", m)]) (h : w.IsSchemas m) :
    (components (.obj c)).Gives w fun u w' =>
      Fresh w' w.size u (.record [("schemas", (w.tree m).plain)]) := by
  have read : (Value.obj c).mapping? w = some [(.str "schemas", m)] := by simp [Value.mapping?, hc]
  refine (Value.items_reads read).bind ?_
  simp only [List.mapM_cons, List.mapM_nil, pure_bind, bind_assoc]
  refine (componentSection_gives hw h).bind ?_
  rintro ⟨_, u⟩ w₁ k ⟨rfl, hu⟩
  have single : w₁.Sprouts w.size w₁.size [u] := .cons k.size hu.sprout (.nil (Nat.le_refl _))
  refine FreshEntries.newMapping ⟨hu.encloses, ?_, single, ?_⟩
  · exact .cons ⟨shows_atom _ _, hu.shows⟩ .nil
  · simp [Inert.atom]

theorem ofSchemas_gives (title version : String) (hw : w.Encloses .sparing) (h : w.IsSchemas m) :
    (ofSchemas title version m).Gives w fun d w' =>
      Fresh w' w.size d (.record (shownSchemas title version (w.tree m))) := by
  have single : OpenEntries .sparing w [(.str "schemas", m)] := by
    simpa [OpenEntries, Inert.atom] using h.writable.data.has.open_sparing
  rw [ofSchemas_eq]
  refine (Gives.new (Q := fun c w' => w'.get c = .mapping [(.str "schemas", m)] ∧
    w'.Encloses .sparing) ⟨w.get_alloc_same _, (hw.alloc (.mapping single)).1⟩).bind
    fun c w₁ k₁ made => ?_
  obtain ⟨hc, hw₁⟩ := made
  have titled : FreshEntries w₁ w₁.size
      (Entries.named [("title", .str title), ("version", .str version)])
      [(.str "title", .str title), (.str "version", .str version)] := by
    refine ⟨hw₁, ?_, ?_, by simp [Entries.named, Inert.atom]⟩
    · exact .cons ⟨shows_atom _ _, shows_atom _ _⟩ (.cons ⟨shows_atom _ _, shows_atom _ _⟩ .nil)
    · exact .cons (Nat.le_refl _) (sprout_atom _ _ _ _)
        (.cons (Nat.le_refl _) (sprout_atom _ _ _ _) (.nil (Nat.le_refl _)))
  refine titled.newMapping.bind fun info w₂ k₂ hinfo => ?_
  refine (empty_gives hinfo.encloses).bind fun paths w₃ k₃ hpaths => ?_
  have k₁₃ := (k₁.trans k₂).trans k₃
  have hc₃ : w₃.get c = .mapping [(.str "schemas", m)] :=
    ((k₂.trans k₃).get c (lt_size_of_mapping hc)).trans hc
  refine (components_gives hpaths.encloses hc₃ (h.extends k₁₃)).bind fun parts w₄ k₄ hparts => ?_
  rw [(h.writable.data.extends k₁₃).2] at hparts
  refine (empty_gives hparts.encloses).bind fun x w₅ k₅ hx => ?_
  obtain ⟨b, es, rfl, hb, hes⟩ := hx.shows.mapping
  obtain rfl : es = [] := List.forall₂_nil_right_iff.mp hes
  have read : (Value.obj b).mapping? w₅ = some [] := by simp [Value.mapping?, hb]
  refine (Value.further_reads read).bind (.get_bind ?_)
  rw [Entries.overlay_nil]
  have whole : FreshEntries w₅ w₁.size (Entries.named [("openapi", .str defaultVersion),
      ("info", info), ("paths", paths), ("components", parts)])
      ((shownSchemas title version (w.tree m)).map fun f => (.str f.1, f.2)) := by
    refine ⟨hx.encloses, ?_, ?_, by simp [Entries.named, Inert.atom]⟩
    · have key (s : String) : w₅.Shows (.str s) (.str s) := shows_atom _ _
      exact .cons ⟨key _, key _⟩ (.cons ⟨key _, hinfo.shows.extends ((k₃.trans k₄).trans k₅)⟩
        (.cons ⟨key _, hpaths.shows.extends (k₄.trans k₅)⟩
          (.cons ⟨key _, hparts.shows.extends k₅⟩ .nil)))
    · exact .cons (Nat.le_refl _) (sprout_atom _ _ _ _)
        (.cons k₂.size (hinfo.sprout.extends ((k₃.trans k₄).trans k₅))
          (.cons k₃.size (hpaths.sprout.extends (k₄.trans k₅))
            (.cons k₄.size (hparts.sprout.extends k₅) (.nil k₅.size))))
  exact whole.newMapping.mono fun d w₆ _ hd =>
    ⟨hd.encloses, hd.shows, hd.sprout.mono k₁.size (Nat.le_refl _)⟩

theorem shownSchemas_writable (title version : String) {t : Tree} (h : t.Writable) :
    (Tree.record (shownSchemas title version t)).Writable := by
  have text (s : String) : (Tree.str s).Writable := .atom (by simp)
  refine .record ?_
  simp only [shownSchemas, List.mem_cons, List.not_mem_nil, or_false, forall_eq_or_imp, forall_eq]
  exact ⟨text _, .record (by simp [text]), .record (by simp), .record (by simpa using h.plain)⟩

/-- The text of schemas is that of an unmarked form, which is the same for all schemas whose plain
views are the same. -/
theorem textOfSchemas_gives (title version : String) (hw : w.Encloses .sparing)
    (h : w.IsSchemas m) {fs : List (Yaml.Form × Yaml.Form)}
    (shown : Yaml.Form.ofTree (.record (shownSchemas title version (w.tree m))) =
      .mapping none fs) :
    (textOfSchemas title version m).Gives w fun u _ => u = .str (Yaml.Form.document fs) := by
  refine (ofSchemas_gives title version hw h).bind fun d w₁ k hd => ?_
  have called : Call.render.call [d, .str "yaml"] [] =
      (do return .str (← render d (.str "yaml"))) := rfl
  have tree := shownSchemas_writable title version h.writable.tree
  have writable : w₁.Writable d := ⟨hd.shows.1, hd.shows.2.symm ▸ tree⟩
  rw [called]
  refine (render_yaml_unshared writable hd.shows.2 hd.sprout.toUnshared
    hd.encloses.tidy.owned).bind fun text w₂ _ ht => .pure ?_
  obtain rfl := (Yaml.Form.mapping.inj shown).2
  exact congrArg _ ht

end Document

namespace Session

variable {load : Value → Build Value} {cs : List Command}

theorem start_sparing : start.Guarded .sparing where
  encloses := initial_tidy.encloses_sparing fun a f o hg => by
    obtain ⟨c, hc⟩ := initial_get a (lt_size_of_get hg (by simp))
    simp [hc] at hg
  held v hv := (start_guarded.held v hv).has.open_sparing

/-- If nothing is written to the fragments of nodes, they are unshared. -/
theorem run_sparing (h : start.Follows load (fun _ => False) cs)
    (hs : start.SparesFragments load cs) : (start.run load cs).world.Encloses .sparing := by
  obtain ⟨E, widens, guarded, -⟩ := run_guarded start_sparing h fun _ => hs
  have spared : E.spared := widens.spared ▸ trivial
  exact guarded.encloses.tidy.encloses_sparing (guarded.encloses.untangled spared)

/-- Whatever a program does that writes to no fragment: fragments, schemas and emitted values are
unshared, and the YAML text of schemas has no marks and is the same as that of any schemas that have
the same plain view, whatever those share. -/
theorem schemas_unshared (load : Value → Build Value) {cs : List Command}
    (h : start.Follows load (fun _ => False) cs) (hs : start.SparesFragments load cs) :
    let w := (start.run load cs).world
    (∀ a f o, w.get a = .node f o → w.Unshared (.obj f) ∧
      (Node.schema f).Gives w fun u w' => w'.Unshared u) ∧
    (∀ x, w.IsData x → w.IsSchema x →
      (Node.emit x).Gives w fun u w' => w'.Unshared u ∧ w'.tree u = (w.tree x).plain) ∧
    ∀ m, w.IsSchemas m → ∀ title version, ∃ fs, (Yaml.Form.mapping none fs).Unmarked ∧
      ∀ m', w.IsSchemas m' → (w.tree m').plain = (w.tree m).plain →
        (Document.textOfSchemas title version m').Gives w fun u _ =>
          u = .str (Yaml.Form.document fs) := by
  have hw := run_sparing h hs
  have ho := hw.tidy.owned
  refine ⟨fun a f o hg => ⟨hw.untangled trivial a f o hg, ?_⟩, fun x data schema => ?_,
    fun m _ title version => ?_⟩
  · have held : f < (start.run load cs).world.size :=
      hw.tidy.part a f (by simp [Holds, hg, Object.parts])
    refine ((hw.tidy.schema held).and_keeps (Node.schema_grown hg) hw).mono ?_
    rintro u w' - ⟨-, -, grown⟩
    exact (grown.sprout trivial).toUnshared
  · refine ((Node.emit_gives ho data schema).and_keeps
      (Node.emit_grown data.has.open_sparing) hw).mono ?_
    rintro u w' - ⟨shows, -, grown⟩
    exact ⟨(grown.sprout trivial).toUnshared, shows.2⟩
  · refine ⟨_, Yaml.Form.ofTree_unmarked
      (.record (Document.shownSchemas title version ((start.run load cs).world.tree m))),
      fun m' hm' same => Document.textOfSchemas_gives title version hw hm' ?_⟩
    rw [Document.shownSchemas, same]
    rfl

end Session

/-! ### A program that shares -/

namespace World

variable {w : World}

/-- These objects are not left on ways through fragments. -/
def confines (w : World) (S : List Addr) : Bool :=
  ((List.range w.size).all fun a => match w.get a with | .node f _ => S.contains f | _ => true) &&
    S.all fun a => (w.get a).children.all fun v => match v with | .obj b => S.contains b | _ => true

theorem not_inFragment_of_confines {S : List Addr} (h : w.confines S) {b : Addr} (hb : b ∉ S) :
    ¬ w.InFragment b := by
  simp only [confines, Bool.and_eq_true, List.all_eq_true] at h
  obtain ⟨fragments, closed⟩ := h
  have inside {way : List Nat} {a c : Addr} (ha : a ∈ S)
      (hc : w.follow way (.obj a) = some (.obj c)) : c ∈ S := by
    induction way generalizing a with
    | nil =>
        obtain rfl : a = c := by simpa using hc
        exact ha
    | cons i way ih =>
        obtain ⟨v, hv, hc⟩ := follow_cons_eq hc
        cases v with
        | atom x => cases follow_atom hc
        | obj d => exact ih (by simpa using closed a ha _ (List.mem_of_getElem? hv)) hc
  rintro ⟨a, f, o, way, hg, hf⟩
  have root := fragments a (List.mem_range.mpr (lt_size_of_get hg (by simp)))
  exact hb (inside (by simpa [hg] using root) hf)

end World

/-- If the command writes to an object, these objects confine the fragments, and it is none of
them. -/
def Command.confines (w : World) (S : List Addr) : Command → Bool
  | .call .setItem (.obj a :: _) _ => w.confines S && !S.contains a
  | _ => true

theorem Command.sparesFragments_of_confines {w : World} {S : List Addr} {c : Command}
    (h : c.confines w S) : c.SparesFragments w := by
  unfold SparesFragments
  split
  · simp only [confines, Bool.and_eq_true, Bool.not_eq_true', List.contains_eq_mem,
      decide_eq_false_iff_not] at h
    exact not_inFragment_of_confines h.1 h.2
  · trivial

namespace Session

/-- The objects confine the fragments whenever something is written to. -/
def confines (load : Value → Build Value) (S : List Addr) : Session → List Command → Bool
  | _, [] => true
  | s, c :: cs => c.confines s.world S && confines load S (s.next load c) cs

theorem sparesFragments_of_confines {load : Value → Build Value} {S : List Addr} {s : Session}
    {cs : List Command} (h : s.confines load S cs) : s.SparesFragments load cs := by
  induction cs generalizing s with
  | nil => trivial
  | cons c cs ih =>
      rw [confines, Bool.and_eq_true] at h
      exact ⟨Command.sparesFragments_of_confines h.1, ih h.2⟩

/-- A date stands twice in a mapping, a node is made with the mapping, and both are given twice to a
mapping of schemas. -/
def sharing : List Command := [
  .moment (.date ⟨2020, 1, 2⟩),
  .mapping,
  .call .setItem [.obj 17, .str "since", .obj 16] [],
  .call .setItem [.obj 17, .str "until", .obj 16] [],
  .call (.construct .string .asBuilt) [] [("extra", .obj 17)],
  .mapping,
  .call .setItem [.obj 23, .str "a", .obj 22] [],
  .call .setItem [.obj 23, .str "b", .obj 22] [],
  .call .setItem [.obj 23, .str "c", .obj 17] [],
  .call .setItem [.obj 23, .str "d", .obj 17] []]

theorem schemas_unshared_sharing :
    let w := (start.run pure sharing).world
    w.follow [2, 0] (.obj 23) = w.follow [3, 1] (.obj 23) ∧
      ∃ fs, (Yaml.Form.mapping none fs).Unmarked ∧
        (Document.textOfSchemas "t" "1" (.obj 23)).Gives w fun u _ =>
          u = .str (Yaml.Form.document fs) := by
  have follows : start.Follows pure (fun _ => False) sharing := by decide +kernel
  have confined : start.confines pure [19, 20, 21] sharing := by decide +kernel
  have writable : (start.run pure sharing).world.writableTo 5 (.obj 23) := by decide +kernel
  have mapping : (Value.obj 23).mapping? (start.run pure sharing).world = some
      [(.str "a", .obj 22), (.str "b", .obj 22), (.str "c", .obj 17), (.str "d", .obj 17)] := by
    decide +kernel
  have inner : (Value.obj 17).mapping? (start.run pure sharing).world = some
      [(.str "since", .obj 16), (.str "until", .obj 16)] := by decide +kernel
  have parts : Node.parts? (start.run pure sharing).world (.obj 22) = some (21, false) := by
    decide +kernel
  have node : (start.run pure sharing).world.IsSchema (.obj 22) := by
    obtain ⟨a, ha, hg⟩ := Node.parts?_eq parts
    exact ⟨a, ha, .inl ⟨_, _, hg⟩⟩
  have plain : (start.run pure sharing).world.IsSchema (.obj 17) := by
    obtain ⟨a, ha, hg⟩ := Value.eq_obj_of_mapping? inner
    exact ⟨a, ha, .inr ⟨_, hg⟩⟩
  have schemas : (start.run pure sharing).world.IsSchemas (.obj 23) :=
    ⟨.of_writableTo writable, _, mapping, by simp [node, plain]⟩
  obtain ⟨-, -, texts⟩ := schemas_unshared pure follows (sparesFragments_of_confines confined)
  obtain ⟨fs, unmarked, same⟩ := texts (.obj 23) schemas "t" "1"
  refine ⟨by decide +kernel, fs, unmarked, same _ schemas rfl⟩

end Session
end OpenApiDoc
