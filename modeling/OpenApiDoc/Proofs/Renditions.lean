import OpenApiDoc.Proofs.Gathering
import OpenApiDoc.Proofs.Views

/-! # The views of what helpers assemble

The view of a response, a request body, a map of paths or a document, as a function of the views of
what it is made of.

* `Response.response?` and `Response.body?`, with the media type in `Response.MediaView`.
* `Paths.view?` goes through the bindings; each operation stands in it as it is written.
* `Document.view?` lays the extra entries over the generated ones. -/

namespace OpenApiDoc

open World Build

variable {w w' : World} {v : Value} {t : Tree}

/-! ### Fields -/

namespace Tree

/-- A field that is left out when nothing is given for it. -/
def field? (name : String) (t : Tree) (make : Tree → Option Tree) : Option (List (String × Tree)) :=
  if t.isNone then some [] else (make t).map fun u => [(name, u)]

/-- The view is that of an optional node. -/
def isOptional : Tree → Bool
  | .model .node [_, (_, .bool o)] => o
  | _ => false

end Tree

/-- The fields show the views under the same names. -/
abbrev World.ShowsFields (w : World) (fs : List (String × Value)) (ts : List (String × Tree)) :
    Prop :=
  Entries.Paired w.Shows fs ts

theorem isNone_eq (h : w.Shows v t) : v.isNone = t.isNone := by
  cases v with
  | atom a =>
      obtain rfl : Tree.atom a = t := by simpa using h.2
      cases a <;> rfl
  | obj a =>
      have view := h.obj
      cases hg : w.get a <;> rw [hg] at view <;> cases view <;> rfl

theorem isOptional_eq (h : w.Shows v t) : Node.isOptional w v = t.isOptional := by
  by_cases node : ∃ fs, t = .model .node fs
  · obtain ⟨fs, rfl⟩ := node
    obtain ⟨f, o, hp, rfl, -⟩ := Node.parts?_of_model h
    simp [Node.isOptional, hp, Tree.isOptional]
  · rw [not_exists] at node
    rw [Node.isOptional, Node.parts?_of_other h node]
    cases t with
    | model m fs =>
        cases m with
        | node => exact absurd rfl (node fs)
        | operation => rfl
    | _ => rfl

theorem optionalField_denotes {name : String} {make : Value → Build Value}
    {view : Tree → Option Tree} (h : w.Shows v t) (hm : (make v).Denotes w Shows (view t)) :
    (optionalField name v make).Denotes w ShowsFields (t.field? name view) := by
  rw [optionalField, Tree.field?, isNone_eq h]
  by_cases none : t.isNone
  · simp only [none, if_true]
    exact Gives.denotes (.pure .nil)
  · simp only [none]
    exact hm.map fun u w₁ s _ _ hu => .pure (.cons ⟨rfl, hu⟩ .nil)

/-- A field that takes over what is given. -/
theorem givenField_denotes {name : String} (h : w.Shows v t) :
    (optionalField name v pure).Denotes w ShowsFields (t.field? name some) :=
  optionalField_denotes h (Gives.denotes (.pure h))

theorem record_shows (ho : w.Owned) {fs : List (String × Value)} {ts : List (String × Tree)}
    (h : w.ShowsFields fs ts) : (record fs).Gives w fun u w' => w'.Shows u (.record ts) :=
  (newMapping_gives ho (showsEntries_named h)).mono fun _ _ _ hu => hu.1

theorem note_gives (logger message : String) :
    (Build.record logger message).Gives w fun _ _ => True :=
  ⟨(), _, rfl, ⟨Nat.le_refl _, fun _ _ => rfl, rfl⟩, trivial⟩

/-! ### Responses and bodies -/

namespace Response

/-- The views of the parts of a media type. -/
structure MediaView where
  schema : Tree
  examples : Tree
  encoding : Tree

def MediaView.of (w : World) (m : Media) : MediaView :=
  ⟨w.tree m.schema, w.tree m.examples, w.tree m.encoding⟩

/-- What a media type is made of is data. -/
structure Media.IsData (w : World) (m : Media) : Prop where
  schema : w.IsData m.schema
  examples : w.IsData m.examples
  encoding : w.IsData m.encoding

def MediaView.build? (m : MediaView) : Option Tree := do
  let schema ← m.schema.field? "schema" Tree.emit?
  let examples ← m.examples.field? "examples" Tree.detached?
  let encoding ← m.encoding.field? "encoding" Tree.detached?
  return .record (schema ++ examples ++ encoding)

def content? (type : Tree) (m : MediaView) : Option Tree := do
  let media ← m.build?
  let _ ← type.key?
  return .mapping [(type, media)]

def response? (description type headers links : Tree) (m : MediaView) : Option Tree := do
  let description ← description.field? "description" some
  let headers ← headers.field? "headers" Tree.detached?
  let links ← links.field? "links" Tree.detached?
  let content ← content? type m
  return .record (description ++ headers ++ links ++ [("content", content)])

def body? (type description required : Tree) (m : MediaView) : Option Tree := do
  let needed := if required.isNone then .bool (!m.schema.isOptional) else required
  let description ← description.field? "description" some
  let content ← content? type m
  return .record (description ++ [("required", needed), ("content", content)])

variable {m : Media} (ho : w.Owned) (hm : m.IsData w)

include hm in
theorem Media.IsData.extends (k : w.Extends w') :
    m.IsData w' ∧ MediaView.of w' m = MediaView.of w m := by
  refine ⟨⟨(hm.schema.extends k).1, (hm.examples.extends k).1, (hm.encoding.extends k).1⟩, ?_⟩
  simp only [MediaView.of, (hm.schema.extends k).2, (hm.examples.extends k).2,
    (hm.encoding.extends k).2]

include ho hm

theorem Media.build_denotes : m.build.Denotes w Shows (MediaView.of w m).build? := by
  refine (optionalField_denotes hm.schema.shows (Node.emit_denotes ho hm.schema.shows)).bind
    fun fs w₁ ts _ k₁ hfs => ?_
  have ho₁ := ho.extends k₁
  have examples := hm.examples.shows.extends k₁
  refine (optionalField_denotes examples (detached_denotes ho₁ examples)).bind
    fun gs w₂ us _ k₂ hgs => ?_
  have ho₂ := ho₁.extends k₂
  have encoding := hm.encoding.shows.extends (k₁.trans k₂)
  refine (optionalField_denotes encoding (detached_denotes ho₂ encoding)).bind
    fun hs w₃ vs _ k₃ hhs => ?_
  exact Gives.denotes (record_shows (ho₂.extends k₃) (List.rel_append (List.rel_append
    (paired_extends hfs (k₂.trans k₃)) (paired_extends hgs k₃)) hhs))

theorem content_denotes {type : Value} (ht : w.IsData type) :
    (content type m).Denotes w Shows (content? (w.tree type) (MediaView.of w m)) := by
  refine (Media.build_denotes ho hm).bind fun media w₁ s _ k₁ hmedia => ?_
  have type := ht.shows.extends k₁
  refine (Value.requireKey_denotes type).bind fun _ w₂ _ _ k₂ _ => Gives.denotes ?_
  refine (newMapping_gives ((ho.extends k₁).extends k₂) ?_).mono fun _ _ _ hu => hu.1
  exact .cons ⟨type.extends k₂, hmedia.extends k₂⟩ .nil

theorem response_denotes {description type headers links : Value} (hd : w.IsData description)
    (ht : w.IsData type) (hh : w.IsData headers) (hl : w.IsData links) :
    (response description type headers links m).Denotes w Shows (response? (w.tree description)
      (w.tree type) (w.tree headers) (w.tree links) (MediaView.of w m)) := by
  refine (givenField_denotes hd.shows).bind fun ds w₁ dt _ k₁ hds => ?_
  have ho₁ := ho.extends k₁
  have headers := hh.shows.extends k₁
  refine (optionalField_denotes headers (detached_denotes ho₁ headers)).bind
    fun hs w₂ hts _ k₂ hhs => ?_
  have ho₂ := ho₁.extends k₂
  have links := hl.shows.extends (k₁.trans k₂)
  refine (optionalField_denotes links (detached_denotes ho₂ links)).bind
    fun ls w₃ lts _ k₃ hls => ?_
  have k := (k₁.trans k₂).trans k₃
  have content := content_denotes (ho₂.extends k₃) (hm.extends k).1 (ht.extends k).1
  rw [(hm.extends k).2, (ht.extends k).2] at content
  refine content.bind fun c w₄ ct _ k₄ hc => Gives.denotes ?_
  exact record_shows ((ho₂.extends k₃).extends k₄) (List.rel_append (List.rel_append (List.rel_append
    (paired_extends hds ((k₂.trans k₃).trans k₄)) (paired_extends hhs (k₃.trans k₄)))
    (paired_extends hls k₄)) (.cons ⟨rfl, hc⟩ .nil))

theorem body_denotes {type description required : Value} (ht : w.IsData type)
    (hd : w.IsData description) (hr : w.IsData required) :
    (body type description required m).Denotes w Shows (body? (w.tree type) (w.tree description)
      (w.tree required) (MediaView.of w m)) := by
  refine .get_bind ((givenField_denotes hd.shows).bind fun ds w₁ dt _ k₁ hds => ?_)
  have content := content_denotes (ho.extends k₁) (hm.extends k₁).1 (ht.extends k₁).1
  rw [(hm.extends k₁).2, (ht.extends k₁).2] at content
  refine content.bind fun c w₂ ct _ k₂ hc => Gives.denotes ?_
  have needed : w₂.Shows
      (if required.isNone then .bool (!Node.isOptional w m.schema) else required)
      (if (w.tree required).isNone then .bool (!(w.tree m.schema).isOptional)
        else w.tree required) := by
    rw [isNone_eq hr.shows, isOptional_eq hm.schema.shows]
    split
    · exact shows_atom _ _
    · exact hr.shows.extends (k₁.trans k₂)
  exact record_shows ((ho.extends k₁).extends k₂) (List.rel_append (paired_extends hds k₂)
    (.cons ⟨rfl, needed⟩ (.cons ⟨rfl, hc⟩ .nil)))

end Response

/-! ### Maps of paths -/

namespace Paths

/-- What has been gathered, with the views of the operation objects. -/
structure Sketch where
  paths : List (String × List (String × Tree))
  owners : List ((String × String) × Value)

def Sketch.add (g : Sketch) (path method : String) (name : Value) (operation : Tree) : Sketch where
  paths :=
    let methods := (g.paths.lookup path).getD []
    Entries.insert (· == ·) g.paths path (Entries.insert (· == ·) methods method operation)
  owners := g.owners ++ [((path, method), name)]

/-- Add the view of one bound operation. -/
def step? (w : World) (g : Sketch) (e : Value × Value) : Option Sketch := do
  let op ← Operation.of? w e.2
  let method := Text.lower op.method
  if (g.owners.lookup (op.path, method)).isSome then none
  else return g.add op.path method e.1 (op.written w e.1)

/-- The view of the map of some bindings. -/
def view? (w : World) (es : Entries) : Option Tree := do
  let g ← es.foldlM (step? w) ⟨[], []⟩
  return .record (g.paths.map fun p => (p.1, .record p.2))

def Gathered.Shows (w : World) (g : Gathered) (s : Sketch) : Prop :=
  Entries.Paired w.ShowsFields g.paths s.paths ∧ g.owners = s.owners

theorem Gathered.Shows.extends {g : Gathered} {s : Sketch} (h : g.Shows w s) (k : w.Extends w') :
    g.Shows w' s :=
  ⟨h.1.imp fun _ _ hp => ⟨hp.1, paired_extends hp.2 k⟩, h.2⟩

theorem Gathered.Shows.add {g : Gathered} {s : Sketch} (h : g.Shows w s) (path method : String)
    (name : Value) {u : Value} {object : Tree} (hu : w.Shows u object) :
    (g.add path method name u).Shows w (s.add path method name object) := by
  refine ⟨Entries.Paired.insert h.1 path (Entries.Paired.insert ?_ method hu), by
    simp [Gathered.add, Sketch.add, h.2]⟩
  have methods := h.1.lookup path
  cases hg : g.paths.lookup path <;> cases hs : s.paths.lookup path <;> rw [hg, hs] at methods <;>
    cases methods
  · exact .nil
  · assumption

/-- The entries are data, and the operations among them have lists as their tags and mappings as
their extra entries. -/
structure Bindings (w : World) (es : Entries) : Prop where
  names : ∀ e ∈ es, w.IsData e.1
  values : ∀ e ∈ es, w.IsData e.2
  operations : ∀ e ∈ es, ∀ op, Operation.of? w e.2 = some op → w.IsOperation e.2 op

theorem of?_extends (k : w.Extends w') (hv : w.IsData v) :
    Operation.of? w' v = Operation.of? w v :=
  of?_grows k.grows fun _ ha => (ha ▸ hv).lt_size

theorem Bindings.extends {es : Entries} (h : Bindings w es) (k : w.Extends w') : Bindings w' es where
  names e he := ((h.names e he).extends k).1
  values e he := ((h.values e he).extends k).1
  operations e he op found :=
    (h.operations e he op (of?_extends k (h.values e he) ▸ found)).grows k.grows

/-- The view of a map of paths does not change while the store grows. -/
theorem view?_extends {es : Entries} (h : Bindings w es) (k : w.Extends w') :
    view? w' es = view? w es := by
  have same (s : Sketch) {e : Value × Value} (he : e ∈ es) : step? w' s e = step? w s e := by
    rw [step?, step?, of?_extends k (h.values e he)]
    refine Option.bind_congr fun op found => ?_
    rw [Operation.written_grows (h.operations e he op found) (h.names e he) k.grows]
  suffices ∀ fs ⊆ es, ∀ s, fs.foldlM (step? w') s = fs.foldlM (step? w) s by
    rw [view?, view?, this es (List.Subset.refl es)]
  intro fs
  induction fs with
  | nil => exact fun _ _ => rfl
  | cons e fs ih =>
      intro sub s
      rw [List.foldlM_cons, List.foldlM_cons, same s (sub (by simp))]
      exact Option.bind_congr fun s' _ => ih (fun f hf => sub (by simp [hf])) s'

theorem step_denotes (ho : w.Owned) {es : Entries} (h : Bindings w es) {e : Value × Value} (he : e ∈ es)
    {g : Gathered} {s : Sketch} (k : w.Extends w') (hg : g.Shows w' s) :
    (step g e).Denotes w' (fun w g s => g.Shows w s) (step? w s e) := by
  refine .get_bind ?_
  rw [of?_extends k (h.values e he), step?]
  cases found : Operation.of? w e.2 with
  | none => exact .throw _
  | some op =>
      simp only [hg.2, Option.bind_eq_bind, Option.bind_some]
      cases s.owners.lookup (op.path, Text.lower op.method) with
      | some first => exact .throw _
      | none =>
          have operation := h.operations e he op found
          have name := h.names e he
          have emitted := Operation.emit_gives (ho.extends k) (operation.grows k.grows)
            (name.extends k).1
          rw [Operation.written_grows operation name k.grows] at emitted
          refine Gives.denotes (emitted.bind fun u w₁ k₁ hu => .get_bind ?_)
          refine (note_gives _ _).bind fun _ w₂ k₂ _ => .pure ?_
          exact (hg.extends (k₁.trans k₂)).add _ _ _ (hu.extends k₂)

/-- New mappings under the templates. -/
theorem templates_gives (ho : w.Owned) {ps : List (String × List (String × Value))}
    {ts : List (String × List (String × Tree))} (h : Entries.Paired w.ShowsFields ps ts) :
    Build.Gives (ps.mapM fun p : String × List (String × Value) => do
      return (p.1, ← OpenApiDoc.record p.2)) w fun us w' =>
        w'.ShowsFields us (ts.map fun t => (t.1, .record t.2)) := by
  induction ps generalizing w ts with
  | nil =>
      cases h
      exact .pure .nil
  | cons p ps ih =>
      obtain ⟨t, ts, ⟨hn, hp⟩, hps, rfl⟩ := List.forall₂_cons_left_iff.mp h
      rw [List.mapM_cons, bind_assoc]
      refine (record_shows ho hp).bind fun u w₁ k₁ hu => ?_
      have later := hps.imp fun _ _ hq => And.intro hq.1 (paired_extends hq.2 k₁)
      refine (ih (ho.extends k₁) later).bind fun us w₂ k₂ hus => .pure ?_
      exact .cons ⟨hn, hu.extends k₂⟩ hus

theorem build_denotes (ho : w.Owned) {operations : Value} {es : Entries}
    (hm : operations.mapping? w = some es) (h : Bindings w es) :
    (build operations).Denotes w World.Shows (view? w es) := by
  have walked : (es.foldlM step Gathered.empty).Denotes w (fun w g s => g.Shows w s)
      (es.foldlM (step? w) ⟨[], []⟩) :=
    Denotes.foldlM ⟨.nil, rfl⟩ fun e he g s w₁ k hg => step_denotes ho h he k hg
  refine (Value.items_reads hm).denotes_bind (walked.bind fun g w₁ s _ k hg => Gives.denotes ?_)
  refine (note_gives _ _).bind fun _ w₂ k₂ _ => ?_
  have ho₂ := ho.extends (k.trans k₂)
  exact (templates_gives ho₂ (hg.extends k₂).1).bind fun ps w₃ k₃ hps =>
    record_shows (ho₂.extends k₃) hps

end Paths

/-! ### Documents -/

namespace Document

/-- The views of the arguments of a document. -/
structure ArgumentViews where
  title : Tree
  version : Tree
  paths : Tree
  components : Tree
  openapi : Tree
  description : Tree
  servers : Tree
  extra : Tree

def ArgumentViews.of (w : World) (a : Arguments) : ArgumentViews where
  title := w.tree a.title
  version := w.tree a.version
  paths := w.tree a.paths
  components := w.tree a.components
  openapi := w.tree a.openapi
  description := w.tree a.description
  servers := w.tree a.servers
  extra := w.tree a.extra

/-- What a document is made of is data. -/
structure Arguments.IsData (w : World) (a : Arguments) : Prop where
  title : w.IsData a.title
  version : w.IsData a.version
  paths : w.IsData a.paths
  components : w.IsData a.components
  openapi : w.IsData a.openapi
  description : w.IsData a.description
  servers : w.IsData a.servers
  extra : w.IsData a.extra

theorem Arguments.IsData.extends {a : Arguments} (h : a.IsData w) (k : w.Extends w') :
    a.IsData w' ∧ ArgumentViews.of w' a = ArgumentViews.of w a := by
  refine ⟨⟨(h.title.extends k).1, (h.version.extends k).1, (h.paths.extends k).1,
    (h.components.extends k).1, (h.openapi.extends k).1, (h.description.extends k).1,
    (h.servers.extends k).1, (h.extra.extends k).1⟩, ?_⟩
  simp only [ArgumentViews.of, (h.title.extends k).2, (h.version.extends k).2,
    (h.paths.extends k).2, (h.components.extends k).2, (h.openapi.extends k).2,
    (h.description.extends k).2, (h.servers.extends k).2, (h.extra.extends k).2]

/-- One section of the components. -/
def section? (name entries : Tree) : Option (Tree × Tree) :=
  if name.same (.str "schemas") then do
    let es ← entries.items?
    let schemas ← es.mapM fun e => e.2.emit?.map fun schema => (e.1, schema)
    return (name, .mapping schemas)
  else some (name, entries)

def components? (t : Tree) : Option Tree := do
  let es ← t.items?
  let sections ← es.mapM fun e => section? e.1 e.2
  return .mapping sections

def ArgumentViews.info (a : ArgumentViews) : Tree :=
  .record ([("title", a.title), ("version", a.version)] ++
    if a.description.isNone then [] else [("description", a.description)])

/-- The view of a document. -/
def view? (a : ArgumentViews) : Option Tree := do
  let servers ← a.servers.field? "servers" some
  let paths ← a.paths.entriesOrEmpty?
  let parts ← a.components.field? "components" components?
  let extra ← a.extra.entriesOrEmpty?
  let fields := [("openapi", a.openapi), ("info", a.info)] ++ servers ++
    [("paths", .mapping paths)] ++ parts
  return .mapping (Entries.overlay Tree.same (fields.map fun f => (.str f.1, f.2)) extra)

theorem items_denotes (h : w.Shows v t) : v.items.Denotes w ShowsEntries t.items? := by
  refine .get_bind ?_
  cases hm : v.mapping? w with
  | some es =>
      obtain ⟨a, rfl, hg⟩ := Value.eq_obj_of_mapping? hm
      obtain ⟨_, _, ⟨⟩, hg', hes⟩ := (show w.Shows (.obj a) (.mapping _) from
        ⟨h.1, h.1.tree_mapping hg⟩).mapping
      obtain rfl : Tree.mapping _ = t := (h.1.tree_mapping hg).symm.trans h.2
      cases hg.symm.trans hg'
      exact Gives.denotes (.pure hes)
  | none =>
      have other : t.items? = none := by
        cases t with
        | mapping ts =>
            obtain ⟨a, es, rfl, hg, -⟩ := h.mapping
            simp [Value.mapping?, hg] at hm
        | _ => rfl
      rw [other]
      exact .lack v "items"

theorem detachedOrEmpty_denotes (ho : w.Owned) (h : w.Shows v t) :
    (detachedOrEmpty v).Denotes w (fun w u es => w.Shows u (.mapping es)) t.entriesOrEmpty? := by
  refine Option.bind_fun_some t.entriesOrEmpty? ▸ ?_
  exact (Value.entriesOrEmpty_denotes ho h).bind fun es w₁ ts _ k hes =>
    Gives.denotes (copied_gives (ho.extends k) hes)

/-- A section of schemas is emitted, any other is copied. -/
theorem section_denotes (ho : w.Owned) {name entries : Value} {key t : Tree} (hn : w.Shows name key)
    (h : w.Shows entries t) : (componentSection name entries).Denotes w
      (fun w p q => w.Shows p.1 q.1 ∧ w.Shows p.2 q.2) (section? key t) := by
  refine .get_bind ?_
  have same : w.sameKey name (.str "schemas") = key.same (.str "schemas") := by
    rw [sameKey, hn.2, tree_atom]
  rw [same, section?]
  by_cases schemas : key.same (.str "schemas")
  · rw [if_pos schemas, if_pos schemas]
    refine (items_denotes h).bind fun es w₁ ts _ k₁ hes => ?_
    have ho₁ := ho.extends k₁
    obtain ⟨data, rfl⟩ := hes.tree
    have emitted : Build.Denotes (es.mapM fun e => do return (e.1, ← Node.emit e.2)) w₁ ShowsEntries
        ((es.map fun e => (w₁.tree e.1, w₁.tree e.2)).mapM fun e =>
          e.2.emit?.map fun schema => (e.1, schema)) := by
      rw [List.mapM_map]
      refine Denotes.mapM_entries fun e he w₂ k => ?_
      have value := (data e he).2.shows.extends k
      refine (Node.emit_denotes (ho₁.extends k) value).map fun u w₃ s _ k' hu => .pure ⟨?_, hu⟩
      exact (data e he).1.shows.extends (k.trans k')
    refine emitted.bind fun fs w₂ us _ k₂ hfs => Gives.denotes ?_
    refine (newMapping_gives (ho₁.extends k₂) hfs).bind fun u w₃ k₃ hu => .pure ⟨?_, hu.1⟩
    exact hn.extends ((k₁.trans k₂).trans k₃)
  · rw [if_neg schemas, if_neg schemas]
    exact Gives.denotes ((Value.copy_gives ho h).bind fun u w₁ k hu => .pure ⟨hn.extends k, hu⟩)

theorem components_denotes (ho : w.Owned) (h : w.Shows v t) :
    (components v).Denotes w Shows (components? t) := by
  refine (items_denotes h).bind fun es w₁ ts _ k₁ hes => ?_
  have ho₁ := ho.extends k₁
  obtain ⟨data, rfl⟩ := hes.tree
  have sections : (es.mapM fun e => componentSection e.1 e.2).Denotes w₁ ShowsEntries
      ((es.map fun e => (w₁.tree e.1, w₁.tree e.2)).mapM fun e => section? e.1 e.2) := by
    rw [List.mapM_map]
    refine Denotes.mapM_entries fun e he w₂ k => ?_
    exact section_denotes (ho₁.extends k) ((data e he).1.shows.extends k)
      ((data e he).2.shows.extends k)
  refine sections.bind fun fs w₂ us _ k₂ hfs => Gives.denotes ?_
  exact (newMapping_gives (ho₁.extends k₂) hfs).mono fun _ _ _ hu => hu.1

theorem build_denotes (ho : w.Owned) {a : Arguments} (h : a.IsData w) :
    (build a).Denotes w Shows (view? (.of w a)) := by
  have described : w.ShowsFields
      (if a.description.isNone then [] else [("description", a.description)])
      (if (w.tree a.description).isNone then [] else [("description", w.tree a.description)]) := by
    rw [isNone_eq h.description.shows]
    split
    · exact .nil
    · exact .cons ⟨rfl, h.description.shows⟩ .nil
  have titled : w.ShowsFields [("title", a.title), ("version", a.version)]
      [("title", w.tree a.title), ("version", w.tree a.version)] :=
    .cons ⟨rfl, h.title.shows⟩ (.cons ⟨rfl, h.version.shows⟩ .nil)
  refine Gives.denotes_bind (record_shows ho (List.rel_append titled described))
    fun info w₁ k₁ (hinfo : w₁.Shows info (ArgumentViews.of w a).info) => ?_
  have ho₁ := ho.extends k₁
  have servers := h.servers.shows.extends k₁
  have copied : (optionalField "servers" a.servers Value.copy).Denotes w₁ ShowsFields
      ((w.tree a.servers).field? "servers" some) :=
    optionalField_denotes servers (Value.copy_gives ho₁ servers)
  refine copied.bind fun fs w₂ ts _ k₂ hfs => ?_
  have ho₂ := ho₁.extends k₂
  have k₁₂ := k₁.trans k₂
  refine (detachedOrEmpty_denotes ho₂ (h.paths.shows.extends k₁₂)).bind fun paths w₃ ps _ k₃ hps => ?_
  have ho₃ := ho₂.extends k₃
  have k₁₃ := k₁₂.trans k₃
  have components := h.components.shows.extends k₁₃
  refine (optionalField_denotes components (components_denotes ho₃ components)).bind
    fun parts w₄ cs _ k₄ hparts => ?_
  have ho₄ := ho₃.extends k₄
  have k₁₄ := k₁₃.trans k₄
  refine (detachedOrEmpty_denotes ho₄ (h.extra.shows.extends k₁₄)).bind
    fun extra w₅ es _ k₅ hextra => ?_
  obtain ⟨x, us, rfl, hx, hus⟩ := hextra.mapping
  have further : (Value.obj x).mapping? w₅ = some us := by simp [Value.mapping?, hx]
  refine (Value.further_reads further).denotes_bind (.get_bind ?_)
  have k₃₅ := k₄.trans k₅
  have named : w₅.ShowsFields [("openapi", a.openapi), ("info", info)]
      [("openapi", w.tree a.openapi), ("info", (ArgumentViews.of w a).info)] :=
    .cons ⟨rfl, h.openapi.shows.extends (k₁₄.trans k₅)⟩
      (.cons ⟨rfl, hinfo.extends ((k₂.trans k₃).trans k₃₅)⟩ .nil)
  have pathsField : w₅.ShowsFields [("paths", paths)] [("paths", .mapping ps)] :=
    .cons ⟨rfl, hps.extends k₃₅⟩ .nil
  have fields := List.rel_append (List.rel_append (List.rel_append named
    (paired_extends hfs (k₃.trans k₃₅))) pathsField) (paired_extends hparts k₅)
  exact Gives.denotes ((newMapping_gives (ho₄.extends k₅)
    ((showsEntries_named fields).overlay hus)).mono fun _ _ _ hu => hu.1)

end Document

end OpenApiDoc
