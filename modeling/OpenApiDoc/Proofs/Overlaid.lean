import OpenApiDoc.Proofs.Overlays
import OpenApiDoc.Proofs.Supplied

/-! # Documents with further entries

A document has a field for every argument that is given, and the further entries are laid over its
fields.

* `World.LaysOver` says that a mapping is made of the fields of slots and of further entries.
* `Document.build_lays`: what is made of any arguments, if there is a result.
* `Document.build_accepts`: there is one if every argument will do by itself. -/

namespace OpenApiDoc

open Build World

variable {w w' w₁ : World} {v u : Value}

namespace World

/-- The entries are a copy of what the argument is read as: keys without parts are kept, and all
look as they should if the argument is data. -/
structure CopiesFurther (w : World) (extra : Value) (w' : World) (gs : Entries) : Prop where
  keys : ∃ w₁ w₂ es, w.Grows w₁ ∧ extra.entriesOrEmpty.run w₁ = .ok es w₂ ∧ Entries.KeepKeys es gs
  looks : w.IsData extra → ∃ ts, (w.tree extra).entriesOrEmpty? = some ts ∧ w'.ShowsEntries gs ts

/-- The mapping has the fields in their places, each with the last value that further entries have
under its name, and behind them the further entries with other keys, in the order in which these
arrive. -/
def LaysOver (w : World) (fs : List (String × Value)) (gs : Entries) (u : Value) : Prop :=
  ∃ (a : Addr) (w₁ : World) (added : Entries), u = .obj a ∧ w₁.Grows w ∧
    w.get a = .mapping
      ((Entries.named fs).map (fun e => (e.1, (Entries.last? (· == ·) gs e.1).getD e.2)) ++ added) ∧
    added = Entries.overlay w₁.sameKey []
      (gs.filter fun e => e.1 ∉ (Entries.named fs).map (·.1)) ∧
    ((gs.Pairwise fun d e => w₁.sameKey d.1 e.1 = false) →
      added = gs.filter fun e => e.1 ∉ (Entries.named fs).map (·.1))

/-- What laying entries over fields comes to. -/
theorem newMapping_laysOver {fs : List (String × Value)} (distinct : Entries.Distinct fs)
    {gs : Entries}
    (run : (newMapping (Entries.overlay w.sameKey (Entries.named fs) gs)).run w = .ok u w') :
    w.Grows w' ∧ w'.LaysOver fs gs u := by
  cases run
  have k := (w.extends_alloc (.mapping (Entries.overlay w.sameKey (Entries.named fs) gs))).grows
  refine ⟨k, _, w, _, rfl, k, ?_, rfl, fun apart => ?_⟩
  · rw [← overlay_named_eq distinct]
    exact w.get_alloc_same _
  · exact Entries.overlay_nil_of_apart (apart.filter _)

end World

/-- The argument is data that is read as entries: a mapping, pairs, or what is empty. -/
def World.ReadsEntries (w : World) (v : Value) : Prop :=
  w.IsData v ∧ ∃ es, (w.tree v).entriesOrEmpty? = some es

namespace Document

/-- The information about a document. -/
def infoSlots (a : Arguments) : List Slot :=
  [.exactly "title" a.title, .exactly "version" a.version, .given "description" a.description]

/-- The fields of a document. Its paths may be absent or empty. -/
def slots (w : World) (a : Arguments) : List Slot :=
  [.exactly "openapi" a.openapi, .always "info" (fun w u => w.Lays (infoSlots a) u) Lays.grows,
    .made w "servers" a.servers some,
    .kept w "paths" a.paths fun t => t.entriesOrEmpty?.map .mapping,
    .made w "components" a.components components?]

theorem detachedOrEmpty_ok (run : (detachedOrEmpty v).run w = .ok u w') : ∃ es w₁ a gs,
    v.entriesOrEmpty.run w = .ok es w₁ ∧ u = .obj a ∧ w'.get a = .mapping gs ∧
      Entries.KeepKeys es gs := by
  obtain ⟨es, w₁, read, run⟩ := bind_ok run
  obtain ⟨_, w₂, made, run⟩ := bind_ok run
  cases made
  obtain ⟨b, w₃, copied, run⟩ := bind_ok run
  cases run
  obtain ⟨gs, hg, keys⟩ := copyObject_mapping (w₁.get_alloc_same (.mapping es)) copied
  exact ⟨es, w₁, b, gs, read, rfl, hg, keys⟩

theorem detachedOrEmpty_mapping {w : World} {v : Value} {t : Tree} (ho : w.Owned) (h : w.Shows v t) :
    (detachedOrEmpty v).Denotes w Shows (t.entriesOrEmpty?.map .mapping) := by
  have made := detachedOrEmpty_denotes ho h
  cases he : t.entriesOrEmpty? with
  | none => rwa [he] at made
  | some es => rwa [he] at made

theorem fills_info (w : World) (a : Arguments) : w.Fills (infoSlots a)
    ([("title", a.title), ("version", a.version)] ++
      if a.description.isNone then [] else [("description", a.description)]) := by
  refine ((Fills.exactly w "title" a.title).append (.exactly w "version" a.version)).append ?_
  cases none : a.description.isNone with
  | true => exact .skip (by simp [Slot.given, none])
  | false => exact .one (s := .given "description" a.description) (by simp [Slot.given, none]) rfl

variable {a : Arguments}

/-- A document has the fields that are supplied, with the further entries laid over them. -/
theorem build_lays (ho : w.Owned) (run : (build a).run w = .ok u w') : ∃ fs gs,
    w'.Fills (slots w a) fs ∧ w.CopiesFurther a.extra w' gs ∧ w'.LaysOver fs gs u := by
  obtain ⟨i, w₁, info, run⟩ := bind_ok run
  obtain ⟨ss, w₂, servers, run⟩ := bind_ok run
  obtain ⟨p, w₃, paths, run⟩ := bind_ok run
  obtain ⟨cs, w₄, parts, run⟩ := bind_ok run
  obtain ⟨x, w₅, detached, run⟩ := bind_ok run
  obtain ⟨gs, w₆, further, run⟩ := bind_ok run
  obtain ⟨_, _, ⟨⟩, run⟩ := bind_ok run
  obtain ⟨k₁, hi⟩ := record_lays (fills_info w a) info
  obtain ⟨k₂, hss⟩ := optionalField_made ho (Value.copy_leaves _)
    (fun ho h => (Value.copy_gives ho h).denotes) k₁ servers
  have k₃ := (detachedOrEmpty_leaves a.paths).grows paths
  have hp := Build.renders ho detachedOrEmpty_mapping (k₁.trans k₂) paths
  obtain ⟨k₄, hcs⟩ := optionalField_made ho (components_leaves _) components_denotes
    ((k₁.trans k₂).trans k₃) parts
  have k₁₄ := ((k₁.trans k₂).trans k₃).trans k₄
  have k₅ := (detachedOrEmpty_leaves a.extra).grows detached
  have looks := Build.renders ho detachedOrEmpty_mapping k₁₄ detached
  obtain ⟨es, w₆', b, gs', read, rfl, hg, keys⟩ := detachedOrEmpty_ok detached
  cases (Value.further_reads (Value.mapping?_of_get hg)).symm.trans further
  have fills : w₅.Fills (slots w a) ([("openapi", a.openapi), ("info", i)] ++ ss ++ [("paths", p)] ++
      cs) := by
    have k₂₅ := k₂.trans (k₃.trans (k₄.trans k₅))
    refine ((((Fills.exactly w₅ "openapi" a.openapi).append (.one rfl (hi.grows k₂₅))).append
      (hss.grows (k₃.trans (k₄.trans k₅)))).append (.one rfl ?_)).append (hcs.grows k₅)
    exact Slot.stays _ hp (k₄.trans k₅)
  have distinct : Entries.Distinct ([("openapi", a.openapi), ("info", i)] ++ ss ++ [("paths", p)] ++
      cs) :=
    fills.distinct (show ["openapi", "info", "servers", "paths", "components"].Nodup by decide)
  obtain ⟨k₆, lays⟩ := newMapping_laysOver distinct run
  refine ⟨_, gs, fills.grows k₆, ⟨⟨w₄, _, es, k₁₄, read, keys⟩, fun data => ?_⟩, lays⟩
  obtain ⟨t, ht, shown⟩ := looks data
  obtain ⟨ts, read, rfl⟩ := Option.map_eq_some_iff.mp ht
  obtain ⟨_, _, ⟨⟩, hg', entries⟩ := shown.mapping
  cases hg.symm.trans hg'
  exact ⟨ts, read, List.Forall₂.imp (fun _ _ h => ⟨h.1.grows k₆, h.2.grows k₆⟩) entries⟩

/-- What a document is made of will do, part by part. -/
structure Arguments.Accepted (w : World) (a : Arguments) : Prop where
  title : w.IsData a.title
  version : w.IsData a.version
  openapi : w.IsData a.openapi
  description : w.IsData a.description
  servers : w.IsData a.servers
  paths : w.ReadsEntries a.paths
  components : w.Accepts components? a.components
  extra : w.ReadsEntries a.extra

/-- A document comes of any arguments each of which will do. -/
theorem build_accepts (ho : w.Owned) (h : a.Accepted w) : (build a).Gives w fun _ _ => True := by
  have data : a.IsData w := ⟨h.title, h.version, h.paths.1, h.components.1, h.openapi, h.description,
    h.servers, h.extra.1⟩
  obtain ⟨ss, hss, -⟩ := Tree.isField_given "servers" (w.tree a.servers)
  obtain ⟨ps, hps⟩ := h.paths.2
  obtain ⟨cs, hcs⟩ := h.components.field? "components"
  obtain ⟨es, hes⟩ := h.extra.2
  have made := build_denotes ho data
  rw [view?, ArgumentViews.of, hss, hps, hcs, hes] at made
  exact Gives.mono made fun _ _ _ _ => trivial

end Document
end OpenApiDoc
