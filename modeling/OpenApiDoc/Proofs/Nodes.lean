import OpenApiDoc.Proofs.Fields
import OpenApiDoc.Schema.Constructors

/-! # What schema nodes are made of

One specification for each step that makes or reads a node, for values that are data.

* `Node.ofEntries_gives` and `Schema.node_gives`: a new node has the plain views of the fields that
  it is made from, in their order.
* `Node.emit_gives`: emitting gives the fragment of a node and the plain view of a mapping.
* `Node.withFlag_gives`, `Node.merge_gives` and `Node.nullable_gives`: nodes made from nodes. -/

namespace OpenApiDoc

/-- The fields with plain views. -/
abbrev Tree.plainFields (fields : List (String × Tree)) : List (String × Tree) :=
  fields.map fun f => (f.1, f.2.plain)

/-- Nothing is seen. -/
def Tree.isNone : Tree → Bool
  | .none => true
  | _ => false

theorem Tree.isNone_iff {t : Tree} : t.isNone = true ↔ t = .none := by
  unfold Tree.isNone
  split <;> simp_all

/-- The value is a node with these fields, whose names are distinct. -/
def World.ShowsNode (w : World) (v : Value) (fields : List (String × Tree)) (flag : Bool) : Prop :=
  w.Shows v (.node fields flag) ∧ Entries.Distinct fields

theorem World.ShowsNode.extends {w w' : World} {v : Value} {fields : List (String × Tree)}
    {flag : Bool} (h : w.ShowsNode v fields flag) (k : w.Extends w') :
    w'.ShowsNode v fields flag :=
  ⟨h.1.extends k, h.2⟩

/-- Further fields: nothing, or a mapping from names that looks like this. -/
def World.ShowsExtra (w : World) (extra : Value) (us : List (String × Tree)) : Prop :=
  extra = .none ∧ us = [] ∨ w.Shows extra (.record us)

theorem World.ShowsExtra.extends {w w' : World} {extra : Value} {us : List (String × Tree)}
    (h : w.ShowsExtra extra us) (k : w.Extends w') : w'.ShowsExtra extra us :=
  h.imp_right fun shown => shown.extends k

namespace Node

open World Build

variable {w : World}

theorem own_gives (ho : w.Owned) {fs : List (String × Value)} {ts : List (String × Tree)}
    (h : Entries.Paired w.Shows fs ts) :
    (own fs).Gives w fun a w' => w'.Shows (.obj a) (.record (Tree.plainFields ts)) := by
  obtain ⟨data, rfl⟩ := paired_tree h
  refine (Gives.mapM_entries (fun f : String × Value => .str f.1) (fun f => .str f.1)
    (fun f => (w.tree f.2).plain) (by simp) fun f hf w' he => ?_).bind fun es w' he hes => ?_
  · have := (data f hf).extends he
    rw [← this.2]
    exact this.1.plain (ho.extends he)
  · refine .new ?_
    refine .alloc (ho.extends he) (fun v hv => ?_) (by
      simp [Object.view, hes.tree.2, Tree.record, Function.comp_def])
    obtain ⟨e, he, rfl | rfl⟩ := Object.mem_parts_mapping.mp hv
    · exact (hes.tree.1 e he).1
    · exact (hes.tree.1 e he).2

theorem entry_text (w : World) (f : String × Value) :
    Field.entry w Field.any (.str f.1, f.2) = .ok f := rfl

theorem mapping_named (w : World) {v : Value} {fs : List (String × Value)}
    (h : v.mapping? w = some (Entries.named fs)) (hd : Entries.Distinct fs) :
    Field.mapping w Field.any (.value v) = .ok fs := by
  have all : (Entries.named fs).map (Field.entry w Field.any) = fs.map .ok := by
    simp [Entries.named, Function.comp_def, entry_text]
  simp only [Field.mapping, h, all, Checked.all_ok, Except.map]
  exact congrArg Except.ok (Entries.overlay_nil_left hd)

/-- The fragment that a node is made from is read as it is given. -/
theorem fragment_given {w : World} {fragment : Value} {fs : List (String × Value)}
    (h : fragment.mapping? w = some (Entries.named fs)) (hd : Entries.Distinct fs) (optional : Bool) :
    Field.required [("fragment", fragment), ("is_optional", .bool optional)] "fragment"
      ([("fragment", fragment), ("is_optional", .bool optional)].lookup "fragment")
      (Field.mapping w Field.any) = .ok fs := by
  simp [Field.required, mapping_named w h hd, Checked.under]

/-- So is the flag. -/
theorem flag_given (fragment : Value) (optional : Bool) : Field.defaulted "is_optional"
    ([("fragment", fragment), ("is_optional", .bool optional)].lookup "is_optional") false Field.bool =
    .ok optional := by
  simp [Field.defaulted, List.lookup_cons, Checked.under, Field.bool, Field.truth]

/-- A node that is made of a mapping owns a plain copy of its fields. -/
theorem ofFields_gives (ho : w.Owned) {fragment : Value} {fs : List (String × Value)}
    {ts : List (String × Tree)} (hm : fragment.mapping? w = some (Entries.named fs))
    (h : Entries.Paired w.Shows fs ts) (hd : Entries.Distinct ts) (flag : Bool) :
    (ofFields [("fragment", fragment), ("is_optional", .bool flag)]).Gives w fun v w' =>
      w'.ShowsNode v (Tree.plainFields ts) flag := by
  have distinct : Entries.Distinct fs := by
    rwa [Entries.Distinct, h.keys]
  have owned := (own_gives ho h).bind fun f w₂ _ hf =>
    Gives.pure (Q := fun (c : Checked Addr) w₂ => ∃ f, c = .ok f ∧
      w₂.Shows (.obj f) (.record (Tree.plainFields ts))) (a := .ok f) ⟨f, rfl, hf⟩
  refine .get_bind ?_
  simp only [fragment_given hm distinct flag, flag_given]
  refine owned.bind fun c w₂ he hc => ?_
  obtain ⟨f, rfl, hf⟩ := hc
  have made : w₂.Extends (w₂.alloc (.node f flag)).2 ∧ (w₂.alloc (.node f flag)).2.Shows
      (.obj w₂.size) (.node (Tree.plainFields ts) flag) := by
    refine ⟨w₂.extends_alloc _, ?_⟩
    exact .alloc (ho.extends he) (by simp [Object.parts, hf.1]) (by
      simp [Object.view, Object.nodeFields, hf.2, Tree.node])
  refine ⟨.obj w₂.size, _, rfl, made.1, made.2, ?_⟩
  simpa [Entries.Distinct, Function.comp_def] using hd

/-- A node owns a plain copy of the fields that it is made from. -/
theorem ofEntries_gives (ho : w.Owned) {fs : List (String × Value)} {ts : List (String × Tree)}
    (h : Entries.Paired w.Shows fs ts) (hd : Entries.Distinct ts) (flag : Bool) :
    (ofEntries (Entries.named fs) flag).Gives w fun v w' =>
      w'.ShowsNode v (Tree.plainFields ts) flag :=
  (newMapping_gives ho (showsEntries_named h)).bind fun _ _ k hm =>
    ofFields_gives (ho.extends k) hm.2 (paired_extends h k) hd flag

theorem parts?_of_node {v : Value} {fields : List (String × Tree)} {flag : Bool}
    (h : w.Shows v (.node fields flag)) :
    ∃ f, parts? w v = some (f, flag) ∧ w.Shows (.obj f) (.record fields) := by
  obtain ⟨a, f, rfl, hg, hf⟩ := h.node
  exact ⟨f, by simp [parts?, hg], hf⟩

theorem parts?_of_mapping {v : Value} {ts : List (Tree × Tree)} (h : w.Shows v (.mapping ts)) :
    parts? w v = none := by
  obtain ⟨a, es, rfl, hg, _⟩ := h.mapping
  simp [parts?, hg]

theorem isOptional_of_node {v : Value} {fields : List (String × Tree)} {flag : Bool}
    (h : w.Shows v (.node fields flag)) : isOptional w v = flag := by
  obtain ⟨f, hf, _⟩ := parts?_of_node h
  simp [isOptional, hf]

theorem isOptional_of_mapping {v : Value} {ts : List (Tree × Tree)}
    (h : w.Shows v (.mapping ts)) : isOptional w v = false := by
  simp [isOptional, parts?_of_mapping h]

theorem schema_gives (ho : w.Owned) {f : Addr} {t : Tree} (h : w.Shows (.obj f) t) :
    (schema f).Gives w fun u w' => w'.Shows u t :=
  (copyObject_shows ho h).bind fun _ _ _ hb => .pure hb

/-- A node is emitted as its fragment. -/
theorem emit_node_gives (ho : w.Owned) {v : Value} {fields : List (String × Tree)} {flag : Bool}
    (h : w.Shows v (.node fields flag)) :
    (emit v).Gives w fun u w' => w'.Shows u (.record fields) := by
  obtain ⟨f, hp, hf⟩ := parts?_of_node h
  refine .get_bind ?_
  simp only [hp]
  exact schema_gives ho hf

/-- A mapping is emitted as its plain view. -/
theorem emit_mapping_gives (ho : w.Owned) {v : Value} {ts : List (Tree × Tree)}
    (h : w.Shows v (.mapping ts)) :
    (emit v).Gives w fun u w' => w'.Shows u (.plain (.mapping ts)) := by
  obtain ⟨a, es, rfl, hg, hes⟩ := h.mapping
  obtain ⟨data, rfl⟩ := hes.tree
  refine .get_bind ?_
  simp only [parts?_of_mapping h]
  have read : (Value.obj a).mapping? w = some es := by simp [Value.mapping?, hg]
  refine (Value.entries_reads read).bind ?_
  refine (Gives.mapM_entries (·.1) (fun e => w.tree e.1) (fun e => (w.tree e.2).plain)
    (fun e he => (data e he).1.shows) fun e he w' k => ?_).bind fun us w' k hus => ?_
  · have := (data e he).2.extends k
    rw [← this.2]
    exact this.1.plain (ho.extends k)
  · refine (newMapping_gives (ho.extends k) hus).mono fun u w'' _ hu => ?_
    simpa [Tree.plain, Tree.plainEntries_eq, Function.comp_def] using hu.1

/-- A copy of a node with the flag set. -/
theorem withFlag_gives (ho : w.Owned) {v : Value} {fields : List (String × Tree)} {flag : Bool}
    (h : w.ShowsNode v fields flag) (optional : Bool) :
    (withFlag v optional).Gives w fun u w' => w'.ShowsNode u fields optional := by
  obtain ⟨a, f, rfl, hg, hf⟩ := h.1.node
  refine .get_bind ?_
  simp only [parts?, hg]
  refine (h.1.1.copyNode ho hg optional).bind fun b w' _ ⟨hd, ht⟩ => .pure ⟨⟨hd, ?_⟩, h.2⟩
  rw [ht, hf.2, Tree.node]

/-- Further fields are laid over those of a node; the flag is kept. -/
theorem merge_gives (ho : w.Owned) {v extra : Value} {fields ts : List (String × Tree)}
    {flag : Bool} (h : w.ShowsNode v fields flag) (hp : Tree.plainFields fields = fields)
    (he : w.Shows extra (.record ts)) :
    (merge v extra).Gives w fun u w' =>
      w'.ShowsNode u (Entries.overlayNames fields (Tree.plainFields ts)) flag := by
  obtain ⟨f, hf, hfrag⟩ := parts?_of_node h.1
  obtain ⟨a, fs, ha, hgf, hfs⟩ := hfrag.record
  obtain ⟨b, gs, rfl, hgb, hgs⟩ := he.record
  cases ha
  refine .get_bind ?_
  simp only [hf]
  refine .get_bind ?_
  cases gs with
  | nil =>
      cases hgs
      simp only [World.isEmpty, hgb, Entries.named, List.map_nil, List.isEmpty_nil, if_true]
      exact .pure h
  | cons g gs =>
      have full : w.isEmpty (.obj b) = false := by simp [World.isEmpty, hgb, Entries.named]
      have read (c : Addr) (hs : List (String × Value))
          (hg : w.get c = .mapping (Entries.named hs)) :
          (Value.obj c).mapping? w = some (Entries.named hs) := by
        simp [Value.mapping?, hg]
      simp only [full]
      refine (Value.further_reads (read f fs hgf)).bind ?_
      refine (Value.further_reads (read b _ hgb)).bind ?_
      refine .get_bind ?_
      rw [Entries.overlay_named]
      refine (ofEntries_gives ho (hfs.overlay hgs) (h.2.overlay ts) flag).mono fun u w' _ hu => ?_
      rwa [Tree.plainFields, Entries.map_overlay, ← Tree.plainFields, hp] at hu

theorem nullable_gives (ho : w.Owned) {v : Value} {fields : List (String × Tree)} {flag : Bool}
    (h : w.ShowsNode v fields flag) (hp : Tree.plainFields fields = fields) :
    (nullable v).Gives w fun u w' =>
      w'.ShowsNode u (Entries.overlayNames fields [("nullable", .bool true)]) flag := by
  obtain ⟨f, hf, _⟩ := parts?_of_node h.1
  refine .get_bind ?_
  simp only [hf]
  have paired : Entries.Paired w.Shows [("nullable", .bool true)] [("nullable", .bool true)] :=
    .cons ⟨rfl, shows_atom w _⟩ .nil
  refine (newMapping_gives ho (showsEntries_named paired)).bind fun m w₁ k ⟨hm, _⟩ => ?_
  have laid : w₁.Shows m (.record [("nullable", .bool true)]) := hm
  exact merge_gives (ho.extends k) (h.extends k) hp laid

end Node

namespace Schema

open World Build

variable {w : World}

/-- The fields that have a value. -/
def present (fields : List (String × Tree)) : List (String × Tree) :=
  fields.filter fun f => !f.2.isNone

theorem furtherOrEmpty_reads {a : Addr} {fs : List (String × Value)}
    (h : w.get a = .mapping (Entries.named fs)) :
    (Value.obj a).furtherOrEmpty.Reads w (Entries.named fs) := by
  cases fs with
  | nil => simp [Reads, Value.furtherOrEmpty, World.isEmpty, h, Entries.named]
  | cons f fs =>
      simp [Reads, Value.furtherOrEmpty, World.isEmpty, h, Value.further, Value.mapping?,
        Entries.named]

theorem extra_reads {extra : Value} {us : List (String × Tree)} (h : w.ShowsExtra extra us) :
    ∃ gs, extra.furtherOrEmpty.Reads w (Entries.named gs) ∧ Entries.Paired w.Shows gs us := by
  rcases h with ⟨rfl, rfl⟩ | h
  · exact ⟨[], rfl, .nil⟩
  · obtain ⟨a, gs, rfl, hg, hgs⟩ := h.record
    exact ⟨gs, furtherOrEmpty_reads hg, hgs⟩

theorem present_paired {fs : List (String × Value)} {ts : List (String × Tree)}
    (h : Entries.Paired w.Shows fs ts) :
    Entries.Paired w.Shows (fs.filter fun f => !f.2.isNone) (present ts) := by
  induction h with
  | nil => exact .nil
  | @cons f t fs ts h _ ih =>
      obtain ⟨hn, hs⟩ := h
      by_cases ht : t.2 = .none
      · have hf : f.2 = .none := (ht ▸ hs).atom
        simpa [present, Tree.isNone_iff.mpr ht, hf, Value.isNone] using ih
      · have hf : f.2 ≠ .none := by
          intro hf
          rw [hf] at hs
          exact ht (hs.2.symm.trans (w.tree_atom _))
        have ht' : t.2.isNone = false := Bool.eq_false_iff.mpr fun h => ht (Tree.isNone_iff.mp h)
        rw [present, List.filter_cons_of_pos (by simpa [Value.isNone] using hf),
          List.filter_cons_of_pos (by simp [ht'])]
        exact .cons ⟨hn, hs⟩ ih

/-- A node of generated fields, those without a value left out, and the fields laid over them. -/
theorem node_gives (ho : w.Owned) {fs : List (String × Value)} {ts us : List (String × Tree)}
    {extra : Value} (h : Entries.Paired w.Shows fs ts) (hd : Entries.Distinct ts)
    (he : w.ShowsExtra extra us) :
    (node fs extra).Gives w fun v w' =>
      w'.ShowsNode v (Tree.plainFields (Entries.overlayNames (present ts) us)) false := by
  obtain ⟨gs, reads, hgs⟩ := extra_reads he
  refine reads.bind (.get_bind ?_)
  rw [Entries.overlay_named]
  refine Node.ofEntries_gives ho ((present_paired h).overlay hgs) (Entries.Distinct.overlay ?_ us) _
  exact List.Nodup.sublist (List.Sublist.map _ List.filter_sublist) hd

end Schema
end OpenApiDoc
