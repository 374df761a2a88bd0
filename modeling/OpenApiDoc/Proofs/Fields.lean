import OpenApiDoc.Proofs.Plain

/-! # Fields and how they look

* `World.Shows.mapping` and `World.Shows.node` read off an object what it looks like.
* `Entries.overlay` works the same way on fields and on their views.
* `Tree.record` and `Tree.node` are the views of a mapping from names and of a node. -/

namespace OpenApiDoc

/-! ### Entries under names -/

namespace Entries

variable {α β : Type}

/-- Names are distinct. -/
def Distinct (fs : List (String × α)) : Prop := (fs.map (·.1)).Nodup

/-- Insert every field of `extra`. -/
abbrev overlayNames (fs extra : List (String × α)) : List (String × α) :=
  overlay (· == ·) fs extra

/-- A mapping that is written out: a repeated name keeps its place and takes the last value. -/
def literal (fs : List (String × α)) : List (String × α) := overlayNames [] fs

theorem map_insert (g : α → β) (fs : List (String × α)) (n : String) (v : α) :
    (insert (· == ·) fs n v).map (fun f => (f.1, g f.2)) =
      insert (· == ·) (fs.map fun f => (f.1, g f.2)) n (g v) := by
  induction fs with
  | nil => rfl
  | cons f fs ih =>
      by_cases h : f.1 = n
      · simp [insert, h]
      · simp [insert, h, ih]

theorem map_overlay (g : α → β) (fs extra : List (String × α)) :
    (overlayNames fs extra).map (fun f => (f.1, g f.2)) =
      overlayNames (fs.map fun f => (f.1, g f.2)) (extra.map fun f => (f.1, g f.2)) := by
  induction extra generalizing fs with
  | nil => rfl
  | cons e extra ih =>
      simp only [overlayNames, overlay_cons, List.map_cons] at ih ⊢
      rw [ih, map_insert]

theorem keys_insert (fs : List (String × α)) (n : String) (v : α) :
    (insert (· == ·) fs n v).map (·.1) =
      if n ∈ fs.map (·.1) then fs.map (·.1) else fs.map (·.1) ++ [n] := by
  induction fs with
  | nil => simp [insert]
  | cons f fs ih =>
      by_cases h : f.1 = n
      · simp [insert, h]
      · have h' : ¬ n = f.1 := fun hn => h hn.symm
        simp only [insert, beq_iff_eq, h, if_false, List.map_cons, ih, List.mem_cons, h', false_or]
        by_cases hm : n ∈ fs.map (·.1) <;> simp [hm]

theorem Distinct.insert {fs : List (String × α)} (h : Distinct fs) (n : String) (v : α) :
    Distinct (insert (· == ·) fs n v) := by
  unfold Distinct at *
  rw [keys_insert]
  by_cases hm : n ∈ fs.map (·.1)
  · rwa [if_pos hm]
  · rw [if_neg hm]
    exact List.nodup_append.mpr ⟨h, by simp, by
      intro a ha b hb
      obtain rfl := List.mem_singleton.mp hb
      rintro rfl
      exact hm ha⟩

theorem Distinct.overlay {fs : List (String × α)} (h : Distinct fs) (extra : List (String × α)) :
    Distinct (overlayNames fs extra) := by
  induction extra generalizing fs with
  | nil => exact h
  | cons e extra ih => exact ih (h.insert e.1 e.2)

theorem insert_fresh {fs : List (String × α)} {n : String} (h : n ∉ fs.map (·.1)) (v : α) :
    insert (· == ·) fs n v = fs ++ [(n, v)] := by
  induction fs with
  | nil => rfl
  | cons f fs ih =>
      simp only [List.map_cons, List.mem_cons, not_or] at h
      simp [insert, ih h.2, Ne.symm h.1]

/-- Distinct names that are not there yet are all added at the end. -/
theorem overlay_fresh {fs extra : List (String × α)} (h : Distinct (fs ++ extra)) :
    overlayNames fs extra = fs ++ extra := by
  induction extra generalizing fs with
  | nil => simp
  | cons e extra ih =>
      have hn : e.1 ∉ fs.map (·.1) := by
        intro hm
        simp only [Distinct, List.map_append, List.map_cons] at h
        exact List.disjoint_of_nodup_append h hm List.mem_cons_self
      have rest : overlayNames (fs ++ [e]) extra = fs ++ [e] ++ extra := ih (by simpa using h)
      simp only [overlayNames, overlay_cons] at rest ⊢
      rw [insert_fresh hn, rest, List.append_assoc, List.singleton_append]

theorem overlay_nil_left {fs : List (String × α)} (h : Distinct fs) : overlayNames [] fs = fs :=
  overlay_fresh h

theorem overlay_cons_ne_nil {κ : Type} (same : κ → κ → Bool) (es : List (κ × α)) (e : κ × α)
    (extra : List (κ × α)) : overlay same es (e :: extra) ≠ [] := by
  have insert_ne (es : List (κ × α)) (e : κ × α) : Entries.insert same es e.1 e.2 ≠ [] := by
    cases es with
    | nil => simp [Entries.insert]
    | cons f es => by_cases h : same f.1 e.1 = true <;> simp [Entries.insert, h]
  induction extra generalizing es e with
  | nil => exact insert_ne es e
  | cons f extra ih => exact ih (Entries.insert same es e.1 e.2) f

/-- The same holds of every pair of fields under one name. -/
def Paired (R : α → β → Prop) (fs : List (String × α)) (gs : List (String × β)) : Prop :=
  List.Forall₂ (fun f g => f.1 = g.1 ∧ R f.2 g.2) fs gs

variable {R : α → β → Prop}

theorem Paired.insert {fs : List (String × α)} {gs : List (String × β)} (h : Paired R fs gs)
    (n : String) {v : α} {u : β} (hv : R v u) :
    Paired R (Entries.insert (· == ·) fs n v) (Entries.insert (· == ·) gs n u) := by
  induction h with
  | nil => exact .cons ⟨rfl, hv⟩ .nil
  | @cons f g fs gs hfg hs ih =>
      obtain ⟨hn, hr⟩ := hfg
      by_cases hm : f.1 = n
      · simp only [Entries.insert, hn ▸ hm, hm, beq_self_eq_true, if_true]
        exact .cons ⟨rfl, hv⟩ hs
      · have hm' : g.1 ≠ n := hn ▸ hm
        simp only [Entries.insert, beq_iff_eq, hm, hm', if_false]
        exact .cons ⟨hn, hr⟩ ih

theorem Paired.overlay {fs extra : List (String × α)} {gs extra' : List (String × β)}
    (h : Paired R fs gs) (he : Paired R extra extra') :
    Paired R (overlayNames fs extra) (overlayNames gs extra') := by
  induction he generalizing fs gs with
  | nil => exact h
  | @cons e e' extra extra' hee _ ih =>
      obtain ⟨hn, hr⟩ := hee
      simp only [overlayNames, overlay_cons, hn] at ih ⊢
      exact ih (h.insert e'.1 hr)

theorem Paired.keys {fs : List (String × α)} {gs : List (String × β)} (h : Paired R fs gs) :
    fs.map (·.1) = gs.map (·.1) := by
  induction h with
  | nil => rfl
  | cons h _ ih => simp [h.1, ih]

theorem Paired.lookup {fs : List (String × α)} {gs : List (String × β)} (h : Paired R fs gs)
    (n : String) : Option.Rel R (fs.lookup n) (gs.lookup n) := by
  induction h with
  | nil => exact .none
  | @cons f g fs gs hfg _ ih =>
      obtain ⟨l, v⟩ := f
      obtain ⟨m, u⟩ := g
      obtain ⟨rfl, hr⟩ : l = m ∧ R v u := hfg
      by_cases same : n = l
      · simp only [List.lookup_cons, same, beq_self_eq_true]
        exact .some hr
      · simpa only [List.lookup_cons, beq_eq_false_iff_ne.mpr same] using ih

theorem Paired.lookup_left {fs : List (String × α)} {gs : List (String × β)} (h : Paired R fs gs)
    {n : String} {v : α} (hv : fs.lookup n = some v) : ∃ u, gs.lookup n = some u ∧ R v u := by
  have both := h.lookup n
  rw [hv] at both
  cases hu : gs.lookup n <;> rw [hu] at both <;> cases both
  exact ⟨_, rfl, ‹_›⟩

theorem Paired.lookup_right {fs : List (String × α)} {gs : List (String × β)} (h : Paired R fs gs)
    {n : String} {u : β} (hu : gs.lookup n = some u) : ∃ v, fs.lookup n = some v ∧ R v u := by
  have both := h.lookup n
  rw [hu] at both
  cases hv : fs.lookup n <;> rw [hv] at both <;> cases both
  exact ⟨_, rfl, ‹_›⟩

theorem insert_named (w : World) (fs : List (String × Value)) (n : String) (v : Value) :
    insert w.sameKey (named fs) (.str n) v = named (insert (· == ·) fs n v) := by
  induction fs with
  | nil => rfl
  | cons f fs ih =>
      by_cases h : f.1 = n
      · simp [named, insert, h]
      · simpa [named, insert, h] using ih

/-- Texts are the same keys when they are the same names. -/
theorem overlay_named (w : World) (fs extra : List (String × Value)) :
    overlay w.sameKey (named fs) (named extra) = named (overlayNames fs extra) := by
  induction extra generalizing fs with
  | nil => rfl
  | cons e extra ih =>
      rw [show named (e :: extra) = (.str e.1, e.2) :: named extra from rfl]
      simp only [overlay_cons, overlayNames, insert_named] at ih ⊢
      exact ih _

end Entries

/-! ### What objects look like -/

namespace Tree

/-- The view of a mapping from names. -/
def record (fields : List (String × Tree)) : Tree := .mapping (fields.map fun f => (.str f.1, f.2))

/-- The view of a node. -/
def node (fields : List (String × Tree)) (optional : Bool) : Tree :=
  .model .node [("fragment", .record fields), ("is_optional", .bool optional)]

theorem plain_record (fields : List (String × Tree)) :
    (record fields).plain = record (fields.map fun f => (f.1, f.2.plain)) := by
  simp [record, plain, plainEntries_eq]

@[simp] theorem plain_node (fields : List (String × Tree)) (optional : Bool) :
    (node fields optional).plain = record fields := by
  simp [node, plain]

end Tree

namespace World

variable {w w' : World} {v : Value}

theorem Shows.obj {a : Addr} {t : Tree} (h : w.Shows (.obj a) t) :
    (w.get a).view w.tree = some t := by
  rw [h.1.view_tree, h.2]

theorem Shows.atom {a : Atom} (h : w.Shows v (.atom a)) : v = .atom a := by
  cases v with
  | atom b => simpa using h.2
  | obj b =>
      have view := h.obj
      cases hg : w.get b <;> simp [hg, Object.view] at view

theorem Shows.mapping {ts : List (Tree × Tree)} (h : w.Shows v (.mapping ts)) :
    ∃ a es, v = .obj a ∧ w.get a = .mapping es ∧ w.ShowsEntries es ts := by
  cases v with
  | atom b => simpa using h.2
  | obj a =>
      have view := h.obj
      cases hg : w.get a <;> simp [hg, Object.view] at view
      case mapping es =>
        refine ⟨a, es, rfl, hg, ?_⟩
        rw [ShowsEntries, ← view, List.forall₂_map_right_iff, List.forall₂_same]
        intro e he
        exact ⟨(h.1.part (hg ▸ Object.mem_parts_key he)).shows,
          (h.1.part (hg ▸ Object.mem_parts_value he)).shows⟩

theorem Shows.list {ts : List Tree} (h : w.Shows v (.list ts)) :
    ∃ a xs, v = .obj a ∧ w.get a = .list xs ∧ List.Forall₂ w.Shows xs ts := by
  cases v with
  | atom b => simpa using h.2
  | obj a =>
      have view := h.obj
      cases hg : w.get a <;> simp [hg, Object.view] at view
      case list xs =>
        refine ⟨a, xs, rfl, hg, ?_⟩
        rw [← view, List.forall₂_map_right_iff, List.forall₂_same]
        exact fun x hx => (h.1.part (hg ▸ hx)).shows

/-- Entries whose keys look like names stand under names. -/
theorem ShowsEntries.of_names {es : Entries} {ts : List (String × Tree)}
    (h : w.ShowsEntries es (ts.map fun t => (.str t.1, t.2))) :
    ∃ fs, es = Entries.named fs ∧ Entries.Paired w.Shows fs ts := by
  induction ts generalizing es with
  | nil =>
      cases h
      exact ⟨[], rfl, .nil⟩
  | cons t ts ih =>
      obtain ⟨e, es, ⟨hk, hv⟩, hs, rfl⟩ := List.forall₂_cons_right_iff.mp h
      obtain ⟨fs, rfl, hp⟩ := ih hs
      refine ⟨(t.1, e.2) :: fs, ?_, .cons ⟨rfl, hv⟩ hp⟩
      rw [show e = (.str t.1, e.2) from Prod.ext hk.atom rfl]
      rfl

/-- The entries of a mapping from names. -/
theorem Shows.record {ts : List (String × Tree)} (h : w.Shows v (.record ts)) :
    ∃ a fs, v = .obj a ∧ w.get a = .mapping (Entries.named fs) ∧ Entries.Paired w.Shows fs ts := by
  obtain ⟨a, es, rfl, hg, he⟩ := h.mapping
  obtain ⟨fs, rfl, hp⟩ := he.of_names
  exact ⟨a, fs, rfl, hg, hp⟩

theorem Shows.model {fs : List (String × Tree)} (h : w.Shows v (.model .node fs)) :
    ∃ a f o, v = .obj a ∧ w.get a = .node f o ∧ w.IsData (.obj f) ∧
      fs = [("fragment", w.tree (.obj f)), ("is_optional", .bool o)] := by
  cases v with
  | atom b => simpa using h.2
  | obj a =>
      have view := h.obj
      cases hg : w.get a <;> simp [hg, Object.view, Object.nodeFields] at view
      case node f o =>
        refine ⟨a, f, o, rfl, hg, ?_, view.symm⟩
        exact h.1.part (by simp [hg, Object.parts])

/-- The fragment and the flag of a node. -/
theorem Shows.node {ts : List (String × Tree)} {flag : Bool} (h : w.Shows v (.node ts flag)) :
    ∃ a f, v = .obj a ∧ w.get a = .node f flag ∧ w.Shows (.obj f) (.record ts) := by
  obtain ⟨a, f, o, rfl, hg, hf, hfs⟩ := h.model
  simp only [List.cons.injEq, Prod.mk.injEq, true_and, and_true, Tree.atom.injEq,
    Atom.bool.injEq] at hfs
  obtain ⟨ht, rfl⟩ := hfs
  exact ⟨a, f, rfl, hg, hf, ht.symm⟩

theorem paired_extends {fs : List (String × Value)} {ts : List (String × Tree)}
    (h : Entries.Paired w.Shows fs ts) (k : w.Extends w') : Entries.Paired w'.Shows fs ts :=
  h.imp fun _ _ ⟨hn, hs⟩ => ⟨hn, hs.extends k⟩

theorem paired_tree {fs : List (String × Value)} {ts : List (String × Tree)}
    (h : Entries.Paired w.Shows fs ts) :
    (∀ f ∈ fs, w.IsData f.2) ∧ ts = fs.map fun f => (f.1, w.tree f.2) := by
  induction h with
  | nil => simp
  | @cons f t fs ts h _ ih =>
      obtain ⟨hn, hd, ht⟩ := h
      rw [List.forall_mem_cons, List.map_cons, hn, ht, ← ih.2]
      exact ⟨⟨hd, ih.1⟩, rfl⟩

theorem showsEntries_named {fs : List (String × Value)} {ts : List (String × Tree)}
    (h : Entries.Paired w.Shows fs ts) :
    w.ShowsEntries (Entries.named fs) (ts.map fun t => (.str t.1, t.2)) := by
  unfold ShowsEntries Entries.named
  rw [List.forall₂_map_left_iff, List.forall₂_map_right_iff]
  exact h.imp fun f t ⟨hn, hs⟩ => ⟨by simp [hn], hs⟩

theorem ShowsEntries.insert {es : Entries} {ts : List (Tree × Tree)} (h : w.ShowsEntries es ts)
    {k v : Value} {l u : Tree} (hk : w.Shows k l) (hv : w.Shows v u) :
    w.ShowsEntries (Entries.insert w.sameKey es k v) (Entries.insert Tree.same ts l u) := by
  induction h with
  | nil => exact .cons ⟨hk, hv⟩ .nil
  | @cons e t es ts h hs ih =>
      have same : w.sameKey e.1 k = t.1.same l := by rw [sameKey, h.1.2, hk.2]
      simp only [Entries.insert, same]
      by_cases hm : t.1.same l = true
      · rw [if_pos hm, if_pos hm]
        exact .cons ⟨h.1, hv⟩ hs
      · rw [if_neg hm, if_neg hm]
        exact .cons h ih

/-- Keys are told apart by what they look like. -/
theorem ShowsEntries.overlay {es extra : Entries} {ts us : List (Tree × Tree)}
    (h : w.ShowsEntries es ts) (he : w.ShowsEntries extra us) :
    w.ShowsEntries (Entries.overlay w.sameKey es extra) (Entries.overlay Tree.same ts us) := by
  induction he generalizing es ts with
  | nil => exact h
  | @cons e t extra us hs _ ih => exact ih (h.insert hs.1 hs.2)

end World

end OpenApiDoc
