import OpenApiDoc.Proofs.Responses

/-! # Entries laid over others

What becomes of the entries of a mapping when those of another are laid over it: they stay where they
are, and get the values that the others have for their keys; the others follow in their own order.

* `Entries.overlay_append`: the entries in front, one by one, and what is laid over the rest.
* `Entries.overlayNames_eq` and `World.overlay_named_eq` are about entries under names. -/

namespace OpenApiDoc

namespace Entries

section keys

variable {κ α : Type} {same : κ → κ → Bool} {front back es extra : List (κ × α)} {k : κ}

/-- The key is among those of the entries. -/
def hasKey (same : κ → κ → Bool) (es : List (κ × α)) (k : κ) : Bool := es.any fun e => same e.1 k

/-- The last value under a key. -/
def last? (same : κ → κ → Bool) (es : List (κ × α)) (k : κ) : Option α :=
  (es.reverse.find? fun e => same k e.1).map (·.2)

/-- No key is the same as two of those of the entries. -/
def Separate (same : κ → κ → Bool) (es : List (κ × α)) : Prop :=
  es.Pairwise fun d e => ∀ k, same d.1 k = true → same e.1 k = false

theorem hasKey_eq [DecidableEq κ] (es : List (κ × α)) (k : κ) :
    hasKey (· == ·) es k = decide (k ∈ es.map (·.1)) := by
  rw [Bool.eq_iff_iff]
  simp [hasKey]

theorem insert_append_of_hasKey (h : hasKey same front k = true) (v : α) :
    insert same (front ++ back) k v = insert same front k v ++ back := by
  induction front with
  | nil => cases h
  | cons e front ih =>
      obtain ⟨l, u⟩ := e
      by_cases hit : same l k = true
      · simp [insert, hit]
      · have rest : hasKey same front k = true := by simpa [hasKey, hit] using h
        simp [insert, hit, ih rest]

theorem insert_append_of_not_hasKey (h : hasKey same front k = false) (v : α) :
    insert same (front ++ back) k v = front ++ insert same back k v := by
  induction front with
  | nil => rfl
  | cons e front ih =>
      obtain ⟨l, u⟩ := e
      obtain ⟨miss, rest⟩ : same l k = false ∧ hasKey same front k = false := by
        simpa [hasKey] using h
      simp [insert, miss, ih rest]

/-- Only the value under the key changes. -/
theorem insert_of_hasKey (separate : Separate same es) (h : hasKey same es k = true) (v : α) :
    insert same es k v = es.map fun e => (e.1, if same e.1 k then v else e.2) := by
  induction es with
  | nil => cases h
  | cons e es ih =>
      obtain ⟨l, u⟩ := e
      obtain ⟨first, rest⟩ := List.pairwise_cons.mp separate
      by_cases hit : same l k = true
      · have others : es.map (fun e => (e.1, if same e.1 k then v else e.2)) = es :=
          (List.map_congr_left fun e he => by simp [first e he k hit]).trans (List.map_id es)
        simp [insert, hit, others]
      · have later := ih rest (by simpa [hasKey, hit] using h)
        simp [insert, hit, later]

theorem last?_cons (e : κ × α) : last? same (e :: es) k =
    (last? same es k).or (if same k e.1 then some e.2 else none) := by
  cases found : es.reverse.find? fun e => same k e.1 <;>
    by_cases hit : same k e.1 <;> simp [last?, List.find?_append, found, hit]

/-- The entries in front stay where they are, each with the last value that the others have for its
key. What has another key is laid over the rest. -/
theorem overlay_append (separate : Separate same front) (back extra : List (κ × α)) :
    overlay same (front ++ back) extra =
      (front.map fun e => (e.1, (last? same extra e.1).getD e.2)) ++
        overlay same back (extra.filter fun e => !hasKey same front e.1) := by
  induction extra generalizing front back with
  | nil => simp [last?]
  | cons e extra ih =>
      rw [overlay_cons]
      cases held : hasKey same front e.1 with
      | true =>
          have step := insert_of_hasKey separate held e.2
          have separate' : Separate same (insert same front e.1 e.2) := by
            rw [step, Separate, List.pairwise_map]
            exact separate
          have keys (k : κ) : hasKey same (insert same front e.1 e.2) k = hasKey same front k := by
            simp [step, hasKey, Function.comp_def]
          rw [insert_append_of_hasKey held, ih separate', List.filter_cons_of_neg (by simp [held])]
          simp only [keys]
          rw [step, List.map_map]
          congr 1
          refine List.map_congr_left fun d _ => ?_
          rw [last?_cons]
          cases later : last? same extra d.1 <;> by_cases hit : same d.1 e.1 = true <;>
            simp [Function.comp, later, hit]
      | false =>
          rw [insert_append_of_not_hasKey held, ih separate, List.filter_cons_of_pos (by simp [held]),
            overlay_cons]
          congr 1
          refine List.map_congr_left fun d hd => ?_
          have miss : same d.1 e.1 = false := by
            simp only [hasKey, List.any_eq_false, Bool.not_eq_true] at held
            exact held d hd
          simp [last?_cons, miss]

/-- Entries whose keys are told apart are a mapping as they are. -/
theorem overlay_nil_of_apart (apart : extra.Pairwise fun d e => same d.1 e.1 = false) :
    overlay same [] extra = extra := by
  induction extra using List.reverseRecOn with
  | nil => rfl
  | append_singleton extra e ih =>
      obtain ⟨before, -, last⟩ := List.pairwise_append.mp apart
      have free : hasKey same extra e.1 = false := by simpa [hasKey] using last
      have added : insert same (extra ++ []) e.1 e.2 = extra ++ insert same [] e.1 e.2 :=
        insert_append_of_not_hasKey free e.2
      rw [List.append_nil] at added
      rw [overlay, List.foldl_append, List.foldl_cons, List.foldl_nil, ← overlay, ih before, added]
      rfl

end keys

theorem named_injective : Function.Injective named :=
  List.map_injective_iff.mpr fun f g same => by
    obtain ⟨name, value⟩ := Prod.mk.inj same
    exact Prod.ext (by simpa using name) value

section names

variable {α : Type} {fs extra : List (String × α)}

theorem last?_eq_lookup (distinct : Distinct extra) (n : String) :
    last? (· == ·) extra n = extra.lookup n := by
  have found (es : List (String × α)) : (es.find? fun e => n == e.1).map (·.2) = es.lookup n := by
    induction es with
    | nil => rfl
    | cons e es ih =>
        obtain ⟨m, u⟩ := e
        by_cases hit : n == m <;> simp [List.lookup_cons, hit, ih]
  have kept := (literal_keepsLast extra).last n
  rw [literal, overlay_nil_left distinct] at kept
  exact (found _).trans kept.symm

/-- Fields stay where they are, with the values that further ones have under their names, and the
further ones with other names follow. -/
theorem overlayNames_eq (base : Distinct fs) (distinct : Distinct extra) :
    overlayNames fs extra = (fs.map fun f => (f.1, (extra.lookup f.1).getD f.2)) ++
      extra.filter fun f => f.1 ∉ fs.map (·.1) := by
  have separate : Separate (· == ·) fs :=
    (List.pairwise_map.mp base).imp fun ne k => by
      simp only [beq_iff_eq, beq_eq_false_iff_ne]
      exact fun same => same ▸ Ne.symm ne
  have split := overlay_append separate [] extra
  rw [List.append_nil] at split
  rw [overlayNames, split]
  congr 1
  · exact List.map_congr_left fun f _ => by rw [last?_eq_lookup distinct]
  · have other : (extra.filter fun f => !hasKey (· == ·) fs f.1) =
        extra.filter fun f => f.1 ∉ fs.map (·.1) :=
      List.filter_congr fun f _ => by rw [hasKey_eq, decide_not]
    rw [other]
    exact overlay_nil_left (distinct.sublist (List.filter_sublist.map _))

end names

end Entries

namespace World

variable {w : World} {fs : List (String × Value)}

theorem tree_eq_atom_iff {v : Value} {a : Atom} : w.tree v = .atom a ↔ v = .atom a := by
  cases v with
  | atom b => simp
  | obj b =>
      simp only [tree, viewDepth, unfold, List.contains_nil, Bool.false_eq_true, if_false]
      cases w.get b <;> simp

/-- Only a text is the same key as a text. -/
theorem sameKey_text (w : World) (n : String) (k : Value) :
    w.sameKey (.str n) k = (Value.str n == k) := by
  rw [Bool.eq_iff_iff, beq_iff_eq, sameKey, tree_atom, Tree.str_same_iff, tree_eq_atom_iff]
  exact eq_comm

/-- Fields under names stay where they are, with the last values that further entries have under their
names, and the further ones with other keys follow. -/
theorem overlay_named_eq (base : Entries.Distinct fs) (extra : Entries) :
    Entries.overlay w.sameKey (Entries.named fs) extra =
      (Entries.named fs).map (fun e => (e.1, (Entries.last? (· == ·) extra e.1).getD e.2)) ++
        Entries.overlay w.sameKey [] (extra.filter fun e => e.1 ∉ (Entries.named fs).map (·.1)) := by
  have separate : Entries.Separate w.sameKey (Entries.named fs) := by
    rw [Entries.Separate, Entries.named, List.pairwise_map]
    refine (List.pairwise_map.mp base).imp fun ne k => ?_
    simp only [sameKey_text, beq_iff_eq, beq_eq_false_iff_ne]
    rintro rfl
    simpa using Ne.symm ne
  have split := Entries.overlay_append separate [] extra
  rw [List.append_nil] at split
  rw [split]
  congr 1
  · refine List.map_congr_left fun e he => ?_
    obtain ⟨f, -, rfl⟩ := List.mem_map.mp he
    simp only [Entries.last?, sameKey_text]
  · congr 1
    refine List.filter_congr fun e _ => ?_
    have keys : Entries.hasKey w.sameKey (Entries.named fs) e.1 =
        Entries.hasKey (· == ·) (Entries.named fs) e.1 := by
      simp only [Entries.hasKey, Entries.named, List.any_map, Function.comp_def, sameKey_text]
    rw [keys, Entries.hasKey_eq, decide_not]

end World
end OpenApiDoc
