import OpenApiDoc.Proofs.Fields

/-! # Places in views

Where a part stands in a view, as the steps that lead to it.

* `Tree.at?` follows the steps: a name leads to an entry of a mapping, a number to an item of a list.
* What stands under a name stays there when entries under other keys are laid over
  (`Tree.find?_overlay`), and what is inserted stands under its name (`Entries.lookup_insert_self`). -/

namespace OpenApiDoc

namespace Entries

variable {α : Type}

theorem lookup_cons_other {fs : List (String × α)} {n m : String} (h : m ≠ n) (v : α) :
    ((n, v) :: fs).lookup m = fs.lookup m := by
  rw [List.lookup_cons, beq_eq_false_iff_ne.mpr h]

theorem lookup_map {β : Type} (g : α → β) (fs : List (String × α)) (n : String) :
    (fs.map fun f => (f.1, g f.2)).lookup n = (fs.lookup n).map g := by
  induction fs with
  | nil => rfl
  | cons f fs ih =>
      obtain ⟨m, v⟩ := f
      by_cases h : n = m
      · simp [h]
      · rw [List.map_cons, lookup_cons_other h, lookup_cons_other h, ih]

/-- Of entries with distinct names, those are left whose values pass. -/
theorem lookup_filter (p : α → Bool) {fs : List (String × α)} (distinct : Distinct fs)
    (n : String) : (fs.filter fun f => p f.2).lookup n = (fs.lookup n).filter p := by
  induction fs with
  | nil => rfl
  | cons f fs ih =>
      obtain ⟨m, v⟩ := f
      obtain ⟨fresh, distinct⟩ := List.nodup_cons.mp distinct
      have rest := ih distinct
      by_cases same : n = m
      · subst same
        have missing : fs.lookup n = none :=
          List.lookup_eq_none_iff.mpr fun f hf => bne_iff_ne.mpr fun h =>
            fresh (List.mem_map.mpr ⟨f, hf, h.symm⟩)
        cases kept : p v
        · rw [List.filter_cons_of_neg (by simp [kept]), rest, missing]
          simp [kept, Option.filter_some]
        · simp [kept, Option.filter_some]
      · cases kept : p v
        · simpa [kept, lookup_cons_other same] using rest
        · simpa [kept, lookup_cons_other same] using rest

theorem lookup_insert_self (fs : List (String × α)) (n : String) (v : α) :
    (insert (· == ·) fs n v).lookup n = some v := by
  induction fs with
  | nil => simp [insert]
  | cons f fs ih =>
      obtain ⟨m, u⟩ := f
      by_cases h : m = n
      · simp [insert, h]
      · rw [insert, if_neg (by simpa using h), lookup_cons_other (Ne.symm h), ih]

theorem lookup_insert_other (fs : List (String × α)) {n m : String} (h : m ≠ n) (v : α) :
    (insert (· == ·) fs n v).lookup m = fs.lookup m := by
  induction fs with
  | nil => exact lookup_cons_other h v
  | cons f fs ih =>
      obtain ⟨l, u⟩ := f
      by_cases hl : l = n
      · subst hl
        rw [insert, if_pos (by simp), lookup_cons_other h, lookup_cons_other h]
      · rw [insert, if_neg (by simpa using hl)]
        by_cases hm : m = l
        · simp [hm]
        · rw [lookup_cons_other hm, lookup_cons_other hm, ih]

/-- Entries under other names do not count. -/
theorem lookup_overlay {fs extra : List (String × α)} {n : String} (h : n ∉ extra.map (·.1)) :
    (overlayNames fs extra).lookup n = fs.lookup n := by
  induction extra generalizing fs with
  | nil => rfl
  | cons e extra ih =>
      simp only [List.map_cons, List.mem_cons, not_or] at h
      rw [overlayNames, overlay_cons, ← overlayNames, ih h.2, lookup_insert_other _ h.1]

/-- Of the entries under a name, the last one counts. -/
theorem lookup_overlay_last {fs front back : List (String × α)} {n : String} {v : α}
    (h : n ∉ back.map (·.1)) : (overlayNames fs (front ++ (n, v) :: back)).lookup n = some v := by
  have split : overlayNames fs (front ++ (n, v) :: back) =
      overlayNames (insert (· == ·) (overlayNames fs front) n v) back := by
    simp [overlayNames, overlay, List.foldl_append]
  rw [split, lookup_overlay h, lookup_insert_self]

/-- What stands under a name among the further entries counts. -/
theorem lookup_overlay_found {fs extra : List (String × α)} (hd : Distinct extra) {n : String} {v : α}
    (h : extra.lookup n = some v) : (overlayNames fs extra).lookup n = some v := by
  obtain ⟨front, back, rfl, -⟩ := List.lookup_eq_some_iff.mp h
  refine lookup_overlay_last ?_
  simp only [Distinct, List.map_append, List.map_cons, List.nodup_append, List.nodup_cons] at hd
  exact hd.2.1.1

end Entries

namespace Tree

/-- The part that a step leads to. -/
def part? : Tree → Step → Option Tree
  | .mapping es, .name s => Entries.find? same es (.str s)
  | .list ts, .index (.ofNat i) => ts[i]?
  | _, _ => Option.none

/-- The part at a place. -/
def at? (t : Tree) (place : List Step) : Option Tree := place.foldlM part? t

variable {t : Tree}

@[simp] theorem at?_nil (t : Tree) : t.at? [] = some t := rfl

@[simp] theorem at?_cons (t : Tree) (s : Step) (place : List Step) :
    t.at? (s :: place) = (t.part? s).bind (·.at? place) := rfl

@[simp] theorem part?_list (ts : List Tree) (i : Nat) :
    (Tree.list ts).part? (.index i) = ts[i]? := rfl

theorem at?_append (t : Tree) (place further : List Step) :
    t.at? (place ++ further) = (t.at? place).bind (·.at? further) := by
  simp [at?, List.foldlM_append]

theorem same_str_iff {n : String} : t.same (.str n) = true ↔ t = .str n := by
  cases t with
  | atom a => cases a <;> simp [same, Atom.same, Atom.equals, Atom.number?]
  | _ => simp [same]

theorem str_same_iff {n : String} : (Tree.str n).same t = true ↔ t = .str n := by
  cases t with
  | atom a => cases a <;> simp [same, Atom.same, Atom.equals, Atom.number?, eq_comm (a := n)]
  | _ => simp [same]

theorem find?_record (fs : List (String × Tree)) (n : String) :
    Entries.find? same (fs.map fun f => (Tree.str f.1, f.2)) (.str n) = fs.lookup n := by
  induction fs with
  | nil => rfl
  | cons f fs ih =>
      obtain ⟨m, u⟩ := f
      by_cases h : m = n
      · simp [Entries.find?, h, same]
      · rw [Entries.lookup_cons_other (Ne.symm h), ← ih]
        simp [Entries.find?, h, same]

@[simp] theorem part?_record (fs : List (String × Tree)) (n : String) :
    (record fs).part? (.name n) = fs.lookup n :=
  find?_record fs n

theorem find?_insert_other {es : List (Tree × Tree)} {k : Tree} {n : String} (h : k ≠ .str n)
    (u : Tree) : Entries.find? same (Entries.insert same es k u) (.str n) =
      Entries.find? same es (.str n) := by
  induction es with
  | nil => simp [Entries.insert, Entries.find?, mt same_str_iff.mp h]
  | cons e es ih =>
      obtain ⟨l, x⟩ := e
      by_cases found : l = .str n
      · have other : (Tree.str n).same k = false := Bool.eq_false_iff.mpr (mt str_same_iff.mp h)
        simp [Entries.insert, Entries.find?, found, other, same_str_iff.mpr]
      · by_cases hl : l.same k <;>
          simp [Entries.insert, Entries.find?, hl, mt same_str_iff.mp found, ih]

/-- What stands under a name, when the entries are gone through one by one. -/
theorem find?_forall₂ {R : Tree → Tree → Prop} {n : String} {es us : List (Tree × Tree)}
    (h : List.Forall₂ (fun e u => u.1 = e.1 ∧ (e.1 = .str n → R e.2 u.2)) es us) {t : Tree}
    (ht : Entries.find? same es (.str n) = some t) :
    ∃ u, Entries.find? same us (.str n) = some u ∧ R t u := by
  induction h with
  | nil => cases ht
  | @cons e u es us heu _ ih =>
      obtain ⟨k, x⟩ := e
      obtain ⟨l, y⟩ := u
      obtain ⟨rfl, hr⟩ : l = k ∧ (k = .str n → R x y) := heu
      by_cases hk : l.same (.str n)
      · obtain rfl : x = t := by simpa [Entries.find?, hk] using ht
        exact ⟨y, by simp [Entries.find?, hk], hr (same_str_iff.mp hk)⟩
      · rw [Entries.find?, if_neg hk] at ht ⊢
        exact ih ht

/-- Entries under other keys do not count. -/
theorem find?_overlay {es extra : List (Tree × Tree)} {n : String}
    (h : ∀ e ∈ extra, e.1 ≠ .str n) :
    Entries.find? same (Entries.overlay same es extra) (.str n) =
      Entries.find? same es (.str n) := by
  induction extra generalizing es with
  | nil => rfl
  | cons e extra ih =>
      rw [Entries.overlay_cons, ih fun f hf => h f (List.mem_cons_of_mem e hf),
        find?_insert_other (h e (by simp))]

end Tree
end OpenApiDoc
