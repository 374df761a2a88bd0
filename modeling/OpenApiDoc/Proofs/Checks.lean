import OpenApiDoc.Proofs.Overlays

/-! # What checks read from data

What the check of a field reads from data depends on what the data looks like, and so does whether it
reads anything at all.

* `Tree.asText?`, `Tree.fields?` and `Tree.listed?` are the readings of views.
* `Checked.Denotes` ties a check to a reading; `Field.text_denotes`, `Field.mapping_denotes` and
  `Field.list_denotes` are about the checks.
* `Field.mapping_texts`: the names that are read from a mapping, whatever its values are. -/

namespace OpenApiDoc

open World

namespace Tree

variable {β : Type}

/-- A text, or one that bytes encode. -/
def asText? : Tree → Option String
  | .str s => some s
  | .atom (.bytes bs) => Text.ofUtf8? bs
  | _ => Option.none

/-- The entries of a mapping under texts. Of two keys that are read as one text, the first keeps its
place and the last its value. -/
def fields? (value : Tree → Option β) : Tree → Option (List (String × β))
  | .mapping es => (es.mapM fun e : Tree × Tree =>
      e.1.asText?.bind fun k => (value e.2).map fun u => (k, u)).map Entries.literal
  | _ => Option.none

/-- The items of a list or a tuple. -/
def listed? (item : Tree → Option β) : Tree → Option (List β)
  | .list ts => ts.mapM item
  | .tuple ts => ts.mapM item
  | _ => Option.none

end Tree

theorem mapM_eq_of_forall₂ {α β : Type} {f : α → Option β} {xs : List α} {ys : List β}
    (h : List.Forall₂ (fun x y => f x = some y) xs ys) : xs.mapM f = some ys := by
  induction h with
  | nil => rfl
  | cons first _ ih => simp [List.mapM_cons, first, ih]

namespace Checked

variable {α β γ δ : Type}

/-- The check reads what the reading says. Without a reading it fails. -/
def Denotes (c : Checked α) (R : α → β → Prop) : Option β → Prop
  | some b => ∃ a, c = .ok a ∧ R a b
  | none => ∀ a, c ≠ .ok a

variable {R : α → β → Prop} {S : γ → δ → Prop} {c : Checked α} {t : Option β}

theorem Denotes.ok (h : c.Denotes R t) {a : α} (read : c = .ok a) : ∃ b, t = some b ∧ R a b := by
  cases t with
  | none => exact absurd read (h a)
  | some b =>
      obtain ⟨a', read', hb⟩ := h
      cases read'.symm.trans read
      exact ⟨b, rfl, hb⟩

theorem Denotes.refuse (p : Problem) (given : Input) :
    (Checked.refuse p given : Checked α).Denotes R none := nofun

theorem Denotes.map (h : c.Denotes R t) {f : α → γ} {g : β → δ} (hf : ∀ a b, R a b → S (f a) (g b)) :
    Denotes (c.map f) S (t.map g) := by
  cases t with
  | none => exact fun x read => (map_eq_ok.mp read).elim fun a ha => h a ha.1
  | some b =>
      obtain ⟨a, rfl, hb⟩ := h
      exact ⟨f a, rfl, hf a b hb⟩

theorem Denotes.under (h : c.Denotes R t) (s : Step) : (c.under s).Denotes R t := by
  cases t with
  | none => exact fun a read => h a (under_eq_ok.mp read)
  | some b => exact h.imp fun a ha => ⟨under_eq_ok.mpr ha.1, ha.2⟩

theorem Denotes.both (h : c.Denotes R t) {d : Checked γ} {u : Option δ} (h' : d.Denotes S u) :
    (Checked.both c d).Denotes (fun p q => R p.1 q.1 ∧ S p.2 q.2)
      (t.bind fun b => u.map fun e => (b, e)) := by
  cases t with
  | none => exact fun p read => h p.1 (both_eq_ok.mp read).1
  | some b =>
      cases u with
      | none => exact fun p read => h' p.2 (both_eq_ok.mp read).2
      | some e =>
          obtain ⟨a, ha, hb⟩ := h
          obtain ⟨x, hx, he⟩ := h'
          exact ⟨(a, x), both_eq_ok.mpr ⟨ha, hx⟩, hb, he⟩

/-- A check for each member of a list. -/
theorem Denotes.all {check : γ → Checked α} {view : δ → Option β} {xs : List γ} {ts : List δ}
    (h : List.Forall₂ (fun x t => (check x).Denotes R (view t)) xs ts) :
    (Checked.all (xs.map check)).Denotes (List.Forall₂ R) (ts.mapM view) := by
  induction h with
  | nil => exact ⟨[], rfl, .nil⟩
  | @cons x t xs ts first _ ih =>
      have both := (first.both ih).map (S := List.Forall₂ R) (f := fun p => p.1 :: p.2)
        (g := fun p => p.1 :: p.2) fun _ _ h => .cons h.1 h.2
      rw [List.map_cons, Checked.all, List.mapM_cons]
      convert both using 1
      cases view t <;> cases ts.mapM view <;> rfl

/-- A list of checks one of which fails. -/
theorem Denotes.all_cons_none {cs : List (Checked α)} {S : List α → δ → Prop} (h : ∀ a, c ≠ .ok a) :
    (Checked.all (c :: cs)).Denotes S none := by
  intro xs read
  obtain ⟨p, both, -⟩ := map_eq_ok.mp read
  exact h p.1 (both_eq_ok.mp both).1

end Checked

namespace Field

open Checked

variable {α β : Type} {w : World} {v : Value} {t : Tree} {R : α → β → Prop}

theorem text_denotes (h : w.Shows v t) : (text (.value v)).Denotes (· = ·) t.asText? := by
  cases v with
  | obj a =>
      cases t with
      | atom b => cases h.atom
      | _ => exact .refuse _ _
  | atom a =>
      obtain rfl : .atom a = t := by simpa using h.2
      cases a with
      | str s => exact ⟨s, rfl, rfl⟩
      | bytes bs =>
          simp only [text, Tree.asText?]
          cases Text.ofUtf8? bs with
          | none => exact .refuse _ _
          | some s => exact ⟨s, rfl, rfl⟩
      | _ => exact .refuse _ _

/-- Anything is read as it is. -/
theorem any_denotes (h : w.Shows v t) : (any v).Denotes w.Shows (some t) := ⟨v, rfl, h⟩

theorem mapping_denotes {check : Value → Checked α} {view : Tree → Option β} (h : w.Shows v t)
    (each : ∀ {x s}, w.Shows x s → (check x).Denotes R (view s)) :
    (mapping w check (.value v)).Denotes (Entries.Paired R) (t.fields? view) := by
  cases hm : v.mapping? w with
  | none =>
      simp only [mapping, hm]
      cases t with
      | mapping ts =>
          obtain ⟨a, es, rfl, hg, -⟩ := h.mapping
          cases (Value.mapping?_of_get hg).symm.trans hm
      | _ => exact .refuse _ _
  | some es =>
      obtain ⟨a, rfl, hg⟩ := Value.eq_obj_of_mapping? hm
      obtain ⟨data, rfl⟩ := h
      simp only [mapping, hm, data.tree_mapping hg, Tree.fields?]
      have read : (Checked.all (es.map (entry w check))).Denotes (Entries.Paired R)
          ((es.map fun e => (w.tree e.1, w.tree e.2)).mapM fun e : Tree × Tree =>
            e.1.asText?.bind fun k => (view e.2).map fun u => (k, u)) := by
        refine Denotes.all ?_
        rw [List.forall₂_map_right_iff, List.forall₂_same]
        intro e he
        obtain ⟨key, value⟩ := data.entries hm e he
        exact (((text_denotes key.shows).under _).under _).both ((each value.shows).under _)
      exact read.map fun fs us paired => Entries.Paired.overlay .nil paired

/-- A record is read as the list of its fields, of which none will do. -/
theorem list_denotes {check : Input → Checked α} {view : Tree → Option β} (h : w.Shows v t)
    (each : ∀ {x s}, w.Shows x s → (check (.value x)).Denotes R (view s))
    (fails : ∀ name x a, check (.field name x) ≠ .ok a) :
    (list w check (.value v)).Denotes (List.Forall₂ R) (t.listed? view) := by
  cases v with
  | atom a =>
      obtain rfl : .atom a = t := by simpa using h.2
      exact .refuse _ _
  | obj a =>
      have kind := h.1.kind
      have shown := h.obj
      have items {xs : List Value} (part : ∀ x ∈ xs, w.IsData x) :
          (Checked.all (((xs.map Input.value).zipIdx).map fun p =>
            (check p.1).under (.index p.2))).Denotes (List.Forall₂ R) ((xs.map w.tree).mapM view) := by
        refine Denotes.all ?_
        have inputs : List.Forall₂ (fun i t => (check i).Denotes R (view t)) (xs.map Input.value)
            (xs.map w.tree) := by
          rw [List.forall₂_map_left_iff, List.forall₂_map_right_iff, List.forall₂_same]
          exact fun x hx => each (part x hx).shows
        rw [← List.zipIdx_map_fst 0 (xs.map Input.value), List.forall₂_map_left_iff] at inputs
        exact inputs.imp fun p _ h => h.under _
      cases hg : w.get a with
      | list xs | tuple xs =>
          rw [hg] at shown
          cases shown
          simp only [list, items?, hg, Tree.listed?]
          exact items fun x hx => h.1.part (hg ▸ hx)
      | node f o | operation op =>
          rw [hg] at shown
          cases shown
          simp only [list, items?, hg, Tree.listed?]
          exact .all_cons_none fun b read => fails _ _ b (under_eq_ok.mp read)
      | mapping es | moment m =>
          rw [hg] at shown
          cases shown
          simp only [list, items?, hg, Tree.listed?]
          exact .refuse _ _
      | _ => simp [hg, Object.isData] at kind

theorem orNone_isSome {check : Input → Checked α} {y : Option α}
    (h : orNone check (.value v) = .ok y) : y.isSome = !v.isNone := by
  unfold orNone at h
  split at h
  next same =>
    cases same
    cases h
    rfl
  next given =>
    obtain ⟨x, -, rfl⟩ := map_eq_ok.mp h
    have present : v ≠ .none := by
      rintro rfl
      exact given rfl
    simpa [Value.isNone] using present

/-- What may be absent passes its check if it is there and does so. -/
theorem orNone_accepted {check : Input → Checked α} {o : Option β}
    (read : (check (.value v)).Denotes R o) (given : v ≠ .none → ∃ b, o = some b) :
    ∃ y, orNone check (.value v) = .ok y := by
  unfold orNone
  split
  next => exact ⟨none, rfl⟩
  next present =>
    obtain ⟨b, rfl⟩ := given (by rintro rfl; exact present rfl)
    obtain ⟨a, ha, -⟩ := read
    exact ⟨some a, map_eq_ok.mpr ⟨a, ha, rfl⟩⟩

/-- Only atoms are read as texts, so the world does not matter. -/
theorem text_asText {s : String} (h : text (.value v) = .ok s) : (w.tree v).asText? = some s := by
  cases v with
  | obj a => cases h
  | atom a =>
      obtain ⟨_, hs, rfl⟩ := (text_denotes (shows_atom w a)).ok h
      rw [tree_atom, hs]

theorem orNone_asText {s : Option String} (h : orNone text (.value v) = .ok s) :
    s = (w.tree v).asText? := by
  cases s with
  | some s => rw [text_asText (orNone_ok h)]
  | none =>
      obtain rfl : v = .none := by simpa [Value.isNone] using orNone_isSome h
      rfl

/-- The names under which a mapping is read, whatever its values are. -/
theorem mapping_texts {check : Value → Checked α} {es : Entries} {gs : List (String × α)}
    (hm : v.mapping? w = some es) (h : mapping w check (.value v) = .ok gs) (w' : World) :
    ∃ ks, es.mapM (fun e => (w'.tree e.1).asText?) = some ks ∧ gs.map (·.1) = ks.eraseDups := by
  simp only [mapping, hm, map_eq_ok] at h
  obtain ⟨read, all, rfl⟩ := h
  have names := (Entries.literal_keepsLast read).names
  refine ⟨read.map Prod.fst, ?_, names⟩
  refine mapM_eq_of_forall₂ (List.forall₂_map_right_iff.mpr ((all_paired all).imp ?_))
  intro e f first
  simp only [entry, both_eq_ok, under_eq_ok] at first
  exact text_asText first.1

end Field
end OpenApiDoc
