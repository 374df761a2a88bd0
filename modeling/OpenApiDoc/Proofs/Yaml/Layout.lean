import OpenApiDoc.Proofs.Yaml.Scalars

/-! # The layout determines the form

A form of basic scalars, with texts for keys, is known from its lines.

* `Form.Basic` holds of the forms in question. Any collection in them may have an anchor.
* `Form.After` holds of what may follow a form: it is indented less than the form's further lines,
  and does not go on with its items.
* `Form.write_inj` says that a form is known from what is written, whatever follows, and
  `Form.document_inj` that a document is. -/

namespace OpenApiDoc.Yaml

open Folding Style

/-! ### Lines and their indentation -/

namespace Folding

theorem blanks_append_inj {m n : Nat} {c d : Char} {t u : List Char} (hc : c ≠ ' ') (hd : d ≠ ' ')
    (h : blanks m ++ c :: t = blanks n ++ d :: u) : m = n ∧ c = d ∧ t = u := by
  induction m generalizing n with
  | zero =>
      cases n with
      | zero => exact ⟨rfl, List.cons.inj h⟩
      | succ n => exact absurd (List.cons.inj h).1 hc
  | succ m ih =>
      cases n with
      | zero => exact absurd (List.cons.inj h).1.symm hd
      | succ n =>
          obtain ⟨rfl, first, rest⟩ := ih (List.cons.inj h).2
          exact ⟨rfl, first, rest⟩

theorem blanks_add (m n : Nat) : blanks (m + n) = blanks m ++ blanks n := by
  simp [blanks]

theorem Dedented.mono {m n : Nat} (h : m ≤ n) {r : List Char} (hr : Dedented m r) :
    Dedented n r := by
  rintro ⟨t, ht⟩
  obtain ⟨k, rfl⟩ := Nat.exists_eq_add_of_le h
  exact hr ⟨blanks k ++ t, by rw [← ht, blanks_add, List.append_assoc]⟩

theorem dedented_nil {n : Nat} (h : 0 < n) : Dedented n [] := by
  rintro ⟨t, ht⟩
  obtain ⟨k, rfl⟩ := Nat.exists_eq_add_of_lt h
  simp [blanks] at ht

/-- A line is not indented deeper than its first character stands. -/
theorem dedented_line {m n : Nat} (h : m < n) {c : Char} (hc : c ≠ ' ') (t : List Char) :
    Dedented n (blanks m ++ c :: t) := by
  rintro ⟨u, hu⟩
  obtain ⟨k, rfl⟩ := Nat.exists_eq_add_of_lt h
  rw [Nat.add_assoc, blanks_add, List.append_assoc, List.append_cancel_left_eq, blanks_succ] at hu
  exact hc (List.cons.inj hu).1.symm

end Folding

/-! ### Anchors -/

/-- What follows an anchor's name. -/
def Unnamed (r : List Char) : Prop := ∀ c ∈ r.head?, c.isDigit = false

theorem takeWhile_digits {ds r : List Char} (hd : ∀ c ∈ ds, c.isDigit) (hr : Unnamed r) :
    (ds ++ r).takeWhile Char.isDigit = ds := by
  rw [List.takeWhile_append_of_pos hd]
  cases r with
  | nil => simp
  | cons c r => simp [hr c (by simp)]

theorem digits_append_inj {u v r s : List Char} (hu : ∀ c ∈ u, c.isDigit) (hv : ∀ c ∈ v, c.isDigit)
    (hr : Unnamed r) (hs : Unnamed s) (h : u ++ r = v ++ s) : u = v ∧ r = s := by
  have names : u = v := by rw [← takeWhile_digits hu hr, h, takeWhile_digits hv hs]
  subst names
  exact ⟨rfl, List.append_cancel_left h⟩

/-- The digits in an anchor's name are those of its number, behind zeros. -/
theorem anchorName_eq (n : Nat) :
    anchorName n = 'i' :: 'd' :: (List.replicate (3 - (Nat.toDigits 10 n).length) '0' ++
      Nat.toDigits 10 n) := by
  have id : "id".toList = ['i', 'd'] := rfl
  simp [anchorName, padded, id, Nat.repr_eq_ofList_toDigits]

/-- The anchors of different numbers have different names. -/
theorem anchorName_append_inj {m n : Nat} {r s : List Char} (hr : Unnamed r) (hs : Unnamed s)
    (h : anchorName m ++ r = anchorName n ++ s) : m = n ∧ r = s := by
  have digits (k z : Nat) : ∀ c ∈ List.replicate z '0' ++ Nat.toDigits 10 k, c.isDigit := by
    intro c hc
    rcases List.mem_append.mp hc with hc | hc
    · rw [List.eq_of_mem_replicate hc]
      decide
    · exact Nat.isDigit_of_mem_toDigits (by decide) (by decide) hc
  have read (k z : Nat) :
      Nat.ofDigitChars 10 (List.replicate z '0' ++ Nat.toDigits 10 k) 0 = k := by
    have zeros : Nat.ofDigitChars 10 (List.replicate z '0') 0 = 0 := by
      induction z with
      | zero => rfl
      | succ z ih => simpa [List.replicate_succ, Nat.ofDigitChars] using ih
    rw [Nat.ofDigitChars_append, zeros, Nat.ofDigitChars_toDigits (by decide) (by decide)]
  rw [anchorName_eq, anchorName_eq] at h
  obtain ⟨names, rest⟩ := digits_append_inj (digits m _) (digits n _) hr hs
    (List.cons.inj (List.cons.inj h).2).2
  exact ⟨by rw [← read m, names, read n], rest⟩

namespace Form

/-! ### What may follow a form -/

/-- A form whose scalars are basic and have no anchors, with texts for keys. -/
inductive Basic : Form → Prop
  | alias (n : Nat) : Basic (.alias n)
  | scalar {s : Scalar} (hs : s.IsBasic) : Basic (.scalar none s)
  | sequence (anchor : Option Nat) {items : List Form} (each : ∀ x ∈ items, Basic x) :
      Basic (.sequence anchor items)
  | mapping (anchor : Option Nat) {entries : List (Form × Form)}
      (keys : ∀ e ∈ entries, ∃ u, e.1 = .scalar none (.text u)) (each : ∀ e ∈ entries, Basic e.2) :
      Basic (.mapping anchor entries)

/-- What may follow a form: it does not go on with the form's further lines, and with items only
behind an item. -/
structure After (place : Place) (indent : Nat) (r : List Char) : Prop where
  dedented : Dedented (indent + 1) r
  noItem : place ≠ .item → ¬ (blanks indent ++ ['-', ' ']) <+: r

/-- The end of a mapping: nothing, or a line that is less indented. -/
def Ends (indent : Nat) (r : List Char) : Prop := r = [] ∨ Dedented indent r

theorem After.ends {place : Place} {indent : Nat} {r : List Char} (h : After place indent r) :
    Ends (indent + 2) r := .inr (h.dedented.mono (by omega))

theorem Ends.after {indent : Nat} {r : List Char} (h : Ends indent r) (place : Place) :
    After place indent r := by
  rcases h with rfl | h
  · refine ⟨dedented_nil (by omega), fun _ hd => ?_⟩
    simp at hd
  · refine ⟨h.mono (by omega), fun _ hd => ?_⟩
    exact h ((List.prefix_append _ _).trans hd)

/-- What begins a line in place of an item. -/
def Starts (c : Char) (t : List Char) : Prop := c ≠ ' ' ∧ (c = '-' → ¬ [' '] <+: t)

theorem Starts.after {c : Char} {t : List Char} (h : Starts c t) (place : Place) (indent : Nat) :
    After place indent (blanks indent ++ c :: t) := by
  refine ⟨dedented_line (by omega) h.1 t, ?_⟩
  rintro - ⟨u, hu⟩
  rw [List.append_assoc, List.append_cancel_left_eq] at hu
  obtain ⟨hc, ht⟩ := List.cons.inj hu
  exact h.2 hc.symm ⟨u, ht⟩

/-! ### How forms begin -/

/-- Behind a dash and behind the marks of a long key there is a blank. -/
theorem write_blank {place : Place} (h : place ≠ .value) (indent column : Nat) (f : Form) :
    ∃ t, write place indent column f = ' ' :: t := by
  have inline {anchor : Option Nat} {k : Nat} {lines : List Char} :
      ∃ t, placed place anchor k lines = ' ' :: t := by
    cases anchor with
    | none => exact ⟨_, by simp [placed, startsInline, h]; rfl⟩
    | some n => exact ⟨_, by simp [placed, startsInline]; rfl⟩
  cases f with
  | «alias» n => exact ⟨_, rfl⟩
  | scalar anchor s => exact ⟨_, rfl⟩
  | sequence anchor items =>
      cases items with
      | nil => exact ⟨_, rfl⟩
      | cons x xs =>
          rw [write]
          exact inline
  | mapping anchor entries =>
      cases entries with
      | nil => exact ⟨_, rfl⟩
      | cons e es =>
          rw [write]
          exact inline

/-- Behind a colon there is a separator. -/
theorem isSeparated_write (place : Place) (indent column : Nat) (f : Form) (r : List Char) :
    isSeparated (write place indent column f ++ r) := by
  by_cases h : place = .value
  · subst h
    have block {anchor : Option Nat} {k : Nat} {lines : List Char} :
        isSeparated (placed .value anchor k lines ++ r) := by
      cases anchor <;> rfl
    cases f with
    | «alias» n => rfl
    | scalar anchor s => rfl
    | sequence anchor items =>
        cases items with
        | nil => rfl
        | cons x xs =>
            rw [write]
            exact block
    | mapping anchor entries =>
        cases entries with
        | nil => rfl
        | cons e es =>
            rw [write]
            exact block
  · obtain ⟨t, ht⟩ := write_blank h indent column f
    rw [ht]
    rfl

theorem write_scalar {s : Scalar} (hs : s.IsBasic) (place : Place) (indent column : Nat)
    (r : List Char) : write place indent column (.scalar none s) ++ r =
      ' ' :: (scalarText s true (indent + 2) (column + 1) ++ '\n' :: r) := by
  have line : write place indent column (.scalar none s) =
      ' ' :: (scalarText s true (indent + 2) (column + 1) ++ ['\n']) := by
    cases hs <;> rfl
  simp [line]

/-- The lines of an entry begin with the key, or with a question mark. -/
theorem writeEntries_cons (indent : Nat) (u : String) (v : Form) (es : List (Form × Form)) :
    (∃ column, writeEntries indent ((.scalar none (.text u), v) :: es) =
      blanks indent ++ (scalarText (.text u) false 0 0 ++
        ':' :: (write .value indent column v ++ writeEntries indent es)) ∧
        column = indent + (scalarText (.text u) false 0 0).length + 1) ∨
    writeEntries indent ((.scalar none (.text u), v) :: es) =
      blanks indent ++ '?' :: ' ' :: (scalarText (.text u) true (indent + 2) (indent + 2) ++ '\n' ::
        (blanks indent ++ ':' :: (write .long indent (indent + 1) v ++ writeEntries indent es))) := by
  rw [writeEntries]
  by_cases hk : isShortKey (.scalar none (.text u))
  · refine .inl ⟨_, ?_, rfl⟩
    simp [hk, keyText, spaced, anchorMark]
  · refine .inr ?_
    rw [if_neg hk]
    simp only [List.append_assoc, List.cons_append, write_scalar (.text u)]

theorem starts_of_head {c : Char} {t : List Char} (hc : c ∉ [' ', '\n', '*', '&', '[', '\x7b'])
    (hm : isBlockMark c → ∃ d u, t = d :: u ∧ d ≠ ' ') (r : List Char) : Starts c (t ++ r) := by
  refine ⟨fun h => hc (by simp [h]), ?_⟩
  rintro rfl ⟨w, hw⟩
  obtain ⟨d, u, rfl, hd⟩ := hm rfl
  exact hd (List.cons.inj hw).1.symm

theorem starts_entries (indent : Nat) (u : String) (v : Form) (es : List (Form × Form)) :
    ∃ c t, writeEntries indent ((.scalar none (.text u), v) :: es) = blanks indent ++ c :: t ∧
      ∀ r, Starts c (t ++ r) := by
  rcases writeEntries_cons indent u v es with ⟨column, hw, -⟩ | hw
  · obtain ⟨c, t, hk, hc, hm⟩ := scalarText_head (.text u) false 0 0
    rw [hk, List.cons_append] at hw
    refine ⟨c, _, hw, fun r => ?_⟩
    rw [List.append_assoc]
    exact starts_of_head hc hm _
  · exact ⟨'?', _, hw, fun r => ⟨by decide, fun h => absurd h (by decide)⟩⟩

theorem after_entries {indent : Nat} {es : List (Form × Form)} {r : List Char} (hr : Ends indent r)
    (keys : ∀ e ∈ es, ∃ u, e.1 = .scalar none (.text u)) (place : Place) :
    After place indent (writeEntries indent es ++ r) := by
  cases es with
  | nil => exact hr.after place
  | cons e es =>
      obtain ⟨k, v⟩ := e
      obtain ⟨u, rfl⟩ := keys (k, v) (by simp)
      obtain ⟨c, t, hw, hc⟩ := starts_entries indent u v es
      rw [hw, List.append_assoc]
      exact (hc r).after place indent

theorem after_items {indent : Nat} {xs : List Form} {r : List Char} (hr : After .value indent r) :
    After .item indent (writeItems indent xs ++ r) := by
  refine ⟨?_, fun h => absurd rfl h⟩
  cases xs with
  | nil => exact hr.dedented
  | cons x xs =>
      rw [writeItems, List.append_assoc]
      exact dedented_line (by omega) (by decide) _

/-- Items are not taken for entries. -/
theorem items_ne_entries {m n : Nat} {x : Form} {xs : List Form} {u : String} {v : Form}
    {es : List (Form × Form)} {r s : List Char} :
    writeItems m (x :: xs) ++ r ≠ writeEntries n ((.scalar none (.text u), v) :: es) ++ s := by
  obtain ⟨w, hw⟩ := write_blank (show Place.item ≠ .value by decide) m (m + 1) x
  obtain ⟨c, t, he, hc⟩ := starts_entries n u v es
  rw [writeItems, hw, he, List.append_assoc, List.append_assoc]
  intro h
  obtain ⟨-, rfl, rest⟩ := blanks_append_inj (by decide) (hc []).1 h
  refine (hc s).2 rfl ⟨w ++ writeItems m xs ++ r, ?_⟩
  simpa using rest

/-! ### Collections among other forms -/

/-- A collection with its anchor and what is written behind it. -/
inductive Collects (place : Place) (indent : Nat) : Form → Option Nat → List Char → Prop
  | noItems (anchor : Option Nat) :
      Collects place indent (.sequence anchor []) anchor [' ', '[', ']', '\n']
  | items (anchor : Option Nat) (x : Form) (xs : List Form) :
      Collects place indent (.sequence anchor (x :: xs)) anchor
        ('\n' :: writeItems (dashColumn place anchor indent) (x :: xs))
  | noEntries (anchor : Option Nat) :
      Collects place indent (.mapping anchor []) anchor [' ', '\x7b', '\x7d', '\n']
  | entries (anchor : Option Nat) (u : String) (v : Form) (es : List (Form × Form)) :
      Collects place indent (.mapping anchor ((.scalar none (.text u), v) :: es)) anchor
        ('\n' :: writeEntries (indent + 2) ((.scalar none (.text u), v) :: es))

theorem Basic.collects {f : Form} (h : f.Basic) (place : Place) (indent : Nat) :
    (∃ n, f = .alias n) ∨ (∃ s, f = .scalar none s ∧ s.IsBasic) ∨
      ∃ anchor t, Collects place indent f anchor t := by
  cases h with
  | «alias» n => exact .inl ⟨n, rfl⟩
  | scalar hs => exact .inr (.inl ⟨_, rfl, hs⟩)
  | @sequence anchor items each =>
      cases items with
      | nil => exact .inr (.inr ⟨anchor, _, .noItems anchor⟩)
      | cons x xs => exact .inr (.inr ⟨anchor, _, .items anchor x xs⟩)
  | @mapping anchor entries keys each =>
      cases entries with
      | nil => exact .inr (.inr ⟨anchor, _, .noEntries anchor⟩)
      | cons e es =>
          obtain ⟨k, v⟩ := e
          obtain ⟨u, rfl⟩ := keys (k, v) (by simp)
          exact .inr (.inr ⟨anchor, _, .entries anchor u v es⟩)

variable {place : Place} {indent : Nat} {f g : Form} {anchor : Option Nat} {t : List Char}

/-- Behind an anchor stands a blank with a bracket, or nothing more on the line. -/
theorem Collects.head (h : Collects place indent f anchor t) :
    (∃ u, t = ' ' :: '[' :: u) ∨ (∃ u, t = ' ' :: '\x7b' :: u) ∨ ∃ u, t = '\n' :: u := by
  cases h with
  | noItems => exact .inl ⟨_, rfl⟩
  | items => exact .inr (.inr ⟨_, rfl⟩)
  | noEntries => exact .inr (.inl ⟨_, rfl⟩)
  | entries => exact .inr (.inr ⟨_, rfl⟩)

theorem Collects.unnamed (h : Collects place indent f anchor t) (r : List Char) :
    Unnamed (t ++ r) := by
  rcases h.head with ⟨u, rfl⟩ | ⟨u, rfl⟩ | ⟨u, rfl⟩ <;>
    (intro c hc; obtain rfl := Option.mem_some.mp hc; decide)

theorem Collects.write_anchored {n : Nat} (h : Collects place indent f (some n) t) (column : Nat) :
    write place indent column f = ' ' :: '&' :: (anchorName n ++ t) := by
  cases h <;> simp [write, placed, startsInline, spaced, anchorMark]

/-- How a collection begins. -/
inductive Opens : List Char → Prop
  | sign {c : Char} (hc : c ∈ ['&', '[', '\x7b']) (t : List Char) : Opens (' ' :: c :: t)
  | block (t : List Char) : Opens ('\n' :: t)
  | mark {c : Char} (hc : isBlockMark c) (t : List Char) : Opens (' ' :: c :: ' ' :: t)
  | key (u : String) {a : List Char} (ha : isSeparated a) :
      Opens (' ' :: (scalarText (.text u) false 0 0 ++ ':' :: a))

/-- Lines that begin where a form stands, behind a blank. -/
structure Inline (indent : Nat) (lines u : List Char) : Prop where
  lines : lines = blanks indent ++ u
  head : ∃ c v, u = c :: v ∧ c ∉ [' ', '\n', '*', '&', '[', '\x7b']
  opens : ∀ r, Opens (' ' :: (u ++ r))

theorem inline_items (indent : Nat) (x : Form) (xs : List Form) :
    ∃ u, Inline indent (writeItems indent (x :: xs)) u := by
  obtain ⟨v, hv⟩ := write_blank (show Place.item ≠ .value by decide) indent (indent + 1) x
  rw [writeItems, hv]
  exact ⟨_, rfl, ⟨_, _, rfl, by decide⟩, fun r => .mark (by decide) _⟩

theorem inline_entries (indent : Nat) (u : String) (v : Form) (es : List (Form × Form)) :
    ∃ t, Inline indent (writeEntries indent ((.scalar none (.text u), v) :: es)) t := by
  rcases writeEntries_cons indent u v es with ⟨column, hw, -⟩ | hw
  · obtain ⟨c, t, hk, hc, -⟩ := scalarText_head (.text u) false 0 0
    refine ⟨_, hw, ⟨c, t ++ ':' :: (write .value indent column v ++ writeEntries indent es), ?_, hc⟩,
      fun r => ?_⟩
    · rw [hk, List.cons_append]
    · simp only [List.append_assoc, List.cons_append]
      exact .key u (isSeparated_write _ _ _ _ _)
  · exact ⟨_, hw, ⟨_, _, rfl, by decide⟩, fun r => .mark (by decide) _⟩

/-- A collection without an anchor is written behind its place. Behind a dash or the mark of a long
key, its first line has no indentation. -/
theorem Collects.write_bare (h : Collects place indent f none t) (column : Nat) :
    write place indent column f = t ∨
      ∃ lines u, t = '\n' :: lines ∧ Inline (indent + 2) lines u ∧
        write place indent column f = ' ' :: u := by
  have below {k : Nat} {lines : List Char} (hk : place ≠ .value → k = indent + 2)
      (hl : ∃ u, Inline k lines u) :
      placed place none k lines = '\n' :: lines ∨
        ∃ lines' u, '\n' :: lines = '\n' :: lines' ∧ Inline (indent + 2) lines' u ∧
          placed place none k lines = ' ' :: u := by
    by_cases hp : place = .value
    · exact .inl (by simp [placed, startsInline, hp])
    · obtain ⟨u, hu⟩ := hl
      obtain rfl := hk hp
      refine .inr ⟨lines, u, rfl, hu, ?_⟩
      simp [placed, startsInline, hp, hu.lines, blanks]
  cases h with
  | noItems => exact .inl rfl
  | noEntries => exact .inl rfl
  | items _ x xs =>
      rw [write]
      refine below (fun hp => ?_) (inline_items _ x xs)
      cases place with
      | value => exact absurd rfl hp
      | item => rfl
      | long => rfl
  | entries _ u v es =>
      rw [write]
      exact below (fun _ => rfl) (inline_entries _ u v es)

theorem Collects.opens (h : Collects place indent f anchor t) (column : Nat) (r : List Char) :
    Opens (write place indent column f ++ r) := by
  cases anchor with
  | some n =>
      rw [h.write_anchored]
      exact .sign (by decide) _
  | none =>
      rcases h.write_bare column with hw | ⟨lines, u, -, hu, hw⟩ <;> rw [hw]
      · rcases h.head with ⟨u, rfl⟩ | ⟨u, rfl⟩ | ⟨u, rfl⟩
        · exact .sign (by decide) _
        · exact .sign (by decide) _
        · exact .block _
      · exact hu.opens r

theorem Opens.ne_alias {t u : List Char} (h : Opens t) : t ≠ ' ' :: '*' :: u := by
  cases h with
  | @sign c hc t =>
      intro heq
      obtain rfl : c = '*' := (List.cons.inj (List.cons.inj heq).2).1
      exact absurd hc (by decide)
  | block t => exact fun heq => absurd (List.cons.inj heq).1 (by decide)
  | @mark c hc t =>
      intro heq
      obtain rfl : c = '*' := (List.cons.inj (List.cons.inj heq).2).1
      exact absurd hc (by decide)
  | key v ha =>
      obtain ⟨c, w, hw, hc, -⟩ := scalarText_head (.text v) false 0 0
      intro heq
      rw [hw] at heq
      obtain rfl : c = '*' := (List.cons.inj (List.cons.inj heq).2).1
      simp at hc

theorem Opens.ne_scalar {t r : List Char} (h : Opens t) {s : Scalar} (hs : s.IsBasic)
    {indent column : Nat} : t ≠ ' ' :: (scalarText s true indent column ++ '\n' :: r) := by
  obtain ⟨d, w, hw, hd, hm⟩ := scalarText_head hs true indent column
  intro heq
  cases h with
  | @sign c hc t =>
      rw [hw] at heq
      obtain rfl : c = d := (List.cons.inj (List.cons.inj heq).2).1
      have each : ∀ x ∈ ['&', '[', '\x7b'], x ∈ [' ', '\n', '*', '&', '[', '\x7b'] := by simp
      exact hd (each c hc)
  | block t => exact absurd (List.cons.inj heq).1 (by decide)
  | @mark c hc t =>
      rw [hw] at heq
      obtain ⟨rfl, rest⟩ := List.cons.inj (List.cons.inj heq).2
      obtain ⟨e, v, rfl, he⟩ := hm hc
      exact he (List.cons.inj rest).1.symm
  | key u ha => exact scalarText_key_ne_line hs ha (List.cons.inj heq).2

theorem Inline.ne {lines u r v : List Char} {c : Char} {k : Nat} (h : Inline k lines u)
    (hc : c ∈ ['&', '[', '\x7b']) : u ++ r ≠ c :: v := by
  obtain ⟨d, w, rfl, hd⟩ := h.head
  intro heq
  obtain rfl : d = c := (List.cons.inj heq).1
  have each : ∀ x ∈ ['&', '[', '\x7b'], x ∈ [' ', '\n', '*', '&', '[', '\x7b'] := by simp
  exact hd (each d hc)

/-- The anchor of a collection, and what is written behind it, are known from the text. -/
theorem Collects.inj {anchor' : Option Nat} {t' r s : List Char}
    (hf : Collects place indent f anchor t) (hg : Collects place indent g anchor' t') {column : Nat}
    (h : write place indent column f ++ r = write place indent column g ++ s) :
    anchor = anchor' ∧ t ++ r = t' ++ s := by
  have anchored {n : Nat} {f g : Form} {t t' r s : List Char} (hf : Collects place indent f (some n) t)
      (hg : Collects place indent g none t')
      (h : write place indent column f ++ r = write place indent column g ++ s) : False := by
    rw [hf.write_anchored] at h
    rcases hg.write_bare column with hw | ⟨lines, u, -, hu, hw⟩ <;> rw [hw] at h
    · rcases hg.head with ⟨u, rfl⟩ | ⟨u, rfl⟩ | ⟨u, rfl⟩
      · exact absurd (List.cons.inj (List.cons.inj h).2).1 (by decide)
      · exact absurd (List.cons.inj (List.cons.inj h).2).1 (by decide)
      · exact absurd (List.cons.inj h).1 (by decide)
    · exact hu.ne (by decide) (List.cons.inj h).2.symm
  have inline {f : Form} {t r u v lines : List Char} {k : Nat} (hf : Collects place indent f none t)
      (hu : Inline k lines u) (h : t ++ r = ' ' :: u ++ v) : False := by
    rcases hf.head with ⟨w, rfl⟩ | ⟨w, rfl⟩ | ⟨w, rfl⟩
    · exact hu.ne (by decide) (List.cons.inj h).2.symm
    · exact hu.ne (by decide) (List.cons.inj h).2.symm
    · exact absurd (List.cons.inj h).1 (by decide)
  cases anchor with
  | some m =>
      cases anchor' with
      | some n =>
          rw [hf.write_anchored, hg.write_anchored] at h
          simp only [List.cons_append, List.append_assoc, List.cons.injEq, true_and] at h
          obtain ⟨rfl, rest⟩ := anchorName_append_inj (hf.unnamed r) (hg.unnamed s) h
          exact ⟨rfl, rest⟩
      | none => exact (anchored hf hg h).elim
  | none =>
      cases anchor' with
      | some n => exact (anchored hg hf h.symm).elim
      | none =>
          refine ⟨rfl, ?_⟩
          rcases hf.write_bare column with hw | ⟨lines, u, ht, hu, hw⟩ <;>
            rcases hg.write_bare column with hw' | ⟨lines', u', ht', hu', hw'⟩ <;> rw [hw, hw'] at h
          · exact h
          · exact (inline hf hu' h).elim
          · exact (inline hg hu h.symm).elim
          · rw [ht, ht', hu.lines, hu'.lines]
            simpa using h

/-- What is written like a collection is a collection with the same anchor. -/
theorem Collects.same {r s : List Char} (hf : Collects place indent f anchor t) (hg : g.Basic)
    {column : Nat} (h : write place indent column f ++ r = write place indent column g ++ s) :
    ∃ u, Collects place indent g anchor u ∧ t ++ r = u ++ s := by
  rcases hg.collects place indent with ⟨m, rfl⟩ | ⟨s', rfl, hs'⟩ | ⟨b, u, hu⟩
  · exact absurd h (hf.opens column r).ne_alias
  · rw [write_scalar hs'] at h
    exact absurd h ((hf.opens column r).ne_scalar hs')
  · obtain ⟨rfl, rest⟩ := hf.inj hu h
    exact ⟨u, hu, rest⟩

/-! ### Items, entries and forms -/

/-- The form is known from what is written, whatever follows. -/
def Known (f : Form) : Prop :=
  ∀ {g : Form} {place : Place} {indent column : Nat} {r s : List Char}, g.Basic →
    After place indent r → After place indent s →
    write place indent column f ++ r = write place indent column g ++ s → f = g ∧ r = s

theorem After.ne_items {indent : Nat} {r : List Char} (h : After .value indent r) (x : Form)
    (xs : List Form) (s : List Char) : r ≠ writeItems indent (x :: xs) ++ s := by
  obtain ⟨v, hv⟩ := write_blank (show Place.item ≠ .value by decide) indent (indent + 1) x
  rintro rfl
  refine h.noItem (by decide) ⟨v ++ writeItems indent xs ++ s, ?_⟩
  rw [writeItems, hv]
  simp

theorem writeItems_inj {indent : Nat} {xs ys : List Form} (known : ∀ x ∈ xs, x.Known)
    (basic : ∀ y ∈ ys, y.Basic) {r s : List Char} (hr : After .value indent r)
    (hs : After .value indent s) (h : writeItems indent xs ++ r = writeItems indent ys ++ s) :
    xs = ys ∧ r = s := by
  induction xs generalizing ys with
  | nil =>
      cases ys with
      | nil => exact ⟨rfl, h⟩
      | cons y ys => exact absurd h (hr.ne_items y ys s)
  | cons x xs ih =>
      cases ys with
      | nil => exact absurd h.symm (hs.ne_items x xs r)
      | cons y ys =>
          simp only [writeItems, List.append_assoc, List.append_cancel_left_eq, List.cons_append,
            List.cons.injEq, true_and] at h
          obtain ⟨rfl, rest⟩ := known x (by simp) (basic y (by simp)) (after_items hr)
            (after_items hs) h
          obtain ⟨rfl, rfl⟩ := ih (fun x hx => known x (by simp [hx]))
            (fun y hy => basic y (by simp [hy])) rest
          exact ⟨rfl, rfl⟩

theorem Ends.ne_entries {indent : Nat} {r : List Char} (h : Ends indent r) (u : String) (v : Form)
    (es : List (Form × Form)) (s : List Char) :
    r ≠ writeEntries indent ((.scalar none (.text u), v) :: es) ++ s := by
  obtain ⟨c, t, hw, -⟩ := starts_entries indent u v es
  rw [hw]
  rcases h with rfl | h
  · simp
  · rintro rfl
    exact h ⟨c :: t ++ s, by simp⟩

/-- A key on the line of its value is not the mark of a long key. -/
theorem shortKey_ne_long {u : String} {a b : List Char} :
    scalarText (.text u) false 0 0 ++ a ≠ '?' :: ' ' :: b := by
  obtain ⟨c, t, hw, -, hm⟩ := scalarText_head (.text u) false 0 0
  rw [hw]
  intro h
  obtain ⟨rfl, rest⟩ := List.cons.inj h
  obtain ⟨d, v, rfl, hd⟩ := hm (by decide)
  exact hd (List.cons.inj rest).1

theorem writeEntries_inj {indent : Nat} {es fs : List (Form × Form)}
    (known : ∀ e ∈ es, e.2.Known) (basic : ∀ e ∈ fs, e.2.Basic)
    (keys : ∀ e ∈ es, ∃ u, e.1 = .scalar none (.text u))
    (keys' : ∀ e ∈ fs, ∃ u, e.1 = .scalar none (.text u)) {r s : List Char} (hr : Ends indent r)
    (hs : Ends indent s) (h : writeEntries indent es ++ r = writeEntries indent fs ++ s) :
    es = fs ∧ r = s := by
  induction es generalizing fs with
  | nil =>
      cases fs with
      | nil => exact ⟨rfl, h⟩
      | cons e fs =>
          obtain ⟨k, v⟩ := e
          obtain ⟨u, rfl⟩ := keys' (k, v) (by simp)
          exact absurd h (hr.ne_entries u v fs s)
  | cons e es ih =>
      obtain ⟨k, v⟩ := e
      obtain ⟨u, rfl⟩ := keys (k, v) (by simp)
      have others : ∀ e ∈ es, ∃ u, e.1 = .scalar none (.text u) := fun e he => keys e (by simp [he])
      cases fs with
      | nil => exact absurd h.symm (hs.ne_entries u v es r)
      | cons e fs =>
          obtain ⟨k, v'⟩ := e
          obtain ⟨u', rfl⟩ := keys' (k, v') (by simp)
          have others' : ∀ e ∈ fs, ∃ u, e.1 = .scalar none (.text u) := fun e he => keys' e (by simp [he])
          have value {place : Place} {column : Nat} (h : write place indent column v ++
              (writeEntries indent es ++ r) = write place indent column v' ++
              (writeEntries indent fs ++ s)) : v = v' ∧ es = fs ∧ r = s := by
            obtain ⟨rfl, rest⟩ := known (_, v) (.head _) (basic (_, v') (.head _))
              (after_entries hr others place) (after_entries hs others' place) h
            exact ⟨rfl, ih (fun e he => known e (by simp [he])) (fun e he => basic e (by simp [he]))
              others others' rest⟩
          rcases writeEntries_cons indent u v es with ⟨column, hw, hc⟩ | hw <;>
            rcases writeEntries_cons indent u' v' fs with ⟨column', hw', hc'⟩ | hw' <;>
            rw [hw, hw'] at h <;>
            simp only [List.append_assoc, List.append_cancel_left_eq, List.cons_append] at h
          · obtain ⟨rfl, rest⟩ := scalarText_key_inj (isSeparated_write _ _ _ _ _)
              (isSeparated_write _ _ _ _ _) h
            obtain rfl := hc.trans hc'.symm
            obtain ⟨rfl, rfl, rfl⟩ := value rest
            exact ⟨rfl, rfl⟩
          · exact absurd h shortKey_ne_long
          · exact absurd h.symm shortKey_ne_long
          · have deeper (t : List Char) : Dedented (indent + 2) (blanks indent ++ ':' :: t) :=
              dedented_line (by omega) (by decide) t
            obtain ⟨hu, rest⟩ := scalarText_line_inj (.text u) (.text u') (by omega) (deeper _)
              (deeper _) (List.cons.inj (List.cons.inj h).2).2
            obtain rfl := Scalar.text.inj hu
            obtain ⟨rfl, rfl, rfl⟩ := value (List.cons.inj (List.append_cancel_left rest)).2
            exact ⟨rfl, rfl⟩

/-- What may follow a sequence does not go on with its items. -/
theorem After.below {r : List Char} (h : After place indent r) :
    After .value (dashColumn place anchor indent) r := by
  have deeper : After .value (indent + 2) r := h.ends.after .value
  cases place with
  | item => exact deeper
  | value => exact h
  | long =>
      cases anchor with
      | none => exact deeper
      | some n => exact ⟨h.dedented, fun _ => h.noItem (by decide)⟩

theorem alias_ne_scalar {s : Scalar} (hs : s.IsBasic) {indent column : Nat} {t r : List Char} :
    ' ' :: '*' :: t ≠ ' ' :: (scalarText s true indent column ++ r) := by
  obtain ⟨c, w, hw, hc, -⟩ := scalarText_head hs true indent column
  rw [hw]
  intro h
  obtain rfl : '*' = c := (List.cons.inj (List.cons.inj h).2).1
  simp at hc

theorem known_alias (n : Nat) : Known (.alias n) := by
  intro g place indent column r s hg hr hs heq
  rcases hg.collects place indent with ⟨m, rfl⟩ | ⟨s', rfl, hs'⟩ | ⟨a, t, ht⟩
  · have unnamed (r : List Char) : Unnamed ('\n' :: r) := by
      intro c hc
      obtain rfl := Option.mem_some.mp hc
      decide
    simp only [write, List.cons_append, List.append_assoc, List.cons.injEq, true_and] at heq
    obtain ⟨rfl, rest⟩ := anchorName_append_inj (unnamed r) (unnamed s) heq
    exact ⟨rfl, (List.cons.inj rest).2⟩
  · rw [write_scalar hs'] at heq
    exact absurd heq (alias_ne_scalar hs')
  · exact absurd heq.symm (ht.opens column s).ne_alias

theorem known_scalar {s₀ : Scalar} (h₀ : s₀.IsBasic) : Known (.scalar none s₀) := by
  intro g place indent column r s hg hr hs heq
  have deeper {r : List Char} (hr : After place indent r) : Dedented (indent + 2) r :=
    hr.dedented.mono (by omega)
  rw [write_scalar h₀] at heq
  rcases hg.collects place indent with ⟨m, rfl⟩ | ⟨s', rfl, hs'⟩ | ⟨a, t, ht⟩
  · exact absurd heq.symm (alias_ne_scalar h₀)
  · rw [write_scalar hs'] at heq
    obtain ⟨rfl, rfl⟩ := scalarText_line_inj h₀ hs' (by omega) (deeper hr) (deeper hs)
      (List.cons.inj heq).2
    exact ⟨rfl, rfl⟩
  · exact absurd heq.symm ((ht.opens column s).ne_scalar h₀)

theorem known_sequence (anchor : Option Nat) {items : List Form} (each : ∀ x ∈ items, x.Basic)
    (known : ∀ x ∈ items, x.Known) : Known (.sequence anchor items) := by
  intro g place indent column r s hg hr hs heq
  rcases (Basic.sequence anchor each).collects place indent with ⟨_, hf⟩ | ⟨_, hf, -⟩ | ⟨a, t, ht⟩
  · simp at hf
  · simp at hf
  obtain ⟨u, hu, rest⟩ := ht.same hg heq
  cases ht with
  | noItems =>
      cases hu with
      | noItems => exact ⟨rfl, by simpa using rest⟩
      | items => exact absurd (List.cons.inj rest).1 (by decide)
      | noEntries => exact absurd (List.cons.inj (List.cons.inj rest).2).1 (by decide)
      | entries => exact absurd (List.cons.inj rest).1 (by decide)
  | items _ x xs =>
      cases hu with
      | noItems => exact absurd (List.cons.inj rest).1 (by decide)
      | items _ y ys =>
          cases hg with
          | sequence _ each' =>
              obtain ⟨hxs, rfl⟩ := writeItems_inj known each' hr.below hs.below
                (List.cons.inj rest).2
              rw [hxs]
              exact ⟨rfl, rfl⟩
      | noEntries => exact absurd (List.cons.inj rest).1 (by decide)
      | entries => exact absurd (List.cons.inj rest).2 items_ne_entries

theorem known_mapping (anchor : Option Nat) {entries : List (Form × Form)}
    (keys : ∀ e ∈ entries, ∃ u, e.1 = .scalar none (.text u)) (each : ∀ e ∈ entries, e.2.Basic)
    (known : ∀ e ∈ entries, e.2.Known) : Known (.mapping anchor entries) := by
  intro g place indent column r s hg hr hs heq
  rcases (Basic.mapping anchor keys each).collects place indent with
    ⟨_, hf⟩ | ⟨_, hf, -⟩ | ⟨a, t, ht⟩
  · simp at hf
  · simp at hf
  obtain ⟨u, hu, rest⟩ := ht.same hg heq
  cases ht with
  | noEntries =>
      cases hu with
      | noItems => exact absurd (List.cons.inj (List.cons.inj rest).2).1 (by decide)
      | items => exact absurd (List.cons.inj rest).1 (by decide)
      | noEntries => exact ⟨rfl, by simpa using rest⟩
      | entries => exact absurd (List.cons.inj rest).1 (by decide)
  | entries _ k v es =>
      cases hu with
      | noItems => exact absurd (List.cons.inj rest).1 (by decide)
      | items => exact absurd (List.cons.inj rest).2.symm items_ne_entries
      | noEntries => exact absurd (List.cons.inj rest).1 (by decide)
      | entries _ l v' fs =>
          cases hg with
          | mapping _ keys' each' =>
              obtain ⟨hes, rfl⟩ := writeEntries_inj known each' keys keys' hr.ends hs.ends
                (List.cons.inj rest).2
              rw [hes]
              exact ⟨rfl, rfl⟩

/-- A form of basic scalars is known from what is written, whatever follows. -/
theorem Basic.known {f : Form} (h : f.Basic) : f.Known := by
  induction h with
  | «alias» n => exact known_alias n
  | scalar h₀ => exact known_scalar h₀
  | sequence anchor each ih => exact known_sequence anchor each ih
  | mapping anchor keys each ih => exact known_mapping anchor keys each ih

/-- A document is known from its text. -/
theorem document_inj {es fs : List (Form × Form)} {a b : Option Nat} (he : (mapping a es).Basic)
    (hf : (mapping b fs).Basic) (h : document es = document fs) : es = fs := by
  cases he with
  | mapping _ keys each =>
      cases hf with
      | mapping _ keys' each' =>
          have text := String.ofList_injective h
          have braces {k v : Form} {es : List (Form × Form)}
              (hk : ∃ u, k = .scalar none (.text u)) :
              writeEntries 0 ((k, v) :: es) ≠ ['\x7b', '\x7d', '\n'] := by
            obtain ⟨u, rfl⟩ := hk
            obtain ⟨t, ht⟩ := inline_entries 0 u v es
            rw [ht.lines]
            intro h
            refine ht.ne (r := []) (by decide) (List.append_nil t ▸ h)
          cases es with
          | nil =>
              cases fs with
              | nil => rfl
              | cons e fs => exact absurd text.symm (braces (keys' e (.head _)))
          | cons e es =>
              cases fs with
              | nil => exact absurd text (braces (keys e (.head _)))
              | cons f fs =>
                  have text : writeEntries 0 (e :: es) ++ [] = writeEntries 0 (f :: fs) ++ [] := by
                    simpa using text
                  exact (writeEntries_inj (fun e he => (each e he).known) each' keys keys'
                    (.inl rfl) (.inl rfl) text).1

end Form

end OpenApiDoc.Yaml
