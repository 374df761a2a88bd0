import Mathlib.Data.Nat.Digits.Defs
import OpenApiDoc.Proofs.Yaml.Folding

/-! # Texts with escapes determine what they stand for

Between double quotes every character can be written, some as escapes, and a line can end wherever
the width asks for it.

* `Folding.escape_append_inj`: no escape is the beginning of another one.
* `Folding.Guarded` says that every quote has a backslash in front, so that a bare one ends the text.
* `Folding.double_inj`: different texts are written differently from the same column. -/

namespace OpenApiDoc.Yaml.Folding

/-! ### Escapes -/

/-- The value of an upper-case hexadecimal digit. -/
def hexValue (c : Char) : Nat := if c.isDigit then c.toNat - 48 else c.toNat - 55

/-- The number that upper-case hexadecimal digits stand for. -/
def hexNumber (cs : List Char) : Nat := cs.foldl (fun v c => 16 * v + hexValue c) 0

theorem hexValue_digit {n : Nat} (h : n < 16) : hexValue n.digitChar.toUpper = n := by
  have each : ∀ m : Fin 16, hexValue (Nat.digitChar m).toUpper = m := by decide
  exact each ⟨n, h⟩

theorem hexNumber_toDigits (n : Nat) : hexNumber ((Nat.toDigits 16 n).map Char.toUpper) = n := by
  induction n using Nat.strongRecOn with
  | ind n ih =>
      rw [Nat.toDigits_eq_if (by decide)]
      by_cases h : n < 16
      · rw [if_pos h]
        simpa [hexNumber] using hexValue_digit h
      · rw [if_neg h]
        have front := ih (n / 16) (by omega)
        rw [hexNumber] at front
        simp only [List.map_append, List.map_cons, List.map_nil, hexNumber, List.foldl_append,
          List.foldl_cons, List.foldl_nil, front, hexValue_digit (Nat.mod_lt n (by decide : 0 < 16))]
        omega

theorem hexNumber_hexDigits (width n : Nat) :
    hexNumber ((Text.hexDigits width n).map Char.toUpper) = n := by
  have zeros (k : Nat) : hexNumber (List.replicate k '0') = 0 := by
    induction k with
    | zero => rfl
    | succ k ih => simpa [hexNumber, List.replicate_succ, hexValue] using ih
  have upper (k : Nat) : (List.replicate k '0').map Char.toUpper = List.replicate k '0' := by
    simp
  rw [Text.hexDigits, List.map_append, upper, hexNumber, List.foldl_append]
  have start := zeros (width - (Nat.toDigits 16 n).length)
  rw [hexNumber] at start
  rw [start]
  exact hexNumber_toDigits n

theorem length_hexDigits {width n : Nat} (hw : 0 < width) (h : n < 16 ^ width) :
    (Text.hexDigits width n).length = width := by
  have := Nat.toDigits_length 16 n width hw h
  simp [Text.hexDigits]
  omega

theorem hexDigits_append_inj {width n m : Nat} {r s : List Char} (hw : 0 < width)
    (hn : n < 16 ^ width) (hm : m < 16 ^ width)
    (h : (Text.hexDigits width n).map Char.toUpper ++ r =
      (Text.hexDigits width m).map Char.toUpper ++ s) : n = m ∧ r = s := by
  have digits := List.append_inj h (by simp [length_hexDigits hw hn, length_hexDigits hw hm])
  refine ⟨?_, digits.2⟩
  rw [← hexNumber_hexDigits width n, digits.1, hexNumber_hexDigits]

theorem mem_toDigits {n : Nat} {d : Char} (h : d ∈ Nat.toDigits 16 n) :
    ∃ k < 16, d = Nat.digitChar k := by
  induction n using Nat.strongRecOn with
  | ind n ih =>
      rw [Nat.toDigits_eq_if (by decide)] at h
      by_cases hn : n < 16
      · rw [if_pos hn] at h
        exact ⟨n, hn, List.mem_singleton.mp h⟩
      · rw [if_neg hn] at h
        rcases List.mem_append.mp h with h | h
        · exact ih (n / 16) (by omega) h
        · exact ⟨n % 16, Nat.mod_lt n (by decide), List.mem_singleton.mp h⟩

/-- The digits of numeric escapes are none of the characters that quoted texts end with. -/
theorem exists_digit_of_mem {width n : Nat} {d : Char}
    (h : d ∈ (Text.hexDigits width n).map Char.toUpper) :
    ∃ k : Fin 16, d = (Nat.digitChar k).toUpper := by
  obtain ⟨c, hc, rfl⟩ := List.mem_map.mp h
  rcases List.mem_append.mp hc with hc | hc
  · obtain rfl := List.eq_of_mem_replicate hc
    exact ⟨0, rfl⟩
  · obtain ⟨k, hk, rfl⟩ := mem_toDigits hc
    exact ⟨⟨k, hk⟩, rfl⟩

theorem of_mem_hexDigits {width n : Nat} {d : Char}
    (h : d ∈ (Text.hexDigits width n).map Char.toUpper) : d ≠ '"' ∧ d ≠ '\\' := by
  have each : ∀ k : Fin 16, (Nat.digitChar k).toUpper ≠ '"' ∧ (Nat.digitChar k).toUpper ≠ '\\' := by
    decide
  obtain ⟨k, rfl⟩ := exists_digit_of_mem h
  exact each k

/-- The character that a short escape stands for. -/
def ofLetter : Char → Char
  | '0' => '\x00'
  | 'a' => '\x07'
  | 'b' => '\x08'
  | 't' => '\x09'
  | 'n' => '\x0a'
  | 'v' => '\x0b'
  | 'f' => '\x0c'
  | 'r' => '\x0d'
  | 'e' => '\x1b'
  | 'N' => '\x85'
  | 'L' => '\u2028'
  | 'P' => '\u2029'
  | c => c

/-- The letters of short escapes. They are no letters of numeric ones. -/
theorem letter?_some {c l : Char} (h : letter? c = some l) :
    ofLetter l = c ∧ l ∉ ['x', 'u', 'U', '\n', ' '] ∧ (l = '\\' → c = '\\') := by
  unfold letter? at h
  split at h <;> simp only [Option.some.injEq, reduceCtorEq] at h <;> subst h <;> decide

/-- The three widths of numeric escapes, each with its letter. -/
theorem numericEscape_cases (c : Char) :
    ∃ l width, Text.numericEscape Char.toUpper c =
        '\\' :: l :: (Text.hexDigits width c.toNat).map Char.toUpper ∧
      0 < width ∧ c.toNat < 16 ^ width ∧ (l, width) ∈ [('x', 2), ('u', 4), ('U', 8)] := by
  have bound : c.toNat < 2 ^ 32 := c.val.toNat_lt
  rw [Text.numericEscape]
  by_cases h : c.toNat < 0x100
  · exact ⟨'x', 2, by simp [h], by decide, by omega, by decide⟩
  · by_cases h' : c.toNat < 0x10000
    · exact ⟨'u', 4, by simp [h, h'], by decide, by omega, by decide⟩
    · exact ⟨'U', 8, by simp [h, h'], by decide, by omega, by decide⟩

/-- No escape is the beginning of another one. -/
theorem escape_append_inj {c d : Char} {r s : List Char} (h : escape c ++ r = escape d ++ s) :
    c = d ∧ r = s := by
  rw [escape, escape] at h
  obtain ⟨k, m, hk, hm, hlt, hmem⟩ := numericEscape_cases c
  obtain ⟨k', m', hk', hm', hlt', hmem'⟩ := numericEscape_cases d
  have letters {l : Char} {n : Nat} (hl : (l, n) ∈ [('x', 2), ('u', 4), ('U', 8)]) :
      l ∈ ['x', 'u', 'U', '\n', ' '] := by
    simp only [List.mem_cons, Prod.mk.injEq, List.not_mem_nil, or_false] at hl ⊢
    tauto
  cases hc : letter? c with
  | some l =>
      have fc := letter?_some hc
      cases hd : letter? d with
      | some l' =>
          have fd := letter?_some hd
          simp only [hc, hd, List.cons_append, List.nil_append, List.cons.injEq, true_and] at h
          exact ⟨by rw [← fc.1, ← fd.1, h.1], h.2⟩
      | none =>
          simp only [hc, hd, hk', List.cons_append, List.cons.injEq, true_and] at h
          exact absurd (letters hmem') (h.1 ▸ fc.2.1)
  | none =>
      cases hd : letter? d with
      | some l' =>
          have fd := letter?_some hd
          simp only [hc, hd, hk, List.cons_append, List.cons.injEq, true_and] at h
          exact absurd (letters hmem) (h.1 ▸ fd.2.1)
      | none =>
          simp only [hc, hd, hk, hk', List.cons_append, List.cons.injEq, true_and] at h
          obtain ⟨rfl, h⟩ := h
          obtain rfl : m = m' := by
            simp only [List.mem_cons, Prod.mk.injEq, List.not_mem_nil, or_false] at hmem hmem'
            rcases hmem with ⟨rfl, rfl⟩ | ⟨rfl, rfl⟩ | ⟨rfl, rfl⟩ <;> simp_all
          obtain ⟨same, rest⟩ := hexDigits_append_inj hm hlt hlt' h
          exact ⟨Char.toNat_inj.mp same, rest⟩

/-- An escape begins with a backslash and a character that is no line feed, no blank, and a backslash
only if it is all there is. -/
theorem escape_cases (c : Char) : ∃ l t, escape c = '\\' :: l :: t ∧ l ≠ '\n' ∧ l ≠ ' ' ∧
    (l = '\\' → t = []) ∧ ∀ d ∈ t, d ≠ '"' ∧ d ≠ '\\' := by
  rw [escape]
  cases hc : letter? c with
  | some l =>
      have letter := (letter?_some hc).2.1
      refine ⟨l, [], rfl, ?_, ?_, fun _ => rfl, by simp⟩ <;>
        (rintro rfl; simp at letter)
  | none =>
      obtain ⟨l, width, hw, -, -, hl⟩ := numericEscape_cases c
      refine ⟨l, _, hw, ?_, ?_, ?_, fun d => of_mem_hexDigits⟩ <;>
        (rintro rfl; simp at hl)

/-! ### The end of a text between double quotes -/

/-- Every double quote has a backslash in front, which is no part of what comes before it. -/
inductive Guarded : List Char → Prop
  | nil : Guarded []
  | escape {cs : List Char} (c : Char) (rest : Guarded cs) : Guarded ('\\' :: c :: cs)
  | other {c : Char} {cs : List Char} (hq : c ≠ '"') (hc : c ≠ '\\') (rest : Guarded cs) :
      Guarded (c :: cs)

/-- A bare quote ends a text between double quotes. -/
theorem Guarded.append_inj {u v r s : List Char} (hu : Guarded u) (hv : Guarded v)
    (h : u ++ '"' :: r = v ++ '"' :: s) : u = v ∧ r = s := by
  induction hu generalizing v with
  | nil =>
      cases hv with
      | nil => simpa using h
      | escape c _ => exact absurd (List.cons.inj h).1 (by decide)
      | other hq _ _ => exact absurd (List.cons.inj h).1.symm hq
  | escape c _ ih =>
      cases hv with
      | nil => exact absurd (List.cons.inj h).1 (by decide)
      | escape d rest =>
          obtain ⟨rfl, h'⟩ := List.cons.inj (List.cons.inj h).2
          obtain ⟨rfl, rfl⟩ := ih rest h'
          exact ⟨rfl, rfl⟩
      | other _ hc _ => exact absurd (List.cons.inj h).1.symm hc
  | other hq hc _ ih =>
      cases hv with
      | nil => exact absurd (List.cons.inj h).1 hq
      | escape d _ => exact absurd (List.cons.inj h).1 hc
      | other _ _ rest =>
          obtain ⟨rfl, h'⟩ := List.cons.inj h
          obtain ⟨rfl, rfl⟩ := ih rest h'
          exact ⟨rfl, rfl⟩

theorem Guarded.append {u v : List Char} (hu : Guarded u) (hv : Guarded v) : Guarded (u ++ v) := by
  induction hu with
  | nil => exact hv
  | escape c _ ih => exact .escape c ih
  | other hq hc _ ih => exact .other hq hc ih

theorem guarded_of_forall {cs : List Char} (h : ∀ c ∈ cs, c ≠ '"' ∧ c ≠ '\\') : Guarded cs := by
  induction cs with
  | nil => exact .nil
  | cons c cs ih =>
      exact .other (h c (by simp)).1 (h c (by simp)).2 (ih fun d hd => h d (by simp [hd]))

theorem guarded_blanks (n : Nat) : Guarded (blanks n) := by
  refine guarded_of_forall fun c hc => ?_
  obtain rfl := List.eq_of_mem_replicate hc
  decide

/-! ### Double-quoted -/

/-- What is written for one character between double quotes, before the rest. -/
theorem double_cons_cases (indent : Nat) (split first escaped : Bool) (column : Nat) (c : Char)
    (rest : List Char) :
    (isRaw c ∧ rest ≠ [] ∧ double indent split first escaped column (c :: rest) =
      '\\' :: (newLine indent ++ lineHead (c :: rest) ++ c ::
        double indent split false false (indent + (lineHead (c :: rest)).length + 1) rest)) ∨
    (isRaw c ∧ double indent split first escaped column (c :: rest) =
      c :: double indent split false false (column + 1) rest) ∨
    (isRaw c = false ∧ split ∧ first = false ∧ rest ≠ [] ∧
      width + 1 < column + (escape c).length ∧
      double indent split first escaped column (c :: rest) =
        escape c ++ '\\' :: (newLine indent ++ lineHead rest ++
          double indent split false true (indent + (lineHead rest).length) rest)) ∨
    (isRaw c = false ∧ (rest = [] ∨
        ¬ (split ∧ first = false ∧ width + 1 < column + (escape c).length)) ∧
      double indent split first escaped column (c :: rest) =
        escape c ++ double indent split false true (column + (escape c).length) rest) := by
  rw [double]
  by_cases hc : isRaw c
  · simp only [hc, if_true]
    by_cases hs : (split && !first && !rest.isEmpty && (c == ' ' || escaped) && width < column) = true
    · rw [if_pos hs]
      refine .inl ⟨trivial, ?_, rfl⟩
      rintro rfl
      simp at hs
    · rw [if_neg hs]
      exact .inr (.inl ⟨trivial, rfl⟩)
  · simp only [hc]
    by_cases hs : (split && !first && !rest.isEmpty && width + 1 < column + (escape c).length) = true
    · rw [if_neg (by simp), if_pos hs]
      simp only [Bool.and_eq_true, Bool.not_eq_true', decide_eq_true_eq, List.isEmpty_eq_false_iff] at hs
      exact .inr (.inr (.inl ⟨by simp, hs.1.1.1, hs.1.1.2, hs.1.2, hs.2, rfl⟩))
    · rw [if_neg (by simp), if_neg hs]
      refine .inr (.inr (.inr ⟨by simp, ?_, rfl⟩))
      by_cases hr : rest = []
      · exact .inl hr
      · refine .inr fun h => hs ?_
        simp [h.1, h.2.1, h.2.2, hr]

theorem isRaw_blank : isRaw ' ' = true := by decide

theorem ne_of_isRaw {c : Char} (h : isRaw c) : c ≠ '"' ∧ c ≠ '\\' ∧ c ≠ '\n' := by
  refine ⟨?_, ?_, ?_⟩ <;> (rintro rfl; exact absurd h (by decide))

theorem lineHead_blank (cs : List Char) : lineHead (' ' :: cs) = ['\\'] := rfl

theorem lineHead_of_ne {c : Char} (h : c ≠ ' ') (cs : List Char) : lineHead (c :: cs) = [] := by
  simp [lineHead, h]

theorem guarded_lineHead {c : Char} (hc : isRaw c) (cs : List Char) {t : List Char}
    (ht : Guarded t) : Guarded (lineHead (c :: cs) ++ c :: t) := by
  by_cases h : c = ' '
  · subst h
    exact .escape ' ' ht
  · rw [lineHead_of_ne h]
    exact .other (ne_of_isRaw hc).1 (ne_of_isRaw hc).2.1 ht

theorem guarded_escape (c : Char) {t : List Char} (ht : Guarded t) : Guarded (escape c ++ t) := by
  obtain ⟨l, u, hw, -, -, -, hu⟩ := escape_cases c
  rw [hw]
  exact .escape l ((guarded_of_forall hu).append ht)

/-- A text between double quotes has every quote behind a backslash, also behind the mark of a blank
at the start of a line. -/
theorem guarded_double (indent : Nat) (split : Bool) (cs : List Char) (first escaped : Bool)
    (column : Nat) : Guarded (double indent split first escaped column cs) ∧
      Guarded (lineHead cs ++ double indent split first escaped column cs) := by
  induction cs generalizing first escaped column with
  | nil => exact ⟨.nil, .nil⟩
  | cons c cs ih =>
      have newLine {t : List Char} (ht : Guarded t) : Guarded (newLine indent ++ t) :=
        .other (by decide) (by decide) ((guarded_blanks indent).append ht)
      rcases double_cons_cases indent split first escaped column c cs with
        ⟨hc, -, hw⟩ | ⟨hc, hw⟩ | ⟨hc, -, -, -, -, hw⟩ | ⟨hc, -, hw⟩ <;> rw [hw]
      · have line := guarded_lineHead hc cs (ih false false (indent + (lineHead (c :: cs)).length + 1)).1
        rw [List.append_assoc]
        refine ⟨.escape '\n' ((guarded_blanks indent).append line), ?_⟩
        by_cases h : c = ' '
        · subst h
          rw [lineHead_blank] at line ⊢
          exact .escape '\\' (newLine line)
        · rw [lineHead_of_ne h] at line ⊢
          exact .escape '\n' ((guarded_blanks indent).append line)
      · have rest := (ih false false (column + 1)).1
        exact ⟨.other (ne_of_isRaw hc).1 (ne_of_isRaw hc).2.1 rest, guarded_lineHead hc cs rest⟩
      · have written : Guarded (escape c ++ '\\' :: (Folding.newLine indent ++ lineHead cs ++
            double indent split false true (indent + (lineHead cs).length) cs)) := by
          refine guarded_escape c ?_
          rw [List.append_assoc]
          exact .escape '\n' ((guarded_blanks indent).append (ih _ _ _).2)
        refine ⟨written, ?_⟩
        rwa [lineHead_of_ne (by rintro rfl; simp [isRaw_blank] at hc)]
      · have written := guarded_escape c (ih false true (column + (escape c).length)).1
        refine ⟨written, ?_⟩
        rwa [lineHead_of_ne (by rintro rfl; simp [isRaw_blank] at hc)]

theorem double_cons_ne_nil {indent column : Nat} {split first escaped : Bool} {c : Char}
    {cs : List Char} : double indent split first escaped column (c :: cs) ≠ [] := by
  obtain ⟨l, t, he, -⟩ := escape_cases c
  rcases double_cons_cases indent split first escaped column c cs with
    ⟨-, -, hw⟩ | ⟨-, hw⟩ | ⟨-, -, -, -, -, hw⟩ | ⟨-, -, hw⟩ <;> rw [hw] <;> simp [he]

/-- No line feed comes first, and none comes behind a first backslash that belongs to an escape. -/
theorem double_cons_ne_newline {indent column : Nat} {split first escaped : Bool} {cs t : List Char} :
    double indent split first escaped column cs ≠ '\n' :: t := by
  intro h
  cases cs with
  | nil => simp [double] at h
  | cons c cs =>
      obtain ⟨l, u, he, -⟩ := escape_cases c
      rcases double_cons_cases indent split first escaped column c cs with
        ⟨-, -, hw⟩ | ⟨hc, hw⟩ | ⟨-, -, -, -, -, hw⟩ | ⟨-, -, hw⟩ <;> rw [hw] at h
      · exact absurd (List.cons.inj h).1 (by decide)
      · exact (ne_of_isRaw hc).2.2 (List.cons.inj h).1
      · rw [he] at h
        exact absurd (List.cons.inj h).1 (by decide)
      · rw [he] at h
        exact absurd (List.cons.inj h).1 (by decide)

/-- A line that begins with a marked blank is not one that begins with anything else. Where lines
start beyond the width, the line of a marked blank is ended at once. -/
theorem marked_blank_ne {indent column column' : Nat} {split : Bool} {d : Char} {cs ds : List Char} :
    '\\' :: double indent split false true column (' ' :: cs) ≠
      double indent split false true column' (d :: ds) := by
  intro h
  obtain ⟨l, t, he, hn, hb, ht, -⟩ := escape_cases d
  -- Behind the mark stands the blank, or the end of the line.
  obtain ⟨u, hu⟩ : ∃ u, double indent split false true column (' ' :: cs) = ' ' :: u ∨
      double indent split false true column (' ' :: cs) = '\\' :: '\n' :: u := by
    rcases double_cons_cases indent split false true column ' ' cs with
      ⟨-, -, hw⟩ | ⟨-, hw⟩ | ⟨hc, -⟩ | ⟨hc, -⟩
    · exact ⟨_, .inr hw⟩
    · exact ⟨_, .inl hw⟩
    · simp [isRaw_blank] at hc
    · simp [isRaw_blank] at hc
  have escaped {v : List Char} (hv : ∀ x, v ≠ '\n' :: x)
      (h : '\\' :: double indent split false true column (' ' :: cs) = escape d ++ v) : False := by
    rw [he] at h
    rcases hu with hu | hu <;> rw [hu] at h <;>
      simp only [List.cons_append, List.cons.injEq, true_and] at h
    · exact hb h.1.symm
    · rw [ht h.1.symm, List.nil_append] at h
      exact hv u h.2.symm
  rcases double_cons_cases indent split false true column' d ds with
    ⟨hc, -, hw⟩ | ⟨hc, hw⟩ | ⟨-, -, -, -, -, hw⟩ | ⟨-, -, hw⟩ <;> rw [hw] at h
  · rcases hu with hu | hu <;> rw [hu] at h
    · exact absurd (List.cons.inj (List.cons.inj h).2).1 (by decide)
    · exact absurd (List.cons.inj (List.cons.inj h).2).1 (by decide)
  · exact (ne_of_isRaw hc).2.1 (List.cons.inj h).1.symm
  · exact escaped (by simp) h
  · exact escaped (fun x => double_cons_ne_newline) h

/-- A further line that begins with a raw character tells which one it is. -/
theorem lineHead_cons_inj {c d : Char} {cs ds t u : List Char} (hc : isRaw c) (hd : isRaw d)
    (h : lineHead (c :: cs) ++ c :: t = lineHead (d :: ds) ++ d :: u) : c = d ∧ t = u := by
  by_cases hb : c = ' ' <;> by_cases hb' : d = ' '
  · subst hb hb'
    exact List.cons.inj (List.cons.inj h).2
  · subst hb
    rw [lineHead_blank, lineHead_of_ne hb'] at h
    exact absurd (List.cons.inj h).1.symm (ne_of_isRaw hd).2.1
  · subst hb'
    rw [lineHead_blank, lineHead_of_ne hb] at h
    exact absurd (List.cons.inj h).1 (ne_of_isRaw hc).2.1
  · rw [lineHead_of_ne hb, lineHead_of_ne hb'] at h
    exact List.cons.inj h

/-- What stands on a further line is known, if this holds of what stands there without the mark. -/
theorem line_inj {indent : Nat} {split : Bool} {cs ds : List Char} (hc : cs ≠ []) (hd : ds ≠ [])
    (ih : ∀ column, double indent split false true column cs =
      double indent split false true column ds → cs = ds)
    (h : lineHead cs ++ double indent split false true (indent + (lineHead cs).length) cs =
      lineHead ds ++ double indent split false true (indent + (lineHead ds).length) ds) :
    cs = ds := by
  obtain ⟨c, cs, rfl⟩ := List.exists_cons_of_ne_nil hc
  obtain ⟨d, ds, rfl⟩ := List.exists_cons_of_ne_nil hd
  by_cases hc : c = ' ' <;> by_cases hd : d = ' '
  · subst hc hd
    exact ih _ (List.cons.inj h).2
  · subst hc
    rw [lineHead_of_ne hd] at h
    exact absurd h marked_blank_ne
  · subst hd
    rw [lineHead_of_ne hc] at h
    exact absurd h.symm marked_blank_ne
  · rw [lineHead_of_ne hc, lineHead_of_ne hd] at h
    exact ih _ h

/-- What stands between double quotes is known from what is written. -/
theorem double_inj {indent column : Nat} {split first escaped : Bool} {cs ds : List Char}
    (h : double indent split first escaped column cs = double indent split first escaped column ds) :
    cs = ds := by
  induction cs generalizing first escaped column ds with
  | nil =>
      cases ds with
      | nil => rfl
      | cons d ds => exact absurd h.symm double_cons_ne_nil
  | cons c cs ih =>
      cases ds with
      | nil => exact absurd h double_cons_ne_nil
      | cons d ds =>
          obtain ⟨l, t, he, hl, -⟩ := escape_cases c
          obtain ⟨l', t', he', hl', -⟩ := escape_cases d
          rcases double_cons_cases indent split first escaped column c cs with
            ⟨hc, -, hw⟩ | ⟨hc, hw⟩ | ⟨hc, hs, hf, hr, hlt, hw⟩ | ⟨hc, hs, hw⟩ <;>
          rcases double_cons_cases indent split first escaped column d ds with
            ⟨hd, -, hw'⟩ | ⟨hd, hw'⟩ | ⟨hd, hs', hf', hr', hlt', hw'⟩ | ⟨hd, hs', hw'⟩ <;>
          rw [hw, hw'] at h
          · rw [List.cons.injEq, List.append_assoc, List.append_assoc,
              List.append_cancel_left_eq] at h
            obtain ⟨rfl, h'⟩ := lineHead_cons_inj hc hd h.2
            rw [ih h']
          · exact absurd (List.cons.inj h).1.symm (ne_of_isRaw hd).2.1
          · rw [he'] at h
            exact absurd (List.cons.inj (List.cons.inj h).2).1.symm hl'
          · rw [he'] at h
            exact absurd (List.cons.inj (List.cons.inj h).2).1.symm hl'
          · exact absurd (List.cons.inj h).1 (ne_of_isRaw hc).2.1
          · obtain ⟨rfl, h'⟩ := List.cons.inj h
            rw [ih h']
          · rw [he'] at h
            exact absurd (List.cons.inj h).1 (ne_of_isRaw hc).2.1
          · rw [he'] at h
            exact absurd (List.cons.inj h).1 (ne_of_isRaw hc).2.1
          · rw [he] at h
            exact absurd (List.cons.inj (List.cons.inj h).2).1 hl
          · rw [he] at h
            exact absurd (List.cons.inj h).1.symm (ne_of_isRaw hd).2.1
          · obtain ⟨rfl, h'⟩ := escape_append_inj h
            rw [List.cons.injEq, List.append_assoc, List.append_assoc,
              List.append_cancel_left_eq] at h'
            rw [line_inj hr hr' (fun column => ih) h'.2]
          · obtain ⟨rfl, h'⟩ := escape_append_inj h
            rcases hs' with rfl | hs'
            · simp [double] at h'
            · exact absurd ⟨hs, hf, hlt⟩ hs'
          · rw [he] at h
            exact absurd (List.cons.inj (List.cons.inj h).2).1 hl
          · rw [he] at h
            exact absurd (List.cons.inj h).1.symm (ne_of_isRaw hd).2.1
          · obtain ⟨rfl, h'⟩ := escape_append_inj h
            rcases hs with rfl | hs
            · simp [double] at h'
            · exact absurd ⟨hs', hf', hlt'⟩ hs
          · obtain ⟨rfl, h'⟩ := escape_append_inj h
            rw [ih h']

end OpenApiDoc.Yaml.Folding
