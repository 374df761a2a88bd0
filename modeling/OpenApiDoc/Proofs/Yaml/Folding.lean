import OpenApiDoc.Yaml.Folding

/-! # Folded texts determine what they were folded from

Different texts are written differently from the same column, with further lines or without.

* `Folding.plain_append_inj`: a plain text ends with its line. What follows is not indented as deep
  as its further lines, so it is known where the text ends.
* `Folding.single_inj` and `Folding.doubled_inj` are about what stands between single quotes, with
  further lines and without. Quotes come in pairs there, so that one alone ends the text
  (`Folding.Paired.append_inj`). -/

namespace OpenApiDoc.Yaml.Folding

open Style (isBreak)

/-! ### Plain -/

/-- The text does not begin with so many blanks. -/
def Dedented (n : Nat) (r : List Char) : Prop := ¬ blanks n <+: r

theorem Dedented.newLine {indent : Nat} {r t : List Char} (h : Dedented indent r) :
    '\n' :: r ≠ newLine indent ++ t := by
  intro heq
  refine h ⟨t, ?_⟩
  simpa [Folding.newLine] using heq.symm

/-- A character of a plain text, written as it is or as the start of a further line. -/
theorem plain_cons_cases (indent : Nat) (before : Option Char) (column : Nat) (c : Char)
    (rest : List Char) :
    (c = ' ' ∧ plain indent before column (c :: rest) =
      newLine indent ++ plain indent (some c) indent rest) ∨
    plain indent before column (c :: rest) = c :: plain indent (some c) (column + 1) rest := by
  rw [plain]
  split
  · next h => exact .inl ⟨h.1, rfl⟩
  · exact .inr rfl

/-- A plain text is not over where its line goes on, nor where its next line does. -/
theorem plain_cons_ne {indent column : Nat} {before : Option Char} {c : Char} {cs r t : List Char}
    (hc : '\n' ∉ c :: cs) (hr : Dedented indent r) :
    plain indent before column (c :: cs) ++ t ≠ '\n' :: r := by
  intro h
  rcases plain_cons_cases indent before column c cs with ⟨-, hw⟩ | hw
  · rw [hw, List.append_assoc] at h
    exact hr.newLine h.symm
  · rw [hw] at h
    have : c = '\n' := (List.cons.inj h).1
    simp [this] at hc

/-- A plain text is known from what is written, whatever follows it on less indented lines. -/
theorem plain_append_inj {indent column : Nat} {before : Option Char} {cs ds r s : List Char}
    (hc : '\n' ∉ cs) (hd : '\n' ∉ ds) (hr : Dedented indent r) (hs : Dedented indent s)
    (h : plain indent before column cs ++ '\n' :: r = plain indent before column ds ++ '\n' :: s) :
    cs = ds ∧ r = s := by
  induction cs generalizing before column ds with
  | nil =>
      cases ds with
      | nil => simpa [plain] using h
      | cons d ds => exact absurd h.symm (plain_cons_ne hd hr)
  | cons c cs ih =>
      cases ds with
      | nil => exact absurd h (plain_cons_ne hc hs)
      | cons d ds =>
          have hc' : '\n' ∉ cs := fun hm => hc (by simp [hm])
          have hd' : '\n' ∉ ds := fun hm => hd (by simp [hm])
          rcases plain_cons_cases indent before column c cs with ⟨rfl, hw⟩ | hw <;>
            rcases plain_cons_cases indent before column d ds with ⟨rfl, hw'⟩ | hw' <;>
            rw [hw, hw'] at h
          · rw [List.append_assoc, List.append_assoc, List.append_cancel_left_eq] at h
            obtain ⟨rfl, rfl⟩ := ih hc' hd' h
            exact ⟨rfl, rfl⟩
          · have : '\n' = d := (List.cons.inj h).1
            exact absurd (List.mem_cons.mpr (.inl this)) hd
          · have : '\n' = c := (List.cons.inj h).1.symm
            exact absurd (List.mem_cons.mpr (.inl this)) hc
          · obtain ⟨rfl, h⟩ := List.cons.inj h
            obtain ⟨rfl, rfl⟩ := ih hc' hd' h
            exact ⟨rfl, rfl⟩

/-! ### Single-quoted -/

/-- A blank behind a line break. -/
def indents (c d : Char) : Bool := isBreak c && d == ' '

theorem isBreak_newline : isBreak '\n' := by decide

theorem not_isBreak_blank : isBreak ' ' = false := by decide

/-- What is written for one character between single quotes, before the rest. -/
theorem single_cons_cases (indent : Nat) (before : Option Char) (column : Nat) (c : Char)
    (rest : List Char) (hb : ∀ b ∈ before, indents b c = false) :
    (isBreak c ∧ single indent before column (c :: rest) =
      (if c = '\n' ∧ before.any isBreak = false then ['\n'] else []) ++ c ::
        if rest.head?.any isBreak then single indent (some c) 0 rest
        else blanks indent ++ single indent (some c) indent rest) ∨
    (c = ' ' ∧ before.any isBreak = false ∧ single indent before column (c :: rest) =
      newLine indent ++ single indent (some c) indent rest) ∨
    (c = '\x27' ∧ single indent before column (c :: rest) =
      '\x27' :: '\x27' :: single indent (some c) (column + 2) rest) ∨
    (isBreak c = false ∧ c ≠ '\x27' ∧ single indent before column (c :: rest) =
      c :: single indent (some c) (column + 1) rest) := by
  rw [single]
  by_cases hk : isBreak c
  · rw [if_pos hk]
    refine .inl ⟨hk, ?_⟩
    by_cases hn : c = '\n' ∧ before.any isBreak = false <;>
      by_cases hr : rest.head?.any isBreak <;> simp [hn, hr]
  · rw [if_neg hk]
    have hk : isBreak c = false := by simpa using hk
    by_cases hf : c = ' ' ∧ standsAlone before rest ∧ width < column
    · rw [if_pos hf]
      obtain ⟨rfl, -⟩ := hf
      refine .inr (.inl ⟨rfl, ?_, rfl⟩)
      cases before with
      | none => rfl
      | some b => simpa [indents] using hb b rfl
    · rw [if_neg hf]
      by_cases hq : c = '\x27'
      · rw [if_pos hq]
        exact .inr (.inr (.inl ⟨hq, rfl⟩))
      · rw [if_neg hq]
        exact .inr (.inr (.inr ⟨hk, hq, rfl⟩))

/-- No blank stands behind a line break, also not in front of the text. -/
def Joined (before : Option Char) (cs : List Char) : Prop :=
  Style.anyNeighbours indents (before.toList ++ cs) = false

theorem Joined.head {before : Option Char} {c : Char} {cs : List Char}
    (h : Joined before (c :: cs)) : ∀ b ∈ before, indents b c = false := by
  rintro b rfl
  exact (Bool.or_eq_false_iff.mp h).1

theorem Joined.tail {before : Option Char} {c : Char} {cs : List Char}
    (h : Joined before (c :: cs)) : Joined (some c) cs := by
  cases before with
  | none => exact h
  | some b => exact (Bool.or_eq_false_iff.mp h).2

theorem blanks_succ (n : Nat) : blanks (n + 1) = ' ' :: blanks n := rfl

theorem single_cons_ne_nil {indent column : Nat} {before : Option Char} {c : Char} {cs : List Char}
    (hc : Joined before (c :: cs)) : single indent before column (c :: cs) ≠ [] := by
  rcases single_cons_cases indent before column c cs hc.head with ⟨-, hw⟩ | ⟨-, -, hw⟩ | ⟨-, hw⟩ |
    ⟨-, -, hw⟩ <;> rw [hw] <;> simp [newLine]

/-- Behind a line break, another one is written as it is, and everything else behind blanks. -/
theorem single_after_break {indent column : Nat} {c : Char} {cs t : List Char}
    (hi : 0 < indent) (hc : isBreak c) (hj : Joined (some c) cs) (hb : cs.head?.any isBreak) :
    single indent (some c) column cs ≠ blanks indent ++ t := by
  obtain ⟨n, rfl⟩ : ∃ n, indent = n + 1 := ⟨indent - 1, by omega⟩
  cases cs with
  | nil => simp at hb
  | cons d ds =>
      have hd : isBreak d := by simpa using hb
      rcases single_cons_cases (n + 1) (some c) column d ds hj.head with ⟨-, hw⟩ | ⟨-, hf, -⟩ |
        ⟨rfl, -⟩ | ⟨hf, -⟩
      · intro h
        have hn : ¬ (d = '\n' ∧ (some c).any isBreak = false) := by simp [hc]
        rw [hw, if_neg hn, blanks_succ] at h
        have : d = ' ' := (List.cons.inj h).1
        simp [this, not_isBreak_blank] at hd
      · simp [hc] at hf
      · exact absurd hd (by decide)
      · simp [hf] at hd

/-- What is written for a line break begins with one. -/
theorem break_ne_cons {p : Prop} [Decidable p] {c d : Char} {t u : List Char} (hc : isBreak c)
    (hd : isBreak d = false) : (if c = '\n' ∧ p then ['\n'] else []) ++ c :: t ≠ d :: u := by
  intro h
  by_cases hn : c = '\n' ∧ p
  · rw [if_pos hn] at h
    have : '\n' = d := (List.cons.inj h).1
    simp [← this, isBreak_newline] at hd
  · rw [if_neg hn] at h
    have : c = d := (List.cons.inj h).1
    simp [← this, hc] at hd

/-- A line break is not taken for a blank that was replaced by the end of a line. -/
theorem break_ne_newLine {indent : Nat} {p : Prop} [Decidable p] {c : Char} {t u : List Char}
    (hi : 0 < indent) (hp : p) :
    (if c = '\n' ∧ p then ['\n'] else []) ++ c :: t ≠ newLine indent ++ u := by
  obtain ⟨n, rfl⟩ : ∃ n, indent = n + 1 := ⟨indent - 1, by omega⟩
  intro h
  by_cases hn : c = '\n'
  · simp [hn, hp, newLine, blanks_succ] at h
  · simp [hn, newLine] at h

theorem break_append_inj {p : Prop} [Decidable p] {c d : Char} {t u : List Char}
    (h : (if c = '\n' ∧ p then ['\n'] else []) ++ c :: t =
      (if d = '\n' ∧ p then ['\n'] else []) ++ d :: u) : c = d ∧ t = u := by
  by_cases hn : c = '\n' ∧ p <;> by_cases hn' : d = '\n' ∧ p
  · simpa [hn, hn'] using h
  · rw [if_pos hn, if_neg hn'] at h
    exact absurd ⟨(List.cons.inj h).1.symm, hn.2⟩ hn'
  · rw [if_neg hn, if_pos hn'] at h
    exact absurd ⟨(List.cons.inj h).1, hn'.2⟩ hn
  · rw [if_neg hn, if_neg hn'] at h
    exact List.cons.inj h

/-- What stands between single quotes is known from what is written. -/
theorem single_inj {indent column : Nat} {before : Option Char} {cs ds : List Char}
    (hi : 0 < indent) (hc : Joined before cs) (hd : Joined before ds)
    (h : single indent before column cs = single indent before column ds) : cs = ds := by
  induction cs generalizing before column ds with
  | nil =>
      cases ds with
      | nil => rfl
      | cons d ds => exact absurd h.symm (single_cons_ne_nil hd)
  | cons c cs ih =>
      cases ds with
      | nil => exact absurd h (single_cons_ne_nil hc)
      | cons d ds =>
          -- The first character of what is written tells the four ways of writing apart.
          rcases single_cons_cases indent before column c cs hc.head with
            ⟨hk, hw⟩ | ⟨rfl, hf, hw⟩ | ⟨rfl, hw⟩ | ⟨hk, hq, hw⟩ <;>
          rcases single_cons_cases indent before column d ds hd.head with
            ⟨hk', hw'⟩ | ⟨rfl, hf', hw'⟩ | ⟨rfl, hw'⟩ | ⟨hk', hq', hw'⟩ <;> rw [hw, hw'] at h
          · obtain ⟨rfl, h⟩ := break_append_inj h
            by_cases hb : cs.head?.any isBreak <;> by_cases hb' : ds.head?.any isBreak
            · rw [if_pos hb, if_pos hb'] at h
              rw [ih hc.tail hd.tail h]
            · rw [if_pos hb, if_neg hb'] at h
              exact absurd h (single_after_break hi hk hc.tail hb)
            · rw [if_neg hb, if_pos hb'] at h
              exact absurd h.symm (single_after_break hi hk hd.tail hb')
            · rw [if_neg hb, if_neg hb', List.append_cancel_left_eq] at h
              rw [ih hc.tail hd.tail h]
          · exact absurd h (break_ne_newLine hi hf')
          · exact absurd h (break_ne_cons hk (by decide))
          · exact absurd h (break_ne_cons hk hk')
          · exact absurd h.symm (break_ne_newLine hi hf)
          · rw [ih hc.tail hd.tail (List.append_cancel_left h)]
          · exact absurd (List.cons.inj h).1 (by decide)
          · have : '\n' = d := (List.cons.inj h).1
            simp [← this, isBreak_newline] at hk'
          · exact absurd h.symm (break_ne_cons hk' (by decide))
          · exact absurd (List.cons.inj h).1 (by decide)
          · rw [ih hc.tail hd.tail (List.cons.inj (List.cons.inj h).2).2]
          · exact absurd (List.cons.inj h).1.symm hq'
          · exact absurd h.symm (break_ne_cons hk' hk)
          · have : '\n' = c := (List.cons.inj h).1.symm
            simp [← this, isBreak_newline] at hk
          · exact absurd (List.cons.inj h).1 hq
          · obtain ⟨rfl, h⟩ := List.cons.inj h
            rw [ih hc.tail hd.tail h]

/-- A quote between single quotes is written twice. -/
def doubled (cs : List Char) : List Char :=
  cs.flatMap fun c => if c = '\x27' then ['\x27', '\x27'] else [c]

theorem doubled_inj {cs ds : List Char} (h : doubled cs = doubled ds) : cs = ds := by
  induction cs generalizing ds with
  | nil =>
      cases ds with
      | nil => rfl
      | cons d ds => by_cases hd : d = '\x27' <;> simp [doubled, hd] at h
  | cons c cs ih =>
      cases ds with
      | nil => by_cases hc : c = '\x27' <;> simp [doubled, hc] at h
      | cons d ds =>
          by_cases hc : c = '\x27' <;> by_cases hd : d = '\x27' <;>
            simp only [doubled, List.flatMap_cons, hc, hd, if_true, if_false] at h
          · rw [ih (List.append_cancel_left h), hc, hd]
          · exact absurd (List.cons.inj h).1.symm hd
          · exact absurd (List.cons.inj h).1 hc
          · obtain ⟨rfl, h'⟩ := List.cons.inj h
            rw [ih h']

/-! ### The end of a quoted text -/

/-- Single quotes come in pairs. -/
inductive Paired : List Char → Prop
  | nil : Paired []
  | quote {cs : List Char} (rest : Paired cs) : Paired ('\x27' :: '\x27' :: cs)
  | other {c : Char} {cs : List Char} (hc : c ≠ '\x27') (rest : Paired cs) : Paired (c :: cs)

/-- A quote alone ends a text between single quotes. -/
theorem Paired.append_inj {u v r s : List Char} (hu : Paired u) (hv : Paired v)
    (hr : r.head? ≠ some '\x27') (hs : s.head? ≠ some '\x27')
    (h : u ++ '\x27' :: r = v ++ '\x27' :: s) : u = v ∧ r = s := by
  induction hu generalizing v with
  | nil =>
      cases hv with
      | nil => simpa using h
      | quote _ =>
          obtain rfl : r = '\x27' :: _ := (List.cons.inj h).2
          simp at hr
      | other hc _ => exact absurd (List.cons.inj h).1.symm hc
  | quote _ ih =>
      cases hv with
      | nil =>
          obtain rfl : _ = s := (List.cons.inj h).2
          simp at hs
      | quote rest =>
          obtain ⟨rfl, rfl⟩ := ih rest (List.cons.inj (List.cons.inj h).2).2
          exact ⟨rfl, rfl⟩
      | other hc _ => exact absurd (List.cons.inj h).1.symm hc
  | other hc _ ih =>
      cases hv with
      | nil => exact absurd (List.cons.inj h).1 hc
      | quote _ => exact absurd (List.cons.inj h).1 hc
      | other _ rest =>
          obtain ⟨rfl, h'⟩ := List.cons.inj h
          obtain ⟨rfl, rfl⟩ := ih rest h'
          exact ⟨rfl, rfl⟩

theorem Paired.append {u v : List Char} (hu : Paired u) (hv : Paired v) : Paired (u ++ v) := by
  induction hu with
  | nil => exact hv
  | quote _ ih => exact .quote ih
  | other hc _ ih => exact .other hc ih

theorem paired_blanks (n : Nat) : Paired (blanks n) := by
  induction n with
  | zero => exact .nil
  | succ n ih => exact .other (by decide) ih

theorem paired_single (indent : Nat) (cs : List Char) (before : Option Char) (column : Nat) :
    Paired (single indent before column cs) := by
  induction cs generalizing before column with
  | nil => exact .nil
  | cons c cs ih =>
      rw [single]
      by_cases hk : isBreak c
      · have hq : c ≠ '\x27' := by
          rintro rfl
          exact absurd hk (by decide)
        have extra (p : Prop) [Decidable p] : Paired (if p then ['\n'] else []) := by
          by_cases hp : p
          · rw [if_pos hp]
            exact .other (by decide) .nil
          · rw [if_neg hp]
            exact .nil
        rw [if_pos hk]
        by_cases hb : cs.head?.any isBreak
        · simp only [hb, if_true]
          exact (extra _).append (.other hq (ih _ _))
        · simp only [hb]
          exact (extra _).append (.other hq ((paired_blanks _).append (ih _ _)))
      · rw [if_neg hk]
        by_cases hf : c = ' ' ∧ standsAlone before cs ∧ width < column
        · rw [if_pos hf]
          exact .other (by decide) ((paired_blanks _).append (ih _ _))
        · rw [if_neg hf]
          by_cases hq : c = '\x27'
          · rw [if_pos hq]
            exact .quote (ih _ _)
          · rw [if_neg hq]
            exact .other hq (ih _ _)

theorem paired_doubled (cs : List Char) : Paired (doubled cs) := by
  induction cs with
  | nil => exact .nil
  | cons c cs ih =>
      by_cases hc : c = '\x27' <;> simp only [doubled, List.flatMap_cons, hc, if_true, if_false]
      · exact .quote ih
      · exact .other hc ih

end OpenApiDoc.Yaml.Folding
