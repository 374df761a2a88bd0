import OpenApiDoc.Proofs.Yaml.Reading

/-! # Quoted texts read back

What is written for a text between quotes, however it is divided into lines, is read as the text.

* `Reading.Quotes` says what may be written between single quotes, and `Reading.quoted_quotes` that
  it is read back. Nothing is read as U+0085 there (`Reading.not_mem_quoted`), so a text that holds
  it is not.
* Between double quotes a line is ended with a backslash, and a blank behind it is marked with
  another one. Where lines start beyond the width, the line of a marked blank is ended at once, and
  the mark is read with the backslash behind it. `Reading.quoted_double` says that the text is read
  back but for what this adds to it (`Reading.widened`), and `Reading.widened_eq_iff` when that is
  nothing. -/

namespace OpenApiDoc.Yaml.Reading

open Folding Style

/-! ### Gaps between quotes -/

/-- Behind a line break, blanks are not read. -/
theorem quoted_blanks (double : Bool) (n : Nat) (r : List Char) :
    quoted double (.line true) (blanks n ++ r) = quoted double (.line true) r := by
  induction n with
  | zero => rfl
  | succ n ih =>
      have skipped : quoted double (.line true) (' ' :: (blanks n ++ r)) =
          (quoted double (.line true) (blanks n ++ r)).map (before []) := rfl
      have same (p : List Char × List Char) : before [] p = p := rfl
      rw [blanks_succ, List.cons_append, skipped, ih]
      simp [Option.map, same]
      cases quoted double (.line true) r <;> rfl

/-! ### Texts between single quotes -/

/-- What may be written for a text between single quotes behind a character. A line break ends its
line; if it is a line feed and the first of several, it is written twice. -/
inductive Quotes (indent : Nat) : Char → List Char → List Char → Prop
  | nil (b : Char) : Quotes indent b [] []
  | keep (b : Char) {c : Char} {cs t : List Char} (hc : isBreak c = false) (hq : c ≠ '\x27')
      (rest : Quotes indent c cs t) : Quotes indent b (c :: cs) (c :: t)
  | quote (b : Char) {cs t : List Char} (rest : Quotes indent '\x27' cs t) :
      Quotes indent b ('\x27' :: cs) ('\x27' :: '\x27' :: t)
  | fold {b d : Char} {cs t : List Char} (hb : b ≠ ' ') (hd : d ≠ ' ')
      (rest : Quotes indent ' ' (d :: cs) t) :
      Quotes indent b (' ' :: d :: cs) (newLine indent ++ t)
  | line (b : Char) {c : Char} {cs t : List Char} (hc : isBreak c) (rest : Quotes indent c cs t) :
      Quotes indent b (c :: cs) ((if c = '\n' ∧ isBreak b = false then ['\n'] else []) ++
        c :: ((if cs.head?.any isBreak then [] else blanks indent) ++ t))

theorem quotes_doubled (indent : Nat) (b : Char) {cs : List Char} (h : isMultiline cs = false) :
    Quotes indent b cs (doubled cs) := by
  induction cs generalizing b with
  | nil => exact .nil b
  | cons c cs ih =>
      obtain ⟨hc, h⟩ := Bool.or_eq_false_iff.mp h
      by_cases hq : c = '\x27'
      · subst hq
        exact .quote b (ih '\x27' h)
      · simp only [doubled, List.flatMap_cons, if_neg hq]
        exact .keep b hc hq (ih c h)

/-- The character in front of a text between single quotes: another one, or the quote. -/
def front (b : Option Char) : Char := b.getD '\x27'

theorem isBreak_front (b : Option Char) : isBreak (front b) = b.any isBreak := by
  cases b <;> rfl

theorem quotes_single (indent : Nat) (b : Option Char) (column : Nat) (cs : List Char) :
    Quotes indent (front b) cs (single indent b column cs) := by
  induction cs generalizing b column with
  | nil => exact .nil _
  | cons c cs ih =>
      rw [Folding.single]
      by_cases hk : isBreak c
      · have line := Quotes.line (front b) hk
          (ih (some c) (if cs.head?.any isBreak then 0 else indent))
        rw [isBreak_front] at line
        rw [if_pos hk]
        by_cases hn : c = '\n' ∧ b.any isBreak = false <;> by_cases hr : cs.head?.any isBreak <;>
          simpa [hn, hr] using line
      · rw [if_neg hk]
        have hk : isBreak c = false := by simpa using hk
        by_cases hf : c = ' ' ∧ standsAlone b cs ∧ width < column
        · rw [if_pos hf]
          obtain ⟨rfl, alone, -⟩ := hf
          cases b with
          | none => simp [standsAlone] at alone
          | some b =>
              simp only [standsAlone, Option.any_some, Bool.and_eq_true, decide_eq_true_eq] at alone
              cases cs with
              | nil => simp at alone
              | cons d cs => exact .fold alone.1 (by simpa using alone.2) (ih (some ' ') indent)
        · rw [if_neg hf]
          by_cases hq : c = '\x27'
          · subst hq
            exact .quote _ (ih (some '\x27') _)
          · rw [if_neg hq]
            exact .keep _ hk hq (ih (some c) _)

/-- No blank stands beside a line break, also not in front of the text, and no character is taken
for another one. -/
structure Even (b : Char) (cs : List Char) : Prop where
  indented : anyNeighbours (fun c d => isBreak c && d == ' ') (b :: cs) = false
  trailing : anyNeighbours (fun c d => c == ' ' && isBreak d) (b :: cs) = false
  known : ∀ c ∈ cs, c ∉ ['\x00', '\t', '\r', '\x85']

theorem Even.tail {b c : Char} {cs : List Char} (h : Even b (c :: cs)) : Even c cs where
  indented := (Bool.or_eq_false_iff.mp h.indented).2
  trailing := (Bool.or_eq_false_iff.mp h.trailing).2
  known d hd := h.known d (by simp [hd])

theorem Even.head {b c : Char} {cs : List Char} (h : Even b (c :: cs)) :
    (isBreak b → c ≠ ' ') ∧ (b = ' ' → isBreak c = false) := by
  have indented := (Bool.or_eq_false_iff.mp h.indented).1
  have trailing := (Bool.or_eq_false_iff.mp h.trailing).1
  refine ⟨fun hb => by simpa [hb] using indented, ?_⟩
  rintro rfl
  simpa using trailing

/-- Behind a blank, the line of such a text goes on. -/
theorem Even.breakAhead {indent : Nat} {cs t : List Char} (h : Even ' ' cs)
    (hf : Quotes indent ' ' cs t) (r : List Char) : breakAhead (t ++ '\x27' :: r) = false := by
  induction cs generalizing t with
  | nil =>
      cases hf
      exact breakAhead_cons (by decide) r
  | cons c cs ih =>
      cases hf with
      | fold hb _ _ => exact absurd rfl hb
      | line _ hc _ => simp [h.head.2 rfl] at hc
      | quote _ _ => exact breakAhead_cons (by decide) _
      | keep _ hc hq rest =>
          by_cases hs : c = ' '
          · subst hs
            exact (breakAhead_blanks 1 _).trans (ih h.tail rest)
          · have known := h.known c (by simp)
            simp only [List.mem_cons, List.not_mem_nil, or_false, not_or] at known
            rw [List.cons_append, breakAhead_cons (by simp [Implicit.isBlank, hs, known])]
            simp [endsLine, hc, known]

section lines

variable {c : Char} {r : List Char}

/-- What is read of a line break. -/
theorem quoted_break (double fresh : Bool) (hc : isBreak c) (hm : isMarker r = false) :
    quoted double (.line fresh) (c :: r) =
      (quoted double (.line true) r).map (before (folded fresh c r)) := by
  have paired : isPaired c r = false := by
    have : c ≠ '\r' := by
      rintro rfl
      exact absurd hc (by decide)
    simp [isPaired, this]
  have ends : endsLine c := by simp [endsLine, hc]
  have behind : staysFresh fresh c r = true := by simp [staysFresh, ends, paired]
  rw [quoted, if_pos (.inr ends), if_neg (by simp [hm]), behind]

/-- A line break is read as it is, if it is written twice where it is a line feed and the first of
several. -/
theorem quoted_line {b : Char} (hc : isBreak c) (h : c ≠ '\x85') (hm : isMarker r = false) :
    quoted false (.line (isBreak b))
        ((if c = '\n' ∧ isBreak b = false then ['\n'] else []) ++ c :: r) =
      (quoted false (.line true) r).map (before [c]) := by
  simp only [isBreak, Bool.or_eq_true, beq_iff_eq, h, or_false] at hc
  have later (hc : isBreak c) (hf : folded true c r = [c]) :
      quoted false (.line true) (c :: r) = (quoted false (.line true) r).map (before [c]) := by
    rw [quoted_break _ _ hc hm, hf]
  rcases hc with (rfl | rfl) | rfl
  · cases isBreak b
    · have twice : isMarker ('\n' :: r) = false := isMarker_of_ne (by decide) (by decide) r
      have none : folded false '\n' ('\n' :: r) = [] := rfl
      rw [if_pos ⟨rfl, rfl⟩, List.singleton_append, quoted_break _ _ (by decide) twice, none,
        later (by decide) rfl, Option.map_map]
      rfl
    · exact later (by decide) rfl
  · cases isBreak b
    · exact quoted_break _ _ (by decide) hm
    · exact later (by decide) rfl
  · cases isBreak b
    · exact quoted_break _ _ (by decide) hm
    · exact later (by decide) rfl

/-- Behind a line break, a character that is no part of a gap is read as anywhere else. -/
theorem quoted_fresh (double fresh : Bool) (hb : Implicit.isBlank c = false)
    (hc : endsLine c = false) :
    quoted double (.line fresh) (c :: r) = quoted double (.line false) (c :: r) := by
  have gap : ¬ (Implicit.isBlank c ∨ endsLine c) := by simp [hb, hc]
  rw [quoted, quoted, if_neg gap, if_neg gap]

/-- A character between single quotes that stands for itself. -/
theorem quoted_self (fresh : Bool) (hb : Implicit.isBlank c = false) (hc : endsLine c = false)
    (h₀ : c ≠ '\x00') (hq : c ≠ '\x27') :
    quoted false (.line fresh) (c :: r) = (quoted false (.line false) r).map (before [c]) := by
  simp [quoted, hb, hc, h₀, hq]

/-- A blank is read as it is, unless its line ends. -/
theorem quoted_blank (double : Bool) (h : breakAhead r = false) :
    quoted double (.line false) (' ' :: r) =
      (quoted double (.line false) r).map (before [' ']) := by
  simp [quoted, Implicit.isBlank, endsLine, isBreak, folded, h, staysFresh]

/-- The end of a line before a character that is no part of a gap is read as a blank. -/
theorem quoted_newLine (double : Bool) {indent : Nat} (hi : 0 < indent)
    (hb : Implicit.isBlank c = false) (hc : endsLine c = false) :
    quoted double (.line false) (newLine indent ++ c :: r) =
      (quoted double (.line false) (c :: r)).map (before [' ']) := by
  have one : folded false '\n' (blanks indent ++ c :: r) = [' '] := by
    simp [folded, Implicit.isBlank, isPaired, normal, breakAhead_blanks, breakAhead_cons hb, hc]
  rw [newLine, List.cons_append, quoted_break _ _ (by decide) (isMarker_blanks hi _), one,
    quoted_blanks, quoted_fresh double true hb hc]

end lines

theorem Even.not_gap {b c : Char} {cs : List Char} (h : Even b (c :: cs)) (hc : isBreak c = false) :
    endsLine c = false ∧ c ≠ '\x00' ∧ (c ≠ ' ' → Implicit.isBlank c = false) := by
  have known := h.known c (by simp)
  simp only [List.mem_cons, List.not_mem_nil, or_false, not_or] at known
  exact ⟨by simp [endsLine, hc, known], known.1, fun hs => by simp [Implicit.isBlank, hs, known]⟩

/-- How a folded text begins that does not begin with a blank or a line break. -/
theorem Quotes.head {indent : Nat} {b d : Char} {cs t : List Char}
    (h : Quotes indent b (d :: cs) t) (hd : d ≠ ' ') (hk : isBreak d = false) :
    ∃ u, t = d :: u := by
  cases h with
  | keep _ _ _ _ => exact ⟨_, rfl⟩
  | quote _ _ => exact ⟨_, rfl⟩
  | fold _ _ _ => exact absurd rfl hd
  | line _ hc _ => simp [hc] at hk

/-- A text between single quotes is read back. -/
theorem quoted_quotes {indent : Nat} {b : Char} {cs t r : List Char} (hf : Quotes indent b cs t)
    (h : Even b cs) (hi : 0 < indent) (hr : r.head? ≠ some '\x27') :
    quoted false (.line (isBreak b)) (t ++ '\x27' :: r) = some (cs, r) := by
  induction hf with
  | nil b =>
      have closed : quoted false .quote r = some ([], r) := by
        cases r with
        | nil => rfl
        | cons c r => exact if_neg fun hc => hr (by simp [hc])
      exact closed
  | @keep b c cs t hc hq rest ih =>
      obtain ⟨line, nul, blank⟩ := h.not_gap hc
      have further := ih h.tail
      rw [hc] at further
      by_cases hs : c = ' '
      · subst hs
        have fresh : isBreak b = false := by
          by_contra hb
          exact h.head.1 (by simpa using hb) rfl
        rw [fresh, List.cons_append, quoted_blank _ (h.tail.breakAhead rest r), further]
        rfl
      · rw [List.cons_append, quoted_self _ (blank hs) line nul hq, further]
        rfl
  | @quote b cs t rest ih =>
      have pair (fresh : Bool) :
          quoted false (.line fresh) ('\x27' :: '\x27' :: (t ++ '\x27' :: r)) =
            (quoted false (.line false) (t ++ '\x27' :: r)).map (before ['\x27']) := rfl
      have further := ih h.tail
      rw [show isBreak '\x27' = false by decide] at further
      rw [List.cons_append, List.cons_append, pair, further]
      rfl
  | @fold b d cs t hb hd rest ih =>
      have fresh : isBreak b = false := by
        by_contra hb
        exact h.head.1 (by simpa using hb) rfl
      have hk : isBreak d = false := h.tail.head.2 rfl
      obtain ⟨line, -, blank⟩ := h.tail.not_gap hk
      obtain ⟨u, hu⟩ := rest.head hd hk
      have further := ih h.tail
      rw [show isBreak ' ' = false by decide, hu, List.cons_append] at further
      rw [fresh, List.append_assoc, hu, List.cons_append, quoted_newLine _ hi (blank hd) line,
        further]
      rfl
  | @line b c cs t hc rest ih =>
      have known : c ≠ '\x85' := by
        rintro rfl
        exact h.known '\x85' (by simp) (by simp)
      have further := ih h.tail
      rw [hc] at further
      have marker : isMarker ((if cs.head?.any isBreak then [] else blanks indent) ++
          (t ++ '\x27' :: r)) = false := by
        by_cases hn : cs.head?.any isBreak
        · rw [if_pos hn, List.nil_append]
          cases rest with
          | nil => simp at hn
          | @line _ d _ _ hd _ =>
              have dash : d ≠ '-' := by rintro rfl; exact absurd hd (by decide)
              have dot : d ≠ '.' := by rintro rfl; exact absurd hd (by decide)
              simpa [hc] using isMarker_of_ne dash dot _
          | keep _ hd _ _ => simp [hd] at hn
          | quote _ _ => simp [isBreak] at hn
          | fold _ _ _ => simp [isBreak] at hn
        · rw [if_neg hn]
          exact isMarker_blanks hi _
      have behind : quoted false (.line true)
          ((if cs.head?.any isBreak then [] else blanks indent) ++ (t ++ '\x27' :: r)) =
            some (cs, r) := by
        split
        · exact further
        · rw [quoted_blanks, further]
      rw [List.append_assoc, List.cons_append, List.append_assoc, quoted_line hc known marker,
        behind]
      rfl

/-- Nothing is read as U+0085 between single quotes. -/
theorem not_mem_quoted {cs v r : List Char}
    (h : ∃ fresh, quoted false (.line fresh) cs = some (v, r) ∨
      quoted false .quote cs = some (v, r)) : '\x85' ∉ v := by
  induction cs generalizing v with
  | nil =>
      obtain ⟨fresh, h | h⟩ := h
      · simp [quoted] at h
      · obtain ⟨rfl, -⟩ := by simpa [quoted] using h
        simp
  | cons c cs ih =>
      -- what comes first is read as other characters, and the rest is none either
      have rest {fresh : Bool} {vs : List Char} (hv : '\x85' ∉ vs)
          (h : (quoted false (.line fresh) cs).map (before vs) = some (v, r)) : '\x85' ∉ v := by
        obtain ⟨p, hp, heq⟩ := Option.map_eq_some_iff.mp h
        obtain ⟨rfl, rfl⟩ := Prod.mk.inj heq
        have := ih ⟨fresh, .inl hp⟩
        simp [hv, this]
      have gap (fresh : Bool) : '\x85' ∉ folded fresh c cs := by
        have kept : Implicit.isBlank c → c ≠ '\x85' := by
          rintro hb rfl
          exact absurd hb (by decide)
        have line : normal c ≠ '\x85' := by
          unfold normal
          split
          · next hc =>
              rintro rfl
              exact absurd hc (by decide)
          · decide
        unfold folded
        split
        · next hb => split <;> simp [Ne.symm (kept hb)]
        · split
          · simp
          · split
            · simp [Ne.symm line]
            · split <;> simp
      obtain ⟨fresh, h | h⟩ := h
      · rw [quoted] at h
        split at h
        · split at h
          · simp at h
          · exact rest (gap fresh) h
        · next hg =>
          have other : c ≠ '\x85' := by
            rintro rfl
            exact hg (.inr (by decide))
          simp only [Bool.false_and, Bool.false_eq_true, if_false, Bool.not_false,
            Bool.true_and] at h
          split at h
          · simp at h
          · split at h
            · exact ih ⟨fresh, .inr h⟩
            · exact rest (by simp [Ne.symm other]) h
      · rw [quoted] at h
        split at h
        · next hq => exact rest (by simp [hq]) h
        · obtain ⟨rfl, -⟩ := by simpa using h
          simp

/-! ### Texts between double quotes -/

theorem unescape?_letter {c l : Char} (h : letter? c = some l) :
    endsLine l = false ∧ unescape? l = some c := by
  unfold letter? at h
  split at h <;> simp only [Option.some.injEq, reduceCtorEq] at h <;> subst h <;> decide

theorem hexValue?_of_mem {k n : Nat} {d : Char} (h : d ∈ (Text.hexDigits k n).map Char.toUpper) :
    Json.hexValue? d = some (hexValue d) := by
  have each : ∀ m : Fin 16, Json.hexValue? (Nat.digitChar m).toUpper =
      some (hexValue (Nat.digitChar m).toUpper) := by decide
  obtain ⟨m, rfl⟩ := exists_digit_of_mem h
  exact each m

/-- Digits are read as the character of their number. -/
theorem quoted_digits {ds : List Char} {n : Nat} (hn : ds.length = n + 1) (value : Nat)
    (h : ∀ d ∈ ds, Json.hexValue? d = some (hexValue d)) (r : List Char) :
    quoted true (.digits n value) (ds ++ r) =
      (char? (ds.foldl (fun v c => 16 * v + hexValue c) value)).bind fun x =>
        (quoted true (.line false) r).map (before [x]) := by
  induction ds generalizing n value with
  | nil => simp at hn
  | cons d ds ih =>
      have first := h d (by simp)
      cases n with
      | zero =>
          obtain rfl : ds = [] := List.length_eq_zero_iff.mp (Nat.succ.inj hn)
          simp [quoted, first]
      | succ n =>
          have next := ih (Nat.succ.inj hn) (16 * value + hexValue d) fun x hx => h x (by simp [hx])
          simp only [quoted, first, List.cons_append]
          exact next

theorem char?_toNat (c : Char) : char? c.toNat = some c := by
  have valid : c.toNat.isValidChar := c.valid
  rw [char?, if_pos valid, Char.ofNat_toNat]

/-- An escape is read as its character. -/
theorem quoted_escape (fresh : Bool) (c : Char) (r : List Char) :
    quoted true (.line fresh) (escape c ++ r) = (quoted true (.line false) r).map (before [c]) := by
  have opened (cs : List Char) :
      quoted true (.line fresh) ('\\' :: cs) = quoted true .escape cs := rfl
  rw [escape]
  cases hc : letter? c with
  | some l =>
      obtain ⟨line, letter⟩ := unescape?_letter hc
      simp only [List.cons_append, List.nil_append, opened, quoted, line, letter]
      rfl
  | none =>
      obtain ⟨l, k, hw, hk, hlt, hl⟩ := numericEscape_cases c
      obtain ⟨n, rfl⟩ : ∃ n, k = n + 1 := ⟨k - 1, by omega⟩
      have size : ((Text.hexDigits (n + 1) c.toNat).map Char.toUpper).length = n + 1 := by
        rw [List.length_map, length_hexDigits hk hlt]
      have start (cs : List Char) :
          quoted true .escape (l :: cs) = quoted true (.digits n 0) cs := by
        simp only [List.mem_cons, Prod.mk.injEq, List.not_mem_nil, or_false, Nat.succ.injEq] at hl
        rcases hl with ⟨rfl, rfl⟩ | ⟨rfl, rfl⟩ | ⟨rfl, rfl⟩ <;> rfl
      have number := hexNumber_hexDigits (n + 1) c.toNat
      rw [hexNumber] at number
      simp only [hw, List.cons_append]
      rw [opened, start, quoted_digits size 0 (fun d => hexValue?_of_mem) r, number, char?_toNat]
      rfl

/-- A line that is ended with a backslash goes on behind the indentation of the next. -/
theorem quoted_mark (fresh : Bool) {indent : Nat} (hi : 0 < indent) (r : List Char) :
    quoted true (.line fresh) ('\\' :: (newLine indent ++ r)) = quoted true (.line true) r := by
  have ended : quoted true (.line fresh) ('\\' :: '\n' :: (blanks indent ++ r)) =
      if isMarker (blanks indent ++ r) then none
      else quoted true (.line true) (blanks indent ++ r) := rfl
  rw [newLine, List.cons_append, ended, isMarker_blanks hi, if_neg (by simp), quoted_blanks]

theorem of_isRaw {c : Char} (h : isRaw c) :
    endsLine c = false ∧ c ≠ '\x00' ∧ (c ≠ ' ' → Implicit.isBlank c = false) := by
  have other {x : Char} (hx : isRaw x = false) : c ≠ x := by
    rintro rfl
    simp [hx] at h
  refine ⟨?_, other (by decide), fun hs => ?_⟩
  · simp [endsLine, isBreak, other (x := '\r') (by decide), other (x := '\n') (by decide),
      other (x := '\x85') (by decide), other (x := '\u2028') (by decide),
      other (x := '\u2029') (by decide)]
  · simp [Implicit.isBlank, hs, other (x := '\t') (by decide)]

/-- A raw character is read as it is. -/
theorem quoted_raw (fresh : Bool) {c : Char} (hc : isRaw c) (hs : c ≠ ' ') (r : List Char) :
    quoted true (.line fresh) (c :: r) = (quoted true (.line false) r).map (before [c]) := by
  obtain ⟨line, nul, blank⟩ := of_isRaw hc
  have quote := ne_of_isRaw hc
  simp [quoted, blank hs, line, nul, quote.1, quote.2.1]

/-- Also at the start of a line, where a blank is marked. -/
theorem quoted_head {c : Char} (hc : isRaw c) (rest r : List Char) :
    quoted true (.line true) (lineHead (c :: rest) ++ c :: r) =
      (quoted true (.line false) r).map (before [c]) := by
  by_cases hs : c = ' '
  · subst hs
    rfl
  · rw [lineHead_of_ne hs]
    exact quoted_raw true hc hs r

/-- Behind a blank, the line goes on, or is ended with a backslash. -/
theorem breakAhead_double (indent : Nat) (split first escaped : Bool) (column : Nat)
    (cs r : List Char) :
    breakAhead (double indent split first escaped column cs ++ '"' :: r) = false := by
  induction cs generalizing first escaped column with
  | nil => exact breakAhead_cons (by decide) r
  | cons c cs ih =>
      have marked (u : List Char) : breakAhead ('\\' :: u) = false := breakAhead_cons (by decide) u
      obtain ⟨l, t, he, -⟩ := escape_cases c
      rcases double_cons_cases indent split first escaped column c cs with
        ⟨-, -, hw⟩ | ⟨hc, hw⟩ | ⟨-, -, -, -, -, hw⟩ | ⟨-, -, hw⟩ <;> rw [hw]
      · exact marked _
      · by_cases hs : c = ' '
        · subst hs
          exact (breakAhead_blanks 1 _).trans (ih false false _)
        · obtain ⟨line, -, blank⟩ := of_isRaw hc
          rw [List.cons_append, breakAhead_cons (blank hs), line]
      · rw [he]
        exact marked _
      · rw [he]
        exact marked _

/-- What is read of a text between double quotes. If it is `wide`, that is, lines start beyond the
width, a blank that is not the last character, behind an escape that is not the first one, gets a
backslash and a blank in front. -/
def widened (wide escaped first : Bool) : List Char → List Char
  | [] => []
  | c :: rest =>
    if wide && escaped && c == ' ' && !rest.isEmpty then
      '\\' :: ' ' :: c :: widened wide false false rest
    else c :: widened wide (!isRaw c && !first) false rest

@[simp] theorem widened_narrow (escaped first : Bool) (cs : List Char) :
    widened false escaped first cs = cs := by
  induction cs generalizing escaped first with
  | nil => rfl
  | cons c cs ih => simp [widened, ih]

theorem widened_cons {wide escaped first : Bool} {c : Char} {rest : List Char}
    (h : wide → escaped → c = ' ' → rest = []) : widened wide escaped first (c :: rest) =
      c :: widened wide (!isRaw c && !first) false rest := by
  rw [widened, if_neg]
  simp only [Bool.and_eq_true, beq_iff_eq, Bool.not_eq_true', List.isEmpty_eq_false_iff]
  rintro ⟨⟨⟨hw, he⟩, hc⟩, hr⟩
  exact hr (h hw he hc)

/-- Lines start beyond the width. -/
def isWide (split : Bool) (indent : Nat) : Bool := split && width ≤ indent

section double

variable {indent : Nat} {split : Bool} {r : List Char} {c : Char} {cs : List Char}

/-- What is written on a line is read back but for what is added. -/
def ReadsLine (indent : Nat) (split : Bool) (r cs : List Char) : Prop :=
  ∀ first escaped column, (isWide split indent → indent ≤ column) →
    quoted true (.line false) (double indent split first escaped column cs ++ '"' :: r) =
      some (widened (isWide split indent) false first cs, r)

/-- What is written on a further line behind an escape is read back but for what is added. -/
def ReadsFurther (indent : Nat) (split : Bool) (r cs : List Char) : Prop :=
  quoted true (.line true) (lineHead cs ++
      double indent split false true (indent + (lineHead cs).length) cs ++ '"' :: r) =
    some (widened (isWide split indent) true false cs, r)

/-- Behind an escape that does not end its line, nothing is added. -/
theorem widened_behind {first : Bool} {column : Nat} (hc : isWide split indent → indent ≤ column)
    (hs : cs = [] ∨ ¬ (split ∧ first = false ∧ width + 1 < column + (escape c).length)) :
    widened (isWide split indent) false false cs =
      widened (isWide split indent) (!first) false cs := by
  rcases hs with rfl | hs
  · rfl
  · cases first with
    | true => rfl
    | false =>
        -- where lines start beyond the width, the escape would have ended its line
        have narrow : isWide split indent = false := by
          by_contra hn
          have wide : isWide split indent := by simpa using hn
          obtain ⟨l, t, he, -⟩ := escape_cases c
          have long : 2 ≤ (escape c).length := by simp [he]
          have far := hc wide
          simp only [isWide, Bool.and_eq_true, decide_eq_true_eq] at wide
          exact hs ⟨wide.1, rfl, by omega⟩
        simp [narrow]

theorem ReadsLine.cons (hi : 0 < indent) (line : ReadsLine indent split r cs)
    (further : ReadsFurther indent split r cs) : ReadsLine indent split r (c :: cs) := by
  intro first escaped column hc
  rw [widened_cons (by simp)]
  rcases double_cons_cases indent split first escaped column c cs with
    ⟨raw, -, hw⟩ | ⟨raw, hw⟩ | ⟨raw, hs, hf, hr, -, hw⟩ | ⟨raw, hs, hw⟩ <;> rw [hw, raw]
  · have rest := line false false (indent + (lineHead (c :: cs)).length + 1) fun _ => by omega
    simp only [List.cons_append, List.append_assoc]
    rw [quoted_mark _ hi, quoted_head raw, rest]
    rfl
  · have rest := line false false (column + 1) fun h => by have := hc h; omega
    rw [List.cons_append]
    by_cases hs : c = ' '
    · subst hs
      rw [quoted_blank _ (breakAhead_double _ _ _ _ _ _ _), rest]
      rfl
    · rw [quoted_raw _ raw hs, rest]
      rfl
  · have rest := further
    simp only [ReadsFurther, List.append_assoc] at rest
    simp only [List.append_assoc, List.cons_append]
    rw [quoted_escape, quoted_mark _ hi, rest, hf]
    rfl
  · have rest := line false true (column + (escape c).length) fun h => by have := hc h; omega
    rw [List.append_assoc, quoted_escape, rest, widened_behind hc hs]
    rfl

/-- The mark of a blank is read with the blank, unless the line is ended at once. -/
theorem ReadsLine.marked (hi : 0 < indent) (line : ReadsLine indent split r cs) :
    ReadsFurther indent split r (' ' :: cs) := by
  have rest (column : Nat) (hc : isWide split indent → indent ≤ column) :=
    line false false column hc
  have kept (fresh : Bool) (cs : List Char) : quoted true (.line fresh) ('\\' :: ' ' :: cs) =
      (quoted true (.line false) cs).map (before [' ']) := rfl
  have spoiled (cs : List Char) : quoted true (.line true) ('\\' :: '\\' :: cs) =
      (quoted true (.line false) cs).map (before ['\\']) := rfl
  rw [ReadsFurther, lineHead_blank, Folding.double]
  simp only [isRaw_blank, if_true]
  by_cases hw : (split && !false && !cs.isEmpty && (' ' == ' ' || true) &&
      decide (width < indent + ['\\'].length)) = true
  · rw [if_pos hw]
    simp only [Bool.and_eq_true, Bool.not_eq_true', decide_eq_true_eq, List.length_cons,
      List.length_nil, List.isEmpty_eq_false_iff] at hw
    have wide : isWide split indent := by
      simp only [isWide, Bool.and_eq_true, decide_eq_true_eq]
      exact ⟨hw.1.1.1.1, by omega⟩
    simp only [lineHead_blank, List.cons_append, List.nil_append, List.append_assoc]
    rw [spoiled, quoted_newLine _ hi (by decide) (by decide), kept,
      rest _ (fun _ => by simp; omega), widened, if_pos (by simp [wide, hw.1.1.2])]
    rfl
  · rw [if_neg hw]
    have last : isWide split indent → true → ' ' = ' ' → cs = [] := by
      intro wide _ _
      by_contra hn
      simp only [isWide, Bool.and_eq_true, decide_eq_true_eq] at wide
      exact hw (by simp [wide.1, hn]; omega)
    simp only [List.cons_append, List.nil_append]
    rw [kept, rest _ (fun _ => by simp; omega), widened_cons last]
    rfl

/-- A further line that does not begin with a blank is read as any other. -/
theorem ReadsLine.unmarked (line : ReadsLine indent split r (c :: cs)) (hs : c ≠ ' ') :
    ReadsFurther indent split r (c :: cs) := by
  have same : quoted true (.line true)
      (double indent split false true indent (c :: cs) ++ '"' :: r) =
        quoted true (.line false)
          (double indent split false true indent (c :: cs) ++ '"' :: r) := by
    obtain ⟨l, t, he, -⟩ := escape_cases c
    rcases double_cons_cases indent split false true indent c cs with
      ⟨-, -, hw⟩ | ⟨raw, hw⟩ | ⟨-, -, -, -, -, hw⟩ | ⟨-, -, hw⟩ <;> rw [hw]
    · rfl
    · rw [List.cons_append, quoted_raw _ raw hs, quoted_raw _ raw hs]
    · rw [he]
      rfl
    · rw [he]
      rfl
  have self := line false true indent fun _ => Nat.le_refl _
  rw [widened_cons (by simp)] at self
  rw [ReadsFurther, lineHead_of_ne hs, widened_cons fun _ _ h => absurd h hs]
  exact same.trans self

/-- A text between double quotes is read back but for what is added. -/
theorem quoted_double (hi : 0 < indent) (cs : List Char) : ReadsLine indent split r cs := by
  suffices both : ReadsLine indent split r cs ∧ ReadsFurther indent split r cs from both.1
  induction cs with
  | nil => exact ⟨fun _ _ _ _ => rfl, rfl⟩
  | cons c cs ih =>
      have line : ReadsLine indent split r (c :: cs) := ih.1.cons hi ih.2
      refine ⟨line, ?_⟩
      by_cases hs : c = ' '
      · subst hs
        exact ih.1.marked hi
      · exact line.unmarked hs

end double

/-- Behind a character that is written as an escape and is not the first one stands a blank that is
not the last one. -/
def crowded (cs : List Char) : Bool :=
  anyNeighbours (fun c d => !isRaw c && d == ' ') (cs.drop 1).dropLast

theorem length_le_widened (wide escaped first : Bool) (cs : List Char) :
    cs.length ≤ (widened wide escaped first cs).length := by
  induction cs generalizing escaped first with
  | nil => exact Nat.le_refl _
  | cons c cs ih =>
      rw [widened]
      split
      · have := ih false false
        simp only [List.length_cons]
        omega
      · have := ih (!isRaw c && !first) false
        simp only [List.length_cons]
        omega

theorem widened_further_iff (escaped : Bool) (cs : List Char) : widened true escaped false cs = cs ↔
    (escaped && cs.head? == some ' ' && !cs.tail.isEmpty) = false ∧
      anyNeighbours (fun c d => !isRaw c && d == ' ') cs.dropLast = false := by
  induction cs generalizing escaped with
  | nil => simp [widened, anyNeighbours]
  | cons c cs ih =>
      by_cases hs : (escaped && c == ' ' && !cs.isEmpty) = true
      · have longer := length_le_widened true false false cs
        rw [widened, if_pos (by simpa using hs)]
        refine iff_of_false (fun h => ?_) fun h => ?_
        · have := congrArg List.length h
          simp only [List.length_cons] at this
          omega
        · simp_all
      · rw [widened, if_neg (by simpa using hs)]
        have head :
            (escaped && (c :: cs).head? == some ' ' && !(c :: cs).tail.isEmpty) = false := by
          simpa using hs
        rw [head, List.cons.injEq, ih]
        simp only [Bool.not_false, Bool.and_true, true_and]
        cases cs with
        | nil => simp [anyNeighbours]
        | cons d cs =>
            cases cs with
            | nil => simp [anyNeighbours]
            | cons e cs => simp [anyNeighbours, Bool.or_eq_false_iff]

theorem widened_eq_iff (cs : List Char) : widened true false true cs = cs ↔ crowded cs = false := by
  cases cs with
  | nil => simp [widened, crowded, anyNeighbours]
  | cons c cs =>
      rw [widened_cons (by simp), List.cons.injEq]
      simp [widened_further_iff, crowded]

/-- On lines that start at the width, the mark of a blank behind a tabulator is read with it. -/
example : quoted true (.line false) (double 80 true true false 81 "x\t y!".toList ++ ['"']) =
    some ("x\t\\  y!".toList, []) := by decide +kernel

end OpenApiDoc.Yaml.Reading
