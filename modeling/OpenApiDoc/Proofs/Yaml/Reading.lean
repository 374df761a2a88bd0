import OpenApiDoc.Json.Reader
import OpenApiDoc.Proofs.Yaml.Scalars

/-! # Texts read back

How a reader of YAML takes a scalar from the lines of a document, and what it makes of the scalars
that are written for texts.

* Blanks and line breaks between words are a gap. `Reading.folded` says what a character of a gap is
  read as: a line break alone is a blank, of several the first is left out, and the blanks beside
  them do not count. A carriage return, a line feed and U+0085 are all read as a line feed.
* `Reading.plain` reads without quotes: up to markup, to a comment, or to a line that is not
  indented deeper than the collection. `Reading.quoted` reads up to the closing quote.
* `Reading.text?` reads a scalar that stands for a text.

`Reading.Folds` says what may be written for a text without quotes, with blanks replaced by the ends
of lines, and `Reading.plain_folds` that it is read back. -/

namespace OpenApiDoc.Yaml.Reading

open Folding Style

/-! ### Gaps -/

/-- The characters that end a line for a reader. -/
def endsLine (c : Char) : Bool := c == '\r' || isBreak c

/-- What a line break is read as. -/
def normal (c : Char) : Char := if c == '\u2028' || c == '\u2029' then c else '\n'

/-- A carriage return that belongs to the line feed behind it. -/
def isPaired (c : Char) (rest : List Char) : Bool := c == '\r' && rest.head? == some '\n'

/-- The line of what follows is over but for blanks. -/
def breakAhead (rest : List Char) : Bool := (rest.dropWhile Implicit.isBlank).head?.any endsLine

/-- What a character of a gap is read as; `fresh` holds behind a line break. -/
def folded (fresh : Bool) (c : Char) (rest : List Char) : List Char :=
  if Implicit.isBlank c then if fresh || breakAhead rest then [] else [c]
  else if isPaired c rest then []
  else if fresh || normal c ≠ '\n' then [normal c]
  else if breakAhead rest then [] else [' ']

/-- Only blanks stand between a line break and what comes behind the character. -/
def staysFresh (fresh : Bool) (c : Char) (rest : List Char) : Bool :=
  fresh || (endsLine c && !isPaired c rest)

/-- The line begins a new document, or ends this one. -/
def isMarker (cs : List Char) : Bool :=
  (['-', '-', '-'].isPrefixOf cs || ['.', '.', '.'].isPrefixOf cs) && isSeparated (cs.drop 3)

/-- What is read in front of the rest. -/
def before (vs : List Char) (p : List Char × List Char) : List Char × List Char := (vs ++ p.1, p.2)

/-! ### Without quotes -/

/-- A character that is no part of a text without quotes, given what is behind it. -/
def stops (c : Char) (rest : List Char) : Bool := isSeparator c || (c == ':' && isSeparated rest)

/-- Behind the gap, a text without quotes goes on: not with a comment, and only on lines that are
indented deeper than `level`. -/
def goesOn (level column : Nat) : List Char → Bool
  | [] => false
  | c :: rest =>
    if c = ' ' then goesOn level (column + 1) rest
    else if endsLine c then !isMarker rest && goesOn level 0 rest
    else c ≠ '#' && !stops c rest && level < column

/-- A text without quotes inside a collection at `level`, and what is behind it. -/
def plain (level : Nat) (fresh : Bool) : List Char → List Char × List Char
  | [] => ([], [])
  | c :: rest =>
    if c = ' ' ∨ endsLine c then
      if fresh || goesOn level (level + 1) (c :: rest) then
        before (folded fresh c rest) (plain level (staysFresh fresh c rest) rest)
      else ([], c :: rest)
    else if stops c rest then ([], c :: rest)
    else before [c] (plain level false rest)

/-- The character begins a text without quotes. -/
def startsPlain : List Char → Bool
  | [] => false
  | c :: rest => !isSeparator c && !isLeadingIndicator c && !(isBlockMark c && isSeparated rest)

/-! ### Between quotes -/

/-- The character that a short escape stands for. -/
def unescape? : Char → Option Char
  | '0' => some '\x00'
  | 'a' => some '\x07'
  | 'b' => some '\x08'
  | 't' => some '\x09'
  | '\t' => some '\x09'
  | 'n' => some '\x0a'
  | 'v' => some '\x0b'
  | 'f' => some '\x0c'
  | 'r' => some '\x0d'
  | 'e' => some '\x1b'
  | ' ' => some ' '
  | '"' => some '"'
  | '\\' => some '\\'
  | '/' => some '/'
  | 'N' => some '\x85'
  | '_' => some '\xa0'
  | 'L' => some '\u2028'
  | 'P' => some '\u2029'
  | _ => none

/-- The number of digits of a numeric escape, less one. -/
def furtherDigits? : Char → Option Nat
  | 'x' => some 1
  | 'u' => some 3
  | 'U' => some 7
  | _ => none

/-- The character of a number. -/
def char? (n : Nat) : Option Char := if n.isValidChar then some (Char.ofNat n) else none

/-- What a reader of quoted texts is behind. -/
inductive Position where
  /-- A character of a line, or a line break if it is `fresh`. -/
  | line (fresh : Bool)
  /-- A single quote, which is one of a pair or the closing one. -/
  | quote
  /-- A backslash. -/
  | escape
  /-- Digits with a value; so many follow the next one. -/
  | digits (further value : Nat)

/-- A text up to its closing quote, and what is behind it. -/
def quoted (double : Bool) : Position → List Char → Option (List Char × List Char)
  | .quote, [] => some ([], [])
  | _, [] => none
  | .line fresh, c :: rest =>
    if Implicit.isBlank c ∨ endsLine c then
      if endsLine c && isMarker rest then none
      else (quoted double (.line (staysFresh fresh c rest)) rest).map (before (folded fresh c rest))
    else if c = '\x00' then none
    else if double && c == '\\' then quoted double .escape rest
    else if double && c == '"' then some ([], rest)
    else if !double && c == '\x27' then quoted double .quote rest
    else (quoted double (.line false) rest).map (before [c])
  | .quote, c :: rest =>
    if c = '\x27' then (quoted double (.line false) rest).map (before [c]) else some ([], c :: rest)
  | .escape, c :: rest =>
    if endsLine c then
      if isPaired c rest then quoted double .escape rest
      else if isMarker rest then none
      else quoted double (.line true) rest
    else match unescape? c, furtherDigits? c with
      | some d, _ => (quoted double (.line false) rest).map (before [d])
      | none, some n => quoted double (.digits n 0) rest
      | none, none => none
  | .digits further value, c :: rest =>
    match Json.hexValue? c, further with
    | none, _ => none
    | some d, 0 => (char? (16 * value + d)).bind fun x =>
        (quoted double (.line false) rest).map (before [x])
    | some d, n + 1 => quoted double (.digits n (16 * value + d)) rest

/-- A scalar inside a collection at `level` that stands for a text, and what is behind it. -/
def text? (level : Nat) : List Char → Option (List Char × List Char)
  | '"' :: rest => quoted true (.line false) rest
  | '\x27' :: rest => quoted false (.line false) rest
  | cs =>
    let p := plain level false cs
    if startsPlain cs ∧ Implicit.of p.1 = .text then some p else none

/-! ### Characters and gaps -/

theorem of_not_isSeparator {c : Char} (h : isSeparator c = false) :
    c ≠ ' ' ∧ endsLine c = false ∧ Implicit.isBlank c = false := by
  simp only [isSeparator, isBreak, Bool.or_eq_false_iff, beq_eq_false_iff_ne] at h
  simp [endsLine, isBreak, Implicit.isBlank, h]

theorem isMarker_of_ne {c : Char} (h : c ≠ '-') (h' : c ≠ '.') (r : List Char) :
    isMarker (c :: r) = false := by
  simp [isMarker, List.isPrefixOf, Ne.symm h, Ne.symm h']

theorem isMarker_blanks {n : Nat} (h : 0 < n) (r : List Char) :
    isMarker (blanks n ++ r) = false := by
  obtain ⟨m, rfl⟩ : ∃ m, n = m + 1 := ⟨n - 1, by omega⟩
  exact isMarker_of_ne (by decide) (by decide) _

theorem breakAhead_cons {c : Char} (h : Implicit.isBlank c = false) (r : List Char) :
    breakAhead (c :: r) = endsLine c := by
  simp [breakAhead, h]

theorem breakAhead_blanks (n : Nat) (r : List Char) :
    breakAhead (blanks n ++ r) = breakAhead r := by
  induction n with
  | zero => rfl
  | succ n ih => exact ih

theorem goesOn_blanks (level column n : Nat) (r : List Char) :
    goesOn level column (blanks n ++ r) = goesOn level (column + n) r := by
  induction n generalizing column with
  | zero => rfl
  | succ n ih =>
      have further := ih (column + 1)
      rw [Nat.add_assoc, Nat.add_comm 1] at further
      exact further

/-- Behind a line break, blanks are not read. -/
theorem plain_blanks (level n : Nat) (r : List Char) :
    plain level true (blanks n ++ r) = plain level true r := by
  induction n with
  | zero => rfl
  | succ n ih => exact ih

/-! ### Texts without quotes -/

/-- What may be written for a text without quotes behind a character: a blank that stands alone may
be replaced by the end of a line. -/
inductive Folds (indent : Nat) : Char → List Char → List Char → Prop
  | nil (b : Char) : Folds indent b [] []
  | keep (b : Char) {c : Char} {cs t : List Char} (rest : Folds indent c cs t) :
      Folds indent b (c :: cs) (c :: t)
  | fold {b d : Char} {cs t : List Char} (hb : b ≠ ' ') (hd : d ≠ ' ')
      (rest : Folds indent d cs t) : Folds indent b (' ' :: d :: cs) (newLine indent ++ d :: t)

theorem folds_self (indent : Nat) (b : Char) (cs : List Char) : Folds indent b cs cs := by
  induction cs generalizing b with
  | nil => exact .nil b
  | cons c cs ih => exact .keep b (ih c)

theorem folds_plain (indent : Nat) (b : Char) (column : Nat) (cs : List Char) :
    Folds indent b cs (Folding.plain indent (some b) column cs) := by
  induction cs generalizing b column with
  | nil => exact .nil b
  | cons c cs ih =>
      rw [Folding.plain]
      split
      · next h =>
          obtain ⟨rfl, alone, -⟩ := h
          simp only [standsAlone, Option.any_some, Bool.and_eq_true, decide_eq_true_eq] at alone
          cases cs with
          | nil => simp at alone
          | cons d cs =>
              have hd : d ≠ ' ' := by simpa using alone.2
              have next := ih ' ' indent
              rw [Folding.plain, if_neg (by simp [hd])] at next ⊢
              cases next with
              | keep _ rest => exact .fold alone.1 hd rest
      · exact .keep b (ih c _)

/-- What is no separator stands first in the folded text as well. -/
theorem Folds.isSeparated {indent : Nat} {b : Char} {cs t : List Char} (hf : Folds indent b cs t)
    (h : isSeparated cs = false) (r : List Char) : Style.isSeparated (t ++ r) = false := by
  cases hf with
  | nil => simp [Style.isSeparated] at h
  | keep _ _ => simpa [Style.isSeparated] using h
  | fold _ _ _ => exact absurd h (by simp [Style.isSeparated, isSeparator])

/-- A text without markup inside, behind a character. -/
structure Smooth (b : Char) (cs : List Char) : Prop where
  inner : hasInnerIndicator (b :: cs) = false
  blank : ∀ c ∈ cs, isSeparator c → c = ' '
  last : cs.getLast? ≠ some ' '

theorem Smooth.tail {b c : Char} {cs : List Char} (h : Smooth b (c :: cs)) : Smooth c cs where
  inner := by
    have inner := h.inner
    rw [hasInnerIndicator, Bool.or_eq_false_iff] at inner
    exact inner.2
  blank d hd := h.blank d (by simp [hd])
  last hl := h.last (by cases cs with
    | nil => simp at hl
    | cons d cs => simpa using hl)

/-- A character of such a text is no markup, also where the text behind it is folded. -/
theorem Smooth.not_stops {indent : Nat} {b c : Char} {cs t : List Char} (h : Smooth b (c :: cs))
    (hc : c ≠ ' ') (hf : Folds indent c cs t) (r : List Char) :
    isSeparator c = false ∧ stops c (t ++ r) = false := by
  have separator : isSeparator c = false := by
    by_contra hs
    exact hc (h.blank c (by simp) (by simpa using hs))
  refine ⟨separator, ?_⟩
  have inner := h.inner
  simp only [hasInnerIndicator, Bool.or_eq_false_iff, Bool.and_eq_false_iff] at inner
  simp only [stops, separator, Bool.false_or, Bool.and_eq_false_iff]
  exact inner.1.1.imp_right fun further => hf.isSeparated further r

/-- Behind a blank, such a text goes on with a word. -/
theorem Smooth.word {indent : Nat} {cs t : List Char} (h : Smooth ' ' cs) (hn : cs ≠ [])
    (hf : Folds indent ' ' cs t) (r : List Char) : ∃ n d u, t ++ r = blanks n ++ d :: u ∧
      d ≠ '#' ∧ isSeparator d = false ∧ stops d u = false := by
  induction cs generalizing t with
  | nil => exact absurd rfl hn
  | cons c cs ih =>
      cases hf with
      | fold hb _ _ => exact absurd rfl hb
      | keep _ rest =>
          by_cases hc : c = ' '
          · subst hc
            have more : cs ≠ [] := by
              rintro rfl
              exact h.last rfl
            obtain ⟨n, d, u, ht, word⟩ := ih h.tail more rest
            exact ⟨n + 1, d, u, by rw [blanks_succ, List.cons_append, ht]; rfl, word⟩
          · obtain ⟨separator, markup⟩ := h.not_stops hc rest r
            refine ⟨0, c, _, rfl, ?_, separator, markup⟩
            rintro rfl
            have inner := h.inner
            simp [hasInnerIndicator, isSeparator] at inner

section words

variable {level : Nat} {c d : Char} {r : List Char}

theorem plain_word (fresh : Bool) (hs : isSeparator c = false) (hm : stops c r = false) :
    plain level fresh (c :: r) = before [c] (plain level false r) := by
  obtain ⟨blank, line, -⟩ := of_not_isSeparator hs
  rw [plain, if_neg (by simp [blank, line]), if_neg (by simp [hm])]

theorem goesOn_word {column : Nat} (hs : isSeparator d = false) (hd : d ≠ '#')
    (hm : stops d r = false) (hl : level < column) : goesOn level column (d :: r) := by
  obtain ⟨blank, line, -⟩ := of_not_isSeparator hs
  rw [goesOn, if_neg blank, if_neg (by simp [line])]
  simp [hd, hm, hl]

/-- A blank before a word on the same line is read as it is. -/
theorem plain_blank {n : Nat} (hs : isSeparator d = false) (hd : d ≠ '#') (hm : stops d r = false) :
    plain level false (' ' :: (blanks n ++ d :: r)) =
      before [' '] (plain level false (blanks n ++ d :: r)) := by
  obtain ⟨-, line, blank⟩ := of_not_isSeparator hs
  have further : goesOn level (level + 1) (' ' :: (blanks n ++ d :: r)) := by
    rw [goesOn, if_pos rfl, goesOn_blanks]
    exact goesOn_word hs hd hm (by omega)
  have kept : folded false ' ' (blanks n ++ d :: r) = [' '] := by
    simp [folded, Implicit.isBlank, breakAhead_blanks, breakAhead_cons blank, line]
  rw [plain, if_pos (.inl rfl), if_pos (by simp [further]), kept]
  rfl

/-- The end of a line before a word that is indented deeper is read as a blank. -/
theorem plain_newLine {indent : Nat} (hl : level < indent) (hs : isSeparator d = false)
    (hd : d ≠ '#') (hm : stops d r = false) :
    plain level false (newLine indent ++ d :: r) = before [' ', d] (plain level false r) := by
  obtain ⟨-, line, blank⟩ := of_not_isSeparator hs
  have further : goesOn level (level + 1) ('\n' :: (blanks indent ++ d :: r)) := by
    have word : goesOn level (0 + indent) (d :: r) := goesOn_word hs hd hm (by omega)
    rw [← goesOn_blanks] at word
    simp [goesOn, endsLine, isBreak, isMarker_blanks (show 0 < indent by omega), word]
  have one : folded false '\n' (blanks indent ++ d :: r) = [' '] := by
    simp [folded, Implicit.isBlank, isPaired, normal, breakAhead_blanks, breakAhead_cons blank,
      line]
  rw [newLine, List.cons_append, plain, if_pos (.inr (by decide)), if_pos (by simp [further]), one]
  have behind : staysFresh false '\n' (blanks indent ++ d :: r) = true := by
    simp [staysFresh, endsLine, isBreak, isPaired]
  rw [behind, plain_blanks, plain_word true hs hm]
  rfl

end words

/-- A text without quotes is read back, if the reader stops behind it. -/
theorem plain_folds {indent level : Nat} {b : Char} {cs t r : List Char} (hf : Folds indent b cs t)
    (h : Smooth b cs) (hl : level < indent) (stop : plain level false r = ([], r)) :
    plain level false (t ++ r) = (cs, r) := by
  induction hf with
  | nil b => exact stop
  | @keep b c cs t rest ih =>
      by_cases hc : c = ' '
      · subst hc
        have more : cs ≠ [] := by
          rintro rfl
          exact h.last rfl
        obtain ⟨n, d, u, ht, hd, hs, hm⟩ := h.tail.word more rest r
        have further := ih h.tail
        rw [List.cons_append, ht, plain_blank hs hd hm, ← ht, further]
        rfl
      · obtain ⟨hs, hm⟩ := h.not_stops hc rest r
        rw [List.cons_append, plain_word false hs hm, ih h.tail]
        rfl
  | @fold b d cs t hb hd rest ih =>
      obtain ⟨hs, hm⟩ := h.tail.not_stops hd rest r
      have comment : d ≠ '#' := by
        rintro rfl
        have inner := h.tail.inner
        simp [hasInnerIndicator, isSeparator] at inner
      rw [List.append_assoc, List.cons_append, plain_newLine hl hs comment hm, ih h.tail.tail]
      rfl

end OpenApiDoc.Yaml.Reading
