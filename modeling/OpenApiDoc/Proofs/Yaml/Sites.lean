import OpenApiDoc.Proofs.Yaml.Layout
import OpenApiDoc.Proofs.Yaml.Quoting

/-! # Where texts stand in a document

The texts of a form are read back from its lines, each from the place where it is written.

* `Reading.text?_scalarText_iff`: the scalar that is written for a text is read back unless the text
  is `Reading.Spoiled`, whatever follows on lines that are not indented deeper.
* `Form.sites` lists the texts of a form with the places where they stand; `Form.Site.after` is the
  rest of the document behind one. `Form.sites_texts`: every text has a site.
* `Form.stands_sites` and its companions: at a site, the document goes on with the scalar of its
  text, and what follows the scalar ends it. -/

namespace OpenApiDoc.Yaml

namespace Reading

open Folding Style

/-! ### Scalars -/

/-- A line that is not indented deeper than `level`, or none. -/
def Outdents (level : Nat) (r : List Char) : Prop :=
  r = [] ∨ ∃ n c t, r = blanks n ++ c :: t ∧ n ≤ level ∧ isSeparator c = false

theorem Outdents.mono {m n : Nat} {r : List Char} (h : Outdents m r) (le : m ≤ n) :
    Outdents n r := by
  rcases h with rfl | ⟨k, c, t, rfl, hk, hc⟩
  · exact .inl rfl
  · exact .inr ⟨k, c, t, rfl, hk.trans le, hc⟩

section scalars

variable {level : Nat} {r : List Char}

/-- A text without quotes ends before a line that is not indented deeper than its collection. -/
theorem plain_outdents (h : Outdents level r) :
    plain level false ('\n' :: r) = ([], '\n' :: r) := by
  have ended : goesOn level (level + 1) ('\n' :: r) = false := by
    have next : goesOn level 0 r = false := by
      rcases h with rfl | ⟨n, c, t, rfl, hn, hc⟩
      · rfl
      · obtain ⟨blank, line, -⟩ := of_not_isSeparator hc
        rw [goesOn_blanks, goesOn, if_neg blank, if_neg (by simp [line])]
        simp [hn]
    simp [goesOn, endsLine, isBreak, next]
  rw [plain, if_pos (.inr (by decide)), if_neg (by simp [ended])]

/-- A text without quotes ends before the colon of a key. -/
theorem plain_colon (h : isSeparated r) : plain level false (':' :: r) = ([], ':' :: r) := by
  simp [plain, stops, endsLine, isBreak, h]

theorem text?_plain {cs : List Char} (h : startsPlain cs) : text? level cs =
    if Implicit.of (plain level false cs).1 = .text then some (plain level false cs) else none := by
  unfold text?
  split
  · exact absurd h (by simp [startsPlain, isLeadingIndicator])
  · exact absurd h (by simp [startsPlain, isLeadingIndicator])
  · simp [h]

theorem of_eq_plain {cs : List Char} (h : Style.of cs = .plain) :
    Implicit.of cs = .text ∧ allowsPlain cs := by
  rw [Style.of] at h
  split at h
  · assumption
  · split at h <;> simp at h

theorem of_eq_single {cs : List Char} (h : Style.of cs = .single) : allowsSingle cs := by
  rw [Style.of] at h
  split at h
  · simp at h
  · split at h
    · assumption
    · simp at h

theorem smooth_of_allowsPlain {b : Char} {cs : List Char} (hn : cs ≠ []) (h : allowsPlain cs) :
    Smooth b cs := by
  have bare := bare_of_allowsPlain hn h
  obtain ⟨c, cs, rfl⟩ := List.exists_cons_of_ne_nil hn
  simp only [allowsPlain, Bool.not_eq_true', Bool.or_eq_false_iff, needsDouble] at h
  obtain ⟨⟨⟨⟨⟨-, last⟩, -⟩, -, escape⟩, -⟩, indicator⟩ := h
  simp only [hasIndicator, Bool.or_eq_false_iff] at indicator
  refine ⟨?_, fun d hd hs => ?_, fun hl => ?_⟩
  · have leading := bare.leading c cs rfl
    have comment : c ≠ '#' := by
      rintro rfl
      exact absurd leading (by decide)
    have colon : (c == ':' && isSeparated cs) = false := by
      by_cases hc : c = ':'
      · subst hc
        simp [bare.mark ':' cs rfl (by decide)]
      · simp [hc]
    rw [hasInnerIndicator, colon, indicator.2]
    simp [comment]
  · have line := bare.line d hd
    have known := List.any_eq_false.mp escape d hd
    simp only [isSeparator, line, Bool.or_false, Bool.or_eq_true, beq_iff_eq] at hs
    rcases hs with ((rfl | rfl) | rfl) | rfl
    · exact absurd (by decide) known
    · rfl
    · exact absurd (by decide) known
    · exact absurd (by decide) known
  · simp [endsWith, hl, isBlankOrBreak] at last

/-- A text that is written without quotes is read back, if the reader stops behind it. -/
theorem text?_folds {indent : Nat} {c : Char} {cs t : List Char}
    (hs : Style.of (c :: cs) = .plain) (hf : Folds indent c cs t) (hl : level < indent)
    (stop : plain level false r = ([], r)) : text? level (c :: t ++ r) = some (c :: cs, r) := by
  obtain ⟨known, allowed⟩ := of_eq_plain hs
  have bare := bare_of_plain hs
  have smooth : Smooth '-' (c :: cs) := smooth_of_allowsPlain (by simp) allowed
  have first : c ≠ ' ' := by
    rintro rfl
    exact bare.blank rfl
  obtain ⟨separator, -⟩ := smooth.not_stops first hf r
  have mark : (isBlockMark c && isSeparated (t ++ r)) = false := by
    by_cases hc : isBlockMark c
    · rw [hf.isSeparated (bare.mark c cs rfl hc) r, Bool.and_false]
    · simp [hc]
  have starts : startsPlain (c :: t ++ r) := by
    simp [startsPlain, separator, bare.leading c cs rfl, mark]
  rw [text?_plain starts, plain_folds (.keep '-' hf) smooth hl stop, if_pos known]

theorem even_of_allowsSingle {cs : List Char} (h : allowsSingle cs) (hn : '\x85' ∉ cs) :
    Even '\x27' cs := by
  simp only [allowsSingle, Bool.not_eq_true', Bool.or_eq_false_iff, needsDouble] at h
  obtain ⟨indented, trailing, escape⟩ := h
  have behind {p : Char → Char → Bool} (hp : ∀ c, p '\x27' c = false)
      (h : anyNeighbours p cs = false) : anyNeighbours p ('\x27' :: cs) = false := by
    cases cs with
    | nil => rfl
    | cons c cs => rw [anyNeighbours, hp, h]; rfl
  refine ⟨behind (fun _ => rfl) indented, behind (fun _ => rfl) trailing, fun c hc hm => ?_⟩
  have known := List.any_eq_false.mp escape c hc
  simp only [List.mem_cons, List.not_mem_nil, or_false] at hm
  rcases hm with rfl | rfl | rfl | rfl
  · exact absurd (by decide) known
  · exact absurd (by decide) known
  · exact absurd (by decide) known
  · exact hn hc

/-- Without further lines, it does not matter where a text between double quotes stands. -/
theorem double_unsplit (indent indent' : Nat) (first escaped : Bool) (column column' : Nat)
    (cs : List Char) : double indent false first escaped column cs =
      double indent' false first escaped column' cs := by
  induction cs generalizing first escaped column column' with
  | nil => rfl
  | cons c cs ih =>
      simp only [Folding.double, Bool.false_and, Bool.false_eq_true, if_false]
      rw [ih false false (column + 1) (column' + 1),
        ih false true (column + (escape c).length) (column' + (escape c).length)]

theorem scalarText_unsplit (s : String) (indent column : Nat) :
    Form.scalarText (.text s) false indent column = Form.scalarText (.text s) false 0 0 := by
  unfold Form.scalarText Folding.text
  dsimp only
  cases Style.of s.toList with
  | plain => rfl
  | single => rfl
  | double => rw [double_unsplit indent 0 true false (column + 1) (0 + 1)]

/-- A text is not read back: it is written between single quotes and holds U+0085, or between double
quotes with lines that start beyond the width, and a blank in it stands behind an escape. -/
def Spoiled (s : String) (split : Bool) (indent : Nat) : Prop :=
  (Style.of s.toList = .single ∧ '\x85' ∈ s.toList) ∨
    (Style.of s.toList = .double ∧ isWide split indent ∧ crowded s.toList)

/-- The scalar that is written for a text is read back unless the text is spoiled. -/
theorem text?_scalarText_iff {s : String} {split : Bool} {column : Nat}
    (hc : split → level + 2 ≤ column) (hm : split = false → isMultiline s.toList = false)
    (stop : plain level false r = ([], r)) (hr : r.head? ≠ some '\x27') :
    text? level (Form.scalarText (.text s) split (level + 2) column ++ r) = some (s.toList, r) ↔
      ¬ Spoiled s split (level + 2) := by
  rw [Form.scalarText, Scalar.content]
  cases hs : Style.of s.toList with
  | plain =>
      refine iff_of_true ?_ (by simp [Spoiled, hs])
      obtain ⟨c, cs, heq, written⟩ := (bare_of_plain hs).plain (level + 2) column
      rw [heq] at hs written ⊢
      cases split with
      | false => exact text?_folds hs (folds_self (level + 2) c cs) (by omega) stop
      | true =>
          rw [Folding.text, if_pos rfl, written]
          exact text?_folds hs (folds_plain (level + 2) c (column + 1) cs) (by omega) stop
  | single =>
      have written : Quotes (level + 2) '\x27' s.toList
          (if split then Folding.single (level + 2) none (column + 1) s.toList
            else doubled s.toList) := by
        cases split with
        | false => exact quotes_doubled _ _ (hm rfl)
        | true => exact quotes_single (level + 2) none (column + 1) s.toList
      have opened (cs : List Char) :
          text? level ('\x27' :: cs) = quoted false (.line false) cs := rfl
      simp only [Folding.text, List.cons_append, List.append_assoc, List.nil_append, opened]
      by_cases hn : '\x85' ∈ s.toList
      · refine iff_of_false (fun h => ?_) (by simp [Spoiled, hs, hn])
        exact not_mem_quoted ⟨false, .inl h⟩ hn
      · refine iff_of_true ?_ (by simp [Spoiled, hs, hn])
        exact quoted_quotes written (even_of_allowsSingle (of_eq_single hs) hn) (by omega) hr
  | double =>
      have opened (cs : List Char) :
          text? level ('"' :: cs) = quoted true (.line false) cs := rfl
      have inside : isWide split (level + 2) → level + 2 ≤ column + 1 := by
        intro h
        simp only [isWide, Bool.and_eq_true] at h
        have := hc h.1
        omega
      have read := quoted_double (r := r) (show 0 < level + 2 by omega) s.toList true false
        (column + 1) inside
      simp only [Folding.text, List.cons_append, List.append_assoc, List.nil_append, opened, read,
        Option.some.injEq, Prod.mk.injEq, and_true]
      cases hw : isWide split (level + 2) with
      | false => simp [Spoiled, hs, hw]
      | true => simp [Spoiled, hs, hw, widened_eq_iff]

end scalars

end Reading

open Folding Style Reading

/-! ### How keys begin -/

theorem isSeparator_of_isDigit {c : Char} (h : c.isDigit) : isSeparator c = false := by
  have other {x : Char} (hx : x.isDigit = false) : c ≠ x := by
    rintro rfl
    simp [hx] at h
  simp [isSeparator, isBreak, other (x := '\x00') (by decide), other (x := ' ') (by decide),
    other (x := '\t') (by decide), other (x := '\r') (by decide), other (x := '\n') (by decide),
    other (x := '\x85') (by decide), other (x := '\u2028') (by decide),
    other (x := '\u2029') (by decide)]

/-- The digits of a number. -/
theorem digitText_cons (n : Nat) : ∃ d ds, NumberLayout.digitText n = d :: ds ∧ d.isDigit := by
  rw [NumberLayout.digitText, Nat.repr_eq_ofList_toDigits, String.toList_ofList]
  have digits (c : Char) (hc : c ∈ Nat.toDigits 10 n) : c.isDigit :=
    Nat.isDigit_of_mem_toDigits (by decide) (by decide) hc
  cases hd : Nat.toDigits 10 n with
  | nil =>
      rw [Nat.toDigits_eq_if (by decide)] at hd
      split at hd <;> simp at hd
  | cons d ds => exact ⟨d, ds, rfl, digits d (by simp [hd])⟩

theorem place_cons (l : NumberLayout) {d : Char} (hd : d.isDigit) (ds : List Char) (lead : Int) :
    ∃ c t, l.place (d :: ds) lead = c :: t ∧ c.isDigit := by
  unfold NumberLayout.place
  split
  · split
    · exact ⟨'0', _, rfl, by decide⟩
    · dsimp only
      split
      · exact ⟨d, _, rfl, hd⟩
      · exact ⟨d, _, rfl, hd⟩
  · cases ds with
    | nil => exact ⟨d, _, rfl, hd⟩
    | cons e ds => exact ⟨d, _, rfl, hd⟩

theorem padded_cons (k n : Nat) : ∃ d ds, (padded k n).toList = d :: ds ∧ d.isDigit := by
  obtain ⟨d, ds, hw, hd⟩ := digitText_cons n
  rw [NumberLayout.digitText] at hw
  rw [padded, String.toList_append, String.toList_ofList, hw]
  cases k - n.repr.length with
  | zero => exact ⟨d, ds, rfl, hd⟩
  | succ m => exact ⟨'0', _, rfl, by decide⟩

namespace Scalar

theorem pointed_cons {c : Char} (h : c ≠ 'e') (cs : List Char) :
    ∃ t, pointed (c :: cs) = c :: t := by
  rw [pointed]
  split
  · exact ⟨cs, rfl⟩
  · exact ⟨_, by rw [List.flatMap_cons, if_neg h]; rfl⟩

/-- What is not a text begins with a letter, a digit, a point or a minus. -/
theorem head_content {s : Scalar} (ht : ∀ t, s ≠ .text t) (hm : isMultiline s.content = false)
    (hn : s.content ≠ []) : ∃ c t, s.content = c :: t ∧ isSeparator c = false := by
  have first {cs : List Char} {c : Char} (h : ∃ t, cs = c :: t) (hc : isSeparator c = false) :
      ∃ c t, cs = c :: t ∧ isSeparator c = false := by
    obtain ⟨t, rfl⟩ := h
    exact ⟨c, t, rfl, hc⟩
  cases s with
  | text t => exact absurd rfl (ht t)
  | null => exact ⟨_, _, rfl, by decide⟩
  | bool b => cases b <;> exact ⟨_, _, rfl, by decide⟩
  | int i =>
      obtain ⟨c, t, hc⟩ := List.exists_cons_of_ne_nil hn
      refine ⟨c, t, hc, ?_⟩
      rcases head_content_int i (c := c) (by simp [hc]) with h | rfl
      · exact isSeparator_of_isDigit h
      · decide
  | float x =>
      rw [content, NumberLayout.text]
      have point (cs : List Char) {c : Char} (hc : isSeparator c = false) (he : c ≠ 'e') :
          ∃ c' t, pointed (c :: cs) = c' :: t ∧ isSeparator c' = false :=
        first (pointed_cons he cs) hc
      split
      · exact point "nan".toList (by decide) (by decide)
      · next negative _ =>
          cases negative
          · exact point "inf".toList (by decide) (by decide)
          · exact point ".inf".toList (by decide) (by decide)
      · next negative m q _ =>
          have body : ∃ c t, (if m = 0 then ['0', '.', '0'] else
              let d := Decimal.shortest m q
              let ds := NumberLayout.digitText d.digits
              numberLayout.place ds (d.exponent + (ds.length : Int) - 1)) = c :: t ∧ c.isDigit := by
            split
            · exact ⟨'0', _, rfl, by decide⟩
            · obtain ⟨d, ds, hw, hd⟩ := digitText_cons (Decimal.shortest m q).digits
              dsimp only
              rw [hw]
              exact place_cons numberLayout hd ds _
          obtain ⟨d, t, hw, hd⟩ := body
          have digit : d ≠ 'e' := by
            rintro rfl
            exact absurd hd (by decide)
          rw [String.toList_ofList, hw]
          cases negative
          · exact point t (isSeparator_of_isDigit hd) digit
          · exact point (d :: t) (show isSeparator '-' = false by decide) (by decide)
  | moment m =>
      have day (d : Date) (s : String) :
          ∃ c t, (d.iso ++ s).toList = c :: t ∧ isSeparator c = false := by
        obtain ⟨c, cs, hw, hd⟩ := padded_cons 4 d.year
        rw [Date.iso, String.append_assoc, String.append_assoc, String.append_assoc,
          String.append_assoc, String.toList_append, hw]
        exact ⟨c, _, rfl, isSeparator_of_isDigit hd⟩
      cases m with
      | date d => simpa [content, Moment.iso] using day d ""
      | dateTime d t =>
          rw [content, Moment.iso, String.append_assoc]
          exact day d _
  | binary bs =>
      rw [content, Text.Base64.lines] at hm
      split at hm
      · next h =>
          subst h
          simp [content, Text.Base64.lines] at hn
      · simp [isMultiline, isBreak] at hm

end Scalar

namespace Form

/-- A key on the line of its value does not begin with a separator. -/
theorem keyText_head {k : Form} (h : isShortKey k) :
    ∃ c t, keyText k = c :: t ∧ isSeparator c = false := by
  have marked {anchor : Option Nat} {cs : List Char}
      (h : ∃ c t, cs = c :: t ∧ isSeparator c = false) :
      ∃ c t, spaced (anchorMark anchor) ++ cs = c :: t ∧ isSeparator c = false := by
    cases anchor with
    | none => exact h
    | some n => exact ⟨'&', _, rfl, by decide⟩
  cases k with
  | «alias» n => exact ⟨'*', _, rfl, by decide⟩
  | sequence anchor items => exact marked ⟨'[', _, rfl, by decide⟩
  | mapping anchor entries => exact marked ⟨'\x7b', _, rfl, by decide⟩
  | scalar anchor s =>
      refine marked ?_
      simp only [isShortKey, Bool.and_eq_true, Bool.not_eq_true', List.isEmpty_eq_false_iff] at h
      by_cases ht : ∃ t, s = .text t
      · obtain ⟨t, rfl⟩ := ht
        rw [scalarText]
        cases hs : Style.of t.toList with
        | plain =>
            obtain ⟨-, allowed⟩ := of_eq_plain hs
            obtain ⟨c, cs, heq⟩ := List.exists_cons_of_ne_nil h.1.2
            have smooth : Smooth '-' (c :: cs) :=
              smooth_of_allowsPlain (by simp) (heq ▸ allowed)
            have first : c ≠ ' ' := by
              rintro rfl
              exact (bare_of_plain hs).blank (by rw [show t.toList = _ from heq]; rfl)
            exact ⟨c, cs, heq, (smooth.not_stops first (folds_self 0 c cs) []).1⟩
        | single => exact ⟨'\x27', _, rfl, by decide⟩
        | double => exact ⟨'"', _, rfl, by decide⟩
      · have other : ∀ t, s ≠ .text t := fun t h => ht ⟨t, h⟩
        have written : scalarText s false 0 0 = s.content := by
          cases s <;> first | rfl | exact absurd rfl (other _)
        rw [written]
        exact Scalar.head_content other h.2 h.1.2

/-! ### Sites -/

/-- A text where it stands in a document. -/
structure Site where
  text : String
  /-- It may go on over further lines; a key on the line of its value may not. -/
  split : Bool
  /-- The column of the collection it belongs to. -/
  level : Nat
  column : Nat
  /-- The rest of the document. -/
  after : List Char

namespace Site

/-- The scalar. -/
def written (x : Site) : List Char := scalarText (.text x.text) x.split (x.level + 2) x.column

/-- A reader gets the text from the scalar, and goes on behind it. -/
def Survives (x : Site) : Prop :=
  text? x.level (x.written ++ x.after) = some (x.text.toList, x.after)

/-- The text is spoiled by the way in which it is written. -/
def IsSpoiled (x : Site) : Prop := Spoiled x.text x.split (x.level + 2)

/-- What stands behind the scalar ends it. -/
structure Closed (x : Site) : Prop where
  column : x.split → x.level + 2 ≤ x.column
  single : x.split = false → isMultiline x.text.toList = false
  stop : Reading.plain x.level false x.after = ([], x.after)
  quote : x.after.head? ≠ some '\x27'

theorem Closed.survives_iff {x : Site} (h : x.Closed) : x.Survives ↔ ¬ x.IsSpoiled :=
  text?_scalarText_iff h.column h.single h.stop h.quote

/-- The document goes on with the scalar, and what follows ends it. -/
structure Stands (x : Site) (document : List Char) : Prop where
  closed : x.Closed
  suffix : x.written ++ x.after <:+ document

theorem Stands.behind {x : Site} {document : List Char} (h : x.Stands document) (cs : List Char) :
    x.Stands (cs ++ document) :=
  ⟨h.closed, h.suffix.trans (List.suffix_append cs document)⟩

end Site

/-- The site of a key on the line of its value. -/
def keySites (indent : Nat) (after : List Char) : Form → List Site
  | .scalar _ (.text t) => [⟨t, false, indent, 0, after⟩]
  | _ => []

mutual

/-- The texts of a form that is written from a column inside a collection at `indent`, with the rest
of the document behind it. -/
def sites (place : Place) (indent column : Nat) (after : List Char) : Form → List Site
  | .scalar anchor (.text t) =>
    [⟨t, true, indent, column + (' ' :: spaced (anchorMark anchor)).length, '\n' :: after⟩]
  | .sequence anchor items => itemSites (dashColumn place anchor indent) after items
  | .mapping _ entries => entrySites (indent + 2) after entries
  | _ => []

def itemSites (indent : Nat) (after : List Char) : List Form → List Site
  | [] => []
  | x :: xs =>
    sites .item indent (indent + 1) (writeItems indent xs ++ after) x ++ itemSites indent after xs

def entrySites (indent : Nat) (after : List Char) : List (Form × Form) → List Site
  | [] => []
  | (k, v) :: es =>
    let rest := writeEntries indent es ++ after
    (if isShortKey k then
      let column := indent + (keyText k).length + 1
      keySites indent (':' :: write .value indent column v ++ rest) k
        ++ sites .value indent column rest v
    else
      sites .long indent (indent + 1)
          (blanks indent ++ ':' :: write .long indent (indent + 1) v ++ rest) k
        ++ sites .long indent (indent + 1) rest v)
      ++ entrySites indent after es

end

theorem outdents_line {level n : Nat} (h : n ≤ level) {c : Char} (hc : isSeparator c = false)
    (t : List Char) : Outdents level (blanks n ++ c :: t) := .inr ⟨n, c, t, rfl, h, hc⟩

theorem outdents_items {indent : Nat} {after : List Char} (h : Outdents indent after)
    (xs : List Form) : Outdents indent (writeItems indent xs ++ after) := by
  cases xs with
  | nil => exact h
  | cons x xs =>
      rw [writeItems, List.append_assoc, List.cons_append]
      exact outdents_line (Nat.le_refl _) (by decide) _

/-- The lines of an entry begin at the column of the mapping. -/
theorem writeEntries_head (indent : Nat) (e : Form × Form) (es : List (Form × Form)) :
    ∃ c t, writeEntries indent (e :: es) = blanks indent ++ c :: t ∧ isSeparator c = false := by
  obtain ⟨k, v⟩ := e
  rw [writeEntries]
  by_cases hk : isShortKey k
  · obtain ⟨c, t, hw, hc⟩ := keyText_head hk
    rw [if_pos hk, hw]
    exact ⟨c, _, by simp only [List.append_assoc, List.cons_append]; rfl, hc⟩
  · rw [if_neg hk]
    exact ⟨'?', _, by simp only [List.append_assoc, List.cons_append]; rfl, by decide⟩

theorem outdents_entries {indent : Nat} {after : List Char} (h : Outdents indent after)
    (es : List (Form × Form)) : Outdents indent (writeEntries indent es ++ after) := by
  cases es with
  | nil => exact h
  | cons e es =>
      obtain ⟨c, t, hw, hc⟩ := writeEntries_head indent e es
      rw [hw, List.append_assoc, List.cons_append]
      exact outdents_line (Nat.le_refl _) hc _

/-- What stands in the lines of a collection stands behind what is in front of them. -/
theorem Site.Stands.placed {x : Site} {lines after : List Char} {indent : Nat}
    (h : x.Stands (lines.drop indent ++ after)) (place : Place) (anchor : Option Nat) :
    x.Stands (placed place anchor indent lines ++ after) := by
  rw [Form.placed]
  split
  · exact h.behind [' ']
  · have whole := h.behind
      ((if anchor.isNone then [] else ' ' :: anchorMark anchor) ++ '\n' :: lines.take indent)
    rw [← List.append_assoc, List.append_assoc _ _ (lines.drop indent), List.cons_append,
      List.take_append_drop] at whole
    exact whole

/-- The text of a line stands there, if the next line is not indented deeper than the collection. -/
theorem stands_line {indent column : Nat} {after : List Char} (hc : indent < column)
    (ho : Outdents indent after) (place : Place) (anchor : Option Nat) (t : String) :
    Site.Stands
      ⟨t, true, indent, column + (' ' :: spaced (anchorMark anchor)).length, '\n' :: after⟩
      (write place indent column (.scalar anchor (.text t)) ++ after) := by
  refine ⟨⟨fun _ => ?_, nofun, plain_outdents ho, by simp⟩, ?_⟩
  · simp only [List.length_cons]
    omega
  · refine ⟨' ' :: spaced (anchorMark anchor), ?_⟩
    have unmarked : spaced (typeMark (.text t)) = [] := rfl
    simp [write, scalarLine, Site.written, unmarked]

/-- A key stands in front of its colon. -/
theorem stands_key {indent : Nat} {k : Form} (h : isShortKey k) {r : List Char}
    (hr : isSeparated r) :
    ∀ x ∈ keySites indent (':' :: r) k, x.Stands (keyText k ++ ':' :: r) := by
  intro x hx
  unfold keySites at hx
  split at hx
  · next anchor t =>
      obtain rfl := List.mem_singleton.mp hx
      simp only [isShortKey, Bool.and_eq_true, Bool.not_eq_true'] at h
      refine ⟨⟨nofun, fun _ => h.2, plain_colon hr, by simp⟩, spaced (anchorMark anchor), ?_⟩
      simp [keyText, Site.written, scalarText_unsplit t (indent + 2) 0]
  · simp at hx

mutual

/-- The texts of a form stand where it is written. -/
theorem stands_sites {place : Place} {indent column : Nat} {after : List Char}
    (hc : indent < column) (ho : Outdents indent after) :
    ∀ f : Form, ∀ x ∈ sites place indent column after f,
      x.Stands (write place indent column f ++ after)
  | .alias _ => by simp [sites]
  | .scalar anchor (.text t) => by
      intro x hx
      rw [sites, List.mem_singleton] at hx
      subst hx
      exact stands_line hc ho place anchor t
  | .scalar _ .null | .scalar _ (.bool _) | .scalar _ (.int _) | .scalar _ (.float _)
  | .scalar _ (.moment _) | .scalar _ (.binary _) => by simp [sites]
  | .sequence anchor [] => by simp [sites, itemSites]
  | .sequence anchor (y :: ys) => by
      have below : indent ≤ dashColumn place anchor indent := by
        unfold dashColumn
        split <;> omega
      intro x hx
      rw [sites] at hx
      rw [write]
      exact (stands_items (ho.mono below) (y :: ys) x hx).placed place anchor
  | .mapping anchor [] => by simp [sites, entrySites]
  | .mapping anchor (e :: es) => by
      intro x hx
      rw [sites] at hx
      rw [write]
      exact (stands_entries (ho.mono (by omega)) (e :: es) x hx).placed place anchor

theorem stands_items {indent : Nat} {after : List Char} (ho : Outdents indent after) :
    ∀ xs : List Form, ∀ x ∈ itemSites indent after xs,
      x.Stands ((writeItems indent xs).drop indent ++ after)
  | [] => by simp [itemSites]
  | y :: ys => by
      have first : (writeItems indent (y :: ys)).drop indent =
          '-' :: (write .item indent (indent + 1) y ++ writeItems indent ys) := by
        rw [writeItems, List.drop_left' (by simp [blanks])]
      intro x hx
      rw [itemSites, List.mem_append] at hx
      rw [first, List.cons_append, List.append_assoc]
      rcases hx with hx | hx
      · exact (stands_sites (Nat.lt_succ_self _) (outdents_items ho ys) y x hx).behind ['-']
      · have rest := (stands_items ho ys x hx).behind ((writeItems indent ys).take indent)
        rw [← List.append_assoc, List.take_append_drop] at rest
        exact rest.behind ('-' :: write .item indent (indent + 1) y)

theorem stands_entries {indent : Nat} {after : List Char} (ho : Outdents indent after) :
    ∀ es : List (Form × Form), ∀ x ∈ entrySites indent after es,
      x.Stands ((writeEntries indent es).drop indent ++ after)
  | [] => by simp [entrySites]
  | (k, v) :: es => by
      have further {x : Site} (hx : x ∈ entrySites indent after es) :
          x.Stands (writeEntries indent es ++ after) := by
        have rest := (stands_entries ho es x hx).behind ((writeEntries indent es).take indent)
        rwa [← List.append_assoc, List.take_append_drop] at rest
      have below := outdents_entries ho es
      intro x hx
      rw [entrySites] at hx
      rw [writeEntries]
      by_cases hk : isShortKey k
      · simp only [hk, if_true, List.mem_append, List.cons_append] at hx
        simp only [hk, if_true, List.append_assoc, List.cons_append]
        rw [List.drop_left' (by simp [blanks])]
        have column : indent < indent + (keyText k).length + 1 := by omega
        rcases hx with (hx | hx) | hx
        · have separated := isSeparated_write .value indent (indent + (keyText k).length + 1) v
            (writeEntries indent es ++ after)
          simpa using stands_key hk separated x hx
        · simpa using (stands_sites column below v x hx).behind (keyText k ++ [':'])
        · simpa using (further hx).behind (keyText k ++
            ':' :: write .value indent (indent + (keyText k).length + 1) v)
      · simp only [if_neg hk, List.mem_append] at hx
        simp only [if_neg hk, List.append_assoc, List.cons_append]
        rw [List.drop_left' (by simp [blanks])]
        have colon : Outdents indent (blanks indent ++ ':' :: write .long indent (indent + 1) v ++
            (writeEntries indent es ++ after)) := by
          rw [List.append_assoc, List.cons_append]
          exact outdents_line (Nat.le_refl _) (by decide) _
        rcases hx with (hx | hx) | hx
        · simpa using (stands_sites (Nat.lt_succ_self _) colon k x hx).behind ['?']
        · simpa using (stands_sites (Nat.lt_succ_self _) below v x hx).behind
            ('?' :: write .long indent (indent + 1) k ++ (blanks indent ++ [':']))
        · simpa using (further hx).behind ('?' :: write .long indent (indent + 1) k ++
            (blanks indent ++ ':' :: write .long indent (indent + 1) v))

end

/-- The texts of a document stand in it. -/
theorem stands_document (es : List (Form × Form)) :
    ∀ x ∈ entrySites 0 [] es, x.Stands (document es).toList := by
  intro x hx
  have stands := stands_entries (.inl rfl) es x hx
  cases es with
  | nil => simp [entrySites] at hx
  | cons e es => simpa [document] using stands

/-! ### The texts of a form -/

mutual

/-- The texts of a form, in the order in which they are written. -/
def texts : Form → List String
  | .scalar _ (.text t) => [t]
  | .sequence _ items => itemTexts items
  | .mapping _ entries => entryTexts entries
  | _ => []

def itemTexts : List Form → List String
  | [] => []
  | x :: xs => texts x ++ itemTexts xs

def entryTexts : List (Form × Form) → List String
  | [] => []
  | (k, v) :: es => texts k ++ texts v ++ entryTexts es

end

theorem itemTexts_eq (xs : List Form) : itemTexts xs = xs.flatMap texts := by
  induction xs with
  | nil => rfl
  | cons x xs ih => rw [itemTexts, ih, List.flatMap_cons]

theorem entryTexts_eq (es : List (Form × Form)) :
    entryTexts es = es.flatMap fun e => e.1.texts ++ e.2.texts := by
  induction es with
  | nil => rfl
  | cons e es ih => rw [entryTexts, ih, List.flatMap_cons]

theorem keySites_texts {k : Form} (h : isShortKey k) (indent : Nat) (after : List Char) :
    (keySites indent after k).map (·.text) = texts k := by
  cases k with
  | «alias» n => simp [keySites, texts]
  | scalar anchor s => cases s <;> simp [keySites, texts]
  | sequence anchor items =>
      obtain rfl : items = [] := by simpa [isShortKey] using h
      simp [keySites, texts, itemTexts]
  | mapping anchor entries =>
      obtain rfl : entries = [] := by simpa [isShortKey] using h
      simp [keySites, texts, entryTexts]

mutual

/-- Every text of a form has a site, in this order. -/
theorem sites_texts (place : Place) (indent column : Nat) (after : List Char) :
    ∀ f : Form, (sites place indent column after f).map (·.text) = texts f
  | .alias _ => by simp [sites, texts]
  | .scalar _ s => by cases s <;> simp [sites, texts]
  | .sequence _ items => by
      rw [sites, texts]
      exact itemSites_texts _ after items
  | .mapping _ entries => by
      rw [sites, texts]
      exact entrySites_texts _ after entries

theorem itemSites_texts (indent : Nat) (after : List Char) :
    ∀ xs : List Form, (itemSites indent after xs).map (·.text) = itemTexts xs
  | [] => by simp [itemSites, itemTexts]
  | x :: xs => by
      rw [itemSites, itemTexts, List.map_append, sites_texts, itemSites_texts]

theorem entrySites_texts (indent : Nat) (after : List Char) :
    ∀ es : List (Form × Form), (entrySites indent after es).map (·.text) = entryTexts es
  | [] => by simp [entrySites, entryTexts]
  | (k, v) :: es => by
      rw [entrySites, entryTexts, List.map_append, entrySites_texts]
      by_cases hk : isShortKey k
      · rw [if_pos hk]
        dsimp only
        rw [List.map_append, keySites_texts hk, sites_texts]
      · rw [if_neg hk, List.map_append, sites_texts, sites_texts]

end

end Form

end OpenApiDoc.Yaml
