import OpenApiDoc.Proofs.Yaml.Escapes
import OpenApiDoc.Yaml.Writer

/-! # Scalars are told apart

A scalar that is nothing, a truth value, a whole number or a text is known from its line, and a text
from its key.

* `Bare` holds of what may stand without quotes: neither how it begins nor a colon in it is taken for
  markup.
* `Scalar.implicit_ne_text`: nothing, truth values and whole numbers are not read as texts, so no
  text is written like one of them.
* `Form.scalarText_line_inj` and `Form.scalarText_key_inj`: different scalars have different lines,
  different texts have different keys, and no line is a key (`Form.scalarText_key_ne_line`). -/

namespace OpenApiDoc.Yaml

open Folding Style

/-! ### Texts without quotes -/

/-- A text that can stand without quotes: it is on one line, begins with no markup, and has no colon
before a separator. -/
structure Bare (cs : List Char) : Prop where
  line : ∀ c ∈ cs, isBreak c = false
  blank : cs.head? ≠ some ' '
  leading : ∀ c rest, cs = c :: rest → isLeadingIndicator c = false
  mark : ∀ c rest, cs = c :: rest → isBlockMark c → isSeparated rest = false
  colon : ∀ u v, cs = u ++ ':' :: v → isSeparated v = false
  nonempty : cs ≠ []

theorem isSeparated_of_colon {c : Char} {u v : List Char}
    (h : hasInnerIndicator (c :: (u ++ ':' :: v)) = false) : isSeparated v = false := by
  induction u generalizing c with
  | nil =>
      rw [List.nil_append, hasInnerIndicator] at h
      simp only [Bool.or_eq_false_iff] at h
      simpa using h.1.1
  | cons d u ih =>
      rw [List.cons_append, hasInnerIndicator] at h
      simp only [Bool.or_eq_false_iff] at h
      exact ih h.2

theorem bare_of_allowsPlain {cs : List Char} (hn : cs ≠ []) (h : allowsPlain cs) : Bare cs := by
  simp only [allowsPlain, Bool.not_eq_true', Bool.or_eq_false_iff] at h
  obtain ⟨⟨⟨⟨⟨start, -⟩, -⟩, -⟩, multi⟩, indicator⟩ := h
  obtain ⟨c, cs, rfl⟩ := List.exists_cons_of_ne_nil hn
  simp only [hasIndicator, Bool.or_eq_false_iff] at indicator
  obtain ⟨⟨-, leading, mark⟩, inner⟩ := indicator
  have block : isBlockMark c → isSeparated cs = false := by
    intro hc
    simpa [hc] using mark
  refine ⟨fun d hd => ?_, ?_, ?_, ?_, ?_, hn⟩
  · exact Bool.eq_false_iff.mpr fun hb => by
      have := List.any_eq_false.mp multi d hd
      exact this hb
  · rintro hc
    obtain rfl : c = ' ' := by simpa using hc
    simp [startsWith, isBlankOrBreak] at start
  · rintro d rest heq
    obtain ⟨rfl, rfl⟩ := List.cons.inj heq
    exact leading
  · rintro d rest heq
    obtain ⟨rfl, rfl⟩ := List.cons.inj heq
    exact block
  · intro u v heq
    cases u with
    | nil =>
        obtain ⟨rfl, rfl⟩ := List.cons.inj heq
        exact block (by decide)
    | cons d u =>
        obtain ⟨rfl, rfl⟩ := List.cons.inj heq
        exact isSeparated_of_colon inner

theorem bare_of_plain {cs : List Char} (h : Style.of cs = .plain) : Bare cs := by
  rw [Style.of] at h
  by_cases hp : Implicit.of cs = .text ∧ allowsPlain cs
  · refine bare_of_allowsPlain ?_ hp.2
    rintro rfl
    exact absurd hp.1 (by decide)
  · rw [if_neg hp] at h
    by_cases hs : allowsSingle cs <;> simp [hs] at h

/-- Letters and digits can stand without quotes, also with dashes among them. -/
theorem bare_of_word {cs : List Char} (hn : cs ≠ []) (hd : cs ≠ ['-'])
    (h : ∀ c ∈ cs, c.isAlphanum ∨ c = '-') : Bare cs := by
  have other {c x : Char} (hc : c ∈ cs) (hx : x.isAlphanum = false) (hx' : x ≠ '-') : c ≠ x := by
    rintro rfl
    rcases h c hc with hw | hw
    · simp [hx] at hw
    · exact hx' hw
  have separator {c : Char} (hc : c ∈ cs) : isSeparator c = false ∧ isBreak c = false := by
    have n := other hc (x := '\n') (by decide) (by decide)
    have n₁ := other hc (x := '\x85') (by decide) (by decide)
    have n₂ := other hc (x := '\u2028') (by decide) (by decide)
    have n₃ := other hc (x := '\u2029') (by decide) (by decide)
    have n₄ := other hc (x := '\x00') (by decide) (by decide)
    have n₅ := other hc (x := ' ') (by decide) (by decide)
    have n₆ := other hc (x := '\t') (by decide) (by decide)
    have n₇ := other hc (x := '\r') (by decide) (by decide)
    simp [isSeparator, isBreak, n, n₁, n₂, n₃, n₄, n₅, n₆, n₇]
  refine ⟨fun c hc => (separator hc).2, fun hb => ?_, ?_, ?_, ?_, hn⟩
  · exact other (List.mem_of_mem_head? hb) (by decide) (by decide) rfl
  · rintro c rest rfl
    refine Bool.eq_false_iff.mpr fun hl => ?_
    have mem : c ∈ "#,[]\x7b\x7d&*!|>'\"%@\x60".toList := by simpa [isLeadingIndicator] using hl
    have each : "#,[]\x7b\x7d&*!|>'\"%@\x60".toList.all fun x => !x.isAlphanum && x != '-' := by
      decide
    have apart : c.isAlphanum = false ∧ c ≠ '-' := by simpa using List.all_eq_true.mp each c mem
    exact other (by simp) apart.1 apart.2 rfl
  · rintro c rest rfl hm
    obtain rfl : c = '-' := by
      rcases h c (by simp) with hw | hw
      · exact absurd hm (by
          have n := other (c := c) (by simp) (x := '?') (by decide) (by decide)
          have n' := other (c := c) (by simp) (x := ':') (by decide) (by decide)
          have n'' : c ≠ '-' := by rintro rfl; exact absurd hw (by decide)
          simp [isBlockMark, n, n', n''])
      · exact hw
    cases rest with
    | nil => exact absurd rfl hd
    | cons d rest => simp [isSeparated, (separator (c := d) (by simp)).1]
  · rintro u v rfl
    exact absurd rfl (other (c := ':') (by simp) (by decide) (by decide))

theorem bare_of_all {cs : List Char} (hn : cs ≠ []) (hd : cs ≠ ['-'])
    (h : cs.all fun c => c.isAlphanum || c == '-') : Bare cs :=
  bare_of_word hn hd fun c hc => by simpa using List.all_eq_true.mp h c hc

/-! ### Nothing, truth values and whole numbers -/

theorem toDigits_head_ne_zero {n : Nat} (h : 0 < n) :
    ∃ d ds, Nat.toDigits 10 n = d :: ds ∧ d ≠ '0' := by
  induction n using Nat.strongRecOn with
  | ind n ih =>
      rw [Nat.toDigits_eq_if (by decide)]
      by_cases hn : n < 10
      · rw [if_pos hn]
        have each : ∀ k : Fin 10, 0 < k.val → Nat.digitChar k ≠ '0' := by decide
        exact ⟨_, [], rfl, each ⟨n, hn⟩ h⟩
      · rw [if_neg hn]
        obtain ⟨d, ds, hw, hd⟩ := ih (n / 10) (by omega) (by omega)
        exact ⟨d, ds ++ [(n % 10).digitChar], by rw [hw]; rfl, hd⟩

theorem isPositive_of_isDigit {d : Char} (h : d.isDigit) (hd : d ≠ '0') :
    Implicit.isPositive d := by
  have ne : d.val.toNat ≠ 48 := fun he => hd (Char.toNat_inj.mp he)
  simp only [Char.isDigit, Bool.and_eq_true, decide_eq_true_eq, ge_iff_le,
    UInt32.le_iff_toNat_le] at h
  simp only [Implicit.isPositive, Bool.and_eq_true, decide_eq_true_eq, Char.le_def,
    UInt32.le_iff_toNat_le]
  change 48 ≤ d.val.toNat ∧ d.val.toNat ≤ 57 at h
  change 49 ≤ d.val.toNat ∧ d.val.toNat ≤ 57
  omega

/-- Digits that do not begin with a zero are a whole number to a reader. -/
theorem isInt_of_dropSign {cs ds : List Char} {d : Char} (hcs : Implicit.dropSign cs = d :: ds)
    (hd : d ≠ '0') (digits : ∀ c ∈ d :: ds, c.isDigit) : Implicit.isInt cs := by
  have further : ds.all Implicit.isDigitOrLow := by
    refine List.all_eq_true.mpr fun c hc => ?_
    simp [Implicit.isDigitOrLow, digits c (by simp [hc])]
  rw [Implicit.isInt, hcs]
  split
  · rfl
  · next h => exact absurd (List.cons.inj h).1 hd
  · next h => exact absurd (List.cons.inj h).1 hd
  · next h => exact absurd (List.cons.inj h).1 hd
  · next h =>
      obtain ⟨rfl, rfl⟩ := List.cons.inj h
      rw [isPositive_of_isDigit (digits d (by simp)) hd, further]
      rfl
  · next h => simp at h

/-- The digits of a number are a whole number to a reader, also behind a minus. -/
theorem isInt_digits (n : Nat) :
    Implicit.isInt (Nat.toDigits 10 n) ∧ Implicit.isInt ('-' :: Nat.toDigits 10 n) := by
  rcases Nat.eq_zero_or_pos n with rfl | h
  · decide
  · obtain ⟨d, ds, hw, hd⟩ := toDigits_head_ne_zero h
    have digits (c : Char) (hc : c ∈ d :: ds) : c.isDigit :=
      Nat.isDigit_of_mem_toDigits (by decide) (by decide) (hw ▸ hc)
    have unsigned : Implicit.dropSign (d :: ds) = d :: ds := by
      have first := digits d (by simp)
      rw [Implicit.dropSign]
      · intro rest h
        rw [(List.cons.inj h).1] at first
        exact absurd first (by decide)
      · intro rest h
        rw [(List.cons.inj h).1] at first
        exact absurd first (by decide)
    rw [hw]
    exact ⟨isInt_of_dropSign unsigned hd digits, isInt_of_dropSign rfl hd digits⟩

/-- What is a whole number to a reader is not read as a text. -/
theorem implicit_of_isInt {cs : List Char} (h : Implicit.isInt cs) : Implicit.of cs ≠ .text := by
  unfold Implicit.of
  simp only [h, if_true]
  split
  · decide
  · split <;> decide

/-- The digits of a whole number, behind a minus if it is negative. -/
theorem content_int (i : Int) :
    (0 ≤ i ∧ (Scalar.int i).content = Nat.toDigits 10 i.natAbs) ∨
      (i < 0 ∧ (Scalar.int i).content = '-' :: Nat.toDigits 10 i.natAbs) := by
  rw [Scalar.content, Int.toString_eq_repr, Int.repr_eq_if]
  split
  · next h =>
      rw [Nat.repr_eq_ofList_toDigits, String.toList_ofList]
      exact .inl ⟨h, congrArg (Nat.toDigits 10) (by omega)⟩
  · next h =>
      have minus : "-".toList = ['-'] := rfl
      rw [Nat.repr_eq_ofList_toDigits, String.toList_append, minus, String.toList_ofList,
        List.singleton_append]
      exact .inr ⟨by omega, congrArg (fun n => '-' :: Nat.toDigits 10 n) (by omega)⟩

theorem toDigits_inj {m n : Nat} (h : Nat.toDigits 10 m = Nat.toDigits 10 n) : m = n := by
  have read (k : Nat) := Nat.ofDigitChars_toDigits (b := 10) (n := k) (by decide) (by decide)
  rw [← read m, h, read n]

/-- No number begins with a minus when it is not negative. -/
theorem toDigits_ne_minus {n : Nat} {cs : List Char} : Nat.toDigits 10 n ≠ '-' :: cs := by
  intro h
  have := Nat.isDigit_of_mem_toDigits (b := 10) (n := n) (c := '-') (by decide) (by decide) (by simp [h])
  exact absurd this (by decide)

namespace Scalar

/-- Nothing, a truth value, a whole number or a text. -/
inductive IsBasic : Scalar → Prop
  | null : IsBasic .null
  | bool (b : Bool) : IsBasic (.bool b)
  | int (i : Int) : IsBasic (.int i)
  | text (s : String) : IsBasic (.text s)

theorem content_int_inj {i j : Int} (h : (Scalar.int i).content = (Scalar.int j).content) :
    i = j := by
  rcases content_int i with ⟨hi, hw⟩ | ⟨hi, hw⟩ <;> rcases content_int j with ⟨hj, hw'⟩ | ⟨hj, hw'⟩ <;>
    rw [hw, hw'] at h
  · have := toDigits_inj h
    omega
  · exact absurd h toDigits_ne_minus
  · exact absurd h.symm toDigits_ne_minus
  · have := toDigits_inj (List.cons.inj h).2
    omega

/-- The first character of a whole number. -/
theorem head_content_int (i : Int) {c : Char} (h : c ∈ (Scalar.int i).content.head?) :
    c.isDigit ∨ c = '-' := by
  rcases content_int i with ⟨-, hw⟩ | ⟨-, hw⟩ <;> rw [hw] at h
  · exact .inl (Nat.isDigit_of_mem_toDigits (by decide) (by decide) (List.mem_of_mem_head? h))
  · exact .inr (by simpa using h.symm)

/-- Words and whole numbers are not read as texts, and stand without quotes. -/
theorem IsBasic.implicit {s : Scalar} (h : s.IsBasic) (ht : ∀ t, s ≠ .text t) :
    Implicit.of s.content ≠ .text ∧ Bare s.content := by
  cases h with
  | null => exact ⟨by decide, bare_of_all (by decide) (by decide) (by decide)⟩
  | bool b =>
      cases b
      · exact ⟨by decide, bare_of_all (by decide) (by decide) (by decide)⟩
      · exact ⟨by decide, bare_of_all (by decide) (by decide) (by decide)⟩
  | int i =>
      have digits {c : Char} (hc : c ∈ Nat.toDigits 10 i.natAbs) : c.isAlphanum ∨ c = '-' := by
        have := Nat.isDigit_of_mem_toDigits (by decide) (by decide) hc
        simp [Char.isAlphanum, this]
      have ne : Nat.toDigits 10 i.natAbs ≠ [] := by
        rw [Nat.toDigits_eq_if (by decide)]
        split <;> simp
      rcases content_int i with ⟨-, hw⟩ | ⟨-, hw⟩ <;> rw [hw]
      · refine ⟨implicit_of_isInt (isInt_digits _).1, bare_of_word ne ?_ fun c hc => digits hc⟩
        exact toDigits_ne_minus
      · refine ⟨implicit_of_isInt (isInt_digits _).2, bare_of_word (by simp) (by simp) ?_⟩
        intro c hc
        rcases List.mem_cons.mp hc with rfl | hc
        · exact .inr rfl
        · exact digits hc
  | text t => exact absurd rfl (ht t)

/-- Scalars that are written alike without quotes are the same, if both are texts or none is. -/
theorem IsBasic.content_inj {s t : Scalar} (hs : s.IsBasic) (ht : t.IsBasic)
    (hst : (∃ u, s = .text u) ↔ ∃ u, t = .text u) (h : s.content = t.content) : s = t := by
  have digit {i : Int} {c : Char} {cs : List Char} (hi : (Scalar.int i).content = c :: cs) :
      c.isDigit ∨ c = '-' := head_content_int i (by simp [hi])
  cases hs with
  | text u =>
      obtain ⟨v, rfl⟩ := hst.mp ⟨u, rfl⟩
      rw [String.toList_injective h]
  | null =>
      cases ht with
      | null => rfl
      | bool b => cases b <;> exact absurd h (by decide)
      | int i => exact absurd (digit h.symm) (by decide)
      | text v => simp at hst
  | bool b =>
      cases ht with
      | null => cases b <;> exact absurd h (by decide)
      | bool c => 
        cases b <;> cases c <;> first | rfl | exact absurd h (by decide)
      | int i => cases b <;> exact absurd (digit h.symm) (by decide)
      | text v => simp at hst
  | int i =>
      cases ht with
      | null => exact absurd (digit h) (by decide)
      | bool b => cases b <;> exact absurd (digit h) (by decide)
      | int j => rw [content_int_inj h]
      | text v => simp at hst

end Scalar

/-! ### Lines and keys -/

theorem Bare.newline {cs : List Char} (h : Bare cs) : '\n' ∉ cs := fun hm =>
  absurd (h.line _ hm) (by decide)

/-- Without quotes, the first character stands first. -/
theorem Bare.plain {cs : List Char} (h : Bare cs) (indent column : Nat) :
    ∃ c rest, cs = c :: rest ∧
      plain indent none column cs = c :: Folding.plain indent (some c) (column + 1) rest := by
  obtain ⟨c, rest, rfl⟩ := List.exists_cons_of_ne_nil h.nonempty
  refine ⟨c, rest, rfl, ?_⟩
  rcases plain_cons_cases indent none column c rest with ⟨rfl, -⟩ | hw
  · exact absurd rfl h.blank
  · exact hw

namespace Form

/-- The ways in which a scalar is written: without quotes, or as a text between quotes. -/
theorem scalarText_cases {s : Scalar} (h : s.IsBasic) :
    (Bare s.content ∧ (Implicit.of s.content = .text ↔ ∃ u, s = .text u) ∧
      ∀ split indent column, scalarText s split indent column =
        Folding.text .plain split indent column s.content) ∨
    (∃ u, s = .text u ∧ Joined none u.toList ∧ ∀ split indent column,
      scalarText s split indent column = Folding.text .single split indent column u.toList) ∨
    ∃ u, s = .text u ∧ ∀ split indent column,
      scalarText s split indent column = Folding.text .double split indent column u.toList := by
  have word (ht : ∀ u, s ≠ .text u) (hw : ∀ split indent column, scalarText s split indent column =
      Folding.text .plain split indent column s.content) :
      Bare s.content ∧ (Implicit.of s.content = .text ↔ ∃ u, s = .text u) ∧
        ∀ split indent column, scalarText s split indent column =
          Folding.text .plain split indent column s.content :=
    ⟨(h.implicit ht).2, iff_of_false (h.implicit ht).1 (by simpa using ht), hw⟩
  cases h with
  | null => exact .inl (word (by simp) fun _ _ _ => rfl)
  | bool b => exact .inl (word (by simp) fun _ _ _ => rfl)
  | int i => exact .inl (word (by simp) fun _ _ _ => rfl)
  | text u =>
      have written (style : Style) (hs : Style.of u.toList = style) (split : Bool)
          (indent column : Nat) : scalarText (.text u) split indent column =
            Folding.text style split indent column u.toList := by
        rw [scalarText, hs]
        rfl
      cases hs : Style.of u.toList with
      | plain =>
          refine .inl ⟨bare_of_plain hs, iff_of_true ?_ ⟨u, rfl⟩, written _ hs⟩
          rw [Style.of] at hs
          by_cases hp : Implicit.of u.toList = .text ∧ allowsPlain u.toList
          · exact hp.1
          · rw [if_neg hp] at hs
            by_cases ha : allowsSingle u.toList <;> simp [ha] at hs
      | single =>
          refine .inr (.inl ⟨u, rfl, ?_, written _ hs⟩)
          rw [Style.of] at hs
          split at hs
          · simp at hs
          · split at hs
            · next ha =>
                simp only [allowsSingle, Bool.not_eq_true', Bool.or_eq_false_iff] at ha
                exact ha.1
            · simp at hs
      | double => exact .inr (.inr ⟨u, rfl, written _ hs⟩)

/-- How a written scalar begins: not with a blank, a line feed or the sign of an alias, an anchor or
a collection, and no mark has a blank behind it. -/
theorem scalarText_head {s : Scalar} (h : s.IsBasic) (split : Bool) (indent column : Nat) :
    ∃ c t, scalarText s split indent column = c :: t ∧
      c ∉ [' ', '\n', '*', '&', '[', '\x7b'] ∧ (isBlockMark c → ∃ d u, t = d :: u ∧ d ≠ ' ') := by
  rcases scalarText_cases h with ⟨bare, -, hw⟩ | ⟨u, -, -, hw⟩ | ⟨u, -, hw⟩ <;> rw [hw]
  · obtain ⟨c, rest, hc, written⟩ := bare.plain indent column
    have leading := bare.leading c rest hc
    have signs : c ∉ [' ', '\n', '*', '&', '[', '\x7b'] := by
      have blank : c ≠ ' ' := by
        rintro rfl
        exact bare.blank (by simp [hc])
      have newline : c ≠ '\n' := by
        rintro rfl
        exact bare.newline (by simp [hc])
      have each : ∀ x ∈ ['*', '&', '[', '\x7b'], isLeadingIndicator x := by simp [isLeadingIndicator]
      intro hm
      rcases List.mem_cons.mp hm with rfl | hm
      · exact blank rfl
      · rcases List.mem_cons.mp hm with rfl | hm
        · exact newline rfl
        · simp [each c hm] at leading
    have mark (hm : isBlockMark c) : ∃ d v, rest = d :: v ∧ d ≠ ' ' := by
      have := bare.mark c rest hc hm
      cases rest with
      | nil => simp [isSeparated] at this
      | cons d v =>
          refine ⟨d, v, rfl, ?_⟩
          rintro rfl
          simp [isSeparated, isSeparator] at this
    cases split with
    | false => exact ⟨c, rest, hc, signs, mark⟩
    | true =>
        refine ⟨c, _, written, signs, fun hm => ?_⟩
        obtain ⟨d, v, rfl, hd⟩ := mark hm
        rcases plain_cons_cases indent (some c) (column + 1) d v with ⟨rfl, -⟩ | hw'
        · exact absurd rfl hd
        · exact ⟨d, _, hw', hd⟩
  · exact ⟨_, _, rfl, by decide, fun hm => absurd hm (by decide)⟩
  · exact ⟨_, _, rfl, by decide, fun hm => absurd hm (by decide)⟩

/-- A text without quotes does not begin with a quote. -/
theorem bare_ne_quoted {cs t : List Char} (h : Bare cs) {indent column : Nat} {split : Bool}
    {q : Char} (hq : q = '\x27' ∨ q = '"') {r : List Char} :
    Folding.text .plain split indent column cs ++ r ≠ q :: t := by
  obtain ⟨c, rest, rfl, written⟩ := h.plain indent column
  have leading := h.leading c rest rfl
  have first : c ≠ q := by
    rintro rfl
    rcases hq with rfl | rfl <;> exact absurd leading (by decide)
  intro heq
  cases split with
  | false => exact first (List.cons.inj heq).1
  | true =>
      rw [Folding.text, if_pos rfl, written] at heq
      exact first (List.cons.inj heq).1

/-- A quoted text ends where its quotes do. -/
theorem single_append_inj {split split' : Bool} {indent indent' column column' : Nat}
    {cs ds a b : List Char} (ha : a.head? ≠ some '\x27') (hb : b.head? ≠ some '\x27')
    (h : Folding.text .single split indent column cs ++ a =
      Folding.text .single split' indent' column' ds ++ b) :
    Folding.text .single split indent column cs = Folding.text .single split' indent' column' ds ∧
      a = b := by
  have paired (split : Bool) (indent column : Nat) (cs : List Char) :
      Paired (if split then single indent none (column + 1) cs else doubled cs) := by
    cases split
    · exact paired_doubled cs
    · exact paired_single indent cs none (column + 1)
  have written (split : Bool) (indent column : Nat) (cs r : List Char) :
      Folding.text .single split indent column cs ++ r =
        '\x27' :: ((if split then single indent none (column + 1) cs else doubled cs) ++ '\x27' :: r) := by
    simp [Folding.text, doubled]
  rw [written, written] at h
  obtain ⟨inside, hr⟩ := (paired _ _ _ _).append_inj (paired _ _ _ _) ha hb (List.cons.inj h).2
  have whole := written split indent column cs []
  rw [inside, ← written, List.append_nil, List.append_nil] at whole
  exact ⟨whole, hr⟩

theorem double_append_inj {split split' : Bool} {indent indent' column column' : Nat}
    {cs ds a b : List Char} (h : Folding.text .double split indent column cs ++ a =
      Folding.text .double split' indent' column' ds ++ b) :
    Folding.double indent split true false (column + 1) cs =
      Folding.double indent' split' true false (column' + 1) ds ∧ a = b := by
  have written (split : Bool) (indent column : Nat) (cs r : List Char) :
      Folding.text .double split indent column cs ++ r =
        '"' :: (Folding.double indent split true false (column + 1) cs ++ '"' :: r) := by
    simp [Folding.text]
  rw [written, written] at h
  exact (guarded_double _ _ _ _ _ _).1.append_inj (guarded_double _ _ _ _ _ _).1 (List.cons.inj h).2

/-- A scalar is known from its line, and so is what follows on less indented lines. -/
theorem scalarText_line_inj {s t : Scalar} (hs : s.IsBasic) (ht : t.IsBasic) {indent column : Nat}
    (hi : 0 < indent) {a b : List Char} (ha : Dedented indent a) (hb : Dedented indent b)
    (h : scalarText s true indent column ++ '\n' :: a =
      scalarText t true indent column ++ '\n' :: b) : s = t ∧ a = b := by
  rcases scalarText_cases hs with ⟨bare, ds, hw⟩ | ⟨u, rfl, ju, hw⟩ | ⟨u, rfl, hw⟩ <;>
    rcases scalarText_cases ht with ⟨bare', dt, hw'⟩ | ⟨v, rfl, jv, hw'⟩ | ⟨v, rfl, hw'⟩ <;>
    rw [hw, hw'] at h
  · obtain ⟨hc, hr⟩ := plain_append_inj bare.newline bare'.newline ha hb h
    exact ⟨hs.content_inj ht (by rw [← ds, ← dt, hc]) hc, hr⟩
  · exact absurd h (bare_ne_quoted bare (.inl rfl))
  · exact absurd h (bare_ne_quoted bare (.inr rfl))
  · exact absurd h.symm (bare_ne_quoted bare' (.inl rfl))
  · obtain ⟨inside, hr⟩ := single_append_inj (by simp) (by simp) h
    have inside := List.append_cancel_right (List.cons.inj inside).2
    rw [String.toList_injective (single_inj hi ju jv inside)]
    exact ⟨rfl, (List.cons.inj hr).2⟩
  · exact absurd (List.cons.inj h).1 (by decide)
  · exact absurd h.symm (bare_ne_quoted bare' (.inr rfl))
  · exact absurd (List.cons.inj h).1 (by decide)
  · obtain ⟨inside, hr⟩ := double_append_inj h
    rw [String.toList_injective (double_inj inside)]
    exact ⟨rfl, (List.cons.inj hr).2⟩

/-- A colon before a separator ends a key without quotes. -/
theorem bare_key_inj {cs ds a b : List Char} (hc : Bare cs) (hd : Bare ds) (ha : isSeparated a)
    (hb : isSeparated b) (h : cs ++ ':' :: a = ds ++ ':' :: b) : cs = ds ∧ a = b := by
  have longer {cs ds a b v : List Char} (hd : Bare ds) (ha : isSeparated a)
      (hv : ds = cs ++ ':' :: v) (h : a = v ++ ':' :: b) : False := by
    have further := hd.colon cs v hv
    cases v with
    | nil => simp [isSeparated] at further
    | cons c v =>
        rw [h] at ha
        simp only [isSeparated, List.cons_append, List.head?_cons, Option.all_some] at ha further
        simp [ha] at further
  rcases List.append_eq_append_iff.mp h with ⟨v, hv, h'⟩ | ⟨v, hv, h'⟩
  · cases v with
    | nil => simp_all
    | cons c v =>
        obtain ⟨rfl, hr⟩ := List.cons.inj h'
        exact (longer hd ha hv hr).elim
  · cases v with
    | nil => simp_all
    | cons c v =>
        obtain ⟨rfl, hr⟩ := List.cons.inj h'
        exact (longer hc hb hv hr).elim

/-- A text is known from its key. -/
theorem scalarText_key_inj {u v : String} {a b : List Char} (ha : isSeparated a)
    (hb : isSeparated b) (h : scalarText (.text u) false 0 0 ++ ':' :: a =
      scalarText (.text v) false 0 0 ++ ':' :: b) : u = v ∧ a = b := by
  rcases scalarText_cases (.text u) with ⟨bare, -, hw⟩ | ⟨u', hu, -, hw⟩ | ⟨u', hu, hw⟩ <;>
    rcases scalarText_cases (.text v) with ⟨bare', -, hw'⟩ | ⟨v', hv, -, hw'⟩ | ⟨v', hv, hw'⟩ <;>
    rw [hw, hw'] at h
  · obtain ⟨hc, hr⟩ := bare_key_inj bare bare' ha hb h
    exact ⟨String.toList_injective hc, hr⟩
  · exact absurd h (bare_ne_quoted bare (.inl rfl))
  · exact absurd h (bare_ne_quoted bare (.inr rfl))
  · exact absurd h.symm (bare_ne_quoted bare' (.inl rfl))
  · obtain ⟨inside, hr⟩ := single_append_inj (by simp) (by simp) h
    have inside : doubled u'.toList = doubled v'.toList :=
      List.append_cancel_right (List.cons.inj inside).2
    obtain rfl := Scalar.text.inj hu
    obtain rfl := Scalar.text.inj hv
    exact ⟨String.toList_injective (doubled_inj inside), (List.cons.inj hr).2⟩
  · exact absurd (List.cons.inj h).1 (by decide)
  · exact absurd h.symm (bare_ne_quoted bare' (.inr rfl))
  · exact absurd (List.cons.inj h).1 (by decide)
  · obtain ⟨inside, hr⟩ := double_append_inj h
    obtain rfl := Scalar.text.inj hu
    obtain rfl := Scalar.text.inj hv
    exact ⟨String.toList_injective (double_inj inside), (List.cons.inj hr).2⟩

/-- No key is the beginning of a text without quotes, folded or not. -/
theorem bare_key_ne_plain {cs ds a r : List Char} (hc : '\n' ∉ cs) (ha : isSeparated a)
    (hd : ∀ u v, ds = u ++ ':' :: v → isSeparated v = false) {indent column : Nat}
    {before : Option Char} :
    cs ++ ':' :: a ≠ Folding.plain indent before column ds ++ '\n' :: r := by
  induction ds generalizing cs before column with
  | nil =>
      intro h
      cases cs with
      | nil => exact absurd (List.cons.inj h).1 (by decide)
      | cons c cs =>
          obtain rfl : c = '\n' := (List.cons.inj h).1
          simp at hc
  | cons d ds ih =>
      intro h
      rcases plain_cons_cases indent before column d ds with ⟨rfl, hw⟩ | hw <;> rw [hw] at h
      · cases cs with
        | nil => exact absurd (List.cons.inj h).1 (by decide)
        | cons c cs =>
            obtain rfl : c = '\n' := (List.cons.inj h).1
            simp at hc
      · cases cs with
        | nil =>
            obtain ⟨rfl, h⟩ := List.cons.inj h
            have further := hd [] ds rfl
            cases ds with
            | nil => simp [isSeparated] at further
            | cons e ds =>
                have he : isSeparator e = false := by simpa [isSeparated] using further
                rcases plain_cons_cases indent (some ':') (column + 1) e ds with ⟨rfl, -⟩ | hw'
                · exact absurd he (by decide)
                · rw [h, hw'] at ha
                  simp [isSeparated, he] at ha
        | cons c cs =>
            obtain ⟨rfl, h⟩ := List.cons.inj h
            exact ih (fun hm => hc (by simp [hm])) (fun u v huv => hd (c :: u) v (by simp [huv])) h

/-- A line is not taken for a key. -/
theorem scalarText_key_ne_line {u : String} {s : Scalar} (hs : s.IsBasic) {indent column : Nat}
    {a r : List Char} (ha : isSeparated a) : scalarText (.text u) false 0 0 ++ ':' :: a ≠
      scalarText s true indent column ++ '\n' :: r := by
  intro h
  rcases scalarText_cases (.text u) with ⟨bare, -, hw⟩ | ⟨u', hu, -, hw⟩ | ⟨u', hu, hw⟩ <;>
    rcases scalarText_cases hs with ⟨bare', -, hw'⟩ | ⟨v', hv, -, hw'⟩ | ⟨v', hv, hw'⟩ <;>
    rw [hw, hw'] at h
  · exact bare_key_ne_plain bare.newline ha bare'.colon h
  · exact absurd h (bare_ne_quoted bare (.inl rfl))
  · exact absurd h (bare_ne_quoted bare (.inr rfl))
  · exact absurd h.symm (bare_ne_quoted bare' (.inl rfl))
  · exact absurd (List.cons.inj (single_append_inj (by simp) (by simp) h).2).1 (by decide)
  · exact absurd (List.cons.inj h).1 (by decide)
  · exact absurd h.symm (bare_ne_quoted bare' (.inr rfl))
  · exact absurd (List.cons.inj h).1 (by decide)
  · exact absurd (List.cons.inj (double_append_inj h).2).1 (by decide)

end Form

end OpenApiDoc.Yaml
