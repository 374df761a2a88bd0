import OpenApiDoc.Json.Reader
import OpenApiDoc.Proofs.Rendering

/-! # JSON texts are read back

A document of nothing, truth values, whole numbers, texts, lists and mappings from texts is read
back from its JSON text.

* `Json.Plain` values have no floating-point numbers in them, and no name twice in an object.
  `Json.tree` is the finite view that a JSON value stands for, and `Json.ofTree_basic` says that basic
  trees whose keys are distinct lose nothing.
* `Json.text?_writeString`, `Json.number?_digits`: a text and a whole number are read up to their
  end.
* `Json.value?_write`: so is what is written for a plain value. Every line that is left to read
  takes a character more than it takes fuel, so the length of the text is fuel enough.
* `Document.json_lossless`: the text of a document is read up to the last line feed, and gives the
  document. -/

namespace OpenApiDoc

namespace Json

/-! ### Texts -/

theorem hexValue?_digitChar {n : Nat} (h : n < 16) : hexValue? n.digitChar = some n := by
  have each : ∀ m : Fin 16, hexValue? (Nat.digitChar m) = some m.val := by decide
  exact each ⟨n, h⟩

/-- A control character is written with four digits. -/
theorem units?_control {n : Nat} (h : n < 32) (rest : List Char) :
    units? ('\\' :: 'u' :: (Text.hexDigits 4 n ++ rest)) =
      (units? rest).map fun p => (n :: p.1, p.2) := by
  have each : ∀ m : Fin 32, Text.hexDigits 4 m =
      ['0', '0', Nat.digitChar (m / 16), Nat.digitChar (m % 16)] := by decide
  have digits : Text.hexDigits 4 n = ['0', '0', Nat.digitChar (n / 16), Nat.digitChar (n % 16)] :=
    each ⟨n, h⟩
  have zero : hexValue? '0' = some 0 := rfl
  have value : (n / 16) * 16 + n % 16 = n := Nat.div_add_mod' n 16
  rw [digits]
  simp only [List.cons_append, List.nil_append, units?, fourHex?, zero,
    hexValue?_digitChar (show n / 16 < 16 by omega), hexValue?_digitChar (Nat.mod_lt n (by decide)),
    Option.pure_def, Option.bind_eq_bind, Option.bind_some, Nat.zero_mul, Nat.zero_add, value]
  cases units? rest <;> rfl

/-- A short escape gives the character that it stands for. -/
theorem units?_short {l c : Char} (h : unescape? l = some c) (hl : l ≠ 'u') (rest : List Char) :
    units? ('\\' :: l :: rest) = (units? rest).map fun p => (c.toNat :: p.1, p.2) := by
  rw [units?]
  · cases units? rest <;> simp [h]
  · exact fun _ _ _ _ _ hu => absurd hu hl

/-- A character inside a text gives its code point. -/
theorem units?_writeChar (c : Char) (rest : List Char) :
    units? (writeChar c ++ rest) = (units? rest).map fun p => (c.toNat :: p.1, p.2) := by
  unfold writeChar escape?
  split
  · exact units?_short rfl (by decide) rest
  · exact units?_short rfl (by decide) rest
  · exact units?_short rfl (by decide) rest
  · exact units?_short rfl (by decide) rest
  · exact units?_short rfl (by decide) rest
  · exact units?_short rfl (by decide) rest
  · exact units?_short rfl (by decide) rest
  · next quote backslash _ _ _ _ _ =>
      by_cases h : c.toNat < 32
      · simp only [h, if_true, Option.getD_some]
        exact units?_control h rest
      · simp only [h, if_false, Option.getD_none, List.singleton_append]
        rw [units?]
        · rw [if_neg h]
          cases units? rest <;> rfl
        · exact fun hc => quote hc
        · exact fun _ _ _ _ _ hc => absurd hc backslash
        · exact fun _ _ hc => absurd hc backslash

theorem units?_text (cs rest : List Char) :
    units? (cs.flatMap writeChar ++ '"' :: rest) = some (cs.map Char.toNat, rest) := by
  induction cs with
  | nil => rfl
  | cons c cs ih => rw [List.flatMap_cons, List.append_assoc, units?_writeChar, ih]; rfl

/-- A character is no half of a pair. -/
theorem not_surrogate (c : Char) :
    isHighSurrogate c.toNat = false ∧ isLowSurrogate c.toNat = false := by
  have valid := c.valid
  simp only [UInt32.isValidChar, Nat.isValidChar] at valid
  change c.toNat < 0xd800 ∨ 0xdfff < c.toNat ∧ c.toNat < 0x110000 at valid
  constructor
  · simp only [isHighSurrogate, Bool.and_eq_false_iff, decide_eq_false_iff_not]
    omega
  · simp only [isLowSurrogate, Bool.and_eq_false_iff, decide_eq_false_iff_not]
    omega

theorem join?_toNat (cs : List Char) : join? (cs.map Char.toNat) = some cs := by
  induction cs with
  | nil => rfl
  | cons c cs ih =>
      obtain ⟨high, low⟩ := not_surrogate c
      cases cs with
      | nil => simp [join?, high, low, Char.ofNat_toNat]
      | cons d cs =>
          rw [List.map_cons] at ih
          simp [join?, high, low, ih, Char.ofNat_toNat]

/-- A text is read up to its closing quote. -/
theorem text?_writeString (s : String) (rest : List Char) :
    text? ((writeString s ++ rest).tail) = some (s, rest) := by
  simp only [writeString, List.cons_append, List.tail_cons, List.append_assoc, List.nil_append]
  simp [text?, units?_text, join?_toNat]

/-! ### Whole numbers -/

/-- What may stand behind a value: nothing, or the end of its line. -/
def Ended (rest : List Char) : Prop := ∀ c ∈ rest.head?, c = ',' ∨ c = '\n'

theorem Ended.not_digit {rest : List Char} (h : Ended rest) :
    ∀ c ∈ rest.head?, c.isDigit = false := by
  intro c hc
  rcases h c hc with rfl | rfl <;> decide

theorem digits?_append {ds rest : List Char} (hn : ds ≠ []) (hd : ∀ c ∈ ds, c.isDigit)
    (hr : Ended rest) : digits? (ds ++ rest) = some (ds, rest) := by
  have front : (ds ++ rest).takeWhile Char.isDigit = ds := Yaml.takeWhile_digits hd hr.not_digit
  have back : (ds ++ rest).dropWhile Char.isDigit = rest := by
    have whole := List.takeWhile_append_dropWhile (p := Char.isDigit) (l := ds ++ rest)
    rw [front] at whole
    exact List.append_cancel_left whole
  rw [digits?, front, back]
  simp [hn]

theorem fraction?_ended {rest : List Char} (h : Ended rest) : fraction? rest = some ([], rest) := by
  rw [fraction?]
  rintro r rfl
  rcases h '.' rfl with hc | hc <;> exact absurd hc (by decide)

theorem exponent?_ended {rest : List Char} (h : Ended rest) :
    exponent? rest = some (none, rest) := by
  cases rest with
  | nil => rfl
  | cons c rest => rcases h c rfl with rfl | rfl <;> rfl

theorem digitsValue_toDigits (n : Nat) : digitsValue (Nat.toDigits 10 n) = n := by
  have read := Nat.ofDigitChars_toDigits (b := 10) (n := n) (by decide) (by decide)
  rw [Nat.ofDigitChars] at read
  rw [digitsValue]
  simpa [Nat.mul_comm] using read

theorem toDigits_ne_nil (n : Nat) : Nat.toDigits 10 n ≠ [] := by
  rw [Nat.toDigits_eq_if (by decide)]
  split <;> simp

/-- The digits of a number are read up to their end. -/
theorem number?_digits (negative : Bool) (n : Nat) {rest : List Char} (h : Ended rest) :
    number? negative (Nat.toDigits 10 n ++ rest) =
      some (.int (if negative then -(n : Int) else n), rest) := by
  have digits : ∀ c ∈ Nat.toDigits 10 n, c.isDigit := fun c hc =>
    Nat.isDigit_of_mem_toDigits (by decide) (by decide) hc
  have first : (Nat.toDigits 10 n).length = 1 ∨ (Nat.toDigits 10 n).head? ≠ some '0' := by
    rcases Nat.eq_zero_or_pos n with rfl | hn
    · exact .inl rfl
    · obtain ⟨d, ds, hw, hd⟩ := Yaml.toDigits_head_ne_zero hn
      exact .inr (by simpa [hw] using hd)
  simp [number?, digits?_append (toDigits_ne_nil n) digits h, first, fraction?_ended h,
    exponent?_ended h, digitsValue_toDigits]

/-! ### Values -/

/-- A value without floating-point numbers that repeats no name in an object. -/
inductive Plain : Json → Prop
  | null : Plain .null
  | bool (b : Bool) : Plain (.bool b)
  | int (i : Int) : Plain (.int i)
  | str (s : String) : Plain (.str s)
  | arr {items : List Json} (each : ∀ x ∈ items, Plain x) : Plain (.arr items)
  | obj {members : List (String × Json)} (names : (members.map (·.1)).Nodup)
      (each : ∀ m ∈ members, Plain m.2) : Plain (.obj members)

theorem skipBlanks_cons {c : Char} (h : isBlank c = false) (cs : List Char) :
    skipBlanks (c :: cs) = c :: cs := by
  simp [skipBlanks, h]

theorem skipBlanks_lineStart (level : Nat) (cs : List Char) :
    skipBlanks (lineStart level ++ cs) = skipBlanks cs := by
  have blanks (n : Nat) :
      (List.replicate n ' ' ++ cs).dropWhile isBlank = cs.dropWhile isBlank := by
    induction n with
    | zero => rfl
    | succ n ih => exact ih
  exact blanks (2 * level)

/-- Blanks in front of a value are passed over. -/
theorem value?_lineStart (fuel level : Nat) (cs : List Char) :
    value? fuel (lineStart level ++ cs) = value? fuel cs := by
  cases fuel with
  | zero => rfl
  | succ fuel => rw [value?, value?, skipBlanks_lineStart]

theorem value?_blank (fuel : Nat) (cs : List Char) : value? fuel (' ' :: cs) = value? fuel cs := by
  cases fuel <;> rfl

/-- A value that begins with a digit is a number. -/
theorem value?_digit (fuel : Nat) {d : Char} (hd : d.isDigit) (cs : List Char) :
    value? (fuel + 1) (d :: cs) = number? false (d :: cs) := by
  have other {c : Char} (hc : c.isDigit = false) : d ≠ c := by
    rintro rfl
    simp [hd] at hc
  have word {w : String} {c : Char} {t : List Char} (hw : w.toList = c :: t)
      (hc : c.isDigit = false) : word? w (d :: cs) = none := by
    have : (c == d) = false := beq_eq_false_iff_ne.mpr (other hc).symm
    simp [word?, hw, List.isPrefixOf, this]
  have blank : isBlank d = false := by
    simp [isBlank, other (c := ' ') rfl, other (c := '\n') rfl, other (c := '\r') rfl,
      other (c := '\t') rfl]
  rw [value?, skipBlanks_cons blank]
  split
  · next h => exact absurd (List.cons.inj h).1 (other rfl)
  · next h => exact absurd (List.cons.inj h).1 (other rfl)
  · next h => exact absurd (List.cons.inj h).1 (other rfl)
  · next h => exact absurd (List.cons.inj h).1 (other rfl)
  · rw [word (w := "null") rfl rfl, word (w := "true") rfl rfl, word (w := "false") rfl rfl]

theorem toList_int (i : Int) : (0 ≤ i ∧ (toString i).toList = Nat.toDigits 10 i.natAbs) ∨
    (i < 0 ∧ (toString i).toList = '-' :: Nat.toDigits 10 i.natAbs) :=
  Yaml.content_int i

/-- A whole number is read up to its end. -/
theorem value?_int (fuel : Nat) (i : Int) {rest : List Char} (h : Ended rest) :
    value? (fuel + 1) ((toString i).toList ++ rest) = some (.int i, rest) := by
  rcases toList_int i with ⟨hi, hw⟩ | ⟨hi, hw⟩
  · obtain ⟨d, ds, hd⟩ := List.exists_cons_of_ne_nil (toDigits_ne_nil i.natAbs)
    have digit : d.isDigit := Nat.isDigit_of_mem_toDigits (b := 10) (n := i.natAbs) (by decide)
      (by decide) (by simp [hd])
    have number := number?_digits false i.natAbs h
    rw [hw, hd, List.cons_append, value?_digit fuel digit, ← List.cons_append, ← hd, number]
    simp [Int.natAbs_of_nonneg hi]
  · have number := number?_digits true i.natAbs h
    rw [hw, List.cons_append, value?, skipBlanks_cons rfl]
    change number? true (Nat.toDigits 10 i.natAbs ++ rest) = _
    rw [number]
    have value : -((i.natAbs : Int)) = i := by omega
    rw [if_pos rfl, value]

/-- Behind every level of nesting, the value is read up to its end. -/
def Known (j : Json) : Prop := ∀ fuel level rest, (write level j).length ≤ fuel → Ended rest →
  value? fuel (write level j ++ rest) = some (j, rest)

/-- How a value begins. -/
theorem Plain.head {j : Json} (h : j.Plain) (level : Nat) :
    ∃ c t, write level j = c :: t ∧ isBlank c = false ∧ c ≠ ']' ∧ c ≠ '\x7d' := by
  cases h with
  | null => exact ⟨_, _, rfl, by decide⟩
  | bool b => cases b <;> exact ⟨_, _, rfl, by decide⟩
  | str s => exact ⟨_, _, rfl, by decide⟩
  | int i =>
      rcases toList_int i with ⟨-, hw⟩ | ⟨-, hw⟩
      · obtain ⟨d, ds, hd⟩ := List.exists_cons_of_ne_nil (toDigits_ne_nil i.natAbs)
        have digit : d.isDigit := Nat.isDigit_of_mem_toDigits (b := 10) (n := i.natAbs) (by decide)
          (by decide) (by simp [hd])
        have other {c : Char} (hc : c.isDigit = false) : d ≠ c := by
          rintro rfl
          simp [digit] at hc
        refine ⟨d, ds, by rw [write, hw, hd], ?_, other rfl, other rfl⟩
        simp [isBlank, other (c := ' ') rfl, other (c := '\n') rfl, other (c := '\r') rfl,
          other (c := '\t') rfl]
      · exact ⟨_, _, by rw [write, hw], by decide⟩
  | @arr items each => cases items <;> exact ⟨_, _, rfl, by decide⟩
  | @obj members names each =>
      cases members with
      | nil => exact ⟨_, _, rfl, by decide⟩
      | cons m ms =>
          obtain ⟨k, v⟩ := m
          exact ⟨_, _, rfl, by decide⟩

theorem ended_lineStart (level : Nat) (rest : List Char) : Ended (lineStart level ++ rest) := by
  intro c hc
  obtain rfl := Option.mem_some.mp hc
  exact .inr rfl

theorem ended_writeItems (level outer : Nat) (xs : List Json) (rest : List Char) :
    Ended (writeItems level xs ++ (lineStart outer ++ rest)) := by
  cases xs with
  | nil => exact ended_lineStart outer rest
  | cons x xs =>
      intro c hc
      obtain rfl := Option.mem_some.mp hc
      exact .inl rfl

theorem ended_writeMembers (level outer : Nat) (ms : List (String × Json)) (rest : List Char) :
    Ended (writeMembers level ms ++ (lineStart outer ++ rest)) := by
  cases ms with
  | nil => exact ended_lineStart outer rest
  | cons m ms =>
      intro c hc
      obtain rfl := Option.mem_some.mp hc
      exact .inl rfl

theorem items?_lineStart (fuel level : Nat) (cs : List Char) :
    items? fuel (lineStart level ++ cs) = items? fuel cs := by
  cases fuel with
  | zero => rfl
  | succ fuel => rw [items?, items?, value?_lineStart]

theorem members?_lineStart (fuel level : Nat) (cs : List Char) :
    members? fuel (lineStart level ++ cs) = members? fuel cs := by
  cases fuel with
  | zero => rfl
  | succ fuel => rw [members?, members?, skipBlanks_lineStart]

/-- Items are read up to the closing bracket. -/
theorem items?_write {x : Json} {xs : List Json} (known : ∀ y ∈ x :: xs, y.Known)
    {fuel level outer : Nat} {rest : List Char}
    (enough : (write level x ++ writeItems level xs).length < fuel) :
    items? fuel (write level x ++ (writeItems level xs ++ (lineStart outer ++ ']' :: rest))) =
      some (x :: xs, rest) := by
  induction xs generalizing x fuel with
  | nil =>
      obtain ⟨fuel, rfl⟩ : ∃ n, fuel = n + 1 := ⟨fuel - 1, by omega⟩
      simp only [writeItems, List.append_nil] at enough
      have first := known x (by simp) fuel level _ (by omega) (ended_lineStart outer (']' :: rest))
      simp only [writeItems, List.nil_append, items?, first, Option.bind_eq_bind, Option.bind_some,
        skipBlanks_lineStart, skipBlanks_cons (c := ']') rfl]
      rfl
  | cons y ys ih =>
      obtain ⟨fuel, rfl⟩ : ∃ n, fuel = n + 1 := ⟨fuel - 1, by omega⟩
      simp only [writeItems, List.length_append, List.length_cons] at enough
      have first := known x (by simp) fuel level _ (by omega)
        (ended_writeItems level outer (y :: ys) (']' :: rest))
      have others : items? fuel (write level y ++
          (writeItems level ys ++ (lineStart outer ++ ']' :: rest))) = some (y :: ys, rest) :=
        ih (fun z hz => known z (List.mem_cons_of_mem x hz)) (by rw [List.length_append]; omega)
      simp only [items?, first, Option.bind_eq_bind, Option.bind_some]
      simp only [writeItems, List.cons_append, List.append_assoc, skipBlanks_cons (c := ',') rfl,
        items?_lineStart, others]
      rfl

section members

variable {fuel : Nat} {k : String} {v : Json} {cs rest : List Char}

theorem skipBlanks_writeString (k : String) (cs : List Char) :
    skipBlanks (writeString k ++ cs) = '"' :: (writeString k ++ cs).tail := rfl

/-- A member before the closing brace is the last one. -/
theorem members?_last {behind : List Char} (value : value? fuel cs = some (v, behind))
    (closed : skipBlanks behind = '\x7d' :: rest) :
    members? (fuel + 1) (writeString k ++ ':' :: ' ' :: cs) = some ([(k, v)], rest) := by
  simp only [members?, skipBlanks_writeString, text?_writeString, Option.bind_eq_bind,
    Option.bind_some, skipBlanks_cons (c := ':') rfl, value?_blank, value, closed, Option.pure_def]

/-- Behind a comma, there are further members. -/
theorem members?_more {behind further : List Char} {ms : List (String × Json)}
    (value : value? fuel cs = some (v, behind)) (comma : skipBlanks behind = ',' :: further)
    (members : members? fuel further = some (ms, rest)) :
    members? (fuel + 1) (writeString k ++ ':' :: ' ' :: cs) = some ((k, v) :: ms, rest) := by
  simp only [members?, skipBlanks_writeString, text?_writeString, Option.bind_eq_bind,
    Option.bind_some, skipBlanks_cons (c := ':') rfl, value?_blank, value, comma, members,
    Option.pure_def]

/-- Members are read up to the closing brace. -/
theorem members?_write {ms : List (String × Json)} (known : ∀ m ∈ (k, v) :: ms, m.2.Known)
    {level outer : Nat} (enough : (write level v ++ writeMembers level ms).length < fuel) :
    members? fuel (writeString k ++ (':' :: ' ' :: (write level v ++ (writeMembers level ms ++
      (lineStart outer ++ '\x7d' :: rest))))) = some ((k, v) :: ms, rest) := by
  induction ms generalizing k v fuel with
  | nil =>
      obtain ⟨fuel, rfl⟩ : ∃ n, fuel = n + 1 := ⟨fuel - 1, by omega⟩
      simp only [writeMembers, List.append_nil] at enough
      have value : v.Known := known (k, v) (by simp)
      refine members?_last
        (value fuel level _ (by omega) (ended_lineStart outer ('\x7d' :: rest))) ?_
      rw [writeMembers, List.nil_append, skipBlanks_lineStart, skipBlanks_cons rfl]
  | cons m ms ih =>
      obtain ⟨l, u⟩ := m
      obtain ⟨fuel, rfl⟩ : ∃ n, fuel = n + 1 := ⟨fuel - 1, by omega⟩
      simp only [writeMembers, List.length_append, List.length_cons] at enough
      have value : v.Known := known (k, v) (by simp)
      have others : members? fuel (writeString l ++ (':' :: ' ' :: (write level u ++
          (writeMembers level ms ++ (lineStart outer ++ '\x7d' :: rest))))) =
            some ((l, u) :: ms, rest) :=
        ih (fun m hm => known m (List.mem_cons_of_mem _ hm)) (by rw [List.length_append]; omega)
      rw [← members?_lineStart fuel level] at others
      refine members?_more (value fuel level _ (by omega)
        (ended_writeMembers level outer ((l, u) :: ms) ('\x7d' :: rest))) ?_ others
      simp only [writeMembers, List.cons_append, List.append_assoc, List.nil_append,
        skipBlanks_cons (c := ',') rfl]

end members

/-- An opening bracket with no closing bracket behind it begins items. -/
theorem value?_bracket (fuel : Nat) {cs : List Char} (h : ∀ r, skipBlanks cs ≠ ']' :: r) :
    value? (fuel + 1) ('[' :: cs) = (items? fuel (skipBlanks cs)).map fun p => (.arr p.1, p.2) := by
  simp only [value?, skipBlanks_cons (c := '[') rfl]

/-- An opening brace with no closing brace behind it begins members. -/
theorem value?_brace (fuel : Nat) {cs : List Char} (h : ∀ r, skipBlanks cs ≠ '\x7d' :: r) :
    value? (fuel + 1) ('\x7b' :: cs) =
      (members? fuel (skipBlanks cs)).map fun p => (.obj p.1, p.2) := by
  simp only [value?, skipBlanks_cons (c := '\x7b') rfl]

/-- What is written for a value is read up to its end. -/
theorem Plain.known {j : Json} (h : j.Plain) : j.Known := by
  induction h with
  | null =>
      intro fuel level rest enough _
      obtain ⟨fuel, rfl⟩ : ∃ n, fuel = n + 1 := ⟨fuel - 1, by simp [write] at enough; omega⟩
      rfl
  | bool b =>
      intro fuel level rest enough _
      obtain ⟨fuel, rfl⟩ : ∃ n, fuel = n + 1 :=
        ⟨fuel - 1, by cases b <;> simp [write, truthText] at enough <;> omega⟩
      cases b <;> rfl
  | int i =>
      intro fuel level rest enough ended
      obtain ⟨fuel, rfl⟩ : ∃ n, fuel = n + 1 := by
        obtain ⟨c, t, hw, -⟩ := (Plain.int i).head level
        rw [hw, List.length_cons] at enough
        exact ⟨fuel - 1, by omega⟩
      exact value?_int fuel i ended
  | str s =>
      intro fuel level rest enough _
      obtain ⟨fuel, rfl⟩ : ∃ n, fuel = n + 1 :=
        ⟨fuel - 1, by simp [write, writeString] at enough; omega⟩
      change value? (fuel + 1) ('"' :: (writeString s ++ rest).tail) = _
      rw [value?, skipBlanks_cons rfl]
      simp only [text?_writeString, Option.map_some]
  | @arr items each ih =>
      intro fuel level rest enough _
      cases items with
      | nil =>
          obtain ⟨fuel, rfl⟩ : ∃ n, fuel = n + 1 := ⟨fuel - 1, by simp [write] at enough; omega⟩
          rfl
      | cons x xs =>
          simp only [write, List.length_append, List.length_cons] at enough
          obtain ⟨fuel, rfl⟩ : ∃ n, fuel = n + 1 := ⟨fuel - 1, by omega⟩
          obtain ⟨c, t, hw, blank, other, -⟩ := (each x (by simp)).head (level + 1)
          have items : items? fuel (write (level + 1) x ++ (writeItems (level + 1) xs ++
              (lineStart level ++ ']' :: rest))) = some (x :: xs, rest) :=
            items?_write ih (by rw [List.length_append]; omega)
          simp only [hw, List.cons_append] at items
          simp only [write, List.cons_append, List.append_assoc, List.nil_append]
          rw [value?_bracket] <;> rw [skipBlanks_lineStart, hw, List.cons_append,
            skipBlanks_cons blank]
          · rw [items]
            rfl
          · exact fun r hr => other (List.cons.inj hr).1
  | @obj members names each ih =>
      intro fuel level rest enough _
      cases members with
      | nil =>
          obtain ⟨fuel, rfl⟩ : ∃ n, fuel = n + 1 := ⟨fuel - 1, by simp [write] at enough; omega⟩
          rfl
      | cons m ms =>
          obtain ⟨k, v⟩ := m
          simp only [write, List.length_append, List.length_cons] at enough
          obtain ⟨fuel, rfl⟩ : ∃ n, fuel = n + 1 := ⟨fuel - 1, by omega⟩
          have members : members? fuel (writeString k ++ (':' :: ' ' :: (write (level + 1) v ++
              (writeMembers (level + 1) ms ++ (lineStart level ++ '\x7d' :: rest))))) =
                some ((k, v) :: ms, rest) :=
            members?_write ih (by rw [List.length_append]; omega)
          have quoted (cs : List Char) : skipBlanks (writeString k ++ cs) = writeString k ++ cs :=
            rfl
          simp only [write, List.cons_append, List.append_assoc, List.nil_append]
          rw [value?_brace] <;> rw [skipBlanks_lineStart, quoted]
          · rw [members]
            rfl
          · exact fun r hr => absurd (List.cons.inj hr).1 (by decide)

/-- A text with one value and a line feed behind it gives that value. -/
theorem Plain.read {j : Json} (h : j.Plain) :
    value? ((render j).toList.length + 1) (render j).toList = some (j, ['\n']) ∧
      read? (render j) = some j := by
  have text : (render j).toList = write 0 j ++ ['\n'] := by simp [render]
  have value : value? ((render j).toList.length + 1) (render j).toList = some (j, ['\n']) := by
    rw [text]
    refine h.known _ 0 ['\n'] (by rw [List.length_append]; omega) fun c hc => .inr ?_
    exact (Option.mem_some.mp hc).symm
  refine ⟨value, ?_⟩
  simp only [read?, value]
  rfl

/-! ### Finite views -/

mutual

/-- The finite view that a value stands for. -/
def tree : Json → Tree
  | .null => .none
  | .bool b => .bool b
  | .int i => .atom (.int i)
  | .float x => .atom (.float x)
  | .str s => .str s
  | .arr items => .list (treeItems items)
  | .obj members => .mapping (treeMembers members)

def treeItems : List Json → List Tree
  | [] => []
  | j :: js => tree j :: treeItems js

def treeMembers : List (String × Json) → List (Tree × Tree)
  | [] => []
  | (k, j) :: ms => (.str k, tree j) :: treeMembers ms

end

end Json

/-- No mapping has a key twice. -/
inductive Tree.KeysDistinct : Tree → Prop
  | atom (a : Atom) : KeysDistinct (.atom a)
  | list {items : List Tree} (each : ∀ t ∈ items, KeysDistinct t) : KeysDistinct (.list items)
  | mapping {entries : List (Tree × Tree)} (keys : (entries.map (·.1)).Nodup)
      (each : ∀ e ∈ entries, KeysDistinct e.2) : KeysDistinct (.mapping entries)

namespace Json

/-- The value of a tree stands for the tree. -/
def Stands (t : Tree) : Prop := ∃ j, ofTree t = .ok j ∧ j.Plain ∧ j.tree = t

theorem ofItems_stands {ts : List Tree} (h : ∀ t ∈ ts, Stands t) :
    ∃ js, ofItems ts = .ok js ∧ (∀ j ∈ js, j.Plain) ∧ treeItems js = ts := by
  induction ts with
  | nil => exact ⟨[], rfl, by simp, rfl⟩
  | cons t ts ih =>
      obtain ⟨j, hj, plain, tree⟩ := h t (by simp)
      obtain ⟨js, hjs, plains, trees⟩ := ih fun t ht => h t (by simp [ht])
      refine ⟨j :: js, by rw [ofItems, hj, hjs]; rfl, ?_, by rw [treeItems, tree, trees]⟩
      exact List.forall_mem_cons.mpr ⟨plain, plains⟩

theorem ofEntries_stands {es : List (Tree × Tree)} (keys : ∀ e ∈ es, ∃ s, e.1 = .str s)
    (h : ∀ e ∈ es, Stands e.2) : ∃ ms, ofEntries es = .ok ms ∧ (∀ m ∈ ms, m.2.Plain) ∧
      treeMembers ms = es ∧ ms.map (Tree.str ·.1) = es.map (·.1) := by
  induction es with
  | nil => exact ⟨[], rfl, by simp, rfl, rfl⟩
  | cons e es ih =>
      obtain ⟨k, t⟩ := e
      obtain ⟨s, rfl : k = .str s⟩ := keys (k, t) (by simp)
      obtain ⟨j, hj, plain, tree⟩ := h (.str s, t) (by simp)
      obtain ⟨ms, hms, plains, trees, names⟩ := ih (fun e he => keys e (by simp [he]))
        fun e he => h e (by simp [he])
      refine ⟨(s, j) :: ms, by rw [ofEntries, hj, hms]; rfl, ?_, ?_, ?_⟩
      · exact List.forall_mem_cons.mpr ⟨plain, plains⟩
      · rw [treeMembers, trees]
        exact congrArg (fun u => (Tree.str s, u) :: es) tree
      · rw [List.map_cons, List.map_cons, names]

/-- JSON loses nothing of a basic tree. -/
theorem ofTree_basic {t : Tree} (h : t.IsBasic) (distinct : t.KeysDistinct) : Stands t := by
  induction h with
  | none => exact ⟨_, rfl, .null, rfl⟩
  | bool b => exact ⟨_, rfl, .bool b, rfl⟩
  | int i => exact ⟨_, rfl, .int i, rfl⟩
  | str s => exact ⟨_, rfl, .str s, rfl⟩
  | list _ ih =>
      cases distinct with
      | list each =>
          obtain ⟨js, hjs, plains, trees⟩ := ofItems_stands fun t ht => ih t ht (each t ht)
          exact ⟨.arr js, by rw [ofTree, hjs]; rfl, .arr plains, by rw [tree, trees]⟩
  | mapping keys _ ih =>
      cases distinct with
      | mapping apart each =>
          obtain ⟨ms, hms, plains, trees, names⟩ :=
            ofEntries_stands keys fun e he => ih e he (each e he)
          have distinct : (ms.map (·.1)).Nodup := by
            rw [← names] at apart
            exact List.Nodup.of_map Tree.str (by rwa [List.map_map])
          exact ⟨.obj ms, by rw [ofTree, hms]; rfl, .obj distinct plains, by rw [tree, trees]⟩

end Json

namespace Document

/-- The text of a document is read up to the line feed at its end, and gives the document: every
object has the keys of its mapping in their order and none of them twice. -/
theorem json_lossless {w : World} {d : Value} (data : w.IsData d) (basic : (w.tree d).IsBasic)
    (distinct : (w.tree d).KeysDistinct) :
    ∃ text u j, (render d (.str "json")).run w = .ok text u ∧
      Json.value? (text.toList.length + 1) text.toList = some (j, ['\n']) ∧
      Json.read? text = some j ∧ j.Plain ∧ j.tree = w.tree d := by
  have noted : w.Extends (logged w (.str "json")) := ⟨Nat.le_refl _, fun _ _ => rfl, rfl⟩
  obtain ⟨j, hj, plain, tree⟩ := Json.ofTree_basic basic distinct
  refine ⟨Json.render j, logged w (.str "json"), j, ?_, plain.read.1, plain.read.2, plain, tree⟩
  rw [render_json_run, (data.extends noted).2, hj]

/-- A document with a mapping that is held twice, escapes, a negative number and nothing to list. -/
def exchanged : World :=
  { World.initial with objects := #[.list [],
      .mapping [(.str "\x00\"\\é", .int (-12)), (.str "", .obj 0)],
      .list [.obj 1, .none, .obj 1],
      .mapping [(.str "rows", .obj 2), (.str "a\nb", .bool true)]] }

theorem isData_exchanged : exchanged.IsData (.obj 3) := by
  have empty : exchanged.IsData (.obj 0) :=
    .obj (by decide) rfl rfl (fun _ h => nomatch h) (fun _ h => nomatch h)
  have row : exchanged.IsData (.obj 1) := by
    refine .obj (by decide) rfl rfl (fun _ h => nomatch h) ?_
    change ∀ v ∈ [Value.str "\x00\"\\é", .int (-12), .str "", .obj 0], _
    simp [World.IsData.atom, empty]
  have rows : exchanged.IsData (.obj 2) := by
    refine .obj (by decide) rfl rfl (fun _ h => nomatch h) ?_
    change ∀ v ∈ [Value.obj 1, .none, .obj 1], _
    simp [World.IsData.atom, row]
  refine .obj (by decide) rfl rfl (fun _ h => nomatch h) ?_
  change ∀ v ∈ [Value.str "rows", .obj 2, .str "a\nb", .bool true], _
  simp [World.IsData.atom, rows]

/-- The document is shown with the mapping at both places. -/
theorem tree_exchanged : exchanged.tree (.obj 3) =
    let row : Tree := .mapping [(.str "\x00\"\\é", .atom (.int (-12))), (.str "", .list [])]
    .mapping [(.str "rows", .list [row, .none, row]), (.str "a\nb", .bool true)] := rfl

theorem json_lossless_exchanged : exchanged.IsData (.obj 3) ∧ (exchanged.tree (.obj 3)).IsBasic ∧
    (exchanged.tree (.obj 3)).KeysDistinct ∧
    ∃ text u j, (render (.obj 3) (.str "json")).run exchanged = .ok text u ∧
      Json.value? (text.toList.length + 1) text.toList = some (j, ['\n']) ∧
      Json.read? text = some j ∧ j.Plain ∧ j.tree = exchanged.tree (.obj 3) := by
  have basic : (exchanged.tree (.obj 3)).IsBasic := by
    rw [tree_exchanged]
    have row : (Tree.mapping
        [(.str "\x00\"\\é", .atom (.int (-12))), (.str "", .list [])]).IsBasic :=
      .mapping (by simp) (by simp [Tree.IsBasic.int, Tree.IsBasic.list])
    have rows := Tree.IsBasic.list (List.forall_mem_cons.mpr ⟨row, List.forall_mem_cons.mpr
      ⟨.none, List.forall_mem_singleton.mpr row⟩⟩)
    exact .mapping (by simp) (by simp [rows, Tree.IsBasic.bool])
  have distinct : (exchanged.tree (.obj 3)).KeysDistinct := by
    rw [tree_exchanged]
    have row : (Tree.mapping
        [(.str "\x00\"\\é", .atom (.int (-12))), (.str "", .list [])]).KeysDistinct :=
      .mapping (by simp) (by simp [Tree.KeysDistinct.atom, Tree.KeysDistinct.list])
    have rows := Tree.KeysDistinct.list (List.forall_mem_cons.mpr ⟨row, List.forall_mem_cons.mpr
      ⟨.atom .none, List.forall_mem_singleton.mpr row⟩⟩)
    exact .mapping (by simp) (by simp [rows, Tree.KeysDistinct.atom])
  exact ⟨isData_exchanged, basic, distinct, json_lossless isData_exchanged basic distinct⟩

end Document
end OpenApiDoc
