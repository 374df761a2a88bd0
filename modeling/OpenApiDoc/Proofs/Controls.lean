import Mathlib.Data.List.Basic
import OpenApiDoc.Cli.Terminal
import OpenApiDoc.Document
import OpenApiDoc.Proofs.Outcomes
import OpenApiDoc.Proofs.Yaml.Escapes

/-! # Rendered texts hold no control characters

Whatever a document holds, its text is made of line feeds and of characters from the blank on: any
other control character is written as an escape. So nothing in it is taken for the end of a line or
for the beginning of a control sequence.

* `Text.Clear` texts hold no control character but the line feed.
* `Json.write_clear` and `Yaml.Form.write_clear`: what is written for a value is clear, by induction on
  the value and along with what is written for its items and entries.
* `Document.render_clear` says it of every document and every format.
* `Cli.Terminal.lines_of_clear`: the lines of a clear text are the same on every terminal. -/

namespace OpenApiDoc

namespace Text

/-- A control character other than the line feed. -/
def isControl (c : Char) : Bool := c.toNat < 0x20 && c != '\n'

/-- No character of the text is such a control character. -/
def Clear (cs : List Char) : Prop := ∀ c ∈ cs, isControl c = false

@[simp] theorem clear_nil : Clear [] := by simp [Clear]

@[simp] theorem clear_cons {c : Char} {cs : List Char} :
    Clear (c :: cs) ↔ isControl c = false ∧ Clear cs := by
  simp [Clear]

@[simp] theorem clear_append {cs ds : List Char} : Clear (cs ++ ds) ↔ Clear cs ∧ Clear ds := by
  simp [Clear, or_imp, forall_and]

theorem clear_of_all {cs : List Char} (h : cs.all (fun c => !isControl c) = true) : Clear cs := by
  simpa [Clear] using h

theorem clear_replicate (n : Nat) {c : Char} (h : isControl c = false) :
    Clear (List.replicate n c) := by
  intro d hd
  rwa [List.eq_of_mem_replicate hd]

theorem Clear.flatMap {f : Char → List Char} {cs : List Char} (h : ∀ c ∈ cs, Clear (f c)) :
    Clear (cs.flatMap f) := by
  intro d hd
  obtain ⟨c, hc, hd⟩ := List.mem_flatMap.mp hd
  exact h c hc d hd

theorem Clear.sublist {cs ds : List Char} (h : Clear cs) (sub : ds.Sublist cs) : Clear ds :=
  fun c hc => h c (sub.subset hc)

theorem isControl_of_le {c : Char} (h : 0x20 ≤ c.toNat) : isControl c = false := by
  have : ¬ c.toNat < 0x20 := by omega
  simp [isControl, this]

theorem isControl_of_isDigit {c : Char} (h : c.isDigit) : isControl c = false := by
  refine isControl_of_le ?_
  simp only [Char.isDigit, Bool.and_eq_true, decide_eq_true_eq, ge_iff_le,
    UInt32.le_iff_toNat_le] at h
  change 48 ≤ c.toNat ∧ _ at h
  omega

/-! ### Numbers and moments -/

theorem digits_clear (n : Nat) : Clear (Nat.repr n).toList := by
  rw [Nat.repr_eq_ofList_toDigits, String.toList_ofList]
  exact fun c hc => isControl_of_isDigit (Nat.isDigit_of_mem_toDigits (by decide) (by decide) hc)

theorem int_clear (i : Int) : Clear (toString i).toList := by
  rw [Int.toString_eq_repr, Int.repr_eq_if]
  split
  · exact digits_clear _
  · rw [String.toList_append, clear_append]
    exact ⟨clear_of_all (by decide), digits_clear _⟩

/-- The digits of an escape are clear, in both cases. -/
theorem hexDigits_clear (width n : Nat) :
    Clear (hexDigits width n) ∧ Clear ((hexDigits width n).map Char.toUpper) := by
  have each : ∀ k : Fin 16, isControl (Nat.digitChar k) = false ∧
      isControl (Nat.digitChar k).toUpper = false := by decide
  constructor
  · rw [hexDigits, clear_append]
    refine ⟨clear_replicate _ (by decide), fun c hc => ?_⟩
    obtain ⟨k, lt, rfl⟩ := Yaml.Folding.mem_toDigits hc
    exact (each ⟨k, lt⟩).1
  · intro c hc
    obtain ⟨k, rfl⟩ := Yaml.Folding.exists_digit_of_mem hc
    exact (each k).2

theorem padded_clear (width n : Nat) : Clear (padded width n).toList := by
  rw [padded, String.toList_append, String.toList_ofList, clear_append]
  exact ⟨clear_replicate _ (by decide), digits_clear n⟩

theorem date_clear (d : Date) : Clear d.iso.toList := by
  have dash : Clear "-".toList := clear_of_all (by decide)
  simp only [Date.iso, String.toList_append, clear_append, padded_clear, dash, and_self]

theorem timeOfDay_clear (t : TimeOfDay) : Clear t.iso.toList := by
  have colon : Clear ":".toList := clear_of_all (by decide)
  have point : Clear ".".toList := clear_of_all (by decide)
  have fraction : Clear (if t.microsecond = 0 then "" else "." ++ padded 6 t.microsecond).toList := by
    split
    · exact clear_nil
    · simp only [String.toList_append, clear_append, point, padded_clear, and_self]
  simp only [TimeOfDay.iso, String.toList_append, clear_append, padded_clear, colon, fraction,
    and_self]

theorem moment_clear (m : Moment) : Clear (m.iso " ").toList := by
  have blank : Clear " ".toList := clear_of_all (by decide)
  cases m with
  | date d => exact date_clear d
  | dateTime d t =>
      simp only [Moment.iso, String.toList_append, clear_append, date_clear, blank,
        timeOfDay_clear, and_self]

/-- A layout of clear digits is clear. -/
theorem place_clear (l : NumberLayout) {ds : List Char} (h : Clear ds) (lead : Int) :
    Clear (l.place ds lead) := by
  have zeros (n : Nat) : Clear (List.replicate n '0') := clear_replicate n (by decide)
  have zero : isControl '0' = false := by decide
  have point : isControl '.' = false := by decide
  simp only [NumberLayout.place]
  split
  · split
    · simp only [clear_cons, clear_append, zero, point, zeros, h, and_self]
    · split
      · simp only [clear_cons, clear_append, clear_nil, zero, point, zeros, h, and_self]
      · simp only [clear_cons, clear_append, point, h.sublist (List.take_sublist _ _),
          h.sublist (List.drop_sublist _ _), and_self]
  · have sign : isControl (if lead < 0 then '-' else '+') = false := by split <;> decide
    rw [clear_append, clear_cons, clear_cons, clear_append]
    refine ⟨?_, by decide, sign, zeros _, digits_clear _⟩
    split
    · simp only [clear_cons] at h ⊢
      exact ⟨h.1, point, h.2⟩
    · exact h

theorem number_clear (l : NumberLayout) (x : Binary64) (nan : Clear l.nan.toList)
    (infinity : Clear l.infinity.toList) : Clear (l.text x).toList := by
  rw [NumberLayout.text]
  split
  · exact nan
  next negative _ =>
    rw [String.toList_append, clear_append]
    exact ⟨by cases negative <;> exact clear_of_all (by decide), infinity⟩
  next negative m q _ =>
    simp only [String.toList_ofList, clear_append]
    refine ⟨by cases negative <;> exact clear_of_all (by decide), ?_⟩
    split
    · exact clear_of_all (by decide)
    · exact place_clear l (digits_clear _) _

end Text

open Text

/-! ### JSON -/

namespace Json

theorem writeChar_clear (c : Char) : Clear (writeChar c) := by
  rw [writeChar]
  cases escaped : escape? c with
  | none =>
      simp only [Option.getD_none, clear_cons, clear_nil, and_true]
      refine isControl_of_le (Nat.le_of_not_lt fun low => ?_)
      unfold escape? at escaped
      split at escaped <;> simp [low] at escaped
  | some e =>
      simp only [Option.getD_some]
      unfold escape? at escaped
      split at escaped <;> simp only [Option.some.injEq, Option.ite_none_right_eq_some] at escaped
      case h_8 =>
        obtain ⟨-, rfl⟩ := escaped
        simp only [clear_cons, (hexDigits_clear 4 _).1, and_true]
        decide
      all_goals subst escaped; exact clear_of_all (by decide)

theorem writeString_clear (s : String) : Clear (writeString s) := by
  rw [writeString, clear_cons, clear_append]
  exact ⟨by decide, .flatMap fun c _ => writeChar_clear c, clear_of_all (by decide)⟩

theorem lineStart_clear (level : Nat) : Clear (lineStart level) := by
  rw [lineStart, clear_cons]
  exact ⟨by decide, clear_replicate _ (by decide)⟩

mutual

theorem write_clear (level : Nat) : (j : Json) → Clear (write level j)
  | .null => by rw [write]; exact clear_of_all (by decide)
  | .bool b => by rw [write]; cases b <;> exact clear_of_all (by decide)
  | .int i => by rw [write]; exact int_clear i
  | .float x => by
      rw [write]
      exact number_clear _ x (clear_of_all (by decide)) (clear_of_all (by decide))
  | .str s => by rw [write]; exact writeString_clear s
  | .arr [] => by rw [write]; exact clear_of_all (by decide)
  | .arr (x :: xs) => by
      simp only [write, clear_cons, clear_append, clear_nil, lineStart_clear,
        write_clear (level + 1) x, writeItems_clear (level + 1) xs]
      decide
  | .obj [] => by rw [write]; exact clear_of_all (by decide)
  | .obj ((k, v) :: ms) => by
      simp only [write, clear_cons, clear_append, clear_nil, lineStart_clear, writeString_clear,
        write_clear (level + 1) v, writeMembers_clear (level + 1) ms]
      decide

theorem writeItems_clear (level : Nat) : (xs : List Json) → Clear (writeItems level xs)
  | [] => by rw [writeItems]; exact clear_nil
  | x :: xs => by
      simp only [writeItems, clear_cons, clear_append, lineStart_clear, write_clear level x,
        writeItems_clear level xs]
      decide

theorem writeMembers_clear (level : Nat) :
    (ms : List (String × Json)) → Clear (writeMembers level ms)
  | [] => by rw [writeMembers]; exact clear_nil
  | (k, v) :: ms => by
      simp only [writeMembers, clear_cons, clear_append, clear_nil, lineStart_clear,
        writeString_clear, write_clear level v, writeMembers_clear level ms]
      decide

end

theorem render_clear (j : Json) : Clear (render j).toList := by
  rw [render, String.toList_ofList, clear_append]
  exact ⟨write_clear 0 j, clear_of_all (by decide)⟩

end Json

/-! ### YAML scalars -/

namespace Yaml

/-- A control character needs an escape. -/
theorem isControl_of_needsEscape {c : Char} (h : Style.needsEscape c = false) :
    isControl c = false := by
  by_cases low : c.toNat < 0x20
  · by_cases feed : c = '\n'
    · rw [feed]
      decide
    · have beyond (n : Nat) (hn : 0x20 ≤ n) : ¬ n ≤ c.toNat := by omega
      have next : c.toNat ≠ 0x85 := by omega
      simp [Style.needsEscape, feed, beyond, next] at h
  · exact isControl_of_le (by omega)

/-- A text that stands without double quotes is clear. -/
theorem clear_of_style {cs : List Char} (h : Style.of cs ≠ .double) : Clear cs := by
  have escapeless : Style.needsDouble cs = false := by
    unfold Style.of at h
    split at h
    next plain => simp_all [Style.allowsPlain]
    · split at h
      next single => simp_all [Style.allowsSingle]
      · exact absurd rfl h
  simp only [Style.needsDouble, Bool.or_eq_false_iff, List.any_eq_false] at escapeless
  exact fun c hc => isControl_of_needsEscape (by simpa using escapeless.2 c hc)

namespace Folding

theorem blanks_clear (n : Nat) : Clear (blanks n) := clear_replicate n (by decide)

theorem newLine_clear (indent : Nat) : Clear (newLine indent) := by
  rw [newLine, clear_cons]
  exact ⟨by decide, blanks_clear indent⟩

theorem plain_clear (indent : Nat) {cs : List Char} (h : Clear cs) (before : Option Char)
    (column : Nat) : Clear (plain indent before column cs) := by
  induction cs generalizing before column with
  | nil => exact h
  | cons c rest ih =>
      obtain ⟨first, rest⟩ := clear_cons.mp h
      rw [plain]
      split
      · exact clear_append.mpr ⟨newLine_clear indent, ih rest _ _⟩
      · exact clear_cons.mpr ⟨first, ih rest _ _⟩

theorem single_clear (indent : Nat) {cs : List Char} (h : Clear cs) (before : Option Char)
    (column : Nat) : Clear (single indent before column cs) := by
  have quote : isControl '\x27' = false := by decide
  induction cs generalizing before column with
  | nil => exact h
  | cons c rest ih =>
      obtain ⟨first, rest⟩ := clear_cons.mp h
      have feed : Clear (if c = '\n' ∧ !before.any Style.isBreak then ['\n'] else []) := by
        split <;> exact clear_of_all (by decide)
      rw [single]
      split
      · extract_lets extra
        split
        · exact clear_append.mpr ⟨feed, clear_cons.mpr ⟨first, ih rest _ _⟩⟩
        · refine clear_append.mpr ⟨feed, clear_cons.mpr ⟨first, ?_⟩⟩
          exact clear_append.mpr ⟨blanks_clear indent, ih rest _ _⟩
      · split
        · exact clear_append.mpr ⟨newLine_clear indent, ih rest _ _⟩
        · split
          · exact clear_cons.mpr ⟨quote, clear_cons.mpr ⟨quote, ih rest _ _⟩⟩
          · exact clear_cons.mpr ⟨first, ih rest _ _⟩

theorem isControl_of_isRaw {c : Char} (h : isRaw c) : isControl c = false := by
  refine isControl_of_le ?_
  simp only [isRaw, Bool.and_eq_true, Bool.or_eq_true, decide_eq_true_eq] at h
  omega

theorem escape_clear (c : Char) : Clear (escape c) := by
  rw [escape]
  cases letter : letter? c with
  | some l =>
      have named : isControl l = false := by
        unfold letter? at letter
        split at letter <;> simp only [Option.some.injEq, reduceCtorEq] at letter <;>
          subst letter <;> decide
      simp only [clear_cons, named, clear_nil, and_true]
      decide
  | none =>
      obtain ⟨l, width, written, -, -, known⟩ := numericEscape_cases c
      have named : isControl l = false := by
        simp only [List.mem_cons, Prod.mk.injEq, List.not_mem_nil, or_false] at known
        rcases known with ⟨rfl, -⟩ | ⟨rfl, -⟩ | ⟨rfl, -⟩ <;> decide
      rw [written]
      simp only [clear_cons, named, (hexDigits_clear width _).2, and_true]
      decide

theorem double_clear (indent : Nat) (split first escaped : Bool) (column : Nat) (cs : List Char) :
    Clear (double indent split first escaped column cs) := by
  have slash : isControl '\\' = false := by decide
  have head (rest : List Char) : Clear (lineHead rest) := by
    rw [lineHead]
    split <;> exact clear_of_all (by decide)
  induction cs generalizing first escaped column with
  | nil => exact clear_nil
  | cons c rest ih =>
      rw [double]
      split
      next raw =>
        split
        · simp only [clear_cons, clear_append, slash, newLine_clear, head, isControl_of_isRaw raw,
            ih, and_self]
        · exact clear_cons.mpr ⟨isControl_of_isRaw raw, ih _ _ _⟩
      · extract_lets e front
        split
        · simp only [e, front, clear_cons, clear_append, slash, newLine_clear, head, escape_clear, ih,
            and_self]
        · exact clear_append.mpr ⟨escape_clear c, ih _ _ _⟩

/-- What does not have to be escaped must be clear by itself. -/
theorem text_clear {style : Style} {cs : List Char} (h : style ≠ .double → Clear cs)
    (split : Bool) (indent column : Nat) : Clear (text style split indent column cs) := by
  have quote : isControl '\x27' = false := by decide
  cases style with
  | plain =>
      have inside := h (by decide)
      cases split
      · exact inside
      · exact plain_clear indent inside _ _
  | single =>
      have inside := h (by decide)
      simp only [text, clear_cons, clear_append, quote, clear_nil, true_and, and_true]
      cases split
      · refine .flatMap fun c hc => ?_
        split
        · exact clear_of_all (by decide)
        · exact clear_cons.mpr ⟨inside c hc, clear_nil⟩
      · exact single_clear indent inside _ _
  | double =>
      simp only [text, clear_cons, clear_append, double_clear, clear_nil]
      decide

end Folding

theorem base64_clear (bs : List UInt8) : Clear (Text.Base64.lines bs) := by
  have letter (n : Nat) : isControl (Text.Base64.letter n) = false := by
    have each : ∀ k : Fin 64, isControl (Text.Base64.letter k) = false := by
      decide +kernel
    have := each ⟨n % 64, Nat.mod_lt n (by decide)⟩
    rwa [Text.Base64.letter, Nat.mod_mod] at this
  have equals : isControl '=' = false := by decide
  have groups (bs : List UInt8) : Clear (Text.Base64.groups bs) := by
    induction bs using Text.Base64.groups.induct <;>
      simp_all [Text.Base64.groups]
  induction bs using Text.Base64.lines.induct with
  | case1 => simp [Text.Base64.lines]
  | case2 bs nonempty ih =>
      rw [Text.Base64.lines, dif_neg nonempty, clear_append, clear_cons]
      exact ⟨groups _, by decide, ih⟩

namespace Scalar

theorem pointed_clear {cs : List Char} (h : Clear cs) : Clear (pointed cs) := by
  rw [pointed]
  split
  · exact h
  · refine .flatMap fun c hc => ?_
    split
    · exact clear_of_all (by decide)
    · exact clear_cons.mpr ⟨h c hc, clear_nil⟩

/-- The characters of every scalar but a text are clear. -/
theorem content_clear {s : Scalar} (h : ∀ t, s ≠ .text t) : Clear s.content := by
  cases s with
  | null => exact clear_of_all (by decide)
  | bool b => cases b <;> exact clear_of_all (by decide)
  | int i => exact int_clear i
  | float x =>
      exact pointed_clear (number_clear _ x (clear_of_all (by decide)) (clear_of_all (by decide)))
  | moment m => exact moment_clear m
  | text t => exact absurd rfl (h t)
  | binary bs => exact base64_clear bs

end Scalar

/-! ### YAML documents -/

namespace Form

theorem anchorName_clear (n : Nat) : Clear (anchorName n) := by
  rw [anchorName, String.toList_append, clear_append]
  exact ⟨clear_of_all (by decide), padded_clear 3 n⟩

/-- The mark of an anchor, as it stands before what it marks. -/
theorem anchor_clear (anchor : Option Nat) :
    Clear (anchorMark anchor) ∧ Clear (spaced (anchorMark anchor)) := by
  have mark : Clear (anchorMark anchor) := by
    cases anchor with
    | none => exact clear_nil
    | some n => exact clear_cons.mpr ⟨by decide, anchorName_clear n⟩
  refine ⟨mark, ?_⟩
  rw [spaced]
  split
  · exact clear_nil
  · exact clear_append.mpr ⟨mark, clear_of_all (by decide)⟩

/-- The mark of a type, as it stands before a scalar. -/
theorem typeMark_clear (s : Scalar) : Clear (spaced (typeMark s)) := by
  cases s with
  | binary bs =>
      change Clear (spaced "!!binary".toList)
      exact clear_of_all (by decide)
  | _ => exact clear_nil

theorem binaryText_clear (indent : Nat) {cs : List Char} (h : Clear cs) :
    Clear (binaryText indent cs) := by
  have lines (start : List Char) (hs : Clear start) : Clear (binaryText.lines indent cs start) := by
    induction cs generalizing start with
    | nil => exact clear_nil
    | cons c rest ih =>
        obtain ⟨first, rest⟩ := clear_cons.mp h
        rw [binaryText.lines, clear_append, clear_cons]
        refine ⟨hs, first, ih rest _ ?_⟩
        split
        · exact Folding.blanks_clear indent
        · exact clear_nil
  rw [binaryText]
  split
  · exact clear_of_all (by decide)
  · simp only [clear_cons, lines _ (Folding.blanks_clear indent)]
    decide

theorem scalarText_clear (s : Scalar) (split : Bool) (indent column : Nat) :
    Clear (scalarText s split indent column) := by
  cases s with
  | text t => exact Folding.text_clear (fun h => clear_of_style h) _ _ _
  | _ =>
      simp only [scalarText]
      exact Folding.text_clear (fun _ => Scalar.content_clear (by simp)) _ _ _

theorem scalarLine_clear (s : Scalar) (indent column : Nat) : Clear (scalarLine s indent column) := by
  have line : Clear (scalarText s true indent column ++ ['\n']) :=
    clear_append.mpr ⟨scalarText_clear s _ _ _, clear_of_all (by decide)⟩
  cases s with
  | binary bs => exact binaryText_clear indent (base64_clear bs)
  | _ => exact line

theorem keyText_clear (k : Form) : Clear (keyText k) := by
  cases k with
  | «alias» n => exact clear_cons.mpr ⟨by decide, anchorName_clear n⟩
  | scalar anchor s => exact clear_append.mpr ⟨(anchor_clear anchor).2, scalarText_clear s _ _ _⟩
  | sequence anchor _ => exact clear_append.mpr ⟨(anchor_clear anchor).2, clear_of_all (by decide)⟩
  | mapping anchor _ => exact clear_append.mpr ⟨(anchor_clear anchor).2, clear_of_all (by decide)⟩

theorem placed_clear (place : Place) (anchor : Option Nat) (indent : Nat) {lines : List Char}
    (h : Clear lines) : Clear (placed place anchor indent lines) := by
  rw [placed]
  split
  · exact clear_cons.mpr ⟨by decide, h.sublist (List.drop_sublist _ _)⟩
  · refine clear_append.mpr ⟨?_, clear_cons.mpr ⟨by decide, h⟩⟩
    split
    · exact clear_nil
    · exact clear_cons.mpr ⟨by decide, (anchor_clear anchor).1⟩

mutual

theorem write_clear (place : Place) (indent column : Nat) :
    (f : Form) → Clear (write place indent column f)
  | .alias n => by
      simp only [write, clear_cons, clear_append, anchorName_clear, clear_nil]
      decide
  | .scalar anchor s => by
      simp only [write, clear_cons, clear_append, (anchor_clear anchor).2, typeMark_clear,
        scalarLine_clear]
      decide
  | .sequence anchor [] => by
      simp only [write, clear_cons, clear_append, (anchor_clear anchor).2, clear_nil]
      decide
  | .sequence anchor (x :: xs) => by
      rw [write]
      exact placed_clear place anchor _ (writeItems_clear _ (x :: xs))
  | .mapping anchor [] => by
      simp only [write, clear_cons, clear_append, (anchor_clear anchor).2, clear_nil]
      decide
  | .mapping anchor (e :: es) => by
      rw [write]
      exact placed_clear place anchor _ (writeEntries_clear _ (e :: es))

theorem writeItems_clear (indent : Nat) : (xs : List Form) → Clear (writeItems indent xs)
  | [] => by rw [writeItems]; exact clear_nil
  | x :: xs => by
      simp only [writeItems, clear_append, clear_cons, Folding.blanks_clear,
        write_clear .item indent (indent + 1) x, writeItems_clear indent xs]
      decide

theorem writeEntries_clear (indent : Nat) :
    (es : List (Form × Form)) → Clear (writeEntries indent es)
  | [] => by rw [writeEntries]; exact clear_nil
  | (k, v) :: es => by
      have colon : isControl ':' = false := by decide
      have mark : isControl '?' = false := by decide
      rw [writeEntries, clear_append]
      refine ⟨?_, writeEntries_clear indent es⟩
      split
      · simp only [clear_append, clear_cons, Folding.blanks_clear, keyText_clear, colon,
          write_clear .value indent _ v, and_self]
      · simp only [clear_append, clear_cons, Folding.blanks_clear, colon, mark,
          write_clear .long indent _ k, write_clear .long indent _ v, and_self]

end

theorem document_clear (es : List (Form × Form)) : Clear (document es).toList := by
  rw [document, String.toList_ofList]
  split
  · exact clear_of_all (by decide)
  · exact writeEntries_clear 0 es

end Form

theorem Graph.render_clear {w : World} {a : Addr} {text : String} (h : render w a = .ok text) :
    Clear text.toList := by
  unfold render at h
  cases anchored : repeats w (.obj a) with
  | error f => simp [anchored, bind, Except.bind] at h
  | ok as =>
      simp only [anchored, bind, Except.bind] at h
      split at h <;> cases h <;> exact Form.document_clear _

end Yaml

/-! ### Rendering -/

namespace Document

theorem orFail_ok {α : Type} {r : Except Fault α} {w w' : World} {a : α}
    (h : (orFail r).run w = .ok a w') : r = .ok a := by
  cases r with
  | ok b => cases h; rfl
  | error f => cases h

/-- The text of a document is clear, whatever the document and the format. -/
theorem render_clear {doc format : Value} {text : String} {w w' : World}
    (h : (render doc format).run w = .ok text w') : Clear text.toList := by
  obtain ⟨_, w₁, -, h⟩ := Build.bind_ok h
  obtain ⟨_, w₂, -, h⟩ := Build.bind_ok h
  split at h
  · obtain ⟨es, w₃, -, h⟩ := Build.bind_ok h
    obtain ⟨a, w₄, -, h⟩ := Build.bind_ok h
    obtain ⟨w₅, w₆, -, h⟩ := Build.bind_ok h
    exact Yaml.Graph.render_clear (orFail_ok h)
  · obtain ⟨w₃, w₄, -, h⟩ := Build.bind_ok h
    obtain ⟨j, w₅, -, h⟩ := Build.bind_ok h
    cases h
    exact Json.render_clear j
  · cases h

end Document

namespace Cli.Terminal

theorem unixLines_of_clear {cs : List Char} (h : Clear cs) : unixLines cs = cs := by
  induction cs using unixLines.induct with
  | case1 rest _ => simp [isControl] at h
  | case2 c rest _ ih => rw [unixLines, ih (clear_cons.mp h).2]; assumption
  | case3 => rfl

/-- A clear text ends its lines as terminals do. -/
theorem lines_of_clear {s : String} (h : Clear s.toList) : lines s = s := by
  rw [lines, unixLines_of_clear h, String.ofList_toList]

/-- A clear text has no control sequences. -/
theorem plain_of_clear {s : String} (h : Clear s.toList) : plain s = s :=
  plain_of_no_escape fun hc => absurd (h _ hc) (by decide)

end Cli.Terminal

end OpenApiDoc
