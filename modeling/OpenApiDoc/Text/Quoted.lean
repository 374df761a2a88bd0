import OpenApiDoc.Text.Printable

/-! # Quoted text

Text and bytes are shown between single quotes, or between double quotes when they hold a single
quote and no double one. The quote in use, the backslash and everything that is not printable is
escaped. -/

namespace OpenApiDoc.Text

/-- The lower-case hexadecimal digits of `n`, padded on the left to `width`. -/
def hexDigits (width n : Nat) : List Char :=
  let ds := Nat.toDigits 16 n
  List.replicate (width - ds.length) '0' ++ ds

/-- The quote put around `cs`. -/
def quoteFor (cs : List Char) : Char :=
  if cs.contains '\x27' && !cs.contains '"' then '"' else '\x27'

/-- The short escape of a character that has one. -/
def shortEscape? : Char → Option Char
  | '\\' => some '\\'
  | '\n' => some 'n'
  | '\r' => some 'r'
  | '\t' => some 't'
  | _ => none

/-- A numeric escape with two, four or eight hexadecimal digits, whichever suffices, in the given
case. -/
def numericEscape (inCase : Char → Char) (c : Char) : List Char :=
  let n := c.toNat
  let digits (width : Nat) := (hexDigits width n).map inCase
  if n < 0x100 then '\\' :: 'x' :: digits 2
  else if n < 0x10000 then '\\' :: 'u' :: digits 4
  else '\\' :: 'U' :: digits 8

/-- One character inside quotes. -/
def escaped (quote c : Char) : List Char :=
  if c = quote then ['\\', c]
  else match shortEscape? c with
    | some l => ['\\', l]
    | none => if isPrintable c then [c] else numericEscape id c

/-- A text between quotes. -/
def quoted (s : String) : String :=
  let cs := s.toList
  let q := quoteFor cs
  String.ofList (q :: (cs.flatMap (escaped q) ++ [q]))

/-- One byte inside quotes: printable ASCII stands for itself. -/
def escapedByte (quote : Char) (b : UInt8) : List Char :=
  let c := Char.ofNat b.toNat
  if c = quote then ['\\', c]
  else match shortEscape? c with
    | some l => ['\\', l]
    | none => if 32 ≤ b.toNat ∧ b.toNat < 127 then [c] else '\\' :: 'x' :: hexDigits 2 b.toNat

/-- Bytes between quotes, marked by a leading `b`. -/
def quotedBytes (bs : List UInt8) : String :=
  let q := quoteFor (bs.map fun b => Char.ofNat b.toNat)
  String.ofList ('b' :: q :: (bs.flatMap (escapedByte q) ++ [q]))

/-- The text that bytes encode in UTF-8, if they do. -/
def ofUtf8? (bs : List UInt8) : Option String := String.fromUTF8? ⟨bs.toArray⟩

end OpenApiDoc.Text
