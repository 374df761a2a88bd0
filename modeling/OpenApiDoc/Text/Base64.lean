/-! # Base64 in lines

Bytes as text over sixty-four letters: three bytes give four letters, the last group is padded with
`=`, and every fifty-seven bytes end a line. -/

namespace OpenApiDoc.Text.Base64

def alphabet : List Char :=
  "ABCDEFGHIJKLMNOPQRSTUVWXYZabcdefghijklmnopqrstuvwxyz0123456789+/".toList

/-- The letter for the low six bits of `n`. -/
def letter (n : Nat) : Char := alphabet.getD (n % 64) 'A'

/-- Groups of three bytes as four letters. -/
def groups : List UInt8 → List Char
  | a :: b :: c :: rest =>
    let n := (a.toNat * 256 + b.toNat) * 256 + c.toNat
    letter (n / 262144) :: letter (n / 4096) :: letter (n / 64) :: letter n :: groups rest
  | [a, b] =>
    let n := (a.toNat * 256 + b.toNat) * 256
    [letter (n / 262144), letter (n / 4096), letter (n / 64), '=']
  | [a] =>
    let n := a.toNat * 65536
    [letter (n / 262144), letter (n / 4096), '=', '=']
  | [] => []

/-- Bytes to a line. -/
def lineBytes : Nat := 57

/-- Every line with the line feed that ends it; no bytes give no line. -/
def lines (bs : List UInt8) : List Char :=
  if _h : bs = [] then []
  else groups (bs.take lineBytes) ++ '\n' :: lines (bs.drop lineBytes)
termination_by bs.length
decreasing_by
  have := List.length_pos_iff.2 _h
  simp only [List.length_drop, lineBytes]
  omega

end OpenApiDoc.Text.Base64
