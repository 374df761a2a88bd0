/-! # Double-precision numbers as bit patterns

A number is held as its 64 bits, so that two numbers can be told apart exactly and every question
about its value is a question about the integers it decodes to.

* `Binary64.parts` decodes the bits: not a number, an infinity, or a sign with `m * 2 ^ q`.
* `Binary64.ofDecimal` is the number nearest to `digits * 10 ^ exponent`, ties to the even
  significand, computed with exact natural-number arithmetic.
* `Binary64.sameNumber` and `Binary64.equalsInt` compare values: the two zeros are equal, and a
  pattern that is not a number equals nothing. -/

namespace OpenApiDoc

/-- A double-precision number, by its bits. -/
structure Binary64 where
  bits : UInt64
deriving DecidableEq, Repr

namespace Binary64

/-- What a bit pattern stands for; a finite number is `m * 2 ^ q`, negated if `negative`. -/
inductive Parts where
  | nan
  | infinite (negative : Bool)
  | finite (negative : Bool) (m : Nat) (q : Int)
deriving DecidableEq, Repr

def negative (x : Binary64) : Bool := x.bits.toNat / Nat.pow 2 63 = 1

/-- The biased exponent, eleven bits. -/
def exponentField (x : Binary64) : Nat := x.bits.toNat / Nat.pow 2 52 % 2048

/-- The low fifty-two bits of the significand. -/
def fraction (x : Binary64) : Nat := x.bits.toNat % Nat.pow 2 52

def parts (x : Binary64) : Parts :=
  let e := x.exponentField
  let f := x.fraction
  if e = 2047 then (if f = 0 then .infinite x.negative else .nan)
  else if e = 0 then .finite x.negative f (-1074)
  else .finite x.negative (Nat.pow 2 52 + f) ((e : Int) - 1075)

/-- Put the three fields together. -/
def ofFields (negative : Bool) (exponentField fraction : Nat) : Binary64 :=
  ⟨UInt64.ofNat ((if negative then Nat.pow 2 63 else 0) + exponentField * Nat.pow 2 52 + fraction)⟩

def infinity (negative : Bool) : Binary64 := ofFields negative 2047 0

def zero (negative : Bool) : Binary64 := ofFields negative 0 0

/-- A pattern that is not a number, told apart from others by its payload. -/
def notANumber (payload : Nat) : Binary64 :=
  ofFields false 2047 (Nat.pow 2 51 + payload % Nat.pow 2 51)

def isNaN (x : Binary64) : Bool := x.parts = .nan

/-- The quotient `n / d` rounded to the nearest integer, a tie to the even one. -/
def roundHalfEven (n d : Nat) : Nat :=
  let q := n / d
  let r := n % d
  if 2 * r < d then q
  else if d < 2 * r then q + 1
  else if q % 2 = 0 then q else q + 1

/-- The exponent `q` for which `n / d` has fifty-three significant bits in units of `2 ^ q`, but not
below the exponent of the least positive number. -/
def scaleOf (n d : Nat) : Int :=
  let guess : Int := (n.log2 : Int) - (d.log2 : Int) - 52
  -- the guess is right or one too large
  let fits (q : Int) : Bool := d * Nat.pow 2 (q.toNat + 52) ≤ n * Nat.pow 2 (-q).toNat
  max (-1074) (if fits guess then guess else guess - 1)

/-- The number nearest to the positive quotient `n / d`. -/
def ofQuotient (negative : Bool) (n d : Nat) : Binary64 :=
  let q := scaleOf n d
  let m := roundHalfEven (n * Nat.pow 2 (-q).toNat) (d * Nat.pow 2 q.toNat)
  let (m, q) := if m = Nat.pow 2 53 then (Nat.pow 2 52, q + 1) else (m, q)
  if m < Nat.pow 2 52 then ofFields negative 0 m
  else if 971 < q then infinity negative
  else ofFields negative (q + 1075).toNat (m - Nat.pow 2 52)

/-- The number nearest to `digits * 10 ^ exponent`, with the given sign. -/
def ofDecimal (negative : Bool) (digits : Nat) (exponent : Int) : Binary64 :=
  if digits = 0 then zero negative
  else ofQuotient negative (digits * Nat.pow 10 exponent.toNat) (Nat.pow 10 (-exponent).toNat)

/-- Zero of either sign. -/
def isZero (x : Binary64) : Bool :=
  match x.parts with
  | .finite _ 0 _ => true
  | _ => false

/-- Both patterns are numbers and the numbers are equal; the two zeros are one number. -/
def sameNumber (x y : Binary64) : Bool :=
  !x.isNaN && !y.isNaN && (x == y || (x.isZero && y.isZero))

/-- The pattern stands for exactly this integer. -/
def equalsInt (x : Binary64) (i : Int) : Bool :=
  match x.parts with
  | .finite negative m q =>
    let signed : Int := if negative then -(m : Int) else m
    signed * Nat.pow 2 q.toNat == i * Nat.pow 2 (-q).toNat
  | _ => false

end Binary64
end OpenApiDoc
