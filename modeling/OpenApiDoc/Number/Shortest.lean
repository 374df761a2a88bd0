import OpenApiDoc.Number.Binary64

/-! # The fewest decimal digits that identify a number

Every finite number is nearest to all reals of an interval around it, whose ends belong to it when
its significand is even. `Decimal.shortest` finds the decimal with the fewest digits in that
interval: for one digit, two digits and so on it takes the two neighbours of the number on the
decimal grid and asks whether either of them lies in the interval. The nearer of two hits is taken,
and an exact tie goes to the even digit. -/

namespace OpenApiDoc

/-- The decimal `digits * 10 ^ exponent`. -/
structure Decimal where
  digits : Nat
  exponent : Int
deriving DecidableEq, Repr

namespace Decimal

/-- The order of `a * 10 ^ i` and `n * 2 ^ j`. -/
def compareScaled (a : Nat) (i : Int) (n : Nat) (j : Int) : Ordering :=
  compare (a * Nat.pow 10 i.toNat * Nat.pow 2 (-j).toNat)
    (n * Nat.pow 2 j.toNat * Nat.pow 10 (-i).toNat)

/-- The decimal lies among the reals that are nearest to `m * 2 ^ q`. The gap to the number below a
power of two is half the gap above it. -/
def readsBack (m : Nat) (q : Int) (d : Decimal) : Bool :=
  let low := if m = Nat.pow 2 52 ∧ -1074 < q then 4 * m - 1 else 4 * m - 2
  let atLow := compareScaled d.digits d.exponent low (q - 2)
  let atHigh := compareScaled d.digits d.exponent (4 * m + 2) (q - 2)
  let closed := m % 2 == 0
  (atLow == .gt || (closed && atLow == .eq)) && (atHigh == .lt || (closed && atHigh == .eq))

/-- The least `k` with `m * 2 ^ q < 10 ^ k`, for positive `m`. -/
def magnitude (m : Nat) (q : Int) : Int :=
  let binary : Int := (m.log2 : Int) + q
  let guess := binary * 30103 / 100000 - 1
  let below (k : Int) : Bool := compareScaled 1 k m q == .gt
  ((List.range 5).map (fun i : Nat => guess + i)).find? below |>.getD (guess + 5)

/-- The neighbours of `m * 2 ^ q` on the grid of multiples of `10 ^ e`, tried in the order of their
distance; the first that reads back. -/
def onGrid (m : Nat) (q : Int) (e : Int) : Option Decimal :=
  let num := m * Nat.pow 2 q.toNat * Nat.pow 10 (-e).toNat
  let den := Nat.pow 2 (-q).toNat * Nat.pow 10 e.toNat
  let floor := num / den
  let rest := num % den
  let upFirst := den < 2 * rest || (den == 2 * rest && floor % 2 == 1)
  let near : Decimal := ⟨if upFirst then floor + 1 else floor, e⟩
  let far : Decimal := ⟨if upFirst then floor else floor + 1, e⟩
  [near, far].find? (readsBack m q)

/-- Move trailing zeros of the digits into the exponent, at most as many as the fuel allows. -/
def stripZeros : Nat → Decimal → Decimal
  | 0, d => d
  | fuel + 1, d =>
    if d.digits ≠ 0 ∧ d.digits % 10 = 0 then stripZeros fuel ⟨d.digits / 10, d.exponent + 1⟩ else d

/-- The shortest decimal that reads back as `m * 2 ^ q`, for positive `m`. -/
def shortest (m : Nat) (q : Int) : Decimal :=
  let k := magnitude m q
  let hit := (List.range 17).findSome? fun i : Nat => onGrid m q (k - (i + 1))
  let whole := m * Nat.pow 2 q.toNat * Nat.pow 5 (-q).toNat
  stripZeros 400 (hit.getD ⟨whole, -((-q).toNat : Int)⟩)

end Decimal

/-- How a number is laid out: the exponents of the leading digit from `plainFrom` up to but not
including `plainBelow` are written positionally, the others with an exponent of at least
`exponentWidth` digits. -/
structure NumberLayout where
  plainFrom : Int
  plainBelow : Int
  exponentWidth : Nat
  nan : String
  infinity : String

namespace NumberLayout

def digitText (n : Nat) : List Char := (Nat.repr n).toList

/-- A positional or scientific layout of the digits `ds`, whose leading digit counts `10 ^ lead`. -/
def place (l : NumberLayout) (ds : List Char) (lead : Int) : List Char :=
  if l.plainFrom ≤ lead ∧ lead < l.plainBelow then
    if lead < 0 then '0' :: '.' :: (List.replicate (-lead - 1).toNat '0' ++ ds)
    else
      let whole := lead.toNat + 1
      if ds.length ≤ whole then ds ++ List.replicate (whole - ds.length) '0' ++ ['.', '0']
      else ds.take whole ++ '.' :: ds.drop whole
  else
    let mantissa := match ds with
      | d :: (r :: rs) => d :: '.' :: r :: rs
      | short => short
    let size := digitText lead.natAbs
    mantissa ++ 'e' :: (if lead < 0 then '-' else '+')
      :: (List.replicate (l.exponentWidth - size.length) '0' ++ size)

/-- The text of a number; zero keeps its sign. -/
def text (l : NumberLayout) (x : Binary64) : String :=
  match x.parts with
  | .nan => l.nan
  | .infinite negative => (if negative then "-" else "") ++ l.infinity
  | .finite negative m q =>
    let sign := if negative then ['-'] else []
    let body :=
      if m = 0 then ['0', '.', '0']
      else
        let d := Decimal.shortest m q
        let ds := digitText d.digits
        l.place ds (d.exponent + (ds.length : Int) - 1)
    String.ofList (sign ++ body)

end NumberLayout

/-- Numbers are shown with the fewest digits that identify them: positionally from `0.0001` up to
but not including `10 ^ 16`, otherwise with a signed exponent of at least two digits. -/
def shownNumber : NumberLayout where
  plainFrom := -4
  plainBelow := 16
  exponentWidth := 2
  nan := "nan"
  infinity := "inf"

end OpenApiDoc
