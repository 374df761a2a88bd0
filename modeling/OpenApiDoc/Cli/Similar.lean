/-! # Similar names

Two texts are as similar as the share of their characters that lie in common pieces: the longest
common piece, and then in turn the common pieces on its left and on its right. A name that is not
known is answered with the known names that are similar enough. -/

namespace OpenApiDoc.Cli.Similar

/-- The length of the longest piece that both texts start with. -/
def commonStart : List Char → List Char → Nat
  | a :: as, b :: bs => if a = b then commonStart as bs + 1 else 0
  | _, _ => 0

/-- A common piece: where it starts in both texts, and its length. -/
structure Piece where
  left : Nat
  right : Nat
  length : Nat

/-- The longest common piece; of several, the leftmost in the first text and then in the second. -/
def longest (a b : List Char) : Piece :=
  let starts := (List.range a.length).flatMap fun i => (List.range b.length).map fun j => (i, j)
  starts.foldl (fun best (i, j) =>
    let n := commonStart (a.drop i) (b.drop j)
    if best.length < n then ⟨i, j, n⟩ else best) ⟨0, 0, 0⟩

/-- The number of characters in common pieces. The fuel bounds the number of pieces cut off. -/
def common : Nat → List Char → List Char → Nat
  | 0, _, _ => 0
  | fuel + 1, a, b =>
    let p := longest a b
    if p.length = 0 then 0
    else
      common fuel (a.take p.left) (b.take p.right) + p.length
        + common fuel (a.drop (p.left + p.length)) (b.drop (p.right + p.length))

/-- At least three fifths of the characters of both texts are in common pieces. -/
def isClose (name known : String) : Bool :=
  let a := known.toList
  let b := name.toList
  6 * (a.length + b.length) ≤ 10 * (2 * common (a.length + 1) a b)

/-- The known names that are close to a name. -/
def closeTo (name : String) (known : List String) : List String := known.filter (isClose name)

end OpenApiDoc.Cli.Similar
