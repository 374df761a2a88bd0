/-! # Long texts by their ends

A text that is longer than a limit is shown by its two ends. Lengths are counted in the bytes of
UTF-8; a character that would be cut in two is left out. -/

namespace OpenApiDoc.Text

/-- The characters at the front that fit into a number of bytes. -/
def takeBytes : Nat → List Char → List Char
  | _, [] => []
  | n, c :: cs => if c.utf8Size ≤ n then c :: takeBytes (n - c.utf8Size) cs else []

/-- A text of at most `limit` bytes, or its ends with dots between them; the front gets one byte
more than the back. -/
def elided (limit : Nat) (s : String) : String :=
  if s.utf8ByteSize ≤ limit then s
  else
    let half := (limit + 1) / 2
    String.ofList (takeBytes half s.toList) ++ "..."
      ++ String.ofList (takeBytes (half - 1) s.toList.reverse).reverse

end OpenApiDoc.Text
