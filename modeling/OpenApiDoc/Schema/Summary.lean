import OpenApiDoc.Tree

/-! # What constructors say about themselves -/

namespace OpenApiDoc.Constructor

/-- The kind of value a leaf stands for: its format, or its type. -/
def leafKind? : Constructor → Option String
  | .boolean => some "boolean"
  | .integer => some "integer"
  | .number => some "number"
  | .string => some "string"
  | .date => some "date"
  | .dateTime => some "date-time"
  | .binary => some "binary"
  | .email => some "email"
  | .uuid => some "uuid"
  | .uri => some "uri"
  | _ => none

/-- The description of a constructor. -/
def summary (c : Constructor) : String :=
  match c.leafKind?, c with
  | some kind, _ => "Schema for a " ++ kind ++ " value."
  | none, .pattern => "String schema constrained by a regular expression's source text."
  | none, .constant => "Schema accepting exactly one value."
  | none, .choice =>
    "Enumeration whose description lists every value with its meaning.\n\n"
      ++ "    \x60\x60values\x60\x60 maps each allowed value to a human-readable description; the\n"
      ++ "    mapping's order is kept for both \x60\x60enum\x60\x60 and the description lines.\n    "
  | none, .ref =>
    "\x60\x60$ref\x60\x60 to a component schema; the pointer is emitted, never resolved."
  | none, .array =>
    "Array of \x60\x60items\x60\x60. The optionality of \x60\x60items\x60\x60 has no effect."
  | none, _ =>
    "Closed object schema.\n\n"
      ++ "    Properties are emitted in declaration order. Each property whose node is\n"
      ++ "    not optional is listed in \x60\x60required\x60\x60; the key is omitted when the list\n"
      ++ "    would be empty. \x60\x60required\x60\x60 is derived before \x60\x60extra\x60\x60 is merged, so an\n"
      ++ "    explicit \x60\x60extra[\"required\"]\x60\x60 replaces it.\n    "

end OpenApiDoc.Constructor
