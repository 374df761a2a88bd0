import OpenApiDoc.Builder.Call
import OpenApiDoc.Proofs.Nodes

/-! # Terms and their meaning

Schemas as an author writes them, apart from the store.

* `NodeTerm` is a call of a constructor, a modifier or a merge, `SchemaTerm` also a plain mapping, and
  `DataTerm` any value in which further terms may occur.
* `NodeTerm.meaning` is the ordered schema and the flag of a term, by recursion on the term.
* `NodeTerm.build` makes the calls that the term stands for. -/

namespace OpenApiDoc

/-- Constructors that describe a value without parts. -/
inductive Leaf where
  | boolean | integer | number | string | date | dateTime | binary | email | uuid | uri

/-- A value that can be a key of a mapping. -/
inductive KeyTerm where
  | atom (a : Atom)
  | moment (m : Moment)
  | tuple (items : List KeyTerm)

mutual

/-- A call that makes a node. -/
inductive NodeTerm where
  | leaf (kind : Leaf) (variant : Variant) (description : Option String)
      (extra : List (String × DataTerm))
  | pattern (source : String) (compiled : Bool) (variant : Variant) (description : Option String)
      (extra : List (String × DataTerm))
  | constant (value : DataTerm) (variant : Variant) (description : Option String)
      (extra : List (String × DataTerm))
  | choice (first : KeyTerm × DataTerm) (rest : List (KeyTerm × DataTerm)) (variant : Variant)
      (extra : List (String × DataTerm))
  | ref (target : String) (variant : Variant)
  | array (items : SchemaTerm) (variant : Variant) (description : Option String)
      (extra : List (String × DataTerm))
  | object (properties : List (String × SchemaTerm)) (variant : Variant)
      (description : Option String) (extra : List (String × DataTerm))
  | optional (t : NodeTerm)
  | required (t : NodeTerm)
  | nullable (t : NodeTerm)
  | merge (t : NodeTerm) (extra : List (String × DataTerm))

/-- A node, or a mapping from names that stands for a schema as it is. -/
inductive SchemaTerm where
  | node (t : NodeTerm)
  | mapping (entries : List (String × DataTerm))

/-- A value, in which nodes may occur. -/
inductive DataTerm where
  | atom (a : Atom)
  | moment (m : Moment)
  | list (items : List DataTerm)
  | tuple (items : List DataTerm)
  | mapping (entries : List (String × DataTerm))
  | node (t : NodeTerm)

end

/-! ### Meaning -/

namespace Leaf

def constructor : Leaf → Constructor
  | .boolean => .boolean
  | .integer => .integer
  | .number => .number
  | .string => .string
  | .date => .date
  | .dateTime => .dateTime
  | .binary => .binary
  | .email => .email
  | .uuid => .uuid
  | .uri => .uri

def type : Leaf → String
  | .boolean => "boolean"
  | .integer => "integer"
  | .number => "number"
  | _ => "string"

def format : Leaf → Option String
  | .date => some "date"
  | .dateTime => some "date-time"
  | .binary => some "binary"
  | .email => some "email"
  | .uuid => some "uuid"
  | .uri => some "uri"
  | _ => none

end Leaf

/-- The flag that a variant gives to a node. -/
def Variant.flag : Variant → Bool
  | .optional => true
  | _ => false

namespace Tree

/-- A text that may be absent. -/
def text? (s : Option String) : Tree := s.elim .none .str

/-- The name of the type of a value in a schema. -/
def jsonType : Tree → Option String
  | .atom (.bool _) => some "boolean"
  | .atom (.int _) => some "integer"
  | .atom (.float _) => some "number"
  | .atom (.str _) => some "string"
  | _ => Option.none

/-- The type that all keys have. -/
def commonType : List Tree → Option String
  | [] => Option.none
  | k :: rest => if rest.all fun l => l.jsonType == k.jsonType then k.jsonType else Option.none

end Tree

/-- The ordered fields of a schema, and the flag. -/
structure Meaning where
  fields : List (String × Tree)
  optional : Bool

namespace Meaning

def tree (m : Meaning) : Tree := .record m.fields

/-- What a constructor means that generates some fields and is given further ones. -/
def generated (v : Variant) (fields extra : List (String × Tree)) : Meaning where
  fields := Entries.overlayNames (Schema.present fields) extra
  optional := v.flag

/-- The fields that a choice generates from its values and their meanings. -/
def choiceFields (entries : List (Tree × Tree)) : List (String × Tree) :=
  [("type", .text? (Tree.commonType (entries.map (·.1)))),
   ("description", .str ("\n".intercalate (entries.map fun e =>
      "* \x60" ++ e.1.text ++ "\x60 - " ++ e.2.text))),
   ("enum", .list (entries.map fun e => e.1.plain))]

/-- The fields that an object generates from its properties. -/
def objectFields (properties : List (String × Meaning)) (description : Option String) :
    List (String × Tree) :=
  let needed := (properties.filter fun p => !p.2.optional).map fun p => Tree.str p.1
  [("type", .str "object"), ("additionalProperties", .bool false),
   ("required", if needed.isEmpty then .none else .list needed),
   ("properties", .record (properties.map fun p => (p.1, p.2.tree))),
   ("description", .text? description)]

end Meaning

mutual

def KeyTerm.view : KeyTerm → Tree
  | .atom a => .atom a
  | .moment m => .moment m
  | .tuple ks => .tuple (KeyTerm.views ks)

def KeyTerm.views : List KeyTerm → List Tree
  | [] => []
  | k :: ks => k.view :: KeyTerm.views ks

end

mutual

/-- The ordered schema and the flag of a term. -/
def NodeTerm.meaning : NodeTerm → Meaning
  | .leaf kind v description extra =>
    .generated v
      [("type", .str kind.type), ("format", .text? kind.format), ("description", .text? description)]
      (Entries.literal (DataTerm.plainFields extra))
  | .pattern source _ v description extra =>
    .generated v
      [("type", .str "string"), ("description", .text? description), ("pattern", .str source)]
      (Entries.literal (DataTerm.plainFields extra))
  | .constant value v description extra =>
    .generated v
      [("type", .text? value.view.jsonType), ("description", .text? description),
       ("enum", .list [value.plain])]
      (Entries.literal (DataTerm.plainFields extra))
  | .choice first rest v extra =>
    .generated v
      (Meaning.choiceFields (Entries.overlay Tree.same []
        ((first.1.view, first.2.view) :: DataTerm.viewEntries rest)))
      (Entries.literal (DataTerm.plainFields extra))
  | .ref target v => ⟨[("$ref", .str (Schema.pointer target))], v.flag⟩
  | .array items v description extra =>
    .generated v
      [("type", .str "array"), ("description", .text? description), ("items", items.meaning.tree)]
      (Entries.literal (DataTerm.plainFields extra))
  | .object properties v description extra =>
    .generated v
      (Meaning.objectFields (Entries.literal (SchemaTerm.meanings properties)) description)
      (Entries.literal (DataTerm.plainFields extra))
  | .optional t => { t.meaning with optional := true }
  | .required t => { t.meaning with optional := false }
  | .nullable t =>
    { t.meaning with
      fields := Entries.overlayNames t.meaning.fields [("nullable", .bool true)] }
  | .merge t extra =>
    { t.meaning with
      fields := Entries.overlayNames t.meaning.fields
        (Entries.literal (DataTerm.plainFields extra)) }

/-- The ordered schema that a term stands for; a plain mapping is not optional. -/
def SchemaTerm.meaning : SchemaTerm → Meaning
  | .node t => t.meaning
  | .mapping es => ⟨Entries.literal (DataTerm.plainFields es), false⟩

def SchemaTerm.meanings : List (String × SchemaTerm) → List (String × Meaning)
  | [] => []
  | (name, s) :: ss => (name, s.meaning) :: SchemaTerm.meanings ss

/-- The schema in place of each node, and lists in place of tuples. -/
def DataTerm.plain : DataTerm → Tree
  | .atom a => .atom a
  | .moment m => .moment m
  | .list xs => .list (DataTerm.plainAll xs)
  | .tuple xs => .list (DataTerm.plainAll xs)
  | .mapping es => .record (Entries.literal (DataTerm.plainFields es))
  | .node t => t.meaning.tree

def DataTerm.plainAll : List DataTerm → List Tree
  | [] => []
  | d :: ds => d.plain :: DataTerm.plainAll ds

def DataTerm.plainFields : List (String × DataTerm) → List (String × Tree)
  | [] => []
  | (name, d) :: ds => (name, d.plain) :: DataTerm.plainFields ds

/-- The value with the records of its nodes, as it is inserted into text. -/
def DataTerm.view : DataTerm → Tree
  | .atom a => .atom a
  | .moment m => .moment m
  | .list xs => .list (DataTerm.viewAll xs)
  | .tuple xs => .tuple (DataTerm.viewAll xs)
  | .mapping es => .record (Entries.literal (DataTerm.viewFields es))
  | .node t => .node t.meaning.fields t.meaning.optional

def DataTerm.viewAll : List DataTerm → List Tree
  | [] => []
  | d :: ds => d.view :: DataTerm.viewAll ds

def DataTerm.viewFields : List (String × DataTerm) → List (String × Tree)
  | [] => []
  | (name, d) :: ds => (name, d.view) :: DataTerm.viewFields ds

def DataTerm.viewEntries : List (KeyTerm × DataTerm) → List (Tree × Tree)
  | [] => []
  | (k, d) :: ds => (k.view, d.view) :: DataTerm.viewEntries ds

end

/-! ### Building -/

/-- A new mapping from names, written out. -/
def Build.literal (fs : List (String × Value)) : Build Value :=
  Build.newMapping (Entries.named (Entries.literal fs))

mutual

def KeyTerm.build : KeyTerm → Build Value
  | .atom a => return .atom a
  | .moment m => return .obj (← Build.new (.moment m))
  | .tuple ks => do Build.newTuple (← KeyTerm.buildAll ks)

def KeyTerm.buildAll : List KeyTerm → Build (List Value)
  | [] => return []
  | k :: ks => return (← k.build) :: (← KeyTerm.buildAll ks)

end

section build

variable (load : Value → Build Value)

mutual

/-- Call what the term stands for, after its parts have been built from left to right. -/
def NodeTerm.build : NodeTerm → Build Value
  | .leaf kind v description extra => do
    let extra ← Build.literal (← DataTerm.buildFields extra)
    Call.invoke load (.construct kind.constructor v) [Schema.textOrNone description, extra] []
  | .pattern source compiled v description extra => do
    let extra ← Build.literal (← DataTerm.buildFields extra)
    let regex := if compiled then .atom (.pattern source) else .str source
    Call.invoke load (.construct .pattern v) [regex, Schema.textOrNone description, extra] []
  | .constant value v description extra => do
    let value ← value.build
    let extra ← Build.literal (← DataTerm.buildFields extra)
    Call.invoke load (.construct .constant v) [value, Schema.textOrNone description, extra] []
  | .choice first rest v extra => do
    let key ← first.1.build
    let meaning ← first.2.build
    let es ← DataTerm.buildEntries rest
    let values ← Build.newMapping
      (Entries.overlay (← get).sameKey [] ((key, meaning) :: es))
    let extra ← Build.literal (← DataTerm.buildFields extra)
    Call.invoke load (.construct .choice v) [values, extra] []
  | .ref target v => Call.invoke load (.construct .ref v) [.str target] []
  | .array items v description extra => do
    let items ← items.build
    let extra ← Build.literal (← DataTerm.buildFields extra)
    Call.invoke load (.construct .array v) [items, Schema.textOrNone description, extra] []
  | .object properties v description extra => do
    let properties ← Build.literal (← SchemaTerm.buildFields properties)
    let extra ← Build.literal (← DataTerm.buildFields extra)
    Call.invoke load (.construct .object v) [properties, Schema.textOrNone description, extra] []
  | .optional t => do Call.invoke load .optional [← t.build] []
  | .required t => do Call.invoke load .required [← t.build] []
  | .nullable t => do Call.invoke load .nullable [← t.build] []
  | .merge t extra => do
    let node ← t.build
    let extra ← Build.literal (← DataTerm.buildFields extra)
    Call.invoke load .merge [node, extra] []

def SchemaTerm.build : SchemaTerm → Build Value
  | .node t => t.build
  | .mapping es => do Build.literal (← DataTerm.buildFields es)

def SchemaTerm.buildFields : List (String × SchemaTerm) → Build (List (String × Value))
  | [] => return []
  | (name, s) :: ss => return (name, ← s.build) :: (← SchemaTerm.buildFields ss)

def DataTerm.build : DataTerm → Build Value
  | .atom a => return .atom a
  | .moment m => return .obj (← Build.new (.moment m))
  | .list xs => do Build.newList (← DataTerm.buildAll xs)
  | .tuple xs => do Build.newTuple (← DataTerm.buildAll xs)
  | .mapping es => do Build.literal (← DataTerm.buildFields es)
  | .node t => t.build

def DataTerm.buildAll : List DataTerm → Build (List Value)
  | [] => return []
  | d :: ds => return (← d.build) :: (← DataTerm.buildAll ds)

def DataTerm.buildFields : List (String × DataTerm) → Build (List (String × Value))
  | [] => return []
  | (name, d) :: ds => return (name, ← d.build) :: (← DataTerm.buildFields ds)

def DataTerm.buildEntries : List (KeyTerm × DataTerm) → Build Entries
  | [] => return []
  | (k, d) :: ds => return (← k.build, ← d.build) :: (← DataTerm.buildEntries ds)

end

end build

end OpenApiDoc
