import WorkflowCanvas.Json.Reader

/-!
Decoding documents.

A decoder turns a document into a value of some type, or tells the first fault in the order of
writing. There are two kinds of fault: the text is not JSON (`malformed`), or it is JSON of another
shape than the type has (`mismatch`). A text that goes deeper than 127 levels counts as malformed,
so a decoder is given the number of levels it may still enter; what it skips may go deeper.
-/

namespace WorkflowCanvas

/-- The two kinds of fault a text can have. -/
inductive Json.Fault
  | malformed
  | mismatch
  deriving DecidableEq, Repr

/-- The fault of a document in a place where its kind of value does not belong. An array or an
object is refused at its first character, before anything inside it is looked at. -/
def Document.misplaced : Document → Json.Fault
  | .broken | .num none | .str none => .malformed
  | _ => .mismatch

namespace Json

/-- The deepest nesting of arrays and objects that is decoded. -/
def maxDepth : Nat := 127

abbrev Decoder (α : Type) := Nat → Document → Except Fault α

namespace Decoder

def string : Decoder String
  | _, .str (some s) => .ok s
  | _, d => .error d.misplaced

def bool : Decoder Bool
  | _, .bool b => .ok b
  | _, d => .error d.misplaced

/-- A float may be written as a whole number. -/
def float : Decoder Float
  | _, .num (some n) => .ok n.toFloat
  | _, d => .error d.misplaced

/-- A whole number from zero up to `bound`, excluded. -/
def below (bound : Nat) : Decoder Nat
  | _, .num (some (.whole n _)) =>
    if 0 ≤ n ∧ n < bound then .ok n.toNat else .error .mismatch
  | _, d => .error d.misplaced

/-- A value that may be `null` instead. -/
def nullable {α : Type} (item : Decoder α) : Decoder (Option α)
  | _, .null => .ok none
  | room, d => some <$> item room d

/-- The items of a list in their order. -/
def items {α : Type} (item : Decoder α) (room : Nat) : Items → Except Fault (List α)
  | .closed => .ok []
  | .cut => .error .malformed
  | .more d rest => do
    let a ← item room d
    let as ← items item room rest
    .ok (a :: as)

def list {α : Type} (item : Decoder α) : Decoder (List α)
  | 0, .arr _ => .error .malformed
  | room + 1, .arr ds => items item room ds
  | _, d => .error d.misplaced

/-- One of a number of names, written as a string, or as an object with the name as its only key
and `null` under it. Anything else is malformed, also an object whose key is no string. -/
def choice {α : Type} (named? : String → Option α) : Decoder α :=
  let choose (name : String) : Except Fault α :=
    match named? name with
    | some a => .ok a
    | none => .error .mismatch
  fun room d =>
    match room, d with
    | _, .str (some name) => choose name
    | 0, .obj _ => .error .malformed
    | _ + 1, .obj (.more (.str (some name)) value rest) => do
      let a ← choose name
      match value, rest with
      | .null, .closed => .ok a
      | .null, _ => .error .malformed
      | value, _ => .error value.misplaced
    | _, _ => .error .malformed

mutual

/-- Any value. What keeps it from being a value is always in the form of the text. -/
def value : Nat → Document → Option Json
  | _, .broken => none
  | _, .null => some .null
  | _, .bool b => some (.bool b)
  | _, .num n => n.map .num
  | _, .str s => s.map .str
  | 0, .arr _ => none
  | room + 1, .arr items => (valueItems room items).map .arr
  | 0, .obj _ => none
  | room + 1, .obj members => (valueMembers room members).map fun ms => .obj (sortMembers ms)
termination_by structural _ d => d

def valueItems (room : Nat) : Items → Option (List Json)
  | .closed => some []
  | .cut => none
  | .more item rest => do
    let v ← value room item
    let vs ← valueItems room rest
    some (v :: vs)
termination_by structural items => items

def valueMembers (room : Nat) : Members → Option (List (String × Json))
  | .closed => some []
  | .cut => none
  | .more (.str (some key)) v rest => do
    let v ← value room v
    let vs ← valueMembers room rest
    some ((key, v) :: vs)
  | .more _ _ _ => none
termination_by structural members => members

end

def json : Decoder Json := fun room d =>
  match value room d with
  | some v => .ok v
  | none => .error .malformed

end Decoder

/-- Decodes a whole text. What follows the value must be space. -/
def decodeText {α : Type} (decoder : Decoder α) (text : String) : Except Fault α := do
  let (d, complete) := readDocument text
  let a ← decoder maxDepth d
  if complete then .ok a else .error .malformed

end Json

end WorkflowCanvas
