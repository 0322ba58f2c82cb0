import WorkflowCanvas.Json.Value

/-!
A JSON text as it stands: the tree of what was written, up to the place where the text breaks off.

A document keeps what a value forgets: the order of members, members with one key, and the point
at which the text stops being JSON. It also keeps texts that are JSON in form but stand for no
value: a string with half of a surrogate pair and a number beyond the range of floats. A decoder
that goes through a document in the order of writing therefore meets the faults of a text in the
order in which a reader of the text meets them.
-/

namespace WorkflowCanvas

mutual

/-- A value as written. -/
inductive Document
  /-- No value can be read at this place. -/
  | broken
  | null
  | bool (b : Bool)
  /-- A number, or nothing when it is out of range. -/
  | num (n : Option Json.Number)
  /-- A string, or nothing when it holds half of a surrogate pair. -/
  | str (s : Option String)
  | arr (items : Items)
  | obj (members : Members)

/-- The items of an array, up to its closing bracket or to a break. -/
inductive Items
  | closed
  | cut
  | more (item : Document) (rest : Items)

/-- The members of an object, up to its closing brace or to a break. A key is kept as whatever
value stands in its place. -/
inductive Members
  | closed
  | cut
  | more (key value : Document) (rest : Members)

end

mutual

/-- Whether the text of the value is JSON in form. -/
def Document.isWellFormed : Document → Bool
  | .broken => false
  | .arr items => items.isWellFormed
  | .obj members => members.isWellFormed
  | _ => true
termination_by structural d => d

def Items.isWellFormed : Items → Bool
  | .closed => true
  | .cut => false
  | .more item rest => item.isWellFormed && rest.isWellFormed
termination_by structural items => items

def Members.isWellFormed : Members → Bool
  | .closed => true
  | .cut => false
  | .more (.str _) value rest => value.isWellFormed && rest.isWellFormed
  | .more _ _ _ => false
termination_by structural members => members

end

mutual

/-- The document that spells out a value. -/
def Json.toDocument : Json → Document
  | .null => .null
  | .bool b => .bool b
  | .num n => .num (some n)
  | .str s => .str (some s)
  | .arr items => .arr (Json.toItems items)
  | .obj members => .obj (Json.toMembers members)
termination_by structural v => v

def Json.toItems : List Json → Items
  | [] => .closed
  | v :: rest => .more v.toDocument (Json.toItems rest)
termination_by structural items => items

def Json.toMembers : List (String × Json) → Members
  | [] => .closed
  | m :: rest => .more (.str (some m.1)) (Json.memberToDocument m) (Json.toMembers rest)
termination_by structural members => members

def Json.memberToDocument : String × Json → Document
  | (_, v) => v.toDocument
termination_by structural m => m

end

end WorkflowCanvas
