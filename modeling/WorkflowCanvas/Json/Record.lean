import WorkflowCanvas.Json.Decoder

/-!
Decoding records, the types with named fields.

A record is written as an object, or as an array of its fields in their order, in which fields at
the end that have a default may be left out. In an object a field given twice is a mismatch, and a
name that is not a field is skipped.

The parts of a record are found in the order of writing but wanted in the order of the fields. So
every outcome carries the place in the writing at which it was met, and of several faults the one
with the least place is kept.
-/

namespace WorkflowCanvas.Json

/-- A value, or a fault with its place in the writing. -/
def Placed (α : Type) := Except (Nat × Fault) α

namespace Placed

variable {α β : Type}

def pure (a : α) : Placed α := Except.ok a

def fault (place : Nat) (f : Fault) : Placed α := Except.error (place, f)

/-- The outcome for a part that stands at `place`. -/
def part (place : Nat) : Except Fault α → Placed α
  | .ok a => pure a
  | .error f => fault place f

/-- Both values, or the fault that comes first. -/
def apply (f : Placed (α → β)) (a : Placed α) : Placed β :=
  match f, a with
  | .ok f, .ok a => pure (f a)
  | .error e, .ok _ => .error e
  | .ok _, .error e => .error e
  | .error e, .error e' => .error (if e'.1 < e.1 then e' else e)

instance : Applicative Placed where
  pure := pure
  seq f a := apply f (a ())

def result : Placed α → Except Fault α
  | .ok a => .ok a
  | .error e => .error e.2

end Placed

/-- The fields of a record as they were found, each with its place. -/
structure Record where
  /-- The levels that the fields may enter. -/
  room : Nat
  fields : List (String × Nat × Document) := []
  /-- What stands under names that are not fields. -/
  others : List (String × Nat × Document) := []
  /-- The first fault in the record itself, and not in one of its parts. -/
  fault : Option (Nat × Fault) := none
  /-- The place behind all parts, where a field is found to be missing. -/
  finish : Nat := 0

namespace Record

/-- Takes in the items of an array as the fields of these names. -/
def addItems (r : Record) (place : Nat) : List String → Items → Record
  | _, .closed => { r with finish := place }
  | _, .cut => { r with fault := some (place, .malformed), finish := place + 1 }
  | [], .more _ _ => { r with fault := some (place, .malformed), finish := place + 1 }
  | name :: names, .more item rest =>
    addItems { r with fields := r.fields ++ [(name, place, item)] } (place + 1) names rest

/-- Takes in the members of an object. -/
def addMembers (names : List String) (r : Record) (place : Nat) : Members → Record
  | .closed => { r with finish := place }
  | .cut => { r with fault := some (place, .malformed), finish := place + 1 }
  | .more (.str (some name)) value rest =>
    if name ∈ names then
      if (r.fields.lookup name).isSome then
        { r with fault := some (place, .mismatch), finish := place + 1 }
      else
        addMembers names { r with fields := r.fields ++ [(name, place, value)] } (place + 1) rest
    else
      addMembers names { r with others := r.others ++ [(name, place, value)] } (place + 1) rest
  | .more _ _ _ => { r with fault := some (place, .malformed), finish := place + 1 }

/-- The record in a document, for a type with fields of these names. -/
def find (names : List String) : Decoder Record
  | 0, .arr _ | 0, .obj _ => .error .malformed
  | room + 1, .arr items => .ok (addItems { room } 0 names items)
  | room + 1, .obj members => .ok (addMembers names { room } 0 members)
  | _, d => .error d.misplaced

variable {α : Type}

/-- A field that has to be there. -/
def required (r : Record) (name : String) (item : Decoder α) : Placed α :=
  match r.fields.lookup name with
  | some (place, d) => .part place (item r.room d)
  | none => .fault r.finish .mismatch

/-- A field with a value for when it is missing. -/
def withDefault (r : Record) (name : String) (item : Decoder α) (missing : α) : Placed α :=
  match r.fields.lookup name with
  | some (place, d) => .part place (item r.room d)
  | none => .pure missing

/-- A field that may be missing or `null`. -/
def optional (r : Record) (name : String) (item : Decoder α) : Placed (Option α) :=
  r.withDefault name item.nullable none

/-- The fault of the record itself. -/
def itself (r : Record) : Placed Unit :=
  match r.fault with
  | some (place, f) => .fault place f
  | none => .pure ()

/-- Skips what stands under other names, which still has to be JSON in form. -/
def skipOthers (r : Record) : Placed Unit :=
  match r.others.find? fun (_, _, d) => !d.isWellFormed with
  | some (_, place, _) => .fault place .malformed
  | none => .pure ()

/-- Keeps what stands under other names. -/
def keepOthers (r : Record) : Placed (List (String × Json)) :=
  r.others.foldr
    (fun (name, place, d) rest =>
      (fun v vs => (name, v) :: vs) <$> Placed.part place (Decoder.json r.room d) <*> rest)
    (.pure [])

end Record

/-- A decoder for a record with fields of these names, which are put together by `build`. -/
def Decoder.record {α : Type} (names : List String) (build : Record → Placed α) : Decoder α :=
  fun room d => do
    let r ← Record.find names room d
    ((fun _ a => a) <$> r.itself <*> build r).result

end WorkflowCanvas.Json
