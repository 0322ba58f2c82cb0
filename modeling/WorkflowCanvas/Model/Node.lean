import WorkflowCanvas.Geometry.Rect
import WorkflowCanvas.Json.Value

/-!
The nodes of a canvas.

A node has a place, and may have a parent: a batch, in whose frame the place is then meant. A node
without a parent stands on the canvas itself. Its size is what the editor measured, and is settled
only when both dimensions are known and positive. The rest of a node is its payload, of which only
the name and the lock are understood here.
-/

namespace WorkflowCanvas

inductive NodeKind
  | reader
  | writer
  | transformer
  | batch
  | note
  deriving DecidableEq, Repr

namespace NodeKind

def all : List NodeKind := [reader, writer, transformer, batch, note]

def name : NodeKind → String
  | reader => "reader"
  | writer => "writer"
  | transformer => "transformer"
  | batch => "batch"
  | note => "note"

def named? (s : String) : Option NodeKind := all.find? fun k => k.name = s

end NodeKind

/-- A size as the editor reports it, with either dimension possibly still unknown. -/
structure Measured (K : Type) where
  width : Option K := none
  height : Option K := none
  deriving DecidableEq, Repr

/-- The size, once both dimensions are known and positive. -/
def Measured.size? {K : Type} [Scalar K] (m : Measured K) : Option (Size K) :=
  match m.width, m.height with
  | some w, some h => if 0 < w ∧ 0 < h then some ⟨w, h⟩ else none
  | _, _ => none

/-- What a node carries for the editor. Members that are not understood are kept as they are, in
the order of their keys. -/
structure Payload where
  name : Option String := none
  locked : Bool := false
  extra : List (String × Json) := []

structure Node (K : Type) where
  id : String
  kind : NodeKind
  position : Point K
  parent : Option String := none
  measured : Option (Measured K) := none
  data : Payload := {}

namespace Node

variable {K : Type}

def isBatch (n : Node K) : Bool := n.kind = .batch

def size? [Scalar K] (n : Node K) : Option (Size K) := n.measured.bind Measured.size?

def withSize (n : Node K) (size : Size K) : Node K :=
  { n with measured := some ⟨some size.width, some size.height⟩ }

def withParent (n : Node K) (parent : String) : Node K := { n with parent := some parent }

end Node

end WorkflowCanvas
