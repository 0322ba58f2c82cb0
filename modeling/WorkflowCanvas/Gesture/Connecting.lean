import WorkflowCanvas.Model.Workflow

/-!
Connecting nodes.

The id of a new edge is made from what it connects. A wiring that is there already is not added
again, whatever the id of its edge.
-/

namespace WorkflowCanvas

/-- The id of the edge that a connection makes. -/
def Wiring.edgeId (w : Wiring) : String :=
  "xy-edge__" ++ w.source ++ w.sourceHandle.getD "" ++ "-" ++ w.target ++ w.targetHandle.getD ""

namespace Gesture

/-- The edges with one for the wiring. -/
def connect (edges : List Edge) (w : Wiring) : List Edge :=
  if edges.any fun e => e.wiring = w then edges else edges ++ [⟨w.edgeId, w⟩]

/-- The edges without those of an id, if there is one. -/
def disconnect? (edges : List Edge) (id : String) : Option (List Edge) :=
  if edges.any fun e => e.id = id then some (edges.filter fun e => e.id ≠ id) else none

end Gesture

end WorkflowCanvas
