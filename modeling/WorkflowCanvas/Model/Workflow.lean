import WorkflowCanvas.Model.Node

/-!
Workflows: nodes and the edges that wire them.
-/

namespace WorkflowCanvas

/-- What an edge connects: two nodes, and on each possibly one of its handles. -/
structure Wiring where
  source : String
  target : String
  sourceHandle : Option String := none
  targetHandle : Option String := none
  deriving DecidableEq, Repr

structure Edge where
  id : String
  wiring : Wiring
  deriving DecidableEq, Repr

structure Workflow (K : Type) where
  id : String
  name : String
  nodes : List (Node K) := []
  edges : List Edge := []

end WorkflowCanvas
