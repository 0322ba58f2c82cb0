import WorkflowCanvas.Nesting.Lineage

/-!
Putting parents in front of their children.

The nodes are taken in their order. Each is placed together with those of its ancestors that are
not placed yet, the topmost of them first. So nodes move only as far forward as their descendants
require.
-/

namespace WorkflowCanvas.Nesting

variable {K : Type}

/-- The nodes from `n` upwards that are not placed yet, nearest first. -/
def unplaced (nodes placed : List (Node K)) : Nat → Node K → List (Node K)
  | 0, _ => []
  | steps + 1, n =>
    if n.id ∈ placed.map Node.id then []
    else n :: ((n.parent.bind (Node.first? nodes)).map (unplaced nodes placed steps)).getD []

/-- The nodes with every parent in front of its children. -/
def parentsFirst (nodes : List (Node K)) : List (Node K) :=
  nodes.foldl (fun placed n => placed ++ (unplaced nodes placed nodes.length n).reverse) []

end WorkflowCanvas.Nesting
