import WorkflowCanvas.Nesting.Lineage

/-!
Locking nodes.

A lock is a mark in the payload of a node. It is flipped from what the first node with the id
shows, and set on every node with that id.
-/

namespace WorkflowCanvas.Gesture

variable {K : Type}

def setLock (locked : Bool) (n : Node K) : Node K := { n with data := { n.data with locked } }

/-- The nodes with the lock of one flipped, and the new state of the lock. -/
def toggleLock? (nodes : List (Node K)) (id : String) : Option (List (Node K) × Bool) :=
  (Node.first? nodes id).map fun n =>
    let locked := !n.data.locked
    (nodes.map fun m => if m.id = id then setLock locked m else m, locked)

/-- The ids of the locked nodes, in the order of the nodes. -/
def lockedIds (nodes : List (Node K)) : List String :=
  (nodes.filter fun n => n.data.locked).map Node.id

end WorkflowCanvas.Gesture
