import WorkflowCanvas.Drop.Resolver

/-!
Dropping a node of a stored list.

The node is moved to where it was let go of, given in the frame of its parent. Whether its parent
changes is then decided on the scene in which the node is still held at that place.
-/

namespace WorkflowCanvas.Gesture

/-- What became of a drop. -/
inductive DropOutcome (K : Type)
  | unknown
  | locked
  | dropped (transition : Option (Transition K))
  deriving DecidableEq, Repr

variable {K : Type} [Scalar K]

/-- The nodes after a drop and what became of it. A node that is not there or is locked leaves the
list as it is. -/
def drop (mode : Containment) (nodes : List (Node K)) (id : String) (place : Point K) :
    List (Node K) × DropOutcome K :=
  match Node.first? nodes id with
  | none => (nodes, .unknown)
  | some n =>
    if n.data.locked then (nodes, .locked)
    else
      let moved := { n with position := place }
      let scene : Scene K := { nodes, drags := [(id, place)] }
      let next := Drop.evaluate scene.layout mode moved (Drop.replace nodes moved)
      (next, .dropped ((Node.first? next id).bind (Transition.between? moved)))

end WorkflowCanvas.Gesture
