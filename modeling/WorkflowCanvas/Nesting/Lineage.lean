import WorkflowCanvas.Model.Workflow

/-!
Following parents upwards.

A node names its parent by id, so going up from a node is a walk through a list of nodes. The list
may be anything: ids may repeat, parents may be missing, and parents may run in a circle. No walk
without a repetition is longer than the list, and that bounds every walk here.
-/

namespace WorkflowCanvas

variable {K : Type}

namespace Node

/-- The first node with an id. -/
def first? (nodes : List (Node K)) (id : String) : Option (Node K) :=
  nodes.find? fun n => n.id = id

/-- The last node with an id. -/
def last? (nodes : List (Node K)) (id : String) : Option (Node K) :=
  nodes.reverse.find? fun n => n.id = id

/-- The parent that the first node with an id names. -/
def parentOf? (nodes : List (Node K)) (id : String) : Option String :=
  (first? nodes id).bind Node.parent

end Node

namespace Nesting

/-- Whether `ancestor` is among the next `steps` ids on the way up from `id`. -/
def reaches (nodes : List (Node K)) (ancestor : String) : Nat → String → Bool
  | 0, _ => false
  | steps + 1, id =>
    match Node.parentOf? nodes id with
    | none => false
    | some parent => parent = ancestor || reaches nodes ancestor steps parent

/-- Whether `id` sits somewhere below `ancestor`. No way up without a repetition has more steps than
there are nodes, so one step more than that is more than enough. -/
def isBelow (nodes : List (Node K)) (id ancestor : String) : Bool :=
  reaches nodes ancestor (nodes.length + 1) id

/-- The nodes on the way up from a parent reference, nearest first. The way ends at a node without
a parent, and at a parent that is not there. It has no end if it is longer than `steps`. -/
def lineage? (find? : String → Option (Node K)) : Nat → Option String → Option (List (Node K))
  | _, none => some []
  | steps, some id =>
    match find? id, steps with
    | none, _ => some []
    | some _, 0 => none
    | some n, steps + 1 => (lineage? find? steps n.parent).map (n :: ·)

end Nesting

end WorkflowCanvas
