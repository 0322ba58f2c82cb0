import WorkflowCanvas.Nesting.Lineage

/-!
Finding a circle of parents.

The search makes two passes. The first goes depth first from parents to children, starting at the
nodes in their order, and notes the nodes in the order in which it is done with them. A node that
is its own parent is reported as soon as the pass comes to it. In the absence of circles a parent
is done after its children, so the second pass takes the nodes in the reverse order and reports the
first parent that it has not met before its child.
-/

namespace WorkflowCanvas.Nesting

variable {K : Type}

/-- The ids of the nodes with this parent. -/
def childIds (nodes : List (Node K)) (parent : String) : List String :=
  (nodes.filter fun n => n.parent = some parent).map Node.id

/-- How far the first pass has come. -/
structure Tour where
  /-- The nodes it has come to. -/
  seen : List String := []
  /-- The nodes it is done with, latest first. -/
  done : List String := []

/-- Visits a node and what is below it. Every level takes a node not seen before, so `depth` never
has to exceed the number of nodes. -/
def visit (nodes : List (Node K)) : Nat → Tour → String → Except String Tour
  | 0, tour, _ => .ok tour
  | depth + 1, tour, id =>
    if id ∈ tour.seen then .ok tour
    else if id ∈ childIds nodes id then .error id
    else do
      let entered : Tour := { tour with seen := id :: tour.seen }
      let tour ← (childIds nodes id).foldlM (visit nodes depth) entered
      .ok { tour with done := id :: tour.done }

/-- Meets the nodes of a list one after the other, and gives the first parent that is not met before
its child. `met` are the nodes met already. -/
def firstLate? (nodes : List (Node K)) (met : List String) : List String → Option String
  | [] => none
  | id :: rest =>
    match Node.parentOf? nodes id with
    | some parent => if parent ∈ id :: met then firstLate? nodes (id :: met) rest else some parent
    | none => firstLate? nodes (id :: met) rest

/-- A node on a circle of parents, if there is a circle. -/
def cycle? (nodes : List (Node K)) : Option String :=
  match (nodes.map Node.id).foldlM (visit nodes nodes.length) {} with
  | .error id => some id
  | .ok tour => firstLate? nodes [] tour.done

end WorkflowCanvas.Nesting
