import WorkflowCanvas.Nesting.Cycle
import WorkflowCanvas.Nesting.Order
import WorkflowCanvas.Snapshot.Fault
import WorkflowCanvas.Text.Characters

/-!
Checking a workflow and bringing it into its stored form.

The checks come in a fixed order, and the first that fails gives the fault: the name, repeated ids,
the parent of each node, circles of parents, the endpoints of each edge. A workflow that passes is
stored with every parent in front of its children, and is otherwise unchanged.
-/

namespace WorkflowCanvas.Snapshot

variable {K : Type}

/-- The first id that stands in the list or in `before` already. -/
def repeated? (before : List String) : List String → Option String
  | [] => none
  | id :: rest => if id ∈ before then some id else repeated? (id :: before) rest

/-- What is wrong with the parent of a node. -/
def parentFault? (nodes : List (Node K)) (n : Node K) : Option Fault :=
  n.parent.bind fun parent =>
    match Node.first? nodes parent with
    | none => some (.unknownParent n.id parent)
    | some p => if p.isBatch then none else some (.parentNotBatch n.id parent)

/-- What is wrong with the endpoints of an edge, its source before its target. -/
def edgeFault? (nodes : List (Node K)) (e : Edge) : Option Fault :=
  [e.wiring.source, e.wiring.target].findSome? fun endpoint =>
    if (Node.first? nodes endpoint).isSome then none else some (.unknownEndpoint e.id endpoint)

/-- The first fault of a workflow. -/
def fault? (w : Workflow K) : Option Fault :=
  (if Text.isBlank w.name then some .emptyName else none) <|>
  ((repeated? [] (w.nodes.map Node.id)).map .duplicateNode) <|>
  (w.nodes.findSome? (parentFault? w.nodes)) <|>
  ((Nesting.cycle? w.nodes).map .parentCycle) <|>
  (w.edges.findSome? (edgeFault? w.nodes))

/-- The stored form of a workflow, or what keeps it from being stored. -/
def compile (w : Workflow K) : Except Fault (Workflow K) :=
  match fault? w with
  | some f => .error f
  | none => .ok { w with nodes := Nesting.parentsFirst w.nodes }

end WorkflowCanvas.Snapshot
