import WorkflowCanvas.Model.Workflow

/-!
Changes of parent.

A transition says which parent a node gets and where it then stands in the frame of that parent. It
is found again by comparing the node before and after.
-/

namespace WorkflowCanvas

inductive Transition (K : Type)
  | adopt (container : String) (position : Point K)
  | release (container : String) (position : Point K)
  | reparent (former latter : String) (position : Point K)
  deriving DecidableEq, Repr

namespace Transition

variable {K : Type}

/-- The parent of the node afterwards. -/
def parent : Transition K → Option String
  | adopt container _ => some container
  | release _ _ => none
  | reparent _ latter _ => some latter

/-- The position of the node afterwards, in the frame of its parent. -/
def position : Transition K → Point K
  | adopt _ p | release _ p | reparent _ _ p => p

/-- The transition between two states of a node, if its parent differs. -/
def between? (before after : Node K) : Option (Transition K) :=
  match before.parent, after.parent with
  | none, some container => some (adopt container after.position)
  | some container, none => some (release container after.position)
  | some former, some latter =>
    if former = latter then none else some (reparent former latter after.position)
  | none, none => none

/-- The node after the transition. -/
def apply (t : Transition K) (n : Node K) : Node K :=
  { n with parent := t.parent, position := t.position }

end Transition

end WorkflowCanvas
