import WorkflowCanvas.Drop.Layout
import WorkflowCanvas.Drop.Transition

/-!
What a drop does to the nesting of a node.

When a node is let go of, it may have left its batch and may have come to lie in another. First, a
node that still lies in its parent stays. Otherwise it is released, and the last batch of the list
in which it lies adopts it, but never the one it was just released from. Its position is given in
the new frame, so it stays where it was dropped.

A batch takes part with a settled size and a place on the canvas only, and neither the dropped node
nor anything below it is a candidate. A node whose parent takes no part stays where it is.
-/

namespace WorkflowCanvas.Drop

variable {K : Type} [Scalar K]

/-- A batch that a node can be adopted by or released from. -/
structure Container (K : Type) where
  id : String
  origin : Point K
  area : Rect K

/-- The batch that a node is, for the drop of another node. -/
def container? (layout : Layout K) (dropped : String) (nodes : List (Node K)) (n : Node K) :
    Option (Container K) :=
  if n.isBatch && n.id ≠ dropped && !Nesting.isBelow nodes n.id dropped then do
    let size ← n.size?
    let origin ← layout.absolute? n.id
    some ⟨n.id, origin, Rect.placed origin size⟩
  else none

/-- The batches that take part in a drop, in the order of the nodes. -/
def containers (layout : Layout K) (dropped : String) (nodes : List (Node K)) :
    List (Container K) :=
  nodes.filterMap (container? layout dropped nodes)

/-- The last batch that a node lies in, the one with id `left` excepted. -/
def target? (layout : Layout K) (mode : Containment) (dropped : String) (left : Option String)
    (candidates : List (Container K)) : Option (Container K) :=
  (candidates.filter fun c => some c.id ≠ left && layout.liesIn dropped c.area mode).getLast?

/-- The change of parent that a drop brings about, if it does. -/
def resolve (layout : Layout K) (mode : Containment) (dropped : Node K) (nodes : List (Node K)) :
    Option (Transition K) :=
  if nodes.any fun n => n.id = dropped.id then
    let candidates := containers layout dropped.id nodes
    let live := (layout.live? dropped.id).getD dropped.position
    match dropped.parent with
    | none =>
      (target? layout mode dropped.id none candidates).map fun c => .adopt c.id (live - c.origin)
    | some parent =>
      match candidates.find? fun c => c.id = parent with
      | none => none
      | some former =>
        if layout.liesIn dropped.id former.area mode then none
        else
          let absolute := live + former.origin
          match target? layout mode dropped.id (some former.id) candidates with
          | none => some (.release former.id absolute)
          | some c => some (.reparent former.id c.id (absolute - c.origin))
  else none

/-- The nodes with every node that has the id of `n` replaced by `n`. -/
def replace (nodes : List (Node K)) (n : Node K) : List (Node K) :=
  nodes.map fun m => if m.id = n.id then n else m

/-- The nodes after a drop. -/
def evaluate (layout : Layout K) (mode : Containment) (dropped : Node K) (nodes : List (Node K)) :
    List (Node K) :=
  match resolve layout mode dropped nodes with
  | some t => replace nodes (t.apply dropped)
  | none => nodes

/-- Hands the nodes after a drop to `publish`, if the drop changes the parent of the node. -/
def announce {m : Type → Type} [Monad m] (layout : Layout K) (mode : Containment) (dropped : Node K)
    (nodes : List (Node K)) (publish : List (Node K) → m Unit) : m Unit :=
  match resolve layout mode dropped nodes with
  | some t => publish (replace nodes (t.apply dropped))
  | none => pure ()

end WorkflowCanvas.Drop
