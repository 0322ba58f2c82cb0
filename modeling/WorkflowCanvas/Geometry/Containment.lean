import WorkflowCanvas.Geometry.Rect

/-!
When a node counts as lying in an area.

Under `Containment.full` all of the node has to be inside, its edges included; under
`Containment.overlap` any common interior is enough. The test compares areas: what the node and
the area share is measured against the node. A node without area is a point, and the two rules go
over to points: the border of the area counts as inside for `full` and as outside for `overlap`.
-/

namespace WorkflowCanvas

/-- How much of a node must lie in an area. -/
inductive Containment
  | full
  | overlap
  deriving DecidableEq, Repr

namespace Containment

variable {K : Type} [Scalar K]

/-- Whether the point `p` lies in `area`. -/
def holdsPoint (mode : Containment) (p : Point K) (area : Rect K) : Bool :=
  match mode with
  | full => area.x0 ≤ p.x && p.x ≤ area.x1 && area.y0 ≤ p.y && p.y ≤ area.y1
  | overlap => area.x0 < p.x && p.x < area.x1 && area.y0 < p.y && p.y < area.y1

/-- Whether a node with these bounds lies in `area`. -/
def holds (mode : Containment) (bounds area : Rect K) : Bool :=
  if bounds.area ≤ 0 then
    mode.holdsPoint bounds.origin area
  else
    let shared := (bounds.overlap area).area
    match mode with
    | full => bounds.area ≤ shared
    | overlap => 0 < shared

end Containment

end WorkflowCanvas
