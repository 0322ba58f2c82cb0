import WorkflowCanvas.Geometry.Containment
import WorkflowCanvas.Nesting.Lineage

/-!
Where nodes are on the canvas.

A `Layout` is anything that answers questions about the place of nodes; the rules for drops rely on
no more than that. A `Scene` is the layout that a list of nodes gives, with the nodes that are being
dragged at the place where they are held. In a scene the last node with an id counts, and so does
the last drag recorded for an id.
-/

namespace WorkflowCanvas

/-- Answers about the place of nodes, by their ids. -/
structure Layout (K : Type) where
  /-- The position in the frame of the node's parent. -/
  live? : String → Option (Point K)
  /-- The position on the canvas. -/
  absolute? : String → Option (Point K)
  /-- Whether the node lies in an area of the canvas. -/
  liesIn : String → Rect K → Containment → Bool

/-- A list of nodes, and the places of those being dragged, each in the frame of its parent. -/
structure Scene (K : Type) where
  nodes : List (Node K)
  drags : List (String × Point K) := []

namespace Scene

variable {K : Type}

def withDrag (s : Scene K) (id : String) (place : Point K) : Scene K :=
  { s with drags := s.drags ++ [(id, place)] }

def node? (s : Scene K) (id : String) : Option (Node K) := Node.last? s.nodes id

def drag? (s : Scene K) (id : String) : Option (Point K) := s.drags.reverse.lookup id

/-- The position of a node in the frame of its parent: where it is held, or else where it is
stored. An id that is only dragged and is no node has a position too. -/
def live? (s : Scene K) (id : String) : Option (Point K) :=
  (s.drag? id).or ((s.node? id).map Node.position)

/-- The position of a node that the scene has. -/
def place (s : Scene K) (n : Node K) : Point K := (s.drag? n.id).getD n.position

variable [Scalar K]

/-- The position on the canvas: the sum of the places of the node and all of its ancestors, taken
upwards. There is none if the ancestors run in a circle. -/
def absolute? (s : Scene K) (id : String) : Option (Point K) := do
  let n ← s.node? id
  let ancestors ← Nesting.lineage? s.node? s.nodes.length n.parent
  some (ancestors.foldl (fun sum a => sum + s.place a) (s.place n))

/-- The rectangle of a node on the canvas. A node without a settled size is a point. -/
def bounds? (s : Scene K) (id : String) : Option (Rect K) := do
  let n ← s.node? id
  let origin ← s.absolute? id
  some (Rect.placed origin (n.size?.getD 0))

/-- Whether a node lies in an area; one without bounds lies in none. -/
def liesIn (s : Scene K) (id : String) (area : Rect K) (mode : Containment) : Bool :=
  (s.bounds? id).any fun bounds => mode.holds bounds area

def layout (s : Scene K) : Layout K where
  live? := s.live?
  absolute? := s.absolute?
  liesIn := s.liesIn

end Scene

end WorkflowCanvas
