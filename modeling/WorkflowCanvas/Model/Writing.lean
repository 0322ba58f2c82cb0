import WorkflowCanvas.Json.Value
import WorkflowCanvas.Model.Workflow

/-!
The JSON form of the model.

Fields that are absent are left out, but for the handles of a wiring, which are written as `null`.
The payload of a node is always written, and so is its lock. Members of the payload that are not
understood follow the ones that are.
-/

namespace WorkflowCanvas

/-- The member for a field that may be absent. -/
def Json.optionalMember {α : Type} (key : String) (write : α → Json) :
    Option α → List (String × Json)
  | some a => [(key, write a)]
  | none => []

def Json.ofOption {α : Type} (write : α → Json) : Option α → Json
  | some a => write a
  | none => .null

open Json (optionalMember ofOption ofFloat)

def Point.toJson (p : Point Float) : Json := .obj [("x", ofFloat p.x), ("y", ofFloat p.y)]

def NodeKind.toJson (k : NodeKind) : Json := .str k.name

def Measured.toJson (m : Measured Float) : Json :=
  .obj (optionalMember "width" ofFloat m.width ++ optionalMember "height" ofFloat m.height)

def Payload.toJson (d : Payload) : Json :=
  .obj (optionalMember "name" .str d.name ++ ("locked", .bool d.locked) :: d.extra)

def Node.toJson (n : Node Float) : Json :=
  .obj ([("id", .str n.id), ("type", n.kind.toJson), ("position", n.position.toJson)] ++
    optionalMember "parentId" .str n.parent ++
    optionalMember "measured" Measured.toJson n.measured ++ [("data", n.data.toJson)])

def Wiring.toJson (w : Wiring) : Json :=
  .obj [("source", .str w.source), ("target", .str w.target),
    ("sourceHandle", ofOption .str w.sourceHandle), ("targetHandle", ofOption .str w.targetHandle)]

def Edge.toJson (e : Edge) : Json :=
  .obj ([("id", .str e.id), ("source", .str e.wiring.source), ("target", .str e.wiring.target)] ++
    optionalMember "sourceHandle" .str e.wiring.sourceHandle ++
    optionalMember "targetHandle" .str e.wiring.targetHandle)

def Workflow.toJson (w : Workflow Float) : Json :=
  .obj [("id", .str w.id), ("name", .str w.name), ("nodes", .arr (w.nodes.map Node.toJson)),
    ("edges", .arr (w.edges.map Edge.toJson))]

end WorkflowCanvas
