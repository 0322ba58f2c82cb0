import WorkflowCanvas.Json.Record
import WorkflowCanvas.Model.Workflow

/-!
Decoding the model from its JSON form.

Coordinates are floats and may be written as whole numbers. Lists and payloads that are left out
are empty, but `null` is no list and no payload. A payload is written as an object only, since its
members are not all fields.
-/

namespace WorkflowCanvas

open Json Json.Decoder

def Point.decoder : Decoder (Point Float) :=
  record ["x", "y"] fun r =>
    (fun _ x y => ⟨x, y⟩) <$> r.skipOthers <*> r.required "x" float <*> r.required "y" float

def NodeKind.decoder : Decoder NodeKind := choice NodeKind.named?

def Measured.decoder : Decoder (Measured Float) :=
  record ["width", "height"] fun r =>
    (fun _ width height => ⟨width, height⟩) <$> r.skipOthers <*>
      r.optional "width" float <*> r.optional "height" float

def Payload.decoder : Decoder Payload
  | _, .arr _ => .error .mismatch
  | room, d =>
    record ["name", "locked"] (fun r =>
      (fun extra name locked => ⟨name, locked, sortMembers extra⟩) <$> r.keepOthers <*>
        r.optional "name" string <*> r.withDefault "locked" bool false) room d

def Node.decoder : Decoder (Node Float) :=
  record ["id", "type", "position", "parentId", "measured", "data"] fun r =>
    (fun _ id kind position parent measured data =>
        ⟨id, kind, position, parent, measured, data⟩) <$>
      r.skipOthers <*> r.required "id" string <*> r.required "type" NodeKind.decoder <*>
      r.required "position" Point.decoder <*> r.optional "parentId" string <*>
      r.optional "measured" Measured.decoder <*> r.withDefault "data" Payload.decoder {}

def Wiring.decoder : Decoder Wiring :=
  record ["source", "target", "sourceHandle", "targetHandle"] fun r =>
    (fun _ source target sourceHandle targetHandle =>
        ⟨source, target, sourceHandle, targetHandle⟩) <$>
      r.skipOthers <*> r.required "source" string <*> r.required "target" string <*>
      r.optional "sourceHandle" string <*> r.optional "targetHandle" string

def Edge.decoder : Decoder Edge :=
  record ["id", "source", "target", "sourceHandle", "targetHandle"] fun r =>
    (fun _ id source target sourceHandle targetHandle =>
        ⟨id, ⟨source, target, sourceHandle, targetHandle⟩⟩) <$>
      r.skipOthers <*> r.required "id" string <*> r.required "source" string <*>
      r.required "target" string <*> r.optional "sourceHandle" string <*>
      r.optional "targetHandle" string

def Workflow.decoder : Decoder (Workflow Float) :=
  record ["id", "name", "nodes", "edges"] fun r =>
    (fun _ id name nodes edges => ⟨id, name, nodes, edges⟩) <$>
      r.skipOthers <*> r.required "id" string <*> r.required "name" string <*>
      r.withDefault "nodes" (list Node.decoder) [] <*> r.withDefault "edges" (list Edge.decoder) []

end WorkflowCanvas
