import WorkflowCanvas.Model.Reading
import WorkflowCanvas.Model.Writing
import WorkflowCanvas.Service.Endpoint
import WorkflowCanvas.Service.MediaType
import WorkflowCanvas.Service.Operation
import WorkflowCanvas.Service.Target

/-!
Requests over HTTP and their responses.

A request is refused by the first of these that applies: no such path, another method, ids that are
not UTF-8, a body not announced as JSON, a body that is too long, a body that is not JSON, a body of
the wrong shape. Only then is the operation carried out. A body that no operation depends on is not
looked at. The method HEAD does what GET does and leaves the body out.
-/

namespace WorkflowCanvas

open Json Json.Decoder

def Transition.toJson : Transition Float → Json
  | adopt container p =>
    .obj [("kind", .str "adopt"), ("containerId", .str container), ("position", p.toJson)]
  | release container p =>
    .obj [("kind", .str "release"), ("containerId", .str container), ("position", p.toJson)]
  | reparent former latter p =>
    .obj [("kind", .str "reparent"), ("from", .str former), ("to", .str latter),
      ("position", p.toJson)]

namespace Service

def Reply.toJson : Reply Float → Json
  | opened id name =>
    .obj [("id", .str id), ("message", .str ("Workflow '" ++ name ++ "' opened"))]
  | updated id name =>
    .obj [("id", .str id), ("message", .str ("Workflow '" ++ name ++ "' updated"))]
  | ids list => .obj [("workflows", .arr (list.map .str))]
  | snapshot w => w.toJson
  | closed => .obj [("message", .str "Workflow closed")]
  | dropped n transition =>
    .obj [("node", n.toJson), ("transition", ofOption Transition.toJson transition)]
  | locked node isLocked lockedIds =>
    .obj [("nodeId", .str node), ("locked", .bool isLocked),
      ("lockedNodeIds", .arr (lockedIds.map .str))]
  | edges es => .obj [("edges", .arr (es.map Edge.toJson))]

/-- The body that carries a workflow. -/
def workflowBody : Decoder (Workflow Float) :=
  record ["workflow"] fun r =>
    (fun _ w => w) <$> r.skipOthers <*> r.required "workflow" Workflow.decoder

/-- The body that carries the place of a drop. -/
def dropBody : Decoder (Point Float) :=
  record ["position"] fun r =>
    (fun _ p => p) <$> r.skipOthers <*> r.required "position" Point.decoder

structure Request where
  method : String
  path : String
  contentType : Option String
  body : String

/-- The request that a client sends with these parts, nothing if they are not well formed. A method
is a name. A content type is a line of text. -/
def Request.ofParts? (method target : String) (contentType : Option String) (body : String) :
    Option Request := do
  let path ← Target.path? target
  let isName := !method.isEmpty && method.toList.all MediaType.isToken
  let isLine (s : String) := s.toList.all fun c => c = '\t' || (0x20 ≤ c.toNat && c.toNat ≠ 0x7F)
  if isName && contentType.all isLine then some { method, path, contentType, body } else none

inductive Body
  | empty
  | text (s : String)
  | json (v : Json)

structure Response where
  status : Nat
  body : Body := .empty

/-- What is left to do for a request once its method and its path are known. -/
inductive Task
  | health
  | perform (operation : Operation Float)
  /-- The operation depends on the body. -/
  | read (decoder : Decoder (Operation Float))

/-- The task that a method stands for at an endpoint. -/
def Endpoint.task? (method : String) : Endpoint → Option Task
  | health => if method = "GET" then some .health else none
  | workflows =>
    if method = "GET" then some (.perform .list)
    else if method = "POST" then some (.read fun room d => .openWorkflow <$> workflowBody room d)
    else none
  | workflow id =>
    if method = "GET" then some (.perform (.get id))
    else if method = "PUT" then some (.read fun room d => .replace id <$> workflowBody room d)
    else if method = "DELETE" then some (.perform (.close id))
    else none
  | drop id node =>
    if method = "POST" then some (.read fun room d => .drop id node <$> dropBody room d) else none
  | lock id node => if method = "POST" then some (.perform (.lock id node)) else none
  | edges id =>
    if method = "POST" then some (.read fun room d => .connect id <$> Wiring.decoder room d)
    else none
  | edge id e => if method = "DELETE" then some (.perform (.disconnect id e)) else none

/-- The status for a refused operation. -/
def statusOf : Session.Error → Nat
  | .invalid _ => 400
  | .alreadyOpen _ | .lockedNode _ _ => 409
  | .notOpen _ | .unknownNode _ _ | .unknownEdge _ _ => 404

/-- The status for a body that is not understood. -/
def statusOfFault : Fault → Nat
  | .malformed => 400
  | .mismatch => 422

/-- The most octets that a body may have. -/
def maxBodySize : Nat := 2 * 1024 * 1024

/-- The operation a task asks for, or the status with which the body is refused. -/
def Task.operation? (r : Request) : Task → Except Nat (Option (Operation Float))
  | health => .ok none
  | perform operation => .ok (some operation)
  | read decoder =>
    if !r.contentType.any MediaType.isJson then .error 415
    else if maxBodySize < r.body.utf8ByteSize then .error 413
    else
      match decodeText decoder r.body with
      | .ok operation => .ok (some operation)
      | .error fault => .error (statusOfFault fault)

/-- What a request asks for, nothing for the health check, or the status of its refusal. -/
def Request.operation? (r : Request) : Except Nat (Option (Operation Float)) := do
  let method := if r.method = "HEAD" then "GET" else r.method
  let some endpoint := Endpoint.ofPath? r.path | .error 404
  let some _ := endpoint.task? method | .error 405
  let some task := endpoint.resolve?.bind (Endpoint.task? method) | .error 400
  task.operation? r

/-- A service: its rule for drops and its supply of ids. -/
structure App where
  containment : Containment := .full
  newId : Nat → String

/-- Answers a request. -/
def App.respond (app : App) (s : State Float) (r : Request) : State Float × Response :=
  let shown (body : Body) : Response := ⟨200, if r.method = "HEAD" then .empty else body⟩
  match r.operation? with
  | .error status => (s, ⟨status, .empty⟩)
  | .ok none => (s, shown (.text "ok"))
  | .ok (some operation) =>
    match perform app.containment app.newId s operation with
    | .error refusal => (refusal.state, ⟨statusOf refusal.error, .empty⟩)
    | .ok (s, reply) => (s, shown (.json reply.toJson))

end Service

end WorkflowCanvas
