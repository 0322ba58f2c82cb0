import WorkflowCanvas.Text.Percent

/-!
The addresses of the service.

A path is taken apart at its slashes, and every segment has to match in full. An id at the end of a
path must not be empty, while an id within may be. Ids are read off the path as they stand, and
their escapes are resolved afterwards, so an escaped slash belongs to an id.
-/

namespace WorkflowCanvas.Service

inductive Endpoint
  | health
  | workflows
  | workflow (id : String)
  | drop (id node : String)
  | lock (id node : String)
  | edges (id : String)
  | edge (id edge : String)
  deriving DecidableEq, Repr

namespace Endpoint

/-- The segments between slashes. -/
def segments : List Char → List (List Char)
  | [] => [[]]
  | c :: rest =>
    if c = '/' then [] :: segments rest
    else
      match segments rest with
      | [] => [[c]]
      | s :: ss => (c :: s) :: ss

/-- The endpoint at a path, its ids with their escapes. -/
def ofPath? (path : String) : Option Endpoint :=
  match (segments path.toList).map String.ofList with
  | ["", "healthz"] => some health
  | ["", "api", "workflows"] => some workflows
  | "" :: "api" :: "workflows" :: id :: rest =>
    match rest with
    | [] => if id = "" then none else some (workflow id)
    | ["nodes", node, "drop"] => some (drop id node)
    | ["nodes", node, "lock"] => some (lock id node)
    | ["edges"] => some (edges id)
    | ["edges", e] => if e = "" then none else some (edge id e)
    | _ => none
  | _ => none

/-- The endpoint with the escapes in its ids resolved. -/
def resolve? : Endpoint → Option Endpoint
  | health => some health
  | workflows => some workflows
  | workflow id => do some (workflow (← Text.Percent.decode? id))
  | drop id node => do some (drop (← Text.Percent.decode? id) (← Text.Percent.decode? node))
  | lock id node => do some (lock (← Text.Percent.decode? id) (← Text.Percent.decode? node))
  | edges id => do some (edges (← Text.Percent.decode? id))
  | edge id e => do some (edge (← Text.Percent.decode? id) (← Text.Percent.decode? e))

end Endpoint

end WorkflowCanvas.Service
