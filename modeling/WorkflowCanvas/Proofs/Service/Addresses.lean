import WorkflowCanvas.Proofs.Service.Run
import WorkflowCanvas.Proofs.Text.Percent

/-!
The address of a workflow.

A path ends in the escaped id of a workflow. Since the escaped id has no slash of its own, taking
the path apart gives it back whole, and resolving its escapes gives the id. Only the empty id has no
address.
-/

namespace WorkflowCanvas.Service

namespace Endpoint

theorem segments_ne_nil (cs : List Char) : segments cs ≠ [] := by
  cases cs with
  | nil => simp [segments]
  | cons c rest =>
      rw [segments]
      split
      · simp
      · split <;> simp

theorem segments_append (cs rest : List Char) :
    segments (cs ++ '/' :: rest) = segments cs ++ segments rest := by
  induction cs with
  | nil => rfl
  | cons c cs ih =>
      rw [List.cons_append, segments, segments]
      split
      · rw [ih, List.cons_append]
      · obtain ⟨first, others, heq⟩ := List.exists_cons_of_ne_nil (segments_ne_nil cs)
        rw [ih, heq]
        rfl

theorem segments_of_notMem {cs : List Char} (h : '/' ∉ cs) : segments cs = [cs] := by
  induction cs with
  | nil => rfl
  | cons c cs ih =>
      rw [List.mem_cons, not_or] at h
      rw [segments, if_neg (Ne.symm h.1), ih h.2]

/-- The path at which a workflow is found. -/
def pathOf (id : String) : String := "/api/workflows/" ++ Text.Percent.encode id

theorem ofPath?_pathOf {id : String} (hid : id ≠ "") :
    ofPath? (pathOf id) = some (.workflow (Text.Percent.encode id)) := by
  have hsplit : (pathOf id).toList =
      "/api/workflows".toList ++ '/' :: (Text.Percent.encode id).toList := by
    rw [pathOf, String.toList_append]
    rfl
  have hsegments : (segments (pathOf id).toList).map String.ofList =
      ["", "api", "workflows", Text.Percent.encode id] := by
    rw [hsplit, segments_append, segments_of_notMem (Text.Percent.slash_notMem_encode id),
      List.map_append, List.map_singleton, String.ofList_toList]
    rfl
  rw [ofPath?, hsegments]
  exact if_neg (Text.Percent.encode_ne_empty hid)

end Endpoint

/-- A request for the path of a workflow is for that workflow. -/
theorem Request.endpoint?_of_pathOf {r : Request} {id : String} (hid : id ≠ "")
    (hpath : r.path = Endpoint.pathOf id) : r.endpoint? = some (.workflow id) := by
  rw [endpoint?, hpath, Endpoint.ofPath?_pathOf hid, Option.bind_some, Endpoint.resolve?,
    Text.Percent.decode?_encode]
  rfl

end WorkflowCanvas.Service
