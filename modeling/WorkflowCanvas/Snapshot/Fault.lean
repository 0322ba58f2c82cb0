/-!
What can be wrong with the snapshot of a workflow.
-/

namespace WorkflowCanvas.Snapshot

inductive Fault
  | emptyName
  | duplicateNode (id : String)
  | unknownParent (node parent : String)
  | parentNotBatch (node parent : String)
  | parentCycle (node : String)
  | unknownEndpoint (edge node : String)
  deriving DecidableEq, Repr

def Fault.message : Fault → String
  | emptyName => "Workflow must have a non-empty name"
  | duplicateNode id => "Duplicate node id '" ++ id ++ "'"
  | unknownParent node parent =>
    "Node '" ++ node ++ "' references unknown parent '" ++ parent ++ "'"
  | parentNotBatch node parent =>
    "Node '" ++ node ++ "' has parent '" ++ parent ++ "', which is not a batch node"
  | parentCycle node => "Parent relation contains a cycle through node '" ++ node ++ "'"
  | unknownEndpoint edge node =>
    "Edge '" ++ edge ++ "' references unknown node '" ++ node ++ "'"

end WorkflowCanvas.Snapshot
