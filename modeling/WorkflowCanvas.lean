import WorkflowCanvas.Json.Printer
import WorkflowCanvas.Service.Exchange
import WorkflowCanvas.Service.Settings
import WorkflowCanvas.Proofs.Session.Table
import WorkflowCanvas.Proofs.Gesture.Connecting
import WorkflowCanvas.Proofs.Service.Dropping
import WorkflowCanvas.Proofs.Service.Statuses
import WorkflowCanvas.Proofs.Drop.Target
import WorkflowCanvas.Proofs.Drop.Independence
import WorkflowCanvas.Proofs.Service.Stacking
import WorkflowCanvas.Proofs.Drop.Marking
import WorkflowCanvas.Proofs.Service.Acting
import WorkflowCanvas.Proofs.Service.Commuting
import WorkflowCanvas.Proofs.Service.Frame
import WorkflowCanvas.Proofs.Snapshot.Precedence
import WorkflowCanvas.Proofs.Service.Isolation
import WorkflowCanvas.Proofs.Model.RoundTrip
import WorkflowCanvas.Proofs.Service.Saving
import WorkflowCanvas.Proofs.Geometry.Containment
import WorkflowCanvas.Proofs.Nesting.Stability
import WorkflowCanvas.Proofs.Drop.Phases
import WorkflowCanvas.Proofs.Nesting.Stack
import WorkflowCanvas.Proofs.Service.Telling
import WorkflowCanvas.Proofs.Drop.Modes
import WorkflowCanvas.Proofs.Drop.Climbing
import WorkflowCanvas.Proofs.Gesture.Sequence
import WorkflowCanvas.Proofs.Drop.Publishing
import WorkflowCanvas.Proofs.Nesting.Ascent
import WorkflowCanvas.Proofs.Json.Members
import WorkflowCanvas.Proofs.Model.Carrying
