import WorkflowCanvas.Gesture.Connecting
import WorkflowCanvas.Gesture.Dropping
import WorkflowCanvas.Gesture.Locking
import WorkflowCanvas.Session.Store

/-!
What clients ask of the service, and what it does.

Each operation is carried out on the store as a whole, one after the other. What is stored before an
operation is refused stays stored. The refusals for a locked or unknown node and for an unknown edge
come only after the snapshot has been checked and stored again.
-/

namespace WorkflowCanvas.Service

open Session

inductive Operation (K : Type)
  | openWorkflow (workflow : Workflow K)
  | list
  | get (workflow : String)
  | replace (workflow : String) (content : Workflow K)
  | close (workflow : String)
  | drop (workflow node : String) (place : Point K)
  | lock (workflow node : String)
  | connect (workflow : String) (wiring : Wiring)
  | disconnect (workflow edge : String)

inductive Reply (K : Type)
  | opened (id name : String)
  | updated (id name : String)
  | ids (ids : List String)
  | snapshot (workflow : Workflow K)
  | closed
  | dropped (node : Node K) (transition : Option (Transition K))
  | locked (node : String) (locked : Bool) (ids : List String)
  | edges (edges : List Edge)

/-- The open workflows, and how many ids were given to workflows that came without one. -/
structure State (K : Type) where
  store : Store K := {}
  issued : Nat := 0

/-- Why an operation is refused, and the state that it leaves behind. -/
structure Refusal (K : Type) where
  error : Error
  state : State K

/-- What may end in a refusal. -/
abbrev Attempt (K : Type) := Except (Refusal K)

variable {K : Type}

/-- What an operation on the store of `s` gives. One that fails has stored nothing. -/
def State.attempt {α : Type} (s : State K) (outcome : Except Error α) : Attempt K α :=
  outcome.mapError fun error => ⟨error, s⟩

/-- Opens a workflow. One without an id gets the next new one. -/
def openWorkflow (newId : Nat → String) (s : State K) (w : Workflow K) :
    Attempt K (State K × Reply K) := do
  let fresh := w.id = ""
  let w := if fresh then { w with id := newId s.issued } else w
  let (store, w) ← s.attempt (s.store.openWorkflow w)
  .ok (⟨store, if fresh then s.issued + 1 else s.issued⟩, .opened w.id w.name)

def replace (s : State K) (id : String) (w : Workflow K) : Attempt K (State K × Reply K) := do
  let (store, w) ← s.attempt (s.store.replace { w with id })
  .ok ({ s with store }, .updated w.id w.name)

def drop [Scalar K] (mode : Containment) (s : State K) (id node : String) (place : Point K) :
    Attempt K (State K × Reply K) := do
  let (store, w, outcome) ← s.attempt
    (s.store.updateNodes id fun nodes => Gesture.drop mode nodes node place)
  let s := { s with store }
  match outcome, Node.first? w.nodes node with
  | .locked, _ => .error ⟨.lockedNode id node, s⟩
  | .dropped transition, some n => .ok (s, .dropped n transition)
  | _, _ => .error ⟨.unknownNode id node, s⟩

/-- The nodes with the lock of one flipped, and the new state of the lock if there is such a node. -/
def turnLock (node : String) (nodes : List (Node K)) : List (Node K) × Option Bool :=
  match Gesture.toggleLock? nodes node with
  | some (nodes, locked) => (nodes, some locked)
  | none => (nodes, none)

def lock (s : State K) (id node : String) : Attempt K (State K × Reply K) := do
  let (store, w, locked?) ← s.attempt (s.store.updateNodes id (turnLock node))
  let s := { s with store }
  match locked? with
  | some locked => .ok (s, .locked node locked (Gesture.lockedIds w.nodes))
  | none => .error ⟨.unknownNode id node, s⟩

def connect (s : State K) (id : String) (wiring : Wiring) : Attempt K (State K × Reply K) := do
  let (store, w, _) ← s.attempt
    (s.store.updateEdges id fun edges => (Gesture.connect edges wiring, ()))
  .ok ({ s with store }, .edges w.edges)

/-- The edges without those of an id, and whether there were any. -/
def removeEdge (edge : String) (edges : List Edge) : List Edge × Bool :=
  match Gesture.disconnect? edges edge with
  | some edges => (edges, true)
  | none => (edges, false)

def disconnect (s : State K) (id edge : String) : Attempt K (State K × Reply K) := do
  let (store, w, removed) ← s.attempt (s.store.updateEdges id (removeEdge edge))
  let s := { s with store }
  if removed then .ok (s, .edges w.edges) else .error ⟨.unknownEdge id edge, s⟩

/-- Carries out an operation: a new state and a reply, or a refusal. -/
def perform [Scalar K] (mode : Containment) (newId : Nat → String) (s : State K) :
    Operation K → Attempt K (State K × Reply K)
  | .openWorkflow w => openWorkflow newId s w
  | .list => .ok (s, .ids s.store.ids)
  | .get id =>
    match s.store.get? id with
    | some w => .ok (s, .snapshot w)
    | none => .error ⟨.notOpen id, s⟩
  | .replace id w => replace s id w
  | .close id =>
    match s.store.close? id with
    | some store => .ok ({ s with store }, .closed)
    | none => .error ⟨.notOpen id, s⟩
  | .drop id node place => drop mode s id node place
  | .lock id node => lock s id node
  | .connect id wiring => connect s id wiring
  | .disconnect id edge => disconnect s id edge

end WorkflowCanvas.Service
