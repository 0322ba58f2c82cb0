import WorkflowCanvas.Snapshot.Compile

/-!
The workflows that are open.

The store maps ids to snapshots, and keeps them in the order of the ids. Whatever comes in goes
through `Snapshot.compile` first, so only checked snapshots in their stored form are ever held. An
operation that fails leaves no trace, since it gives no new store.
-/

namespace WorkflowCanvas.Session

/-- Why an operation on open workflows fails. -/
inductive Error
  | notOpen (id : String)
  | alreadyOpen (id : String)
  | invalid (fault : Snapshot.Fault)
  | unknownNode (workflow node : String)
  | lockedNode (workflow node : String)
  | unknownEdge (workflow edge : String)
  deriving DecidableEq, Repr

namespace Error

def message : Error → String
  | notOpen id => "Workflow not found: " ++ id
  | alreadyOpen id => "Workflow '" ++ id ++ "' is already open"
  | invalid fault => fault.message
  | unknownNode workflow node =>
    "Node '" ++ node ++ "' not found in workflow '" ++ workflow ++ "'"
  | lockedNode workflow node => "Node '" ++ node ++ "' in workflow '" ++ workflow ++ "' is locked"
  | unknownEdge workflow edge =>
    "Edge '" ++ edge ++ "' not found in workflow '" ++ workflow ++ "'"

/-- Whether the fault lies in a snapshot, and not in what it was asked to be done with. -/
def isValidation : Error → Bool
  | invalid _ => true
  | _ => false

end Error

structure Store (K : Type) where
  entries : List (String × Workflow K) := []

namespace Store

variable {K : Type}

def get? (s : Store K) (id : String) : Option (Workflow K) := s.entries.lookup id

/-- The ids of the open workflows, in ascending order. -/
def ids (s : Store K) : List String := s.entries.map Prod.fst

/-- The entries with one more, in its place in the order, and in place of one under the same id. -/
def insertEntry (id : String) (w : Workflow K) :
    List (String × Workflow K) → List (String × Workflow K)
  | [] => [(id, w)]
  | (k, v) :: rest =>
    if id < k then (id, w) :: (k, v) :: rest
    else if id = k then (id, w) :: rest
    else (k, v) :: insertEntry id w rest

/-- Stores a snapshot under its own id. -/
def put (s : Store K) (w : Workflow K) : Store K := ⟨insertEntry w.id w s.entries⟩

/-- Checks a workflow and stores it. -/
def compileAndPut (s : Store K) (w : Workflow K) : Except Error (Store K × Workflow K) :=
  match Snapshot.compile w with
  | .error fault => .error (.invalid fault)
  | .ok snapshot => .ok (s.put snapshot, snapshot)

/-- Opens a workflow that is not open yet. -/
def openWorkflow (s : Store K) (w : Workflow K) : Except Error (Store K × Workflow K) :=
  if (s.get? w.id).isSome then .error (.alreadyOpen w.id) else s.compileAndPut w

/-- Puts a workflow in the place of the open one with the same id. -/
def replace (s : Store K) (w : Workflow K) : Except Error (Store K × Workflow K) :=
  if (s.get? w.id).isSome then s.compileAndPut w else .error (.notOpen w.id)

/-- Changes an open workflow. The change may tell something about itself, which is handed on. -/
def update {α : Type} (s : Store K) (id : String) (change : Workflow K → Workflow K × α) :
    Except Error (Store K × Workflow K × α) :=
  match s.get? id with
  | none => .error (.notOpen id)
  | some w => do
    let (w, told) := change w
    let (s, snapshot) ← s.compileAndPut w
    .ok (s, snapshot, told)

/-- Changes the nodes of an open workflow. -/
def updateNodes {α : Type} (s : Store K) (id : String)
    (change : List (Node K) → List (Node K) × α) : Except Error (Store K × Workflow K × α) :=
  s.update id fun w => ({ w with nodes := (change w.nodes).1 }, (change w.nodes).2)

/-- Changes the edges of an open workflow. -/
def updateEdges {α : Type} (s : Store K) (id : String) (change : List Edge → List Edge × α) :
    Except Error (Store K × Workflow K × α) :=
  s.update id fun w => ({ w with edges := (change w.edges).1 }, (change w.edges).2)

/-- Closes a workflow; there is no new store if it was not open. -/
def close? (s : Store K) (id : String) : Option (Store K) :=
  if (s.get? id).isSome then some ⟨s.entries.filter fun e => e.1 ≠ id⟩ else none

end Store

end WorkflowCanvas.Session
