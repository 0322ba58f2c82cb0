import WorkflowCanvas.Proofs.Drop.Marking
import WorkflowCanvas.Proofs.Gesture.Connecting
import WorkflowCanvas.Proofs.Service.Gestures

/-!
Gestures as functions.

On a stored snapshot a gesture is a function: it gives new nodes or new edges, or it is refused. The
types alone say that drops and locks do not ask for the edges, and that nothing changes both. Drops
and locks keep the ids of the nodes, leave the other nodes as they are, and do not ask whether these
are locked.
-/

namespace WorkflowCanvas

open Session

variable {K : Type}

/-! ### Gestures as functions -/

namespace Service

/-- A drop or a lock. -/
inductive NodeGesture (K : Type)
  | drop (node : String) (place : Point K)
  | lock (node : String)

namespace NodeGesture

def node : NodeGesture K → String
  | drop node _ | lock node => node

def operation (id : String) : NodeGesture K → Operation K
  | drop node place => .drop id node place
  | lock node => .lock id node

@[simp] theorem canvas?_operation (g : NodeGesture K) (id : String) :
    (g.operation id).canvas? = some id := by
  cases g <;> rfl

/-- What a gesture makes of the nodes of a stored snapshot, and what it is answered. -/
def act [Scalar K] (mode : Containment) (id : String) (nodes : List (Node K)) :
    NodeGesture K → Except Error (List (Node K) × Reply K)
  | drop node place =>
    match Node.first? nodes node with
    | none => .error (.unknownNode id node)
    | some n =>
      if n.data.locked then .error (.lockedNode id node)
      else
        let landed := Drop.landed mode nodes n place
        .ok (Nesting.parentsFirst (Drop.replace nodes landed),
          .dropped landed (Transition.between? n landed))
  | lock node =>
    match Node.first? nodes node with
    | none => .error (.unknownNode id node)
    | some n =>
      let nodes := nodes.map (Gesture.lockNode node !n.data.locked)
      .ok (nodes, .locked node (!n.data.locked) (Gesture.lockedIds nodes))

end NodeGesture

end Service

namespace Gesture.EdgeGesture

open Service

def operation (id : String) : EdgeGesture → Operation K
  | connect wiring => .connect id wiring
  | disconnect edge => .disconnect id edge

@[simp] theorem canvas?_operation (g : EdgeGesture) (id : String) :
    (g.operation id : Operation K).canvas? = some id := by
  cases g <;> rfl

/-- What a gesture makes of the edges of a stored snapshot, and what it is answered. -/
def act (id : String) (nodes : List (Node K)) (edges : List Edge) :
    EdgeGesture → Except Error (List Edge × Reply K)
  | connect wiring =>
    match Snapshot.edgeFault? nodes ⟨wiring.edgeId, wiring⟩ with
    | some fault => .error (.invalid fault)
    | none => .ok (Gesture.connect edges wiring, .edges (Gesture.connect edges wiring))
  | disconnect edge =>
    match Gesture.disconnect? edges edge with
    | none => .error (.unknownEdge id edge)
    | some rest => .ok (rest, .edges rest)

end Gesture.EdgeGesture

namespace Service

/-- What an operation gives that stores a snapshot, or is refused before it does. -/
def State.settling (s : State K) :
    Except Error (Workflow K × Reply K) → Attempt K (State K × Reply K)
  | .ok (w, reply) => .ok (s.storing w, reply)
  | .error e => .error ⟨e, s⟩

variable [Scalar K] {mode : Containment} {newId : Nat → String} {s : State K} {w : Workflow K}
  {id : String}

theorem perform_nodeGesture (mode : Containment) (newId : Nat → String) (hs : s.store.Reachable)
    (hopen : s.store.get? id = some w) (g : NodeGesture K) :
    perform mode newId s (g.operation id) =
      s.settling ((g.act mode id w.nodes).map fun (nodes, reply) => ({ w with nodes }, reply)) := by
  have hanswered := answered_perform mode newId hs (g.canvas?_operation id)
  generalize perform mode newId s (g.operation id) = answer at hanswered
  cases g with
  | drop node place =>
      cases hanswered with
      | notOpen hid hclosed => simp [← Option.some.inj hid, hopen] at hclosed
      | dropUnknown hopen' hn =>
          obtain rfl := Option.some.inj (hopen.symm.trans hopen')
          simp only [NodeGesture.act, hn]
          rfl
      | dropLocked hopen' hn hlocked | dropped hopen' hn hlocked =>
          obtain rfl := Option.some.inj (hopen.symm.trans hopen')
          simp only [NodeGesture.act, hn, hlocked]
          rfl
  | lock node =>
      cases hanswered with
      | notOpen hid hclosed => simp [← Option.some.inj hid, hopen] at hclosed
      | lockUnknown hopen' hn =>
          obtain rfl := Option.some.inj (hopen.symm.trans hopen')
          simp only [NodeGesture.act, hn]
          rfl
      | lockTurned hopen' hn hnodes =>
          obtain rfl := Option.some.inj (hopen.symm.trans hopen')
          simp only [NodeGesture.act, hn, hnodes]
          rfl

theorem perform_edgeGesture (mode : Containment) (newId : Nat → String) (hs : s.store.Reachable)
    (hopen : s.store.get? id = some w) (g : Gesture.EdgeGesture) :
    perform mode newId s (g.operation id) =
      s.settling
        ((g.act id w.nodes w.edges).map fun (edges, reply) => ({ w with edges }, reply)) := by
  have hanswered := answered_perform mode newId hs (g.canvas?_operation (K := K) id)
  generalize perform mode newId s (g.operation id) = answer at hanswered
  cases g with
  | connect wiring =>
      cases hanswered with
      | notOpen hid hclosed => simp [← Option.some.inj hid, hopen] at hclosed
      | connectDangling hopen' hends | connected hopen' hends =>
          obtain rfl := Option.some.inj (hopen.symm.trans hopen')
          simp only [Gesture.EdgeGesture.act, hends]
          rfl
  | disconnect edge =>
      cases hanswered with
      | notOpen hid hclosed => simp [← Option.some.inj hid, hopen] at hclosed
      | disconnectUnknown hopen' hrest | disconnected hopen' hrest =>
          obtain rfl := Option.some.inj (hopen.symm.trans hopen')
          simp only [Gesture.EdgeGesture.act, hrest]
          rfl

/-! ### What gestures change -/

namespace NodeGesture

variable {g : NodeGesture K} {nodes nodes' : List (Node K)} {reply : Reply K} {other : String}

/-- What a gesture that is carried out makes of the nodes. -/
theorem act_eq_ok (h : g.act mode id w.nodes = .ok (nodes', reply)) :
    ∃ n ∈ w.nodes, n.id = g.node ∧
      ((∃ place, nodes' = (afterDrop mode w n place).nodes) ∨
        nodes' = w.nodes.map (Gesture.lockNode n.id !n.data.locked)) := by
  cases g with
  | drop node place =>
      rw [act] at h
      split at h
      · cases h
      · rename_i n hn
        split at h
        · cases h
        · obtain ⟨hmem, hid⟩ := Node.mem_of_first? hn
          exact ⟨n, hmem, hid, .inl ⟨place, (Prod.mk.inj (Except.ok.inj h)).1.symm⟩⟩
  | lock node =>
      rw [act] at h
      split at h
      · cases h
      · rename_i n hn
        obtain ⟨hmem, rfl⟩ := Node.mem_of_first? hn
        exact ⟨n, hmem, rfl, .inr (Prod.mk.inj (Except.ok.inj h)).1.symm⟩

theorem ids_perm_of_act (hw : Snapshot.Valid w) (h : g.act mode id w.nodes = .ok (nodes', reply)) :
    (nodes'.map Node.id).Perm (w.nodes.map Node.id) := by
  obtain ⟨n, hn, _, ⟨place, rfl⟩ | rfl⟩ := act_eq_ok h
  · exact ids_perm_afterDrop hw hn mode place
  · rw [(Gesture.keepsNesting_lockNode _ _).map_id]

theorem first?_of_act (hw : Snapshot.Valid w) (h : g.act mode id w.nodes = .ok (nodes', reply))
    (hother : other ≠ g.node) : Node.first? nodes' other = Node.first? w.nodes other := by
  obtain ⟨n, hn, hid, ⟨place, rfl⟩ | rfl⟩ := act_eq_ok h
  · exact first?_afterDrop_of_ne hw hn mode place (hid ▸ hother)
  · exact Gesture.first?_map_lockNode_of_ne (hid ▸ hother) _ _

/-- A gesture on one node does with the mark of another node what it does without. -/
theorem act_lockNode (hother : other ≠ g.node) (mode : Containment) (id : String)
    (nodes : List (Node K)) (locked : Bool) :
    (∃ e, g.act mode id nodes = .error e ∧
        g.act mode id (nodes.map (Gesture.lockNode other locked)) = .error e) ∨
      ∃ nodes' reply reply', g.act mode id nodes = .ok (nodes', reply) ∧
        g.act mode id (nodes.map (Gesture.lockNode other locked)) =
          .ok (nodes'.map (Gesture.lockNode other locked), reply') := by
  have hlayout := Gesture.keepsLayout_lockNode (K := K) other locked
  have hfirst := Gesture.first?_map_lockNode_of_ne hother.symm locked nodes
  cases g with
  | drop node place =>
      simp only [NodeGesture.node] at hfirst hother
      simp only [act, hfirst]
      cases hn : Node.first? nodes node with
      | none => exact .inl ⟨_, rfl, rfl⟩
      | some n =>
          obtain ⟨_, rfl⟩ := Node.mem_of_first? hn
          cases hlocked : n.data.locked with
          | true =>
              simp only [hlocked, if_true]
              exact .inl ⟨_, rfl, rfl⟩
          | false =>
              have hmoved : Gesture.lockNode other locked (Drop.moved n place) =
                  Drop.moved n place := Gesture.lockNode_of_ne hother.symm
              have hlanded : Gesture.lockNode other locked (Drop.landed mode nodes n place) =
                  Drop.landed mode nodes n place :=
                Gesture.lockNode_of_ne (by rw [Drop.landed_id]; exact hother.symm)
              simp only [hlocked, Bool.false_eq_true, if_false, hlayout.landed_map hmoved,
                hlayout.replace_map hlanded, hlayout.map_parentsFirst]
              exact .inr ⟨_, _, _, rfl, rfl⟩
  | lock node =>
      simp only [NodeGesture.node] at hfirst hother
      simp only [act, hfirst]
      cases hn : Node.first? nodes node with
      | none => exact .inl ⟨_, rfl, rfl⟩
      | some n =>
          have hcomm : (nodes.map (Gesture.lockNode other locked)).map
              (Gesture.lockNode node !n.data.locked) =
                (nodes.map (Gesture.lockNode node !n.data.locked)).map
                  (Gesture.lockNode other locked) := by
            rw [List.map_map, List.map_map, Gesture.lockNode_comm hother]
          simp only [hcomm]
          exact .inr ⟨_, _, _, rfl, rfl⟩

end NodeGesture

end Service

end WorkflowCanvas
