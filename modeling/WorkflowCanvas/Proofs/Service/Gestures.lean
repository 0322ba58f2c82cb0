import WorkflowCanvas.Proofs.Gesture.Connecting
import WorkflowCanvas.Proofs.Gesture.Locking
import WorkflowCanvas.Proofs.Service.Dropping
import WorkflowCanvas.Proofs.Session.Table

/-!
What gestures on the canvas are answered.

A gesture is refused for what clients can see: the workflow is not open, the node or the edge is
not there, the node to be dropped is locked, an end of the new edge is no node. All else that a
snapshot is checked for holds of what is stored, and no gesture breaks it.

Every refusal leaves the state it met. For some, the snapshot was checked and stored again before,
which leaves no trace because what is stored is its own stored form.
-/

namespace WorkflowCanvas.Service

open Session

variable {K : Type} {s : State K} {w : Workflow K} {n : Node K} {id node edge : String}

/-! ### Changes that gestures make -/

theorem turnLock_of_first? (h : Node.first? w.nodes node = some n) :
    turnLock node w.nodes =
      (w.nodes.map (Gesture.lockNode node !n.data.locked), some !n.data.locked) := by
  rw [turnLock, Gesture.toggleLock?_of_first? h]

theorem turnLock_of_missing (h : Node.first? w.nodes node = none) :
    turnLock node w.nodes = (w.nodes, none) := by
  rw [turnLock, Gesture.toggleLock?_of_missing h]

theorem stored_connect (h : Snapshot.Stored w) {wiring : Wiring}
    (hends : Snapshot.edgeFault? w.nodes ⟨wiring.edgeId, wiring⟩ = none) :
    Snapshot.Stored { w with edges := Gesture.connect w.edges wiring } := by
  refine h.withEdges fun e he => ?_
  rcases Gesture.mem_connect he with he | rfl
  · exact h.edges e he
  · exact Snapshot.edgeFault?_eq_none_iff.mp hends

/-- A wiring with an end that is no node is none that a stored edge has. -/
theorem connect_of_fault (h : Snapshot.Stored w) {wiring : Wiring} {fault : Snapshot.Fault}
    (hends : Snapshot.edgeFault? w.nodes ⟨wiring.edgeId, wiring⟩ = some fault) :
    Gesture.connect w.edges wiring = w.edges ++ [⟨wiring.edgeId, wiring⟩] := by
  refine Gesture.connect_of_new ?_
  rintro e he rfl
  exact Snapshot.dangling_of_edgeFault? hends (h.edges e he)

theorem stored_disconnect (h : Snapshot.Stored w) {rest : List Edge}
    (hrest : Gesture.disconnect? w.edges edge = some rest) :
    Snapshot.Stored { w with edges := rest } := by
  obtain ⟨_, rfl⟩ := Gesture.disconnect?_eq_some_iff.mp hrest
  exact h.withEdges fun e he => h.edges e (List.mem_of_mem_filter he)

/-! ### Answers -/

/-- The workflow on whose canvas an operation is a gesture. -/
def Operation.canvas? : Operation K → Option String
  | drop id _ _ | lock id _ | connect id _ | disconnect id _ => some id
  | _ => none

/-- The state with a snapshot stored. -/
def State.storing (s : State K) (w : Workflow K) : State K := { s with store := s.store.put w }

variable [Scalar K]

/-- The answers to gestures, and when each is given. -/
inductive Answered (mode : Containment) (s : State K) :
    Operation K → Attempt K (State K × Reply K) → Prop
  | notOpen {operation : Operation K} {id : String} : operation.canvas? = some id →
      s.store.get? id = none → Answered mode s operation (.error ⟨.notOpen id, s⟩)
  | dropUnknown {id node : String} {w : Workflow K} {place : Point K} :
      s.store.get? id = some w → Node.first? w.nodes node = none →
      Answered mode s (.drop id node place) (.error ⟨.unknownNode id node, s⟩)
  | dropLocked {id node : String} {w : Workflow K} {n : Node K} {place : Point K} :
      s.store.get? id = some w → Node.first? w.nodes node = some n → n.data.locked = true →
      Answered mode s (.drop id node place) (.error ⟨.lockedNode id node, s⟩)
  | dropped {id node : String} {w : Workflow K} {n : Node K} {place : Point K} :
      s.store.get? id = some w → Node.first? w.nodes node = some n → n.data.locked = false →
      Answered mode s (.drop id node place)
        (.ok (s.storing (afterDrop mode w n place),
          .dropped (Drop.landed mode w.nodes n place)
            (Transition.between? n (Drop.landed mode w.nodes n place))))
  | lockUnknown {id node : String} {w : Workflow K} :
      s.store.get? id = some w → Node.first? w.nodes node = none →
      Answered mode s (.lock id node) (.error ⟨.unknownNode id node, s⟩)
  | lockTurned {id node : String} {w : Workflow K} {n : Node K} {nodes : List (Node K)} :
      s.store.get? id = some w → Node.first? w.nodes node = some n →
      nodes = w.nodes.map (Gesture.lockNode node !n.data.locked) →
      Answered mode s (.lock id node)
        (.ok (s.storing { w with nodes },
          .locked node (!n.data.locked) (Gesture.lockedIds nodes)))
  | connectDangling {id : String} {w : Workflow K} {wiring : Wiring} {fault : Snapshot.Fault} :
      s.store.get? id = some w →
      Snapshot.edgeFault? w.nodes ⟨wiring.edgeId, wiring⟩ = some fault →
      Answered mode s (.connect id wiring) (.error ⟨.invalid fault, s⟩)
  | connected {id : String} {w : Workflow K} {wiring : Wiring} :
      s.store.get? id = some w →
      Snapshot.edgeFault? w.nodes ⟨wiring.edgeId, wiring⟩ = none →
      Answered mode s (.connect id wiring)
        (.ok (s.storing { w with edges := Gesture.connect w.edges wiring },
          .edges (Gesture.connect w.edges wiring)))
  | disconnectUnknown {id edge : String} {w : Workflow K} :
      s.store.get? id = some w → Gesture.disconnect? w.edges edge = none →
      Answered mode s (.disconnect id edge) (.error ⟨.unknownEdge id edge, s⟩)
  | disconnected {id edge : String} {w : Workflow K} {rest : List Edge} :
      s.store.get? id = some w → Gesture.disconnect? w.edges edge = some rest →
      Answered mode s (.disconnect id edge)
        (.ok (s.storing { w with edges := rest }, .edges rest))

variable {mode : Containment} {newId : Nat → String}

theorem answered_drop (hs : s.store.Reachable) (place : Point K) :
    Answered mode s (.drop id node place) (perform mode newId s (.drop id node place)) := by
  cases hopen : s.store.get? id with
  | none =>
      rw [perform, drop, Store.updateNodes_of_closed hopen]
      exact .notOpen rfl hopen
  | some w =>
      cases hn : Node.first? w.nodes node with
      | none =>
          have hchange : Gesture.drop mode w.nodes node place = (w.nodes, .unknown) := by
            rw [Gesture.drop, hn]
          rw [perform, drop, hs.updateNodes_of_unchanged hopen hchange]
          exact .dropUnknown hopen hn
      | some n =>
          cases hlocked : n.data.locked with
          | true =>
              have hchange : Gesture.drop mode w.nodes node place = (w.nodes, .locked) := by
                simp only [Gesture.drop, hn, hlocked, if_true]
              rw [perform, drop, hs.updateNodes_of_unchanged hopen hchange]
              exact .dropLocked hopen hn hlocked
          | false =>
              rw [perform_drop hs.sound hopen hn hlocked]
              exact .dropped hopen hn hlocked

theorem answered_lock (hs : s.store.Reachable) :
    Answered mode s (.lock id node) (perform mode newId s (.lock id node)) := by
  cases hopen : s.store.get? id with
  | none =>
      rw [perform, lock, Store.updateNodes_of_closed hopen]
      exact .notOpen rfl hopen
  | some w =>
      cases hn : Node.first? w.nodes node with
      | none =>
          rw [perform, lock, hs.updateNodes_of_unchanged hopen (turnLock_of_missing hn)]
          exact .lockUnknown hopen hn
      | some n =>
          have hstored := (Gesture.keepsNesting_lockNode node !n.data.locked).stored_map
            (hs.sound.of_get? hopen).2
          rw [perform, lock, Store.updateNodes_of_stored hopen (turnLock_of_first? hn) hstored]
          exact .lockTurned hopen hn rfl

theorem answered_connect (hs : s.store.Reachable) (wiring : Wiring) :
    Answered mode s (.connect id wiring) (perform mode newId s (.connect id wiring)) := by
  cases hopen : s.store.get? id with
  | none =>
      rw [perform, connect, Store.updateEdges_of_closed hopen]
      exact .notOpen rfl hopen
  | some w =>
      have hw := (hs.sound.of_get? hopen).2
      cases hends : Snapshot.edgeFault? w.nodes ⟨wiring.edgeId, wiring⟩ with
      | some fault =>
          -- the new edge is the only one with a fault, so that is the first fault
          have hfault := (hw.fault?_append_edge ⟨wiring.edgeId, wiring⟩).trans hends
          rw [← connect_of_fault hw hends] at hfault
          have hupdate : s.store.updateEdges id (fun edges => (Gesture.connect edges wiring, ())) =
              .error (.invalid fault) := Store.updateEdges_of_fault hopen rfl hfault
          rw [perform, connect, hupdate]
          exact .connectDangling hopen hends
      | none =>
          have hchange : (fun edges => (Gesture.connect edges wiring, ())) w.edges =
              (Gesture.connect w.edges wiring, ()) := rfl
          rw [perform, connect, Store.updateEdges_of_stored hopen hchange (stored_connect hw hends)]
          exact .connected hopen hends

theorem answered_disconnect (hs : s.store.Reachable) :
    Answered mode s (.disconnect id edge) (perform mode newId s (.disconnect id edge)) := by
  cases hopen : s.store.get? id with
  | none =>
      rw [perform, disconnect, Store.updateEdges_of_closed hopen]
      exact .notOpen rfl hopen
  | some w =>
      cases hrest : Gesture.disconnect? w.edges edge with
      | none =>
          have hchange : removeEdge edge w.edges = (w.edges, false) := by rw [removeEdge, hrest]
          rw [perform, disconnect, hs.updateEdges_of_unchanged hopen hchange]
          exact .disconnectUnknown hopen hrest
      | some rest =>
          have hchange : removeEdge edge w.edges = (rest, true) := by rw [removeEdge, hrest]
          have hstored := stored_disconnect (hs.sound.of_get? hopen).2 hrest
          rw [perform, disconnect, Store.updateEdges_of_stored hopen hchange hstored]
          exact .disconnected hopen hrest

/-- Every gesture on what a store can hold is answered so. -/
theorem answered_perform (mode : Containment) (newId : Nat → String) (hs : s.store.Reachable)
    {operation : Operation K} (h : operation.canvas? = some id) :
    Answered mode s operation (perform mode newId s operation) := by
  cases operation with
  | drop _ _ place => exact answered_drop hs place
  | lock => exact answered_lock hs
  | connect _ wiring => exact answered_connect hs wiring
  | disconnect => exact answered_disconnect hs
  | openWorkflow | list | get | replace | close => cases h

/-- What a drop that is carried out has found, and what it leaves. -/
theorem dropped_of_perform {s' : State K} {place : Point K} {reply : Reply K}
    (hs : s.store.Reachable) (hopen : s.store.get? id = some w)
    (hdrop : perform mode newId s (.drop id node place) = .ok (s', reply)) :
    ∃ n, Node.first? w.nodes node = some n ∧ n.data.locked = false ∧
      s' = s.storing (afterDrop mode w n place) ∧
      reply = .dropped (Drop.landed mode w.nodes n place)
        (Transition.between? n (Drop.landed mode w.nodes n place)) := by
  have hanswered : Answered mode s (.drop id node place) (.ok (s', reply)) :=
    hdrop ▸ answered_drop hs place
  generalize hok : Except.ok (s', reply) = answer at hanswered
  cases hanswered with
  | notOpen | dropUnknown | dropLocked => cases hok
  | dropped hopen' hn hunlocked =>
      obtain rfl := Option.some.inj (hopen.symm.trans hopen')
      obtain ⟨rfl, rfl⟩ := Prod.mk.inj (Except.ok.inj hok)
      exact ⟨_, hn, hunlocked, rfl, rfl⟩

theorem Answered.state_eq {operation : Operation K} {refusal : Refusal K}
    (h : Answered mode s operation (.error refusal)) : refusal.state = s := by
  cases h <;> rfl

end WorkflowCanvas.Service
