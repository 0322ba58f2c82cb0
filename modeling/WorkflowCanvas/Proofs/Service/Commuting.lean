import WorkflowCanvas.Proofs.Service.Acting
import WorkflowCanvas.Proofs.Service.Statuses

/-!
Gestures that commute.

A request for a gesture acts on the snapshot of one workflow only. Where it changes the nodes it
does not ask for the edges. Where it changes the edges it asks for the ids of the nodes alone, and
these never change. A lock changes a mark that no gesture on another node asks for. So all of these
pairs can be asked for in either order, whether they are carried out or refused.
-/

namespace WorkflowCanvas.Service

open Session

/-! ### What gestures read and write -/

/-- What becomes of a stored snapshot, and the response, when an operation on it is carried out or
is refused. -/
def settled (w : Workflow Float) : Except Error (Workflow Float × Reply Float) →
    Workflow Float × Response
  | .ok (w', reply) => (w', ⟨200, .json reply.toJson⟩)
  | .error e => (w, ⟨statusOf e, .empty⟩)

/-- How a request acts on a snapshot: what it makes of it, and how it is answered. -/
abbrev Act := Workflow Float → Workflow Float × Response

/-- The act of a request that is refused for its form. -/
def refusing (status : Nat) : Act := fun w => (w, ⟨status, .empty⟩)

def nodeAct (mode : Containment) (id : String) (g : NodeGesture Float) : Act :=
  fun w => settled w <|
    (g.act mode id w.nodes).map fun (nodes, reply) => ({ w with nodes }, reply)

def edgeAct (id : String) (g : Gesture.EdgeGesture) : Act :=
  fun w => settled w <|
    (g.act id w.nodes w.edges).map fun (edges, reply) => ({ w with edges }, reply)

/-- An act that leaves the edges alone and does not ask for them. The ids of the nodes stay. -/
structure NodesOnly (act : Act) : Prop where
  reads : ∀ w edges, act { w with edges } = ({ (act w).1 with edges }, (act w).2)
  writes : ∀ w, Snapshot.Stored w → ∃ nodes,
    (act w).1 = { w with nodes } ∧ (nodes.map Node.id).Perm (w.nodes.map Node.id)

/-- An act that leaves the nodes alone and asks for nothing but their ids. -/
structure EdgesOnly (act : Act) : Prop where
  reads : ∀ w nodes, (nodes.map Node.id).Perm (w.nodes.map Node.id) →
    act { w with nodes } = ({ (act w).1 with nodes }, (act w).2)
  writes : ∀ w, ∃ edges, (act w).1 = { w with edges }

/-- An act that does not ask for the lock of a node and leaves that as it is. -/
structure BesideLock (node : String) (act : Act) : Prop where
  reads : ∀ w locked, (act { w with nodes := w.nodes.map (Gesture.lockNode node locked) }).1 =
      { (act w).1 with nodes := (act w).1.nodes.map (Gesture.lockNode node locked) } ∧
    (act { w with nodes := w.nodes.map (Gesture.lockNode node locked) }).2.status = (act w).2.status
  writes : ∀ w, Snapshot.Stored w →
    Node.first? (act w).1.nodes node = Node.first? w.nodes node

/-- In either order two acts make the same of a snapshot, and what is seen of their responses is
the same. -/
structure CommuteOn {α : Type} (seen : Response → α) (act₁ act₂ : Act) (w : Workflow Float) :
    Prop where
  snapshot : (act₂ (act₁ w).1).1 = (act₁ (act₂ w).1).1
  first : seen (act₁ (act₂ w).1).2 = seen (act₁ w).2
  second : seen (act₂ (act₁ w).1).2 = seen (act₂ w).2

variable {act act₁ act₂ : Act} {status : Nat} {w : Workflow Float} {id node : String}
  {mode : Containment}

theorem nodesOnly_refusing (status : Nat) : NodesOnly (refusing status) where
  reads _ _ := rfl
  writes w _ := ⟨w.nodes, rfl, .refl _⟩

theorem edgesOnly_refusing (status : Nat) : EdgesOnly (refusing status) where
  reads _ _ _ := rfl
  writes w := ⟨w.edges, rfl⟩

theorem besideLock_refusing (node : String) (status : Nat) : BesideLock node (refusing status) where
  reads _ _ := ⟨rfl, rfl⟩
  writes _ _ := rfl

theorem nodesOnly_nodeAct (mode : Containment) (id : String) (g : NodeGesture Float) :
    NodesOnly (nodeAct mode id g) where
  reads w edges := by
    rw [nodeAct, nodeAct]
    cases g.act mode id w.nodes <;> rfl
  writes w hw := by
    rw [nodeAct]
    cases hact : g.act mode id w.nodes with
    | error e => exact ⟨w.nodes, rfl, .refl _⟩
    | ok result => exact ⟨result.1, rfl, NodeGesture.ids_perm_of_act hw.toValid hact⟩

theorem besideLock_nodeAct {g : NodeGesture Float} (hnode : node ≠ g.node) (mode : Containment)
    (id : String) : BesideLock node (nodeAct mode id g) where
  reads w locked := by
    rw [nodeAct, nodeAct]
    rcases g.act_lockNode hnode mode id w.nodes locked with
      ⟨e, hact, hact'⟩ | ⟨nodes, reply, reply', hact, hact'⟩
    · rw [hact, hact']
      exact ⟨rfl, rfl⟩
    · rw [hact, hact']
      exact ⟨rfl, rfl⟩
  writes w hw := by
    rw [nodeAct]
    cases hact : g.act mode id w.nodes with
    | error e => rfl
    | ok result => exact NodeGesture.first?_of_act hw.toValid hact hnode

theorem edgesOnly_edgeAct (id : String) (g : Gesture.EdgeGesture) : EdgesOnly (edgeAct id g) where
  reads w nodes hids := by
    have hact : g.act (K := Float) id nodes w.edges = g.act id w.nodes w.edges := by
      cases g with
      | connect wiring =>
          simp only [Gesture.EdgeGesture.act, Snapshot.edgeFault?_congr fun _ => hids.mem_iff]
      | disconnect edge => rfl
    simp only [edgeAct, hact]
    cases g.act (K := Float) id w.nodes w.edges <;> rfl
  writes w := by
    rw [edgeAct]
    cases g.act id w.nodes w.edges with
    | error e => exact ⟨w.edges, rfl⟩
    | ok result => exact ⟨result.1, rfl⟩

theorem commuteOn_of_nodes_edges (h₁ : NodesOnly act₁) (h₂ : EdgesOnly act₂)
    (h : Snapshot.Stored w) :
    CommuteOn (fun response => response) act₁ act₂ w := by
  obtain ⟨nodes, hnodes, hids⟩ := h₁.writes w h
  obtain ⟨edges, hedges⟩ := h₂.writes w
  have hfirst := h₁.reads w edges
  have hsecond := h₂.reads w nodes hids
  rw [← hedges] at hfirst
  rw [← hnodes] at hsecond
  refine ⟨?_, by rw [hfirst], by rw [hsecond]⟩
  rw [hfirst, hsecond, hnodes, hedges]

theorem commuteOn_refusing (act : Act) (w : Workflow Float) :
    CommuteOn Response.status (refusing status) act w :=
  ⟨rfl, rfl, rfl⟩

theorem lock_of_missing (mode : Containment) (id : String)
    (hn : Node.first? w.nodes node = none) :
    nodeAct mode id (.lock node) w =
      (w, ⟨statusOf (.unknownNode id node), .empty⟩) := by
  simp only [nodeAct, NodeGesture.act, hn]
  rfl

theorem lock_of_first? {n : Node Float} (mode : Containment) (id : String)
    (hn : Node.first? w.nodes node = some n) :
    ∃ body, nodeAct mode id (.lock node) w =
      ({ w with nodes := w.nodes.map (Gesture.lockNode node !n.data.locked) }, ⟨200, body⟩) := by
  simp only [nodeAct, NodeGesture.act, hn]
  exact ⟨_, rfl⟩

theorem commuteOn_lock (hact : BesideLock node act) (hw : Snapshot.Stored w) :
    CommuteOn Response.status (nodeAct mode id (.lock node)) act w := by
  cases hn : Node.first? w.nodes node with
  | none =>
      have hlock := lock_of_missing mode id hn
      have hlock' := lock_of_missing mode id ((hact.writes w hw).trans hn)
      exact ⟨by rw [hlock, hlock'], by rw [hlock, hlock'], by rw [hlock]⟩
  | some n =>
      obtain ⟨_, hlock⟩ := lock_of_first? mode id hn
      obtain ⟨_, hlock'⟩ := lock_of_first? mode id ((hact.writes w hw).trans hn)
      obtain ⟨hsnapshot, hstatus⟩ := hact.reads w (!n.data.locked)
      exact ⟨by rw [hlock, hlock', hsnapshot], by rw [hlock, hlock'], by rw [hlock, hstatus]⟩

/-! ### Requests -/

/-- A request that does nothing but act on the snapshot of one workflow, if that is open. -/
structure ActsOn (app : App) (id : String) (r : Request) (act : Act) : Prop where
  respond : ∀ s w, s.store.Reachable → s.store.get? id = some w →
    app.respond s r = (s.storing (act w).1, (act w).2)
  idle : ∀ s, s.store.Reachable → s.store.get? id = none → (app.respond s r).1 = s
  sameId : ∀ w, (act w).1.id = w.id

/-- In either order two requests lead to the same state, and what is seen of their responses is the
same. -/
structure Commute {α : Type} (app : App) (seen : Response → α) (s : State Float)
    (r₁ r₂ : Request) : Prop where
  state : (app.respond (app.respond s r₁).1 r₂).1 = (app.respond (app.respond s r₂).1 r₁).1
  first : seen (app.respond (app.respond s r₂).1 r₁).2 = seen (app.respond s r₁).2
  second : seen (app.respond (app.respond s r₁).1 r₂).2 = seen (app.respond s r₂).2

variable {app : App} {s : State Float} {r r₁ r₂ : Request}

theorem ActsOn.respond_twice (h₁ : ActsOn app id r₁ act₁) (h₂ : ActsOn app id r₂ act₂)
    (hs : s.store.Reachable) (hopen : s.store.get? id = some w) :
    app.respond (app.respond s r₁).1 r₂ =
      (s.storing (act₂ (act₁ w).1).1, (act₂ (act₁ w).1).2) := by
  have hid := (hs.sound.of_get? hopen).1
  have hfirst := h₁.respond s w hs hopen
  have hreach : (s.storing (act₁ w).1).store.Reachable := by
    have hnext : (app.respond s r₁).1.store.Reachable := App.reachable_respond hs
    rwa [hfirst] at hnext
  have hget : (s.storing (act₁ w).1).store.get? id = some (act₁ w).1 := by
    rw [State.storing, Store.get?_put, if_pos (hid.trans (h₁.sameId w).symm)]
  rw [hfirst, h₂.respond _ _ hreach hget, State.storing, State.storing, State.storing,
    Store.put_overwrite (h₂.sameId _)]

theorem ActsOn.commute {α : Type} {seen : Response → α} (h₁ : ActsOn app id r₁ act₁)
    (h₂ : ActsOn app id r₂ act₂) (hs : s.store.Reachable)
    (hcommute : ∀ w, Snapshot.Stored w → CommuteOn seen act₁ act₂ w) :
    Commute app seen s r₁ r₂ := by
  cases hopen : s.store.get? id with
  | none =>
      have hidle₁ := h₁.idle s hs hopen
      have hidle₂ := h₂.idle s hs hopen
      exact ⟨by rw [hidle₁, hidle₂, hidle₁], by rw [hidle₂], by rw [hidle₁]⟩
  | some w =>
      have hw := hcommute w (hs.sound.of_get? hopen).2
      have hfirst := h₁.respond s w hs hopen
      have hsecond := h₂.respond s w hs hopen
      have htwice := h₁.respond_twice h₂ hs hopen
      have htwice' := h₂.respond_twice h₁ hs hopen
      refine ⟨?_, ?_, ?_⟩
      · rw [htwice, htwice', hw.snapshot]
      · rw [htwice', hfirst, hw.first]
      · rw [htwice, hsecond, hw.second]

/-! ### What requests ask for -/

theorem exists_of_decodeText {α β : Type} {f : α → β} {decoder : Json.Decoder α} {text : String}
    {b : β} (h : Json.decodeText (fun room d => f <$> decoder room d) text = .ok b) :
    ∃ a, Json.decodeText decoder text = .ok a ∧ b = f a := by
  obtain ⟨hmap, hcomplete⟩ := Json.decodeText_eq_ok_iff.mp h
  obtain ⟨a, hdecode, rfl⟩ := Outcome.map_eq_ok_iff.mp hmap
  exact ⟨a, Json.decodeText_eq_ok_iff.mpr ⟨hdecode, hcomplete⟩, rfl⟩

namespace Request

variable {asked : Option (Operation Float)}

theorem asked_of_reader {α : Type} {f : α → Operation Float} {decoder : Json.Decoder α}
    (h : Task.operation? r (.read fun room d => f <$> decoder room d) = .ok asked) :
    ∃ a, r.Carries decoder a ∧ asked = some (f a) := by
  rw [Task.operation?] at h
  split at h
  · cases h
  · rename_i hjson
    split at h
    · cases h
    · rename_i hlong
      split at h
      · rename_i operation hdecode
        obtain ⟨a, ha, rfl⟩ := exists_of_decodeText hdecode
        exact ⟨a, ⟨by simpa using hjson, Nat.le_of_not_lt hlong, ha⟩, (Except.ok.inj h).symm⟩
      · cases h

theorem task_of_endpoint {e : Endpoint} (he : r.endpoint? = some e)
    (hasked : r.operation? = .ok asked) :
    ∃ task, e.task? r.verb = some task ∧ task.operation? r = .ok asked := by
  obtain ⟨e', task, he', htask, hok⟩ := operation?_eq_ok_iff.mp hasked
  obtain rfl := Option.some.inj (he.symm.trans he')
  exact ⟨task, htask, hok⟩

theorem asked_of_drop (he : r.endpoint? = some (.drop id node))
    (hasked : r.operation? = .ok asked) :
    ∃ place, asked = some ((NodeGesture.drop node place).operation id) := by
  obtain ⟨task, htask, hok⟩ := task_of_endpoint he hasked
  obtain rfl := Option.some.inj (Option.ite_none_right_eq_some.mp htask).2
  exact (asked_of_reader hok).imp fun _ => And.right

theorem asked_of_lock (he : r.endpoint? = some (.lock id node))
    (hasked : r.operation? = .ok asked) :
    asked = some ((NodeGesture.lock node).operation id) := by
  obtain ⟨task, htask, hok⟩ := task_of_endpoint he hasked
  obtain rfl := Option.some.inj (Option.ite_none_right_eq_some.mp htask).2
  exact (Except.ok.inj hok).symm

theorem asked_of_edges (he : r.endpoint? = some (.edges id)) (hasked : r.operation? = .ok asked) :
    ∃ wiring, asked = some ((Gesture.EdgeGesture.connect wiring).operation id) := by
  obtain ⟨task, htask, hok⟩ := task_of_endpoint he hasked
  obtain rfl := Option.some.inj (Option.ite_none_right_eq_some.mp htask).2
  exact (asked_of_reader hok).imp fun _ => And.right

theorem asked_of_edge {edge : String} (he : r.endpoint? = some (.edge id edge))
    (hasked : r.operation? = .ok asked) :
    asked = some ((Gesture.EdgeGesture.disconnect edge).operation id) := by
  obtain ⟨task, htask, hok⟩ := task_of_endpoint he hasked
  obtain rfl := Option.some.inj (Option.ite_none_right_eq_some.mp htask).2
  exact (Except.ok.inj hok).symm

end Request

/-! ### Requests for gestures -/

theorem respond_of_settling {operation : Operation Float}
    {outcome : Except Error (Workflow Float × Reply Float)} (hs : s.store.Reachable)
    (hopen : s.store.get? id = some w) (hasks : r.operation? = .ok (some operation))
    (hcanvas : operation.canvas? = some id)
    (hperform : perform app.containment app.newId s operation = s.settling outcome) :
    app.respond s r = (s.storing (settled w outcome).1, (settled w outcome).2) := by
  cases outcome with
  | error e =>
      rw [App.respond_of_refused hasks hperform, settled, State.storing, hs.put_eq_self hopen]
  | ok result => exact App.respond_of_carried_out hasks hcanvas hperform

theorem idle_of_closed {operation : Operation Float} (hs : s.store.Reachable)
    (hclosed : s.store.get? id = none) (hasks : r.operation? = .ok (some operation))
    (hcanvas : operation.canvas? = some id) : (app.respond s r).1 = s := by
  rw [(App.respond_of_operation app s hasks).1]
  exact (answered_perform app.containment app.newId hs hcanvas).stateAfter_of_closed hcanvas hclosed

theorem actsOn_refusing {status : Nat} (app : App) (id : String)
    (h : r.operation? = .error status) : ActsOn app id r (refusing status) where
  respond s w hs hopen := by
    rw [App.respond, h, refusing, State.storing, hs.put_eq_self hopen]
  idle s _ _ := by rw [App.respond, h]
  sameId _ := rfl

theorem actsOn_node {g : NodeGesture Float} (app : App)
    (h : r.operation? = .ok (some (g.operation id))) :
    ActsOn app id r (nodeAct app.containment id g) where
  respond _ _ hs hopen :=
    respond_of_settling hs hopen h (g.canvas?_operation id) (perform_nodeGesture _ _ hs hopen g)
  idle _ hs hclosed := idle_of_closed hs hclosed h (g.canvas?_operation id)
  sameId w := by
    rw [nodeAct]
    cases g.act app.containment id w.nodes <;> rfl

theorem actsOn_edges {g : Gesture.EdgeGesture} (app : App)
    (h : r.operation? = .ok (some (g.operation id))) : ActsOn app id r (edgeAct id g) where
  respond _ _ hs hopen :=
    respond_of_settling hs hopen h (g.canvas?_operation id) (perform_edgeGesture _ _ hs hopen g)
  idle _ hs hclosed := idle_of_closed hs hclosed h (g.canvas?_operation id)
  sameId w := by
    rw [edgeAct]
    cases g.act (K := Float) id w.nodes w.edges <;> rfl

/-- A request to drop or to lock a node. -/
def Request.ForNode (r : Request) (id node : String) : Prop :=
  r.endpoint? = some (.drop id node) ∨ r.endpoint? = some (.lock id node)

/-- A request to connect nodes or to remove an edge. -/
def Request.ForEdges (r : Request) (id : String) : Prop :=
  r.endpoint? = some (.edges id) ∨ ∃ edge, r.endpoint? = some (.edge id edge)

theorem Request.ForNode.exists_act (app : App) (h : r.ForNode id node) :
    ∃ act, ActsOn app id r act ∧ NodesOnly act ∧ ∀ other, other ≠ node → BesideLock other act := by
  cases hasked : r.operation? with
  | error status =>
      exact ⟨_, actsOn_refusing app id hasked, nodesOnly_refusing status,
        fun other _ => besideLock_refusing other status⟩
  | ok asked =>
      obtain ⟨g, rfl, rfl⟩ : ∃ g : NodeGesture Float, g.node = node ∧
          asked = some (g.operation id) := by
        rcases h with he | he
        · obtain ⟨place, rfl⟩ := asked_of_drop he hasked
          exact ⟨.drop node place, rfl, rfl⟩
        · exact ⟨.lock node, rfl, asked_of_lock he hasked⟩
      exact ⟨_, actsOn_node app hasked, nodesOnly_nodeAct _ _ g,
        fun other hother => besideLock_nodeAct hother _ _⟩

theorem Request.ForEdges.exists_act (app : App) (h : r.ForEdges id) :
    ∃ act, ActsOn app id r act ∧ EdgesOnly act := by
  cases hasked : r.operation? with
  | error status => exact ⟨_, actsOn_refusing app id hasked, edgesOnly_refusing status⟩
  | ok asked =>
      obtain ⟨g, rfl⟩ : ∃ g : Gesture.EdgeGesture, asked = some (g.operation id) := by
        rcases h with he | ⟨edge, he⟩
        · obtain ⟨wiring, rfl⟩ := asked_of_edges he hasked
          exact ⟨.connect wiring, rfl⟩
        · exact ⟨.disconnect edge, asked_of_edge he hasked⟩
      exact ⟨_, actsOn_edges app hasked, edgesOnly_edgeAct id g⟩

/-- A request for a drop or a lock and one for a connection or a disconnection can be answered in
either order: the workflows end the same, and each of the two gets the same response. So can a
request for a lock and one for a drop or a lock of another node, except that the list of locked
nodes in a response may differ. -/
theorem gestures_commute (app : App) (hs : s.store.Reachable) (id : String) :
    (∀ r₁ r₂ node, r₁.ForNode id node → r₂.ForEdges id →
      Commute app (fun response => response) s r₁ r₂) ∧
    ∀ r₁ r₂ a b, a ≠ b → r₁.endpoint? = some (.lock id a) → r₂.ForNode id b →
      Commute app Response.status s r₁ r₂ := by
  refine ⟨?_, ?_⟩
  · intro r₁ r₂ node hnode hedges
    obtain ⟨act₁, hact₁, hnodes, _⟩ := hnode.exists_act app
    obtain ⟨act₂, hact₂, hedges⟩ := hedges.exists_act app
    exact hact₁.commute hact₂ hs fun w hw => commuteOn_of_nodes_edges hnodes hedges hw
  · intro r₁ r₂ a b hab hlock hnode
    obtain ⟨act₂, hact₂, _, hbeside⟩ := hnode.exists_act app
    cases hasked : r₁.operation? with
    | error status =>
        exact (actsOn_refusing app id hasked).commute hact₂ hs fun w _ => commuteOn_refusing act₂ w
    | ok asked =>
        obtain rfl := Request.asked_of_lock hlock hasked
        exact (actsOn_node app hasked).commute hact₂ hs fun w hw =>
          commuteOn_lock (hbeside a hab) hw

/-- The leaf is unlocked and connected to its batch, and then the other way around. -/
theorem gestures_commute_locked :
    let app : App := { newId := toString }
    let s := app.run App.lockedRequests
    let lock : Request := ⟨"POST", "/api/workflows/flow/nodes/leaf/lock", none, ""⟩
    let connect : Request :=
      ⟨"POST", "/api/workflows/flow/edges", some "application/json", "[\"leaf\",\"box\"]"⟩
    let drop : Request :=
      ⟨"POST", "/api/workflows/flow/nodes/box/drop", some "application/json", "[[5,5]]"⟩
    (app.respond s lock).2.status = 200 ∧ (app.respond s connect).2.status = 200 ∧
      (app.respond s drop).2.status = 200 ∧
      Commute app (fun response => response) s lock connect ∧
      Commute app Response.status s lock drop := by
  intro app s lock connect drop
  subst s
  have hendpoints : lock.endpoint? = some (.lock "flow" "leaf") ∧
      connect.endpoint? = some (.edges "flow") ∧ drop.endpoint? = some (.drop "flow" "box") := by
    decide +kernel
  have hstatuses : (app.respond (app.run App.lockedRequests) lock).2.status = 200 ∧
      (app.respond (app.run App.lockedRequests) connect).2.status = 200 ∧
      (app.respond (app.run App.lockedRequests) drop).2.status = 200 := by
    decide +kernel
  obtain ⟨hlock, hconnect, hdrop⟩ := hendpoints
  obtain ⟨hlocked, hconnected, hdropped⟩ := hstatuses
  obtain ⟨hedges, hnodes⟩ := gestures_commute app (App.reachable_run app App.lockedRequests) "flow"
  exact ⟨hlocked, hconnected, hdropped,
    hedges lock connect "leaf" (.inr hlock) (.inl hconnect),
    hnodes lock drop "leaf" "box" (by decide) hlock (.inl hdrop)⟩

end WorkflowCanvas.Service
