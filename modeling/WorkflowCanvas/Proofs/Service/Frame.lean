import WorkflowCanvas.Proofs.Service.Run

/-!
What canvas requests leave alone.

Every gesture builds the whole list of nodes or of edges anew. Still a lock changes nothing but the
flag of one node, a drop nothing but the place of one node, and a change of the edges nothing else.
`Framed` says so of one operation, of two in turn, and thereby of every run: what may differ between
the snapshots at both ends can be read off the requests and the statuses of their responses.
-/

namespace WorkflowCanvas.Service

open Session

/-! ### Which node an operation is about -/

namespace Operation

variable {K : Type}

def locks (id node : String) : Operation K → Bool
  | lock id' node' => id' = id && node' = node
  | _ => false

def drops (id node : String) : Operation K → Bool
  | drop id' node' _ => id' = id && node' = node
  | _ => false

def rewires (id : String) : Operation K → Bool
  | connect id' _ | disconnect id' _ => id' = id
  | _ => false

/-- Whether the operation puts another snapshot in the place of an open one, or takes it out. -/
def overwrites (id : String) : Operation K → Bool
  | replace id' _ | close id' => id' = id
  | _ => false

/-- The workflow that the operation names. -/
def workflow? : Operation K → Option String
  | get id | replace id _ | close id | drop id _ _ | lock id _ | connect id _
  | disconnect id _ => some id
  | openWorkflow _ | list => none

end Operation

/-! ### Snapshots before and after -/

section Frames

variable {K : Type} {w w' w'' : Workflow K} {n n' n'' : Node K}

/-- A node after so many turns of its lock, and after drops of it if there were any. -/
structure Kept (turns : Nat) (dropped : Bool) (n n' : Node K) : Prop where
  id : n'.id = n.id
  kind : n'.kind = n.kind
  measured : n'.measured = n.measured
  data : n'.data = { n.data with locked := Bool.not^[turns] n.data.locked }
  place : dropped = false → n'.position = n.position ∧ n'.parent = n.parent

/-- A snapshot after so many turns of the lock of each node, after drops of some nodes, and after
changes of the edges if there were any. -/
structure Framed (turns : String → Nat) (dropped : String → Bool) (rewired : Bool)
    (w w' : Workflow K) : Prop where
  ids : (w'.nodes.map Node.id).Perm (w.nodes.map Node.id)
  nodes : ∀ n ∈ w.nodes, ∃ n' ∈ w'.nodes, Kept (turns n.id) (dropped n.id) n n'
  edges : rewired = false → w'.edges = w.edges

theorem Kept.refl (dropped : Bool) (n : Node K) : Kept 0 dropped n n :=
  ⟨rfl, rfl, rfl, rfl, fun _ => ⟨rfl, rfl⟩⟩

theorem Kept.trans {turns turns' : Nat} {dropped dropped' : Bool} (h : Kept turns dropped n n')
    (h' : Kept turns' dropped' n' n'') : Kept (turns' + turns) (dropped || dropped') n n'' where
  id := h'.id.trans h.id
  kind := h'.kind.trans h.kind
  measured := h'.measured.trans h.measured
  data := by rw [h'.data, h.data, Function.iterate_add_apply]
  place := by
    intro hnone
    obtain ⟨hfirst, hsecond⟩ := Bool.or_eq_false_iff.mp hnone
    exact ⟨(h'.place hsecond).1.trans (h.place hfirst).1,
      (h'.place hsecond).2.trans (h.place hfirst).2⟩

namespace Framed

variable {turns turns' : String → Nat} {dropped dropped' : String → Bool} {rewired rewired' : Bool}

theorem refl (w : Workflow K) : Framed (fun _ => 0) dropped rewired w w where
  ids := .refl _
  nodes n hn := ⟨n, hn, .refl _ n⟩
  edges _ := rfl

theorem trans (h : Framed turns dropped rewired w w')
    (h' : Framed turns' dropped' rewired' w' w'') :
    Framed (fun node => turns' node + turns node) (fun node => dropped node || dropped' node)
      (rewired || rewired') w w'' where
  ids := h'.ids.trans h.ids
  nodes := by
    intro n hn
    obtain ⟨n', hn', hkept⟩ := h.nodes n hn
    obtain ⟨n'', hn'', hkept'⟩ := h'.nodes n' hn'
    rw [hkept.id] at hkept'
    exact ⟨n'', hn'', hkept.trans hkept'⟩
  edges := by
    intro hnone
    obtain ⟨hfirst, hsecond⟩ := Bool.or_eq_false_iff.mp hnone
    exact (h'.edges hsecond).trans (h.edges hfirst)

end Framed

end Frames

/-! ### One operation -/

section Operations

variable {K : Type} {s : State K} {w w' : Workflow K} {n : Node K} {id : String}
  {operation : Operation K} {turns : String → Nat} {dropped : String → Bool} {rewired : Bool}

theorem framed_lock (h : Snapshot.Valid w) (hn : n ∈ w.nodes)
    (hturns : ∀ node, turns node = if n.id = node then 1 else 0) :
    Framed turns dropped rewired w
      { w with nodes := w.nodes.map (Gesture.lockNode n.id !n.data.locked) } where
  ids := by rw [(Gesture.keepsNesting_lockNode _ _).map_id]
  nodes := by
    intro m hm
    refine ⟨_, List.mem_map_of_mem hm, ?_⟩
    rw [hturns]
    by_cases hid : m.id = n.id
    · obtain rfl := Node.eq_of_id_eq h.nested.distinct hm hn hid
      rw [if_pos rfl, Gesture.lockNode, if_pos rfl]
      exact ⟨rfl, rfl, rfl, rfl, fun _ => ⟨rfl, rfl⟩⟩
    · rw [if_neg (Ne.symm hid), Gesture.lockNode, if_neg hid]
      exact .refl _ m
  edges _ := rfl

theorem framed_edges (edges : List Edge) (hrewired : rewired = true) :
    Framed (fun _ => 0) dropped rewired w { w with edges } where
  ids := .refl _
  nodes n hn := ⟨n, hn, .refl _ n⟩
  edges hnone := by simp [hrewired] at hnone

variable [Scalar K] {mode : Containment} {newId : Nat → String} {place : Point K}

theorem framed_afterDrop (h : Snapshot.Valid w) (hn : n ∈ w.nodes)
    (hdropped : dropped n.id = true) :
    Framed (fun _ => 0) dropped rewired w (afterDrop mode w n place) where
  ids := ids_perm_afterDrop h hn mode place
  nodes := by
    intro m hm
    by_cases hid : m.id = n.id
    · obtain rfl := Node.eq_of_id_eq h.nested.distinct hm hn hid
      have hmem := (Node.mem_of_first? (first?_afterDrop h hm mode place)).1
      refine ⟨_, hmem, Drop.landed_id, Drop.landed_kind, ?_, Drop.landed_data, ?_⟩
      · rw [Drop.landed_eq_with]
      · simp [hdropped]
    · exact ⟨m, mem_afterDrop_of_ne h hn mode place hm hid, .refl _ m⟩
  edges _ := rfl

/-- A gesture on another workflow leaves this one as it was. -/
theorem Answered.get?_of_ne {answer : Attempt K (State K × Reply K)}
    (h : Answered mode s operation answer) (hs : s.store.Sound)
    (hother : operation.canvas? ≠ some id) :
    (stateAfter answer).store.get? id = s.store.get? id := by
  have hput : ∀ {key : String} {old new : Workflow K}, s.store.get? key = some old →
      new.id = old.id → key ≠ id → (s.store.put new).get? id = s.store.get? id := by
    intro key old new hget hid hne
    rw [Store.get?_put, hid, ← (hs.of_get? hget).1, if_neg hne.symm]
  cases h with
  | notOpen | dropUnknown | dropLocked | lockUnknown | connectDangling | disconnectUnknown => rfl
  | dropped hopen | lockTurned hopen | connected hopen | disconnected hopen =>
      exact hput hopen rfl fun heq => hother (congrArg some heq)

/-- An operation on one workflow leaves every other as it was, also one that is not open. -/
theorem get?_perform_of_ne (hs : s.store.Reachable) {key : String}
    (hworkflow : operation.workflow? = some key) (hne : id ≠ key) :
    (stateAfter (perform mode newId s operation)).store.get? id = s.store.get? id := by
  cases operation with
  | openWorkflow | list => cases hworkflow
  | get =>
      rw [perform]
      split <;> rfl
  | replace key' content =>
      obtain rfl : key' = key := Option.some.inj hworkflow
      refine stateAfter_attempt (P := fun s' => s'.store.get? id = s.store.get? id) rfl ?_
      rintro ⟨store, snapshot⟩ hok
      obtain ⟨_, _, rfl, rfl⟩ := Store.replace_eq_ok_iff.mp hok
      exact (Store.get?_put id).trans (if_neg hne)
  | close key' =>
      obtain rfl : key' = key := Option.some.inj hworkflow
      rw [perform]
      cases hclose : s.store.close? key' with
      | none => rfl
      | some store =>
          obtain ⟨_, rfl⟩ := Store.close?_eq_some_iff.mp hclose
          exact (Store.get?_filter id).trans (if_neg hne)
  | drop | lock | connect | disconnect =>
      obtain rfl := Option.some.inj hworkflow
      exact (answered_perform mode newId hs rfl).get?_of_ne hs.sound fun heq =>
        hne (Option.some.inj heq).symm

/-- An open workflow stays as it is unless an operation is a gesture on it or overwrites it. -/
theorem get?_perform_of_other (hs : s.store.Reachable) (hopen : s.store.get? id = some w)
    (hother : operation.canvas? ≠ some id) (hkeep : operation.overwrites id = false) :
    (stateAfter (perform mode newId s operation)).store.get? id = some w := by
  cases operation with
  | openWorkflow content =>
      refine stateAfter_attempt (P := fun s => s.store.get? id = some w) hopen ?_
      rintro ⟨store, snapshot⟩ hok
      obtain ⟨hclosed, _, rfl, rfl⟩ := Store.openWorkflow_eq_ok_iff.mp hok
      refine (Store.get?_put id).trans ((if_neg ?_).trans hopen)
      rintro rfl
      exact Option.some_ne_none w (hopen.symm.trans hclosed)
  | list => exact hopen
  | get key =>
      rw [perform]
      split <;> exact hopen
  | replace key | close key =>
      have hne : id ≠ key := by simpa [Operation.overwrites, eq_comm] using hkeep
      exact (get?_perform_of_ne hs rfl hne).trans hopen
  | drop key | lock key | connect key | disconnect key =>
      have hne : id ≠ key := fun heq => hother (congrArg some heq.symm)
      exact (get?_perform_of_ne hs rfl hne).trans hopen

/-- What a gesture on a workflow does to its snapshot. -/
theorem Answered.framed {answer : Attempt K (State K × Reply K)}
    (h : Answered mode s operation answer) (hs : s.store.Sound) (hopen : s.store.get? id = some w)
    (hcanvas : operation.canvas? = some id) :
    ∃ w', (stateAfter answer).store.get? id = some w' ∧
      Framed (fun node => (statusAfter answer = 200 && operation.locks id node).toNat)
        (fun node => statusAfter answer = 200 && operation.drops id node)
        (statusAfter answer = 200 && operation.rewires id) w w' := by
  obtain ⟨hid, hstored⟩ := hs.of_get? hopen
  have hput : ∀ w' : Workflow K, w'.id = w.id → (s.store.put w').get? id = some w' := by
    intro w' hid'
    rw [Store.get?_put, if_pos (hid.trans hid'.symm)]
  cases h with
  | notOpen | dropUnknown | dropLocked | lockUnknown | connectDangling | disconnectUnknown =>
      exact ⟨w, hopen, .refl w⟩
  | @dropped key node old n place hopen' hn =>
      obtain rfl : key = id := Option.some.inj hcanvas
      obtain rfl := Option.some.inj (hopen.symm.trans hopen')
      obtain ⟨hmem, rfl⟩ := Node.mem_of_first? hn
      refine ⟨_, hput _ rfl, framed_afterDrop hstored.toValid hmem ?_⟩
      simp [Operation.drops, statusAfter]
  | @lockTurned key node old n nodes hopen' hn hnodes =>
      obtain rfl : key = id := Option.some.inj hcanvas
      obtain rfl := Option.some.inj (hopen.symm.trans hopen')
      obtain ⟨hmem, rfl⟩ := Node.mem_of_first? hn
      subst hnodes
      refine ⟨_, hput _ rfl, framed_lock hstored.toValid hmem fun node => ?_⟩
      by_cases hnode : n.id = node <;> simp [Operation.locks, statusAfter, hnode]
  | @connected key old wiring hopen' | @disconnected key edge old rest hopen' =>
      obtain rfl : key = id := Option.some.inj hcanvas
      obtain rfl := Option.some.inj (hopen.symm.trans hopen')
      exact ⟨_, hput _ rfl, framed_edges _ (by simp [Operation.rewires, statusAfter])⟩

/-- What an operation does to the snapshot of a workflow that it does not overwrite. -/
theorem framed_perform (mode : Containment) (newId : Nat → String) (hs : s.store.Reachable)
    (hopen : s.store.get? id = some w) (hkeep : operation.overwrites id = false) :
    let answer := perform mode newId s operation
    ∃ w', (stateAfter answer).store.get? id = some w' ∧
      Framed (fun node => (statusAfter answer = 200 && operation.locks id node).toNat)
        (fun node => statusAfter answer = 200 && operation.drops id node)
        (statusAfter answer = 200 && operation.rewires id) w w' := by
  intro answer
  by_cases hcanvas : operation.canvas? = some id
  · exact (answered_perform mode newId hs hcanvas).framed hs.sound hopen hcanvas
  · have hlocks : ∀ node, operation.locks id node = false := by
      intro node
      cases operation <;> simp_all [Operation.canvas?, Operation.locks]
    refine ⟨w, get?_perform_of_other hs hopen hcanvas hkeep, ?_⟩
    simpa only [hlocks, Bool.and_false, Bool.toNat_false] using .refl w

end Operations

/-! ### What requests ask for -/

namespace Request

variable {r : Request} {what : Operation Float → Bool} {operation : Operation Float}

/-- Whether a request asks for one of these operations. -/
def asks (r : Request) (what : Operation Float → Bool) : Bool :=
  match r.operation? with
  | .ok (some operation) => what operation
  | _ => false

theorem asks_of_operation (h : r.operation? = .ok (some operation)) (what) :
    r.asks what = what operation := by
  rw [asks, h]

end Request

/-! ### Runs of requests -/

/-- Whether a request asked for one of these operations and was answered with 200. -/
def did (what : Operation Float → Bool) (exchange : Request × Response) : Bool :=
  exchange.2.status = 200 && exchange.1.asks what

namespace App

variable {app : App} {s : State Float} {w : Workflow Float} {r : Request} {id node : String}

/-- Some requests with their responses. -/
def log (app : App) (s : State Float) : List Request → List (Request × Response)
  | [] => []
  | r :: rest => (r, (app.respond s r).2) :: log app (app.respond s r).1 rest

theorem exists_ok_of_status {operation : Operation Float}
    (hasks : r.operation? = .ok (some operation)) (hstatus : (app.respond s r).2.status = 200) :
    ∃ s' reply, perform app.containment app.newId s operation = .ok (s', reply) := by
  rw [(respond_of_operation app s hasks).2] at hstatus
  cases hanswer : perform app.containment app.newId s operation with
  | error refusal =>
      rw [hanswer, statusAfter] at hstatus
      cases hrefused : refusal.error <;> simp [hrefused, statusOf] at hstatus
  | ok result => exact ⟨result.1, result.2, rfl⟩

end App

end WorkflowCanvas.Service
