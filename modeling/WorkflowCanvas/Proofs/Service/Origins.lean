import WorkflowCanvas.Proofs.Model.Legible
import WorkflowCanvas.Proofs.Service.Isolation

/-!
Where open snapshots come from.

A snapshot that is open after an operation was open before, with at most a gesture in between, or it
was brought in by a body. So what bodies have and gestures keep, all snapshots have after any
requests. Nothing but its place, its parent and its lock ever changes on a node, and therefore every
snapshot keeps to the limits that the texts of bodies set. Only the drop of a node may take it out
of the range of the finite coordinates.
-/

namespace WorkflowCanvas.Service

open Session

/-! ### Operations -/

section Operations

variable {K : Type} {s : State K} {w' content : Workflow K} {id : String} {operation : Operation K}

/-- Where a snapshot comes from that is open after an operation, by which some nodes were dropped. -/
inductive Origin (s : State K) (operation : Operation K) (dropped : String → Bool) (id : String)
    (w' : Workflow K) : Prop
  | kept {w : Workflow K} {turns : String → Nat} {rewired : Bool} :
      s.store.get? id = some w → Framed turns dropped rewired w w' →
      Origin s operation dropped id w'
  | brought {content : Workflow K} :
      operation = .openWorkflow content ∨ operation = .replace id content →
      w' = Snapshot.arrange { content with id } → Origin s operation dropped id w'

variable {dropped : String → Bool}

theorem Origin.same (hopen : s.store.get? id = some w') : Origin s operation dropped id w' :=
  have hframed : Framed (fun _ => 0) dropped false w' w' := .refl w'
  .kept hopen hframed

theorem Framed.exists_kept {w : Workflow K} {n' : Node K} {turns : String → Nat} {rewired : Bool}
    (h : Framed turns dropped rewired w w')
    (hdistinct : (w.nodes.map Node.id).Nodup) (hn' : n' ∈ w'.nodes) :
    ∃ n ∈ w.nodes, Kept (turns n.id) (dropped n.id) n n' := by
  obtain ⟨n, hn, hid⟩ := List.mem_map.mp (h.ids.mem_iff.mp (List.mem_map_of_mem hn'))
  obtain ⟨m, hm, hkept⟩ := h.nodes n hn
  have hdistinct' : (w'.nodes.map Node.id).Nodup := h.ids.nodup_iff.mpr hdistinct
  obtain rfl := Node.eq_of_id_eq hdistinct' hm hn' (hkept.id.trans hid)
  exact ⟨n, hn, hkept⟩

variable [Scalar K] {mode : Containment} {newId : Nat → String}

theorem origin_of_openWorkflow (hs : s.store.Reachable)
    (hopen : (stateAfter (perform mode newId s (.openWorkflow content))).store.get? id = some w') :
    Origin s (.openWorkflow content) dropped id w' := by
  cases hanswer : perform mode newId s (.openWorkflow content) with
  | error refusal =>
      rw [hanswer, stateAfter, state_eq_of_refused hs hanswer] at hopen
      exact .same hopen
  | ok result =>
      obtain ⟨_, hstore⟩ := opened_of_perform hanswer
      rw [hanswer, stateAfter, hstore, Store.get?_put] at hopen
      split at hopen
      · rename_i hid
        obtain rfl := Option.some.inj hopen
        exact .brought (.inl rfl) (by rw [hid]; rfl)
      · exact .same hopen

theorem origin_of_replace (hs : s.store.Reachable)
    (hopen : (stateAfter (perform mode newId s (.replace id content))).store.get? id = some w') :
    Origin s (.replace id content) dropped id w' := by
  cases hanswer : perform mode newId s (.replace id content) with
  | error refusal =>
      rw [hanswer, stateAfter, state_eq_of_refused hs hanswer] at hopen
      exact .same hopen
  | ok result =>
      obtain ⟨_, hstate⟩ := replaced_of_perform hanswer
      rw [hanswer, stateAfter, hstate] at hopen
      exact .brought (.inr rfl) (Option.some.inj (hopen.symm.trans
        ((Store.get?_put id).trans (if_pos rfl))))

/-- Every snapshot that is open after an operation was open before or was brought in. -/
theorem origin_of_perform (hs : s.store.Reachable)
    (hopen : (stateAfter (perform mode newId s operation)).store.get? id = some w') :
    Origin s operation (fun node =>
      statusAfter (perform mode newId s operation) = 200 && operation.drops id node) id w' := by
  -- a workflow is closed only by name, and an operation that names another one leaves it alone
  have hnamed : ∀ key, operation.workflow? = some key → s.store.get? id = none → False := by
    intro key hworkflow hclosed
    by_cases hkey : id = key
    · rw [state_eq_of_closed hs (hkey ▸ hworkflow) hclosed, hclosed] at hopen
      cases hopen
    · rw [get?_perform_of_ne hs hworkflow hkey, hclosed] at hopen
      cases hopen
  have hframed : operation.overwrites id = false → operation.workflow?.isSome = true →
      Origin s operation (fun node =>
        statusAfter (perform mode newId s operation) = 200 && operation.drops id node) id w' := by
    intro hkeep hsome
    obtain ⟨key, hworkflow⟩ := Option.isSome_iff_exists.mp hsome
    cases hbefore : s.store.get? id with
    | none => exact (hnamed key hworkflow hbefore).elim
    | some w =>
        obtain ⟨_, hafter, hframed⟩ := framed_perform mode newId hs hbefore hkeep
        obtain rfl := Option.some.inj (hafter.symm.trans hopen)
        exact .kept hbefore hframed
  cases operation with
  | openWorkflow content => exact origin_of_openWorkflow hs hopen
  | list => exact .same hopen
  | get | drop | lock | connect | disconnect => exact hframed rfl rfl
  | replace key content =>
      by_cases hkey : key = id
      · subst hkey
        exact origin_of_replace hs hopen
      · exact hframed (by simpa [Operation.overwrites] using hkey) rfl
  | close key =>
      by_cases hkey : key = id
      · subst hkey
        rw [perform] at hopen
        cases hclose : s.store.close? key with
        | none =>
            rw [hclose] at hopen
            exact .same hopen
        | some store =>
            obtain ⟨_, rfl⟩ := Store.close?_eq_some_iff.mp hclose
            rw [hclose, stateAfter, Store.get?_filter, if_pos rfl] at hopen
            cases hopen
      · exact hframed (by simpa [Operation.overwrites] using hkey) rfl

end Operations

/-! ### Legible snapshots -/

section Legible

variable {s : State Float} {w w' content : Workflow Float} {n n' : Node Float} {id : String}
  {room : Nat} {operation : Operation Float}

theorem Kept.legible {turns : Nat} {dropped : Bool} (h : Kept turns dropped n n')
    (hn : n.Legible room) : n'.Legible room where
  data := by
    rw [h.data]
    exact { hn.data with }
  measured := h.measured ▸ hn.measured

theorem workflowBody_yields : Json.Yields workflowBody (room + 5) fun w =>
    w.Legible room ∧ w.InRange := by
  refine Json.yields_record fun r w hroom _ hbuild => ?_
  simp only [Json.Placed.seq_eq_pure_iff, Json.Placed.map_eq_pure_iff] at hbuild
  obtain ⟨_, ⟨_, _, rfl⟩, _, hw, rfl⟩ := hbuild
  have hyields : Json.Yields Workflow.decoder r.room fun w => w.Legible room ∧ w.InRange :=
    hroom ▸ Workflow.yields
  exact hyields.required hw

/-- The levels that are left for what a payload keeps: the payload, its node, the nodes, the workflow
and the body around them take one each. -/
def keptDepth : Nat := Json.maxDepth - 5

theorem Request.Carries.legible {r : Request} (h : r.Carries workflowBody content) :
    content.Legible keptDepth ∧ content.InRange :=
  have hyields : Json.Yields workflowBody Json.maxDepth fun w =>
      w.Legible keptDepth ∧ w.InRange := workflowBody_yields
  hyields.decodeText h.reads

/-- A workflow that is brought in stands in the body of the request. -/
theorem Request.carries_of_asked {r : Request} (hasked : r.operation? = .ok (some operation))
    (h : operation = .openWorkflow content ∨ operation = .replace id content) :
    r.Carries workflowBody content := by
  obtain ⟨e, task, he, htask, hok⟩ := operation?_eq_ok_iff.mp hasked
  have hperform : ∀ other : Operation Float, task = .perform other →
      other = .openWorkflow content ∨ other = .replace id content := by
    rintro other rfl
    obtain rfl := Option.some.inj (Except.ok.inj hok)
    exact h
  cases e with
  | workflows =>
      rw [Endpoint.task?] at htask
      split at htask
      · obtain rfl := Option.some.inj htask
        simp at hperform
      · obtain rfl := Option.some.inj (Option.ite_none_right_eq_some.mp htask).2
        obtain ⟨a, hcarries, heq⟩ := asked_of_reader hok
        obtain rfl := Option.some.inj heq
        simp only [Operation.openWorkflow.injEq, reduceCtorEq, or_false] at h
        exact h ▸ hcarries
  | workflow key =>
      rw [Endpoint.task?] at htask
      split at htask
      · obtain rfl := Option.some.inj htask
        simp at hperform
      split at htask
      · obtain rfl := Option.some.inj htask
        obtain ⟨a, hcarries, heq⟩ := asked_of_reader hok
        obtain rfl := Option.some.inj heq
        simp only [Operation.replace.injEq, reduceCtorEq, false_or] at h
        exact h.2 ▸ hcarries
      · obtain rfl := Option.some.inj (Option.ite_none_right_eq_some.mp htask).2
        simp at hperform
  | health =>
      obtain rfl := Option.some.inj (Option.ite_none_right_eq_some.mp htask).2
      cases hok
  | drop =>
      obtain ⟨_, heq⟩ := asked_of_drop he hasked
      obtain rfl := Option.some.inj heq
      simp [NodeGesture.operation] at h
  | lock =>
      obtain rfl := Option.some.inj (asked_of_lock he hasked)
      simp [NodeGesture.operation] at h
  | edges =>
      obtain ⟨_, heq⟩ := asked_of_edges he hasked
      obtain rfl := Option.some.inj heq
      simp [Gesture.EdgeGesture.operation] at h
  | edge =>
      obtain rfl := Option.some.inj (asked_of_edge he hasked)
      simp [Gesture.EdgeGesture.operation] at h

/-! ### Runs -/

namespace App

variable {app : App} {r : Request} {P : Node Float → Prop}

/-- What holds of all nodes in bodies, and stays true of a node by what the request does to it, holds
of all nodes of a workflow after the request. -/
theorem forall_nodes_respond (hs : s.store.Reachable)
    (hbody : ∀ content, r.Carries workflowBody content → ∀ n ∈ content.nodes, P n)
    (hkept : ∀ n n' turns,
      Kept turns (did (Operation.drops id n.id) (r, (app.respond s r).2)) n n' → P n → P n')
    (h : ∀ w, s.store.get? id = some w → ∀ n ∈ w.nodes, P n) :
    ∀ w, (app.respond s r).1.store.get? id = some w → ∀ n ∈ w.nodes, P n := by
  by_cases hasks : ∃ operation, r.operation? = .ok (some operation)
  · obtain ⟨operation, hasked⟩ := hasks
    obtain ⟨hstate, hstatus⟩ := respond_of_operation app s hasked
    intro w' hopen n' hn'
    rw [hstate] at hopen
    cases origin_of_perform hs hopen with
    | @kept w _ _ hbefore hframed =>
        obtain ⟨_, hstored⟩ := hs.sound.of_get? hbefore
        obtain ⟨n, hn, hstep⟩ := hframed.exists_kept hstored.nested.distinct hn'
        have hdid : did (Operation.drops id n.id) (r, (app.respond s r).2) =
            (statusAfter (perform app.containment app.newId s operation) = 200 &&
              operation.drops id n.id) := by
          rw [did, Request.asks_of_operation hasked, hstatus]
        exact hkept n n' _ (hdid ▸ hstep) (h w hbefore n hn)
    | brought hbrings heq =>
        subst heq
        exact hbody _ (Request.carries_of_asked hasked hbrings) n'
          (Nesting.parentsFirst_subset _ n' hn')
  · rwa [respond_of_idle fun operation hasked => hasks ⟨operation, hasked⟩]

theorem forall_nodes_after (hs : s.store.Reachable) (requests : List Request)
    (hbody : ∀ (r : Request) (content : Workflow Float), r.Carries workflowBody content →
      ∀ n ∈ content.nodes, P n)
    (hkept : ∀ exchange ∈ app.log s requests, ∀ n n' turns,
      Kept turns (did (Operation.drops id n.id) exchange) n n' → P n → P n')
    (h : ∀ w, s.store.get? id = some w → ∀ n ∈ w.nodes, P n) :
    ∀ w, (app.after s requests).store.get? id = some w → ∀ n ∈ w.nodes, P n := by
  induction requests generalizing s with
  | nil => exact h
  | cons r rest ih =>
      obtain ⟨hfirst, hrest⟩ := List.forall_mem_cons.mp hkept
      exact ih (reachable_respond hs) hrest (forall_nodes_respond hs (hbody r) hfirst h)

theorem legible_run (app : App) (requests : List Request)
    (hopen : (app.run requests).store.get? id = some w) : w.Legible keptDepth :=
  forall_nodes_after (s := {}) ⟨[], rfl⟩ requests (fun _ _ hbody => hbody.legible.1)
    (fun _ _ _ _ _ hkept => hkept.legible) nofun w hopen

/-- The coordinates in a workflow are finite as long as no drop of one of its nodes was answered
with 200. -/
theorem inRange_run (app : App) (requests : List Request)
    (hopen : (app.run requests).store.get? id = some w)
    (hundropped : ∀ node, (app.log {} requests).any (did (Operation.drops id node)) = false) :
    w.InRange := by
  refine forall_nodes_after (s := {}) ⟨[], rfl⟩ requests (fun _ _ hbody => hbody.legible.2)
    (fun exchange hmem n n' turns hkept hn => ?_) nofun w hopen
  have hplace := hkept.place (by simpa using List.any_eq_false.mp (hundropped n.id) exchange hmem)
  exact hplace.1 ▸ hn

end App

end Legible

end WorkflowCanvas.Service
