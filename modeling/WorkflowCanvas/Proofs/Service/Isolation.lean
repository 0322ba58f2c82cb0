import WorkflowCanvas.Proofs.Service.Commuting
import WorkflowCanvas.Proofs.Service.Frame
import WorkflowCanvas.Proofs.Service.Statuses

/-!
Workflows kept apart.

An id reaches the store from three places: a path, a body, or the supply of new ids. The id in a
path always wins over that in a body, and only a workflow that is being opened brings an id of its
own, which must not be taken yet. So a request whose path names a workflow changes no other, and no
workflow is ever held under the empty id, which stands for a missing one.
-/

namespace WorkflowCanvas.Service

open Session

/-! ### Operations -/

section Operations

variable {K : Type} {s s' : State K} {content : Workflow K} {id : String}
  {operation : Operation K} {reply : Reply K} {newId : Nat → String}

/-- The id under which a workflow is opened: its own, or the next new one if it has none. -/
def State.idFor (newId : Nat → String) (s : State K) (content : Workflow K) : String :=
  if content.id = "" then newId s.issued else content.id

theorem State.idFor_ne (hnew : ∀ issued, newId issued ≠ "") (s : State K)
    (content : Workflow K) : s.idFor newId content ≠ "" := by
  rw [State.idFor]
  split
  · exact hnew s.issued
  · assumption

theorem attempt_eq_ok_iff {α : Type} {outcome : Except Error α} {a : α} :
    s.attempt outcome = .ok a ↔ outcome = .ok a := by
  cases outcome <;> simp [State.attempt, Except.mapError]

variable [Scalar K] {mode : Containment}

/-- What it takes to open a workflow, and what that leaves. -/
theorem opened_of_perform (h : perform mode newId s (.openWorkflow content) = .ok (s', reply)) :
    s.store.get? (s.idFor newId content) = none ∧
      s'.store = s.store.put (Snapshot.arrange { content with id := s.idFor newId content }) := by
  obtain ⟨⟨store, snapshot⟩, hattempt, hend⟩ := Outcome.bind_eq_ok_iff.mp h
  have hopened : s.store.openWorkflow { content with id := s.idFor newId content } =
      .ok (store, snapshot) := by
    rw [← attempt_eq_ok_iff.mp hattempt, State.idFor]
    split <;> rfl
  obtain ⟨hclosed, _, rfl, rfl⟩ := Store.openWorkflow_eq_ok_iff.mp hopened
  obtain ⟨rfl, _⟩ := Prod.mk.inj (Except.ok.inj hend)
  exact ⟨hclosed, rfl⟩

/-- What it takes to replace a workflow, and what that leaves. -/
theorem replaced_of_perform (h : perform mode newId s (.replace id content) = .ok (s', reply)) :
    (∃ old, s.store.get? id = some old) ∧
      s' = s.storing (Snapshot.arrange { content with id }) := by
  obtain ⟨⟨store, snapshot⟩, hattempt, hend⟩ := Outcome.bind_eq_ok_iff.mp h
  obtain ⟨hopen, _, rfl, rfl⟩ := Store.replace_eq_ok_iff.mp (attempt_eq_ok_iff.mp hattempt)
  obtain ⟨rfl, _⟩ := Prod.mk.inj (Except.ok.inj hend)
  exact ⟨hopen, rfl⟩

/-- An operation on a workflow that is not open leaves the state it met. -/
theorem state_eq_of_closed (hs : s.store.Reachable) (hworkflow : operation.workflow? = some id)
    (hclosed : s.store.get? id = none) : stateAfter (perform mode newId s operation) = s := by
  cases operation with
  | openWorkflow | list => cases hworkflow
  | get =>
      obtain rfl := Option.some.inj hworkflow
      rw [perform, hclosed]
      rfl
  | close =>
      obtain rfl := Option.some.inj hworkflow
      rw [perform, Store.close?, hclosed]
      rfl
  | replace id content =>
      obtain rfl := Option.some.inj hworkflow
      cases hanswer : perform mode newId s (.replace id content) with
      | error refusal => exact state_eq_of_refused hs hanswer
      | ok result =>
          obtain ⟨⟨old, hopen⟩, _⟩ := replaced_of_perform hanswer
          exact absurd (hopen.symm.trans hclosed) (Option.some_ne_none old)
  | drop | lock | connect | disconnect =>
      obtain rfl := Option.some.inj hworkflow
      exact (answered_perform mode newId hs rfl).stateAfter_of_closed rfl hclosed

/-- No operation opens a workflow under the empty id. -/
theorem closed_empty_perform (hnew : ∀ issued, newId issued ≠ "") (hs : s.store.Reachable)
    (hclosed : s.store.get? "" = none) :
    (stateAfter (perform mode newId s operation)).store.get? "" = none := by
  cases hworkflow : operation.workflow? with
  | some id =>
      by_cases hid : id = ""
      · rw [state_eq_of_closed hs hworkflow (hid ▸ hclosed), hclosed]
      · rw [get?_perform_of_ne hs hworkflow (Ne.symm hid), hclosed]
  | none =>
      cases operation with
      | list => exact hclosed
      | openWorkflow content =>
          cases hanswer : perform mode newId s (.openWorkflow content) with
          | error refusal =>
              rw [stateAfter, state_eq_of_refused hs hanswer, hclosed]
          | ok result =>
              obtain ⟨_, hstore⟩ := opened_of_perform hanswer
              rw [stateAfter, hstore, Store.get?_put]
              exact (if_neg (State.idFor_ne hnew s content).symm).trans hclosed
      | get | replace | close | drop | lock | connect | disconnect => cases hworkflow

end Operations

/-! ### Requests -/

/-- The workflow that the ids of an endpoint name. -/
def Endpoint.workflow? : Endpoint → Option String
  | workflow id | drop id _ | lock id _ | edges id | edge id _ => some id
  | health | workflows => none

/-- A body that is not understood is not answered with 200. -/
theorem Task.status_ne_of_error {r : Request} {task : Task} {status : Nat}
    (h : task.operation? r = .error status) : status ≠ 200 := by
  cases task with
  | health | perform => cases h
  | read decoder =>
      rw [Task.operation?] at h
      split at h
      · obtain rfl := Except.error.inj h
        decide
      split at h
      · obtain rfl := Except.error.inj h
        decide
      split at h
      · cases h
      · rename_i fault _
        obtain rfl := Except.error.inj h
        cases fault <;> decide

namespace Request

variable {r : Request} {id : String} {asked : Option (Operation Float)}

/-- The workflow that the path names, with its escapes resolved. -/
def workflow? (r : Request) : Option String := r.endpoint?.bind Endpoint.workflow?

theorem status_ne_of_error {status : Nat} (h : r.operation? = .error status) : status ≠ 200 := by
  rintro rfl
  rw [operation?] at h
  split at h
  · split at h
    · split at h
      · exact Task.status_ne_of_error h rfl
      · simp at h
    · simp at h
  · simp at h

theorem asked_of_opening (he : r.endpoint? = some .workflows) (hmethod : r.method = "POST")
    (hasked : r.operation? = .ok asked) :
    ∃ content, r.Carries workflowBody content ∧ asked = some (.openWorkflow content) := by
  obtain ⟨task, htask, hok⟩ := task_of_endpoint he hasked
  have hverb : r.verb = "POST" := by simp [verb, hmethod]
  rw [hverb] at htask
  obtain rfl := Option.some.inj htask
  exact asked_of_reader hok

theorem asked_of_putting (he : r.endpoint? = some (.workflow id)) (hmethod : r.method = "PUT")
    (hasked : r.operation? = .ok asked) :
    ∃ content, r.Carries workflowBody content ∧ asked = some (.replace id content) := by
  obtain ⟨task, htask, hok⟩ := task_of_endpoint he hasked
  have hverb : r.verb = "PUT" := by simp [verb, hmethod]
  rw [hverb] at htask
  obtain rfl := Option.some.inj htask
  exact asked_of_reader hok

/-- What is asked for is about the workflow in the path, whatever the body says. -/
theorem workflow?_of_asked {operation : Operation Float} (h : r.workflow? = some id)
    (hasked : r.operation? = .ok (some operation)) : operation.workflow? = some id := by
  obtain ⟨e, he, hid⟩ := Option.bind_eq_some_iff.mp h
  cases e with
  | health | workflows => cases hid
  | workflow =>
      obtain ⟨task, htask, hok⟩ := task_of_endpoint he hasked
      rw [Endpoint.task?] at htask
      split at htask
      · obtain rfl := Option.some.inj htask
        obtain rfl := Option.some.inj (Except.ok.inj hok)
        exact hid
      split at htask
      · obtain rfl := Option.some.inj htask
        obtain ⟨_, _, heq⟩ := asked_of_reader hok
        obtain rfl := Option.some.inj heq
        exact hid
      · obtain ⟨_, heq⟩ := Option.ite_none_right_eq_some.mp htask
        obtain rfl := Option.some.inj heq
        obtain rfl := Option.some.inj (Except.ok.inj hok)
        exact hid
  | drop =>
      obtain ⟨_, heq⟩ := asked_of_drop he hasked
      obtain rfl := Option.some.inj heq
      exact hid
  | lock =>
      obtain rfl := Option.some.inj (asked_of_lock he hasked)
      exact hid
  | edges =>
      obtain ⟨_, heq⟩ := asked_of_edges he hasked
      obtain rfl := Option.some.inj heq
      exact hid
  | edge =>
      obtain rfl := Option.some.inj (asked_of_edge he hasked)
      exact hid

end Request

namespace App

variable {app : App} {s : State Float} {r : Request} {id other : String}

theorem table_respond_of_ne (hs : s.store.Reachable) (h : r.workflow? = some id)
    (hne : other ≠ id) : (app.respond s r).1.store.table other = s.store.table other :=
  stateAfter_respond (P := fun s' => s'.store.table other = s.store.table other) rfl
    fun _ hasked => get?_perform_of_ne hs (Request.workflow?_of_asked h hasked) hne

theorem closed_empty_respond (hnew : ∀ issued, app.newId issued ≠ "") (hs : s.store.Reachable)
    (hclosed : s.store.get? "" = none) : (app.respond s r).1.store.get? "" = none :=
  stateAfter_respond (P := fun s => s.store.get? "" = none) hclosed
    fun _ _ => closed_empty_perform hnew hs hclosed

theorem closed_empty_after (hnew : ∀ issued, app.newId issued ≠ "") (hs : s.store.Reachable)
    (hclosed : s.store.get? "" = none) (requests : List Request) :
    (app.after s requests).store.get? "" = none := by
  induction requests generalizing s with
  | nil => exact hclosed
  | cons r rest ih => exact ih (reachable_respond hs) (closed_empty_respond hnew hs hclosed)

theorem exists_asked_of_status (hstatus : (app.respond s r).2.status = 200) :
    ∃ asked, r.operation? = .ok asked := by
  cases hasked : r.operation? with
  | ok asked => exact ⟨asked, rfl⟩
  | error status =>
      rw [respond, hasked] at hstatus
      exact absurd hstatus (Request.status_ne_of_error hasked)

/-- What a request for a new workflow leaves when it is answered with 200. -/
theorem respond_of_opening (he : r.endpoint? = some .workflows) (hmethod : r.method = "POST")
    (hstatus : (app.respond s r).2.status = 200) :
    ∃ content, r.Carries workflowBody content ∧
      s.store.table (s.idFor app.newId content) = none ∧
      (app.respond s r).1.store.table = Function.update s.store.table (s.idFor app.newId content)
        (some (Snapshot.arrange { content with id := s.idFor app.newId content })) := by
  obtain ⟨asked, hasked⟩ := exists_asked_of_status hstatus
  obtain ⟨content, hcarries, rfl⟩ := Request.asked_of_opening he hmethod hasked
  obtain ⟨s', reply, hok⟩ := exists_ok_of_status hasked hstatus
  obtain ⟨hclosed, hstore⟩ := opened_of_perform hok
  refine ⟨content, hcarries, hclosed, ?_⟩
  rw [(respond_of_operation app s hasked).1, hok, stateAfter, hstore, Store.table_put]
  rfl

/-- What a request for another snapshot leaves when it is answered with 200. -/
theorem respond_of_putting (he : r.endpoint? = some (.workflow id)) (hmethod : r.method = "PUT")
    (hstatus : (app.respond s r).2.status = 200) :
    ∃ content, r.Carries workflowBody content ∧ (s.store.table id).isSome ∧
      (app.respond s r).1.store.table id = some (Snapshot.arrange { content with id }) := by
  obtain ⟨asked, hasked⟩ := exists_asked_of_status hstatus
  obtain ⟨content, hcarries, rfl⟩ := Request.asked_of_putting he hmethod hasked
  obtain ⟨s', reply, hok⟩ := exists_ok_of_status hasked hstatus
  obtain ⟨⟨old, hopen⟩, rfl⟩ := replaced_of_perform hok
  refine ⟨content, hcarries, Option.isSome_iff_exists.mpr ⟨old, hopen⟩, ?_⟩
  rw [(respond_of_operation app s hasked).1, hok]
  exact (Store.get?_put id).trans (if_pos rfl)

/-- After any requests, no workflow is open under the empty id, and every snapshot has the id under
which it is open. A request whose path names a workflow changes no other, and a body that is put
under an id is stored under that id, whatever id it brings. A request for a new workflow that is
answered with 200 adds one workflow under an id that was not open, and changes nothing else; with
another status it changes nothing at all. -/
theorem requests_isolated (app : App) (hnew : ∀ issued, app.newId issued ≠ "")
    (requests : List Request) :
    let s := app.run requests
    s.store.table "" = none ∧ (∀ id w, s.store.table id = some w → w.id = id) ∧
      ∀ r : Request,
        let reached := (app.respond s r).1
        let status := (app.respond s r).2.status
        (∀ id, r.workflow? = some id → ∀ other ≠ id,
          reached.store.table other = s.store.table other) ∧
        (∀ id, r.endpoint? = some (.workflow id) → r.method = "PUT" → status = 200 →
          ∃ content, r.Carries workflowBody content ∧ (s.store.table id).isSome ∧
            reached.store.table id = some (Snapshot.arrange { content with id })) ∧
        (r.endpoint? = some .workflows → r.method = "POST" →
          (status = 200 → ∃ content id, r.Carries workflowBody content ∧
            id = s.idFor app.newId content ∧ s.store.table id = none ∧
            reached.store.table =
              Function.update s.store.table id (some (Snapshot.arrange { content with id }))) ∧
          (status ≠ 200 → reached = s)) := by
  intro s
  have hs : s.store.Reachable := reachable_run app requests
  have hempty : s.store.table "" = none :=
    closed_empty_after hnew (s := {}) ⟨[], rfl⟩ rfl requests
  refine ⟨hempty, fun id w hopen => (hs.sound.of_get? hopen).1.symm, fun r => ⟨?_, ?_, ?_⟩⟩
  · exact fun id hworkflow other hne => table_respond_of_ne hs hworkflow hne
  · exact fun id he hmethod hstatus => respond_of_putting he hmethod hstatus
  · intro he hmethod
    refine ⟨fun hstatus => ?_, fun hstatus => respond_of_status hs hstatus⟩
    obtain ⟨content, hcarries, hclosed, htable⟩ := respond_of_opening he hmethod hstatus
    exact ⟨content, _, hcarries, rfl, hclosed, htable⟩

/-- Two workflows, of which the second comes without an id. -/
def twoOpened : List Request :=
  [⟨"POST", "/api/workflows", some "application/json", "[[\"flow\",\"Flow\",[]]]"⟩,
    ⟨"POST", "/api/workflows", some "application/json", "[[\"\",\"Side\",[]]]"⟩]

/-- The body that is put under the one id brings the other. -/
theorem requests_isolated_swapped :
    let app : App := { newId := fun issued => "new-" ++ toString issued }
    let s := app.run twoOpened
    let r : Request :=
      ⟨"PUT", "/api/workflows/flow", some "application/json", "[[\"new-0\",\"Other\",[]]]"⟩
    let reached := (app.respond s r).1
    s.store.ids = ["flow", "new-0"] ∧ (app.respond s r).2.status = 200 ∧
      reached.store.table "new-0" = s.store.table "new-0" ∧
      ((reached.store.table "flow").map fun w => (w.id, w.name)) = some ("flow", "Other") ∧
      ∃ content, r.Carries workflowBody content ∧
        reached.store.table "flow" = some (Snapshot.arrange { content with id := "flow" }) := by
  intro app s r reached
  have hnew : ∀ issued, app.newId issued ≠ "" := by simp [app]
  have hseen : r.endpoint? = some (.workflow "flow") ∧ s.store.ids = ["flow", "new-0"] ∧
      (app.respond s r).2.status = 200 ∧
      ((reached.store.table "flow").map fun w => (w.id, w.name)) = some ("flow", "Other") := by
    decide +kernel
  obtain ⟨he, hids, hstatus, hname⟩ := hseen
  have hworkflow : r.workflow? = some "flow" := by rw [Request.workflow?, he]; rfl
  obtain ⟨hapart, hput, _⟩ := (requests_isolated app hnew twoOpened).2.2 r
  obtain ⟨content, hcarries, _, hstored⟩ := hput "flow" he rfl hstatus
  exact ⟨hids, hstatus, hapart "flow" hworkflow "new-0" (by decide), hname, content, hcarries,
    hstored⟩

end App

end WorkflowCanvas.Service
