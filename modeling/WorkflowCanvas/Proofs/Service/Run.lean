import WorkflowCanvas.Proofs.Service.Gestures
import WorkflowCanvas.Service.Exchange

/-!
Runs of requests.

Each operation changes the store by commands of the store, so what holds after all commands holds
after all requests. A request that is refused leaves the state it met, and so does one that only
asks for what is there.
-/

namespace WorkflowCanvas.Service

open Session

/-! ### Operations -/

section Operations

variable {K : Type} {s : State K}

/-- The state that an attempt leaves behind. -/
def stateAfter {α : Type} : Attempt K (State K × α) → State K
  | .ok (s, _) => s
  | .error refusal => refusal.state

/-- The status with which an attempt is answered. -/
def statusAfter {α : Type} : Attempt K α → Nat
  | .ok _ => 200
  | .error refusal => statusOf refusal.error

/-- What holds of the state that was met and of every state that a success leads to holds of the
state that is left behind. -/
theorem stateAfter_attempt {α β : Type} {P : State K → Prop} {outcome : Except Error α}
    {next : α → Attempt K (State K × β)} (hs : P s)
    (hnext : ∀ a, outcome = .ok a → P (stateAfter (next a))) :
    P (stateAfter (s.attempt outcome >>= next)) := by
  cases outcome with
  | error e => exact hs
  | ok a => exact hnext a rfl

theorem reachable_attempt {α β : Type} {outcome : Except Error α}
    {next : α → Attempt K (State K × β)} (hs : s.store.Reachable)
    (hnext : ∀ a, outcome = .ok a → (stateAfter (next a)).store.Reachable) :
    (stateAfter (s.attempt outcome >>= next)).store.Reachable :=
  stateAfter_attempt (P := fun s => s.store.Reachable) hs hnext

theorem state_eq_of_attempt {α : Type} {outcome : Except Error α} {refusal : Refusal K}
    (h : s.attempt outcome = .error refusal) : refusal.state = s := by
  cases outcome with
  | error e =>
      obtain rfl := Except.error.inj h
      rfl
  | ok a => cases h

variable [Scalar K] {mode : Containment} {newId : Nat → String}

/-- A gesture on a workflow that is not open leaves the state it met. -/
theorem Answered.stateAfter_of_closed {operation : Operation K}
    {answer : Attempt K (State K × Reply K)} {id : String} (h : Answered mode s operation answer)
    (hcanvas : operation.canvas? = some id) (hclosed : s.store.get? id = none) :
    stateAfter answer = s := by
  cases h with
  | notOpen | dropUnknown | dropLocked | lockUnknown | connectDangling | disconnectUnknown => rfl
  | dropped hopen | lockTurned hopen | connected hopen | disconnected hopen =>
      obtain rfl := Option.some.inj hcanvas
      exact absurd (hopen.symm.trans hclosed) (Option.some_ne_none _)

/-- Whether an operation is carried out or refused, commands of the store lead to the store that it
leaves behind. -/
theorem reachable_perform (hs : s.store.Reachable) (operation : Operation K) :
    (stateAfter (perform mode newId s operation)).store.Reachable := by
  cases operation with
  | openWorkflow w =>
      refine reachable_attempt hs ?_
      rintro ⟨store, snapshot⟩ hok
      exact hs.of_openWorkflow hok
  | list => exact hs
  | get id =>
      rw [perform]
      split <;> exact hs
  | replace id w =>
      refine reachable_attempt hs ?_
      rintro ⟨store, snapshot⟩ hok
      exact hs.of_replace hok
  | close id =>
      rw [perform]
      cases hclose : s.store.close? id with
      | none => exact hs
      | some store =>
          have hexec : s.store.execute (.close id) = .ok (store, none) := by
            rw [Store.execute, hclose]
          exact hs.of_execute hexec
  -- from here on the snapshot is stored before the answer is known
  | drop id node place =>
      refine reachable_attempt hs ?_
      rintro ⟨store, snapshot, outcome⟩ hok
      have hstore := hs.of_updateNodes hok
      dsimp only
      split <;> exact hstore
  | lock id node =>
      refine reachable_attempt hs ?_
      rintro ⟨store, snapshot, locked⟩ hok
      have hstore := hs.of_updateNodes hok
      dsimp only
      split <;> exact hstore
  | connect id wiring =>
      refine reachable_attempt hs ?_
      rintro ⟨store, snapshot, _⟩ hok
      exact hs.of_updateEdges hok
  | disconnect id edge =>
      refine reachable_attempt hs ?_
      rintro ⟨store, snapshot, removed⟩ hok
      have hstore := hs.of_updateEdges hok
      dsimp only
      split <;> exact hstore

/-- An operation that is refused leaves the state it met, even where it stored a snapshot before. -/
theorem state_eq_of_refused (hs : s.store.Reachable) {operation : Operation K}
    {refusal : Refusal K} (h : perform mode newId s operation = .error refusal) :
    refusal.state = s := by
  cases operation with
  | drop | lock | connect | disconnect =>
      exact Answered.state_eq (h ▸ answered_perform mode newId hs rfl)
  | list => cases h
  | openWorkflow w | replace id w =>
      rcases Outcome.bind_eq_error_iff.mp h with h | ⟨_, _, h⟩
      · exact state_eq_of_attempt h
      · cases h
  | get id | close id =>
      rw [perform] at h
      split at h
      · cases h
      · obtain rfl := Except.error.inj h
        rfl

end Operations

/-! ### What requests ask for -/

namespace Endpoint

variable {e e' : Endpoint}

/-- Which tasks there are at an endpoint does not depend on its ids. -/
theorem task?_eq_none_of_resolve? (method : String) (h : e.resolve? = some e') :
    e.task? method = none ↔ e'.task? method = none := by
  cases e with
  | health | workflows =>
      obtain rfl := Option.some.inj h
      rfl
  | workflow | edges =>
      obtain ⟨_, _, heq⟩ := Option.bind_eq_some_iff.mp h
      obtain rfl := Option.some.inj heq
      grind [task?]
  | drop | lock | edge =>
      obtain ⟨_, _, heq⟩ := Option.bind_eq_some_iff.mp h
      obtain ⟨_, _, heq⟩ := Option.bind_eq_some_iff.mp heq
      obtain rfl := Option.some.inj heq
      grind [task?]

end Endpoint

namespace Request

/-- The method that decides what a request asks for. -/
def verb (r : Request) : String := if r.method = "HEAD" then "GET" else r.method

/-- The endpoint that a request is for, if the ids in its path are text. -/
def endpoint? (r : Request) : Option Endpoint := (Endpoint.ofPath? r.path).bind Endpoint.resolve?

variable {r : Request} {asked : Option (Operation Float)}

/-- Once a request has a task, it asks for what the task comes to with its body. -/
theorem operation?_of_task {e : Endpoint} {task : Task} (he : r.endpoint? = some e)
    (htask : e.task? r.verb = some task) : r.operation? = task.operation? r := by
  obtain ⟨raw, hraw, hresolve⟩ := Option.bind_eq_some_iff.mp he
  have hnone := Endpoint.task?_eq_none_of_resolve? r.verb hresolve
  obtain ⟨rawTask, hrawTask⟩ := Option.ne_none_iff_exists'.mp (mt hnone.mp (by simp [htask]))
  rw [operation?, ← verb]
  simp [hraw, hrawTask, hresolve, htask]

theorem operation?_eq_ok_iff : r.operation? = .ok asked ↔
    ∃ e task, r.endpoint? = some e ∧ e.task? r.verb = some task ∧
      task.operation? r = .ok asked := by
  constructor
  · intro h
    rw [operation?, ← verb] at h
    cases hraw : Endpoint.ofPath? r.path with
    | none => simp [hraw] at h
    | some raw =>
        cases hrawTask : raw.task? r.verb with
        | none => simp [hraw, hrawTask] at h
        | some rawTask =>
            cases htask : raw.resolve?.bind (Endpoint.task? r.verb) with
            | none => simp [hraw, hrawTask, htask] at h
            | some task =>
                obtain ⟨e, hresolve, htask'⟩ := Option.bind_eq_some_iff.mp htask
                simp only [hraw, hrawTask, htask] at h
                exact ⟨e, task, Option.bind_eq_some_iff.mpr ⟨raw, hraw, hresolve⟩, htask', h⟩
  · rintro ⟨e, task, he, htask, hok⟩
    rw [operation?_of_task he htask, hok]

/-- The methods GET and HEAD only ask for what is there. -/
theorem asked_of_reading (h : r.method = "GET" ∨ r.method = "HEAD")
    (hasked : r.operation? = .ok asked) :
    asked = none ∨ asked = some .list ∨ ∃ id, asked = some (.get id) := by
  have hverb : r.verb = "GET" := by rcases h with h | h <;> simp [verb, h]
  obtain ⟨e, task, _, htask, hok⟩ := operation?_eq_ok_iff.mp hasked
  rw [hverb] at htask
  cases e with
  | health =>
      obtain rfl := Option.some.inj htask
      exact .inl (Except.ok.inj hok).symm
  | workflows =>
      obtain rfl := Option.some.inj htask
      exact .inr (.inl (Except.ok.inj hok).symm)
  | workflow id =>
      obtain rfl := Option.some.inj htask
      exact .inr (.inr ⟨id, (Except.ok.inj hok).symm⟩)
  | drop | lock | edges | edge => simp [Endpoint.task?] at htask

/-- A gesture is never asked for by the method that leaves the body out. -/
theorem method_ne_of_canvas {operation : Operation Float} {id : String}
    (h : r.operation? = .ok (some operation))
    (hcanvas : operation.canvas? = some id) : r.method ≠ "HEAD" := by
  intro hhead
  rcases asked_of_reading (.inr hhead) h with heq | heq | ⟨_, heq⟩
  · cases heq
  · obtain rfl := Option.some.inj heq
    cases hcanvas
  · obtain rfl := Option.some.inj heq
    cases hcanvas

end Request

/-! ### Requests -/

namespace App

variable {app : App} {s : State Float} {r : Request} {operation : Operation Float}

theorem respond_of_operation (app : App) (s : State Float)
    (h : r.operation? = .ok (some operation)) :
    let answer := perform app.containment app.newId s operation
    (app.respond s r).1 = stateAfter answer ∧ (app.respond s r).2.status = statusAfter answer := by
  cases hanswer : perform app.containment app.newId s operation with
  | error refusal => simp only [respond, h, hanswer, stateAfter, statusAfter, and_self]
  | ok result => simp only [respond, h, hanswer, stateAfter, statusAfter, and_self]

theorem respond_of_carried_out {reply : Reply Float} {s' : State Float} {id : String}
    (hasks : r.operation? = .ok (some operation)) (hcanvas : operation.canvas? = some id)
    (hok : perform app.containment app.newId s operation = .ok (s', reply)) :
    app.respond s r = (s', ⟨200, .json reply.toJson⟩) := by
  rw [respond, hasks]
  simp only [hok, if_neg (Request.method_ne_of_canvas hasks hcanvas)]

theorem respond_of_refused {refusal : Refusal Float} (hasks : r.operation? = .ok (some operation))
    (hrefused : perform app.containment app.newId s operation = .error refusal) :
    app.respond s r = (refusal.state, ⟨statusOf refusal.error, .empty⟩) := by
  rw [respond, hasks]
  simp only [hrefused]

/-- A request that asks for no operation leaves the state as it was. -/
theorem respond_of_idle (h : ∀ operation, r.operation? ≠ .ok (some operation)) :
    (app.respond s r).1 = s := by
  rw [respond]
  split
  · rfl
  · rfl
  · rename_i operation hasked
    exact absurd hasked (h operation)

/-- What holds of the state that was met and of every state that an operation asked for leaves
behind holds of the state after a request. -/
theorem stateAfter_respond {P : State Float → Prop} (hs : P s)
    (hasked : ∀ operation, r.operation? = .ok (some operation) →
      P (stateAfter (perform app.containment app.newId s operation))) : P (app.respond s r).1 := by
  by_cases hasks : ∃ operation, r.operation? = .ok (some operation)
  · obtain ⟨operation, hasks⟩ := hasks
    rw [(respond_of_operation app s hasks).1]
    exact hasked operation hasks
  · rw [respond_of_idle fun operation hasked => hasks ⟨operation, hasked⟩]
    exact hs

/-- A request that only reads leaves the state as it was. -/
theorem respond_of_reading (h : r.method = "GET" ∨ r.method = "HEAD") :
    (app.respond s r).1 = s := by
  cases hasked : r.operation? with
  | error status => rw [respond, hasked]
  | ok asked =>
      rcases Request.asked_of_reading h hasked with rfl | rfl | ⟨id, rfl⟩
      · rw [respond, hasked]
      · rw [respond, hasked]
        rfl
      · cases hget : s.store.get? id <;> simp [respond, hasked, perform, hget]

/-- A request that is answered with another status than 200 leaves the state as it was. -/
theorem respond_of_status (hs : s.store.Reachable) (h : (app.respond s r).2.status ≠ 200) :
    (app.respond s r).1 = s := by
  by_cases hasks : ∃ operation, r.operation? = .ok (some operation)
  · obtain ⟨operation, hasks⟩ := hasks
    obtain ⟨hstate, hstatus⟩ := respond_of_operation app s hasks
    rw [hstatus] at h
    rw [hstate]
    cases hanswer : perform app.containment app.newId s operation with
    | error refusal => exact state_eq_of_refused hs hanswer
    | ok result =>
        rw [hanswer] at h
        exact absurd rfl h
  · exact respond_of_idle fun operation hasked => hasks ⟨operation, hasked⟩

theorem reachable_respond (hs : s.store.Reachable) : (app.respond s r).1.store.Reachable :=
  stateAfter_respond (P := fun s => s.store.Reachable) hs fun operation _ =>
    reachable_perform hs operation

/-! ### Runs -/

/-- The state after some requests. -/
def after (app : App) (s : State Float) (requests : List Request) : State Float :=
  requests.foldl (fun s r => (app.respond s r).1) s

/-- The state after some requests to a service that started with no workflows. -/
def run (app : App) (requests : List Request) : State Float :=
  requests.foldl (fun s r => (app.respond s r).1) {}

theorem reachable_after (hs : s.store.Reachable) (requests : List Request) :
    (app.after s requests).store.Reachable := by
  induction requests generalizing s with
  | nil => exact hs
  | cons r requests ih => exact ih (reachable_respond hs)

theorem reachable_run (app : App) (requests : List Request) :
    (app.run requests).store.Reachable :=
  reachable_after ⟨[], rfl⟩ requests

/-- After any requests, one that is answered with another status than 200 leaves everything as it
was: the workflows that are open, and of each the snapshot with the order of its nodes and edges.
So does one that only reads. -/
theorem refused_leaves_no_trace (app : App) (requests : List Request) (r : Request)
    (h : (app.respond (app.run requests) r).2.status ≠ 200 ∨ r.method = "GET" ∨
      r.method = "HEAD") :
    (app.respond (app.run requests) r).1 = app.run requests := by
  rcases h with hstatus | hreading
  · exact respond_of_status (reachable_run app requests) hstatus
  · exact respond_of_reading hreading

/-- A leaf in a batch is opened with the children in front, and locked. -/
def lockedRequests : List Request :=
  [⟨"POST", "/api/workflows", some "application/json",
      "[[\"flow\",\"Flow\",[[\"leaf\",\"reader\",[1,1],\"box\"],[\"box\",\"batch\",[2,2]]]]]"⟩,
    ⟨"POST", "/api/workflows/flow/nodes/leaf/lock", none, ""⟩]

/-- The leaf cannot be dropped. -/
theorem refused_leaves_no_trace_locked :
    let app : App := { newId := toString }
    let r : Request :=
      ⟨"POST", "/api/workflows/flow/nodes/leaf/drop", some "application/json", "[[5,5]]"⟩
    ((app.run lockedRequests).store.get? "flow").map (fun w => w.nodes.map Node.id) =
        some ["box", "leaf"] ∧
      (app.respond (app.run lockedRequests) r).2.status = 409 ∧
      (app.respond (app.run lockedRequests) r).1 = app.run lockedRequests := by
  intro app r
  have hseen : ((app.run lockedRequests).store.get? "flow").map (fun w => w.nodes.map Node.id) =
        some ["box", "leaf"] ∧ (app.respond (app.run lockedRequests) r).2.status = 409 := by
    decide +kernel
  obtain ⟨hids, hstatus⟩ := hseen
  exact ⟨hids, hstatus,
    refused_leaves_no_trace app lockedRequests r (.inl (by rw [hstatus]; decide))⟩

end App

end WorkflowCanvas.Service
