import WorkflowCanvas.Proofs.Json.Fields
import WorkflowCanvas.Proofs.Json.Rereading
import WorkflowCanvas.Proofs.Service.Run

/-!
The statuses with which gestures are answered.

A gesture that is asked for in a form the service reads fails only for what clients can see of the
open workflows. Every gesture has the whole snapshot checked once more, so this rests on the
snapshots being valid after all requests, and on no gesture making one invalid.

An id in a path whose octets are not UTF-8 names nothing, and a body that is too long is not read. In
both cases a gesture is refused before anything is looked up, and not as for something unknown.
-/

namespace WorkflowCanvas.Service

open Session

/-! ### What clients can see -/

section Seen

variable {K : Type}

/-- The status of a gesture by what clients can see; other operations are no gestures. -/
def gestureStatus? (store : Store K) : Operation K → Option Nat
  | .drop id node _ =>
    match (store.get? id).bind fun w => Node.first? w.nodes node with
    | none => some 404
    | some n => some (if n.data.locked then 409 else 200)
  | .lock id node =>
    match (store.get? id).bind fun w => Node.first? w.nodes node with
    | none => some 404
    | some _ => some 200
  | .connect id wiring =>
    match store.get? id with
    | none => some 404
    | some w =>
      let ids := w.nodes.map Node.id
      some (if wiring.source ∈ ids ∧ wiring.target ∈ ids then 200 else 400)
  | .disconnect id edge =>
    match store.get? id with
    | none => some 404
    | some w => some (if edge ∈ w.edges.map Edge.id then 200 else 404)
  | _ => none

variable [Scalar K] {mode : Containment} {s : State K} {operation : Operation K}
  {answer : Attempt K (State K × Reply K)}

theorem Answered.status_eq (h : Answered mode s operation answer) :
    gestureStatus? s.store operation = some (statusAfter answer) := by
  cases h with
  | notOpen hcanvas hopen =>
      cases operation with
      | drop | lock | connect | disconnect =>
          obtain rfl := Option.some.inj hcanvas
          simp [gestureStatus?, hopen, statusAfter, statusOf]
      | openWorkflow | list | get | replace | close => cases hcanvas
  | dropUnknown hopen hn | lockUnknown hopen hn =>
      simp [gestureStatus?, hopen, hn, statusAfter, statusOf]
  | dropLocked hopen hn hlocked | dropped hopen hn hlocked =>
      simp [gestureStatus?, hopen, hn, hlocked, statusAfter, statusOf]
  | lockTurned hopen hn => simp [gestureStatus?, hopen, hn, statusAfter]
  | connectDangling hopen hends =>
      have hdangling := Snapshot.dangling_of_edgeFault? hends
      simp only [gestureStatus?, hopen, if_neg hdangling, statusAfter, statusOf]
  | connected hopen hends =>
      have hnodes := Snapshot.edgeFault?_eq_none_iff.mp hends
      simp only [gestureStatus?, hopen, if_pos hnodes, statusAfter]
  | disconnectUnknown hopen hrest =>
      have hid := Gesture.disconnect?_eq_none_iff.mp hrest
      simp only [gestureStatus?, hopen, if_neg hid, statusAfter, statusOf]
  | disconnected hopen hrest =>
      have hid := (Gesture.disconnect?_eq_some_iff.mp hrest).1
      simp only [gestureStatus?, hopen, if_pos hid, statusAfter]

end Seen

/-! ### What is asked for -/

theorem decodeText_map {α β : Type} {decoder : Json.Decoder α} {text : String} {a : α} (f : α → β)
    (h : Json.decodeText decoder text = .ok a) :
    Json.decodeText (fun room d => f <$> decoder room d) text = .ok (f a) := by
  obtain ⟨hdecode, hcomplete⟩ := Json.decodeText_eq_ok_iff.mp h
  exact Json.decodeText_eq_ok_iff.mpr ⟨congrArg (f <$> ·) hdecode, hcomplete⟩

namespace Request

/-- A body that is announced as JSON, is not too long, and reads as this value. -/
structure Carries {α : Type} (r : Request) (decoder : Json.Decoder α) (a : α) : Prop where
  announced : r.contentType.any MediaType.isJson = true
  fits : r.body.utf8ByteSize ≤ maxBodySize
  reads : Json.decodeText decoder r.body = .ok a

/-- A gesture in a form that the service reads: ids that are text, and where there has to be a body,
one of the right shape that is not too long. -/
inductive Asks (r : Request) : Operation Float → Prop
  | drop {id node : String} {place : Point Float} : r.method = "POST" →
      r.endpoint? = some (.drop id node) → r.Carries dropBody place → Asks r (.drop id node place)
  | lock {id node : String} : r.method = "POST" → r.endpoint? = some (.lock id node) →
      Asks r (.lock id node)
  | connect {id : String} {wiring : Wiring} : r.method = "POST" →
      r.endpoint? = some (.edges id) → r.Carries Wiring.decoder wiring →
      Asks r (.connect id wiring)
  | disconnect {id edge : String} : r.method = "DELETE" → r.endpoint? = some (.edge id edge) →
      Asks r (.disconnect id edge)

variable {r : Request} {operation : Operation Float}

theorem Carries.operation? {α : Type} {decoder : Json.Decoder α} {a : α} (h : r.Carries decoder a)
    (f : α → Operation Float) :
    Task.operation? r (.read fun room d => f <$> decoder room d) = .ok (some (f a)) := by
  rw [Task.operation?, h.announced, if_neg (by decide), if_neg (Nat.not_lt_of_le h.fits),
    decodeText_map f h.reads]

/-- A body that is too long is refused whatever it says. -/
theorem operation?_of_too_long {e : Endpoint} {decoder : Json.Decoder (Operation Float)}
    (he : r.endpoint? = some e) (htask : e.task? r.verb = some (.read decoder))
    (hjson : r.contentType.any MediaType.isJson = true)
    (hlong : maxBodySize < r.body.utf8ByteSize) : r.operation? = .error 413 := by
  rw [operation?_of_task he htask, Task.operation?, hjson, if_neg (by decide), if_pos hlong]

theorem Asks.operation?_eq (h : r.Asks operation) : r.operation? = .ok (some operation) := by
  refine operation?_eq_ok_iff.mpr ?_
  cases h with
  | drop hmethod hendpoint hbody =>
      exact ⟨_, _, hendpoint, by simp [verb, hmethod, Endpoint.task?], hbody.operation? _⟩
  | lock hmethod hendpoint =>
      exact ⟨_, .perform _, hendpoint, by simp [verb, hmethod, Endpoint.task?], rfl⟩
  | connect hmethod hendpoint hbody =>
      exact ⟨_, _, hendpoint, by simp [verb, hmethod, Endpoint.task?], hbody.operation? _⟩
  | disconnect hmethod hendpoint =>
      exact ⟨_, .perform _, hendpoint, by simp [verb, hmethod, Endpoint.task?], rfl⟩

theorem Asks.canvas? (h : r.Asks operation) : ∃ id, operation.canvas? = some id := by
  cases h <;> exact ⟨_, rfl⟩

end Request

/-! ### Statuses -/

namespace App

/-- After any requests, a gesture is answered with the status that clients can foresee. Only a
connection is ever answered with 400. -/
theorem gesture_fails_visibly (app : App) (requests : List Request) {r : Request}
    {operation : Operation Float} (h : r.Asks operation) :
    gestureStatus? (app.run requests).store operation =
        some (app.respond (app.run requests) r).2.status ∧
      ((app.respond (app.run requests) r).2.status = 400 →
        ∃ id wiring, operation = .connect id wiring) := by
  obtain ⟨id, hcanvas⟩ := h.canvas?
  have hanswered :=
    answered_perform app.containment app.newId (reachable_run app requests) hcanvas
  have hstatus := hanswered.status_eq
  rw [← (respond_of_operation app _ h.operation?_eq).2] at hstatus
  refine ⟨hstatus, fun hbad => ?_⟩
  rw [hbad] at hstatus
  cases h with
  | connect => exact ⟨_, _, rfl⟩
  | drop | lock | disconnect =>
      simp only [gestureStatus?] at hstatus
      grind

/-- A connection to a node that is not there is answered with 400. -/
theorem gesture_fails_visibly_dangling :
    let app : App := { newId := toString }
    let wiring : Wiring := { source := "leaf", target := "attic" }
    let r : Request :=
      ⟨"POST", "/api/workflows/flow/edges", some "application/json", "[\"leaf\",\"attic\"]"⟩
    r.Asks (.connect "flow" wiring) ∧
      gestureStatus? (app.run lockedRequests).store (.connect "flow" wiring) = some 400 ∧
      (app.respond (app.run lockedRequests) r).2.status = 400 := by
  intro app wiring r
  have hseen : r.endpoint? = some (.edges "flow") ∧
      r.contentType.any MediaType.isJson = true ∧ r.body.utf8ByteSize ≤ maxBodySize ∧
      Json.decodeText Wiring.decoder r.body = .ok wiring ∧
      gestureStatus? (app.run lockedRequests).store (.connect "flow" wiring) = some 400 := by
    decide +kernel
  obtain ⟨hendpoint, hannounced, hfits, hreads, hforeseen⟩ := hseen
  have hasks : r.Asks (.connect "flow" wiring) :=
    .connect rfl hendpoint ⟨hannounced, hfits, hreads⟩
  have hstatus := (gesture_fails_visibly app lockedRequests hasks).1
  exact ⟨hasks, hforeseen, Option.some.inj (hstatus.symm.trans hforeseen)⟩

/-- No workflow is open, and still two gestures are not answered as for an unknown one. In the path
of a lock an octet that is not UTF-8 makes the id no text. In front of the body of a drop there is
so much space that it is too long, although it reads as a place. -/
theorem gestures_refused_unread :
    let app : App := { newId := toString }
    let lock : Request := ⟨"POST", "/api/workflows/%FF/nodes/leaf/lock", none, ""⟩
    let drop : Request := ⟨"POST", "/api/workflows/flow/nodes/leaf/drop", some "application/json",
      String.ofList (List.replicate maxBodySize ' ') ++ "[[1,1]]"⟩
    (app.run []).store.ids = [] ∧ Endpoint.ofPath? lock.path = some (.lock "%FF" "leaf") ∧
      (app.respond (app.run []) lock).2.status = 400 ∧
      drop.endpoint? = some (.drop "flow" "leaf") ∧
      drop.contentType.any MediaType.isJson = true ∧
      Json.decodeText dropBody drop.body = .ok ⟨1, 1⟩ ∧
      (app.respond (app.run []) drop).2.status = 413 := by
  intro app lock drop
  let place : Json := .arr [.arr [.num (.whole 1 (by decide)), .num (.whole 1 (by decide))]]
  have hplace : "[[1,1]]" = Json.render place ∧ (∀ n ∈ place.numbers, n.Rereads) ∧
      dropBody Json.maxDepth place.toDocument = .ok ⟨1, 1⟩ := by
    decide +kernel
  obtain ⟨htext, hnumbers, hdecode⟩ := hplace
  have hseen : (app.run []).store.ids = [] ∧
      Endpoint.ofPath? lock.path = some (.lock "%FF" "leaf") ∧
      (app.respond (app.run []) lock).2.status = 400 ∧
      drop.endpoint? = some (.drop "flow" "leaf") ∧
      drop.contentType.any MediaType.isJson = true := by
    decide +kernel
  obtain ⟨hclosed, hpath, hlock, hdrop, hjson⟩ := hseen
  have hread : Json.readDocument drop.body = (place.toDocument, true) := by
    have hspace : ∀ c ∈ List.replicate maxBodySize ' ', Json.isSpace c = true := by
      intro c hc
      obtain rfl := List.eq_of_mem_replicate hc
      rfl
    rw [← Json.readDocument_append_space hspace place hnumbers, ← htext]
  have hlong : maxBodySize < drop.body.utf8ByteSize := by
    have hspaces := (Text.utf8ByteSize_bounds (List.replicate maxBodySize ' ')).1
    rw [List.length_replicate] at hspaces
    rw [String.utf8ByteSize_append]
    exact Nat.lt_of_le_of_lt hspaces (Nat.lt_add_of_pos_right (by decide))
  have hrefused : drop.operation? = .error 413 :=
    Request.operation?_of_too_long hdrop rfl hjson hlong
  refine ⟨hclosed, hpath, hlock, hdrop, hjson, ?_, ?_⟩
  · rw [Json.decodeText_eq_ok_iff, hread]
    exact ⟨hdecode, rfl⟩
  · rw [respond, hrefused]

end App

end WorkflowCanvas.Service
