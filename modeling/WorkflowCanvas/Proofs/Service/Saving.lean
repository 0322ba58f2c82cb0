import WorkflowCanvas.Proofs.Service.Addresses
import WorkflowCanvas.Proofs.Service.Origins

/-!
Saving what was served.

A client reads an open workflow, and puts it back as it is. The body that it sends stands for the
stored snapshot exactly if all coordinates are finite, and then nothing changes. A drop adds
coordinates along the parents, and such a sum may be infinite. It is stored and served as `null`,
and no body with it is read again. Without such a drop everything that is served can be put back, as
long as it is not too long for a body. What is served has no such bound.
-/

namespace WorkflowCanvas.Service

open Session Json

variable {w : Workflow Float} {id : String}

/-! ### Bodies -/

/-- The body with which a workflow is sent. -/
def bodyOf (w : Workflow Float) : Json := .obj [("workflow", w.toJson)]

theorem recovers_body (h : w.Plain) : Recovers workflowBody bodyOf w w.Finite := by
  intro room hdepth
  obtain ⟨inner, r, hinner, hr, hrecord⟩ :=
    Decoder.exists_record_iff ["workflow"] (rfl : bodyOf w = _) (by simp) hdepth
  have hworkflow : r.required "workflow" Workflow.decoder = .pure w ↔ _ :=
    hr.required_recovers hinner (by simp) (Workflow.recovers h) (by simp)
  rw [workflowBody, hrecord]
  simp [hr.skipOthers_eq, hworkflow]

theorem demands_body (w : Workflow Float) : Demands workflowBody (bodyOf w) w.InRange := by
  intro room read hdepth h
  obtain ⟨inner, r, hinner, hr, hrecord⟩ :=
    Decoder.exists_record_iff ["workflow"] (rfl : bodyOf w = _) (by simp) hdepth
  have hbuild := (hrecord _ _).mp h
  simp only [Placed.seq_eq_pure_iff, Placed.map_eq_pure_iff] at hbuild
  obtain ⟨_, _, read, hread, _⟩ := hbuild
  exact hr.required_demands hinner (by simp) w.demands (by simp) hread

theorem depth_bodyOf (h : w.Legible keptDepth) : (bodyOf w).depth ≤ maxDepth :=
  depth_obj_le_iff.mpr ⟨keptDepth + 4, rfl, by simpa using h.depth_toJson⟩

theorem numbers_bodyOf (w : Workflow Float) : (bodyOf w).numbers = w.toJson.numbers := by
  simp [bodyOf, numbers, memberListNumbers, memberNumbers]

/-- Whatever a text with this workflow in it is read as, it is this workflow. -/
theorem decodeText_eq_ok_iff_of_legible {item : Decoder (Workflow Float)}
    {write : Workflow Float → Json} (hrecovers : Recovers item write w w.Finite)
    (hdemands : Demands item (write w) w.InRange) (h : w.Legible keptDepth)
    (hnumbers : ∀ n ∈ (write w).numbers, n.Rereads) (hdepth : (write w).depth ≤ maxDepth)
    (read : Workflow Float) :
    decodeText item (render (write w)) = .ok read ↔ read = w ∧ w.InRange := by
  have hself := decodeText_render_iff hrecovers hnumbers hdepth
  rw [h.finite_iff] at hself
  constructor
  · intro hread
    have hrange := hdemands.decodeText hnumbers hdepth hread
    exact ⟨Except.ok.inj (hread.symm.trans (hself.mpr hrange)), hrange⟩
  · rintro ⟨rfl, hrange⟩
    exact hself.mpr hrange

/-! ### Requests -/

namespace App

variable {app : App} {s : State Float} {r : Request}

/-- An open workflow is served as it is stored. -/
theorem respond_of_getting (he : r.endpoint? = some (.workflow id)) (hmethod : r.method = "GET")
    (hopen : s.store.get? id = some w) : app.respond s r = (s, ⟨200, .json w.toJson⟩) := by
  have hasked : r.operation? = .ok (some (.get id)) :=
    Request.operation?_eq_ok_iff.mpr
      ⟨_, .perform _, he, by simp [Request.verb, hmethod, Endpoint.task?], rfl⟩
  rw [respond, hasked]
  simp [perform, hopen, hmethod, Reply.toJson]

/-- A body that stands for what is stored changes nothing. -/
theorem respond_of_putting_back (hs : s.store.Reachable) (hopen : s.store.get? id = some w)
    (he : r.endpoint? = some (.workflow id)) (hmethod : r.method = "PUT")
    (hcarries : r.Carries workflowBody w) :
    app.respond s r = (s, ⟨200, .json (Reply.updated id w.name).toJson⟩) := by
  obtain ⟨rfl, hstored⟩ := hs.sound.of_get? hopen
  have hasked : r.operation? = .ok (some (.replace w.id w)) :=
    Request.operation?_eq_ok_iff.mpr
      ⟨_, _, he, by simp [Request.verb, hmethod, Endpoint.task?], hcarries.operation? _⟩
  have hreplace : s.store.replace w = .ok (s.store, w) :=
    Store.replace_eq_ok_iff.mpr
      ⟨⟨w, hopen⟩, hstored.toValid, hstored.arrange.symm, (hs.put_eq_self hopen).symm⟩
  have hperform : perform app.containment app.newId s (.replace w.id w) =
      .ok (s, .updated w.id w.name) := by
    rw [perform, replace, State.attempt, hreplace]
    rfl
  rw [respond, hasked]
  simp [hperform, hmethod]

theorem respond_of_putting_iff (hs : s.store.Reachable) (hopen : s.store.get? id = some w)
    (he : r.endpoint? = some (.workflow id)) (hmethod : r.method = "PUT") {range : Prop}
    (hbody : ∀ read, r.Carries workflowBody read ↔ read = w ∧ range) :
    (app.respond s r).1 = s ∧ ((app.respond s r).2.status = 200 ↔ range) := by
  by_cases hrange : range
  · rw [respond_of_putting_back hs hopen he hmethod ((hbody w).mpr ⟨rfl, hrange⟩)]
    exact ⟨rfl, iff_of_true rfl hrange⟩
  · have hstatus : (app.respond s r).2.status ≠ 200 := by
      intro hstatus
      obtain ⟨read, hcarries, _⟩ := respond_of_putting he hmethod hstatus
      exact hrange ((hbody read).mp hcarries).2
    exact ⟨respond_of_status hs hstatus, iff_of_false hstatus hrange⟩

/-- After any requests, every open workflow is served as it is stored. The text of it is read as
this workflow, and as nothing else, exactly if all its coordinates are finite. In any case the
workflows stay as they are when the text is sent back, and it is answered with 200 exactly if all
coordinates are finite and the body is not too long. The coordinates are finite as long as no drop
of one of the nodes was answered with 200. Of the numbers it is taken that the text of a float stands
for that float. -/
theorem served_can_be_put_back (app : App) (hnew : ∀ issued, app.newId issued ≠ "")
    (requests : List Request) (hopen : (app.run requests).store.get? id = some w)
    (hreals : w.toJson.RealsReread) :
    let s := app.run requests
    (∀ r : Request, r.path = Endpoint.pathOf id → r.method = "GET" →
      app.respond s r = (s, ⟨200, .json w.toJson⟩)) ∧
    (∀ read, decodeText Workflow.decoder (render w.toJson) = .ok read ↔ read = w ∧ w.InRange) ∧
    (∀ r : Request, r.path = Endpoint.pathOf id → r.method = "PUT" →
      r.contentType.any MediaType.isJson = true →
      r.body = render (.obj [("workflow", w.toJson)]) →
      (app.respond s r).1 = s ∧ ((app.respond s r).2.status = 200 ↔
        w.InRange ∧ r.body.utf8ByteSize ≤ maxBodySize)) ∧
    ((∀ node, (app.log {} requests).any (did (Operation.drops id node)) = false) →
      w.InRange) := by
  intro s
  have hs : s.store.Reachable := reachable_run app requests
  have hid : id ≠ "" := by
    rintro rfl
    have hempty : s.store.get? "" = none :=
      closed_empty_after hnew (s := {}) ⟨[], rfl⟩ rfl requests
    exact Option.some_ne_none w (hopen.symm.trans hempty)
  have hlegible : w.Legible keptDepth := legible_run app requests hopen
  have hnumbers : ∀ n ∈ (bodyOf w).numbers, n.Rereads := numbers_bodyOf w ▸ hreals.rereads
  have hread := decodeText_eq_ok_iff_of_legible (Workflow.recovers hlegible.plain) w.demands
    hlegible hreals.rereads (hlegible.depth_toJson.trans (by decide))
  have hbody := decodeText_eq_ok_iff_of_legible (recovers_body hlegible.plain) (demands_body w)
    hlegible hnumbers (depth_bodyOf hlegible)
  refine ⟨fun r hpath hmethod => ?_, hread, fun r hpath hmethod hjson htext => ?_, ?_⟩
  · exact respond_of_getting (Request.endpoint?_of_pathOf hid hpath) hmethod hopen
  · have hcarries : ∀ read, r.Carries workflowBody read ↔
        read = w ∧ w.InRange ∧ r.body.utf8ByteSize ≤ maxBodySize := by
      intro read
      have hreads : decodeText workflowBody r.body = .ok read ↔ read = w ∧ w.InRange :=
        htext ▸ hbody read
      constructor
      · intro h
        obtain ⟨hsame, hrange⟩ := hreads.mp h.reads
        exact ⟨hsame, hrange, h.fits⟩
      · rintro ⟨hsame, hrange, hfits⟩
        exact ⟨hjson, hfits, hreads.mpr ⟨hsame, hrange⟩⟩
    exact respond_of_putting_iff hs hopen (Request.endpoint?_of_pathOf hid hpath) hmethod hcarries
  · exact inRange_run app requests hopen

/-- A leaf with members of its own is dropped into a batch. -/
def nestingRequests : List Request :=
  [⟨"POST", "/api/workflows", some "application/json",
      "[[\"a/b\",\"Flow\",[[\"box\",\"batch\",[0.5,2],null,[300,200.25]]," ++
        "[\"leaf\",\"reader\",[-10,0],null,[1,1],\x7b\"tags\":[1,0.1],\"hint\":null\x7d]]]]"⟩,
    ⟨"POST", "/api/workflows/a%2Fb/nodes/leaf/drop", some "application/json", "[[20.75,30]]"⟩]

theorem served_can_be_put_back_nested :
    let app : App := { newId := fun issued => "new-" ++ toString issued }
    let s := app.run nestingRequests
    ∃ w, s.store.get? "a/b" = some w ∧
      w.nodes.map (fun n => (n.id, n.parent)) = [("box", none), ("leaf", some "box")] ∧
      Endpoint.pathOf "a/b" = "/api/workflows/a%2Fb" ∧
      app.respond s ⟨"GET", "/api/workflows/a%2Fb", none, ""⟩ = (s, ⟨200, .json w.toJson⟩) ∧
      decodeText Workflow.decoder (render w.toJson) = .ok w ∧
      let r : Request := ⟨"PUT", "/api/workflows/a%2Fb", some "application/json",
        render (.obj [("workflow", w.toJson)])⟩
      (app.respond s r).1 = s ∧ (app.respond s r).2.status = 200 := by
  intro app s
  subst s
  have hnew : ∀ issued, app.newId issued ≠ "" := by simp [app]
  have hseen : (((app.run nestingRequests).store.get? "a/b").map fun w =>
      (w.nodes.map fun n => (n.id, n.parent), w.toJson.numbers.all fun n => decide n.Rereads,
        w.nodes.all fun n => n.position.x.isFinite && n.position.y.isFinite,
        decide (4 * (chars (bodyOf w)).length ≤ maxBodySize))) =
      some ([("box", none), ("leaf", some "box")], true, true, true) := by
    decide +kernel
  obtain ⟨w, hopen, hw⟩ := Option.map_eq_some_iff.mp hseen
  obtain ⟨hnodes, hw⟩ := Prod.mk.inj hw
  obtain ⟨hrereads, hw⟩ := Prod.mk.inj hw
  obtain ⟨hfinite, hfits⟩ := Prod.mk.inj hw
  have hreals : w.toJson.RealsReread := fun x finite hmem =>
    of_decide_eq_true (List.all_eq_true.mp hrereads _ hmem)
  have hrange : w.InRange := by
    intro n hn
    obtain ⟨hx, hy⟩ := Bool.and_eq_true_iff.mp (List.all_eq_true.mp hfinite n hn)
    exact ⟨hx, hy⟩
  have hpath : Endpoint.pathOf "a/b" = "/api/workflows/a%2Fb" := by cbv
  have hjson : (some "application/json").any MediaType.isJson = true := by decide +kernel
  obtain ⟨hget, hread, hput, _⟩ := served_can_be_put_back app hnew nestingRequests hopen hreals
  obtain ⟨hsame, hstatus⟩ := hput ⟨"PUT", "/api/workflows/a%2Fb", some "application/json",
    render (.obj [("workflow", w.toJson)])⟩ hpath.symm rfl hjson rfl
  have hsize : (render (bodyOf w)).utf8ByteSize ≤ maxBodySize :=
    (Text.utf8ByteSize_bounds (chars (bodyOf w))).2.trans (of_decide_eq_true hfits)
  exact ⟨w, hopen, hnodes, hpath, hget _ hpath.symm rfl, (hread w).mpr ⟨rfl, hrange⟩, hsame,
    hstatus.mpr ⟨hrange, hsize⟩⟩

/-- A leaf is dropped out of a batch, far from the origin. -/
def farRequests : List Request :=
  [⟨"POST", "/api/workflows", some "application/json",
      "[[\"flow\",\"Flow\",[[\"box\",\"batch\",[1e308,0],null,[10,10]]," ++
        "[\"leaf\",\"reader\",[1,1],\"box\"]]]]"⟩,
    ⟨"POST", "/api/workflows/flow/nodes/leaf/drop", some "application/json", "[[1e308,1]]"⟩]

/-- The coordinates of the place and of the batch are finite, but their sum is not. -/
theorem far_drop_cannot_be_put_back :
    let app : App := { newId := toString }
    let s := app.run farRequests
    (app.log {} farRequests).map (fun exchange => exchange.2.status) = [200, 200] ∧
      ∃ w, s.store.get? "flow" = some w ∧
        w.nodes.map (fun n => (n.id, n.position.x.isFinite)) = [("box", true), ("leaf", false)] ∧
        w.toJson.RealsReread ∧
        app.respond s ⟨"GET", Endpoint.pathOf "flow", none, ""⟩ = (s, ⟨200, .json w.toJson⟩) ∧
        decodeText Workflow.decoder (render w.toJson) ≠ .ok w ∧
        (app.respond s ⟨"PUT", Endpoint.pathOf "flow", some "application/json",
          render (.obj [("workflow", w.toJson)])⟩).2.status ≠ 200 := by
  intro app s
  subst s
  have hseen : (((app.run farRequests).store.get? "flow").map fun w =>
      (w.nodes.map fun n => (n.id, n.position.x.isFinite),
        w.toJson.numbers.all fun n => decide n.Rereads)) =
      some ([("box", true), ("leaf", false)], true) := by
    decide +kernel
  obtain ⟨w, hopen, hw⟩ := Option.map_eq_some_iff.mp hseen
  obtain ⟨hnodes, hrereads⟩ := Prod.mk.inj hw
  have hreals : w.toJson.RealsReread := fun x finite hmem =>
    of_decide_eq_true (List.all_eq_true.mp hrereads _ hmem)
  have hrange : ¬ w.InRange := by
    intro hrange
    have hleaf : ("leaf", false) ∈ w.nodes.map fun n => (n.id, n.position.x.isFinite) := by
      simp [hnodes]
    obtain ⟨n, hn, heq⟩ := List.mem_map.mp hleaf
    exact absurd (hrange n hn).x (by simp [(Prod.mk.inj heq).2])
  have hlegible : w.Legible keptDepth := legible_run app farRequests hopen
  have he : ∀ r : Request, r.path = Endpoint.pathOf "flow" → r.endpoint? = some (.workflow "flow") :=
    fun r => Request.endpoint?_of_pathOf (by decide)
  refine ⟨by decide +kernel, w, hopen, hnodes, hreals, ?_, ?_, ?_⟩
  · exact respond_of_getting (he _ rfl) rfl hopen
  · exact fun hself => hrange (w.demands.decodeText hreals.rereads
      (hlegible.depth_toJson.trans (by decide)) hself)
  · intro hstatus
    obtain ⟨read, hcarries, _⟩ := respond_of_putting (he _ rfl) rfl hstatus
    exact hrange ((demands_body w).decodeText (numbers_bodyOf w ▸ hreals.rereads)
      (depth_bodyOf hlegible) hcarries.reads)

end App

end WorkflowCanvas.Service
