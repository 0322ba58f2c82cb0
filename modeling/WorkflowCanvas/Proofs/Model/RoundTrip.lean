import WorkflowCanvas.Model.Reading
import WorkflowCanvas.Proofs.Json.Recovery
import WorkflowCanvas.Service.Settings

/-!
Reading back what was written.

A workflow is read back from its text as it was exactly if its coordinates and sizes are finite, as
the others are written as `null`. What a payload keeps is written beside its fields, so it must not
go by their names, and it comes back in the order of the keys. Wirings and settings hold nothing
that could be lost.
-/

namespace WorkflowCanvas

open Json Json.Decoder

/-! ### Places and sizes -/

@[mk_iff] structure Point.Finite (p : Point Float) : Prop where
  x : p.x.isFinite = true
  y : p.y.isFinite = true

@[mk_iff] structure Measured.Finite (m : Measured Float) : Prop where
  width : ∀ x ∈ m.width, x.isFinite = true
  height : ∀ x ∈ m.height, x.isFinite = true

theorem Point.recovers (p : Point Float) : Recovers Point.decoder Point.toJson p p.Finite := by
  intro room hdepth
  obtain ⟨inner, r, hinner, hr, hrecord⟩ :=
    exists_record_iff ["x", "y"] (rfl : p.toJson = _) (by simp) hdepth
  have hx : r.required "x" float = .pure p.x ↔ _ :=
    hr.required_recovers hinner (by simp) (recovers_float p.x) (by simp)
  have hy : r.required "y" float = .pure p.y ↔ _ :=
    hr.required_recovers hinner (by simp) (recovers_float p.y) (by simp [List.lookup_cons])
  obtain ⟨x, y⟩ := p
  rw [Point.decoder, hrecord]
  simp [hr.skipOthers_eq, hx, hy, Point.finite_iff]

theorem Measured.recovers (m : Measured Float) :
    Recovers Measured.decoder Measured.toJson m m.Finite := by
  intro room hdepth
  have hkeys := ((keys_optionalMember "width" ofFloat m.width).append
    (keys_optionalMember "height" ofFloat m.height)).nodup (by decide)
  rw [← List.map_append] at hkeys
  obtain ⟨inner, r, hinner, hr, hrecord⟩ :=
    exists_record_iff ["width", "height"] (rfl : m.toJson = _) hkeys hdepth
  have hwidth : r.optional "width" float = .pure m.width ↔ _ :=
    hr.optional_recovers hinner (by simp) (fun x _ => recovers_float x) float_null
      (.inl (by simp [List.lookup_append]))
  have hheight : r.optional "height" float = .pure m.height ↔ _ :=
    hr.optional_recovers hinner (by simp) (fun x _ => recovers_float x) float_null
      (.inl (by simp [List.lookup_append]))
  obtain ⟨width, height⟩ := m
  rw [Measured.decoder, hrecord]
  simp [hr.skipOthers_eq, hwidth, hheight, Measured.finite_iff]

/-! ### Nodes -/

theorem NodeKind.recovers (kind : NodeKind) :
    Recovers NodeKind.decoder NodeKind.toJson kind True := by
  intro room _
  cases kind <;> simp [NodeKind.toJson, toDocument, NodeKind.decoder, choice] <;> rfl

/-- A payload as it comes from a text: what is kept in it is in order and apart from what is
understood. -/
structure Payload.Plain (d : Payload) : Prop where
  ascending : Ascending d.extra
  apart : ∀ m ∈ d.extra, m.1 ∉ ["name", "locked"]
  canonical : ∀ m ∈ d.extra, Canonical m.2

/-- The members that a payload is written with. -/
def Payload.members (d : Payload) : List (String × Json) :=
  optionalMember "name" .str d.name ++ ("locked", .bool d.locked) :: d.extra

namespace Payload.Plain

variable {d : Payload} (h : d.Plain)
include h

theorem keys_nodup : (d.members.map Prod.fst).Nodup := by
  rw [members, List.map_append, List.map_cons, ← List.singleton_append, ← List.append_assoc]
  have hnames := (keys_optionalMember "name" .str d.name).append (.refl ["locked"])
  refine List.nodup_append.mpr ⟨hnames.nodup (by decide), h.ascending.nodup, ?_⟩
  rintro name hname key hkey rfl
  obtain ⟨m, hm, rfl⟩ := List.mem_map.mp hkey
  exact h.apart m hm (hnames.subset hname)

theorem lookup_name : d.members.lookup "name" = d.name.map .str := by
  have hextra : d.extra.lookup "name" = none := List.lookup_eq_none_iff.mpr fun m hm =>
    bne_iff_ne.mpr fun heq => h.apart m hm (heq ▸ List.mem_cons_self)
  simp [members, List.lookup_append, List.lookup_cons, hextra]

theorem filter_members : d.members.filter (fun m => m.1 ∉ ["name", "locked"]) = d.extra := by
  have hname : (optionalMember "name" .str d.name).filter (fun m => m.1 ∉ ["name", "locked"]) =
      [] := by
    cases d.name <;> simp [optionalMember]
  have hextra : d.extra.filter (fun m => m.1 ∉ ["name", "locked"]) = d.extra :=
    List.filter_eq_self.mpr fun m hm => by simpa using h.apart m hm
  rw [members, List.filter_append, hname, List.filter_cons_of_neg (by simp), hextra]
  rfl

end Payload.Plain

/-- A payload that is an object is decoded as a record. -/
theorem Payload.decoder_obj (room : Nat) (members : List (String × Json)) :
    Payload.decoder room (Json.obj members).toDocument = record ["name", "locked"] (fun r =>
      (fun extra name locked => ⟨name, locked, sortMembers extra⟩) <$> r.keepOthers <*>
        r.optional "name" string <*> r.withDefault "locked" Decoder.bool false)
      room (Json.obj members).toDocument := rfl

theorem Payload.recovers {d : Payload} (h : d.Plain) :
    Recovers Payload.decoder Payload.toJson d True := by
  intro room hdepth
  obtain ⟨inner, r, hinner, hr, hrecord⟩ :=
    exists_record_iff ["name", "locked"] (rfl : Json.obj d.members = _) h.keys_nodup hdepth
  have hname : r.optional "name" string = .pure d.name :=
    (hr.optional_recovers hinner (by simp) (fun s _ => recovers_string s) string_null
      (.inl h.lookup_name)).mpr fun _ _ => trivial
  have hlocked : r.withDefault "locked" Decoder.bool false = .pure d.locked :=
    (hr.withDefault_recovers hinner (by simp) (recovers_bool d.locked)
      (by simp [members, List.lookup_append])).mpr trivial
  have hextra : r.keepOthers = .pure d.extra := by
    have hvalue : ∀ m ∈ d.members, m.1 ∉ ["name", "locked"] →
        Decoder.value inner m.2.toDocument = some m.2 := by
      intro m hm hother
      have hmem : m ∈ d.extra := h.filter_members ▸ List.mem_filter.mpr ⟨hm, by simpa using hother⟩
      exact Decoder.value_toDocument (h.canonical m hmem) (hinner m hm)
    rw [hr.keepOthers_eq hvalue, h.filter_members]
  change Payload.decoder room (Json.obj d.members).toDocument = .ok d ↔ True
  rw [decoder_obj, hrecord]
  simp [hextra, hname, hlocked, sortMembers_eq_self h.ascending]

@[mk_iff] structure Node.Finite (n : Node Float) : Prop where
  position : n.position.Finite
  measured : ∀ m ∈ n.measured, m.Finite

/-- The members that a node is written with. -/
def Node.members (n : Node Float) : List (String × Json) :=
  [("id", .str n.id), ("type", n.kind.toJson), ("position", n.position.toJson)] ++
    optionalMember "parentId" .str n.parent ++
    optionalMember "measured" Measured.toJson n.measured ++ [("data", n.data.toJson)]

theorem Node.keys_nodup (n : Node Float) : (n.members.map Prod.fst).Nodup := by
  have hsub := (((List.Sublist.refl ["id", "type", "position"]).append
    (keys_optionalMember "parentId" .str n.parent)).append
    (keys_optionalMember "measured" Measured.toJson n.measured)).append (.refl ["data"])
  simpa only [members, List.map_append, List.map_cons, List.map_nil] using hsub.nodup (by decide)

theorem Node.lookup_position (n : Node Float) :
    n.members.lookup "position" = some n.position.toJson := by
  simp [members, List.lookup_cons]

theorem Node.recovers {n : Node Float} (h : n.data.Plain) :
    Recovers Node.decoder Node.toJson n n.Finite := by
  intro room hdepth
  obtain ⟨inner, r, hinner, hr, hrecord⟩ :=
    exists_record_iff ["id", "type", "position", "parentId", "measured", "data"]
      (show n.toJson = .obj n.members from rfl) n.keys_nodup hdepth
  have hid : r.required "id" string = .pure n.id :=
    (hr.required_recovers hinner (by simp) (recovers_string n.id) (by simp [members])).mpr trivial
  have hkind : r.required "type" NodeKind.decoder = .pure n.kind :=
    (hr.required_recovers hinner (by simp) n.kind.recovers
      (by simp [members, List.lookup_cons])).mpr trivial
  have hposition : r.required "position" Point.decoder = .pure n.position ↔ _ :=
    hr.required_recovers hinner (by simp) n.position.recovers n.lookup_position
  have hparent : r.optional "parentId" string = .pure n.parent :=
    (hr.optional_recovers hinner (by simp) (fun s _ => recovers_string s) string_null
      (.inl (by simp [members, List.lookup_append, List.lookup_cons]))).mpr fun _ _ => trivial
  have hmeasured : r.optional "measured" Measured.decoder = .pure n.measured ↔ _ :=
    hr.optional_recovers hinner (by simp) (fun m _ => m.recovers) record_null
      (.inl (by simp [members, List.lookup_append, List.lookup_cons]))
  have hdata : r.withDefault "data" Payload.decoder {} = .pure n.data :=
    (hr.withDefault_recovers hinner (by simp) (Payload.recovers h)
      (by simp [members, List.lookup_append, List.lookup_cons])).mpr trivial
  obtain ⟨id, kind, position, parent, measured, data⟩ := n
  rw [Node.decoder, hrecord]
  simp [hr.skipOthers_eq, hid, hkind, hposition, hparent, hmeasured, hdata, Node.finite_iff]

/-! ### Edges -/

theorem Wiring.recovers (w : Wiring) : Recovers Wiring.decoder Wiring.toJson w True := by
  intro room hdepth
  obtain ⟨inner, r, hinner, hr, hrecord⟩ :=
    exists_record_iff ["source", "target", "sourceHandle", "targetHandle"] (rfl : w.toJson = _)
      (by simp) hdepth
  have hsource : r.required "source" string = .pure w.source :=
    (hr.required_recovers hinner (by simp) (recovers_string w.source) (by simp)).mpr trivial
  have htarget : r.required "target" string = .pure w.target :=
    (hr.required_recovers hinner (by simp) (recovers_string w.target)
      (by simp [List.lookup_cons])).mpr trivial
  have hsourceHandle : r.optional "sourceHandle" string = .pure w.sourceHandle :=
    (hr.optional_recovers hinner (by simp) (fun s _ => recovers_string s) string_null
      (.inr (by simp [List.lookup_cons]))).mpr fun _ _ => trivial
  have htargetHandle : r.optional "targetHandle" string = .pure w.targetHandle :=
    (hr.optional_recovers hinner (by simp) (fun s _ => recovers_string s) string_null
      (.inr (by simp [List.lookup_cons]))).mpr fun _ _ => trivial
  rw [Wiring.decoder, hrecord]
  simp [hr.skipOthers_eq, hsource, htarget, hsourceHandle, htargetHandle]

theorem Edge.recovers (e : Edge) : Recovers Edge.decoder Edge.toJson e True := by
  intro room hdepth
  have hkeys : (([("id", str e.id), ("source", str e.wiring.source),
        ("target", str e.wiring.target)] ++
      optionalMember "sourceHandle" .str e.wiring.sourceHandle ++
      optionalMember "targetHandle" .str e.wiring.targetHandle).map Prod.fst).Nodup := by
    have hsub := ((List.Sublist.refl ["id", "source", "target"]).append
      (keys_optionalMember "sourceHandle" .str e.wiring.sourceHandle)).append
      (keys_optionalMember "targetHandle" .str e.wiring.targetHandle)
    simpa only [List.map_append, List.map_cons, List.map_nil] using hsub.nodup (by decide)
  obtain ⟨inner, r, hinner, hr, hrecord⟩ :=
    exists_record_iff ["id", "source", "target", "sourceHandle", "targetHandle"]
      (rfl : e.toJson = _) hkeys hdepth
  have hid : r.required "id" string = .pure e.id :=
    (hr.required_recovers hinner (by simp) (recovers_string e.id) (by simp)).mpr trivial
  have hsource : r.required "source" string = .pure e.wiring.source :=
    (hr.required_recovers hinner (by simp) (recovers_string e.wiring.source)
      (by simp [List.lookup_cons])).mpr trivial
  have htarget : r.required "target" string = .pure e.wiring.target :=
    (hr.required_recovers hinner (by simp) (recovers_string e.wiring.target)
      (by simp [List.lookup_cons])).mpr trivial
  have hsourceHandle : r.optional "sourceHandle" string = .pure e.wiring.sourceHandle :=
    (hr.optional_recovers hinner (by simp) (fun s _ => recovers_string s) string_null
      (.inl (by simp [List.lookup_append, List.lookup_cons]))).mpr fun _ _ => trivial
  have htargetHandle : r.optional "targetHandle" string = .pure e.wiring.targetHandle :=
    (hr.optional_recovers hinner (by simp) (fun s _ => recovers_string s) string_null
      (.inl (by simp [List.lookup_append, List.lookup_cons]))).mpr fun _ _ => trivial
  rw [Edge.decoder, hrecord]
  simp [hr.skipOthers_eq, hid, hsource, htarget, hsourceHandle, htargetHandle]

/-! ### Workflows -/

def Workflow.Finite (w : Workflow Float) : Prop := ∀ n ∈ w.nodes, n.Finite

def Workflow.Plain (w : Workflow Float) : Prop := ∀ n ∈ w.nodes, n.data.Plain

theorem Workflow.recovers {w : Workflow Float} (h : w.Plain) :
    Recovers Workflow.decoder Workflow.toJson w w.Finite := by
  intro room hdepth
  obtain ⟨inner, r, hinner, hr, hrecord⟩ :=
    exists_record_iff ["id", "name", "nodes", "edges"] (rfl : w.toJson = _) (by simp) hdepth
  have hid : r.required "id" string = .pure w.id :=
    (hr.required_recovers hinner (by simp) (recovers_string w.id) (by simp)).mpr trivial
  have hname : r.required "name" string = .pure w.name :=
    (hr.required_recovers hinner (by simp) (recovers_string w.name)
      (by simp [List.lookup_cons])).mpr trivial
  have hnodes : r.withDefault "nodes" (list Node.decoder) [] = .pure w.nodes ↔ _ :=
    hr.withDefault_recovers hinner (by simp) (recovers_list fun n hn => Node.recovers (h n hn))
      (by simp [List.lookup_cons])
  have hedges : r.withDefault "edges" (list Edge.decoder) [] = .pure w.edges :=
    (hr.withDefault_recovers hinner (by simp) (recovers_list fun e _ => e.recovers)
      (by simp [List.lookup_cons])).mpr fun _ _ => trivial
  obtain ⟨id, name, nodes, edges⟩ := w
  rw [Workflow.decoder, hrecord]
  simp [hr.skipOthers_eq, hid, hname, hnodes, hedges, Workflow.Finite]

/-! ### Settings -/

theorem Containment.recovers (mode : Containment) :
    Recovers Containment.decoder Containment.toJson mode True := by
  intro room _
  cases mode <;> simp [Containment.toJson, toDocument, Containment.decoder, choice] <;> rfl

namespace Service.Settings

theorem recovers_port (port : UInt16) :
    Recovers (below 65536) (fun n => portToJson (UInt16.ofNat n)) port.toNat True := by
  intro room _
  simpa [portToJson, toDocument, below] using port.toNat_lt

theorem recovers_address (host : String) (port : UInt16) : Recovers addressDecoder
    (fun address => .obj [("host", .str address.1), ("port", portToJson address.2)]) (host, port)
    True := by
  intro room hdepth
  obtain ⟨inner, r, hinner, hr, hrecord⟩ := exists_record_iff ["host", "port"] rfl (by simp) hdepth
  have hhost : r.required "host" string = .pure host :=
    (hr.required_recovers hinner (by simp) (recovers_string host) (by simp)).mpr trivial
  have hport : r.required "port" (below 65536) = .pure port.toNat :=
    (hr.required_recovers hinner (by simp) (recovers_port port)
      (by simp [List.lookup_cons])).mpr trivial
  rw [addressDecoder, hrecord]
  simp [hr.skipOthers_eq, hhost, hport]

theorem recovers_canvas (mode : Containment) :
    Recovers canvasDecoder (fun mode => .obj [("containment", mode.toJson)]) mode True := by
  intro room hdepth
  obtain ⟨inner, r, hinner, hr, hrecord⟩ := exists_record_iff ["containment"] rfl (by simp) hdepth
  have hmode : r.required "containment" Containment.decoder = .pure mode :=
    (hr.required_recovers hinner (by simp) mode.recovers (by simp)).mpr trivial
  rw [canvasDecoder, hrecord]
  simp [hr.skipOthers_eq, hmode]

theorem recovers (s : Settings) : Recovers decoder toJson s True := by
  intro room hdepth
  obtain ⟨inner, r, hinner, hr, hrecord⟩ :=
    exists_record_iff ["server", "canvas", "log_level"] (rfl : s.toJson = _) (by simp) hdepth
  have haddress : r.required "server" addressDecoder = .pure (s.host, s.port) :=
    (hr.required_recovers hinner (by simp) (recovers_address s.host s.port) (by simp)).mpr trivial
  have hmode : r.required "canvas" canvasDecoder = .pure s.containment :=
    (hr.required_recovers hinner (by simp) (recovers_canvas s.containment)
      (by simp [List.lookup_cons])).mpr trivial
  have hlogFilter : r.required "log_level" string = .pure s.logFilter :=
    (hr.required_recovers hinner (by simp) (recovers_string s.logFilter)
      (by simp [List.lookup_cons])).mpr trivial
  rw [decoder, hrecord]
  simp [hr.skipOthers_eq, haddress, hmode, hlogFilter]

end Service.Settings

/-! ### Texts -/

/-- The texts of all floats in a value stand for them. -/
def Json.RealsReread (v : Json) : Prop :=
  ∀ x finite, Number.real x finite ∈ v.numbers → (Number.real x finite).Rereads

theorem Json.RealsReread.rereads {v : Json} (h : v.RealsReread) : ∀ n ∈ v.numbers, n.Rereads
  | .whole n fits, _ => rereads_whole n fits
  | .real x finite, hn => h x finite hn

theorem Wiring.numbers_toJson (w : Wiring) : w.toJson.numbers = [] := by
  obtain ⟨source, target, sourceHandle, targetHandle⟩ := w
  cases sourceHandle <;> cases targetHandle <;> rfl

theorem Wiring.depth_toJson (w : Wiring) : w.toJson.depth = 1 := by
  obtain ⟨source, target, sourceHandle, targetHandle⟩ := w
  cases sourceHandle <;> cases targetHandle <;> rfl

theorem Service.Settings.depth_toJson (s : Settings) : s.toJson.depth = 2 := rfl

/-- Whatever is written is read back as it was: every workflow with finite coordinates and sizes
whose payloads keep nothing under the names of their fields, and which is not too deep to be
read; every wiring; and all settings. Of the numbers it is taken that the text of a float stands for
that float. -/
theorem decodeText_render_eq :
    (∀ w : Workflow Float, w.Finite → w.Plain → w.toJson.depth ≤ maxDepth →
      w.toJson.RealsReread → decodeText Workflow.decoder (render w.toJson) = .ok w) ∧
    (∀ w : Wiring, decodeText Wiring.decoder (render w.toJson) = .ok w) ∧
    ∀ s : Service.Settings, decodeText Service.Settings.decoder (render s.toJson) = .ok s := by
  refine ⟨fun w hfinite hplain hdepth hreals => ?_, fun w => ?_, fun s => ?_⟩
  · exact (decodeText_render_iff (Workflow.recovers hplain) hreals.rereads hdepth).mpr hfinite
  · have hnumbers : ∀ n ∈ w.toJson.numbers, n.Rereads := by simp [w.numbers_toJson]
    have hdepth : w.toJson.depth ≤ maxDepth := by rw [w.depth_toJson]; decide
    exact (decodeText_render_iff (Wiring.recovers w) hnumbers hdepth).mpr trivial
  · have hnumbers : ∀ n ∈ s.toJson.numbers, n.Rereads := by
      intro n hn
      obtain rfl := List.mem_singleton.mp hn
      exact rereads_whole _ _
    have hdepth : s.toJson.depth ≤ maxDepth := by rw [s.depth_toJson]; decide
    exact (decodeText_render_iff (Service.Settings.recovers s) hnumbers hdepth).mpr trivial

/-- A leaf in a batch with payloads of its own, and an edge with a handle on one side. -/
def tagged : Workflow Float where
  id := "flow"
  name := "a \"quoted\"\nname"
  nodes :=
    [{ id := "box", kind := .batch, position := ⟨0.5, -2.25⟩, measured := some ⟨some 120.0, none⟩ },
      { id := "leaf", kind := .reader, position := ⟨0.1, 1e21⟩, parent := some "box"
        data :=
          { name := some "leaf", locked := true
            extra := [("scale", .num (.real 0.3 (by decide +kernel))),
              ("tags", .arr [.num (.whole (-7) (by decide)), .obj [("ü", .null)]])] } }]
  edges := [⟨"e", { source := "leaf", target := "box", targetHandle := some "in" }⟩]

theorem decodeText_render_eq_tagged :
    tagged.toJson.depth = 6 ∧ decodeText Workflow.decoder (render tagged.toJson) = .ok tagged := by
  have hfinite : tagged.Finite := by
    intro n hn
    rcases List.mem_pair.mp hn with rfl | rfl
    · refine ⟨⟨by decide +kernel, by decide +kernel⟩, ?_⟩
      rintro m ⟨⟩
      refine ⟨?_, nofun⟩
      rintro x ⟨⟩
      decide +kernel
    · exact ⟨⟨by decide +kernel, by decide +kernel⟩, nofun⟩
  have hplain : tagged.Plain := by
    intro n hn
    rcases List.mem_pair.mp hn with rfl | rfl
    · exact ⟨.nil, nofun, nofun⟩
    · refine ⟨by decide +kernel, by simp, ?_⟩
      intro m hm
      rcases List.mem_pair.mp hm with rfl | rfl
      · exact .num _
      · refine .arr fun v hv => ?_
        rcases List.mem_pair.mp hv with rfl | rfl
        · exact .num _
        · exact .obj (by decide) (by simp [Canonical.null])
  have hrereads : tagged.toJson.numbers.all fun n => decide n.Rereads := by decide +kernel
  have hreals : tagged.toJson.RealsReread := fun x finite hmem =>
    of_decide_eq_true (List.all_eq_true.mp hrereads _ hmem)
  have hdepth : tagged.toJson.depth = 6 := by decide
  exact ⟨hdepth, decodeText_render_eq.1 tagged hfinite hplain (by rw [hdepth]; decide) hreals⟩

end WorkflowCanvas
