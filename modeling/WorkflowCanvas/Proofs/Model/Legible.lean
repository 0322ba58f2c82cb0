import WorkflowCanvas.Proofs.Json.Contents
import WorkflowCanvas.Proofs.Model.RoundTrip

/-!
Workflows that came in as texts.

What a text can say of a node limits what the node can be: its coordinates and sizes are finite, and
its payload is in order and only so deep. A node that is `Legible` keeps to these limits wherever it
was moved since, in everything but its coordinates. So they are all that can keep a workflow from
being read back. A coordinate that is not finite is written as `null`, and then nothing is read back
at all.
-/

namespace WorkflowCanvas

open Json Json.Decoder

variable {room : Nat}

/-! ### What is read -/

/-- A payload that keeps nothing with more than `room` levels. -/
structure Payload.Legible (room : Nat) (d : Payload) : Prop extends d.Plain where
  shallow : ∀ m ∈ d.extra, m.2.depth ≤ room

/-- A node as a text may give it, apart from its coordinates. -/
structure Node.Legible (room : Nat) (n : Node Float) : Prop where
  data : n.data.Legible room
  measured : ∀ m ∈ n.measured, m.Finite

def Workflow.Legible (room : Nat) (w : Workflow Float) : Prop := ∀ n ∈ w.nodes, n.Legible room

/-- Whether all coordinates are finite. -/
def Workflow.InRange (w : Workflow Float) : Prop := ∀ n ∈ w.nodes, n.position.Finite

theorem Point.yields : Yields Point.decoder (room + 1) Point.Finite := by
  refine yields_record fun r p _ _ hbuild => ?_
  simp only [Placed.seq_eq_pure_iff, Placed.map_eq_pure_iff] at hbuild
  obtain ⟨_, ⟨_, ⟨_, _, rfl⟩, x, hx, rfl⟩, y, hy, rfl⟩ := hbuild
  exact ⟨yields_float.required hx, yields_float.required hy⟩

theorem Measured.yields : Yields Measured.decoder (room + 1) Measured.Finite := by
  refine yields_record fun r m _ _ hbuild => ?_
  simp only [Placed.seq_eq_pure_iff, Placed.map_eq_pure_iff] at hbuild
  obtain ⟨_, ⟨_, ⟨_, _, rfl⟩, width, hwidth, rfl⟩, height, hheight, rfl⟩ := hbuild
  exact ⟨yields_float.optional float_null hwidth, yields_float.optional float_null hheight⟩

theorem Payload.legible_default : Payload.Legible room {} where
  ascending := List.Pairwise.nil
  apart := by simp
  canonical := by simp
  shallow := by simp

theorem Payload.yields : Yields Payload.decoder (room + 1) (Payload.Legible room) := by
  have hrecord : Yields (record ["name", "locked"] fun r =>
      (fun extra name locked => (⟨name, locked, sortMembers extra⟩ : Payload)) <$> r.keepOthers <*>
        r.optional "name" string <*> r.withDefault "locked" Decoder.bool false) (room + 1)
      (Payload.Legible room) := by
    refine yields_record fun r d hroom hothers hbuild => ?_
    simp only [Placed.seq_eq_pure_iff, Placed.map_eq_pure_iff] at hbuild
    obtain ⟨_, ⟨_, ⟨extra, hextra, rfl⟩, name, _, rfl⟩, locked, _, rfl⟩ := hbuild
    have hkept : ∀ m ∈ sortMembers extra, _ := fun m hm =>
      kept_of_keepOthers hextra hothers m (mem_sortMembers hm)
    exact { ascending := ascending_sortMembers extra
            apart := fun m hm => (hkept m hm).1
            canonical := fun m hm => (hkept m hm).2.1
            shallow := fun m hm => hroom ▸ (hkept m hm).2.2 }
  intro d p h
  cases d with
  | arr => cases h
  | obj | broken | null | bool | num | str => exact hrecord _ p h

theorem Node.yields : Yields Node.decoder (room + 2) fun n =>
    n.Legible room ∧ n.position.Finite := by
  refine yields_record fun r n hroom _ hbuild => ?_
  simp only [Placed.seq_eq_pure_iff, Placed.map_eq_pure_iff] at hbuild
  obtain ⟨_, ⟨_, ⟨_, ⟨_, ⟨_, ⟨_, ⟨_, _, rfl⟩, id, _, rfl⟩, kind, _, rfl⟩, position, hposition, rfl⟩,
    parent, _, rfl⟩, measured, hmeasured, rfl⟩, data, hdata, rfl⟩ := hbuild
  have hplace : Yields Point.decoder r.room Point.Finite := hroom ▸ Point.yields
  have hpayload : Yields Payload.decoder r.room (Payload.Legible room) := hroom ▸ Payload.yields
  have hsized : Yields Measured.decoder r.room Measured.Finite := hroom ▸ Measured.yields
  exact ⟨⟨hpayload.withDefault Payload.legible_default hdata,
    hsized.optional record_null hmeasured⟩, hplace.required hposition⟩

theorem Workflow.yields : Yields Workflow.decoder (room + 4) fun w =>
    w.Legible room ∧ w.InRange := by
  refine yields_record fun r w hroom _ hbuild => ?_
  simp only [Placed.seq_eq_pure_iff, Placed.map_eq_pure_iff] at hbuild
  obtain ⟨_, ⟨_, ⟨_, ⟨_, ⟨_, _, rfl⟩, id, _, rfl⟩, name, _, rfl⟩, nodes, hnodes, rfl⟩, edges, _,
    rfl⟩ := hbuild
  have hlist : Yields (list Node.decoder) r.room fun nodes =>
      ∀ n ∈ nodes, n.Legible room ∧ n.position.Finite := hroom ▸ Node.yields.list
  have hread := hlist.withDefault (by simp) hnodes
  exact ⟨fun n hn => (hread n hn).1, fun n hn => (hread n hn).2⟩

/-! ### How deep it is written -/

theorem depth_optionalMember {α : Type} {key : String} {write : α → Json} {o : Option α}
    (h : ∀ a ∈ o, (write a).depth ≤ room) :
    ∀ m ∈ optionalMember key write o, m.2.depth ≤ room := by
  cases o with
  | none => simp [optionalMember]
  | some a => simpa [optionalMember] using h a rfl

theorem depth_ofFloat (x : Float) : (ofFloat x).depth ≤ room := by
  rw [ofFloat]
  split <;> exact Nat.zero_le room

theorem depth_str (s : String) : (str s).depth ≤ room := Nat.zero_le room

theorem Point.depth_toJson (p : Point Float) : p.toJson.depth ≤ room + 1 := by
  refine depth_obj_le_iff.mpr ⟨room, rfl, ?_⟩
  simp [depth_ofFloat]

theorem Measured.depth_toJson (m : Measured Float) : m.toJson.depth ≤ room + 1 :=
  depth_obj_le_iff.mpr ⟨room, rfl, List.forall_mem_append.mpr
    ⟨depth_optionalMember fun x _ => depth_ofFloat x,
      depth_optionalMember fun x _ => depth_ofFloat x⟩⟩

theorem Edge.depth_toJson (e : Edge) : e.toJson.depth ≤ room + 1 := by
  refine depth_obj_le_iff.mpr ⟨room, rfl, ?_⟩
  simp only [List.forall_mem_append]
  exact ⟨⟨by simp [depth_str], depth_optionalMember fun s _ => depth_str s⟩,
    depth_optionalMember fun s _ => depth_str s⟩

theorem Payload.Legible.depth_toJson {d : Payload} (h : d.Legible room) :
    d.toJson.depth ≤ room + 1 :=
  depth_obj_le_iff.mpr ⟨room, rfl, List.forall_mem_append.mpr
    ⟨depth_optionalMember fun s _ => depth_str s, List.forall_mem_cons.mpr
      ⟨Nat.zero_le room, h.shallow⟩⟩⟩

theorem Node.Legible.depth_toJson {n : Node Float} (h : n.Legible room) :
    n.toJson.depth ≤ room + 2 := by
  refine depth_obj_le_iff.mpr ⟨room + 1, rfl, ?_⟩
  simp only [List.forall_mem_append]
  refine ⟨⟨⟨?_, depth_optionalMember fun s _ => depth_str s⟩,
    depth_optionalMember fun m _ => m.depth_toJson⟩, ?_⟩
  · simp [depth_str, NodeKind.toJson, n.position.depth_toJson]
  · simpa using h.data.depth_toJson

theorem Workflow.Legible.depth_toJson {w : Workflow Float} (h : w.Legible room) :
    w.toJson.depth ≤ room + 4 := by
  have hnodes : (arr (w.nodes.map Node.toJson)).depth ≤ room + 3 :=
    depth_arr_le_iff.mpr ⟨room + 2, rfl, List.forall_mem_map.mpr fun n hn => (h n hn).depth_toJson⟩
  have hedges : (arr (w.edges.map Edge.toJson)).depth ≤ room + 3 :=
    depth_arr_le_iff.mpr ⟨room + 2, rfl, List.forall_mem_map.mpr fun e _ => e.depth_toJson⟩
  refine depth_obj_le_iff.mpr ⟨room + 3, rfl, ?_⟩
  simp only [List.forall_mem_cons]
  exact ⟨depth_str w.id, depth_str w.name, hnodes, hedges, by simp⟩

/-! ### What is read back -/

theorem Workflow.Legible.plain {w : Workflow Float} (h : w.Legible room) : w.Plain :=
  fun n hn => (h n hn).data.toPlain

theorem Workflow.Legible.finite_iff {w : Workflow Float} (h : w.Legible room) :
    w.Finite ↔ w.InRange :=
  ⟨fun hfinite n hn => (hfinite n hn).position,
    fun hrange n hn => ⟨hrange n hn, (h n hn).measured⟩⟩

theorem Point.demands (p : Point Float) : Demands Point.decoder p.toJson p.Finite := by
  intro room read hdepth h
  obtain ⟨inner, r, hinner, hr, hrecord⟩ :=
    exists_record_iff ["x", "y"] (rfl : p.toJson = _) (by simp) hdepth
  have hbuild := (hrecord _ _).mp h
  simp only [Placed.seq_eq_pure_iff, Placed.map_eq_pure_iff] at hbuild
  obtain ⟨_, ⟨_, ⟨_, _, rfl⟩, x, hx, rfl⟩, y, hy, rfl⟩ := hbuild
  exact ⟨hr.required_demands hinner (by simp) (demands_float p.x) (by simp) hx,
    hr.required_demands hinner (by simp) (demands_float p.y) (by simp [List.lookup_cons]) hy⟩

theorem Node.demands (n : Node Float) : Demands Node.decoder n.toJson n.position.Finite := by
  intro room read hdepth h
  obtain ⟨inner, r, hinner, hr, hrecord⟩ :=
    exists_record_iff ["id", "type", "position", "parentId", "measured", "data"]
      (show n.toJson = .obj n.members from rfl) n.keys_nodup hdepth
  have hbuild := (hrecord _ _).mp h
  simp only [Placed.seq_eq_pure_iff, Placed.map_eq_pure_iff] at hbuild
  obtain ⟨_, ⟨_, ⟨_, ⟨_, _, position, hposition, _⟩, _⟩, _⟩, _⟩ := hbuild
  exact hr.required_demands hinner (by simp) n.position.demands n.lookup_position hposition

theorem Workflow.demands (w : Workflow Float) : Demands Workflow.decoder w.toJson w.InRange := by
  intro room read hdepth h
  obtain ⟨inner, r, hinner, hr, hrecord⟩ :=
    exists_record_iff ["id", "name", "nodes", "edges"] (rfl : w.toJson = _) (by simp) hdepth
  have hbuild := (hrecord _ _).mp h
  simp only [Placed.seq_eq_pure_iff, Placed.map_eq_pure_iff] at hbuild
  obtain ⟨_, ⟨_, _, nodes, hnodes, _⟩, _⟩ := hbuild
  exact hr.withDefault_demands hinner (by simp) (demands_list fun n _ => n.demands)
    (by simp [List.lookup_cons]) hnodes

end WorkflowCanvas
