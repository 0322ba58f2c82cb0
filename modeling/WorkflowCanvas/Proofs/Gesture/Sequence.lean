import Mathlib.Data.List.Induction
import WorkflowCanvas.Proofs.Gesture.Connecting

/-!
Connecting one after the other.

A connection that is there already is not made again, so what a sequence of connections adds is
told by the sequence alone: of the wirings that no edge had, each once, where it first occurs. The
edges from before stay in front as they are, even if wirings repeat among them or their ids are not
those that a connection makes.
-/

namespace WorkflowCanvas.Gesture

variable {edges new : List Edge} {ws : List Wiring} {w : Wiring}

/-- The edges after connections one after the other. -/
def connectAll (edges : List Edge) (ws : List Wiring) : List Edge := ws.foldl connect edges

theorem connectAll_concat : connectAll edges (ws ++ [w]) = connect (connectAll edges ws) w := by
  rw [connectAll, List.foldl_append]
  rfl

/-- The edges that a sequence of connections adds to others. -/
structure AddedFor (edges : List Edge) (ws : List Wiring) (new : List Edge) : Prop where
  /-- Each has the id that a connection makes. -/
  id_eq : ∀ e ∈ new, e.id = e.wiring.edgeId
  /-- They have the wirings of the sequence that none of the other edges has. -/
  mem_iff : ∀ w, w ∈ new.map Edge.wiring ↔ w ∈ ws ∧ w ∉ edges.map Edge.wiring
  distinct : (new.map Edge.wiring).Nodup
  /-- They stand in the order in which their wirings first occur in the sequence. -/
  ordered : (new.map Edge.wiring).Pairwise fun w w' => ws.idxOf w < ws.idxOf w'

namespace AddedFor

theorem nil (edges : List Edge) : AddedFor edges [] [] := by
  constructor <;> simp

/-- The wirings that are there after a sequence of connections. -/
theorem mem_wirings_iff (h : AddedFor edges ws new) :
    w ∈ (edges ++ new).map Edge.wiring ↔ w ∈ edges.map Edge.wiring ∨ w ∈ ws := by
  rw [List.map_append, List.mem_append, h.mem_iff]
  by_cases hold : w ∈ edges.map Edge.wiring <;> simp [hold]

theorem idxOf_concat (h : AddedFor edges ws new) :
    (new.map Edge.wiring).Pairwise fun v v' => (ws ++ [w]).idxOf v < (ws ++ [w]).idxOf v' := by
  refine h.ordered.imp_of_mem fun {v v'} hv hv' hlt => ?_
  rwa [List.idxOf_append_of_mem ((h.mem_iff v).mp hv).1,
    List.idxOf_append_of_mem ((h.mem_iff v').mp hv').1]

/-- A connection that is there already adds nothing. -/
theorem concat_of_wired (h : AddedFor edges ws new) (hw : w ∈ (edges ++ new).map Edge.wiring) :
    AddedFor edges (ws ++ [w]) new where
  id_eq := h.id_eq
  distinct := h.distinct
  ordered := h.idxOf_concat
  mem_iff v := by
    rw [h.mem_iff v, List.mem_append, List.mem_singleton]
    constructor
    · exact fun ⟨hv, hnot⟩ => ⟨.inl hv, hnot⟩
    · rintro ⟨hv | rfl, hnot⟩
      · exact ⟨hv, hnot⟩
      · exact ⟨(h.mem_wirings_iff.mp hw).resolve_left hnot, hnot⟩

/-- Any other connection adds its edge at the end. -/
theorem concat_of_new (h : AddedFor edges ws new) (hw : w ∉ (edges ++ new).map Edge.wiring) :
    AddedFor edges (ws ++ [w]) (new ++ [⟨w.edgeId, w⟩]) := by
  obtain ⟨hold, hfresh⟩ := not_or.mp (mt h.mem_wirings_iff.mpr hw)
  have hnew : w ∉ new.map Edge.wiring := fun hmem => hfresh ((h.mem_iff w).mp hmem).1
  constructor
  · simpa [or_imp, forall_and] using h.id_eq
  · intro v
    rw [List.map_append, List.mem_append, h.mem_iff v, List.mem_append]
    by_cases hv : v = w
    · simp [hv, hold]
    · simp [hv]
  · rw [List.map_append, List.map_singleton, ← List.concat_eq_append, List.nodup_concat]
    exact ⟨hnew, h.distinct⟩
  · rw [List.map_append, List.map_singleton, List.pairwise_append]
    refine ⟨h.idxOf_concat, List.pairwise_singleton _ _, fun v hv v' hv' => ?_⟩
    obtain rfl := List.mem_singleton.mp hv'
    -- the new wiring first occurs at the end of the sequence
    have hv := ((h.mem_iff v).mp hv).1
    rw [List.idxOf_append_of_mem hv, List.idxOf_append_of_notMem hfresh]
    exact (List.idxOf_lt_length_of_mem hv).trans_le (Nat.le_add_right _ _)

end AddedFor

theorem exists_addedFor (edges : List Edge) (ws : List Wiring) :
    ∃ new, connectAll edges ws = edges ++ new ∧ AddedFor edges ws new := by
  induction ws using List.reverseRecOn with
  | nil => exact ⟨[], (List.append_nil edges).symm, .nil edges⟩
  | append_singleton ws w ih =>
      obtain ⟨new, hall, hadded⟩ := ih
      rw [connectAll_concat, hall]
      by_cases hw : w ∈ (edges ++ new).map Edge.wiring
      · obtain ⟨e, he, hwired⟩ := List.mem_map.mp hw
        exact ⟨new, connect_of_wired he hwired, hadded.concat_of_wired hw⟩
      · have hnone : ∀ e ∈ edges ++ new, e.wiring ≠ w :=
          fun e he heq => hw (List.mem_map.mpr ⟨e, he, heq⟩)
        rw [connect_of_new hnone, List.append_assoc]
        exact ⟨_, rfl, hadded.concat_of_new hw⟩

/-- Connections that are all there already change nothing. -/
theorem connectAll_of_wired (h : ∀ w ∈ ws, w ∈ edges.map Edge.wiring) :
    connectAll edges ws = edges := by
  induction ws with
  | nil => rfl
  | cons w ws ih =>
      obtain ⟨hw, hrest⟩ := List.forall_mem_cons.mp h
      obtain ⟨e, he, hwired⟩ := List.mem_map.mp hw
      rw [connectAll, List.foldl_cons, connect_of_wired he hwired]
      exact ih hrest

/-- A removal by the id of a new edge takes out that edge and no other. -/
theorem disconnect?_connect (hwiring : ∀ e ∈ edges, e.wiring ≠ w)
    (hid : ∀ e ∈ edges, e.id ≠ w.edgeId) :
    disconnect? (connect edges w) w.edgeId = some edges := by
  rw [connect_of_new hwiring, disconnect?_eq_some_iff]
  refine ⟨by simp, ?_⟩
  have hkept : (edges.filter fun e => e.id ≠ w.edgeId) = edges :=
    List.filter_eq_self.mpr fun e he => by simpa using hid e he
  rw [List.filter_append, hkept]
  simp

/-- A sequence of connections leaves the edges in front as they are and adds behind them an edge for
every wiring that none of them had, each once and in the order of first occurrence. Connecting any
of the sequence again changes nothing. A connection whose wiring and id are both new is undone by
the removal of its id. -/
theorem connections_add_missing (edges : List Edge) :
    (∀ ws, ∃ new, connectAll edges ws = edges ++ new ∧ AddedFor edges ws new) ∧
      (∀ ws part, part ⊆ ws → connectAll (connectAll edges ws) part = connectAll edges ws) ∧
      ∀ w : Wiring, (∀ e ∈ edges, e.wiring ≠ w ∧ e.id ≠ w.edgeId) →
        disconnect? (connect edges w) w.edgeId = some edges := by
  refine ⟨exists_addedFor edges, fun ws part hpart => ?_, fun w hw => ?_⟩
  · obtain ⟨new, hall, hadded⟩ := exists_addedFor edges ws
    rw [hall]
    exact connectAll_of_wired fun w hw => hadded.mem_wirings_iff.mpr (.inr (hpart hw))
  · exact disconnect?_connect (fun e he => (hw e he).1) fun e he => (hw e he).2

/-- Edges of which two have the same wiring, with ids that no connection makes. -/
def imported : List Edge :=
  [⟨"first", { source := "a", target := "b" }⟩, ⟨"second", { source := "a", target := "b" }⟩]

/-- Of four connections one is there already and one comes twice. The other two differ in an empty
handle only, and so even share an id. -/
theorem connections_add_missing_imported :
    let ab : Wiring := { source := "a", target := "b" }
    let ba : Wiring := { source := "b", target := "a" }
    let handle : Wiring := { ba with sourceHandle := some "" }
    connectAll imported [ba, ab, handle, ba] =
        imported ++ [⟨ba.edgeId, ba⟩, ⟨handle.edgeId, handle⟩] ∧
      connectAll (connectAll imported [ba, ab, handle, ba]) [handle, ab] =
        connectAll imported [ba, ab, handle, ba] ∧
      disconnect? (connect imported ba) ba.edgeId = some imported := by
  intro ab ba handle
  obtain ⟨-, hagain, hundone⟩ := connections_add_missing imported
  exact ⟨by decide, hagain _ _ (by decide), hundone ba (by decide)⟩

end WorkflowCanvas.Gesture
