import WorkflowCanvas.Proofs.Drop.Settling
import WorkflowCanvas.Proofs.Drop.Telling
import WorkflowCanvas.Proofs.Session.Run
import WorkflowCanvas.Service.Operation

/-!
Drops as clients see them.

A drop of a node that is there and is not locked is always carried out. What is stored is
the snapshot with the node as it landed, in its stored form. In exact arithmetic the drop
moves nothing but the node and what is below it, and the same drop once more changes
nothing.
-/

namespace WorkflowCanvas.Service

open Session Drop

/-! ### What a drop stores -/

section Storing

variable {K : Type} [Scalar K] {s : State K} {id node : String} {w : Workflow K} {n : Node K}

/-- The snapshot that is stored after a node of it is dropped. -/
def afterDrop (mode : Containment) (w : Workflow K) (n : Node K) (place : Point K) : Workflow K :=
  Snapshot.arrange { w with nodes := Drop.replace w.nodes (landed mode w.nodes n place) }

theorem valid_landed (h : Snapshot.Valid w) (hn : n ∈ w.nodes) (mode : Containment)
    (place : Point K) :
    Snapshot.Valid { w with nodes := Drop.replace w.nodes (landed mode w.nodes n place) } where
  name := h.name
  nested := wellNested_landed h.nested hn
  edges := by simpa only [map_id_replace] using h.edges

theorem stored_afterDrop (h : Snapshot.Valid w) (hn : n ∈ w.nodes) (mode : Containment)
    (place : Point K) : Snapshot.Stored (afterDrop mode w n place) :=
  (valid_landed h hn mode place).stored

theorem afterDrop_perm (h : Snapshot.Valid w) (hn : n ∈ w.nodes) (mode : Containment)
    (place : Point K) : (afterDrop mode w n place).nodes.Perm
      (Drop.replace w.nodes (landed mode w.nodes n place)) := by
  have hnested := (valid_landed h hn mode place).nested
  exact Nesting.parentsFirst_perm hnested.distinct hnested.acyclic

theorem ids_perm_afterDrop (h : Snapshot.Valid w) (hn : n ∈ w.nodes) (mode : Containment)
    (place : Point K) :
    ((afterDrop mode w n place).nodes.map Node.id).Perm (w.nodes.map Node.id) := by
  have hperm := (afterDrop_perm h hn mode place).map Node.id
  rwa [map_id_replace] at hperm

theorem first?_afterDrop (h : Snapshot.Valid w) (hn : n ∈ w.nodes) (mode : Containment)
    (place : Point K) :
    Node.first? (afterDrop mode w n place).nodes n.id = some (landed mode w.nodes n place) := by
  have hdistinct := (valid_landed h hn mode place).nested.distinct
  rw [Node.first?_perm hdistinct (afterDrop_perm h hn mode place)]
  exact first?_replace_landed hn

theorem first?_afterDrop_of_ne {other : String} (h : Snapshot.Valid w) (hn : n ∈ w.nodes)
    (mode : Containment) (place : Point K) (hother : other ≠ n.id) :
    Node.first? (afterDrop mode w n place).nodes other = Node.first? w.nodes other := by
  have hdistinct := (valid_landed h hn mode place).nested.distinct
  rw [Node.first?_perm hdistinct (afterDrop_perm h hn mode place)]
  exact first?_replace_of_ne (by rwa [landed_id])

theorem mem_afterDrop_of_ne {m : Node K} (h : Snapshot.Valid w) (hn : n ∈ w.nodes)
    (mode : Containment) (place : Point K) (hm : m ∈ w.nodes) (hother : m.id ≠ n.id) :
    m ∈ (afterDrop mode w n place).nodes := by
  have hfirst := first?_afterDrop_of_ne h hn mode place hother
  rw [Node.first?_of_mem h.nested.distinct hm] at hfirst
  exact (Node.mem_of_first? hfirst).1

/-- A drop of a node that is there and not locked is carried out. -/
theorem perform_drop (hs : s.store.Sound) (hopen : s.store.get? id = some w)
    (hn : Node.first? w.nodes node = some n) (hunlocked : n.data.locked = false)
    (mode : Containment) (newId : Nat → String) (place : Point K) :
    perform mode newId s (.drop id node place) =
      .ok ({ s with store := s.store.put (afterDrop mode w n place) },
        .dropped (landed mode w.nodes n place)
          (Transition.between? n (landed mode w.nodes n place))) := by
  obtain ⟨_, hstored⟩ := hs.of_get? hopen
  obtain ⟨hmem, rfl⟩ := Node.mem_of_first? hn
  have hupdate : s.store.updateNodes id (fun nodes => Gesture.drop mode nodes n.id place) =
      .ok (s.store.put (afterDrop mode w n place), afterDrop mode w n place,
        .dropped (Transition.between? n (landed mode w.nodes n place))) := by
    refine Store.updateNodes_eq_ok_iff.mpr ⟨w, hopen, ?_⟩
    rw [drop_eq hn hunlocked]
    exact ⟨valid_landed hstored.toValid hmem mode place, rfl, rfl, rfl⟩
  rw [perform, drop, hupdate]
  simp only [State.attempt, Except.mapError, bind, Except.bind,
    first?_afterDrop hstored.toValid hmem mode place]

theorem get?_afterDrop (hs : s.store.Sound) (hopen : s.store.get? id = some w) (n : Node K)
    (mode : Containment) (place : Point K) :
    (s.store.put (afterDrop mode w n place)).get? id = some (afterDrop mode w n place) := by
  obtain ⟨hid, _⟩ := hs.of_get? hopen
  rw [Store.get?_put]
  exact if_pos hid

end Storing

variable {s : State Rat} {id node : String} {w : Workflow Rat} {n : Node Rat}

/-! ### What moves -/

/-- A drop moves nothing on the canvas but the node and what is below it. The node goes to the
point that `place` names in the frame of its old parent, whatever its new parent is, and what is
below it goes with it. -/
theorem drop_moves_only_subtree (mode : Containment) (newId : Nat → String) (place : Point Rat)
    (hreach : s.store.Reachable) (hopen : s.store.get? id = some w)
    (hn : Node.first? w.nodes node = some n) (hunlocked : n.data.locked = false) :
    ∃ s' w' n' t old new,
      perform mode newId s (.drop id node place) = .ok (s', .dropped n' t) ∧
      s'.store.get? id = some w' ∧
      (still w.nodes).fromFrame? n.parent place = some new ∧
      Shifts (still w.nodes) (still w'.nodes) node old new := by
  obtain ⟨_, hstored⟩ := hreach.sound.of_get? hopen
  have hdrop := perform_drop hreach.sound hopen hn hunlocked mode newId place
  obtain ⟨hmem, rfl⟩ := Node.mem_of_first? hn
  have hperm := afterDrop_perm hstored.toValid hmem mode place
  obtain ⟨old, new, hnew, hshifts⟩ := (lands_landed hstored.nested hmem hperm).shifts
  exact ⟨_, _, _, _, old, new, hdrop, get?_afterDrop hreach.sound hopen n mode place, hnew, hshifts⟩

/-- A box with a leaf in it stands in a batch in a batch, and there is another batch at the
side. -/
def crowded : Store Rat :=
  let batch (id : String) (position : Point Rat) (side : Rat) : Node Rat :=
    { id, kind := .batch, position, measured := some ⟨some side, some side⟩ }
  Store.run {}
    [.openWorkflow
      { id := "flow", name := "Flow"
        nodes :=
          [{ id := "leaf", kind := .reader, position := ⟨1, 1⟩, parent := some "box" },
            (batch "box" ⟨5, 5⟩ 10).withParent "inner",
            (batch "inner" ⟨20, 20⟩ 40).withParent "outer",
            batch "outer" ⟨10, 10⟩ 100,
            batch "side" ⟨200, 0⟩ 100]
        edges := [] }]

theorem exists_box : ∃ w n, crowded.get? "flow" = some w ∧ Node.first? w.nodes "box" = some n ∧
    n.data.locked = false := by
  have hlocked : ((crowded.get? "flow").bind fun w => (Node.first? w.nodes "box").map fun n =>
      n.data.locked) = some false := by decide
  obtain ⟨w, hopen, hfirst⟩ := Option.bind_eq_some_iff.mp hlocked
  obtain ⟨n, hn, hunlocked⟩ := Option.map_eq_some_iff.mp hfirst
  exact ⟨w, n, hopen, hn, hunlocked⟩

/-- The transition that an answer tells of. -/
def toldTransition (answer : Attempt Rat (State Rat × Reply Rat)) : Option (Transition Rat) :=
  match answer with
  | .ok (_, .dropped _ t) => t
  | _ => none

/-- The box is dropped into the batch at the side, and takes the leaf with it. -/
theorem drop_moves_only_subtree_crowded :
    ∃ s' w w' n' t old new, crowded.get? "flow" = some w ∧
      perform .overlap toString ⟨crowded, 0⟩ (.drop "flow" "box" ⟨185, -10⟩) =
        .ok (s', .dropped n' t) ∧
      t = some (.reparent "inner" "side" ⟨15, 20⟩) ∧
      s'.store.get? "flow" = some w' ∧
      Shifts (still w.nodes) (still w'.nodes) "box" old new := by
  obtain ⟨w, n, hopen, hn, hunlocked⟩ := exists_box
  obtain ⟨s', w', n', t, old, new, hdrop, hget, _, hshifts⟩ :=
    drop_moves_only_subtree (s := ⟨crowded, 0⟩) .overlap toString ⟨185, -10⟩ ⟨_, rfl⟩ hopen hn
      hunlocked
  have ht : toldTransition (perform .overlap toString ⟨crowded, 0⟩
      (.drop "flow" "box" ⟨185, -10⟩)) = some (.reparent "inner" "side" ⟨15, 20⟩) := by
    decide +kernel
  have hreparent := (congrArg toldTransition hdrop).symm.trans ht
  exact ⟨s', w, w', n', t, old, new, hopen, hdrop, hreparent, hget, hshifts⟩

/-! ### The same drop once more -/

theorem between?_self {K : Type} (n : Node K) : Transition.between? n n = none :=
  Transition.between?_eq_none_iff.mpr rfl

theorem afterDrop_of_settled {mode : Containment} (h : Snapshot.Stored w) (hn : n ∈ w.nodes)
    (hs : Settled mode w.nodes n) : afterDrop mode w n n.position = w := by
  rw [afterDrop, landed_of_settled h.nested hn hs, replace_eq_self h.nested.distinct hn]
  exact h.arrange

/-- After a drop the node lies in its batch, or in none if it has no batch, and a batch without a
settled size has it only if it had it before. To drop it again where it is changes nothing. -/
theorem drop_settles (mode : Containment) (newId : Nat → String) (place : Point Rat)
    (hreach : s.store.Reachable) (hopen : s.store.get? id = some w)
    (hn : Node.first? w.nodes node = some n) (hunlocked : n.data.locked = false) :
    ∃ s' w' n' t,
      perform mode newId s (.drop id node place) = .ok (s', .dropped n' t) ∧
      s'.store.get? id = some w' ∧ Node.first? w'.nodes node = some n' ∧
      Settled mode w'.nodes n' ∧
      (∀ p ∈ w'.nodes, n'.parent = some p.id → p.size? = none → n.parent = some p.id) ∧
      perform mode newId s' (.drop id node n'.position) = .ok (s', .dropped n' none) := by
  obtain ⟨_, hstored⟩ := hreach.sound.of_get? hopen
  have hdrop := perform_drop hreach.sound hopen hn hunlocked mode newId place
  obtain ⟨hmem, rfl⟩ := Node.mem_of_first? hn
  have hafter := stored_afterDrop hstored.toValid hmem mode place
  have hperm := afterDrop_perm hstored.toValid hmem mode place
  have hget := get?_afterDrop hreach.sound hopen n mode place
  have hfirst := first?_afterDrop hstored.toValid hmem mode place
  have hsettled := settled_landed hstored.nested hmem hperm
  refine ⟨_, _, _, _, hdrop, hget, hfirst, hsettled, fun p hp hparent hsize =>
    parent_of_landed_parent hstored.nested hmem hperm hp hparent hsize, ?_⟩
  -- the second drop starts from a stored form again, and finds the node settled
  have hmem' := (Node.mem_of_first? hfirst).1
  have hagain := perform_drop (s := { s with store := s.store.put (afterDrop mode w n place) })
    (hreach.sound.put hafter) hget hfirst (by rw [landed_data, hunlocked]) mode newId
    (landed mode w.nodes n place).position
  rw [hagain, afterDrop_of_settled hafter hmem' hsettled,
    landed_of_settled hafter.nested hmem' hsettled, between?_self, Store.put_put]

/-- The box is dropped far from all batches, and then where it lies. -/
theorem drop_settles_crowded :
    ∃ s' n' t, perform .full toString ⟨crowded, 0⟩ (.drop "flow" "box" ⟨500, 500⟩) =
        .ok (s', .dropped n' t) ∧
      t = some (.release "inner" ⟨530, 530⟩) ∧
      perform .full toString s' (.drop "flow" "box" n'.position) = .ok (s', .dropped n' none) := by
  obtain ⟨w, n, hopen, hn, hunlocked⟩ := exists_box
  obtain ⟨s', _, n', t, hdrop, _, _, _, _, hagain⟩ :=
    drop_settles (s := ⟨crowded, 0⟩) .full toString ⟨500, 500⟩ ⟨_, rfl⟩ hopen hn hunlocked
  have ht : toldTransition (perform .full toString ⟨crowded, 0⟩
      (.drop "flow" "box" ⟨500, 500⟩)) = some (.release "inner" ⟨530, 530⟩) := by
    decide +kernel
  have hrelease := (congrArg toldTransition hdrop).symm.trans ht
  exact ⟨s', n', t, hdrop, hrelease, hagain⟩

end WorkflowCanvas.Service
