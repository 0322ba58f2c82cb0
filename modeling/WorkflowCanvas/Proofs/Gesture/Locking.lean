import WorkflowCanvas.Gesture.Locking
import WorkflowCanvas.Proofs.Snapshot.Validity

/-!
A lock changes nothing about nesting.

Locking goes through the nodes one by one and leaves each its id, its kind and its parent.
That is all that nesting and the order of the nodes depend on, so a stored form stays one.
-/

namespace WorkflowCanvas

variable {K : Type} {nodes : List (Node K)} {n : Node K} {id : String}

/-! ### Changes of single nodes -/

/-- A change of a node that leaves alone what nesting depends on. -/
structure KeepsNesting (f : Node K → Node K) : Prop where
  id : ∀ n, (f n).id = n.id
  kind : ∀ n, (f n).kind = n.kind
  parent : ∀ n, (f n).parent = n.parent

namespace KeepsNesting

variable {f : Node K → Node K}

theorem map_id (hf : KeepsNesting f) : (nodes.map f).map Node.id = nodes.map Node.id := by
  rw [List.map_map]
  exact List.map_congr_left fun n _ => hf.id n

theorem first?_map (hf : KeepsNesting f) :
    Node.first? (nodes.map f) id = (Node.first? nodes id).map f := by
  simp only [Node.first?, List.find?_map, Function.comp_def, hf.id]

theorem parentOf?_map (hf : KeepsNesting f) :
    Node.parentOf? (nodes.map f) id = Node.parentOf? nodes id := by
  rw [Node.parentOf?, Node.parentOf?, hf.first?_map]
  cases Node.first? nodes id with
  | none => rfl
  | some n => exact hf.parent n

theorem wellNested_map (hf : KeepsNesting f) (h : Nesting.WellNested nodes) :
    Nesting.WellNested (nodes.map f) where
  distinct := by
    rw [hf.map_id]
    exact h.distinct
  parents := by
    intro m hm parent hparent
    obtain ⟨n, hn, rfl⟩ := List.mem_map.mp hm
    rw [hf.parent] at hparent
    obtain ⟨p, hp, hid, hbatch⟩ := h.parents n hn parent hparent
    refine ⟨f p, List.mem_map_of_mem hp, (hf.id p).trans hid, ?_⟩
    rwa [Node.isBatch, hf.kind]
  acyclic := by
    rw [Nesting.Acyclic, Nesting.below_congr fun _ => hf.parentOf?_map]
    exact h.acyclic

theorem parentsFirst_map (hf : KeepsNesting f) (h : Nesting.ParentsFirst nodes) :
    Nesting.ParentsFirst (nodes.map f) := by
  refine h.congr ?_
  rw [List.map_map]
  exact List.map_congr_left fun n _ => by rw [Function.comp_apply, hf.id, hf.parent]

theorem stored_map (hf : KeepsNesting f) {w : Workflow K} (h : Snapshot.Stored w) :
    Snapshot.Stored { w with nodes := w.nodes.map f } where
  name := h.name
  nested := hf.wellNested_map h.nested
  edges := by
    intro e he
    rw [hf.map_id]
    exact h.edges e he
  inOrder := hf.parentsFirst_map h.inOrder

end KeepsNesting

/-! ### Locks -/

namespace Gesture

/-- The node with its lock set, if it is the one meant. -/
def lockNode (id : String) (locked : Bool) (n : Node K) : Node K :=
  if n.id = id then setLock locked n else n

theorem keepsNesting_lockNode (id : String) (locked : Bool) :
    KeepsNesting (lockNode (K := K) id locked) where
  id n := by rw [lockNode]; split <;> rfl
  kind n := by rw [lockNode]; split <;> rfl
  parent n := by rw [lockNode]; split <;> rfl

theorem toggleLock?_of_first? (h : Node.first? nodes id = some n) :
    toggleLock? nodes id = some (nodes.map (lockNode id !n.data.locked), !n.data.locked) := by
  rw [toggleLock?, h]
  rfl

theorem toggleLock?_of_missing (h : Node.first? nodes id = none) : toggleLock? nodes id = none := by
  rw [toggleLock?, h]
  rfl

end Gesture

end WorkflowCanvas
