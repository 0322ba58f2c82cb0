import WorkflowCanvas.Proofs.Drop.Landing
import WorkflowCanvas.Proofs.Gesture.Locking

/-!
Changes of nodes that a drop does not see.

A drop asks of nodes for their ids, kinds, parents, positions and sizes. A change of single nodes
that leaves these alone makes no difference to where a node lands, and can be made before the list
is put in order or after it. Locks are such changes.
-/

namespace WorkflowCanvas

variable {K : Type} {f : Node K → Node K} {nodes placed : List (Node K)} {n : Node K} {id : String}

/-! ### Nesting -/

namespace KeepsNesting

theorem last?_map (hf : KeepsNesting f) :
    Node.last? (nodes.map f) id = (Node.last? nodes id).map f := by
  rw [Node.last?, ← List.map_reverse]
  exact hf.first?_map

theorem isBelow_map (hf : KeepsNesting f) (ancestor : String) :
    Nesting.isBelow (nodes.map f) id ancestor = Nesting.isBelow nodes id ancestor := by
  have hreaches : ∀ steps id, Nesting.reaches (nodes.map f) ancestor steps id =
      Nesting.reaches nodes ancestor steps id := by
    intro steps
    induction steps with
    | zero => exact fun _ => rfl
    | succ steps ih =>
        intro id
        simp only [Nesting.reaches, hf.parentOf?_map, ih]
  rw [Nesting.isBelow, Nesting.isBelow, List.length_map, hreaches]

theorem lineage?_map (hf : KeepsNesting f) {find? find'? : String → Option (Node K)}
    (hfind : ∀ id, find'? id = (find? id).map f) (steps : Nat) (parent : Option String) :
    Nesting.lineage? find'? steps parent =
      (Nesting.lineage? find? steps parent).map (List.map f) := by
  induction steps generalizing parent with
  | zero =>
      cases parent with
      | none => rfl
      | some id => cases hid : find? id <;> simp [Nesting.lineage?, hfind, hid]
  | succ steps ih =>
      cases parent with
      | none => rfl
      | some id =>
          cases hid : find? id with
          | none => simp [Nesting.lineage?, hfind, hid]
          | some n => simp [Nesting.lineage?, hfind, hid, hf.parent, ih, Function.comp_def]

theorem unplaced_map (hf : KeepsNesting f) (steps : Nat) (n : Node K) :
    Nesting.unplaced (nodes.map f) (placed.map f) steps (f n) =
      (Nesting.unplaced nodes placed steps n).map f := by
  induction steps generalizing n with
  | zero => rfl
  | succ steps ih =>
      have hparent : n.parent.bind (Node.first? (nodes.map f)) =
          (n.parent.bind (Node.first? nodes)).map f := by
        rw [Option.map_bind]
        exact Option.bind_congr fun _ _ => hf.first?_map
      rw [Nesting.unplaced, Nesting.unplaced, hf.id, hf.map_id, hf.parent, hparent]
      split
      · rfl
      · cases n.parent.bind (Node.first? nodes) with
        | none => rfl
        | some parent => simp [ih]

/-- A change that nesting does not depend on can be made before or after the nodes are ordered. -/
theorem map_parentsFirst (hf : KeepsNesting f) (nodes : List (Node K)) :
    Nesting.parentsFirst (nodes.map f) = (Nesting.parentsFirst nodes).map f := by
  have hplace : ∀ todo placed, Nesting.placeAll (nodes.map f) (placed.map f) (todo.map f) =
      (Nesting.placeAll nodes placed todo).map f := by
    intro todo
    induction todo with
    | nil => exact fun _ => rfl
    | cons n todo ih =>
        intro placed
        simp only [Nesting.placeAll, List.map_cons, List.foldl_cons] at ih ⊢
        rw [← ih, hf.unplaced_map, List.length_map, List.map_append, List.map_reverse]
  exact hplace nodes []

end KeepsNesting

/-! ### Drops -/

/-- A change of a node that leaves alone what the layout and the rules for drops depend on. -/
structure KeepsLayout (f : Node K → Node K) : Prop extends KeepsNesting f where
  position : ∀ n, (f n).position = n.position
  measured : ∀ n, (f n).measured = n.measured

namespace KeepsLayout

open Drop

theorem place_map (hf : KeepsLayout f) (drags : List (String × Point K)) (n : Node K) :
    Scene.place { nodes := nodes.map f, drags } (f n) = Scene.place { nodes, drags } n := by
  simp only [Scene.place, Scene.drag?, hf.id, hf.position]

theorem replace_map (hf : KeepsLayout f) (hn : f n = n) :
    replace (nodes.map f) n = (replace nodes n).map f := by
  rw [replace, replace, List.map_map, List.map_map]
  refine List.map_congr_left fun m _ => ?_
  simp only [Function.comp_apply, hf.id, apply_ite f, hn]

variable [Scalar K] {mode : Containment} {layout : Layout K} {place : Point K}

theorem size?_eq (hf : KeepsLayout f) (n : Node K) : (f n).size? = n.size? := by
  rw [Node.size?, hf.measured, Node.size?]

theorem absolute?_map (hf : KeepsLayout f) (drags : List (String × Point K)) (id : String) :
    Scene.absolute? { nodes := nodes.map f, drags } id = Scene.absolute? { nodes, drags } id := by
  have hnode : ∀ id, Scene.node? { nodes := nodes.map f, drags } id =
      (Scene.node? { nodes, drags } id).map f := fun _ => hf.last?_map
  rw [Scene.absolute?, Scene.absolute?, hnode]
  cases hn : Scene.node? { nodes, drags } id with
  | none => rfl
  | some n =>
      simp only [Option.map_some, Option.bind_eq_bind, Option.bind_some, hf.parent, List.length_map,
        hf.lineage?_map hnode]
      cases Nesting.lineage? (Scene.node? { nodes, drags }) nodes.length n.parent with
      | none => rfl
      | some way => simp [List.foldl_map, hf.place_map]

theorem layout_map (hf : KeepsLayout f) (drags : List (String × Point K)) :
    Scene.layout { nodes := nodes.map f, drags } = Scene.layout { nodes, drags } := by
  have hnode : ∀ id, Scene.node? { nodes := nodes.map f, drags } id =
      (Scene.node? { nodes, drags } id).map f := fun _ => hf.last?_map
  have hlive : ∀ id, Scene.live? { nodes := nodes.map f, drags } id =
      Scene.live? { nodes, drags } id := by
    intro id
    simp only [Scene.live?, Scene.drag?, hnode, Option.map_map, Function.comp_def, hf.position]
  have hbounds : ∀ id, Scene.bounds? { nodes := nodes.map f, drags } id =
      Scene.bounds? { nodes, drags } id := by
    intro id
    rw [Scene.bounds?, Scene.bounds?, hnode, hf.absolute?_map]
    cases Scene.node? { nodes, drags } id with
    | none => rfl
    | some n => simp [hf.size?_eq]
  simp only [Scene.layout, Layout.mk.injEq]
  refine ⟨funext hlive, funext (hf.absolute?_map drags), ?_⟩
  funext id area mode
  rw [Scene.liesIn, Scene.liesIn, hbounds]

theorem containers_map (hf : KeepsLayout f) (dropped : String) :
    containers layout dropped (nodes.map f) = containers layout dropped nodes := by
  rw [containers, containers, List.filterMap_map]
  refine List.filterMap_congr fun n _ => ?_
  simp only [Function.comp_apply, container?, Node.isBatch, hf.id, hf.kind, hf.size?_eq,
    hf.isBelow_map]
  rfl

theorem resolve_map (hf : KeepsLayout f) (dropped : Node K) :
    resolve layout mode dropped (nodes.map f) = resolve layout mode dropped nodes := by
  simp only [resolve, List.any_map, Function.comp_def, hf.id, hf.containers_map]

/-- A node lands where it would without the change. -/
theorem landed_map (hf : KeepsLayout f) (hn : f (moved n place) = moved n place) :
    landed mode (nodes.map f) n place = landed mode nodes n place := by
  have hdecision : decision mode (nodes.map f) n place = decision mode nodes n place := by
    rw [decision, decision, hf.replace_map hn, hf.resolve_map, held, hf.layout_map, held]
  rw [landed, landed, hdecision]

end KeepsLayout

/-! ### Locks -/

namespace Gesture

variable {other : String} {locked : Bool}

theorem lockNode_of_ne (h : n.id ≠ id) : lockNode id locked n = n := if_neg h

theorem first?_map_lockNode_of_ne (h : id ≠ other) (locked : Bool) (nodes : List (Node K)) :
    Node.first? (nodes.map (lockNode other locked)) id = Node.first? nodes id := by
  rw [(keepsNesting_lockNode other locked).first?_map]
  cases hn : Node.first? nodes id with
  | none => rfl
  | some n =>
      have hid := (Node.mem_of_first? hn).2
      rw [Option.map_some, lockNode_of_ne (by rwa [hid])]

theorem keepsLayout_lockNode (id : String) (locked : Bool) :
    KeepsLayout (lockNode (K := K) id locked) where
  toKeepsNesting := keepsNesting_lockNode id locked
  position n := by rw [lockNode]; split <;> rfl
  measured n := by rw [lockNode]; split <;> rfl

theorem lockNode_comm (h : other ≠ id) (locked locked' : Bool) :
    lockNode (K := K) id locked ∘ lockNode other locked' =
      lockNode other locked' ∘ lockNode id locked := by
  funext n
  simp only [Function.comp_apply]
  by_cases hid : n.id = id
  · have hne : n.id ≠ other := hid ▸ h.symm
    have hset : (lockNode id locked n).id ≠ other := by
      rwa [(keepsNesting_lockNode id locked).id]
    rw [lockNode_of_ne hne, lockNode_of_ne hset]
  · have hset : (lockNode other locked' n).id ≠ id := by
      rwa [(keepsNesting_lockNode other locked').id]
    rw [lockNode_of_ne hid, lockNode_of_ne hset]

end Gesture

end WorkflowCanvas
