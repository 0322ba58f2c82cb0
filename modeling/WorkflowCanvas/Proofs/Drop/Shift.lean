import WorkflowCanvas.Proofs.Drop.Candidates

/-!
Where nodes are after a drop.

A new frame comes with a new position in it, and the two name the point at which the
node was let go of. The candidates are neither the node nor below it, so they are at
the same place while the node is held, before, and afterwards.
-/

namespace WorkflowCanvas.Drop

variable {mode : Containment} {nodes after : List (Node Rat)} {n n' m : Node Rat}
  {id : String} {place : Point Rat} {c : Container Rat}

/-! ### While the node is held -/

theorem absolute?_held_self (h : Nesting.WellNested nodes) (hn : n ∈ nodes) :
    (held nodes n.id place).absolute? n.id = (still nodes).fromFrame? n.parent place :=
  Scene.absolute?_of_frame? (s := still nodes) h h (fun _ => frame?_held_of_ne)
    (frame?_held_self h hn) fun _ hparent => (isFreeParent_of_wellNested h hn hparent).2

/-! ### Once the node is let go of -/

/-- The list `after` is the list `nodes` with `n'` in the place of `n`, up to order. The two nodes
differ in position and parent only, and these name the same point of the canvas. -/
structure Lands (nodes : List (Node Rat)) (n : Node Rat) (place : Point Rat) (n' : Node Rat)
    (after : List (Node Rat)) : Prop where
  nested : Nesting.WellNested nodes
  mem : n ∈ nodes
  perm : after.Perm (replace nodes n')
  sameId : n'.id = n.id
  sameKind : n'.kind = n.kind
  sameSize : n'.size? = n.size?
  free : ∀ parent, n'.parent = some parent → IsFreeParent nodes n.id parent
  samePoint :
    (still nodes).fromFrame? n'.parent n'.position = (still nodes).fromFrame? n.parent place

theorem fromFrame?_landed (h : Nesting.WellNested nodes) (hn : n ∈ nodes) :
    (still nodes).fromFrame? (landed mode nodes n place).parent
        (landed mode nodes n place).position =
      (still nodes).fromFrame? n.parent place := by
  have hdecided : Decided _ mode _ _ (decision mode nodes n place) := decision_decided hn
  rw [landed]
  -- where a frame is left or entered, its origin is added or taken away again
  generalize decision mode nodes n place = d at hdecided
  cases hdecided with
  | stayedFree => rfl
  | parentApart => rfl
  | stayedInside => rfl
  | adopted c hfree htarget =>
      have hc := origin_of_mem_candidates h hn (target?_eq_some htarget).1
      have hfree : n.parent = none := hfree
      simp only [Transition.apply, Transition.parent, Transition.position, Scene.fromFrame?, hc,
        hfree, livePlace_held, Option.map_some, Point.sub_add_self]
  | released former hparent hformer =>
      have hf := origin_of_mem_candidates h hn hformer
      have hparent : n.parent = some former.id := hparent
      simp only [Transition.apply, Transition.parent, Transition.position, Scene.fromFrame?, hf,
        hparent, livePlace_held, Option.map_some]
  | reparented former c hparent hformer _ htarget =>
      have hf := origin_of_mem_candidates h hn hformer
      have hc := origin_of_mem_candidates h hn (target?_eq_some htarget).1
      have hparent : n.parent = some former.id := hparent
      simp only [Transition.apply, Transition.parent, Transition.position, Scene.fromFrame?, hf,
        hc, hparent, livePlace_held, Option.map_some, Point.sub_add_self]

theorem lands_landed (h : Nesting.WellNested nodes) (hn : n ∈ nodes)
    (hperm : after.Perm (replace nodes (landed mode nodes n place))) :
    Lands nodes n place (landed mode nodes n place) after where
  nested := h
  mem := hn
  perm := hperm
  sameId := landed_id
  sameKind := landed_kind
  sameSize := landed_size?
  free _ := isFreeParent_of_landed h hn
  samePoint := fromFrame?_landed h hn

theorem lands_self (h : Nesting.WellNested nodes) (hn : n ∈ nodes) :
    Lands nodes n n.position n nodes where
  nested := h
  mem := hn
  perm := by rw [replace_eq_self h.distinct hn]
  sameId := rfl
  sameKind := rfl
  sameSize := rfl
  free _ := isFreeParent_of_wellNested h hn
  samePoint := rfl

/-! ### Where everything is afterwards -/

/-- The node moves from `old` to `new`, all that is below it is shifted as it is, and nothing
else moves. -/
structure Shifts (before after : Scene Rat) (node : String) (old new : Point Rat) : Prop where
  fromOld : before.absolute? node = some old
  toNew : after.absolute? node = some new
  below : ∀ id, Nesting.Below before.nodes id node →
    ∃ p, before.absolute? id = some p ∧ after.absolute? id = some (p + (new - old))
  rest : ∀ id, id ≠ node → ¬ Nesting.Below before.nodes id node →
    after.absolute? id = before.absolute? id

namespace Lands

theorem wellNested_replace (hl : Lands nodes n place n' after) :
    Nesting.WellNested (replace nodes n') := by
  refine Drop.wellNested_replace hl.nested hl.mem hl.sameId.symm hl.sameKind.symm
    fun parent hparent => ?_
  rw [hl.sameId]
  exact hl.free parent hparent

theorem wellNested (hl : Lands nodes n place n' after) : Nesting.WellNested after :=
  hl.wellNested_replace.perm hl.perm

theorem first?_of_ne (hl : Lands nodes n place n' after) (hid : id ≠ n.id) :
    Node.first? after id = Node.first? nodes id := by
  rw [Node.first?_perm hl.wellNested_replace.distinct hl.perm]
  exact first?_replace_of_ne (hl.sameId ▸ hid)

theorem first?_self (hl : Lands nodes n place n' after) : Node.first? after n.id = some n' := by
  rw [Node.first?_perm hl.wellNested_replace.distinct hl.perm, ← hl.sameId]
  exact first?_replace_self (hl.sameId ▸ List.mem_map_of_mem hl.mem)

theorem mem_of_ne (hl : Lands nodes n place n' after) (hm : m ∈ after) (hid : m.id ≠ n.id) :
    m ∈ nodes :=
  (mem_replace_of_ne (hl.sameId ▸ hid)).mp (hl.perm.mem_iff.mp hm)

theorem below_iff (hl : Lands nodes n place n' after) :
    Nesting.Below after id n.id ↔ Nesting.Below nodes id n.id := by
  refine Nesting.below_iff_of_reparent hl.nested.acyclic (fun id hid => ?_) fun parent hparent => ?_
  · rw [Node.parentOf?, Node.parentOf?, hl.first?_of_ne hid]
  · rw [Node.parentOf?_of_first? hl.first?_self] at hparent
    exact (hl.free parent hparent).2

theorem frame?_of_ne (hl : Lands nodes n place n' after) (hid : id ≠ n.id) :
    (still after).frame? id = (still nodes).frame? id := by
  have hfirst := hl.first?_of_ne hid
  rw [Scene.frame?, Scene.frame?, still, still, hfirst]
  rfl

theorem frame?_self (hl : Lands nodes n place n' after) :
    (still after).frame? n.id = some (n'.parent, n'.position) :=
  Scene.frame?_of_first? (s := still after) hl.first?_self

/-- The node is at the point where it was let go of. -/
theorem absolute?_self (hl : Lands nodes n place n' after) :
    (still after).absolute? n.id = (still nodes).fromFrame? n.parent place := by
  rw [← hl.samePoint]
  exact Scene.absolute?_of_frame? (s := still nodes) hl.nested hl.wellNested
    (fun _ => hl.frame?_of_ne) hl.frame?_self fun parent hparent => (hl.free parent hparent).2

theorem absolute?_of_not_below (hl : Lands nodes n place n' after) (hid : id ≠ n.id)
    (hnot : ¬ Nesting.Below nodes id n.id) :
    (still after).absolute? id = (still nodes).absolute? id :=
  Scene.absolute?_eq_of_not_below (s := still nodes) hl.nested hl.wellNested
    (fun _ => hl.frame?_of_ne) hid hnot

theorem shifts (hl : Lands nodes n place n' after) :
    ∃ old new, (still nodes).fromFrame? n.parent place = some new ∧
      Shifts (still nodes) (still after) n.id old new := by
  have hnode : n.id ∈ (still nodes).nodes.map Node.id := List.mem_map_of_mem hl.mem
  have hnode' : n.id ∈ (still after).nodes.map Node.id := Node.mem_ids_of_first? hl.first?_self
  obtain ⟨old, hold⟩ := Scene.exists_absolute? (s := still nodes) hl.nested hnode
  obtain ⟨new, hnew⟩ := Scene.exists_absolute? (s := still after) hl.wellNested hnode'
  refine ⟨old, new, ?_, hold, hnew, fun id hbelow => ?_, fun id hid hnot => ?_⟩
  · rw [← hl.absolute?_self, hnew]
  · exact Scene.absolute?_of_below (s := still nodes) hl.nested hl.wellNested
      (fun _ => hl.frame?_of_ne) hold hnew hbelow
  · exact hl.absolute?_of_not_below hid hnot

end Lands

end WorkflowCanvas.Drop
