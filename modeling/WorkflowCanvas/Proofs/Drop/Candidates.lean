import WorkflowCanvas.Proofs.Drop.Landing
import WorkflowCanvas.Proofs.Drop.Placement

/-!
The batches that take part in a drop.

The candidates are neither the node that is dropped nor below it, so they are at the same place
while it is held as before. All of this is about which places are added up, and not about what the
sums are, so it holds of any scalar.
-/

namespace WorkflowCanvas.Drop

variable {K : Type} {nodes : List (Node K)} {n m : Node K} {id : String} {place : Point K}

/-! ### While the node is held -/

theorem place_held : (held nodes id place).place n = if n.id = id then place else n.position := by
  by_cases hid : n.id = id
  · simp [Scene.place, Scene.drag?, held, hid]
  · simp [Scene.place, Scene.drag?, held, hid, List.lookup_cons, beq_eq_false_iff_ne.mpr hid]

theorem frame?_held_of_ne (hid : id ≠ n.id) :
    (held nodes n.id place).frame? id = (still nodes).frame? id := by
  rw [Scene.frame?, Scene.frame?]
  refine Option.map_congr fun m hm => ?_
  obtain ⟨_, rfl⟩ := Node.mem_of_first? hm
  rw [place_held, if_neg hid]
  rfl

theorem frame?_held_self (h : Nesting.WellNested nodes) (hn : n ∈ nodes) :
    (held nodes n.id place).frame? n.id = some (n.parent, place) := by
  have hfirst : Node.first? (held nodes n.id place).nodes n.id = some n :=
    Node.first?_of_mem h.distinct hn
  rw [Scene.frame?_of_first? hfirst, place_held, if_pos rfl]

variable [Scalar K]

theorem livePlace_held : livePlace (held nodes n.id place).layout (moved n place) = place := by
  simp [livePlace, Scene.layout, Scene.live?, Scene.drag?, held, moved]

theorem absolute?_held_of_not_below (h : Nesting.WellNested nodes) (hid : id ≠ n.id)
    (hnot : ¬ Nesting.Below nodes id n.id) :
    (held nodes n.id place).absolute? id = (still nodes).absolute? id :=
  Scene.absolute?_eq_of_not_below (s := still nodes) h h (fun _ => frame?_held_of_ne) hid hnot

/-! ### Bounds -/

variable {s : Scene K} {mode : Containment} {c : Container K}

/-- The area of a candidate is the bounds of the batch. -/
theorem TakesPart.bounds?_eq (h : TakesPart s.layout id nodes m c)
    (hnd : (s.nodes.map Node.id).Nodup) (hm : m ∈ s.nodes) : s.bounds? m.id = some c.area := by
  obtain ⟨size, hsize, harea⟩ := h.area
  have hnode : s.node? m.id = some m :=
    (Node.last?_eq_first? hnd).trans (Node.first?_of_mem hnd hm)
  have horigin : s.absolute? m.id = some c.origin := h.origin
  rw [Scene.bounds?, hnode, Option.bind_eq_bind, Option.bind_some, horigin, hsize, harea]
  rfl

theorem TakesPart.liesIn_iff (h : TakesPart s.layout id nodes m c)
    (hnd : (s.nodes.map Node.id).Nodup) (hm : m ∈ s.nodes) :
    s.liesIn id c.area mode = true ↔ s.within? mode id m.id = some true := by
  rw [Scene.liesIn, Scene.within?, h.bounds?_eq hnd hm]
  cases s.bounds? id <;> simp

/-! ### The candidates -/

/-- The candidates are the batches that take part where no node is held. -/
theorem mem_candidates (h : Nesting.WellNested nodes) (hn : n ∈ nodes) :
    c ∈ candidates nodes n place ↔
      ∃ m ∈ nodes, TakesPart (still nodes).layout n.id nodes m c := by
  have hbelow := below_replace_moved h hn place
  have hsame : ∀ m,
      TakesPart (held nodes n.id place).layout n.id (replace nodes (moved n place)) m c ↔
        TakesPart (still nodes).layout n.id nodes m c := by
    intro m
    constructor
    · intro ht
      have hnot : ¬ Nesting.Below nodes m.id n.id := hbelow ▸ ht.notBelow
      exact { ht with
        notBelow := hnot
        origin := (absolute?_held_of_not_below h ht.other hnot).symm.trans ht.origin }
    · intro ht
      exact { ht with
        notBelow := hbelow ▸ ht.notBelow
        origin := (absolute?_held_of_not_below h ht.other ht.notBelow).trans ht.origin }
  simp only [candidates, mem_containers, hsame]
  refine exists_congr fun m => and_congr_left fun ht => ?_
  exact mem_replace_of_ne ht.other

theorem bounds?_of_mem_candidates (hnd : (nodes.map Node.id).Nodup)
    (hc : c ∈ candidates nodes n place) :
    (held nodes n.id place).bounds? c.id = some c.area := by
  obtain ⟨m, hm, ht⟩ := mem_containers.mp hc
  have hm : m ∈ nodes := (mem_replace_of_ne (m := moved n place) ht.other).mp hm
  rw [ht.sameId]
  exact ht.bounds?_eq hnd hm

/-- A node that is held has bounds, and they are compared with the area of a candidate. -/
theorem within?_of_mem_candidates (h : Nesting.WellNested nodes) (hn : n ∈ nodes)
    (hc : c ∈ candidates nodes n place) : (held nodes n.id place).within? mode n.id c.id =
      some ((held nodes n.id place).liesIn n.id c.area mode) := by
  have hfirst : Node.first? (held nodes n.id place).nodes n.id = some n :=
    Node.first?_of_mem h.distinct hn
  obtain ⟨p, hp⟩ := Scene.exists_absolute? (s := held nodes n.id place) h
    (Node.mem_ids_of_first? hfirst)
  have hbounds := Scene.bounds?_of_first? (s := held nodes n.id place) h hfirst
  rw [Scene.within?, Scene.liesIn, bounds?_of_mem_candidates h.distinct hc, hbounds, hp]
  rfl

/-- Where a candidate is, and that it is none of the nodes that move. -/
theorem origin_of_mem_candidates (h : Nesting.WellNested nodes) (hn : n ∈ nodes)
    (hc : c ∈ candidates nodes n place) :
    (still nodes).absolute? c.id = some c.origin := by
  obtain ⟨m, _, ht⟩ := (mem_candidates h hn).mp hc
  rw [ht.sameId]
  exact ht.origin

theorem exists_candidate (h : Nesting.WellNested nodes) (hn : n ∈ nodes) (hm : m ∈ nodes)
    (hbatch : m.isBatch) (hid : m.id ≠ n.id) (hnot : ¬ Nesting.Below nodes m.id n.id)
    (hsize : m.size?.isSome) : ∃ c ∈ candidates nodes n place, c.id = m.id := by
  obtain ⟨size, hsize⟩ := Option.isSome_iff_exists.mp hsize
  have hlisted : m.id ∈ (still nodes).nodes.map Node.id := List.mem_map_of_mem hm
  obtain ⟨origin, horigin⟩ := Scene.exists_absolute? (s := still nodes) h hlisted
  refine ⟨⟨m.id, origin, Rect.placed origin size⟩, (mem_candidates h hn).mpr ⟨m, hm, ?_⟩, rfl⟩
  exact ⟨hbatch, hid, hnot, rfl, horigin, size, hsize, rfl⟩

end WorkflowCanvas.Drop
