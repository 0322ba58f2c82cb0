import WorkflowCanvas.Proofs.Drop.Phases
import WorkflowCanvas.Proofs.Geometry.Containment

/-!
The two modes compared.

A node with a surface that lies fully in an area also overlaps it. A node without one that overlaps
an area, and so stands strictly inside, also lies fully in it. In either case one mode is the
stricter of the two for this node, and the drop as a whole follows: what the stricter mode keeps in
its parent the other keeps too, and where both look for a batch, the other finds the same one or one
further behind in the list. It may well find one further behind, since the last batch wins.

All that a drop takes from the mode is whether the node lies in an area. So the comparison is made
for any layout in which one mode implies the other, and what the modes say of areas comes in last.
-/

namespace WorkflowCanvas

namespace Rect

/-! ### The area of a node -/

theorem area_placed_pos {origin : Point Rat} {size : Size Rat} (hwidth : 0 < size.width)
    (hheight : 0 < size.height) : 0 < (placed origin size).area := by
  have hx : origin.x ≤ origin.x + size.width := le_add_of_nonneg_right hwidth.le
  have hy : origin.y ≤ origin.y + size.height := le_add_of_nonneg_right hheight.le
  simp only [area_eq, placed, Scalar.greater_eq_max, Scalar.lesser_eq_min, max_eq_right hx,
    max_eq_right hy, min_eq_left hx, min_eq_left hy, add_sub_cancel_left]
  exact mul_pos hwidth hheight

theorem area_placed_zero (origin : Point Rat) : (placed origin 0).area = 0 := by
  have hx : origin.x + (0 : Size Rat).width = origin.x := add_zero origin.x
  simp only [area_eq, placed, Scalar.greater_eq_max, Scalar.lesser_eq_min, hx, max_self, min_self,
    sub_self, zero_mul]

end Rect

namespace Containment

variable {bounds area : Rect Rat}

theorem overlap_of_full (h : 0 < bounds.area) (hfull : full.holds bounds area = true) :
    overlap.holds bounds area = true := by
  rw [full_holds_of_sized h] at hfull
  rw [overlap_holds_of_sized h]
  exact h.trans_le hfull

theorem full_of_overlap (h : bounds.area = 0) (hoverlap : overlap.holds bounds area = true) :
    full.holds bounds area = true := by
  rw [holds_of_flat h, overlap_holdsPoint_iff] at hoverlap
  rw [holds_of_flat h, full_holdsPoint_iff]
  obtain ⟨⟨hleft, hright⟩, htop, hbottom⟩ := hoverlap
  exact ⟨⟨hleft.le, hright.le⟩, htop.le, hbottom.le⟩

end Containment

namespace Drop

/-! ### One mode that implies the other -/

section Layouts

variable {K : Type} {layout : Layout K} {strict loose : Containment} {dropped : Node K}
  {nodes : List (Node K)} {c : Container K} {t t' : Transition K}

/-- Of two ids, the second belongs to the same node or to one further behind. -/
def NotBefore (nodes : List (Node K)) (id id' : String) : Prop :=
  ∃ before n after, nodes = before ++ n :: after ∧ n.id = id ∧ id' ∈ (n :: after).map Node.id

/-- Where the node lies in an area under one mode, it does so under the other. -/
def Implies (layout : Layout K) (id : String) (strict loose : Containment) : Prop :=
  ∀ area, layout.liesIn id area strict = true → layout.liesIn id area loose = true

variable [Scalar K]

theorem Implies.resolve_eq_none (h : Implies layout dropped.id strict loose)
    (hnd : (nodes.map Node.id).Nodup) (hlisted : dropped.id ∈ nodes.map Node.id) {parent : String}
    (hparent : dropped.parent = some parent)
    (hstrict : resolve layout strict dropped nodes = none) :
    resolve layout loose dropped nodes = none := by
  have hdecided : Decided layout strict dropped nodes _ := resolve_decided hlisted
  have hdecided' : Decided layout loose dropped nodes _ := resolve_decided hlisted
  rw [hstrict] at hdecided
  -- a parent that is left under the loose mode takes part, and is left under the strict one
  have hgone : ∀ former ∈ containers layout dropped.id nodes, dropped.parent = some former.id →
      layout.liesIn dropped.id former.area loose = false → False := by
    intro former hmem hformer hout
    cases hdecided with
    | stayedFree hfree => simp [hfree] at hparent
    | parentApart other hother happart =>
        exact happart former hmem (Option.some.inj (hformer.symm.trans hother))
    | stayedInside other hother hmem' hlies =>
        obtain rfl := eq_of_mem_containers hnd hmem hmem'
          (Option.some.inj (hformer.symm.trans hother))
        exact Bool.false_ne_true (hout.symm.trans (h _ hlies))
  generalize resolve layout loose dropped nodes = decided at hdecided'
  cases hdecided' with
  | stayedFree | parentApart | stayedInside => rfl
  | adopted _ hfree => simp [hfree] at hparent
  | released former hformer hmem hout => exact (hgone former hmem hformer hout).elim
  | reparented former _ hformer hmem hout => exact (hgone former hmem hformer hout).elim

/-- The last batch that the node lies in under the loose mode does not stand in front of the one
under the strict mode. -/
theorem Implies.exists_target? {id : String} (h : Implies layout id strict loose)
    {left : Option String}
    (hstrict : target? layout strict id left (containers layout id nodes) = some c) :
    ∃ c', target? layout loose id left (containers layout id nodes) = some c' ∧
      NotBefore nodes c.id c'.id := by
  obtain ⟨hc, hleft, hlies⟩ := target?_eq_some hstrict
  cases hloose : target? layout loose id left (containers layout id nodes) with
  | none =>
      have hout := target?_eq_none_iff.mp hloose c hc hleft
      exact absurd (h _ hlies) (by simp [hout])
  | some c' =>
      obtain ⟨before, n, after, hsplit, hn, -⟩ := exists_split_of_target? hstrict
      obtain ⟨before', n', after', hsplit', hn', hbehind⟩ := exists_split_of_target? hloose
      -- the batch of the strict mode can take the node, so it is not behind the last that can
      have hnot : n ∉ after' := by
        intro hafter
        exact absurd (h _ hlies) (by simp [hbehind n hafter c hn hleft])
      have hmem : n' ∈ n :: after := by
        rcases List.append_eq_append_iff.mp (hsplit.symm.trans hsplit') with
          ⟨between, -, hback⟩ | ⟨between, -, hback⟩
        · simp [hback]
        · cases between with
          | nil => simp [← (List.cons.inj hback).1]
          | cons m between => simp [(List.cons.inj hback).2] at hnot
      refine ⟨c', rfl, before, n, after, hsplit, hn.sameId.symm, ?_⟩
      rw [hn'.sameId]
      exact List.mem_map_of_mem hmem

/-- A node that is free, or is released under both modes, goes to the same batch or to one further
behind if it goes to a batch under the strict mode. -/
theorem Implies.exists_resolve (h : Implies layout dropped.id strict loose)
    (hmoves : dropped.parent = none ∨ resolve layout loose dropped nodes ≠ none)
    (hstrict : resolve layout strict dropped nodes = some t) {id : String}
    (hid : t.parent = some id) :
    ∃ t' id', resolve layout loose dropped nodes = some t' ∧ t'.parent = some id' ∧
      NotBefore nodes id id' := by
  have hlisted := mem_ids_of_resolve hstrict
  have hdecided : Decided layout strict dropped nodes _ := resolve_decided hlisted
  have hdecided' : Decided layout loose dropped nodes _ := resolve_decided hlisted
  -- whatever was left, both modes look among the same batches
  have hnext : ∃ c' : Container K, target? layout loose dropped.id dropped.parent
      (containers layout dropped.id nodes) = some c' ∧ NotBefore nodes id c'.id := by
    rw [hstrict] at hdecided
    cases hdecided with
    | adopted c hfree htarget =>
        obtain rfl := Option.some.inj hid
        rw [hfree]
        exact h.exists_target? htarget
    | released => cases hid
    | reparented former c hformer _ _ htarget =>
        obtain rfl := Option.some.inj hid
        rw [hformer]
        exact h.exists_target? htarget
  obtain ⟨c', htarget', hbehind⟩ := hnext
  generalize resolve layout loose dropped nodes = decided at hdecided' hmoves
  cases hdecided' with
  | stayedFree hfree hnone => simp [← hfree, htarget'] at hnone
  | parentApart other hother => simp [hother] at hmoves
  | stayedInside former hformer => simp [hformer] at hmoves
  | adopted c hfree htarget =>
      obtain rfl := Option.some.inj ((hfree ▸ htarget').symm.trans htarget)
      exact ⟨_, _, rfl, rfl, hbehind⟩
  | released former hformer _ _ hnone => simp [← hformer, htarget'] at hnone
  | reparented former c hformer _ _ htarget =>
      obtain rfl := Option.some.inj ((hformer ▸ htarget').symm.trans htarget)
      exact ⟨_, _, rfl, rfl, hbehind⟩

end Layouts

/-! ### The modes in a scene -/

section Scenes

variable {s : Scene Rat} {strict loose : Containment} {dropped n : Node Rat}

/-- What the strict mode keeps in its parent, the loose mode keeps too. A node that is free, or that
is released under both, goes to the same batch or to one further behind under the loose mode if it
goes to a batch under the strict mode. -/
structure Loosens (s : Scene Rat) (dropped : Node Rat) (strict loose : Containment) : Prop where
  keeps : ∀ parent, dropped.parent = some parent →
    resolve s.layout strict dropped s.nodes = none → resolve s.layout loose dropped s.nodes = none
  takes : dropped.parent = none ∨ resolve s.layout loose dropped s.nodes ≠ none →
    ∀ t id, resolve s.layout strict dropped s.nodes = some t → t.parent = some id →
      ∃ t' id', resolve s.layout loose dropped s.nodes = some t' ∧ t'.parent = some id' ∧
        NotBefore s.nodes id id'

/-- It is enough to compare the modes on the rectangle of the node, wherever that is. -/
theorem implies_of_placed (hnd : (s.nodes.map Node.id).Nodup) (hn : n ∈ s.nodes)
    (h : ∀ origin area, strict.holds (Rect.placed origin (n.size?.getD 0)) area = true →
      loose.holds (Rect.placed origin (n.size?.getD 0)) area = true) :
    Implies s.layout n.id strict loose := by
  intro area hlies
  have hnode : s.node? n.id = some n :=
    (Node.last?_eq_first? hnd).trans (Node.first?_of_mem hnd hn)
  simp only [Scene.layout, Scene.liesIn, Scene.bounds?, hnode, Option.bind_eq_bind,
    Option.bind_some] at hlies ⊢
  cases horigin : s.absolute? n.id with
  | none => simp [horigin] at hlies
  | some origin =>
      simp only [horigin, Option.bind_some, Option.any_some] at hlies ⊢
      exact h origin area hlies

theorem Implies.loosens (h : Implies s.layout dropped.id strict loose)
    (hnd : (s.nodes.map Node.id).Nodup) (hlisted : dropped.id ∈ s.nodes.map Node.id) :
    Loosens s dropped strict loose where
  keeps _ hparent hstrict := h.resolve_eq_none hnd hlisted hparent hstrict
  takes hmoves _ _ hstrict hid := h.exists_resolve hmoves hstrict hid

/-- For a node with a width and a height, which are positive, to overlap is the looser of the two
modes. For a node without a settled size, which counts as a point, it is the stricter one. The node
is one of the scene, and may be let go of at another position or with another parent than it is
listed with. -/
theorem modes_are_ordered (s : Scene Rat) (dropped n : Node Rat)
    (hnd : (s.nodes.map Node.id).Nodup) (hn : n ∈ s.nodes) (hid : n.id = dropped.id) :
    ((∃ m width height, n.measured = some m ∧ m.width = some width ∧ m.height = some height ∧
        0 < width ∧ 0 < height) → Loosens s dropped .full .overlap) ∧
      (n.size? = none → Loosens s dropped .overlap .full) := by
  have hlisted : dropped.id ∈ s.nodes.map Node.id := hid ▸ List.mem_map_of_mem hn
  constructor
  · rintro ⟨m, width, height, hm, hmwidth, hmheight, hwidth, hheight⟩
    have hsize : n.size? = some ⟨width, height⟩ :=
      size?_eq_some_iff.mpr ⟨m, hm, hmwidth, hmheight, hwidth, hheight⟩
    have himplies : Implies s.layout n.id .full .overlap := by
      refine implies_of_placed hnd hn fun origin area => ?_
      rw [hsize]
      exact Containment.overlap_of_full (Rect.area_placed_pos hwidth hheight)
    exact (hid ▸ himplies).loosens hnd hlisted
  · intro hsize
    have himplies : Implies s.layout n.id .overlap .full := by
      refine implies_of_placed hnd hn fun origin area => ?_
      rw [hsize]
      exact Containment.full_of_overlap (Rect.area_placed_zero origin)
    exact (hid ▸ himplies).loosens hnd hlisted

/-- Two batches that overlap, a node with a surface across the edge of the second, and a pin on
that edge. The pin is dragged there out of a batch at the side. -/
def acrossEdge : Scene Rat :=
  let batch (id : String) (x : Rat) : Node Rat :=
    { id, kind := .batch, position := ⟨x, 0⟩, measured := some ⟨some 100, some 100⟩ }
  { nodes :=
      [batch "home" 500, batch "left" 0, batch "right" 50,
        { id := "leaf", kind := .reader, position := ⟨40, 10⟩,
          measured := some ⟨some 20, some 20⟩ },
        { id := "pin", kind := .note, position := ⟨10, 10⟩, parent := some "home",
          measured := some ⟨some 20, none⟩ }]
    drags := [("pin", ⟨-450, 10⟩)] }

/-- The leaf lies fully in the first batch and overlaps the second too. The pin overlaps the first
batch and lies fully in the second too. -/
theorem modes_are_ordered_acrossEdge :
    ∃ leaf ∈ acrossEdge.nodes, ∃ pin ∈ acrossEdge.nodes,
      Loosens acrossEdge leaf .full .overlap ∧ Loosens acrossEdge pin .overlap .full ∧
      resolve acrossEdge.layout .full leaf acrossEdge.nodes = some (.adopt "left" ⟨40, 10⟩) ∧
      resolve acrossEdge.layout .overlap leaf acrossEdge.nodes = some (.adopt "right" ⟨-10, 10⟩) ∧
      resolve acrossEdge.layout .overlap pin acrossEdge.nodes =
        some (.reparent "home" "left" ⟨50, 10⟩) ∧
      resolve acrossEdge.layout .full pin acrossEdge.nodes =
        some (.reparent "home" "right" ⟨0, 10⟩) ∧
      NotBefore acrossEdge.nodes "left" "right" := by
  have hnd : (acrossEdge.nodes.map Node.id).Nodup := by decide
  have hleaf : acrossEdge.nodes[3] ∈ acrossEdge.nodes := List.getElem_mem _
  have hpin : acrossEdge.nodes[4] ∈ acrossEdge.nodes := List.getElem_mem _
  have hleafFull : resolve acrossEdge.layout .full acrossEdge.nodes[3] acrossEdge.nodes =
      some (.adopt "left" ⟨40, 10⟩) := by decide +kernel
  have hleafOverlap : resolve acrossEdge.layout .overlap acrossEdge.nodes[3] acrossEdge.nodes =
      some (.adopt "right" ⟨-10, 10⟩) := by decide +kernel
  have hsized := (modes_are_ordered acrossEdge _ _ hnd hleaf rfl).1
    ⟨_, _, _, rfl, rfl, rfl, by decide, by decide⟩
  have hpoint := (modes_are_ordered acrossEdge _ _ hnd hpin rfl).2 (by decide +kernel)
  obtain ⟨t, id, hresolve, hid, hbehind⟩ := hsized.takes (.inl rfl) _ _ hleafFull rfl
  obtain rfl := Option.some.inj (hleafOverlap.symm.trans hresolve)
  obtain rfl := Option.some.inj hid
  exact ⟨_, hleaf, _, hpin, hsized, hpoint, hleafFull, hleafOverlap, by decide +kernel,
    by decide +kernel, hbehind⟩

end Scenes

end Drop

end WorkflowCanvas
