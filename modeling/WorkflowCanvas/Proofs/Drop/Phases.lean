import WorkflowCanvas.Proofs.Drop.Candidates

/-!
The two phases of a drop.

Here the decision is said of the nodes of a scene and of their bounds, without candidates. The first
phase asks whether the node stays in its parent. The second looks for the batch that takes it, which
is the last of those that can. Ids have to be distinct, so that the bounds of a batch are those of
the node that has its id. Parents may even run in a circle: a batch below a circle has no place on
the canvas, and takes no part.
-/

namespace WorkflowCanvas.Drop

variable {K : Type} [Scalar K] {s : Scene K} {mode : Containment} {dropped n : Node K}
  {id : String}

/-- A batch that takes part in the drop of a node. -/
structure Eligible (s : Scene K) (id : String) (n : Node K) : Prop where
  listed : n ∈ s.nodes
  batch : n.isBatch
  other : n.id ≠ id
  sized : ∃ m width height, n.measured = some m ∧ m.width = some width ∧ m.height = some height ∧
    0 < width ∧ 0 < height
  notBelow : ¬ Nesting.Below s.nodes n.id id
  placed : ∃ origin, s.absolute? n.id = some origin

/-- A node that is in a parent stays there if the parent takes no part, or if the node still
intersects it. -/
def StaysIn (s : Scene K) (mode : Containment) (id parent : String) : Prop :=
  (∀ n, Eligible s id n → n.id ≠ parent) ∨
    ∃ n, Eligible s id n ∧ n.id = parent ∧ s.within? mode id n.id = some true

/-- A batch that can take the dropped node: not the one just left, and one that it intersects. -/
structure CanTake (s : Scene K) (mode : Containment) (dropped n : Node K) : Prop
    extends Eligible s dropped.id n where
  notLeft : dropped.parent ≠ some n.id
  meets : s.within? mode dropped.id n.id = some true

/-- The parent of a node that does not stay in the one it has. -/
inductive NextParent (s : Scene K) (mode : Containment) (dropped : Node K) : Option String → Prop
  | taken {before after : List (Node K)} {n : Node K} : s.nodes = before ++ n :: after →
      CanTake s mode dropped n → (∀ m ∈ after, ¬ CanTake s mode dropped m) →
      NextParent s mode dropped (some n.id)
  | free : (∀ n, ¬ CanTake s mode dropped n) → NextParent s mode dropped none

/-! ### Batches and candidates -/

theorem size?_eq_some_iff {size : Size K} : n.size? = some size ↔
    ∃ m, n.measured = some m ∧ m.width = some size.width ∧ m.height = some size.height ∧
      0 < size.width ∧ 0 < size.height := by
  rw [Node.size?, Option.bind_eq_some_iff]
  refine exists_congr fun m => and_congr_right fun _ => ?_
  rw [Measured.size?]
  constructor
  · intro h
    split at h
    · rename_i width height hwidth hheight
      obtain ⟨hpos, hsize⟩ := Option.ite_none_right_eq_some.mp h
      obtain rfl := Option.some.inj hsize
      exact ⟨hwidth, hheight, hpos⟩
    · cases h
  · rintro ⟨hwidth, hheight, hpos⟩
    simp [hwidth, hheight, hpos]

theorem eligible_iff_takesPart :
    Eligible s id n ↔ n ∈ s.nodes ∧ ∃ c, TakesPart s.layout id s.nodes n c := by
  constructor
  · intro h
    obtain ⟨m, width, height, hm, hwidth, hheight, hpos⟩ := h.sized
    obtain ⟨origin, horigin⟩ := h.placed
    have hsize : n.size? = some ⟨width, height⟩ :=
      size?_eq_some_iff.mpr ⟨m, hm, hwidth, hheight, hpos⟩
    exact ⟨h.listed, ⟨n.id, origin, Rect.placed origin ⟨width, height⟩⟩,
      ⟨h.batch, h.other, h.notBelow, rfl, horigin, _, hsize, rfl⟩⟩
  · rintro ⟨hlisted, c, h⟩
    obtain ⟨size, hsize, _⟩ := h.area
    obtain ⟨m, hm, hwidth, hheight, hpos⟩ := size?_eq_some_iff.mp hsize
    exact ⟨hlisted, h.batch, h.other, ⟨m, _, _, hm, hwidth, hheight, hpos⟩, h.notBelow,
      _, h.origin⟩

/-! ### Both phases -/

theorem staysIn_iff (hnd : (s.nodes.map Node.id).Nodup) {parent : String} :
    StaysIn s mode id parent ↔ (∀ c ∈ containers s.layout id s.nodes, c.id ≠ parent) ∨
      ∃ c ∈ containers s.layout id s.nodes, c.id = parent ∧ s.liesIn id c.area mode = true := by
  simp only [StaysIn, eligible_iff_takesPart, mem_containers]
  constructor
  · rintro (happart | ⟨n, ⟨hn, c, ht⟩, rfl, hmeets⟩)
    · left
      rintro c ⟨n, hn, ht⟩
      rw [ht.sameId]
      exact happart n ⟨hn, c, ht⟩
    · exact .inr ⟨c, ⟨n, hn, ht⟩, ht.sameId, (ht.liesIn_iff hnd hn).mpr hmeets⟩
  · rintro (happart | ⟨c, ⟨n, hn, ht⟩, rfl, hlies⟩)
    · left
      rintro n ⟨hn, c, ht⟩
      rw [← ht.sameId]
      exact happart c ⟨n, hn, ht⟩
    · exact .inr ⟨n, ⟨hn, c, ht⟩, ht.sameId.symm, (ht.liesIn_iff hnd hn).mp hlies⟩

theorem canTake_iff (hnd : (s.nodes.map Node.id).Nodup) : CanTake s mode dropped n ↔
    n ∈ s.nodes ∧ ∃ c, TakesPart s.layout dropped.id s.nodes n c ∧ some c.id ≠ dropped.parent ∧
      s.liesIn dropped.id c.area mode = true := by
  constructor
  · intro h
    obtain ⟨hn, c, ht⟩ := eligible_iff_takesPart.mp h.toEligible
    refine ⟨hn, c, ht, ?_, (ht.liesIn_iff hnd hn).mpr h.meets⟩
    rw [ht.sameId]
    exact h.notLeft.symm
  · rintro ⟨hn, c, ht, hleft, hlies⟩
    rw [ht.sameId] at hleft
    exact ⟨eligible_iff_takesPart.mpr ⟨hn, c, ht⟩, hleft.symm, (ht.liesIn_iff hnd hn).mp hlies⟩

/-- The last candidate is the last batch that can take the node. -/
theorem nextParent_target? (hnd : (s.nodes.map Node.id).Nodup) :
    NextParent s mode dropped ((target? s.layout mode dropped.id dropped.parent
      (containers s.layout dropped.id s.nodes)).map Container.id) := by
  cases htarget : target? s.layout mode dropped.id dropped.parent
      (containers s.layout dropped.id s.nodes) with
  | none =>
      refine .free fun n hn => ?_
      obtain ⟨hmem, c, ht, hleft, hlies⟩ := (canTake_iff hnd).mp hn
      have hout := target?_eq_none_iff.mp htarget c (mem_containers.mpr ⟨n, hmem, ht⟩) hleft
      exact Bool.false_ne_true (hout.symm.trans hlies)
  | some c =>
      obtain ⟨_, hleft, hlies⟩ := target?_eq_some htarget
      obtain ⟨before, n, after, hsplit, ht, hafter⟩ := exists_split_of_target? htarget
      have hn : n ∈ s.nodes := by simp [hsplit]
      rw [Option.map_some, ht.sameId]
      refine .taken hsplit ((canTake_iff hnd).mpr ⟨hn, c, ht, hleft, hlies⟩) fun m hm hcan => ?_
      obtain ⟨_, d, htd, hdleft, hdlies⟩ := (canTake_iff hnd).mp hcan
      exact Bool.false_ne_true ((hafter m hm d htd hdleft).symm.trans hdlies)

theorem resolve_eq_none_iff_staysIn (hnd : (s.nodes.map Node.id).Nodup)
    (hlisted : dropped.id ∈ s.nodes.map Node.id) {former : String}
    (hformer : dropped.parent = some former) :
    resolve s.layout mode dropped s.nodes = none ↔ StaysIn s mode dropped.id former := by
  have hdecided : Decided s.layout mode dropped s.nodes _ := resolve_decided hlisted
  -- a batch that the node was found to have left is the only candidate with its id
  have hgone : ∀ batch ∈ containers s.layout dropped.id s.nodes,
      dropped.parent = some batch.id → s.layout.liesIn dropped.id batch.area mode = false →
      ¬ StaysIn s mode dropped.id former := by
    intro batch hbatch hparent hout
    obtain rfl : former = batch.id := Option.some.inj (hformer.symm.trans hparent)
    rw [staysIn_iff hnd]
    rintro (happart | ⟨c, hc, hid, hlies⟩)
    · exact happart batch hbatch rfl
    · rw [eq_of_mem_containers hnd hc hbatch hid] at hlies
      exact Bool.false_ne_true (hout.symm.trans hlies)
  generalize resolve s.layout mode dropped s.nodes = t at hdecided ⊢
  cases hdecided with
  | stayedFree hfree => simp [hfree] at hformer
  | adopted _ hfree => simp [hfree] at hformer
  | parentApart parent hparent happart =>
      obtain rfl : former = parent := Option.some.inj (hformer.symm.trans hparent)
      exact iff_of_true rfl ((staysIn_iff hnd).mpr (.inl happart))
  | stayedInside batch hparent hbatch hlies =>
      obtain rfl : former = batch.id := Option.some.inj (hformer.symm.trans hparent)
      exact iff_of_true rfl ((staysIn_iff hnd).mpr (.inr ⟨batch, hbatch, rfl, hlies⟩))
  | released batch hparent hbatch hout =>
      exact iff_of_false (Option.some_ne_none _) (hgone batch hbatch hparent hout)
  | reparented batch _ hparent hbatch hout =>
      exact iff_of_false (Option.some_ne_none _) (hgone batch hbatch hparent hout)

/-- A drop in a scene. Of a node that is not listed it does nothing. A node that is in a parent
stays as it is exactly if it stays in that parent. Any other node goes to the last batch that can
take it, or stands free if there is none. What is told is a change of parent, and none is told if
the node was free and stays free. -/
theorem resolve_in_two_phases (s : Scene K) (mode : Containment) (dropped : Node K)
    (hnd : (s.nodes.map Node.id).Nodup) :
    (dropped.id ∉ s.nodes.map Node.id → resolve s.layout mode dropped s.nodes = none) ∧
    (dropped.id ∈ s.nodes.map Node.id →
      (∀ former, dropped.parent = some former →
        (resolve s.layout mode dropped s.nodes = none ↔ StaysIn s mode dropped.id former)) ∧
      ((∀ former, dropped.parent = some former → ¬ StaysIn s mode dropped.id former) →
        ∃ latter, NextParent s mode dropped latter ∧
          match dropped.parent, latter with
          | none, none => resolve s.layout mode dropped s.nodes = none
          | none, some batch => ∃ position,
              resolve s.layout mode dropped s.nodes = some (.adopt batch position)
          | some former, none => ∃ position,
              resolve s.layout mode dropped s.nodes = some (.release former position)
          | some former, some batch => ∃ position,
              resolve s.layout mode dropped s.nodes = some (.reparent former batch position))) := by
  refine ⟨fun hgone => ?_, fun hlisted => ⟨fun former hformer => ?_, fun hleaves => ?_⟩⟩
  · exact Option.eq_none_iff_forall_ne_some.mpr fun t ht => hgone (mem_ids_of_resolve ht)
  · exact resolve_eq_none_iff_staysIn hnd hlisted hformer
  · have hdecided : Decided s.layout mode dropped s.nodes _ := resolve_decided hlisted
    have hmoves : ∀ former, dropped.parent = some former →
        resolve s.layout mode dropped s.nodes ≠ none := by
      intro former hformer hnone
      exact hleaves former hformer ((resolve_eq_none_iff_staysIn hnd hlisted hformer).mp hnone)
    refine ⟨_, nextParent_target? hnd, ?_⟩
    generalize resolve s.layout mode dropped s.nodes = t at hdecided hmoves ⊢
    cases hdecided with
    | stayedFree hfree htarget => simp [hfree, htarget]
    | adopted c hfree htarget => simp [hfree, htarget]
    | parentApart former hformer => exact absurd rfl (hmoves former hformer)
    | stayedInside former hformer => exact absurd rfl (hmoves former.id hformer)
    | released former hformer _ _ htarget => simp [hformer, htarget]
    | reparented former c hformer _ _ htarget => simp [hformer, htarget]

/-- A leaf that is dragged out of its batch to where two batches overlap, above a batch that has no
size. -/
def draggedOut : Scene Rat :=
  let batch (id : String) (x : Rat) (size : Option Rat) : Node Rat :=
    { id, kind := .batch, position := ⟨x, 0⟩, measured := some ⟨size, size⟩ }
  { nodes :=
      [batch "home" 0 (some 100), batch "left" 200 (some 100), batch "right" 250 (some 100),
        batch "unsized" 240 none,
        { id := "leaf", kind := .reader, position := ⟨10, 10⟩, parent := some "home",
          measured := some ⟨some 20, some 20⟩ }]
    drags := [("leaf", ⟨260, 10⟩)] }

/-- Both overlapping batches contain the leaf, and the last of them takes it. -/
theorem resolve_in_two_phases_draggedOut :
    ∃ leaf ∈ draggedOut.nodes, leaf.parent = some "home" ∧
      (draggedOut.nodes.map Node.id).Nodup ∧ ¬ StaysIn draggedOut .full "leaf" "home" ∧
      NextParent draggedOut .full leaf (some "right") ∧
      resolve draggedOut.layout .full leaf draggedOut.nodes =
        some (.reparent "home" "right" ⟨10, 10⟩) := by
  have hnd : (draggedOut.nodes.map Node.id).Nodup := by decide
  have hleaf : draggedOut.nodes[4] ∈ draggedOut.nodes := List.getElem_mem _
  have hresolve : resolve draggedOut.layout .full draggedOut.nodes[4] draggedOut.nodes =
      some (.reparent "home" "right" ⟨10, 10⟩) := by decide +kernel
  obtain ⟨hfirst, hsecond⟩ := (resolve_in_two_phases draggedOut .full draggedOut.nodes[4] hnd).2
    (List.mem_map_of_mem hleaf)
  have hleaves : ∀ former, draggedOut.nodes[4].parent = some former →
      ¬ StaysIn draggedOut .full "leaf" former := by
    intro former hformer hstays
    have hnone := (hfirst former hformer).mpr hstays
    rw [hresolve] at hnone
    cases hnone
  obtain ⟨latter, hnext, hturn⟩ := hsecond hleaves
  have hlatter : latter = some "right" := by
    cases latter with
    | none =>
        obtain ⟨position, hrelease⟩ := hturn
        rw [hresolve] at hrelease
        cases hrelease
    | some batch =>
        obtain ⟨position, hreparent⟩ := hturn
        rw [hresolve] at hreparent
        cases hreparent
        rfl
  exact ⟨draggedOut.nodes[4], hleaf, rfl, hnd, hleaves "home" rfl, hlatter ▸ hnext, hresolve⟩

end WorkflowCanvas.Drop
