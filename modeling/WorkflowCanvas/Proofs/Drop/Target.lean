import WorkflowCanvas.Proofs.Drop.Candidates

/-!
Where a drop takes a node.

A node that is attached stays where it is if it lies in its parent, or if its parent takes no part.
Every other node goes to the topmost of the batches that it lies in, which is the last of them in
the list, and stands free if there is none. The batch that is left need not be excepted: the node
was found not to lie in it.

So a drop depends on the order of the list in one place only, and in a list with parents in front
that order puts what is nested behind what it is nested in.
-/

namespace WorkflowCanvas.Drop

variable {K : Type} [Scalar K] {mode : Containment} {nodes : List (Node K)} {n m : Node K}
  {id : String} {place : Point K} {c : Container K} {t : Transition K}

/-- The batches that a node lies in when it is held at a place, in the order of the nodes. -/
def around (mode : Containment) (nodes : List (Node K)) (n : Node K) (place : Point K) :
    List (Container K) :=
  (candidates nodes n place).filter fun c => (held nodes n.id place).liesIn n.id c.area mode

/-- The topmost batch that a node lies in when it is held at a place. -/
def topmost? (mode : Containment) (nodes : List (Node K)) (n : Node K) (place : Point K) :
    Option String :=
  (around mode nodes n place).getLast?.map Container.id

/-- A node that is attached and is not released. -/
def Stays (mode : Containment) (nodes : List (Node K)) (n : Node K) (place : Point K) : Prop :=
  ∃ parent, n.parent = some parent ∧
    ((∀ c ∈ candidates nodes n place, c.id ≠ parent) ∨
      ∃ c ∈ around mode nodes n place, c.id = parent)

theorem mem_around : c ∈ around mode nodes n place ↔
    c ∈ candidates nodes n place ∧ (held nodes n.id place).liesIn n.id c.area mode = true := by
  rw [around, List.mem_filter]

theorem topmost?_eq_none_iff :
    topmost? mode nodes n place = none ↔ ∀ c, c ∉ around mode nodes n place := by
  rw [topmost?, Option.map_eq_none_iff, List.getLast?_eq_none_iff, List.eq_nil_iff_forall_not_mem]

theorem exists_of_topmost? (h : topmost? mode nodes n place = some id) :
    ∃ c ∈ around mode nodes n place, c.id = id := by
  obtain ⟨c, hlast, hid⟩ := Option.map_eq_some_iff.mp h
  exact ⟨c, List.mem_of_getLast? hlast, hid⟩

/-! ### What is decided -/

/-- To except a batch that the node does not lie in makes no difference. -/
theorem target?_of_outside {left : Option String}
    (hleft : ∀ c ∈ candidates nodes n place, some c.id = left →
      (held nodes n.id place).liesIn n.id c.area mode = false) :
    target? (held nodes n.id place).layout mode n.id left (candidates nodes n place) =
      (around mode nodes n place).getLast? := by
  refine congrArg List.getLast? (List.filter_congr fun c hc => ?_)
  by_cases hid : some c.id = left
  · have hlies := hleft c hc hid
    simp [hid, Scene.layout, hlies]
  · simp [hid, Scene.layout]

theorem outside_of_former (hnd : (nodes.map Node.id).Nodup) {former : Container K}
    (hmem : former ∈ candidates nodes n place)
    (hlies : (held nodes n.id place).liesIn n.id former.area mode = false) :
    ∀ c ∈ candidates nodes n place, some c.id = some former.id →
      (held nodes n.id place).liesIn n.id c.area mode = false := by
  intro c hc hid
  rw [eq_of_mem_candidates hnd hc hmem (Option.some.inj hid)]
  exact hlies

theorem not_stays_of_former (hnd : (nodes.map Node.id).Nodup) {former : Container K}
    (hparent : n.parent = some former.id) (hmem : former ∈ candidates nodes n place)
    (hlies : (held nodes n.id place).liesIn n.id former.area mode = false) :
    ¬ Stays mode nodes n place := by
  rintro ⟨parent, hp, hstays⟩
  obtain rfl : former.id = parent := Option.some.inj (hparent.symm.trans hp)
  rcases hstays with happart | ⟨c, hc, hid⟩
  · exact happart former hmem rfl
  · obtain ⟨hc, htrue⟩ := mem_around.mp hc
    rw [eq_of_mem_candidates hnd hc hmem hid, hlies] at htrue
    cases htrue

/-- A node whose parent changes goes to the topmost batch that it lies in. -/
theorem parent_of_decision (hnd : (nodes.map Node.id).Nodup) (hn : n ∈ nodes)
    (h : decision mode nodes n place = some t) :
    ¬ Stays mode nodes n place ∧ t.parent = topmost? mode nodes n place := by
  have hdecided : Decided _ mode _ _ (decision mode nodes n place) := decision_decided hn
  rw [h] at hdecided
  cases hdecided with
  | adopted c hfree htarget =>
      have hfree : n.parent = none := hfree
      refine ⟨fun ⟨parent, hparent, _⟩ => by simp [hfree] at hparent, ?_⟩
      rw [topmost?, ← target?_of_outside fun _ _ (hid : _ = none) => nomatch hid]
      exact (congrArg (Option.map Container.id) htarget).symm
  | released former hparent hmem hlies htarget =>
      refine ⟨not_stays_of_former hnd hparent hmem hlies, ?_⟩
      rw [topmost?, ← target?_of_outside (outside_of_former hnd hmem hlies)]
      exact (congrArg (Option.map Container.id) htarget).symm
  | reparented former c hparent hmem hlies htarget =>
      refine ⟨not_stays_of_former hnd hparent hmem hlies, ?_⟩
      rw [topmost?, ← target?_of_outside (outside_of_former hnd hmem hlies)]
      exact (congrArg (Option.map Container.id) htarget).symm

theorem stays_or_free_of_decision (hn : n ∈ nodes) (h : decision mode nodes n place = none) :
    Stays mode nodes n place ∨ n.parent = none ∧ topmost? mode nodes n place = none := by
  have hdecided : Decided _ mode _ _ (decision mode nodes n place) := decision_decided hn
  rw [h] at hdecided
  cases hdecided with
  | stayedFree hfree htarget =>
      refine .inr ⟨hfree, ?_⟩
      rw [topmost?, ← target?_of_outside fun _ _ (hid : _ = none) => nomatch hid]
      exact congrArg (Option.map Container.id) htarget
  | parentApart parent hparent happart => exact .inl ⟨parent, hparent, .inl happart⟩
  | stayedInside former hparent hmem hlies =>
      exact .inl ⟨former.id, hparent, .inr ⟨former, mem_around.mpr ⟨hmem, hlies⟩, rfl⟩⟩

/-! ### Where the node ends -/

theorem landed_of_stays (hnd : (nodes.map Node.id).Nodup) (hn : n ∈ nodes)
    (hstays : Stays mode nodes n place) : landed mode nodes n place = moved n place := by
  cases h : decision mode nodes n place with
  | none => rw [landed, h]
  | some t => exact absurd hstays (parent_of_decision hnd hn h).1

theorem landed_parent_of_not_stays (hnd : (nodes.map Node.id).Nodup) (hn : n ∈ nodes)
    (hnot : ¬ Stays mode nodes n place) :
    (landed mode nodes n place).parent = topmost? mode nodes n place := by
  cases h : decision mode nodes n place with
  | none =>
      obtain ⟨hfree, htop⟩ := (stays_or_free_of_decision hn h).resolve_left hnot
      rw [landed, h, htop]
      exact hfree
  | some t =>
      rw [landed, h]
      exact (parent_of_decision hnd hn h).2

/-- The node in the frame of a new parent, at the point that `place` names in its old one. -/
def reframe (origin? : String → Option (Point K)) (n : Node K) (place : Point K)
    (parent : Option String) : Node K :=
  if parent = n.parent then moved n place
  else
    let point := (n.parent.bind origin?).elim place (place + ·)
    { n with parent, position := (parent.bind origin?).elim point (point - ·) }

/-- All that a drop decides is the new parent. The new position follows from it. -/
theorem landed_eq_reframe (h : Nesting.WellNested nodes) (hn : n ∈ nodes) :
    landed mode nodes n place =
      reframe (still nodes).absolute? n place (landed mode nodes n place).parent := by
  have hdecided : Decided _ mode _ _ (decision mode nodes n place) := decision_decided hn
  rw [landed]
  generalize decision mode nodes n place = d at hdecided
  cases hdecided with
  | stayedFree => exact (if_pos rfl).symm
  | parentApart => exact (if_pos rfl).symm
  | stayedInside => exact (if_pos rfl).symm
  | adopted c hfree htarget =>
      have hc := origin_of_mem_candidates h hn (target?_eq_some htarget).1
      have hfree : n.parent = none := hfree
      rw [livePlace_held]
      simp [reframe, Transition.apply, Transition.parent, Transition.position, moved, hfree, hc]
  | released former hparent hformer =>
      have hf := origin_of_mem_candidates h hn hformer
      have hparent : n.parent = some former.id := hparent
      rw [livePlace_held]
      simp [reframe, Transition.apply, Transition.parent, Transition.position, moved, hparent, hf]
  | reparented former c hparent hformer _ htarget =>
      obtain ⟨hmem, hne, _⟩ := target?_eq_some htarget
      have hf := origin_of_mem_candidates h hn hformer
      have hc := origin_of_mem_candidates h hn hmem
      have hparent : n.parent = some former.id := hparent
      have hne : c.id ≠ former.id := fun heq => hne (congrArg some heq)
      rw [livePlace_held]
      simp [reframe, Transition.apply, Transition.parent, Transition.position, moved, hparent, hf,
        hc, hne]

/-! ### The innermost batch -/

/-- Behind the topmost batch stands none that the node lies in. -/
theorem exists_split_of_topmost? (hnd : (nodes.map Node.id).Nodup)
    (h : topmost? mode nodes n place = some id) :
    ∃ before top after, replace nodes (moved n place) = before ++ top :: after ∧ top.id = id ∧
      ∀ m ∈ after, ∀ c ∈ around mode nodes n place, c.id ≠ m.id := by
  obtain ⟨c, hlast, rfl⟩ := Option.map_eq_some_iff.mp h
  rw [← target?_of_outside fun _ _ (hid : _ = none) => nomatch hid] at hlast
  obtain ⟨before, top, after, hlist, htop, hafter⟩ := exists_split_of_target? hlast
  refine ⟨before, top, after, hlist, htop.sameId.symm, ?_⟩
  intro m hm d hd hid
  obtain ⟨hd, hlies⟩ := mem_around.mp hd
  obtain ⟨m', hm', ht⟩ := mem_containers.mp hd
  -- the candidate stems from the node behind, which was passed over
  have hmem : m ∈ replace nodes (moved n place) := by
    rw [hlist]
    exact List.mem_append_right _ (List.mem_cons_of_mem _ hm)
  obtain rfl : m' = m :=
    Node.eq_of_id_eq (by rwa [map_id_replace]) hm' hmem (ht.sameId.symm.trans hid)
  exact absurd hlies (by simpa [Scene.layout] using hafter m' hm d ht (Option.some_ne_none _))

/-- What is nested in the topmost batch that a node lies in stands behind that batch, and so the
node does not lie in it. -/
theorem not_mem_around_of_below (h : Nesting.WellNested nodes) (horder : Nesting.ParentsFirst nodes)
    (hn : n ∈ nodes) (htop : topmost? mode nodes n place = some id) (hm : m ∈ nodes)
    (hother : m.id ≠ n.id) (hbelow : Nesting.Below nodes m.id id) :
    ∀ c ∈ around mode nodes n place, c.id ≠ m.id := by
  obtain ⟨before, top, after, hsplit, rfl, hafter⟩ := exists_split_of_topmost? h.distinct htop
  have hnd : ((replace nodes (moved n place)).map Node.id).Nodup := by
    rw [map_id_replace]
    exact h.distinct
  have hlisted : m ∈ replace nodes (moved n place) :=
    (mem_replace_of_ne (m := moved n place) hother).mpr hm
  rw [← below_replace_moved h hn place] at hbelow
  exact hafter m ((parentsFirst_replace_moved h.distinct horder hn place).mem_after_of_below hnd
    hsplit hlisted hbelow)

/-- A node that gets a new parent lies in no batch that is nested in it. -/
theorem within?_of_below_target (h : Nesting.WellNested nodes) (horder : Nesting.ParentsFirst nodes)
    (hn : n ∈ nodes) (hdecision : decision mode nodes n place = some t) (hid : t.parent = some id)
    (hm : m ∈ nodes) (hbatch : m.isBatch) (hsize : m.size?.isSome) (hother : m.id ≠ n.id)
    (hnot : ¬ Nesting.Below nodes m.id n.id) (hbelow : Nesting.Below nodes m.id id) :
    (held nodes n.id place).within? mode n.id m.id = some false := by
  have htop := (parent_of_decision h.distinct hn hdecision).2.symm.trans hid
  have hcandidate : ∃ c ∈ candidates nodes n place, c.id = m.id :=
    exists_candidate h hn hm hbatch hother hnot hsize
  obtain ⟨c, hc, hcid⟩ := hcandidate
  have hout := not_mem_around_of_below h horder hn htop hm hother hbelow
  rw [← hcid, within?_of_mem_candidates h hn hc, Option.some.injEq, ← Bool.not_eq_true]
  exact fun hlies => hout c (mem_around.mpr ⟨hc, hlies⟩) hcid

end WorkflowCanvas.Drop
