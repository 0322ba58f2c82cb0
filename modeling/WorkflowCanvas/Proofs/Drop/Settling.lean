import WorkflowCanvas.Proofs.Drop.Shift

/-!
A drop ends in a state that the same drop does not change.

Once let go of, a node lies in the batch that it is in, or lies in no batch if it is in
none. A node like that stays when it is dropped where it is. The second drop is
decided in another frame, but on the same points of the canvas.
-/

namespace WorkflowCanvas.Drop

/-- The node lies in its batch, or in none if it has no batch. Only batches with a settled size
count, and for a node that is free only those that are not below it. -/
structure Settled (mode : Containment) (nodes : List (Node Rat)) (n : Node Rat) : Prop where
  inside : ∀ p ∈ nodes, n.parent = some p.id → p.size?.isSome →
    (still nodes).within? mode n.id p.id = some true
  clear : n.parent = none → ∀ c ∈ nodes, c.isBatch → c.id ≠ n.id → c.size?.isSome →
    ¬ Nesting.Below nodes c.id n.id → (still nodes).within? mode n.id c.id = some false

variable {mode : Containment} {nodes after : List (Node Rat)} {n n' m : Node Rat}
  {id : String} {place : Point Rat} {c : Container Rat}

/-! ### Bounds afterwards -/

namespace Lands

theorem bounds?_self (hl : Lands nodes n place n' after) :
    (still after).bounds? n.id = (held nodes n.id place).bounds? n.id := by
  have hfirst : Node.first? (held nodes n.id place).nodes n.id = some n :=
    Node.first?_of_mem hl.nested.distinct hl.mem
  have hafter : Node.first? (still after).nodes n.id = some n' := hl.first?_self
  rw [Scene.bounds?_of_first? hl.nested hfirst, Scene.bounds?_of_first? hl.wellNested hafter,
    hl.sameSize, hl.absolute?_self, absolute?_held_self hl.nested hl.mem]

theorem bounds?_of_mem_candidates (hl : Lands nodes n place n' after)
    (hc : c ∈ candidates nodes n place) : (still after).bounds? c.id = some c.area := by
  obtain ⟨m, hm, ht⟩ := (mem_candidates hl.nested hl.mem).mp hc
  obtain ⟨hmem, _⟩ := Node.mem_of_first?
    ((hl.first?_of_ne ht.other).trans (Node.first?_of_mem hl.nested.distinct hm))
  have hafter : TakesPart (still after).layout n.id nodes m c :=
    { ht with origin := (hl.absolute?_of_not_below ht.other ht.notBelow).trans ht.origin }
  rw [ht.sameId]
  exact hafter.bounds?_eq hl.wellNested.distinct hmem

/-- What was asked of a candidate while the node was held is what holds afterwards. -/
theorem within?_of_mem_candidates (hl : Lands nodes n place n' after)
    (hc : c ∈ candidates nodes n place) : (still after).within? mode n.id c.id =
      some ((held nodes n.id place).liesIn n.id c.area mode) := by
  rw [← Drop.within?_of_mem_candidates hl.nested hl.mem hc, Scene.within?, Scene.within?,
    hl.bounds?_self, hl.bounds?_of_mem_candidates hc,
    Drop.bounds?_of_mem_candidates hl.nested.distinct hc]

end Lands

/-! ### The first drop -/

/-- The parent in which a node ends is a batch that can take part if it has a settled size. -/
theorem mem_of_landed_parent (h : Nesting.WellNested nodes) (hn : n ∈ nodes)
    (hperm : after.Perm (replace nodes (landed mode nodes n place))) (hm : m ∈ after)
    (hparent : (landed mode nodes n place).parent = some m.id) :
    m ∈ nodes ∧ (m.size?.isSome → ∃ c ∈ candidates nodes n place, c.id = m.id) := by
  obtain ⟨⟨p, hp, hpid, hbatch⟩, hne, hnot⟩ := isFreeParent_of_landed h hn hparent
  have hmem : m ∈ nodes := (lands_landed h hn hperm).mem_of_ne hm hne
  obtain rfl : p = m := Node.eq_of_id_eq h.distinct hp hmem hpid
  exact ⟨hmem, exists_candidate h hn hmem hbatch hne hnot⟩

theorem settled_landed (h : Nesting.WellNested nodes) (hn : n ∈ nodes)
    (hperm : after.Perm (replace nodes (landed mode nodes n place))) :
    Settled mode after (landed mode nodes n place) where
  inside := by
    intro p hp hparent hsize
    obtain ⟨c, hc, hcid⟩ := (mem_of_landed_parent h hn hperm hp hparent).2 hsize
    rcases landed_parent_eq_some hn hparent with ⟨c', hc', hid, hlies⟩ | ⟨_, happart⟩
    · rw [landed_id, ← hid, (lands_landed h hn hperm).within?_of_mem_candidates hc', hlies]
    · exact absurd hcid (happart c hc)
  clear := by
    intro hfree m hm hbatch hid hsize hnot
    rw [landed_id] at hid hnot ⊢
    rw [(lands_landed h hn hperm).below_iff] at hnot
    have hmem : m ∈ nodes := (lands_landed h hn hperm).mem_of_ne hm hid
    obtain ⟨c, hc, hcid⟩ := exists_candidate h hn hmem hbatch hid hnot hsize
    rw [← hcid, (lands_landed h hn hperm).within?_of_mem_candidates hc,
      landed_parent_eq_none h.distinct hn hfree hc]

/-- A batch without a settled size never gets a node that it did not have. -/
theorem parent_of_landed_parent (h : Nesting.WellNested nodes) (hn : n ∈ nodes)
    (hperm : after.Perm (replace nodes (landed mode nodes n place))) (hm : m ∈ after)
    (hparent : (landed mode nodes n place).parent = some m.id) (hsize : m.size? = none) :
    n.parent = some m.id := by
  rcases landed_parent_eq_some hn hparent with ⟨c, hc, hid, _⟩ | ⟨hold, _⟩
  · obtain ⟨p, hp, ht⟩ := (mem_candidates h hn).mp hc
    have hmem := (mem_of_landed_parent h hn hperm hm hparent).1
    obtain rfl : p = m := Node.eq_of_id_eq h.distinct hp hmem (ht.sameId.symm.trans hid)
    obtain ⟨size, hsome, _⟩ := ht.area
    simp [hsize] at hsome
  · exact hold

/-! ### The second drop -/

theorem landed_of_settled (h : Nesting.WellNested nodes) (hn : n ∈ nodes)
    (hs : Settled mode nodes n) : landed mode nodes n n.position = n := by
  have hwithin : ∀ c ∈ candidates nodes n n.position, (still nodes).within? mode n.id c.id =
      some ((held nodes n.id n.position).liesIn n.id c.area mode) :=
    fun _ => (lands_self h hn).within?_of_mem_candidates
  -- a node that is in a candidate lies in it
  have hinside : ∀ c ∈ candidates nodes n n.position, n.parent = some c.id →
      (held nodes n.id n.position).liesIn n.id c.area mode = true := by
    intro c hc hparent
    obtain ⟨m, hm, ht⟩ := (mem_candidates h hn).mp hc
    obtain ⟨size, hsize, _⟩ := ht.area
    have hsettled := hs.inside m hm (ht.sameId ▸ hparent) (by rw [hsize]; rfl)
    rw [← ht.sameId, hwithin c hc] at hsettled
    exact Option.some.inj hsettled
  have hdecided : Decided _ mode _ _ (decision mode nodes n n.position) := decision_decided hn
  rw [landed]
  generalize decision mode nodes n n.position = d at hdecided
  cases hdecided with
  | stayedFree => rfl
  | parentApart => rfl
  | stayedInside => rfl
  | adopted c hfree htarget =>
      obtain ⟨hc, _, hlies⟩ := target?_eq_some htarget
      obtain ⟨m, hm, ht⟩ := (mem_candidates h hn).mp hc
      obtain ⟨size, hsize, _⟩ := ht.area
      have hsettled := hs.clear hfree m hm ht.batch ht.other (by rw [hsize]; rfl) ht.notBelow
      rw [← ht.sameId, hwithin c hc] at hsettled
      cases hlies.symm.trans (Option.some.inj hsettled)
  | released former hparent hmem hlies =>
      cases hlies.symm.trans (hinside former hmem hparent)
  | reparented former c hparent hmem hlies =>
      cases hlies.symm.trans (hinside former hmem hparent)

end WorkflowCanvas.Drop
