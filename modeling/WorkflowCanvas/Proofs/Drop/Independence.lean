import WorkflowCanvas.Proofs.Drop.Target

/-!
Drops in lists that differ in one node.

A node that is no batch has nothing below it and takes no part in the drop of another one. So where
two lists agree in all other nodes, a drop has the same candidates in both, and each at the same
place. What may differ is their order, and with it which of them is the topmost that the dropped
node lies in. It does not differ where these batches are nested in each other.
-/

namespace WorkflowCanvas.Drop

variable {K : Type} {nodes nodes' : List (Node K)} {n m : Node K} {id leaf : String}

/-- Two well nested lists that agree on all nodes but one, which is no batch in either. -/
structure AgreeBut (leaf : String) (nodes nodes' : List (Node K)) : Prop where
  nested : Nesting.WellNested nodes
  nested' : Nesting.WellNested nodes'
  others : ∀ id, id ≠ leaf → Node.first? nodes' id = Node.first? nodes id
  noBatch : ∀ n ∈ nodes, n.id = leaf → ¬ n.isBatch
  noBatch' : ∀ n ∈ nodes', n.id = leaf → ¬ n.isBatch

/-- Nothing is below a node that is no batch. -/
theorem not_below_of_noBatch (h : Nesting.WellNested nodes)
    (hleaf : ∀ n ∈ nodes, n.id = leaf → ¬ n.isBatch) : ¬ Nesting.Below nodes id leaf := by
  intro hbelow
  obtain ⟨p, hp, hid, hbatch⟩ := h.isBatch_of_below hbelow
  exact hleaf p hp hid hbatch

section Targets

variable [Scalar K]

/-- The node stays in its parent, or lies in the same topmost batch in the other list. -/
def KeepsTarget (mode : Containment) (nodes nodes' : List (Node K)) (n : Node K) (place : Point K) :
    Prop :=
  Stays mode nodes n place ∨ topmost? mode nodes' n place = topmost? mode nodes n place

/-- Of any two batches that the node lies in one is nested in the other. -/
def Chained (mode : Containment) (nodes : List (Node K)) (n : Node K) (place : Point K) : Prop :=
  ∀ c ∈ around mode nodes n place, ∀ c' ∈ around mode nodes n place,
    c.id = c'.id ∨ Nesting.Below nodes c.id c'.id ∨ Nesting.Below nodes c'.id c.id

end Targets

namespace AgreeBut

theorem symm (h : AgreeBut leaf nodes nodes') : AgreeBut leaf nodes' nodes where
  nested := h.nested'
  nested' := h.nested
  others id hid := (h.others id hid).symm
  noBatch := h.noBatch'
  noBatch' := h.noBatch

theorem mem (h : AgreeBut leaf nodes nodes') (hn : n ∈ nodes) (hid : n.id ≠ leaf) : n ∈ nodes' :=
  (Node.mem_of_first? ((h.others n.id hid).trans (Node.first?_of_mem h.nested.distinct hn))).1

theorem noBatch_of_ne (h : AgreeBut leaf nodes nodes') (hn : n ∈ nodes) (hid : n.id ≠ leaf)
    (hkind : ¬ n.isBatch) : ∀ m ∈ nodes', m.id = n.id → ¬ m.isBatch := by
  intro m hm heq
  rwa [Node.eq_of_id_eq h.nested'.distinct hm (h.mem hn hid) heq]

theorem below_of_below (h : AgreeBut leaf nodes nodes') {ancestor : String} (hid : id ≠ leaf)
    (hbelow : Nesting.Below nodes id ancestor) : Nesting.Below nodes' id ancestor := by
  have hparent : ∀ {a}, a ≠ leaf → Node.parentOf? nodes' a = Node.parentOf? nodes a := by
    intro a ha
    rw [Node.parentOf?, Node.parentOf?, h.others a ha]
  induction hbelow using Relation.TransGen.head_induction_on with
  | single hstep => exact .single ((hparent hid).trans hstep)
  | @head a middle hstep hrest ih =>
      -- the way up does not lead through the node that is no batch
      refine .head ((hparent hid).trans hstep) (ih ?_)
      rintro rfl
      exact not_below_of_noBatch h.nested h.noBatch (.single hstep)

variable [Scalar K] {mode : Containment} {place : Point K} {c : Container K}

theorem absolute?_eq (h : AgreeBut leaf nodes nodes') (drags : List (String × Point K))
    (hid : id ≠ leaf) :
    Scene.absolute? { nodes := nodes', drags } id = Scene.absolute? { nodes, drags } id :=
  Scene.absolute?_eq_of_not_below h.nested h.nested'
    (fun a ha => Scene.frame?_congr rfl (h.others a ha)) hid
    (not_below_of_noBatch h.nested h.noBatch)

theorem liesIn_eq (h : AgreeBut leaf nodes nodes') (hn : n ∈ nodes) (hid : n.id ≠ leaf)
    (area : Rect K) : (held nodes' n.id place).liesIn n.id area mode =
      (held nodes n.id place).liesIn n.id area mode := by
  have hfirst : Node.first? (held nodes n.id place).nodes n.id = some n :=
    Node.first?_of_mem h.nested.distinct hn
  have hfirst' : Node.first? (held nodes' n.id place).nodes n.id = some n :=
    (h.others n.id hid).trans hfirst
  have habsolute : (held nodes' n.id place).absolute? n.id =
      (held nodes n.id place).absolute? n.id := h.absolute?_eq [(n.id, place)] hid
  rw [Scene.liesIn, Scene.liesIn, Scene.bounds?_of_first? h.nested hfirst,
    Scene.bounds?_of_first? h.nested' hfirst', habsolute]

theorem mem_candidates_of (h : AgreeBut leaf nodes nodes') (hn : n ∈ nodes) (hid : n.id ≠ leaf)
    (hkind : ¬ n.isBatch) (hc : c ∈ candidates nodes n place) :
    c ∈ candidates nodes' n place := by
  obtain ⟨m, hm, ht⟩ := (mem_candidates h.nested hn).mp hc
  have hmid : m.id ≠ leaf := fun heq => h.noBatch m hm heq ht.batch
  refine (mem_candidates h.nested' (h.mem hn hid)).mpr ⟨m, h.mem hm hmid, ?_⟩
  exact { ht with
    notBelow := not_below_of_noBatch h.nested' (h.noBatch_of_ne hn hid hkind)
    origin := (h.absolute?_eq [] hmid).trans ht.origin }

theorem mem_candidates_iff (h : AgreeBut leaf nodes nodes') (hn : n ∈ nodes) (hid : n.id ≠ leaf)
    (hkind : ¬ n.isBatch) : c ∈ candidates nodes' n place ↔ c ∈ candidates nodes n place :=
  ⟨h.symm.mem_candidates_of (h.mem hn hid) hid hkind, h.mem_candidates_of hn hid hkind⟩

theorem mem_around_iff (h : AgreeBut leaf nodes nodes') (hn : n ∈ nodes) (hid : n.id ≠ leaf)
    (hkind : ¬ n.isBatch) : c ∈ around mode nodes' n place ↔ c ∈ around mode nodes n place := by
  rw [mem_around, mem_around, h.mem_candidates_iff hn hid hkind, h.liesIn_eq hn hid]

theorem stays_iff (h : AgreeBut leaf nodes nodes') (hn : n ∈ nodes) (hid : n.id ≠ leaf)
    (hkind : ¬ n.isBatch) : Stays mode nodes' n place ↔ Stays mode nodes n place := by
  simp only [Stays, h.mem_candidates_iff hn hid hkind, h.mem_around_iff hn hid hkind]

/-- The node lands as it does in the other list as soon as it gets the same parent. -/
theorem landed_eq_of_parent (h : AgreeBut leaf nodes nodes') (hn : n ∈ nodes) (hid : n.id ≠ leaf)
    (hparent : (landed mode nodes' n place).parent = (landed mode nodes n place).parent) :
    landed mode nodes' n place = landed mode nodes n place := by
  have horigin : ∀ reference : Option String,
      (∀ parent, reference = some parent → IsFreeParent nodes n.id parent) →
        reference.bind (still nodes').absolute? = reference.bind (still nodes).absolute? := by
    intro reference hfree
    cases reference with
    | none => rfl
    | some parent =>
        obtain ⟨⟨p, hp, rfl, hbatch⟩, _⟩ := hfree parent rfl
        exact h.absolute?_eq [] fun heq => h.noBatch p hp heq hbatch
  rw [landed_eq_reframe h.nested' (h.mem hn hid), landed_eq_reframe h.nested hn, hparent, reframe,
    reframe, horigin n.parent fun _ => isFreeParent_of_wellNested h.nested hn,
    horigin _ fun _ => isFreeParent_of_landed h.nested hn]

/-- The node gets the same parent exactly if its target is the same. -/
theorem landed_parent_eq_iff (h : AgreeBut leaf nodes nodes') (hn : n ∈ nodes) (hid : n.id ≠ leaf)
    (hkind : ¬ n.isBatch) :
    (landed mode nodes' n place).parent = (landed mode nodes n place).parent ↔
      KeepsTarget mode nodes nodes' n place := by
  have hn' := h.mem hn hid
  have hstays' : Stays mode nodes' n place ↔ Stays mode nodes n place := h.stays_iff hn hid hkind
  by_cases hstays : Stays mode nodes n place
  · rw [landed_of_stays h.nested.distinct hn hstays,
      landed_of_stays h.nested'.distinct hn' (hstays'.mpr hstays)]
    exact iff_of_true rfl (.inl hstays)
  · rw [landed_parent_of_not_stays h.nested.distinct hn hstays,
      landed_parent_of_not_stays h.nested'.distinct hn' (mt hstays'.mp hstays)]
    exact (or_iff_right hstays).symm

/-! ### Batches nested in each other -/

/-- Of batches that are nested in each other, the innermost is topmost in both lists. -/
theorem topmost?_eq_of_chained (h : AgreeBut leaf nodes nodes')
    (horder : Nesting.ParentsFirst nodes) (horder' : Nesting.ParentsFirst nodes') (hn : n ∈ nodes)
    (hid : n.id ≠ leaf) (hkind : ¬ n.isBatch)
    (hchain : Chained mode nodes n place) :
    topmost? mode nodes' n place = topmost? mode nodes n place := by
  have hn' := h.mem hn hid
  have hsame : ∀ c, c ∈ around mode nodes' n place ↔ c ∈ around mode nodes n place :=
    fun c => h.mem_around_iff hn hid hkind
  -- a batch that the node lies in is a node of the list, and none of the nodes that may differ
  have hlisted : ∀ c ∈ around mode nodes n place,
      ∃ m ∈ nodes, m.id = c.id ∧ m.id ≠ n.id ∧ m.id ≠ leaf := by
    intro c hc
    obtain ⟨m, hm, ht⟩ := (mem_candidates h.nested hn).mp (mem_around.mp hc).1
    exact ⟨m, hm, ht.sameId.symm, ht.other, fun heq => h.noBatch m hm heq ht.batch⟩
  cases htop : topmost? mode nodes n place with
  | none =>
      rw [topmost?_eq_none_iff] at htop ⊢
      exact fun c hc => htop c ((hsame c).mp hc)
  | some inner =>
      cases htop' : topmost? mode nodes' n place with
      | none =>
          obtain ⟨c, hc, _⟩ := exists_of_topmost? htop
          exact absurd ((hsame c).mpr hc) (topmost?_eq_none_iff.mp htop' c)
      | some inner' =>
          obtain ⟨c, hc, rfl⟩ := exists_of_topmost? htop
          obtain ⟨c', hc', rfl⟩ := exists_of_topmost? htop'
          obtain ⟨m, hm, hmid, hother, hmleaf⟩ := hlisted c hc
          obtain ⟨m', hm', hmid', hother', _⟩ := hlisted c' ((hsame c').mp hc')
          rcases hchain c hc c' ((hsame c').mp hc') with heq | hbelow | hbelow
          · rw [heq]
          · rw [← hmid] at hbelow
            exact absurd hmid.symm (not_mem_around_of_below h.nested' horder' hn' htop'
              (h.mem hm hmleaf) hother (h.below_of_below hmleaf hbelow) c ((hsame c).mpr hc))
          · rw [← hmid'] at hbelow
            exact absurd hmid'.symm (not_mem_around_of_below h.nested horder hn htop hm' hother'
              hbelow c' ((hsame c').mp hc'))

end AgreeBut

end WorkflowCanvas.Drop
