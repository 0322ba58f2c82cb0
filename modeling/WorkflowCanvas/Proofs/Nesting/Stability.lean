import WorkflowCanvas.Proofs.Nesting.Order

/-!
Which order putting parents in front comes to.

Every node is called for by the first node of the list that is the node itself or below it, and the
place of that one is the rank of the node. Nodes come in the order of their ranks. Nodes of one rank
are called for by the same node, so they lie on one way up, and they come from above to below.

`Climb` is the walk up without a bound. Where parents do not run in a circle every such walk ends,
and the bounded walk that places a node is that walk.
-/

namespace WorkflowCanvas.Nesting

variable {K : Type} {nodes placed chain : List (Node K)} {n x y : Node K}

/-- The place of the first node that is this one or below it. -/
def rank (nodes : List (Node K)) (id : String) : Nat :=
  nodes.findIdx fun n => n.id = id || isBelow nodes n.id id

/-- The order in which nodes are put. -/
def Precedes (nodes : List (Node K)) (x y : Node K) : Prop :=
  rank nodes x.id < rank nodes y.id ∨
    rank nodes x.id = rank nodes y.id ∧ Below nodes y.id x.id

/-- The walk up from a node, nearest first. It goes on as long as there is a parent that is not
placed yet. -/
inductive Climb (nodes placed : List (Node K)) : Option (Node K) → List (Node K) → Prop
  | top : Climb nodes placed none []
  | known {n : Node K} : n.id ∈ placed.map Node.id → Climb nodes placed (some n) []
  | up {n : Node K} {chain : List (Node K)} : n.id ∉ placed.map Node.id →
      Climb nodes placed (n.parent.bind (Node.first? nodes)) chain →
      Climb nodes placed (some n) (n :: chain)

/-! ### Ranks -/

theorem rank_le {i : Nat} (hi : nodes[i]? = some n) (h : n.id = x.id ∨ Below nodes n.id x.id) :
    rank nodes x.id ≤ i := by
  obtain ⟨hlt, rfl⟩ := List.getElem?_eq_some_iff.mp hi
  by_contra hle
  have hnot := List.not_of_lt_findIdx (not_le.mp hle)
  rw [Bool.or_eq_false_iff] at hnot
  rcases h with heq | hbelow
  · simp [heq] at hnot
  · rw [← isBelow_iff] at hbelow
    simp [hbelow] at hnot

/-- A node is called for by itself or by a node below it. -/
theorem exists_getElem?_rank (hx : x ∈ nodes) :
    ∃ n, nodes[rank nodes x.id]? = some n ∧ (n.id = x.id ∨ Below nodes n.id x.id) := by
  have hlt : rank nodes x.id < nodes.length :=
    List.findIdx_lt_length_of_exists ⟨x, hx, by simp⟩
  refine ⟨nodes[rank nodes x.id], List.getElem?_eq_getElem hlt, ?_⟩
  have hcalls := List.findIdx_getElem (w := hlt)
  rwa [Bool.or_eq_true, decide_eq_true_eq, isBelow_iff] at hcalls

theorem Precedes.asymm (hac : Acyclic nodes) (h : Precedes nodes x y) : ¬ Precedes nodes y x := by
  rintro (hlt | ⟨heq, hbelow⟩)
  · rcases h with hlt' | ⟨heq', _⟩ <;> omega
  · rcases h with hlt' | ⟨_, hbelow'⟩
    · omega
    · exact hac x.id (hbelow.trans hbelow')

/-! ### The walk up -/

theorem Climb.not_placed {start : Option (Node K)} (h : Climb nodes placed start chain) :
    ∀ m ∈ chain, m.id ∉ placed.map Node.id := by
  induction h with
  | top => simp
  | known => simp
  | up hnew _ ih => exact List.forall_mem_cons.mpr ⟨hnew, ih⟩

theorem parentOf?_of_bind (hnd : (nodes.map Node.id).Nodup) (hn : n ∈ nodes) {parent : Node K}
    (hparent : n.parent.bind (Node.first? nodes) = some parent) :
    parent ∈ nodes ∧ Node.parentOf? nodes n.id = some parent.id := by
  obtain ⟨hmem, hid⟩ := Node.mem_and_parent_of_bind hparent
  exact ⟨hmem, (Node.parentOf?_of_mem hnd hn).trans hid⟩

theorem Climb.above {start : Option (Node K)} (h : Climb nodes placed start chain)
    (hnd : (nodes.map Node.id).Nodup) (hn : n ∈ nodes) (hstart : start = some n) :
    (∀ m ∈ chain, m.id = n.id ∨ Below nodes n.id m.id) ∧
      chain.Pairwise fun lower upper => Below nodes lower.id upper.id := by
  induction h generalizing n with
  | top => cases hstart
  | known => exact ⟨by simp, List.Pairwise.nil⟩
  | @up m chain hnew hrest ih =>
      obtain rfl := Option.some.inj hstart
      -- what follows is nothing, or the way up from the parent
      have hhigher : (∀ a ∈ chain, Below nodes m.id a.id) ∧
          chain.Pairwise fun lower upper => Below nodes lower.id upper.id := by
        cases hparent : m.parent.bind (Node.first? nodes) with
        | none =>
            rw [hparent] at hrest
            cases hrest
            exact ⟨by simp, List.Pairwise.nil⟩
        | some parent =>
            obtain ⟨hmem, hup⟩ := parentOf?_of_bind hnd hn hparent
            obtain ⟨habove, hordered⟩ := ih hmem hparent
            refine ⟨fun a ha => ?_, hordered⟩
            rcases habove a ha with heq | hbelow
            · exact heq ▸ .single hup
            · exact .head hup hbelow
      refine ⟨?_, List.pairwise_cons.mpr hhigher⟩
      exact List.forall_mem_cons.mpr ⟨.inl rfl, fun a ha => .inr (hhigher.1 a ha)⟩

/-- The bounded walk is the walk as such, provided that the bound is not what ends it. -/
theorem climb_unplaced (hnd : (nodes.map Node.id).Nodup) {steps : Nat} (hn : n ∈ nodes)
    (hsteps : ∀ last, up? nodes steps n.id = some last → last ∉ nodes.map Node.id) :
    Climb nodes placed (some n) (unplaced nodes placed steps n) := by
  induction steps generalizing n with
  | zero => exact absurd (List.mem_map_of_mem hn) (hsteps n.id rfl)
  | succ steps ih =>
      by_cases hplaced : n.id ∈ placed.map Node.id
      · rw [unplaced_of_placed hplaced]
        exact .known hplaced
      cases hparent : n.parent.bind (Node.first? nodes) with
      | none =>
          rw [unplaced_of_no_parent hplaced hparent]
          exact .up hplaced (hparent ▸ .top)
      | some parent =>
          obtain ⟨hmem, hup⟩ := parentOf?_of_bind hnd hn hparent
          rw [unplaced_of_parent hplaced hparent]
          refine .up hplaced (hparent ▸ ih hmem ?_)
          simpa [up?, hup] using hsteps

/-! ### One node after the other -/

/-- With a node, all that is above it is placed. -/
theorem Grounded.above_mem (h : Grounded nodes placed) (hnd : (nodes.map Node.id).Nodup)
    {id above : String} (hid : id ∈ placed.map Node.id) (hbelow : Below nodes id above)
    (habove : above ∈ nodes.map Node.id) : above ∈ placed.map Node.id := by
  have hstep : ∀ id parent, id ∈ placed.map Node.id → Node.parentOf? nodes id = some parent →
      parent ∈ nodes.map Node.id → parent ∈ placed.map Node.id := by
    intro id parent hid hup hparent
    obtain ⟨m, hm, rfl⟩ := List.mem_map.mp hid
    rw [Node.parentOf?_of_mem hnd (h.subset m hm)] at hup
    exact h.parent_mem hm hup hparent
  induction hbelow using Relation.TransGen.head_induction_on with
  | single hup => exact hstep _ _ hid hup habove
  | head hup hrest ih => exact ih (hstep _ _ hid hup (Below.mem_ids hrest))

/-- The state after the first `k` nodes: they are placed, what is placed is called for by one of
them, and it is in order. -/
structure Arranged (nodes : List (Node K)) (k : Nat) (placed : List (Node K)) : Prop where
  grounded : Grounded nodes placed
  reached : ∀ i < k, ∀ n, nodes[i]? = some n → n.id ∈ placed.map Node.id
  rank_lt : ∀ x ∈ placed, rank nodes x.id < k
  ordered : placed.Pairwise (Precedes nodes)

theorem arranged_nil (nodes : List (Node K)) : Arranged nodes 0 [] :=
  ⟨.nil, by simp, by simp, List.Pairwise.nil⟩

/-- What is placed with a node has the place of that node as its rank. -/
theorem Arranged.rank_eq {k : Nat} (h : Arranged nodes k placed) (hnd : (nodes.map Node.id).Nodup)
    (hn : nodes[k]? = some n) (hx : x ∈ nodes) (hnew : x.id ∉ placed.map Node.id)
    (habove : x.id = n.id ∨ Below nodes n.id x.id) : rank nodes x.id = k := by
  refine Nat.le_antisymm (rank_le hn (habove.imp_left Eq.symm)) ?_
  by_contra hlt
  -- an earlier node that calls for `x` would have had it placed
  obtain ⟨m, hm, hcalls⟩ := exists_getElem?_rank hx
  have hplaced : m.id ∈ placed.map Node.id := h.reached _ (not_le.mp hlt) m hm
  rcases hcalls with heq | hbelow
  · exact hnew (heq ▸ hplaced)
  · exact hnew (h.grounded.above_mem hnd hplaced hbelow (List.mem_map_of_mem hx))

theorem Arranged.place {k : Nat} (h : Arranged nodes k placed) (hnd : (nodes.map Node.id).Nodup)
    (hac : Acyclic nodes) (hn : nodes[k]? = some n) :
    Arranged nodes (k + 1) (placed ++ (unplaced nodes placed nodes.length n).reverse) := by
  have hmem : n ∈ nodes := List.mem_of_getElem? hn
  have hclimb : Climb nodes placed (some n) (unplaced nodes placed nodes.length n) :=
    climb_unplaced hnd hmem fun _ => hac.not_mem_ids_of_up?
  obtain ⟨hgrounded, hplaced, -⟩ := h.grounded.append_unplaced hnd hac hmem
    fun _ => hac.not_mem_ids_of_up?
  obtain ⟨habove, hchain⟩ := hclimb.above hnd hmem rfl
  have hrank : ∀ x ∈ unplaced nodes placed nodes.length n, rank nodes x.id = k := by
    intro x hx
    exact h.rank_eq hnd hn (unplaced_subset hmem x hx) (hclimb.not_placed x hx) (habove x hx)
  refine ⟨hgrounded, ?_, ?_, ?_⟩
  · intro i hi m hm
    rcases Nat.lt_succ_iff_lt_or_eq.mp hi with hlt | rfl
    · rw [List.map_append]
      exact List.mem_append_left _ (h.reached i hlt m hm)
    · obtain rfl := Option.some.inj (hn.symm.trans hm)
      exact hplaced
  · intro x hx
    rcases List.mem_append.mp hx with hx | hx
    · exact (h.rank_lt x hx).trans (Nat.lt_succ_self k)
    · rw [hrank x (List.mem_reverse.mp hx)]
      exact Nat.lt_succ_self k
  · refine List.pairwise_append.mpr ⟨h.ordered, ?_, ?_⟩
    · -- the chain goes upwards, and is placed the other way round
      refine List.pairwise_reverse.mpr (hchain.imp_of_mem fun {lower upper} hl hu hbelow => ?_)
      exact .inr ⟨(hrank upper hu).trans (hrank lower hl).symm, hbelow⟩
    · intro x hx y hy
      left
      rw [hrank y (List.mem_reverse.mp hy)]
      exact h.rank_lt x hx

theorem Arranged.placeAll {k : Nat} (h : Arranged nodes k placed) (hnd : (nodes.map Node.id).Nodup)
    (hac : Acyclic nodes) {todo : List (Node K)} (htodo : nodes.drop k = todo) :
    Arranged nodes (k + todo.length) (placeAll nodes placed todo) := by
  induction todo generalizing k placed with
  | nil => exact h
  | cons n todo ih =>
      have hn : nodes[k]? = some n := by
        rw [← List.head?_drop, htodo, List.head?_cons]
      have hrest : nodes.drop (k + 1) = todo := by
        rw [← List.tail_drop, htodo, List.tail_cons]
      rw [List.length_cons, Nat.add_comm todo.length 1, ← Nat.add_assoc]
      exact ih (h.place hnd hac hn) hrest

theorem arranged_parentsFirst (hnd : (nodes.map Node.id).Nodup) (hac : Acyclic nodes) :
    Arranged nodes nodes.length (parentsFirst nodes) := by
  have h := (arranged_nil nodes).placeAll hnd hac List.drop_zero
  rwa [Nat.zero_add] at h

/-! ### The whole list -/

/-- Of two entries of a list in this order, the order tells which one comes first. -/
theorem lt_iff_of_pairwise {l : List (Node K)} (h : l.Pairwise (Precedes nodes))
    (hac : Acyclic nodes) {i j : Nat} (hx : l[i]? = some x) (hy : l[j]? = some y) :
    i < j ↔ Precedes nodes x y := by
  obtain ⟨hi, rfl⟩ := List.getElem?_eq_some_iff.mp hx
  obtain ⟨hj, rfl⟩ := List.getElem?_eq_some_iff.mp hy
  have hpairs := List.pairwise_iff_getElem.mp h
  constructor
  · exact fun hlt => hpairs i j hi hj hlt
  · intro hprecedes
    rcases Nat.lt_trichotomy i j with hlt | rfl | hgt
    · exact hlt
    · exact absurd hprecedes (hprecedes.asymm hac)
    · exact absurd (hpairs j i hj hi hgt) (hprecedes.asymm hac)

/-- Where ids are distinct and parents do not run in a circle, every walk up ends, and putting
parents in front neither loses nor changes a node. Of two nodes that one comes first which is called
for earlier, and of two that are called for by the same node the upper one. So every parent comes
before its children, and nothing moves in a list in which that is so already. -/
theorem parentsFirst_orders_by_rank (nodes : List (Node K)) (hnd : (nodes.map Node.id).Nodup)
    (hac : Acyclic nodes) :
    (∀ (placed : List (Node K)), ∀ n ∈ nodes,
      Climb nodes placed (some n) (unplaced nodes placed nodes.length n)) ∧
    (parentsFirst nodes).Perm nodes ∧
    (∀ (i j : Nat) (x y : Node K), (parentsFirst nodes)[i]? = some x →
      (parentsFirst nodes)[j]? = some y →
        (i < j ↔ rank nodes x.id < rank nodes y.id ∨
          rank nodes x.id = rank nodes y.id ∧ Below nodes y.id x.id)) ∧
    ParentsFirst (parentsFirst nodes) ∧
    (ParentsFirst nodes → parentsFirst nodes = nodes) := by
  refine ⟨?_, parentsFirst_perm hnd hac, ?_, parentsFirst_inOrder hnd hac,
    parentsFirst_eq_self hnd⟩
  · intro placed n hn
    exact climb_unplaced hnd hn fun _ => hac.not_mem_ids_of_up?
  · intro i j x y hx hy
    exact lt_iff_of_pairwise (arranged_parentsFirst hnd hac).ordered hac hx hy

/-- Two batches behind what is in them, a node beside, and a node whose parent is missing. -/
def grove : List (Node Rat) :=
  let node (id : String) (kind : NodeKind) (parent : Option String) : Node Rat :=
    { id, kind, position := ⟨0, 0⟩, parent }
  [node "leaf" .reader (some "inner"), node "lost" .writer (some "gone"),
    node "inner" .batch (some "outer"), node "late" .note (some "outer"),
    node "outer" .batch none]

/-- The first node calls for both batches, and so they come before the node beside. -/
theorem parentsFirst_orders_by_rank_grove :
    (grove.map Node.id).Nodup ∧ Acyclic grove ∧
      (parentsFirst grove).map Node.id = ["outer", "inner", "leaf", "lost", "late"] ∧
      (parentsFirst grove).Perm grove ∧ ParentsFirst (parentsFirst grove) ∧
      rank grove "outer" = rank grove "leaf" ∧ rank grove "outer" < rank grove "lost" := by
  have hnd : (grove.map Node.id).Nodup := by decide
  have hac : Acyclic grove := by decide
  obtain ⟨-, hperm, -, hfirst, -⟩ := parentsFirst_orders_by_rank grove hnd hac
  exact ⟨hnd, hac, by decide, hperm, hfirst, by decide, by decide⟩

end WorkflowCanvas.Nesting
