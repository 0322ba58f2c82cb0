import WorkflowCanvas.Gesture.Dropping
import WorkflowCanvas.Proofs.Drop.Validity

/-!
The one node that a drop changes.

A drop moves the node to where it was let go of, and then may move it into another
frame. Both together put a single node in the place of the old one: the node as it
landed. It differs from the old one in position and parent only.
-/

namespace WorkflowCanvas.Drop

variable {K : Type} {nodes : List (Node K)} {n : Node K} {id : String} {place : Point K}

/-- The scene in which no node is held. -/
def still (nodes : List (Node K)) : Scene K := { nodes }

/-- The scene in which a node is held at a place. -/
def held (nodes : List (Node K)) (id : String) (place : Point K) : Scene K :=
  { nodes, drags := [(id, place)] }

def moved (n : Node K) (place : Point K) : Node K := { n with position := place }

theorem below_replace_moved (h : Nesting.WellNested nodes) (hn : n ∈ nodes) (place : Point K) :
    Nesting.Below (replace nodes (moved n place)) = Nesting.Below nodes := by
  have hlisted : n.id ∈ nodes.map Node.id := List.mem_map_of_mem hn
  refine Nesting.below_congr fun id => ?_
  by_cases hid : id = n.id
  · subst hid
    rw [Node.parentOf?_of_mem h.distinct hn]
    exact parentOf?_replace_self hlisted
  · exact parentOf?_replace_of_ne hid

theorem parentsFirst_replace_moved (hnd : (nodes.map Node.id).Nodup)
    (h : Nesting.ParentsFirst nodes) (hn : n ∈ nodes) (place : Point K) :
    Nesting.ParentsFirst (replace nodes (moved n place)) := by
  refine h.congr ?_
  rw [replace, List.map_map]
  refine List.map_congr_left fun m hm => ?_
  by_cases hid : m.id = n.id
  · obtain rfl := Node.eq_of_id_eq hnd hm hn hid
    simp [moved]
  · simp [moved, hid]

variable [Scalar K] {mode : Containment}

/-- What is decided for a node that is let go of at a place in the frame of its parent. -/
def decision (mode : Containment) (nodes : List (Node K)) (n : Node K) (place : Point K) :
    Option (Transition K) :=
  resolve (held nodes n.id place).layout mode (moved n place) (replace nodes (moved n place))

/-- The node after its drop. -/
def landed (mode : Containment) (nodes : List (Node K)) (n : Node K) (place : Point K) : Node K :=
  match decision mode nodes n place with
  | some t => t.apply (moved n place)
  | none => moved n place

/-! ### What stays of the node -/

theorem landed_eq_with : landed mode nodes n place =
    { n with
      parent := (landed mode nodes n place).parent
      position := (landed mode nodes n place).position } := by
  rw [landed]
  split <;> rfl

@[simp] theorem landed_id : (landed mode nodes n place).id = n.id := by
  rw [landed_eq_with]

@[simp] theorem landed_kind : (landed mode nodes n place).kind = n.kind := by
  rw [landed_eq_with]

@[simp] theorem landed_data : (landed mode nodes n place).data = n.data := by
  rw [landed_eq_with]

@[simp] theorem landed_size? : (landed mode nodes n place).size? = n.size? := by
  rw [landed_eq_with]
  rfl

theorem isFreeParent_of_landed (h : Nesting.WellNested nodes) (hn : n ∈ nodes) {parent : String}
    (hparent : (landed mode nodes n place).parent = some parent) :
    IsFreeParent nodes n.id parent := by
  have hbelow := below_replace_moved h hn place
  rw [landed] at hparent
  split at hparent
  · rename_i t hdecision
    obtain ⟨⟨p, hp, rfl, hbatch⟩, hne, hnot⟩ := isFreeParent_of_resolve hdecision hparent
    exact ⟨⟨p, (mem_replace_of_ne hne).mp hp, rfl, hbatch⟩, hne, hbelow ▸ hnot⟩
  · exact isFreeParent_of_wellNested h hn hparent

/-! ### Where the node ends -/

/-- The batches that take part in the drop of a node. -/
def candidates (nodes : List (Node K)) (n : Node K) (place : Point K) : List (Container K) :=
  containers (held nodes n.id place).layout n.id (replace nodes (moved n place))

theorem decision_decided (hn : n ∈ nodes) :
    Decided (held nodes n.id place).layout mode (moved n place) (replace nodes (moved n place))
      (decision mode nodes n place) := by
  have hlisted : n.id ∈ nodes.map Node.id := List.mem_map_of_mem hn
  refine resolve_decided ?_
  rw [map_id_replace]
  exact hlisted

theorem eq_of_mem_candidates {c c' : Container K} (hnd : (nodes.map Node.id).Nodup)
    (hc : c ∈ candidates nodes n place) (hc' : c' ∈ candidates nodes n place)
    (h : c.id = c'.id) : c = c' := by
  refine eq_of_mem_containers ?_ hc hc' h
  rw [map_id_replace]
  exact hnd

/-- A node ends in a candidate only if it lies in it. In a batch that takes no part it stays. -/
theorem landed_parent_eq_some (hn : n ∈ nodes) {parent : String}
    (hparent : (landed mode nodes n place).parent = some parent) :
    (∃ c ∈ candidates nodes n place, c.id = parent ∧
      (held nodes n.id place).liesIn n.id c.area mode = true) ∨
    (n.parent = some parent ∧ ∀ c ∈ candidates nodes n place, c.id ≠ parent) := by
  have hdecided : Decided _ mode _ _ (decision mode nodes n place) := decision_decided hn
  rw [landed] at hparent
  generalize decision mode nodes n place = d at hdecided hparent
  cases hdecided with
  | stayedFree hfree => simp [hfree] at hparent
  | adopted c _ htarget =>
      obtain ⟨hc, _, hlies⟩ := target?_eq_some htarget
      exact .inl ⟨c, hc, Option.some.inj hparent, hlies⟩
  | parentApart former hformer happart =>
      obtain rfl : former = parent := Option.some.inj (hformer.symm.trans hparent)
      exact .inr ⟨hformer, happart⟩
  | stayedInside former hformer hmem hlies =>
      exact .inl ⟨former, hmem, Option.some.inj (hformer.symm.trans hparent), hlies⟩
  | released => cases hparent
  | reparented former c _ _ _ htarget =>
      obtain ⟨hc, _, hlies⟩ := target?_eq_some htarget
      exact .inl ⟨c, hc, Option.some.inj hparent, hlies⟩

/-- A node ends free only if it lies in no candidate. -/
theorem landed_parent_eq_none (hnd : (nodes.map Node.id).Nodup) (hn : n ∈ nodes)
    (hfree : (landed mode nodes n place).parent = none) {c : Container K}
    (hc : c ∈ candidates nodes n place) :
    (held nodes n.id place).liesIn n.id c.area mode = false := by
  have hdecided : Decided _ mode _ _ (decision mode nodes n place) := decision_decided hn
  rw [landed] at hfree
  generalize decision mode nodes n place = d at hdecided hfree
  cases hdecided with
  | stayedFree _ htarget => exact target?_eq_none_iff.mp htarget c hc (by simp)
  | adopted => cases hfree
  | parentApart former hformer => simp [hformer] at hfree
  | stayedInside former hformer => simp [hformer] at hfree
  | released former _ hmem hlies htarget =>
      -- the batch that was left is no target, but the node was found not to lie in it
      by_cases hid : c.id = former.id
      · rw [eq_of_mem_candidates hnd hc hmem hid]
        exact hlies
      · exact target?_eq_none_iff.mp htarget c hc (by simpa using hid)
  | reparented => cases hfree

/-! ### The list after a drop -/

theorem evaluate_moved :
    evaluate (held nodes n.id place).layout mode (moved n place) (replace nodes (moved n place)) =
      replace nodes (landed mode nodes n place) := by
  rw [evaluate, ← decision, landed]
  cases decision mode nodes n place with
  | none => rfl
  | some t => exact replace_replace rfl

theorem first?_replace_landed (hn : n ∈ nodes) :
    Node.first? (replace nodes (landed mode nodes n place)) n.id =
      some (landed mode nodes n place) := by
  have hid : (landed mode nodes n place).id = n.id := landed_id
  rw [← hid]
  exact first?_replace_self (hid ▸ List.mem_map_of_mem hn)

theorem drop_eq (hn : Node.first? nodes id = some n) (hunlocked : n.data.locked = false) :
    Gesture.drop mode nodes id place = (replace nodes (landed mode nodes n place),
      .dropped (Transition.between? n (landed mode nodes n place))) := by
  obtain ⟨hmem, rfl⟩ := Node.mem_of_first? hn
  have hnext : evaluate (held nodes n.id place).layout mode (moved n place)
      (replace nodes (moved n place)) = replace nodes (landed mode nodes n place) := evaluate_moved
  rw [held, moved] at hnext
  rw [Gesture.drop, hn]
  simp only [hunlocked, Bool.false_eq_true, if_false, hnext, first?_replace_landed hmem,
    Option.bind_some]
  rfl

theorem wellNested_landed (h : Nesting.WellNested nodes) (hn : n ∈ nodes) :
    Nesting.WellNested (replace nodes (landed mode nodes n place)) := by
  refine wellNested_replace h hn landed_id.symm landed_kind.symm fun parent hparent => ?_
  rw [landed_id]
  exact isFreeParent_of_landed h hn hparent

end WorkflowCanvas.Drop
