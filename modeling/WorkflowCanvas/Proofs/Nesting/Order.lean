import WorkflowCanvas.Nesting.Order
import WorkflowCanvas.Proofs.Nesting.Ancestry

/-!
Putting parents in front of their children loses no node, adds none, and leaves a list
alone that has its parents in front.

`Grounded` is the form that a list under construction has: nodes are added at its end,
each new and each after its parent. A parent that is not there does not count.
-/

namespace WorkflowCanvas.Nesting

variable {K : Type} {nodes placed : List (Node K)} {n : Node K}

/-- Every parent stands in front of each of its children. -/
def ParentsFirst (nodes : List (Node K)) : Prop :=
  ∀ (i j : Nat) (parent child : Node K), nodes[i]? = some parent → nodes[j]? = some child →
    child.parent = some parent.id → i < j

theorem ParentsFirst.mem_before (h : ParentsFirst nodes) {before after : List (Node K)}
    {parent child : Node K} (hsplit : nodes = before ++ child :: after) (hmem : parent ∈ nodes)
    (hparent : child.parent = some parent.id) : parent ∈ before := by
  obtain ⟨i, hi⟩ := List.mem_iff_getElem?.mp hmem
  have hlt := h i before.length parent child hi (by simp [hsplit]) hparent
  rw [hsplit, List.getElem?_append_left hlt] at hi
  exact List.mem_of_getElem? hi

theorem ParentsFirst.mem_after (h : ParentsFirst nodes) {before after : List (Node K)}
    {parent child : Node K} (hsplit : nodes = before ++ parent :: after) (hmem : child ∈ nodes)
    (hparent : child.parent = some parent.id) : child ∈ after := by
  obtain ⟨j, hj⟩ := List.mem_iff_getElem?.mp hmem
  have hlt := h before.length j parent child (by simp [hsplit]) hj hparent
  obtain ⟨k, rfl⟩ : ∃ k, j = before.length + (k + 1) := ⟨j - before.length - 1, by omega⟩
  rw [hsplit, List.getElem?_append_right (by omega), Nat.add_sub_cancel_left,
    List.getElem?_cons_succ] at hj
  exact List.mem_of_getElem? hj

/-- All that is below a node stands behind it, at any depth. -/
theorem ParentsFirst.mem_after_of_below (h : ParentsFirst nodes) (hnd : (nodes.map Node.id).Nodup)
    {before after : List (Node K)} {top : Node K} (hsplit : nodes = before ++ top :: after)
    (hn : n ∈ nodes) (hbelow : Below nodes n.id top.id) : n ∈ after := by
  generalize hid : n.id = id at hbelow
  induction hbelow using Relation.TransGen.head_induction_on generalizing n with
  | single hstep =>
      rw [← hid, Node.parentOf?_of_mem hnd hn] at hstep
      exact h.mem_after hsplit hn hstep
  | head hstep hrest ih =>
      obtain ⟨middle, hmiddle, rfl⟩ := List.mem_map.mp (Below.mem_ids hrest)
      obtain ⟨front, back, hback⟩ := List.append_of_mem (ih hmiddle rfl)
      rw [← hid, Node.parentOf?_of_mem hnd hn] at hstep
      have hsplit' : nodes = (before ++ top :: front) ++ middle :: back := by simp [hsplit, hback]
      have hbehind : n ∈ back := h.mem_after hsplit' hn hstep
      rw [hback]
      exact List.mem_append_right _ (List.mem_cons_of_mem _ hbehind)

/-- Whether parents stand in front can be seen from the ids and the parents alone. -/
theorem ParentsFirst.congr (h : ParentsFirst nodes) {nodes' : List (Node K)}
    (hsame : nodes'.map (fun n => (n.id, n.parent)) = nodes.map fun n => (n.id, n.parent)) :
    ParentsFirst nodes' := by
  have hat : ∀ (i : Nat) (n' : Node K), nodes'[i]? = some n' →
      ∃ n, nodes[i]? = some n ∧ n.id = n'.id ∧ n.parent = n'.parent := by
    intro i n' hi
    have hkeys := congrArg (fun keys => keys[i]?) hsame
    simp only [List.getElem?_map, hi, Option.map_some] at hkeys
    obtain ⟨n, hn, heq⟩ := Option.map_eq_some_iff.mp hkeys.symm
    exact ⟨n, hn, Prod.mk.inj heq⟩
  intro i j parent child hi hj hparent
  obtain ⟨p, hp, hpid, _⟩ := hat i parent hi
  obtain ⟨c, hc, _, hcparent⟩ := hat j child hj
  exact h i j p c hp hc (by rw [hcparent, hparent, hpid])

/-! ### Lists under construction -/

inductive Grounded (nodes : List (Node K)) : List (Node K) → Prop
  | nil : Grounded nodes []
  | snoc {placed : List (Node K)} {n : Node K} : Grounded nodes placed → n ∈ nodes →
      n.id ∉ placed.map Node.id →
      (∀ parent, n.parent = some parent → parent ∈ nodes.map Node.id →
        parent ∈ placed.map Node.id) →
      Grounded nodes (placed ++ [n])

theorem Grounded.subset (h : Grounded nodes placed) : ∀ n ∈ placed, n ∈ nodes := by
  induction h with
  | nil => simp
  | snoc _ hmem _ _ ih =>
      intro m hm
      rcases List.mem_append.mp hm with hm | hm
      · exact ih m hm
      · rwa [List.mem_singleton.mp hm]

theorem Grounded.nodup (h : Grounded nodes placed) : (placed.map Node.id).Nodup := by
  induction h with
  | nil => simp
  | snoc _ _ hnew _ ih =>
      rw [List.map_append, List.map_singleton, ← List.concat_eq_append, List.nodup_concat]
      exact ⟨hnew, ih⟩

theorem Grounded.parent_mem (h : Grounded nodes placed) {parent : String} (hn : n ∈ placed)
    (hparent : n.parent = some parent) (hmem : parent ∈ nodes.map Node.id) :
    parent ∈ placed.map Node.id := by
  induction h with
  | nil => simp at hn
  | snoc _ _ _ hfirst ih =>
      rw [List.map_append, List.mem_append]
      rcases List.mem_append.mp hn with hn | hn
      · exact .inl (ih hn)
      · obtain rfl := List.mem_singleton.mp hn
        exact .inl (hfirst parent hparent hmem)

theorem Grounded.parentsFirst (h : Grounded nodes placed) : ParentsFirst placed := by
  induction h with
  | nil => intro i j parent child hi; simp at hi
  | @snoc placed n hplaced hmem hnew hfirst ih =>
      have hid : n.id ∈ nodes.map Node.id := List.mem_map_of_mem hmem
      intro i j parent child hi hj hparent
      rcases Nat.lt_trichotomy j placed.length with hjlt | rfl | hjgt
      · rw [List.getElem?_append_left hjlt] at hj
        by_cases hilt : i < placed.length
        · rw [List.getElem?_append_left hilt] at hi
          exact ih i j parent child hi hj hparent
        · -- the parent would be the new node, but what is placed has its parent placed
          obtain rfl : n = parent := by
            rw [List.getElem?_append_right (by omega)] at hi
            exact List.mem_singleton.mp (List.mem_of_getElem? hi) |>.symm
          exact absurd (hplaced.parent_mem (List.mem_of_getElem? hj) hparent hid) hnew
      · obtain rfl : n = child := by simpa using hj
        by_contra hle
        obtain rfl : n = parent := by
          rw [List.getElem?_append_right (by omega)] at hi
          exact List.mem_singleton.mp (List.mem_of_getElem? hi) |>.symm
        exact hnew (hfirst n.id hparent hid)
      · rw [List.getElem?_eq_none (by simp; omega)] at hj
        cases hj

/-! ### Placing a node -/

theorem unplaced_of_placed {steps : Nat} (h : n.id ∈ placed.map Node.id) :
    unplaced nodes placed steps n = [] := by
  cases steps with
  | zero => rfl
  | succ steps => rw [unplaced, if_pos h]

theorem unplaced_of_parent {steps : Nat} {parent : Node K} (h : n.id ∉ placed.map Node.id)
    (hparent : n.parent.bind (Node.first? nodes) = some parent) :
    unplaced nodes placed (steps + 1) n = n :: unplaced nodes placed steps parent := by
  rw [unplaced, if_neg h, hparent]
  rfl

theorem unplaced_of_no_parent {steps : Nat} (h : n.id ∉ placed.map Node.id)
    (hparent : n.parent.bind (Node.first? nodes) = none) :
    unplaced nodes placed (steps + 1) n = [n] := by
  rw [unplaced, if_neg h, hparent]
  rfl

/-- A node is not among the nodes above it. -/
theorem not_mem_ids_append_above (hac : Acyclic nodes) {parent : String}
    (hup : Node.parentOf? nodes n.id = some parent) (hplaced : n.id ∉ placed.map Node.id)
    {above : List (Node K)} (habove : ∀ m ∈ above, m.id = parent ∨ Below nodes parent m.id) :
    n.id ∉ (placed ++ above.reverse).map Node.id := by
  rw [List.map_append, List.mem_append, not_or]
  refine ⟨hplaced, fun hmem => ?_⟩
  obtain ⟨m, hm, hmid⟩ := List.mem_map.mp hmem
  rcases habove m (List.mem_reverse.mp hm) with heq | hbelow
  · exact hac.parent_ne (hup.trans (by rw [← heq, hmid]))
  · exact hac n.id (.head hup (hmid ▸ hbelow))

/-- What is placed with a node is the node and nodes above it, and then the node is placed. -/
theorem Grounded.append_unplaced (h : Grounded nodes placed) (hnd : (nodes.map Node.id).Nodup)
    (hac : Acyclic nodes) {steps : Nat} (hn : n ∈ nodes)
    (hsteps : ∀ last, up? nodes steps n.id = some last → last ∉ nodes.map Node.id) :
    Grounded nodes (placed ++ (unplaced nodes placed steps n).reverse) ∧
      n.id ∈ (placed ++ (unplaced nodes placed steps n).reverse).map Node.id ∧
      ∀ m ∈ unplaced nodes placed steps n, m.id = n.id ∨ Below nodes n.id m.id := by
  induction steps generalizing n with
  | zero => exact absurd (List.mem_map_of_mem hn) (hsteps n.id rfl)
  | succ steps ih =>
      by_cases hplaced : n.id ∈ placed.map Node.id
      · rw [unplaced_of_placed hplaced, List.reverse_nil, List.append_nil]
        exact ⟨h, hplaced, by simp⟩
      cases hparent : n.parent.bind (Node.first? nodes) with
      | none =>
          have hgone : ∀ parent, n.parent = some parent → parent ∉ nodes.map Node.id := by
            intro parent hp
            rw [hp, Option.bind_some] at hparent
            exact Node.first?_eq_none.mp hparent
          rw [unplaced_of_no_parent hplaced hparent, List.reverse_singleton]
          exact ⟨h.snoc hn hplaced fun parent hp hmem => absurd hmem (hgone parent hp),
            by simp, by simp⟩
      | some parent =>
          obtain ⟨hmem, hid⟩ := Node.mem_and_parent_of_bind hparent
          have hup : Node.parentOf? nodes n.id = some parent.id := by
            rw [Node.parentOf?_of_mem hnd hn, hid]
          obtain ⟨hgrounded, hlast, habove⟩ := ih hmem (by simpa [up?, hup] using hsteps)
          rw [unplaced_of_parent hplaced hparent]
          have hnew := not_mem_ids_append_above hac hup hplaced habove
          rw [List.reverse_cons, ← List.append_assoc]
          refine ⟨hgrounded.snoc hn hnew fun p hp _ => ?_, by simp, ?_⟩
          · obtain rfl : parent.id = p := Option.some.inj (hid.symm.trans hp)
            exact hlast
          · intro m hm
            rcases List.mem_cons.mp hm with rfl | hm
            · exact .inl rfl
            · rcases habove m hm with heq | hbelow
              · exact .inr (heq ▸ .single hup)
              · exact .inr (.head hup hbelow)

/-- The nodes `placed` with those of `todo` placed as well, one after the other. -/
def placeAll (nodes placed todo : List (Node K)) : List (Node K) :=
  todo.foldl (fun placed n => placed ++ (unplaced nodes placed nodes.length n).reverse) placed

theorem Grounded.placeAll (h : Grounded nodes placed) (hnd : (nodes.map Node.id).Nodup)
    (hac : Acyclic nodes) {todo : List (Node K)} (htodo : ∀ n ∈ todo, n ∈ nodes) :
    Grounded nodes (placeAll nodes placed todo) ∧
      (∀ id ∈ placed.map Node.id, id ∈ (Nesting.placeAll nodes placed todo).map Node.id) ∧
      ∀ id ∈ todo.map Node.id, id ∈ (Nesting.placeAll nodes placed todo).map Node.id := by
  induction todo generalizing placed with
  | nil => exact ⟨h, fun _ hid => hid, by simp⟩
  | cons n todo ih =>
      obtain ⟨hnext, hn, _⟩ := h.append_unplaced hnd hac (htodo n List.mem_cons_self)
        fun _ => hac.not_mem_ids_of_up?
      obtain ⟨hall, hkept, hdone⟩ := ih hnext fun m hm => htodo m (List.mem_cons_of_mem _ hm)
      refine ⟨hall, fun id hid => hkept id ?_, fun id hid => ?_⟩
      · rw [List.map_append]
        exact List.mem_append_left _ hid
      · rcases List.mem_cons.mp hid with rfl | hid
        · exact hkept _ hn
        · exact hdone id hid

/-! ### The whole list -/

theorem unplaced_subset {steps : Nat} (hn : n ∈ nodes) :
    ∀ m ∈ unplaced nodes placed steps n, m ∈ nodes := by
  induction steps generalizing n with
  | zero => simp [unplaced]
  | succ steps ih =>
      rw [unplaced]
      split
      · simp
      refine List.forall_mem_cons.mpr ⟨hn, ?_⟩
      cases hparent : n.parent.bind (Node.first? nodes) with
      | none => simp
      | some parent => exact ih (Node.mem_and_parent_of_bind hparent).1

/-- Whatever the parents are, only nodes of the list are placed. -/
theorem parentsFirst_subset (nodes : List (Node K)) : ∀ n ∈ parentsFirst nodes, n ∈ nodes := by
  have hplace : ∀ todo placed, (∀ n ∈ todo, n ∈ nodes) → (∀ n ∈ placed, n ∈ nodes) →
      ∀ n ∈ placeAll nodes placed todo, n ∈ nodes := by
    intro todo
    induction todo with
    | nil => intro placed _ hplaced; simpa [placeAll] using hplaced
    | cons n todo ih =>
        intro placed htodo hplaced
        obtain ⟨hn, htodo⟩ := List.forall_mem_cons.mp htodo
        rw [placeAll, List.foldl_cons]
        refine ih _ htodo (List.forall_mem_append.mpr ⟨hplaced, ?_⟩)
        simpa using unplaced_subset hn
  exact hplace nodes [] (fun _ hn => hn) (by simp)

theorem grounded_parentsFirst (hnd : (nodes.map Node.id).Nodup) (hac : Acyclic nodes) :
    Grounded nodes (parentsFirst nodes) :=
  (Grounded.nil.placeAll hnd hac fun _ h => h).1

theorem parentsFirst_perm (hnd : (nodes.map Node.id).Nodup) (hac : Acyclic nodes) :
    (parentsFirst nodes).Perm nodes := by
  obtain ⟨hgrounded, -, hall⟩ := Grounded.nil.placeAll hnd hac fun _ h => h
  refine (List.perm_ext_iff_of_nodup hgrounded.nodup.of_map hnd.of_map).mpr fun n =>
    ⟨hgrounded.subset n, fun hn => ?_⟩
  obtain ⟨m, hm, hid⟩ := List.mem_map.mp (hall n.id (List.mem_map_of_mem hn))
  obtain rfl := Node.eq_of_id_eq hnd (hgrounded.subset m hm) hn hid
  exact hm

theorem parentsFirst_inOrder (hnd : (nodes.map Node.id).Nodup) (hac : Acyclic nodes) :
    ParentsFirst (parentsFirst nodes) :=
  (grounded_parentsFirst hnd hac).parentsFirst

/-- A list that has its parents in front is left as it is. -/
theorem parentsFirst_eq_self (hnd : (nodes.map Node.id).Nodup) (h : ParentsFirst nodes) :
    parentsFirst nodes = nodes := by
  have hplace : ∀ todo placed, nodes = placed ++ todo → placeAll nodes placed todo = nodes := by
    intro todo
    induction todo with
    | nil => intro placed hsplit; simpa [placeAll] using hsplit.symm
    | cons n todo ih =>
        intro placed hsplit
        have hnew : n.id ∉ placed.map Node.id := by
          rw [hsplit, List.map_append, List.map_cons] at hnd
          grind
        -- the parent stands in front, so it is placed already
        have halone : unplaced nodes placed nodes.length n = [n] := by
          rw [show nodes.length = (nodes.length - 1) + 1 by simp [hsplit]; omega]
          cases hparent : n.parent.bind (Node.first? nodes) with
          | none => exact unplaced_of_no_parent hnew hparent
          | some parent =>
              obtain ⟨hmem, hid⟩ := Node.mem_and_parent_of_bind hparent
              rw [unplaced_of_parent hnew hparent,
                unplaced_of_placed (List.mem_map_of_mem (h.mem_before hsplit hmem hid))]
        rw [placeAll, List.foldl_cons, halone, List.reverse_singleton]
        exact ih (placed ++ [n]) (by simp [hsplit])
  exact hplace nodes [] rfl

end WorkflowCanvas.Nesting
