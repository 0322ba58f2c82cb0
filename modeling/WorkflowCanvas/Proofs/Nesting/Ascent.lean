import WorkflowCanvas.Proofs.Nesting.Ancestry

/-!
The search for an ancestor, round by round.

Here the search is a loop that looks at one node in each round and goes on from its parent. It has
no bound but a count of the parents that it has passed, and it gives up when that comes to more than
there are nodes. So it ends in every list, also where parents run in a circle. A search that gives
up has missed nothing: whatever is above an id is found before as many parents have been passed.
-/

namespace WorkflowCanvas.Nesting

variable {K : Type} {nodes : List (Node K)} {id ancestor : String} {passed rounds rounds' : Nat}
  {answer answer' : Bool}

/-- Where the search stands: the node it looks at, if there is one, and how many parents it has
passed. -/
structure Ascent (K : Type) where
  current : Option (Node K)
  passed : Nat

namespace Ascent

variable {a : Ascent K}

/-- Where the search for what is above an id begins. -/
def start (nodes : List (Node K)) (id : String) : Ascent K := ⟨Node.first? nodes id, 0⟩

/-- What one round comes to: an answer, or a search that has passed one parent more. -/
def round (nodes : List (Node K)) (ancestor : String) (a : Ascent K) : Bool ⊕ Ascent K :=
  match a.current with
  | none => .inl false
  | some n =>
    match n.parent with
    | none => .inl false
    | some parent =>
      if parent = ancestor then .inl true
      else if nodes.length < a.passed + 1 then .inl false
      else .inr ⟨Node.first? nodes parent, a.passed + 1⟩

/-- The search ends in its last of so many rounds, with this answer. -/
inductive Ends (nodes : List (Node K)) (ancestor : String) : Nat → Ascent K → Bool → Prop
  | last {a : Ascent K} {answer : Bool} : a.round nodes ancestor = .inl answer →
      Ends nodes ancestor 1 a answer
  | next {a b : Ascent K} {rounds : Nat} {answer : Bool} : a.round nodes ancestor = .inr b →
      Ends nodes ancestor rounds b answer → Ends nodes ancestor (rounds + 1) a answer

/-! ### One round -/

theorem round_of_top (h : Node.parentOf? nodes id = none) :
    round nodes ancestor ⟨Node.first? nodes id, passed⟩ = .inl false := by
  rw [round]
  cases hn : Node.first? nodes id with
  | none => rfl
  | some n =>
      have hparent : n.parent = none := (Node.parentOf?_of_first? hn).symm.trans h
      simp [hparent]

theorem round_of_parent {parent : String} (h : Node.parentOf? nodes id = some parent) :
    round nodes ancestor ⟨Node.first? nodes id, passed⟩ =
      if parent = ancestor then .inl true
      else if nodes.length < passed + 1 then .inl false
      else .inr ⟨Node.first? nodes parent, passed + 1⟩ := by
  obtain ⟨n, hn, hparent⟩ := Node.parentOf?_eq_some.mp h
  rw [round, hn]
  simp [hparent]

/-! ### The whole search -/

/-- There is one way to go on, so a search does not end in two ways. -/
theorem Ends.unique (h : Ends nodes ancestor rounds a answer)
    (h' : Ends nodes ancestor rounds' a answer') : rounds = rounds' ∧ answer = answer' := by
  induction h generalizing rounds' answer' with
  | last hround =>
      cases h' with
      | last hround' => exact ⟨rfl, Sum.inl.inj (hround.symm.trans hround')⟩
      | next hround' => cases hround.symm.trans hround'
  | next hround _ ih =>
      cases h' with
      | last hround' => cases hround.symm.trans hround'
      | next hround' hrest =>
          obtain rfl := Sum.inr.inj (hround.symm.trans hround')
          obtain ⟨rfl, rfl⟩ := ih hrest
          exact ⟨rfl, rfl⟩

theorem ends_of_top (h : Node.parentOf? nodes id = none) (steps : Nat) :
    Ends nodes ancestor 1 ⟨Node.first? nodes id, passed⟩
      (reaches nodes ancestor (steps + 1) id) := by
  rw [reaches, h]
  exact .last (round_of_top h)

theorem ends_of_found (h : Node.parentOf? nodes id = some ancestor) (steps : Nat) :
    Ends nodes ancestor 1 ⟨Node.first? nodes id, passed⟩
      (reaches nodes ancestor (steps + 1) id) := by
  rw [reaches, h]
  refine .last ?_
  rw [round_of_parent h, if_pos rfl]
  simp

/-- A search that may pass `left` parents more answers as a walk of one step more than that. Every
round that does not end it leaves one less, and this bounds the rounds. -/
theorem exists_ends {left : Nat} (h : passed + left = nodes.length) :
    ∃ rounds ≤ left + 1, Ends nodes ancestor rounds ⟨Node.first? nodes id, passed⟩
      (reaches nodes ancestor (left + 1) id) := by
  induction left generalizing id passed with
  | zero =>
      cases hparent : Node.parentOf? nodes id with
      | none => exact ⟨1, le_rfl, ends_of_top hparent 0⟩
      | some parent =>
          by_cases hfound : parent = ancestor
          · exact ⟨1, le_rfl, ends_of_found (hfound ▸ hparent) 0⟩
          · have hgiveUp : nodes.length < passed + 1 := by omega
            refine ⟨1, le_rfl, .last ?_⟩
            rw [round_of_parent hparent, if_neg hfound, if_pos hgiveUp]
            simp [reaches, hparent, hfound]
  | succ left ih =>
      cases hparent : Node.parentOf? nodes id with
      | none => exact ⟨1, by omega, ends_of_top hparent _⟩
      | some parent =>
          by_cases hfound : parent = ancestor
          · exact ⟨1, by omega, ends_of_found (hfound ▸ hparent) _⟩
          · have hgoOn : ¬ nodes.length < passed + 1 := by omega
            have hround : round nodes ancestor ⟨Node.first? nodes id, passed⟩ =
                .inr ⟨Node.first? nodes parent, passed + 1⟩ := by
              rw [round_of_parent hparent, if_neg hfound, if_neg hgoOn]
            obtain ⟨rounds, hle, hends⟩ : ∃ rounds ≤ left + 1, Ends nodes ancestor rounds
                ⟨Node.first? nodes parent, passed + 1⟩ (reaches nodes ancestor (left + 1) parent) :=
              ih (by omega)
            have hanswer : reaches nodes ancestor (left + 1 + 1) id =
                reaches nodes ancestor (left + 1) parent := by
              rw [reaches, hparent]
              simp [hfound]
            rw [hanswer]
            exact ⟨rounds + 1, by omega, .next hround hends⟩

end Ascent

/-- In any list, and for any two ids, the search for an ancestor ends, in one way only and in at most
one round more than there are nodes. It answers yes exactly if one or more steps from a node to its
parent lead from the one id to the other. That it gives up makes no difference: the answer is the
same for every number of steps that is not less than that of the nodes. -/
theorem ascent_tells_below (nodes : List (Node K)) (id ancestor : String) :
    (∃ rounds ≤ nodes.length + 1, ∀ k answer,
        (Ascent.start nodes id).Ends nodes ancestor k answer ↔
          k = rounds ∧ answer = isBelow nodes id ancestor) ∧
      (isBelow nodes id ancestor = true ↔ Below nodes id ancestor) ∧
      ∀ more, reaches nodes ancestor (nodes.length + more) id = isBelow nodes id ancestor := by
  have hbelow : isBelow nodes id ancestor = true ↔ Below nodes id ancestor := isBelow_iff
  refine ⟨?_, hbelow, fun more => ?_⟩
  · obtain ⟨rounds, hle, hends⟩ : ∃ rounds ≤ nodes.length + 1,
        (Ascent.start nodes id).Ends nodes ancestor rounds (isBelow nodes id ancestor) :=
      Ascent.exists_ends (Nat.zero_add nodes.length)
    refine ⟨rounds, hle, fun k answer => ⟨fun h => h.unique hends, ?_⟩⟩
    rintro ⟨rfl, rfl⟩
    exact hends
  · rw [Bool.eq_iff_iff, hbelow]
    exact reaches_length_add more

/-- A chain of three nodes, the last of which names a parent that is no node. Two steps are too few
for it, and three are enough. -/
example :
    let node (id parent : String) : Node Rat :=
      { id, kind := .batch, position := ⟨0, 0⟩, parent := some parent }
    let chain := [node "a" "b", node "b" "c", node "c" "top"]
    reaches chain "top" 2 "a" = false ∧ reaches chain "top" 3 "a" = true ∧
      isBelow chain "a" "top" = true := by
  decide

end WorkflowCanvas.Nesting
