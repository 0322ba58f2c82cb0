import WorkflowCanvas.Proofs.Drop.Landing

/-!
What a transition tells.

The decision on a drop is a transition, but it is not handed on. What is told is found again by
comparing the node before and after. That is the same transition exactly if it starts from the
parent that the node had and ends at another one. Every decision does: a node is never adopted by
the batch that it was just released from.
-/

namespace WorkflowCanvas

namespace Transition

variable {K : Type} {before after n : Node K} {t : Transition K}

/-- The parent that a transition takes a node from. -/
def former : Transition K → Option String
  | adopt _ _ => none
  | release container _ => some container
  | reparent former _ _ => some former

/-! ### Comparing two states of a node -/

theorem between?_eq_none_iff : between? before after = none ↔ before.parent = after.parent := by
  rw [between?]
  cases before.parent <;> cases after.parent <;> simp

/-- What is told is where the node came from and where it went. -/
theorem eq_of_between? (h : between? before after = some t) :
    t.former = before.parent ∧ t.parent = after.parent ∧ t.position = after.position := by
  cases hbefore : before.parent <;> cases hafter : after.parent <;>
    grind [between?, former, parent, position]

/-- Two transitions are the same if they lead from the same parent to the same place. -/
theorem ext_of_former {t' : Transition K} (hformer : t.former = t'.former)
    (hparent : t.parent = t'.parent) (hposition : t.position = t'.position) : t = t' := by
  cases t <;> cases t' <;> simp_all [former, parent, position]

/-- A transition that is applied is told exactly if it changes the parent that the node had. -/
theorem between?_apply_iff :
    between? n (t.apply n) = some t ↔ t.former = n.parent ∧ t.parent ≠ n.parent := by
  constructor
  · intro h
    have hchange : between? n (t.apply n) ≠ none := by simp [h]
    exact ⟨(eq_of_between? h).1, fun hsame => hchange (between?_eq_none_iff.mpr hsame.symm)⟩
  · rintro ⟨hformer, hparent⟩
    cases htold : between? n (t.apply n) with
    | none => exact absurd (between?_eq_none_iff.mp htold).symm hparent
    | some told =>
        obtain ⟨hfrom, hto, hplace⟩ := eq_of_between? htold
        rw [ext_of_former (hfrom.trans hformer.symm) hto hplace]

end Transition

namespace Drop

variable {K : Type} [Scalar K] {layout : Layout K} {mode : Containment} {dropped n : Node K}
  {nodes : List (Node K)} {place : Point K} {t : Transition K}

/-! ### The decision -/

/-- A decision takes the node from the parent that it has to another one. -/
theorem changes_of_resolve (h : resolve layout mode dropped nodes = some t) :
    t.former = dropped.parent ∧ t.parent ≠ dropped.parent := by
  have hdecided : Decided layout mode dropped nodes (resolve layout mode dropped nodes) :=
    resolve_decided (mem_ids_of_resolve h)
  rw [h] at hdecided
  cases hdecided with
  | adopted c hfree =>
      rw [hfree]
      exact ⟨rfl, Option.some_ne_none _⟩
  | released former hformer =>
      rw [hformer]
      exact ⟨rfl, (Option.some_ne_none _).symm⟩
  | reparented former c hformer _ _ htarget =>
      rw [hformer]
      exact ⟨rfl, (target?_eq_some htarget).2.1⟩

theorem between?_apply_of_resolve (h : resolve layout mode dropped nodes = some t) :
    Transition.between? dropped (t.apply dropped) = some t :=
  Transition.between?_apply_iff.mpr (changes_of_resolve h)

/-- What is told of a drop is what was decided. -/
theorem between?_landed :
    Transition.between? n (landed mode nodes n place) = decision mode nodes n place := by
  have hmoved : ∀ after : Node K,
      Transition.between? n after = Transition.between? (moved n place) after := fun _ => rfl
  rw [hmoved, landed]
  split
  · rename_i t hdecision
    rw [hdecision]
    exact between?_apply_of_resolve hdecision
  · rename_i hdecision
    rw [hdecision]
    exact Transition.between?_eq_none_iff.mpr rfl

end Drop

end WorkflowCanvas
