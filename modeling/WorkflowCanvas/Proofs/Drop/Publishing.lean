import WorkflowCanvas.Proofs.Drop.Validity

/-!
What a drop rewrites and what it publishes.

A drop can be asked for in three ways: for the decision alone, for the list after it, and for that
list to be handed on if there is a decision. Each decides anew, and all of them agree. The list
after a drop is rewritten in the places of the dropped node only, wherever and however often the
list has its id. Nothing is asked of the list or of the layout.
-/

namespace WorkflowCanvas.Drop

variable {K : Type} [Scalar K] {layout : Layout K} {mode : Containment} {dropped : Node K}
  {nodes : List (Node K)}

/-! ### Publishing -/

/-- An update function that keeps what it is given behind what it was given before. -/
def record (next : List (Node K)) : StateM (List (List (Node K))) Unit :=
  modify fun calls => calls ++ [next]

/-- What the update function is given by a drop, call by call. -/
def published (layout : Layout K) (mode : Containment) (dropped : Node K)
    (nodes : List (Node K)) : List (List (Node K)) :=
  ((announce layout mode dropped nodes record).run []).2

/-- Whatever the update function does, a drop calls it once or not at all. -/
theorem announce_eq {m : Type → Type} [Monad m] (publish : List (Node K) → m Unit) :
    announce layout mode dropped nodes publish =
      if (resolve layout mode dropped nodes).isSome then
        publish (evaluate layout mode dropped nodes)
      else pure () := by
  rw [announce, evaluate]
  cases resolve layout mode dropped nodes <;> rfl

theorem published_eq : published layout mode dropped nodes =
    if (resolve layout mode dropped nodes).isSome then [evaluate layout mode dropped nodes]
    else [] := by
  rw [published, announce_eq]
  split <;> rfl

/-! ### The list after a drop -/

/-- What a drop makes of a list when this is decided. All nodes keep their places and ids. Nodes
with another id than the dropped one stay as they are, and those with its id become the dropped node
with the parent and the position decided on. Without a decision nothing changes. -/
structure Rewrites (dropped : Node K) (decided : Option (Transition K))
    (before after : List (Node K)) : Prop where
  ids : after.map Node.id = before.map Node.id
  others : ∀ (i : Nat) (n : Node K), before[i]? = some n → n.id ≠ dropped.id → after[i]? = some n
  moved : ∀ t, decided = some t → ∀ (i : Nat) (n : Node K), before[i]? = some n →
    n.id = dropped.id → after[i]? = some { dropped with parent := t.parent, position := t.position }
  kept : decided = none → after = before

theorem rewrites_evaluate : Rewrites dropped (resolve layout mode dropped nodes) nodes
    (evaluate layout mode dropped nodes) where
  ids := map_id_evaluate
  others := by
    intro i n hn hid
    rw [evaluate]
    split
    · rename_i t ht
      have hother : n.id ≠ (t.apply dropped).id := hid
      rw [getElem?_replace, hn, Option.map_some, if_neg hother]
    · exact hn
  moved := by
    intro t ht i n hn hid
    have hsame : n.id = (t.apply dropped).id := hid
    rw [evaluate, ht]
    dsimp only
    rw [getElem?_replace, hn, Option.map_some, if_pos hsame]
    rfl
  kept := by
    intro hnone
    rw [evaluate, hnone]

/-- Whatever the layout answers and whatever the list holds, the three ways to ask for a drop agree.
The update function is called once if there is a decision and not at all if there is none, and it is
given the list after the drop. That list has the ids of the one before in their order. It differs
from it in the places of the dropped id only, and only by what was decided. -/
theorem drop_rewrites_dropped (layout : Layout K) (mode : Containment) (dropped : Node K)
    (nodes : List (Node K)) :
    (∀ {m : Type → Type} [Monad m] (publish : List (Node K) → m Unit),
        announce layout mode dropped nodes publish =
          if (resolve layout mode dropped nodes).isSome then
            publish (evaluate layout mode dropped nodes)
          else pure ()) ∧
      (published layout mode dropped nodes).length ≤ 1 ∧
      (published layout mode dropped nodes ≠ [] ↔
        ∃ t, resolve layout mode dropped nodes = some t) ∧
      (∀ next ∈ published layout mode dropped nodes, next = evaluate layout mode dropped nodes) ∧
      Rewrites dropped (resolve layout mode dropped nodes) nodes
        (evaluate layout mode dropped nodes) := by
  refine ⟨announce_eq, ?_, ?_, ?_, rewrites_evaluate⟩
  · rw [published_eq]
    split <;> simp
  · rw [published_eq, ← Option.isSome_iff_exists]
    split <;> simp [*]
  · rw [published_eq]
    split <;> simp

/-- The dropped id comes twice in the list, and both nodes that have it are rewritten. -/
example :
    let leaf (parent : Option String) : Node Rat :=
      { id := "leaf", kind := .note, position := ⟨5, 5⟩, parent }
    let box : Node Rat :=
      { id := "box", kind := .batch, position := ⟨1, 1⟩, measured := some ⟨some 9, some 9⟩ }
    let nodes := [leaf none, box, leaf (some "box")]
    (published (Scene.layout { nodes }) .full (leaf none) nodes).map (List.map fun n =>
        (n.id, n.parent, n.position)) =
      [[("leaf", some "box", ⟨4, 4⟩), ("box", none, ⟨1, 1⟩), ("leaf", some "box", ⟨4, 4⟩)]] := by
  decide +kernel

end WorkflowCanvas.Drop
