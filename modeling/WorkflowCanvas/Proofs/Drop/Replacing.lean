import WorkflowCanvas.Proofs.Drop.Decision

/-!
Replacing one node of a list.

A replacement keeps the ids and their order. It keeps a well nested list well nested
if the new node is of the same kind and its parent, if it has one, is a batch that is
neither the node itself nor below it.
-/

namespace WorkflowCanvas.Drop

variable {K : Type} {nodes : List (Node K)} {m n : Node K} {id : String}

theorem mem_replace : n ∈ replace nodes m ↔
    (n = m ∧ m.id ∈ nodes.map Node.id) ∨ (n ∈ nodes ∧ n.id ≠ m.id) := by
  simp only [replace, List.mem_map]
  constructor
  · rintro ⟨old, hold, rfl⟩
    split
    · rename_i hid
      exact .inl ⟨rfl, old, hold, hid⟩
    · rename_i hid
      exact .inr ⟨hold, hid⟩
  · rintro (⟨rfl, old, hold, hid⟩ | ⟨hn, hid⟩)
    · exact ⟨old, hold, if_pos hid⟩
    · exact ⟨n, hn, if_neg hid⟩

theorem mem_replace_of_ne (h : n.id ≠ m.id) : n ∈ replace nodes m ↔ n ∈ nodes := by
  rw [mem_replace]
  constructor
  · rintro (⟨rfl, _⟩ | ⟨hn, _⟩)
    · exact absurd rfl h
    · exact hn
  · exact fun hn => .inr ⟨hn, h⟩

theorem getElem?_replace (i : Nat) :
    (replace nodes m)[i]? = nodes[i]?.map fun n => if n.id = m.id then m else n :=
  List.getElem?_map

@[simp] theorem map_id_replace : (replace nodes m).map Node.id = nodes.map Node.id := by
  rw [replace, List.map_map]
  refine List.map_congr_left fun n _ => ?_
  simp only [Function.comp_apply]
  split
  · rename_i hid
    exact hid.symm
  · rfl

theorem first?_replace : Node.first? (replace nodes m) id =
    if id = m.id then (Node.first? nodes id).map fun _ => m else Node.first? nodes id := by
  induction nodes with
  | nil => simp [replace, Node.first?]
  | cons n nodes ih =>
      have hcons : ∀ (x : Node K) (rest : List (Node K)), Node.first? (x :: rest) id =
          if x.id = id then some x else Node.first? rest id := by
        intro x rest
        rw [Node.first?, List.find?_cons]
        by_cases hx : x.id = id
        · simp [hx]
        · simp [hx, Node.first?]
      rw [replace, List.map_cons, ← replace, hcons, hcons, ih]
      by_cases hn : n.id = m.id
      · by_cases hid : id = m.id
        · simp [hn, hid]
        · simp [hn, hid, Ne.symm hid]
      · by_cases hid : id = m.id
        · simp [hn, hid]
        · simp [hn, hid]

theorem first?_replace_of_ne (h : id ≠ m.id) :
    Node.first? (replace nodes m) id = Node.first? nodes id := by
  rw [first?_replace, if_neg h]

theorem first?_replace_self (h : m.id ∈ nodes.map Node.id) :
    Node.first? (replace nodes m) m.id = some m := by
  obtain ⟨n, hn⟩ := Node.exists_first? h
  rw [first?_replace, if_pos rfl, hn, Option.map_some]

theorem parentOf?_replace_of_ne (h : id ≠ m.id) :
    Node.parentOf? (replace nodes m) id = Node.parentOf? nodes id := by
  rw [Node.parentOf?, first?_replace_of_ne h, Node.parentOf?]

theorem parentOf?_replace_self (h : m.id ∈ nodes.map Node.id) :
    Node.parentOf? (replace nodes m) m.id = m.parent := by
  rw [Node.parentOf?, first?_replace_self h, Option.bind_some]

theorem replace_replace {m' : Node K} (h : m'.id = m.id) :
    replace (replace nodes m) m' = replace nodes m' := by
  simp only [replace, List.map_map]
  refine List.map_congr_left fun n _ => ?_
  simp only [Function.comp_apply, h]
  split
  · simp
  · rfl

theorem replace_eq_self (hnd : (nodes.map Node.id).Nodup) (hm : m ∈ nodes) :
    replace nodes m = nodes := by
  rw [replace]
  refine (List.map_congr_left fun n hn => ?_).trans nodes.map_id
  split
  · rename_i hid
    exact Node.eq_of_id_eq hnd hm hn hid.symm
  · rfl

/-- A batch that can be the parent of the node `id` without closing a circle. -/
def IsFreeParent (nodes : List (Node K)) (id parent : String) : Prop :=
  (∃ p ∈ nodes, p.id = parent ∧ p.isBatch) ∧ parent ≠ id ∧ ¬ Nesting.Below nodes parent id

theorem isFreeParent_of_wellNested (h : Nesting.WellNested nodes) (hn : n ∈ nodes)
    {parent : String} (hparent : n.parent = some parent) : IsFreeParent nodes n.id parent := by
  have hup : Node.parentOf? nodes n.id = some parent := by
    rw [Node.parentOf?_of_mem h.distinct hn, hparent]
  refine ⟨h.parents n hn parent hparent, ?_, fun hbelow => h.acyclic n.id (.head hup hbelow)⟩
  rintro rfl
  exact h.acyclic.parent_ne hup

theorem wellNested_replace (h : Nesting.WellNested nodes) (hn : n ∈ nodes) (hid : n.id = m.id)
    (hkind : n.kind = m.kind)
    (hparent : ∀ parent, m.parent = some parent → IsFreeParent nodes m.id parent) :
    Nesting.WellNested (replace nodes m) := by
  have hlisted : m.id ∈ nodes.map Node.id := hid ▸ List.mem_map_of_mem hn
  -- a batch stays one, also the one that is replaced
  have hbatches : ∀ parent, (∃ p ∈ nodes, p.id = parent ∧ p.isBatch) →
      ∃ p ∈ replace nodes m, p.id = parent ∧ p.isBatch := by
    rintro parent ⟨p, hp, rfl, hbatch⟩
    by_cases hpid : p.id = m.id
    · obtain rfl : p = n := Node.eq_of_id_eq h.distinct hp hn (hpid.trans hid.symm)
      refine ⟨m, mem_replace.mpr (.inl ⟨rfl, hlisted⟩), hid.symm, ?_⟩
      simpa [Node.isBatch, ← hkind] using hbatch
    · exact ⟨p, (mem_replace_of_ne hpid).mpr hp, rfl, hbatch⟩
  refine ⟨?_, ?_, ?_⟩
  · rw [map_id_replace]
    exact h.distinct
  · intro x hx parent hxparent
    rcases mem_replace.mp hx with ⟨rfl, _⟩ | ⟨hx, _⟩
    · exact hbatches parent (hparent parent hxparent).1
    · exact hbatches parent (h.parents x hx parent hxparent)
  · refine h.acyclic.reparent (fun id (hne : id ≠ m.id) => parentOf?_replace_of_ne hne) ?_
    intro parent hup
    rw [parentOf?_replace_self hlisted] at hup
    exact (hparent parent hup).2

end WorkflowCanvas.Drop
