import Mathlib.Data.List.Nodup
import Mathlib.Data.List.Perm.Basic
import WorkflowCanvas.Nesting.Lineage

/-!
Finding nodes by their ids.

A list may name an id more than once, and then the first and the last node with
an id differ. Where the ids are distinct, both are the node that has the id, and
it does not matter in which order the nodes stand.
-/

namespace WorkflowCanvas.Node

variable {K : Type} {nodes nodes' : List (Node K)} {n : Node K} {id : String}

theorem mem_of_first? (h : first? nodes id = some n) : n ∈ nodes ∧ n.id = id :=
  ⟨List.mem_of_find?_eq_some h, by simpa using List.find?_some h⟩

theorem first?_eq_none : first? nodes id = none ↔ id ∉ nodes.map Node.id := by
  simp [first?]

theorem exists_first? (h : id ∈ nodes.map Node.id) : ∃ n, first? nodes id = some n := by
  cases hf : first? nodes id with
  | none => exact absurd h (first?_eq_none.mp hf)
  | some n => exact ⟨n, rfl⟩

theorem mem_ids_of_first? (h : first? nodes id = some n) : id ∈ nodes.map Node.id := by
  obtain ⟨hn, rfl⟩ := mem_of_first? h
  exact List.mem_map_of_mem hn

theorem isSome_first? : (first? nodes id).isSome = true ↔ id ∈ nodes.map Node.id := by
  rw [Option.isSome_iff_ne_none, ne_eq, first?_eq_none, not_not]

theorem parentOf?_of_first? (h : first? nodes id = some n) : parentOf? nodes id = n.parent := by
  rw [parentOf?, h, Option.bind_some]

theorem parentOf?_eq_some {parent : String} :
    parentOf? nodes id = some parent ↔ ∃ n, first? nodes id = some n ∧ n.parent = some parent := by
  simp [parentOf?, Option.bind_eq_some_iff]

/-- A parent that is found is the node that the parent id names. -/
theorem mem_and_parent_of_bind {parent : Node K}
    (h : n.parent.bind (first? nodes) = some parent) :
    parent ∈ nodes ∧ n.parent = some parent.id := by
  obtain ⟨_, hid, hfirst⟩ := Option.bind_eq_some_iff.mp h
  obtain ⟨hmem, rfl⟩ := mem_of_first? hfirst
  exact ⟨hmem, hid⟩

theorem mem_ids_of_parentOf? {parent : String} (h : parentOf? nodes id = some parent) :
    id ∈ nodes.map Node.id := by
  obtain ⟨n, hn, _⟩ := parentOf?_eq_some.mp h
  exact mem_ids_of_first? hn

/-! ### Distinct ids -/

theorem eq_of_id_eq (hnd : (nodes.map Node.id).Nodup) {m : Node K} (hm : m ∈ nodes)
    (hn : n ∈ nodes) (h : m.id = n.id) : m = n :=
  List.inj_on_of_nodup_map hnd hm hn h

theorem first?_eq_some_iff (hnd : (nodes.map Node.id).Nodup) :
    first? nodes id = some n ↔ n ∈ nodes ∧ n.id = id := by
  constructor
  · exact mem_of_first?
  · rintro ⟨hn, rfl⟩
    obtain ⟨m, hm⟩ := exists_first? (List.mem_map_of_mem (f := Node.id) hn)
    obtain ⟨hmem, hid⟩ := mem_of_first? hm
    rwa [eq_of_id_eq hnd hmem hn hid] at hm

theorem first?_of_mem (hnd : (nodes.map Node.id).Nodup) (hn : n ∈ nodes) :
    first? nodes n.id = some n :=
  (first?_eq_some_iff hnd).mpr ⟨hn, rfl⟩

theorem parentOf?_of_mem (hnd : (nodes.map Node.id).Nodup) (hn : n ∈ nodes) :
    parentOf? nodes n.id = n.parent := by
  simp [parentOf?, first?_of_mem hnd hn]

theorem first?_perm (hnd : (nodes.map Node.id).Nodup) (hperm : nodes'.Perm nodes) :
    first? nodes' id = first? nodes id := by
  have hnd' : (nodes'.map Node.id).Nodup := (hperm.map Node.id).nodup_iff.mpr hnd
  ext n
  simp [first?_eq_some_iff hnd, first?_eq_some_iff hnd', hperm.mem_iff]

theorem parentOf?_perm (hnd : (nodes.map Node.id).Nodup) (hperm : nodes'.Perm nodes) :
    parentOf? nodes' id = parentOf? nodes id := by
  simp [parentOf?, first?_perm hnd hperm]

theorem last?_eq_first? (hnd : (nodes.map Node.id).Nodup) : last? nodes id = first? nodes id :=
  first?_perm hnd nodes.reverse_perm

end WorkflowCanvas.Node
