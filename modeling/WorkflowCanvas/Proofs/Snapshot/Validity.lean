import WorkflowCanvas.Proofs.Nesting.Order
import WorkflowCanvas.Proofs.Nesting.Search
import WorkflowCanvas.Snapshot.Compile

/-!
What the checks of a snapshot amount to.

The checks find no fault exactly in the valid snapshots. The stored form of a valid
snapshot is valid too, has its parents in front, and is its own stored form: checking
it once more changes nothing.
-/

namespace WorkflowCanvas.Snapshot

variable {K : Type} {w snapshot : Workflow K}

/-- A snapshot that can be stored. -/
structure Valid (w : Workflow K) : Prop where
  name : ∃ c ∈ w.name.toList, Text.isBlankChar c = false
  nested : Nesting.WellNested w.nodes
  edges : ∀ e ∈ w.edges,
    e.wiring.source ∈ w.nodes.map Node.id ∧ e.wiring.target ∈ w.nodes.map Node.id

/-- A snapshot in its stored form. -/
structure Stored (w : Workflow K) : Prop extends Valid w where
  inOrder : Nesting.ParentsFirst w.nodes

/-- The stored form of a valid snapshot. -/
def arrange (w : Workflow K) : Workflow K := { w with nodes := Nesting.parentsFirst w.nodes }

/-! ### Each check -/

theorem isBlank_eq_false_iff {s : String} :
    Text.isBlank s = false ↔ ∃ c ∈ s.toList, Text.isBlankChar c = false := by
  simp [Text.isBlank]

theorem repeated?_eq_none_iff {before ids : List String} :
    repeated? before ids = none ↔ ids.Nodup ∧ ∀ id ∈ ids, id ∉ before := by
  induction ids generalizing before with
  | nil => simp [repeated?]
  | cons id ids ih =>
      rw [repeated?]
      split
      · rename_i hmem
        simp [hmem]
      · rename_i hnew
        rw [ih, List.nodup_cons]
        grind

theorem parentFault?_eq_none_iff {nodes : List (Node K)} {n : Node K} :
    parentFault? nodes n = none ↔
      ∀ parent, n.parent = some parent → ∃ p, Node.first? nodes parent = some p ∧ p.isBatch := by
  cases hparent : n.parent with
  | none => simp [parentFault?, hparent]
  | some parent =>
      cases hp : Node.first? nodes parent with
      | none => simp [parentFault?, hparent, hp]
      | some p => simp [parentFault?, hparent, hp]

theorem edgeFault?_eq_none_iff {nodes : List (Node K)} {e : Edge} :
    edgeFault? nodes e = none ↔
      e.wiring.source ∈ nodes.map Node.id ∧ e.wiring.target ∈ nodes.map Node.id := by
  simp only [edgeFault?, List.findSome?_eq_none_iff, List.forall_mem_cons, List.not_mem_nil,
    false_imp_iff, implies_true, and_true, ite_eq_left_iff, reduceCtorEq, imp_false, not_not,
    Node.isSome_first?]

/-- The endpoints of edges are checked against the ids of the nodes only. -/
theorem edgeFault?_congr {nodes nodes' : List (Node K)}
    (h : ∀ id, id ∈ nodes'.map Node.id ↔ id ∈ nodes.map Node.id) (e : Edge) :
    edgeFault? nodes' e = edgeFault? nodes e := by
  simp only [edgeFault?, Node.isSome_first?, h]

theorem dangling_of_edgeFault? {nodes : List (Node K)} {e : Edge} {fault : Fault}
    (h : edgeFault? nodes e = some fault) :
    ¬ (e.wiring.source ∈ nodes.map Node.id ∧ e.wiring.target ∈ nodes.map Node.id) :=
  fun hends => Option.some_ne_none fault (h.symm.trans (edgeFault?_eq_none_iff.mpr hends))

/-! ### All checks -/

theorem fault?_eq_none_iff : fault? w = none ↔ Valid w := by
  have hstages : fault? w = none ↔ Text.isBlank w.name = false ∧ (w.nodes.map Node.id).Nodup ∧
      (∀ n ∈ w.nodes, parentFault? w.nodes n = none) ∧ Nesting.cycle? w.nodes = none ∧
      ∀ e ∈ w.edges, edgeFault? w.nodes e = none := by
    simp [fault?, repeated?_eq_none_iff]
  rw [hstages, isBlank_eq_false_iff]
  constructor
  · rintro ⟨hname, hnd, hparents, hcycle, hedges⟩
    refine ⟨hname, ⟨hnd, ?_, Nesting.acyclic_of_cycle? hnd hcycle⟩,
      fun e he => edgeFault?_eq_none_iff.mp (hedges e he)⟩
    intro n hn parent hparent
    obtain ⟨p, hp, hbatch⟩ := parentFault?_eq_none_iff.mp (hparents n hn) parent hparent
    obtain ⟨hmem, hid⟩ := Node.mem_of_first? hp
    exact ⟨p, hmem, hid, hbatch⟩
  · intro h
    have hnd := h.nested.distinct
    refine ⟨h.name, hnd, fun n hn => parentFault?_eq_none_iff.mpr ?_, ?_,
      fun e he => edgeFault?_eq_none_iff.mpr (h.edges e he)⟩
    · intro parent hparent
      obtain ⟨p, hmem, hid, hbatch⟩ := h.nested.parents n hn parent hparent
      exact ⟨p, (Node.first?_eq_some_iff hnd).mpr ⟨hmem, hid⟩, hbatch⟩
    · exact (Nesting.cycle?_eq_none_iff hnd fun _ _ => h.nested.parent_mem_ids).mpr
        h.nested.acyclic

/-- The fault of a valid snapshot with one more edge is that of the edge. -/
theorem Valid.fault?_append_edge (h : Valid w) (e : Edge) :
    fault? { w with edges := w.edges ++ [e] } = edgeFault? w.nodes e := by
  have hnone := fault?_eq_none_iff.mpr h
  simp only [fault?, Option.orElse_eq_orElse, Option.orElse_eq_or, Option.or_eq_none_iff] at hnone
  obtain ⟨hname, hrepeated, hparents, hcycle, hedges⟩ := hnone
  simp [fault?, hname, hrepeated, hparents, hcycle, hedges, List.findSome?_append]

theorem compile_eq_ok_iff :
    compile w = .ok snapshot ↔ Valid w ∧ snapshot = arrange w := by
  rw [compile, ← fault?_eq_none_iff]
  cases fault? w with
  | none => simp [arrange, eq_comm]
  | some f => simp

theorem Valid.compile (h : Valid w) : compile w = .ok (arrange w) :=
  compile_eq_ok_iff.mpr ⟨h, rfl⟩

/-! ### The stored form -/

theorem Valid.perm (h : Valid w) {nodes : List (Node K)} (hperm : nodes.Perm w.nodes) :
    Valid { w with nodes } where
  name := h.name
  nested := h.nested.perm hperm
  edges := by
    intro e he
    have hids : ∀ id, id ∈ nodes.map Node.id ↔ id ∈ w.nodes.map Node.id :=
      fun id => (hperm.map Node.id).mem_iff
    simpa only [hids] using h.edges e he

theorem Valid.stored (h : Valid w) : Stored (arrange w) where
  toValid := h.perm (Nesting.parentsFirst_perm h.nested.distinct h.nested.acyclic)
  inOrder := Nesting.parentsFirst_inOrder h.nested.distinct h.nested.acyclic

theorem Stored.withEdges (h : Stored w) {edges : List Edge} (hedges : ∀ e ∈ edges,
    e.wiring.source ∈ w.nodes.map Node.id ∧ e.wiring.target ∈ w.nodes.map Node.id) :
    Stored { w with edges } :=
  { name := h.name, nested := h.nested, edges := hedges, inOrder := h.inOrder }

theorem Stored.arrange (h : Stored w) : arrange w = w := by
  rw [Snapshot.arrange, Nesting.parentsFirst_eq_self h.nested.distinct h.inOrder]

end WorkflowCanvas.Snapshot
