import WorkflowCanvas.Proofs.Drop.Replacing
import WorkflowCanvas.Proofs.Snapshot.Validity

/-!
A drop keeps a snapshot valid.

All that a drop changes about nesting is the parent of the dropped node, and a new
parent is a candidate: a batch that is neither the node itself nor below it. So
nothing is assumed about the layout.
-/

namespace WorkflowCanvas.Drop

variable {K : Type} [Scalar K] {layout : Layout K} {mode : Containment} {dropped n : Node K}
  {nodes : List (Node K)} {t : Transition K}

theorem isFreeParent_of_resolve (h : resolve layout mode dropped nodes = some t)
    {parent : String} (hparent : t.parent = some parent) :
    IsFreeParent nodes dropped.id parent := by
  obtain ⟨c, hc, rfl⟩ := exists_container_of_resolve h hparent
  obtain ⟨p, hp, htakes⟩ := mem_containers.mp hc
  rw [htakes.sameId]
  exact ⟨⟨p, hp, rfl, htakes.batch⟩, htakes.other, htakes.notBelow⟩

theorem wellNested_evaluate (h : Nesting.WellNested nodes) (hn : n ∈ nodes)
    (hid : n.id = dropped.id) (hkind : n.kind = dropped.kind) :
    Nesting.WellNested (evaluate layout mode dropped nodes) := by
  rw [evaluate]
  split
  · rename_i t ht
    exact wellNested_replace h hn hid hkind fun parent hparent =>
      isFreeParent_of_resolve ht hparent
  · exact h

@[simp] theorem map_id_evaluate :
    (evaluate layout mode dropped nodes).map Node.id = nodes.map Node.id := by
  rw [evaluate]
  split
  · exact map_id_replace
  · rfl

/-- Whatever the layout answers, a well nested list is well nested after the drop of one
of its nodes, wherever that is dropped, and a workflow that could be stored can be stored
with the nodes after the drop. -/
theorem evaluate_keeps_nesting (layout : Layout K) (mode : Containment) (dropped : Node K)
    (nodes : List (Node K)) (h : Nesting.WellNested nodes)
    (hdropped : ∃ n ∈ nodes, n.id = dropped.id ∧ n.kind = dropped.kind) :
    Nesting.WellNested (evaluate layout mode dropped nodes) ∧
      ∀ w : Workflow K, w.nodes = nodes → (∃ snapshot, Snapshot.compile w = .ok snapshot) →
        ∃ snapshot, Snapshot.compile { w with nodes := evaluate layout mode dropped nodes } =
          .ok snapshot := by
  obtain ⟨n, hn, hid, hkind⟩ := hdropped
  have hnested : Nesting.WellNested (evaluate layout mode dropped nodes) :=
    wellNested_evaluate h hn hid hkind
  refine ⟨hnested, ?_⟩
  rintro w rfl ⟨snapshot, hcompile⟩
  have hvalid := (Snapshot.compile_eq_ok_iff.mp hcompile).1
  have hnext : Snapshot.Valid { w with nodes := evaluate layout mode dropped w.nodes } := by
    refine ⟨hvalid.name, hnested, ?_⟩
    simpa only [map_id_evaluate] using hvalid.edges
  exact ⟨_, hnext.compile⟩

/-- A layout in which every node lies in every area. -/
def everywhere : Layout Rat where
  live? _ := none
  absolute? _ := some ⟨0, 0⟩
  liesIn _ _ _ := true

/-- Three batches in each other, and one apart that stands in front of them. -/
def nestedFlow : Workflow Rat :=
  let batch (id : String) : Node Rat :=
    { id, kind := .batch, position := ⟨0, 0⟩, measured := some ⟨some 1, some 1⟩ }
  { id := "flow", name := "Flow"
    nodes :=
      [batch "apart", batch "outer", (batch "middle").withParent "outer",
        (batch "inner").withParent "middle"] }

/-- The outermost batch, dropped where it lies in every other, ends in the one apart. -/
theorem evaluate_keeps_nesting_everywhere :
    ∃ outer ∈ nestedFlow.nodes,
      Node.parentOf? (evaluate everywhere .full outer nestedFlow.nodes) "outer" = some "apart" ∧
        Nesting.WellNested (evaluate everywhere .full outer nestedFlow.nodes) ∧
        ∃ snapshot, Snapshot.compile
          { nestedFlow with nodes := evaluate everywhere .full outer nestedFlow.nodes } =
            .ok snapshot := by
  have hfault : Snapshot.fault? nestedFlow = none := by decide
  have hvalid := Snapshot.fault?_eq_none_iff.mp hfault
  have houter : nestedFlow.nodes[1] ∈ nestedFlow.nodes := List.getElem_mem _
  obtain ⟨hnested, hcompile⟩ := evaluate_keeps_nesting everywhere .full nestedFlow.nodes[1]
    nestedFlow.nodes hvalid.nested ⟨nestedFlow.nodes[1], houter, rfl, rfl⟩
  exact ⟨nestedFlow.nodes[1], houter, by decide, hnested,
    hcompile nestedFlow rfl ⟨_, hvalid.compile⟩⟩

end WorkflowCanvas.Drop
