import WorkflowCanvas.Proofs.Snapshot.Validity

/-!
Which fault is told.

A snapshot may be wrong in several ways at once. The fault that is told is that of the first check
that fails: the name, repeated ids, the parents of the nodes, circles of parents, the ends of the
edges. Within a check it is about the first node or edge of its list that fails it. `FirstFault`
says so of the snapshot alone, and so there is one such fault exactly when a snapshot cannot be
stored.
-/

namespace WorkflowCanvas.Snapshot

variable {K : Type} {w : Workflow K} {nodes : List (Node K)} {n : Node K} {e : Edge} {fault : Fault}

/-! ### What nodes and edges have to fulfil -/

/-- The name is made of more than blanks. -/
def Named (w : Workflow K) : Prop := ∃ c ∈ w.name.toList, Text.isBlankChar c = false

/-- The parent of a node, if it names one, is a batch of the list. -/
def Housed (nodes : List (Node K)) (n : Node K) : Prop :=
  ∀ parent, n.parent = some parent → ∃ p ∈ nodes, p.id = parent ∧ p.isBatch

/-- Both ends of an edge are nodes of the list. -/
def Attached (nodes : List (Node K)) (e : Edge) : Prop :=
  e.wiring.source ∈ nodes.map Node.id ∧ e.wiring.target ∈ nodes.map Node.id

/-- The first fault of a snapshot. Every case has passed the checks of the cases before it. -/
inductive FirstFault (w : Workflow K) : Fault → Prop
  | emptyName : ¬ Named w → FirstFault w .emptyName
  | duplicateNode {before after : List (Node K)} {n : Node K} : Named w →
      w.nodes = before ++ n :: after → (before.map Node.id).Nodup → n.id ∈ before.map Node.id →
      FirstFault w (.duplicateNode n.id)
  | unknownParent {before after : List (Node K)} {n : Node K} {parent : String} : Named w →
      (w.nodes.map Node.id).Nodup → w.nodes = before ++ n :: after →
      (∀ m ∈ before, Housed w.nodes m) → n.parent = some parent →
      parent ∉ w.nodes.map Node.id → FirstFault w (.unknownParent n.id parent)
  | parentNotBatch {before after : List (Node K)} {n p : Node K} : Named w →
      (w.nodes.map Node.id).Nodup → w.nodes = before ++ n :: after →
      (∀ m ∈ before, Housed w.nodes m) → n.parent = some p.id → p ∈ w.nodes →
      p.isBatch = false → FirstFault w (.parentNotBatch n.id p.id)
  /-- Of the nodes on a circle, the one that the search comes to is named. -/
  | parentCycle {id : String} : Named w → (w.nodes.map Node.id).Nodup →
      (∀ n ∈ w.nodes, Housed w.nodes n) → Nesting.Below w.nodes id id →
      Nesting.cycle? w.nodes = some id → FirstFault w (.parentCycle id)
  | unknownSource {before after : List Edge} {e : Edge} : Named w →
      Nesting.WellNested w.nodes → w.edges = before ++ e :: after →
      (∀ e' ∈ before, Attached w.nodes e') → e.wiring.source ∉ w.nodes.map Node.id →
      FirstFault w (.unknownEndpoint e.id e.wiring.source)
  | unknownTarget {before after : List Edge} {e : Edge} : Named w →
      Nesting.WellNested w.nodes → w.edges = before ++ e :: after →
      (∀ e' ∈ before, Attached w.nodes e') → e.wiring.source ∈ w.nodes.map Node.id →
      e.wiring.target ∉ w.nodes.map Node.id → FirstFault w (.unknownEndpoint e.id e.wiring.target)

/-! ### Each check -/

theorem isBlank_eq_true_iff : Text.isBlank w.name = true ↔ ¬ Named w := by
  rw [Named, ← isBlank_eq_false_iff, Bool.not_eq_false]

theorem repeated?_eq_some_iff {before ids : List String} {id : String} :
    repeated? before ids = some id ↔ ∃ front back, ids = front ++ id :: back ∧ front.Nodup ∧
      (∀ x ∈ front, x ∉ before) ∧ (id ∈ before ∨ id ∈ front) := by
  induction ids generalizing before with
  | nil => simp [repeated?]
  | cons first rest ih =>
      rw [repeated?]
      constructor
      · intro h
        split at h
        · rename_i hmem
          obtain rfl := Option.some.inj h
          exact ⟨[], rest, rfl, List.nodup_nil, by simp, .inl hmem⟩
        · rename_i hnew
          obtain ⟨front, back, rfl, hnodup, hfresh, hid⟩ := ih.mp h
          refine ⟨first :: front, back, rfl, ?_, ?_, ?_⟩
          · exact List.nodup_cons.mpr ⟨fun hmem => hfresh first hmem List.mem_cons_self, hnodup⟩
          · grind
          · grind
      · rintro ⟨front, back, hsplit, hnodup, hfresh, hid⟩
        cases front with
        | nil =>
            obtain ⟨rfl, rfl⟩ := List.cons.inj hsplit
            rw [if_pos (hid.resolve_right List.not_mem_nil)]
        | cons x front =>
            obtain ⟨rfl, rfl⟩ := List.cons.inj hsplit
            rw [if_neg (hfresh _ List.mem_cons_self)]
            refine ih.mpr ⟨front, back, rfl, (List.nodup_cons.mp hnodup).2, ?_, ?_⟩
            · grind
            · grind

/-- The id that is told is that of the first node whose id an earlier one has. -/
theorem repeated?_ids_eq_some_iff {id : String} :
    repeated? [] (nodes.map Node.id) = some id ↔ ∃ before n after, nodes = before ++ n :: after ∧
      (before.map Node.id).Nodup ∧ n.id ∈ before.map Node.id ∧ n.id = id := by
  rw [repeated?_eq_some_iff]
  constructor
  · rintro ⟨front, back, hsplit, hnodup, -, hid⟩
    obtain ⟨before, rest, rfl, rfl, hrest⟩ := List.map_eq_append_iff.mp hsplit
    obtain ⟨n, after, rfl, rfl, rfl⟩ := List.map_eq_cons_iff.mp hrest
    exact ⟨before, n, after, rfl, hnodup, hid.resolve_left List.not_mem_nil, rfl⟩
  · rintro ⟨before, n, after, rfl, hnodup, hid, rfl⟩
    exact ⟨before.map Node.id, after.map Node.id, by simp, hnodup, by simp, .inr hid⟩

theorem parentFault?_eq_none_iff_housed (hnd : (nodes.map Node.id).Nodup) :
    parentFault? nodes n = none ↔ Housed nodes n := by
  rw [parentFault?_eq_none_iff, Housed]
  simp only [Node.first?_eq_some_iff hnd, and_assoc]

theorem parentFault?_eq_some_iff (hnd : (nodes.map Node.id).Nodup) :
    parentFault? nodes n = some fault ↔
      (∃ parent, n.parent = some parent ∧ parent ∉ nodes.map Node.id ∧
        fault = .unknownParent n.id parent) ∨
      ∃ p ∈ nodes, n.parent = some p.id ∧ p.isBatch = false ∧
        fault = .parentNotBatch n.id p.id := by
  rw [parentFault?, Option.bind_eq_some_iff]
  constructor
  · rintro ⟨parent, hparent, h⟩
    split at h
    · rename_i hmissing
      exact .inl ⟨parent, hparent, Node.first?_eq_none.mp hmissing, (Option.some.inj h).symm⟩
    · rename_i p hp
      obtain ⟨hmem, rfl⟩ := Node.mem_of_first? hp
      split at h
      · cases h
      · rename_i hkind
        exact .inr ⟨p, hmem, hparent, by simpa using hkind, (Option.some.inj h).symm⟩
  · rintro (⟨parent, hparent, hmissing, rfl⟩ | ⟨p, hmem, hparent, hkind, rfl⟩)
    · refine ⟨parent, hparent, ?_⟩
      rw [Node.first?_eq_none.mpr hmissing]
    · refine ⟨p.id, hparent, ?_⟩
      rw [Node.first?_of_mem hnd hmem]
      simp [hkind]

theorem edgeFault?_eq_some_iff : edgeFault? nodes e = some fault ↔
    (e.wiring.source ∉ nodes.map Node.id ∧ fault = .unknownEndpoint e.id e.wiring.source) ∨
      (e.wiring.source ∈ nodes.map Node.id ∧ e.wiring.target ∉ nodes.map Node.id ∧
        fault = .unknownEndpoint e.id e.wiring.target) := by
  simp only [edgeFault?, List.findSome?_cons, List.findSome?_nil, Node.isSome_first?]
  by_cases hsource : e.wiring.source ∈ nodes.map Node.id
  · by_cases htarget : e.wiring.target ∈ nodes.map Node.id
    · simp only [hsource, htarget, if_true, not_true, false_and, and_false, or_false, reduceCtorEq]
    · simp only [hsource, htarget, if_true, if_false, not_true, not_false_eq_true, false_and,
        true_and, false_or, Option.some.injEq, eq_comm]
  · simp only [hsource, if_false, not_false_eq_true, true_and, false_and, or_false,
      Option.some.injEq, eq_comm]

/-! ### All checks -/

theorem findSome?_parentFault?_eq_none_iff (hnd : (w.nodes.map Node.id).Nodup) :
    w.nodes.findSome? (parentFault? w.nodes) = none ↔ ∀ n ∈ w.nodes, Housed w.nodes n := by
  simp only [List.findSome?_eq_none_iff, parentFault?_eq_none_iff_housed hnd]

theorem cycle?_eq_none_iff_of_housed (hnd : (w.nodes.map Node.id).Nodup)
    (hhoused : ∀ n ∈ w.nodes, Housed w.nodes n) :
    Nesting.cycle? w.nodes = none ↔ Nesting.WellNested w.nodes := by
  constructor
  · exact fun h => ⟨hnd, hhoused, Nesting.acyclic_of_cycle? hnd h⟩
  · exact fun h => (Nesting.cycle?_eq_none_iff hnd fun _ _ => h.parent_mem_ids).mpr h.acyclic

theorem firstFault_of_fault? (h : fault? w = some fault) : FirstFault w fault := by
  simp only [fault?, Option.orElse_eq_orElse, Option.orElse_eq_or, Option.or_eq_some_iff] at h
  rcases h with hname | ⟨hname, h⟩
  · obtain ⟨hblank, hfault⟩ := Option.ite_none_right_eq_some.mp hname
    obtain rfl := Option.some.inj hfault
    exact .emptyName (isBlank_eq_true_iff.mp hblank)
  have hnamed : Named w := by simpa [isBlank_eq_true_iff] using hname
  rcases h with hrepeated | ⟨hrepeated, h⟩
  · obtain ⟨id, hid, rfl⟩ := Option.map_eq_some_iff.mp hrepeated
    obtain ⟨before, n, after, hsplit, hnodup, hmem, rfl⟩ := repeated?_ids_eq_some_iff.mp hid
    exact .duplicateNode hnamed hsplit hnodup hmem
  have hnd := (repeated?_eq_none_iff.mp (Option.map_eq_none_iff.mp hrepeated)).1
  rcases h with hparent | ⟨hparent, h⟩
  · obtain ⟨before, n, after, hsplit, hfault, hbefore⟩ := List.findSome?_eq_some_iff.mp hparent
    simp only [parentFault?_eq_none_iff_housed hnd] at hbefore
    rcases (parentFault?_eq_some_iff hnd).mp hfault with
      ⟨parent, hp, hmissing, rfl⟩ | ⟨p, hmem, hp, hkind, rfl⟩
    · exact .unknownParent hnamed hnd hsplit hbefore hp hmissing
    · exact .parentNotBatch hnamed hnd hsplit hbefore hp hmem hkind
  have hhoused := (findSome?_parentFault?_eq_none_iff hnd).mp hparent
  rcases h with hcycle | ⟨hcycle, hedge⟩
  · obtain ⟨id, hid, rfl⟩ := Option.map_eq_some_iff.mp hcycle
    exact .parentCycle hnamed hnd hhoused
      (Nesting.below_of_cycle? hnd (fun _ _ => Nesting.parent_mem_ids_of_parents hhoused) hid) hid
  have hnested := (cycle?_eq_none_iff_of_housed hnd hhoused).mp (Option.map_eq_none_iff.mp hcycle)
  obtain ⟨before, e, after, hsplit, hfault, hbefore⟩ := List.findSome?_eq_some_iff.mp hedge
  simp only [edgeFault?_eq_none_iff] at hbefore
  rcases edgeFault?_eq_some_iff.mp hfault with ⟨hsource, rfl⟩ | ⟨hsource, htarget, rfl⟩
  · exact .unknownSource hnamed hnested hsplit hbefore hsource
  · exact .unknownTarget hnamed hnested hsplit hbefore hsource htarget

theorem FirstFault.fault?_eq (h : FirstFault w fault) : fault? w = some fault := by
  have hname : Named w → Text.isBlank w.name = false := isBlank_eq_false_iff.mpr
  have hdistinct : (w.nodes.map Node.id).Nodup → repeated? [] (w.nodes.map Node.id) = none :=
    fun hnd => repeated?_eq_none_iff.mpr ⟨hnd, by simp⟩
  have hparent : (w.nodes.map Node.id).Nodup → ∀ before n after, w.nodes = before ++ n :: after →
      (∀ m ∈ before, Housed w.nodes m) → parentFault? w.nodes n = some fault →
      w.nodes.findSome? (parentFault? w.nodes) = some fault := by
    intro hnd before n after hsplit hbefore hn
    refine List.findSome?_eq_some_iff.mpr ⟨before, n, after, hsplit, hn, fun m hm => ?_⟩
    exact (parentFault?_eq_none_iff_housed hnd).mpr (hbefore m hm)
  have hedge : ∀ before e after, w.edges = before ++ e :: after →
      (∀ e' ∈ before, Attached w.nodes e') → edgeFault? w.nodes e = some fault →
      w.edges.findSome? (edgeFault? w.nodes) = some fault := by
    intro before e after hsplit hbefore he
    exact List.findSome?_eq_some_iff.mpr
      ⟨before, e, after, hsplit, he, fun e' he' => edgeFault?_eq_none_iff.mpr (hbefore e' he')⟩
  have hnested : Nesting.WellNested w.nodes → repeated? [] (w.nodes.map Node.id) = none ∧
      w.nodes.findSome? (parentFault? w.nodes) = none ∧ Nesting.cycle? w.nodes = none := fun h =>
    ⟨hdistinct h.distinct, (findSome?_parentFault?_eq_none_iff h.distinct).mpr h.parents,
      (cycle?_eq_none_iff_of_housed h.distinct h.parents).mpr h⟩
  cases h with
  | emptyName h => simp [fault?, isBlank_eq_true_iff.mpr h]
  | @duplicateNode before after n h hsplit hnodup hid =>
      have hrepeated := repeated?_ids_eq_some_iff.mpr ⟨before, n, after, hsplit, hnodup, hid, rfl⟩
      simp [fault?, hname h, hrepeated]
  | unknownParent h hnd hsplit hbefore hp hmissing =>
      have hfault := hparent hnd _ _ _ hsplit hbefore
        ((parentFault?_eq_some_iff hnd).mpr (.inl ⟨_, hp, hmissing, rfl⟩))
      simp [fault?, hname h, hdistinct hnd, hfault]
  | parentNotBatch h hnd hsplit hbefore hp hmem hkind =>
      have hfault := hparent hnd _ _ _ hsplit hbefore
        ((parentFault?_eq_some_iff hnd).mpr (.inr ⟨_, hmem, hp, hkind, rfl⟩))
      simp [fault?, hname h, hdistinct hnd, hfault]
  | parentCycle h hnd hhoused _ hcycle =>
      have hparents := (findSome?_parentFault?_eq_none_iff hnd).mpr hhoused
      simp [fault?, hname h, hdistinct hnd, hparents, hcycle]
  | unknownSource h hn hsplit hbefore hsource =>
      obtain ⟨hrepeated, hparents, hcycle⟩ := hnested hn
      have hfault := hedge _ _ _ hsplit hbefore (edgeFault?_eq_some_iff.mpr (.inl ⟨hsource, rfl⟩))
      simp [fault?, hname h, hrepeated, hparents, hcycle, hfault]
  | unknownTarget h hn hsplit hbefore hsource htarget =>
      obtain ⟨hrepeated, hparents, hcycle⟩ := hnested hn
      have hfault := hedge _ _ _ hsplit hbefore
        (edgeFault?_eq_some_iff.mpr (.inr ⟨hsource, htarget, rfl⟩))
      simp [fault?, hname h, hrepeated, hparents, hcycle, hfault]

/-- A workflow is stored exactly if it is valid: it has a name that is not blank, its node ids are
distinct, every parent is a batch of the workflow, parents do not run in a circle, and every end of
an edge is a node. Any other workflow is refused, and the fault that is told is the first one. -/
theorem compile_tells_first_fault (w : Workflow K) :
    ((∃ snapshot, compile w = .ok snapshot) ↔ Valid w) ∧
      ∀ fault, compile w = .error fault ↔ FirstFault w fault := by
  constructor
  · constructor
    · rintro ⟨snapshot, h⟩
      exact (compile_eq_ok_iff.mp h).1
    · exact fun h => ⟨_, h.compile⟩
  · intro fault
    have hcompile : compile w = .error fault ↔ fault? w = some fault := by
      rw [compile]
      cases fault? w <;> simp
    rw [hcompile]
    exact ⟨firstFault_of_fault?, FirstFault.fault?_eq⟩

end WorkflowCanvas.Snapshot
