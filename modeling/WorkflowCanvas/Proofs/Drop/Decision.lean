import WorkflowCanvas.Drop.Resolver
import WorkflowCanvas.Proofs.Nesting.Ancestry

/-!
How a drop is decided.

`Decided` lists the six ways in which a drop can turn out, each with what has to hold
for it. Every statement on drops starts from this list and not from the resolver. It
is about any layout, so it says nothing yet about where nodes are.
-/

namespace WorkflowCanvas.Drop

variable {K : Type} {layout : Layout K} {mode : Containment} {dropped n : Node K}
  {nodes : List (Node K)} {c : Container K} {t : Transition K}

/-! ### The last candidate -/

theorem target?_eq_some {id : String} {left : Option String} {candidates : List (Container K)}
    (h : target? layout mode id left candidates = some c) :
    c ∈ candidates ∧ some c.id ≠ left ∧ layout.liesIn id c.area mode = true := by
  have hmem := List.mem_of_getLast? h
  simpa only [List.mem_filter, Bool.and_eq_true, decide_eq_true_eq] using hmem

theorem target?_eq_none_iff {id : String} {left : Option String}
    {candidates : List (Container K)} :
    target? layout mode id left candidates = none ↔
      ∀ c ∈ candidates, some c.id ≠ left → layout.liesIn id c.area mode = false := by
  simp only [target?, List.getLast?_eq_none_iff, List.filter_eq_nil_iff, Bool.and_eq_true,
    decide_eq_true_eq, not_and, Bool.not_eq_true]

/-! ### Candidates -/

variable [Scalar K]

/-- The batch `n` takes part in the drop of the node `id` as the candidate `c`. -/
structure TakesPart (layout : Layout K) (id : String) (nodes : List (Node K)) (n : Node K)
    (c : Container K) : Prop where
  batch : n.isBatch
  other : n.id ≠ id
  notBelow : ¬ Nesting.Below nodes n.id id
  sameId : c.id = n.id
  origin : layout.absolute? n.id = some c.origin
  area : ∃ size, n.size? = some size ∧ c.area = Rect.placed c.origin size

theorem container?_eq_some_iff {id : String} :
    container? layout id nodes n = some c ↔ TakesPart layout id nodes n c := by
  rw [container?]
  constructor
  · intro h
    split at h
    · rename_i hcond
      simp only [Bool.and_eq_true, decide_eq_true_eq, Bool.not_eq_eq_eq_not, Bool.not_true,
        ← Bool.not_eq_true, Nesting.isBelow_iff] at hcond
      obtain ⟨size, hsize, hrest⟩ := Option.bind_eq_some_iff.mp h
      obtain ⟨origin, horigin, hc⟩ := Option.bind_eq_some_iff.mp hrest
      obtain rfl := Option.some.inj hc
      exact ⟨hcond.1.1, hcond.1.2, hcond.2, rfl, horigin, size, hsize, rfl⟩
    · cases h
  · intro h
    obtain ⟨size, hsize, harea⟩ := h.area
    have hbelow : Nesting.isBelow nodes n.id id = false := by
      rw [← Bool.not_eq_true, Nesting.isBelow_iff]
      exact h.notBelow
    obtain ⟨cid, corigin, carea⟩ := c
    obtain rfl : cid = n.id := h.sameId
    obtain rfl : carea = Rect.placed corigin size := harea
    simp [h.batch, h.other, hbelow, hsize, h.origin]

theorem mem_containers {id : String} :
    c ∈ containers layout id nodes ↔ ∃ n ∈ nodes, TakesPart layout id nodes n c := by
  simp only [containers, List.mem_filterMap, container?_eq_some_iff]

theorem eq_of_mem_containers {id : String} {c' : Container K}
    (hnd : (nodes.map Node.id).Nodup) (hc : c ∈ containers layout id nodes)
    (hc' : c' ∈ containers layout id nodes) (h : c.id = c'.id) : c = c' := by
  obtain ⟨m, hm, ht⟩ := mem_containers.mp hc
  obtain ⟨m', hm', ht'⟩ := mem_containers.mp hc'
  have hids : m.id = m'.id := by rw [← ht.sameId, h, ht'.sameId]
  obtain rfl := Node.eq_of_id_eq hnd hm hm' hids
  rw [← container?_eq_some_iff] at ht ht'
  exact Option.some.inj (ht.symm.trans ht')

/-- Behind the last candidate stands no batch that the node lies in, the one left excepted. -/
theorem exists_split_of_target? {id : String} {left : Option String}
    (h : target? layout mode id left (containers layout id nodes) = some c) :
    ∃ before n after, nodes = before ++ n :: after ∧ TakesPart layout id nodes n c ∧
      ∀ m ∈ after, ∀ d, TakesPart layout id nodes m d → some d.id ≠ left →
        layout.liesIn id d.area mode = false := by
  rw [target?, containers, List.filter_filterMap, List.getLast?_filterMap,
    List.findSome?_eq_some_iff] at h
  obtain ⟨back, n, front, hsplit, hn, hback⟩ := h
  obtain ⟨hn, _⟩ := Option.filter_eq_some_iff.mp hn
  have hlist : nodes = front.reverse ++ n :: back.reverse := by
    simpa using congrArg List.reverse hsplit
  refine ⟨_, n, _, hlist, container?_eq_some_iff.mp hn, ?_⟩
  intro m hm d hd hleft
  have hpassed := hback m (List.mem_reverse.mp hm)
  rw [Option.filter_eq_none_iff] at hpassed
  simpa [hleft] using hpassed d (container?_eq_some_iff.mpr hd)

/-! ### The decision -/

/-- Where the dropped node is in the frame of its parent. -/
def livePlace (layout : Layout K) (dropped : Node K) : Point K :=
  (layout.live? dropped.id).getD dropped.position

inductive Decided (layout : Layout K) (mode : Containment) (dropped : Node K)
    (nodes : List (Node K)) : Option (Transition K) → Prop
  | stayedFree : dropped.parent = none →
      target? layout mode dropped.id none (containers layout dropped.id nodes) = none →
      Decided layout mode dropped nodes none
  | adopted (c : Container K) : dropped.parent = none →
      target? layout mode dropped.id none (containers layout dropped.id nodes) = some c →
      Decided layout mode dropped nodes (some (.adopt c.id (livePlace layout dropped - c.origin)))
  | parentApart (parent : String) : dropped.parent = some parent →
      (∀ c ∈ containers layout dropped.id nodes, c.id ≠ parent) →
      Decided layout mode dropped nodes none
  | stayedInside (former : Container K) : dropped.parent = some former.id →
      former ∈ containers layout dropped.id nodes →
      layout.liesIn dropped.id former.area mode = true →
      Decided layout mode dropped nodes none
  | released (former : Container K) : dropped.parent = some former.id →
      former ∈ containers layout dropped.id nodes →
      layout.liesIn dropped.id former.area mode = false →
      target? layout mode dropped.id (some former.id) (containers layout dropped.id nodes) = none →
      Decided layout mode dropped nodes
        (some (.release former.id (livePlace layout dropped + former.origin)))
  | reparented (former c : Container K) : dropped.parent = some former.id →
      former ∈ containers layout dropped.id nodes →
      layout.liesIn dropped.id former.area mode = false →
      target? layout mode dropped.id (some former.id) (containers layout dropped.id nodes) =
        some c →
      Decided layout mode dropped nodes
        (some (.reparent former.id c.id (livePlace layout dropped + former.origin - c.origin)))

theorem resolve_decided (h : dropped.id ∈ nodes.map Node.id) :
    Decided layout mode dropped nodes (resolve layout mode dropped nodes) := by
  have hlisted : (nodes.any fun n => n.id = dropped.id) = true := by simpa using h
  rw [resolve, if_pos hlisted]
  dsimp only
  split
  · rename_i hparent
    cases htarget : target? layout mode dropped.id none (containers layout dropped.id nodes) with
    | none => exact .stayedFree hparent htarget
    | some c => exact .adopted c hparent htarget
  · rename_i parent hparent
    split
    · rename_i hfind
      refine .parentApart parent hparent fun c hc heq => ?_
      simpa [heq] using List.find?_eq_none.mp hfind c hc
    · rename_i former hfind
      have hmem := List.mem_of_find?_eq_some hfind
      obtain rfl : former.id = parent := by simpa using List.find?_some hfind
      split
      · rename_i hlies
        exact .stayedInside former hparent hmem hlies
      · rename_i hleft
        have hlies : layout.liesIn dropped.id former.area mode = false := by simpa using hleft
        cases htarget : target? layout mode dropped.id (some former.id)
            (containers layout dropped.id nodes) with
        | none => exact .released former hparent hmem hlies htarget
        | some c => exact .reparented former c hparent hmem hlies htarget

theorem mem_ids_of_resolve (h : resolve layout mode dropped nodes = some t) :
    dropped.id ∈ nodes.map Node.id := by
  rw [resolve] at h
  split at h
  · rename_i hlisted
    simpa using hlisted
  · cases h

/-- A parent that a drop gives to a node is a candidate. -/
theorem exists_container_of_resolve (h : resolve layout mode dropped nodes = some t)
    {parent : String} (hparent : t.parent = some parent) :
    ∃ c ∈ containers layout dropped.id nodes, c.id = parent := by
  have hdecided : Decided layout mode dropped nodes (resolve layout mode dropped nodes) :=
    resolve_decided (mem_ids_of_resolve h)
  rw [h] at hdecided
  cases hdecided with
  | adopted c _ htarget => exact ⟨c, (target?_eq_some htarget).1, Option.some.inj hparent⟩
  | released => cases hparent
  | reparented _ c _ _ _ htarget => exact ⟨c, (target?_eq_some htarget).1, Option.some.inj hparent⟩

end WorkflowCanvas.Drop
