import WorkflowCanvas.Proofs.Drop.Independence
import WorkflowCanvas.Proofs.Service.Gestures

/-!
What the order of the nodes decides about drops.

A dropped node goes to the last of the batches that it lies in. Parents stand in front of their
children, so of batches in each other that is the innermost one. Of batches that overlap otherwise
it is the one that stands further back. A drop may change which one that is, since a node pulls the
batch that adopts it in front of itself. So drops of two nodes commute exactly as far as neither
changes the target of the other.
-/

namespace WorkflowCanvas.Service

open Session Drop

variable {K : Type} [Scalar K] {mode : Containment} {newId : Nat → String} {s s' : State K}
  {id node : String} {w : Workflow K} {n n' : Node K} {t : Transition K} {place : Point K}

/-! ### Batches in each other -/

/-- The transition that is told has the parent that was decided. -/
theorem exists_decision (h : Transition.between? n (landed mode w.nodes n place) = some t) :
    ∃ d, decision mode w.nodes n place = some d ∧ d.parent = t.parent :=
  ⟨t, between?_landed.symm.trans h, rfl⟩

theorem below_of_below_afterDrop (h : Snapshot.Valid w) (hn : n ∈ w.nodes) {inner outer : String}
    (hnot : ¬ Nesting.Below w.nodes inner n.id) (hother : inner ≠ n.id)
    (hbelow : Nesting.Below (afterDrop mode w n place).nodes inner outer) :
    Nesting.Below w.nodes inner outer := by
  have hsame : ∀ x, x ≠ n.id →
      Node.parentOf? (afterDrop mode w n place).nodes x = Node.parentOf? w.nodes x := by
    intro x hx
    rw [Node.parentOf?, Node.parentOf?, first?_afterDrop_of_ne h hn mode place hx]
  have hfree : ∀ parent, Node.parentOf? (afterDrop mode w n place).nodes n.id = some parent →
      parent ≠ n.id ∧ ¬ Nesting.Below w.nodes parent n.id := by
    intro parent hparent
    rw [Node.parentOf?_of_first? (first?_afterDrop h hn mode place)] at hparent
    exact (isFreeParent_of_landed h.nested hn hparent).2
  rcases Nesting.below_or_of_reparent hsame hfree hbelow with hold | ⟨_, _, hfrom, _⟩
  · exact hold
  · exact absurd hfrom (not_or.mpr ⟨hother, hnot⟩)

/-- A dropped node that gets a new parent lies in none of the batches that are nested in this, as
far as they take part: those of a settled size that are neither the node nor below it. -/
theorem drop_takes_innermost {container : String} (hreach : s.store.Reachable)
    (hopen : s.store.get? id = some w)
    (hdrop : perform mode newId s (.drop id node place) = .ok (s', .dropped n' (some t)))
    (hcontainer : t.parent = some container) :
    ∃ w', s'.store.get? id = some w' ∧ ∀ m ∈ w.nodes, m.isBatch → m.size?.isSome →
      m.id ≠ node → ¬ Nesting.Below w.nodes m.id node →
      (Nesting.Below w.nodes m.id container ∨ Nesting.Below w'.nodes m.id container) →
      (held w.nodes node place).within? mode node m.id = some false := by
  obtain ⟨_, hstored⟩ := hreach.sound.of_get? hopen
  obtain ⟨n, hn, _, rfl, hreply⟩ := dropped_of_perform hreach hopen hdrop
  obtain ⟨hmem, rfl⟩ := Node.mem_of_first? hn
  obtain ⟨_, htold⟩ := Reply.dropped.inj hreply
  obtain ⟨d, hdecision, hparent⟩ := exists_decision htold.symm
  refine ⟨_, get?_afterDrop hreach.sound hopen n mode place, ?_⟩
  intro m hm hbatch hsize hother hnot hbelow
  have hinner : Nesting.Below w.nodes m.id container :=
    hbelow.elim (fun h => h) (below_of_below_afterDrop hstored.toValid hmem hnot hother)
  exact within?_of_below_target hstored.nested hstored.inOrder hmem hdecision
    (hparent.trans hcontainer) hm hbatch hsize hother hnot hinner

theorem exists_of_toldTransition {answer : Attempt Rat (State Rat × Reply Rat)} {t : Transition Rat}
    (h : toldTransition answer = some t) : ∃ s' n', answer = .ok (s', .dropped n' (some t)) := by
  unfold toldTransition at h
  split at h
  · obtain rfl := h
    exact ⟨_, _, rfl⟩
  · cases h

/-- The leaf is taken out of the box and out of the batch around it. It lands in the outermost
batch, and does not lie in the one that is nested there. -/
theorem drop_takes_innermost_crowded :
    ∃ s' w n', crowded.get? "flow" = some w ∧
      perform .overlap toString ⟨crowded, 0⟩ (.drop "flow" "leaf" ⟨-15, -15⟩) =
        .ok (s', .dropped n' (some (.reparent "box" "outer" ⟨10, 10⟩))) ∧
      Nesting.Below w.nodes "inner" "outer" ∧
      (held w.nodes "leaf" ⟨-15, -15⟩).within? .overlap "leaf" "inner" = some false := by
  have hinner : ((crowded.get? "flow").any fun w => w.nodes.any fun m => m.id = "inner" &&
      m.isBatch && m.size?.isSome && Nesting.isBelow w.nodes "inner" "outer" &&
      !Nesting.isBelow w.nodes "inner" "leaf") = true := by
    decide
  obtain ⟨w, hopen, hany⟩ := (Option.any_eq_true _ _).mp hinner
  obtain ⟨m, hm, hfacts⟩ := List.any_eq_true.mp hany
  simp only [Bool.and_eq_true, decide_eq_true_eq, Bool.not_eq_true', ← Bool.not_eq_true,
    Nesting.isBelow_iff] at hfacts
  obtain ⟨⟨⟨⟨hid, hbatch⟩, hsize⟩, hbelow⟩, hnot⟩ := hfacts
  have htold : toldTransition (perform .overlap toString ⟨crowded, 0⟩
      (.drop "flow" "leaf" ⟨-15, -15⟩)) = some (.reparent "box" "outer" ⟨10, 10⟩) := by
    decide +kernel
  obtain ⟨s', n', hdrop⟩ := exists_of_toldTransition htold
  have houter : (Transition.reparent "box" "outer" (⟨10, 10⟩ : Point Rat)).parent =
      some "outer" := rfl
  obtain ⟨_, _, hclear⟩ := drop_takes_innermost (s := ⟨crowded, 0⟩) ⟨_, rfl⟩ hopen hdrop houter
  rw [← hid] at hbelow hnot
  refine ⟨s', w, n', hopen, hdrop, hid ▸ hbelow, ?_⟩
  rw [← hid]
  exact hclear m hm hbatch hsize (by rw [hid]; decide) hnot (.inl hbelow)

/-! ### Drops of two nodes -/

/-- The snapshot of a workflow after some operations, if all of them are carried out. -/
def snapshotAfter? (mode : Containment) (newId : Nat → String) (s : State K) (id : String) :
    List (Operation K) → Option (Workflow K)
  | [] => s.store.get? id
  | operation :: rest =>
    match perform mode newId s operation with
    | .ok (s, _) => snapshotAfter? mode newId s id rest
    | .error _ => none

theorem agreeBut_afterDrop (h : Snapshot.Valid w) (hn : n ∈ w.nodes) (hkind : ¬ n.isBatch)
    (mode : Containment) (place : Point K) :
    AgreeBut n.id w.nodes (afterDrop mode w n place).nodes where
  nested := h.nested
  nested' := (stored_afterDrop h hn mode place).nested
  others _ hid := first?_afterDrop_of_ne h hn mode place hid
  noBatch := by
    intro m hm hid
    rwa [Node.eq_of_id_eq h.nested.distinct hm hn hid]
  noBatch' := by
    intro m hm hid
    have hfirst := first?_afterDrop h hn mode place
    rw [← hid, Node.first?_of_mem (stored_afterDrop h hn mode place).nested.distinct hm] at hfirst
    rwa [Option.some.inj hfirst, Node.isBatch, landed_kind]

variable {na nb : Node K} {pa pb : Point K}

/-- Two nodes of a snapshot that are dropped one after the other. -/
theorem snapshotAfter?_two_drops (hs : s.store.Sound) (hopen : s.store.get? id = some w)
    (ha : na ∈ w.nodes) (hb : nb ∈ w.nodes) (hne : na.id ≠ nb.id)
    (ha' : na.data.locked = false) (hb' : nb.data.locked = false) (mode : Containment)
    (newId : Nat → String) (pa pb : Point K) :
    snapshotAfter? mode newId s id [.drop id na.id pa] = some (afterDrop mode w na pa) ∧
      snapshotAfter? mode newId s id [.drop id na.id pa, .drop id nb.id pb] =
        some (afterDrop mode (afterDrop mode w na pa) nb pb) := by
  obtain ⟨_, hstored⟩ := hs.of_get? hopen
  have hafter := stored_afterDrop hstored.toValid ha mode pa
  have hget := get?_afterDrop hs hopen na mode pa
  have hfirst := Node.first?_of_mem hstored.nested.distinct ha
  have hsecond := Node.first?_of_mem hafter.nested.distinct
    (mem_afterDrop_of_ne hstored.toValid ha mode pa hb hne.symm)
  have hdrop := perform_drop hs hopen hfirst ha' mode newId pa
  have hdrop' := perform_drop (s := { s with store := s.store.put (afterDrop mode w na pa) })
    (hs.put hafter) hget hsecond hb' mode newId pb
  refine ⟨?_, ?_⟩
  · rw [snapshotAfter?, hdrop]
    exact hget
  · rw [snapshotAfter?, hdrop]
    simp only [snapshotAfter?, hdrop']
    exact get?_afterDrop (s := { s with store := s.store.put (afterDrop mode w na pa) })
      (hs.put hafter) hget nb mode pb

theorem first?_two_drops (h : Snapshot.Stored w) (ha : na ∈ w.nodes) (hb : nb ∈ w.nodes)
    (hne : na.id ≠ nb.id) (mode : Containment) (x : String) :
    Node.first? (afterDrop mode (afterDrop mode w na pa) nb pb).nodes x =
      if x = nb.id then some (landed mode (afterDrop mode w na pa).nodes nb pb)
      else if x = na.id then some (landed mode w.nodes na pa)
      else Node.first? w.nodes x := by
  have hafter := stored_afterDrop h.toValid ha mode pa
  have hb' := mem_afterDrop_of_ne h.toValid ha mode pa hb hne.symm
  split
  · rename_i hx
    rw [hx, first?_afterDrop hafter.toValid hb' mode pb]
  · rename_i hx
    rw [first?_afterDrop_of_ne hafter.toValid hb' mode pb hx]
    split
    · rename_i hxa
      rw [hxa, first?_afterDrop h.toValid ha mode pa]
    · rename_i hxa
      exact first?_afterDrop_of_ne h.toValid ha mode pa hxa

/-- The two orders end in the same places exactly if neither drop changes the other's target. -/
theorem two_drops_agree_iff (h : Snapshot.Stored w) (ha : na ∈ w.nodes) (hb : nb ∈ w.nodes)
    (hne : na.id ≠ nb.id) (hkinda : ¬ na.isBatch) (hkindb : ¬ nb.isBatch) (mode : Containment)
    (pa pb : Point K) :
    (∀ x, (still (afterDrop mode (afterDrop mode w na pa) nb pb).nodes).frame? x =
        (still (afterDrop mode (afterDrop mode w nb pb) na pa).nodes).frame? x) ↔
      KeepsTarget mode w.nodes (afterDrop mode w nb pb).nodes na pa ∧
        KeepsTarget mode w.nodes (afterDrop mode w na pa).nodes nb pb := by
  have hagreea := agreeBut_afterDrop h.toValid hb hkindb mode pb
  have hagreeb := agreeBut_afterDrop h.toValid ha hkinda mode pa
  rw [← hagreea.landed_parent_eq_iff ha hne hkinda,
    ← hagreeb.landed_parent_eq_iff hb hne.symm hkindb]
  constructor
  · intro hsame
    have hsamea := hsame na.id
    have hsameb := hsame nb.id
    simp only [Scene.frame?, still, first?_two_drops h ha hb hne, first?_two_drops h hb ha hne.symm,
      if_neg hne, if_neg hne.symm, if_true, Option.map_some, Option.some.injEq, Prod.mk.injEq]
      at hsamea hsameb
    exact ⟨hsamea.1.symm, hsameb.1⟩
  · rintro ⟨hparenta, hparentb⟩ x
    have hlanda := hagreea.landed_eq_of_parent ha hne hparenta
    have hlandb := hagreeb.landed_eq_of_parent hb hne.symm hparentb
    refine Scene.frame?_congr rfl ?_
    simp only [still, first?_two_drops h ha hb hne, first?_two_drops h hb ha hne.symm, hlanda,
      hlandb]
    split
    · rename_i hx
      rw [if_neg (hx ▸ hne.symm)]
    · rfl

/-- Two nodes that are no batches are dropped one after the other, in both orders. All other nodes
keep their parents and positions. The two orders end with every node in the same place exactly if
neither drop changes the target of the other node, and that is so where the batches that each of
the two lies in are nested in each other. -/
theorem drops_commute_iff {a b : String} (mode : Containment) (newId : Nat → String)
    (pa pb : Point K) (hreach : s.store.Reachable) (hopen : s.store.get? id = some w)
    (ha : Node.first? w.nodes a = some na) (hb : Node.first? w.nodes b = some nb) (hne : a ≠ b)
    (hlocka : na.data.locked = false) (hlockb : nb.data.locked = false) (hkinda : ¬ na.isBatch)
    (hkindb : ¬ nb.isBatch) :
    ∃ wa wb wab wba,
      snapshotAfter? mode newId s id [.drop id a pa] = some wa ∧
      snapshotAfter? mode newId s id [.drop id b pb] = some wb ∧
      snapshotAfter? mode newId s id [.drop id a pa, .drop id b pb] = some wab ∧
      snapshotAfter? mode newId s id [.drop id b pb, .drop id a pa] = some wba ∧
      (∀ x, x ≠ a → x ≠ b → (still wab.nodes).frame? x = (still w.nodes).frame? x ∧
        (still wba.nodes).frame? x = (still w.nodes).frame? x) ∧
      ((∀ x, (still wab.nodes).frame? x = (still wba.nodes).frame? x) ↔
        KeepsTarget mode w.nodes wb.nodes na pa ∧ KeepsTarget mode w.nodes wa.nodes nb pb) ∧
      (Chained mode w.nodes na pa → Chained mode w.nodes nb pb →
        ∀ x, (still wab.nodes).frame? x = (still wba.nodes).frame? x) := by
  obtain ⟨_, hstored⟩ := hreach.sound.of_get? hopen
  obtain ⟨hmema, rfl⟩ := Node.mem_of_first? ha
  obtain ⟨hmemb, rfl⟩ := Node.mem_of_first? hb
  obtain ⟨hwa, hwab⟩ := snapshotAfter?_two_drops hreach.sound hopen hmema hmemb hne hlocka hlockb
    mode newId pa pb
  obtain ⟨hwb, hwba⟩ := snapshotAfter?_two_drops hreach.sound hopen hmemb hmema hne.symm hlockb
    hlocka mode newId pb pa
  have hiff := two_drops_agree_iff hstored hmema hmemb hne hkinda hkindb mode pa pb
  refine ⟨_, _, _, _, hwa, hwb, hwab, hwba, fun x hxa hxb => ⟨?_, ?_⟩, hiff, ?_⟩
  · refine Scene.frame?_congr rfl ((first?_two_drops hstored hmema hmemb hne mode x).trans ?_)
    rw [if_neg hxb, if_neg hxa]
    rfl
  · refine Scene.frame?_congr rfl ((first?_two_drops hstored hmemb hmema hne.symm mode x).trans ?_)
    rw [if_neg hxa, if_neg hxb]
    rfl
  · intro hchaina hchainb
    have haftera := stored_afterDrop hstored.toValid hmema mode pa
    have hafterb := stored_afterDrop hstored.toValid hmemb mode pb
    refine hiff.mpr ⟨.inr ?_, .inr ?_⟩
    · exact (agreeBut_afterDrop hstored.toValid hmemb hkindb mode pb).topmost?_eq_of_chained
        hstored.inOrder hafterb.inOrder hmema hne hkinda hchaina
    · exact (agreeBut_afterDrop hstored.toValid hmema hkinda mode pa).topmost?_eq_of_chained
        hstored.inOrder haftera.inOrder hmemb hne.symm hkindb hchainb

/-- Two nodes, and two batches that overlap without one being in the other. -/
def overlapping : Store Float :=
  let batch (id : String) (position : Point Float) : Node Float :=
    { id, kind := .batch, position, measured := some ⟨some 100, some 100⟩ }
  Store.run {}
    [.openWorkflow
      { id := "flow", name := "Flow"
        nodes :=
          [{ id := "a", kind := .reader, position := ⟨500, 0⟩ },
            { id := "b", kind := .writer, position := ⟨500, 50⟩ },
            batch "x" ⟨0, 0⟩, batch "y" ⟨50, 0⟩]
        edges := [] }]

/-- The node `a` lies in `y` only, and `b` in `x` only. -/
theorem drops_commute_iff_apart :
    let s : State Float := ⟨overlapping, 0⟩
    let a : Operation Float := .drop "flow" "a" ⟨120, 50⟩
    let b : Operation Float := .drop "flow" "b" ⟨20, 50⟩
    ∃ wab wba, snapshotAfter? .full toString s "flow" [a, b] = some wab ∧
      snapshotAfter? .full toString s "flow" [b, a] = some wba ∧
      ∀ x, (still wab.nodes).frame? x = (still wba.nodes).frame? x := by
  intro s a b
  have hfree : ((overlapping.get? "flow").any fun w => (Node.first? w.nodes "a").any fun na =>
      (Node.first? w.nodes "b").any fun nb => !na.data.locked && !nb.data.locked &&
        !na.isBatch && !nb.isBatch) = true := by
    decide
  have hkept : ((overlapping.get? "flow").all fun w => (Node.first? w.nodes "a").all fun na =>
      (Node.first? w.nodes "b").all fun nb =>
        (snapshotAfter? .full toString s "flow" [b]).all (fun wb =>
          topmost? .full wb.nodes na ⟨120, 50⟩ = topmost? .full w.nodes na ⟨120, 50⟩) &&
        (snapshotAfter? .full toString s "flow" [a]).all fun wa =>
          topmost? .full wa.nodes nb ⟨20, 50⟩ = topmost? .full w.nodes nb ⟨20, 50⟩) = true := by
    decide +kernel
  obtain ⟨w, hopen, hfree⟩ := (Option.any_eq_true _ _).mp hfree
  obtain ⟨na, ha, hfree⟩ := (Option.any_eq_true _ _).mp hfree
  obtain ⟨nb, hb, hfree⟩ := (Option.any_eq_true _ _).mp hfree
  simp only [Bool.and_eq_true, Bool.not_eq_true'] at hfree
  obtain ⟨⟨⟨hlocka, hlockb⟩, hkinda⟩, hkindb⟩ := hfree
  obtain ⟨wa, wb, wab, wba, hwa, hwb, hwab, hwba, _, hiff, _⟩ :=
    drops_commute_iff (s := s) .full toString ⟨120, 50⟩ ⟨20, 50⟩ ⟨_, rfl⟩ hopen ha hb (by decide)
      hlocka hlockb (by simp [hkinda]) (by simp [hkindb])
  simp only [hopen, ha, hb, hwa, hwb, a, b, Option.all_some, Bool.and_eq_true, decide_eq_true_eq]
    at hkept
  exact ⟨wab, wba, hwab, hwba, hiff.mpr ⟨.inr hkept.1, .inr hkept.2⟩⟩

/-- The node `a` lies in `y` only, and `b` in both batches. If `a` is dropped first, it pulls `y`
in front of `x`. -/
theorem drops_of_overlapping_differ :
    let s : State Float := ⟨overlapping, 0⟩
    let a : Operation Float := .drop "flow" "a" ⟨120, 50⟩
    let b : Operation Float := .drop "flow" "b" ⟨75, 50⟩
    s.store.Reachable ∧
      (s.store.get? "flow").map (fun w => w.nodes.map fun n => (n.id, n.isBatch, n.data.locked)) =
        some [("a", false, false), ("b", false, false), ("x", true, false), ("y", true, false)] ∧
      (snapshotAfter? .full toString s "flow" [a, b]).map (fun w => Node.parentOf? w.nodes "b") =
        some (some "x") ∧
      (snapshotAfter? .full toString s "flow" [b, a]).map (fun w => Node.parentOf? w.nodes "b") =
        some (some "y") :=
  ⟨⟨_, rfl⟩, by decide +kernel⟩

end WorkflowCanvas.Service
