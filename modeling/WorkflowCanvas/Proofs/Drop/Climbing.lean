import WorkflowCanvas.Drop.Layout
import WorkflowCanvas.Proofs.Nesting.Ancestry

/-!
Adding up frames, in any list of nodes.

The place of a node on the canvas can be found by a loop that goes from parent to parent, adds up
the places, and remembers the ids that it has met. It has no bound: it ends at a node without a
parent, at a parent that is no node, or at an id that it has met before. It always ends, since it
meets no id twice, and it finds what the walk of bounded length finds.

Nothing is asked of the list here. Ids may repeat, and then the last node with an id counts, which
is the first one of the reversed list. So what is known of ways up in a list is used of that list.
-/

namespace WorkflowCanvas

namespace Nesting

/-! ### Ways that end and ways that come back -/

variable {K : Type} {nodes : List (Node K)} {find? : String → Option (Node K)} {id x : String}
  {n : Node K} {steps i j : Nat} {way : List (Node K)}

/-- A way that ends stops at once, or goes on from the parent of a node with one step less. -/
theorem missing_or_step_of_lineage? (h : lineage? find? steps (some id) = some way) :
    (find? id = none ∧ way = []) ∨ ∃ n rest fewer, find? id = some n ∧ way = n :: rest ∧
      lineage? find? fewer n.parent = some rest := by
  cases hn : find? id with
  | none =>
      rw [lineage?_of_missing hn] at h
      exact .inl ⟨rfl, (Option.some.inj h).symm⟩
  | some n =>
      cases steps with
      | zero =>
          rw [lineage?_zero hn] at h
          cases h
      | succ fewer =>
          rw [lineage?_succ hn] at h
          obtain ⟨rest, hrest, rfl⟩ := Option.map_eq_some_iff.mp h
          exact .inr ⟨n, rest, fewer, rfl, rfl, hrest⟩

/-- The nodes of a way that ends are those that the steps up lead to. -/
theorem getElem?_lineage? (h : lineage? (Node.first? nodes) steps (some id) = some way) (k : Nat) :
    way[k]? = (up? nodes k id).bind (Node.first? nodes) := by
  induction way generalizing id steps k with
  | nil =>
      obtain ⟨hn, -⟩ | ⟨n, rest, _, _, hcons, _⟩ := missing_or_step_of_lineage? h
      · cases k <;> simp [up?, Node.parentOf?, hn]
      · cases hcons
  | cons m rest ih =>
      obtain ⟨-, hnil⟩ | ⟨n, _, fewer, hn, hcons, hrest⟩ := missing_or_step_of_lineage? h
      · cases hnil
      · obtain ⟨rfl, rfl⟩ := List.cons.inj hcons
        cases k with
        | zero => simp [up?, hn]
        | succ k =>
            rw [List.getElem?_cons_succ, up?, Node.parentOf?_of_first? hn]
            cases hparent : m.parent with
            | none =>
                rw [hparent, lineage?_none] at hrest
                obtain rfl := Option.some.inj hrest
                rfl
            | some parent => exact ih (hparent ▸ hrest) k

/-- The way up from where the steps have led to an id twice has no end. -/
theorem up?_ne_none_of_repeat (hij : i < j) (hi : up? nodes i id = some x)
    (hj : up? nodes j id = some x) (k : Nat) : up? nodes k id ≠ none := by
  induction k using Nat.strong_induction_on with
  | _ k ih =>
      rcases Nat.lt_or_ge k j with hk | hk
      · obtain ⟨middle, hmiddle, _⟩ := exists_up?_of_le hk.le hj
        simp [hmiddle]
      · -- the steps from `i` to `j` lead back to where they start, so they can be left out
        have hshort : up? nodes (j + (k - j)) id = up? nodes (i + (k - j)) id := by
          rw [up?_add, up?_add, hi, hj]
        rw [Nat.add_sub_cancel' hk] at hshort
        rw [hshort]
        exact ih _ (by omega)

theorem up?_succ_eq_none {k : Nat} (h : (up? nodes k id).bind (Node.first? nodes) = none) :
    up? nodes (k + 1) id = none := by
  rw [up?_add]
  cases hlast : up? nodes k id with
  | none => rfl
  | some last =>
      rw [hlast, Option.bind_some] at h
      simp [up?, Node.parentOf?, h]

theorem lineage?_eq_none_of_repeat (hij : i < j) (hi : up? nodes i id = some x)
    (hj : up? nodes j id = some x) (steps : Nat) :
    lineage? (Node.first? nodes) steps (some id) = none := by
  refine Option.eq_none_iff_forall_ne_some.mpr fun way h => ?_
  have hend := getElem?_lineage? h way.length
  rw [List.getElem?_eq_none le_rfl] at hend
  exact up?_ne_none_of_repeat hij hi hj _ (up?_succ_eq_none hend.symm)

theorem exists_repeat_of_lineage? (hlength : nodes.length ≤ steps)
    (h : lineage? (Node.first? nodes) steps (some id) = none) :
    ∃ i j x, i < j ∧ up? nodes i id = some x ∧ up? nodes j id = some x := by
  by_contra hnot
  have hends : ∀ last, up? nodes steps id = some last → last ∉ nodes.map Node.id := by
    intro last hup hlast
    obtain ⟨i, j, x, hij, _, hi, hj⟩ := exists_up?_repeat hlength hup hlast
    exact hnot ⟨i, j, x, hij, hi, hj⟩
  obtain ⟨way, hway⟩ := exists_lineage?_of_up? hends
  cases h.symm.trans hway

theorem not_below_self_of_lineage?
    (h : lineage? (Node.first? nodes) steps (some id) = some way) : ¬ Below nodes id id := by
  intro hbelow
  obtain ⟨k, hk⟩ := hbelow.exists_up?
  cases (lineage?_eq_none_of_repeat (Nat.succ_pos k) rfl hk steps).symm.trans h

end Nesting

namespace Scene

/-! ### Places on the way up -/

section Ways

variable {K : Type}

/-- The id that so many steps from a node to its parent lead to. Of nodes with the same id the last
one counts. -/
def above? (s : Scene K) : Nat → String → Option String
  | 0, id => some id
  | steps + 1, id => ((s.node? id).bind Node.parent).bind (s.above? steps)

/-- On the way up from a node some id comes twice. -/
def ComesBack (s : Scene K) (id : String) : Prop :=
  ∃ i j x, i < j ∧ s.above? i id = some x ∧ s.above? j id = some x

/-- Where a node is in the frame of its parent. An id that is dragged but is no node is nowhere. -/
def placeOf? (s : Scene K) (id : String) : Option (Point K) :=
  (s.node? id).bind fun _ => s.live? id

variable {s : Scene K} {id : String} {n : Node K}

theorem above?_eq_up? (s : Scene K) (steps : Nat) (id : String) :
    s.above? steps id = Nesting.up? s.nodes.reverse steps id := by
  induction steps generalizing id with
  | zero => rfl
  | succ steps ih =>
      have hsteps : s.above? steps = Nesting.up? s.nodes.reverse steps := funext ih
      rw [above?, hsteps]
      rfl

theorem node?_eq_first?_reverse (s : Scene K) : s.node? = Node.first? s.nodes.reverse := rfl

theorem live?_of_node? (h : s.node? id = some n) : s.live? id = some (s.place n) := by
  obtain ⟨-, rfl⟩ := Node.mem_of_first? h
  rw [live?, h, place]
  cases s.drag? n.id <;> rfl

theorem placeOf?_eq (s : Scene K) : s.placeOf? = Option.map s.place ∘ s.node? := by
  funext id
  cases h : s.node? id with
  | none => simp [placeOf?, h]
  | some n => simp [placeOf?, h, live?_of_node? h]

/-- The walk of bounded length finds no end exactly if the way up comes back. -/
theorem lineage?_eq_none_iff (hn : s.node? id = some n) :
    Nesting.lineage? s.node? s.nodes.length n.parent = none ↔ s.ComesBack id := by
  have hcons : Nesting.lineage? s.node? (s.nodes.length + 1) (some id) = none ↔
      Nesting.lineage? s.node? s.nodes.length n.parent = none := by
    rw [Nesting.lineage?_succ hn, Option.map_eq_none_iff]
  rw [← hcons, node?_eq_first?_reverse]
  simp only [ComesBack, above?_eq_up?]
  constructor
  · exact Nesting.exists_repeat_of_lineage? (by simp)
  · rintro ⟨i, j, x, hij, hi, hj⟩
    exact Nesting.lineage?_eq_none_of_repeat hij hi hj _

/-- Places that end where the way up ends belong to a way that does not come back. -/
theorem not_comesBack_of_places {places : List (Point K)}
    (h : ∀ k, places[k]? = (s.above? k id).bind s.placeOf?) : ¬ s.ComesBack id := by
  rintro ⟨i, j, x, hij, hi, hj⟩
  have hend := h places.length
  rw [List.getElem?_eq_none le_rfl, above?_eq_up?, placeOf?_eq, ← Option.map_bind, eq_comm,
    Option.map_eq_none_iff] at hend
  rw [above?_eq_up?] at hi hj
  exact Nesting.up?_ne_none_of_repeat hij hi hj _ (Nesting.up?_succ_eq_none hend)

end Ways

/-! ### The loop -/

section Loop

variable {K : Type} [Scalar K] {s : Scene K} {id : String} {n : Node K} {visited : List String}
  {sum : Point K} {next : Option String} {told told' : Option (Point K)}

/-- How the loop ends that adds up places from the parent `next` upwards. -/
inductive Climbs (s : Scene K) : List String → Point K → Option String → Option (Point K) → Prop
  | top {visited : List String} {sum : Point K} : Climbs s visited sum none (some sum)
  | circle {visited : List String} {sum : Point K} {id : String} : id ∈ visited →
      Climbs s visited sum (some id) none
  | root {visited : List String} {sum : Point K} {id : String} : id ∉ visited →
      s.node? id = none → Climbs s visited sum (some id) (some sum)
  | step {visited : List String} {sum p : Point K} {id : String} {n : Node K}
      {told : Option (Point K)} : id ∉ visited → s.node? id = some n → s.live? id = some p →
      Climbs s (id :: visited) (sum + p) n.parent told → Climbs s visited sum (some id) told

/-- What the search for the place of a node tells. -/
inductive Locates (s : Scene K) (id : String) : Option (Point K) → Prop
  | unknown : s.node? id = none → Locates s id none
  | known {n : Node K} {p : Point K} {told : Option (Point K)} : s.node? id = some n →
      s.live? id = some p → Climbs s [id] p n.parent told → Locates s id told

theorem Climbs.unique (h : Climbs s visited sum next told) (h' : Climbs s visited sum next told') :
    told = told' := by
  induction h generalizing told' with
  | top =>
      cases h'
      rfl
  | circle hmet =>
      cases h' with
      | circle => rfl
      | root hnew => exact absurd hmet hnew
      | step hnew => exact absurd hmet hnew
  | root hnew hn =>
      cases h' with
      | circle hmet => exact absurd hmet hnew
      | root => rfl
      | step _ hn' => cases hn.symm.trans hn'
  | step hnew hn hp _ ih =>
      cases h' with
      | circle hmet => exact absurd hmet hnew
      | root _ hn' => cases hn.symm.trans hn'
      | step _ hn' hp' hrest =>
          obtain rfl := Option.some.inj (hn.symm.trans hn')
          obtain rfl := Option.some.inj (hp.symm.trans hp')
          exact ih hrest

theorem Locates.unique (h : Locates s id told) (h' : Locates s id told') : told = told' := by
  cases h with
  | unknown hn =>
      cases h' with
      | unknown => rfl
      | known hn' => cases hn.symm.trans hn'
  | known hn hp hrest =>
      cases h' with
      | unknown hn' => cases hn.symm.trans hn'
      | known hn' hp' hrest' =>
          obtain rfl := Option.some.inj (hn.symm.trans hn')
          obtain rfl := Option.some.inj (hp.symm.trans hp')
          exact hrest.unique hrest'

/-- Where the way up ends, the loop follows it to its end. It meets no id twice, since from every id
that it has met the way leads to the next. -/
theorem climbs_of_lineage? {visited : List String} {sum : Point K} {next : Option String}
    {steps : Nat} {way : List (Node K)} (h : Nesting.lineage? s.node? steps next = some way)
    (hmet : ∀ v ∈ visited, ∀ id, next = some id → Nesting.Below s.nodes.reverse v id) :
    Climbs s visited sum next (some (way.foldl (fun sum a => sum + s.place a) sum)) := by
  cases next with
  | none =>
      obtain rfl : [] = way := by simpa using h
      exact .top
  | some id =>
      have hnew : id ∉ visited := fun hv =>
        Nesting.not_below_self_of_lineage? h (hmet id hv id rfl)
      obtain ⟨hn, rfl⟩ | ⟨n, rest, _, hn, rfl, hrest⟩ := Nesting.missing_or_step_of_lineage? h
      · exact .root hnew hn
      refine .step hnew hn (live?_of_node? hn) ?_
      refine climbs_of_lineage? hrest fun v hv parent hparent => ?_
      have hup : Nesting.Below s.nodes.reverse id parent :=
        .single ((Node.parentOf?_of_first? hn).trans hparent)
      rcases List.mem_cons.mp hv with rfl | hv
      · exact hup
      · exact (hmet v hv id rfl).trans hup
termination_by way.length

/-- Where the way up has no end, the loop comes to an id that it has met. In every round there are
fewer ids left that it has not met. -/
theorem climbs_of_endless {visited : List String} {sum : Point K} {next : Option String}
    (h : ∀ steps, Nesting.lineage? s.node? steps next = none) (hnd : visited.Nodup)
    (hlisted : visited ⊆ s.nodes.map Node.id) : Climbs s visited sum next none := by
  cases next with
  | none => simpa using h 0
  | some id =>
      by_cases hmet : id ∈ visited
      · exact .circle hmet
      cases hn : s.node? id with
      | none => simpa [Nesting.lineage?_of_missing hn] using h 0
      | some n =>
          have hrest : ∀ steps, Nesting.lineage? s.node? steps n.parent = none := by
            intro steps
            simpa [Nesting.lineage?_succ hn] using h (steps + 1)
          have hid : id ∈ s.nodes.map Node.id := by simpa using Node.mem_ids_of_first? hn
          have hnd' : (id :: visited).Nodup := List.nodup_cons.mpr ⟨hmet, hnd⟩
          have hlisted' : id :: visited ⊆ s.nodes.map Node.id := List.cons_subset.mpr ⟨hid, hlisted⟩
          have hfewer : visited.length < s.nodes.length :=
            Nat.lt_of_succ_le (by simpa using (hnd'.subperm hlisted').length_le)
          exact .step hmet hn (live?_of_node? hn) (climbs_of_endless hrest hnd' hlisted')
termination_by s.nodes.length - visited.length

/-! ### The place of a node -/

theorem absolute?_of_unknown (h : s.node? id = none) : s.absolute? id = none := by
  rw [absolute?, h]
  rfl

theorem absolute?_of_node? (h : s.node? id = some n) :
    s.absolute? id = (Nesting.lineage? s.node? s.nodes.length n.parent).map fun way =>
      way.foldl (fun sum a => sum + s.place a) (s.place n) := by
  rw [absolute?, h, Option.map_eq_bind]
  rfl

theorem absolute?_eq_none_iff : s.absolute? id = none ↔ s.node? id = none ∨ s.ComesBack id := by
  cases hn : s.node? id with
  | none => simp [absolute?_of_unknown hn]
  | some n =>
      rw [absolute?_of_node? hn, Option.map_eq_none_iff, lineage?_eq_none_iff hn]
      simp

/-- The loop ends, and tells the place that is found. -/
theorem locates_absolute? (s : Scene K) (id : String) : Locates s id (s.absolute? id) := by
  cases hn : s.node? id with
  | none =>
      rw [absolute?_of_unknown hn]
      exact .unknown hn
  | some n =>
      refine .known hn (live?_of_node? hn) ?_
      rw [absolute?_of_node? hn]
      cases hway : Nesting.lineage? s.node? s.nodes.length n.parent with
      | some way =>
          refine climbs_of_lineage? hway fun v hv parent hparent => ?_
          obtain rfl := List.mem_singleton.mp hv
          exact .single ((Node.parentOf?_of_first? hn).trans hparent)
      | none =>
          have hid : id ∈ s.nodes.map Node.id := by simpa using Node.mem_ids_of_first? hn
          refine climbs_of_endless (fun steps => ?_) (List.nodup_singleton id)
            (List.cons_subset.mpr ⟨hid, List.nil_subset _⟩)
          obtain ⟨i, j, x, hij, hi, hj⟩ := (lineage?_eq_none_iff hn).mp hway
          rw [above?_eq_up?] at hi hj
          have hendless := Nesting.lineage?_eq_none_of_repeat hij hi hj (steps + 1)
          rwa [← node?_eq_first?_reverse, Nesting.lineage?_succ hn, Option.map_eq_none_iff]
            at hendless

/-- A place that is found is the sum of the places on the way up, from the node upwards. -/
theorem exists_places {p : Point K} (h : s.absolute? id = some p) :
    ∃ first rest, p = rest.foldl (· + ·) first ∧
      ∀ k, (first :: rest)[k]? = (s.above? k id).bind s.placeOf? := by
  cases hn : s.node? id with
  | none => simp [absolute?_of_unknown hn] at h
  | some n =>
      rw [absolute?_of_node? hn, Option.map_eq_some_iff] at h
      obtain ⟨way, hway, rfl⟩ := h
      have hwhole : Nesting.lineage? (Node.first? s.nodes.reverse) (s.nodes.length + 1) (some id) =
          some (n :: way) := by
        rw [← node?_eq_first?_reverse, Nesting.lineage?_succ hn, hway, Option.map_some]
      refine ⟨s.place n, way.map s.place, List.foldl_map.symm, fun k => ?_⟩
      rw [← List.map_cons, List.getElem?_map, Nesting.getElem?_lineage? hwhole, above?_eq_up?,
        placeOf?_eq, Option.map_bind]
      rfl

/-- In any list of nodes, with any drags, the loop for the place of a node ends, and it finds the
place. There is none exactly if there is no such node, or if the way up from it comes to some id
twice. Otherwise the place is the sum of the live positions of the nodes on the way, taken from the
node upwards. -/
theorem places_add_up (s : Scene K) (id : String) :
    (∀ told, Locates s id told ↔ told = s.absolute? id) ∧
      (s.absolute? id = none ↔ s.node? id = none ∨ s.ComesBack id) ∧
      ∀ p, s.absolute? id = some p ↔ ∃ first rest, p = rest.foldl (· + ·) first ∧
        ∀ k, (first :: rest)[k]? = (s.above? k id).bind s.placeOf? := by
  refine ⟨fun told => ⟨fun h => h.unique (locates_absolute? s id), ?_⟩, absolute?_eq_none_iff,
    fun p => ⟨exists_places, ?_⟩⟩
  · rintro rfl
    exact locates_absolute? s id
  · rintro ⟨first, rest, rfl, hplaces⟩
    have hnode : s.node? id ≠ none := by
      intro hn
      simpa [above?, placeOf?, hn] using hplaces 0
    have hfound : s.absolute? id ≠ none := fun hnone =>
      (absolute?_eq_none_iff.mp hnone).elim hnode (not_comesBack_of_places hplaces)
    obtain ⟨q, hq⟩ := Option.ne_none_iff_exists'.mp hfound
    obtain ⟨first', rest', rfl, hplaces'⟩ := exists_places hq
    have hsame : first' :: rest' = first :: rest :=
      List.ext_getElem? fun k => (hplaces' k).trans (hplaces k).symm
    obtain ⟨rfl, rfl⟩ := List.cons.inj hsame
    exact hq

end Loop

/-- A leaf in a batch that is listed twice and whose parent is no node but is dragged, and a tail
that hangs below a circle. -/
def knotted : Scene Rat :=
  let batch (id : String) (x : Rat) (parent : Option String) : Node Rat :=
    { id, kind := .batch, position := ⟨x, 0⟩, parent }
  { nodes :=
      [batch "box" 1 (some "leaf"), batch "leaf" 10 (some "box"), batch "box" 100 (some "gone"),
        batch "tail" 0 (some "a"), batch "a" 0 (some "b"), batch "b" 0 (some "a")]
    drags := [("leaf", ⟨20, 5⟩), ("gone", ⟨7, 7⟩)] }

/-- The leaf is where it is held, in the frame of the second of the two batches. The tail is
nowhere, and the loop that looks for it ends on the circle. -/
theorem places_add_up_knotted :
    knotted.absolute? "leaf" = some ⟨120, 5⟩ ∧ knotted.placeOf? "gone" = none ∧
      knotted.ComesBack "tail" ∧ Locates knotted "tail" none := by
  have htail : knotted.absolute? "tail" = none := by decide
  have hnode : knotted.node? "tail" ≠ none := by simp [knotted, node?, Node.last?]
  obtain ⟨-, -, hleaf⟩ := places_add_up knotted "leaf"
  obtain ⟨htells, hnone, -⟩ := places_add_up knotted "tail"
  refine ⟨(hleaf _).mpr ⟨⟨20, 5⟩, [⟨100, 0⟩], by decide +kernel, fun k => ?_⟩, by decide,
    (hnone.mp htail).resolve_left hnode, (htells none).mpr htail.symm⟩
  match k with
  | 0 | 1 | 2 => decide
  | k + 3 =>
      have hleafUp : (knotted.node? "leaf").bind Node.parent = some "box" := by decide
      have hboxUp : (knotted.node? "box").bind Node.parent = some "gone" := by decide
      have hgoneUp : (knotted.node? "gone").bind Node.parent = none := by decide
      simp [above?, hleafUp, hboxUp, hgoneUp]

end Scene

end WorkflowCanvas
