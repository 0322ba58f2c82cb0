import Mathlib.Data.Finset.Card
import Mathlib.Data.Finset.Dedup
import Mathlib.Logic.Relation
import WorkflowCanvas.Proofs.Nesting.Lookup

/-!
Being below, as a relation.

`Below` is the transitive closure of the step from a node to its parent, over any
list of nodes. A walk up that is longer than the list comes to some id twice, so it
can be cut short. That makes the bounded walk `isBelow` exact, and it bounds every
walk in a list in which parents do not run in a circle.
-/

namespace WorkflowCanvas.Nesting

variable {K : Type} {nodes nodes' : List (Node K)} {id ancestor parent : String}

/-- One or more steps from a node to its parent lead from `id` to `ancestor`. -/
def Below (nodes : List (Node K)) : String → String → Prop :=
  Relation.TransGen fun id parent => Node.parentOf? nodes id = some parent

/-- Parents do not run in a circle. -/
def Acyclic (nodes : List (Node K)) : Prop := ∀ id, ¬ Below nodes id id

/-- The ids are distinct, every parent is a batch of the list, and parents do not run
in a circle. -/
structure WellNested (nodes : List (Node K)) : Prop where
  distinct : (nodes.map Node.id).Nodup
  parents : ∀ n ∈ nodes, ∀ parent, n.parent = some parent →
    ∃ p ∈ nodes, p.id = parent ∧ p.isBatch
  acyclic : Acyclic nodes

theorem Below.single (h : Node.parentOf? nodes id = some parent) : Below nodes id parent :=
  Relation.TransGen.single h

theorem Below.head (h : Node.parentOf? nodes id = some parent) (hb : Below nodes parent ancestor) :
    Below nodes id ancestor :=
  Relation.TransGen.head h hb

theorem Below.trans {top : String} (h : Below nodes id ancestor) (h' : Below nodes ancestor top) :
    Below nodes id top :=
  Relation.TransGen.trans h h'

theorem below_iff_of_parent (h : Node.parentOf? nodes id = some parent) :
    Below nodes id ancestor ↔ parent = ancestor ∨ Below nodes parent ancestor := by
  constructor
  · intro hb
    obtain ⟨middle, hstep, hrest⟩ := Relation.TransGen.head'_iff.mp hb
    obtain rfl : middle = parent := Option.some.inj (hstep.symm.trans h)
    exact (Relation.reflTransGen_iff_eq_or_transGen.mp hrest).imp_left Eq.symm
  · rintro (rfl | hb)
    · exact .single h
    · exact .head h hb

theorem not_below_of_no_parent (h : Node.parentOf? nodes id = none) : ¬ Below nodes id ancestor := by
  intro hb
  obtain ⟨middle, hstep, _⟩ := Relation.TransGen.head'_iff.mp hb
  simp [h] at hstep

theorem Below.mem_ids (h : Below nodes id ancestor) : id ∈ nodes.map Node.id := by
  obtain ⟨middle, hstep, _⟩ := Relation.TransGen.head'_iff.mp h
  exact Node.mem_ids_of_parentOf? hstep

theorem below_congr (h : ∀ id, Node.parentOf? nodes' id = Node.parentOf? nodes id) :
    Below nodes' = Below nodes := by
  simp only [Below, h]

theorem WellNested.perm (h : WellNested nodes) (hperm : nodes'.Perm nodes) : WellNested nodes' where
  distinct := (hperm.map Node.id).nodup_iff.mpr h.distinct
  parents := by
    intro n hn parent hparent
    obtain ⟨p, hp, hid, hbatch⟩ := h.parents n (hperm.mem_iff.mp hn) parent hparent
    exact ⟨p, hperm.mem_iff.mpr hp, hid, hbatch⟩
  acyclic := by
    rw [Acyclic, below_congr fun _ => Node.parentOf?_perm h.distinct hperm]
    exact h.acyclic

theorem parent_mem_ids_of_parents
    (h : ∀ n ∈ nodes, ∀ parent, n.parent = some parent → ∃ p ∈ nodes, p.id = parent ∧ p.isBatch)
    (hparent : Node.parentOf? nodes id = some parent) : parent ∈ nodes.map Node.id := by
  obtain ⟨n, hn, hp⟩ := Node.parentOf?_eq_some.mp hparent
  obtain ⟨p, hmem, rfl, _⟩ := h n (Node.mem_of_first? hn).1 parent hp
  exact List.mem_map_of_mem hmem

theorem WellNested.parent_mem_ids (h : WellNested nodes)
    (hparent : Node.parentOf? nodes id = some parent) : parent ∈ nodes.map Node.id :=
  parent_mem_ids_of_parents h.parents hparent

/-- Only batches have something below them. -/
theorem WellNested.isBatch_of_below (h : WellNested nodes) (hbelow : Below nodes id ancestor) :
    ∃ p ∈ nodes, p.id = ancestor ∧ p.isBatch := by
  obtain ⟨child, _, hstep⟩ := Relation.TransGen.tail'_iff.mp hbelow
  obtain ⟨n, hn, hparent⟩ := Node.parentOf?_eq_some.mp hstep
  exact h.parents n (Node.mem_of_first? hn).1 ancestor hparent

/-! ### Walking a number of steps up -/

/-- The id that so many steps from a node to its parent lead to. -/
def up? (nodes : List (Node K)) : Nat → String → Option String
  | 0, id => some id
  | steps + 1, id => (Node.parentOf? nodes id).bind (up? nodes steps)

theorem up?_add (a b : Nat) (id : String) :
    up? nodes (a + b) id = (up? nodes a id).bind (up? nodes b) := by
  induction a generalizing id with
  | zero => simp [up?]
  | succ a ih => simp [Nat.succ_add, up?, ih, Option.bind_assoc]

theorem exists_up?_of_le {a b : Nat} {top : String} (hab : a ≤ b) (h : up? nodes b id = some top) :
    ∃ middle, up? nodes a id = some middle ∧ up? nodes (b - a) middle = some top := by
  rw [← Nat.add_sub_cancel' hab, up?_add] at h
  exact Option.bind_eq_some_iff.mp h

theorem below_of_up? {steps : Nat} (h : up? nodes (steps + 1) id = some ancestor) :
    Below nodes id ancestor := by
  induction steps generalizing id with
  | zero => exact .single (by simpa [up?] using h)
  | succ steps ih =>
      obtain ⟨parent, hparent, hrest⟩ := Option.bind_eq_some_iff.mp h
      exact .head hparent (ih hrest)

theorem Below.exists_up? (h : Below nodes id ancestor) :
    ∃ steps, up? nodes (steps + 1) id = some ancestor := by
  induction h using Relation.TransGen.head_induction_on with
  | single hstep => exact ⟨0, by simpa [up?] using hstep⟩
  | head hstep _ ih =>
      obtain ⟨steps, hsteps⟩ := ih
      exact ⟨steps + 1, by rw [up?, hstep]; exact hsteps⟩

theorem mem_ids_of_up? {steps i : Nat} (hi : i < steps) (h : up? nodes steps id = some ancestor) :
    ∃ middle ∈ nodes.map Node.id, up? nodes i id = some middle := by
  obtain ⟨middle, hmiddle, hrest⟩ := exists_up?_of_le hi.le h
  rw [show steps - i = (steps - i - 1) + 1 by omega] at hrest
  exact ⟨middle, (below_of_up? hrest).mem_ids, hmiddle⟩

/-- A walk over nodes that has as many steps as there are nodes comes to some id twice. -/
theorem exists_up?_repeat {steps : Nat} {last : String} (hlen : nodes.length ≤ steps)
    (h : up? nodes steps id = some last) (hlast : last ∈ nodes.map Node.id) :
    ∃ i j middle, i < j ∧ j ≤ steps ∧
      up? nodes i id = some middle ∧ up? nodes j id = some middle := by
  have hids : ∀ i ≤ steps, ∃ middle ∈ nodes.map Node.id, up? nodes i id = some middle := by
    intro i hi
    rcases Nat.lt_or_eq_of_le hi with hlt | rfl
    · exact mem_ids_of_up? hlt h
    · exact ⟨last, hlast, h⟩
  -- there are more steps than ids, so two of them lead to the same id
  have hcard : (nodes.map Node.id).toFinset.card < (Finset.range (steps + 1)).card := by
    have := List.toFinset_card_le (nodes.map Node.id)
    simp only [List.length_map] at this
    simp only [Finset.card_range]
    omega
  obtain ⟨i, hi, j, hj, hij, heq⟩ := Finset.exists_ne_map_eq_of_card_lt_of_maps_to hcard
    (f := fun i => (up? nodes i id).getD "") (by
      intro i hi
      obtain ⟨middle, hmem, hmiddle⟩ := hids i (by simpa [Nat.lt_succ_iff] using hi)
      simpa [hmiddle] using hmem)
  have hi : i ≤ steps := by simpa [Nat.lt_succ_iff] using hi
  have hj : j ≤ steps := by simpa [Nat.lt_succ_iff] using hj
  obtain ⟨a, _, ha⟩ := hids i hi
  obtain ⟨b, _, hb⟩ := hids j hj
  obtain rfl : a = b := by simpa [ha, hb] using heq
  rcases Nat.lt_or_gt_of_ne hij with hlt | hlt
  · exact ⟨i, j, a, hlt, hj, ha, hb⟩
  · exact ⟨j, i, a, hlt, hi, hb, ha⟩

/-- What is reached at all is reached in at most as many steps as there are nodes. -/
theorem exists_up?_lt {steps : Nat} (h : up? nodes (steps + 1) id = some ancestor) :
    ∃ k < nodes.length, up? nodes (k + 1) id = some ancestor := by
  induction steps using Nat.strong_induction_on with
  | _ steps ih =>
      by_cases hlen : steps < nodes.length
      · exact ⟨steps, hlen, h⟩
      · obtain ⟨last, hlast, hup⟩ := mem_ids_of_up? (Nat.lt_succ_self steps) h
        obtain ⟨i, j, middle, hij, hj, hi, hj'⟩ := exists_up?_repeat (by omega) hup hlast
        obtain ⟨middle', hmiddle', hrest⟩ := exists_up?_of_le (hj.trans (Nat.le_succ steps)) h
        obtain rfl : middle' = middle := Option.some.inj (hmiddle'.symm.trans hj')
        -- the walk without its part from step `i` to step `j`
        have hshort : up? nodes (i + (steps + 1 - j)) id = some ancestor := by
          rw [up?_add, hi]
          exact hrest
        rw [show i + (steps + 1 - j) = (steps - (j - i)) + 1 by omega] at hshort
        exact ih _ (by omega) hshort

theorem reaches_iff {steps : Nat} :
    reaches nodes ancestor steps id = true ↔
      ∃ k < steps, up? nodes (k + 1) id = some ancestor := by
  induction steps generalizing id with
  | zero => simp [reaches]
  | succ steps ih =>
      cases hp : Node.parentOf? nodes id with
      | none => simp [reaches, up?, hp]
      | some parent =>
          simp only [reaches, hp, Bool.or_eq_true, decide_eq_true_eq, ih, up?, Option.bind_some]
          constructor
          · rintro (rfl | ⟨k, hk, hup⟩)
            · exact ⟨0, by omega, rfl⟩
            · exact ⟨k + 1, by omega, hup⟩
          · rintro ⟨k, hk, hup⟩
            cases k with
            | zero => exact .inl (Option.some.inj hup)
            | succ k => exact .inr ⟨k, by omega, hup⟩

/-- Steps beyond the number of nodes find nothing more. -/
theorem reaches_length_add (more : Nat) :
    reaches nodes ancestor (nodes.length + more) id = true ↔ Below nodes id ancestor := by
  rw [reaches_iff]
  constructor
  · rintro ⟨k, _, hup⟩
    exact below_of_up? hup
  · intro h
    obtain ⟨steps, hsteps⟩ := h.exists_up?
    obtain ⟨k, hk, hup⟩ := exists_up?_lt hsteps
    exact ⟨k, by omega, hup⟩

/-- The bounded walk decides being below, whatever the list. -/
theorem isBelow_iff : isBelow nodes id ancestor = true ↔ Below nodes id ancestor :=
  reaches_length_add 1

/-! ### Without circles -/

/-- Only nodes can lie on a circle, so there are finitely many ids to try. -/
theorem acyclic_iff_isBelow :
    Acyclic nodes ↔ ∀ id ∈ nodes.map Node.id, isBelow nodes id id = false := by
  simp only [Acyclic, ← Bool.not_eq_true, isBelow_iff]
  constructor
  · exact fun h id _ => h id
  · exact fun h id hbelow => h id hbelow.mem_ids hbelow

instance : Decidable (Acyclic nodes) := decidable_of_iff _ acyclic_iff_isBelow.symm

theorem Acyclic.not_mem_ids_of_up? (hac : Acyclic nodes) {last : String}
    (h : up? nodes nodes.length id = some last) : last ∉ nodes.map Node.id := by
  intro hlast
  obtain ⟨i, j, middle, hij, _, hi, hj⟩ := exists_up?_repeat le_rfl h hlast
  obtain ⟨middle', hmiddle', hrest⟩ := exists_up?_of_le hij.le hj
  obtain rfl : middle' = middle := Option.some.inj (hmiddle'.symm.trans hi)
  rw [show j - i = (j - i - 1) + 1 by omega] at hrest
  exact hac middle' (below_of_up? hrest)

theorem Acyclic.up?_eq_none (hac : Acyclic nodes) (id : String) :
    up? nodes (nodes.length + 1) id = none := by
  cases h : up? nodes (nodes.length + 1) id with
  | none => rfl
  | some top =>
      obtain ⟨last, hlast, hup⟩ := mem_ids_of_up? (Nat.lt_succ_self _) h
      exact absurd hlast (hac.not_mem_ids_of_up? hup)

/-- What holds of an id whenever it holds of its parent holds of every id. -/
theorem Acyclic.induction {P : String → Prop} (hac : Acyclic nodes)
    (step : ∀ id, (∀ parent, Node.parentOf? nodes id = some parent → P parent) → P id)
    (id : String) : P id := by
  have hall : ∀ steps id, up? nodes steps id = none → P id := by
    intro steps
    induction steps with
    | zero => simp [up?]
    | succ steps ih =>
        intro id h
        refine step id fun parent hparent => ih parent ?_
        simpa [up?, hparent] using h
  exact hall _ id (hac.up?_eq_none id)

theorem Acyclic.parent_ne (hac : Acyclic nodes) : Node.parentOf? nodes id ≠ some id :=
  fun h => hac id (.single h)

/-! ### Nodes on the way up -/

section Lineage

variable {find? : String → Option (Node K)} {n : Node K} {steps : Nat}

@[simp] theorem lineage?_none : lineage? find? steps none = some [] := by
  cases steps <;> rfl

theorem lineage?_of_missing (h : find? id = none) : lineage? find? steps (some id) = some [] := by
  cases steps <;> simp [lineage?, h]

theorem lineage?_zero (h : find? id = some n) : lineage? find? 0 (some id) = none := by
  simp [lineage?, h]

theorem lineage?_succ (h : find? id = some n) :
    lineage? find? (steps + 1) (some id) = (lineage? find? steps n.parent).map (n :: ·) := by
  simp [lineage?, h]

theorem lineage?_mono {more : Nat} {way : List (Node K)} {reference : Option String}
    (h : lineage? find? steps reference = some way) (hle : steps ≤ more) :
    lineage? find? more reference = some way := by
  induction steps generalizing more reference way with
  | zero =>
      cases reference with
      | none => simpa using h
      | some id =>
          cases hn : find? id with
          | none => rwa [lineage?_of_missing hn] at h ⊢
          | some n => simp [lineage?_zero hn] at h
  | succ steps ih =>
      cases reference with
      | none => simpa using h
      | some id =>
          cases hn : find? id with
          | none => rwa [lineage?_of_missing hn] at h ⊢
          | some n =>
              obtain ⟨more, rfl⟩ : ∃ k, more = k + 1 := ⟨more - 1, by omega⟩
              rw [lineage?_succ hn] at h ⊢
              obtain ⟨rest, hrest, rfl⟩ := Option.map_eq_some_iff.mp h
              rw [ih hrest (by omega), Option.map_some]

theorem exists_lineage?_of_up?
    (h : ∀ last, up? nodes steps id = some last → last ∉ nodes.map Node.id) :
    ∃ way, lineage? (Node.first? nodes) steps (some id) = some way := by
  induction steps generalizing id with
  | zero => exact ⟨[], lineage?_of_missing (Node.first?_eq_none.mpr (h id rfl))⟩
  | succ steps ih =>
      cases hn : Node.first? nodes id with
      | none => exact ⟨[], lineage?_of_missing hn⟩
      | some n =>
          rw [lineage?_succ hn]
          cases hparent : n.parent with
          | none => exact ⟨[n], by simp⟩
          | some parent =>
              have hup : Node.parentOf? nodes id = some parent :=
                (Node.parentOf?_of_first? hn).trans hparent
              obtain ⟨way, hway⟩ := ih (by simpa [up?, hup] using h)
              exact ⟨n :: way, by rw [hway, Option.map_some]⟩

theorem Acyclic.exists_lineage? (hac : Acyclic nodes) (reference : Option String) :
    ∃ way, lineage? (Node.first? nodes) nodes.length reference = some way := by
  cases reference with
  | none => exact ⟨[], lineage?_none⟩
  | some id => exact exists_lineage?_of_up? fun _ => hac.not_mem_ids_of_up?

/-- The way up from a node is the node and the way up from its parent. -/
theorem Acyclic.lineage?_cons (hac : Acyclic nodes) {way : List (Node K)}
    (hn : Node.first? nodes id = some n)
    (hway : lineage? (Node.first? nodes) nodes.length n.parent = some way) :
    lineage? (Node.first? nodes) nodes.length (some id) = some (n :: way) := by
  obtain ⟨all, hall⟩ := hac.exists_lineage? (some id)
  have hlength : 0 < nodes.length := List.length_pos_of_mem (Node.mem_of_first? hn).1
  obtain ⟨k, hk⟩ : ∃ k, nodes.length = k + 1 := ⟨nodes.length - 1, by omega⟩
  rw [hk, lineage?_succ hn] at hall ⊢
  obtain ⟨rest, hrest, _⟩ := Option.map_eq_some_iff.mp hall
  -- the shorter walk from the parent ends, so a step more makes no difference to it
  have hmono := lineage?_mono hrest (Nat.le_succ k)
  rw [hk, hmono] at hway
  rw [hrest, Option.map_some, Option.some.inj hway]

end Lineage

/-! ### Giving one node another parent -/

/-- What is below what once the node `moved` has another parent: a walk up either avoids the
step that is new, or takes it once. -/
theorem below_or_of_reparent {moved : String}
    (hsame : ∀ id, id ≠ moved → Node.parentOf? nodes' id = Node.parentOf? nodes id)
    (hnew : ∀ parent, Node.parentOf? nodes' moved = some parent →
      parent ≠ moved ∧ ¬ Below nodes parent moved) (h : Below nodes' id ancestor) :
    Below nodes id ancestor ∨ ∃ parent, Node.parentOf? nodes' moved = some parent ∧
      (id = moved ∨ Below nodes id moved) ∧ (parent = ancestor ∨ Below nodes parent ancestor) := by
  induction h with
  | single hstep =>
      by_cases hid : id = moved
      · subst hid
        exact .inr ⟨_, hstep, .inl rfl, .inl rfl⟩
      · exact .inl (.single (hsame id hid ▸ hstep))
  | @tail middle top _ hstep ih =>
      -- the step out of the moved node is the only new one, and it is taken at most once
      by_cases hmiddle : middle = moved
      · subst hmiddle
        rcases ih with hbelow | ⟨parent, hparent, _, hto⟩
        · exact .inr ⟨_, hstep, .inr hbelow, .inl rfl⟩
        · rcases hto with heq | hbelow
          · exact absurd heq (hnew parent hparent).1
          · exact absurd hbelow (hnew parent hparent).2
      · have hold := Below.single (hsame middle hmiddle ▸ hstep)
        rcases ih with hbelow | ⟨parent, hparent, hfrom, hto⟩
        · exact .inl (hbelow.trans hold)
        · refine .inr ⟨parent, hparent, hfrom, .inr ?_⟩
          rcases hto with rfl | hbelow
          · exact hold
          · exact hbelow.trans hold

/-- A new parent that is neither the node itself nor below it closes no circle. -/
theorem Acyclic.reparent (hac : Acyclic nodes) {moved : String}
    (hsame : ∀ id, id ≠ moved → Node.parentOf? nodes' id = Node.parentOf? nodes id)
    (hnew : ∀ parent, Node.parentOf? nodes' moved = some parent →
      parent ≠ moved ∧ ¬ Below nodes parent moved) : Acyclic nodes' := by
  intro id h
  rcases below_or_of_reparent hsame hnew h with hbelow | ⟨parent, hparent, hfrom, hto⟩
  · exact hac id hbelow
  · obtain ⟨hne, hnot⟩ := hnew parent hparent
    rcases hfrom with rfl | hfrom <;> rcases hto with rfl | hto
    · exact hne rfl
    · exact hnot hto
    · exact hnot hfrom
    · exact hnot (hto.trans hfrom)

/-- What is below the node itself stays so. -/
theorem below_iff_of_reparent (hac : Acyclic nodes) {moved : String}
    (hsame : ∀ id, id ≠ moved → Node.parentOf? nodes' id = Node.parentOf? nodes id)
    (hnew : ∀ parent, Node.parentOf? nodes' moved = some parent →
      parent ≠ moved ∧ ¬ Below nodes parent moved) :
    Below nodes' id moved ↔ Below nodes id moved := by
  have hback : ∀ id, Below nodes' id moved → Below nodes id moved := by
    intro id h
    rcases below_or_of_reparent hsame hnew h with hbelow | ⟨parent, hparent, _, hto⟩
    · exact hbelow
    · exact (hto.elim (hnew parent hparent).1 (hnew parent hparent).2).elim
  refine ⟨hback id, fun h => ?_⟩
  have hold : ∀ parent, Node.parentOf? nodes moved = some parent →
      parent ≠ moved ∧ ¬ Below nodes' parent moved := by
    intro parent hparent
    refine ⟨?_, fun hbelow => hac moved (.head hparent (hback parent hbelow))⟩
    rintro rfl
    exact hac.parent_ne hparent
  rcases below_or_of_reparent (fun id hid => (hsame id hid).symm) hold h with
    hbelow | ⟨parent, hparent, _, hto⟩
  · exact hbelow
  · exact (hto.elim (hold parent hparent).1 (hold parent hparent).2).elim

end WorkflowCanvas.Nesting
