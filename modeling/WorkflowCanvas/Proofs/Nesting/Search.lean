import WorkflowCanvas.Nesting.Cycle
import WorkflowCanvas.Proofs.Nesting.Ancestry
import WorkflowCanvas.Proofs.Basic

/-!
The search for a circle of parents finds one exactly if there is one.

`Tour.Sound` is what holds throughout the first pass. Its last field carries the
argument: a child of a node that is done was done before it, or lies above it and so
shares a circle with it. The second pass reports a parent that was done before its
child, and by that field such a parent is on a circle.
-/

namespace WorkflowCanvas.Nesting

variable {K : Type} {nodes : List (Node K)} {tour tour' : Tour} {id : String}

theorem mem_childIds (hnd : (nodes.map Node.id).Nodup) {child parent : String} :
    child ∈ childIds nodes parent ↔ Node.parentOf? nodes child = some parent := by
  simp only [childIds, List.mem_map, List.mem_filter, decide_eq_true_eq, Node.parentOf?_eq_some,
    Node.first?_eq_some_iff hnd]
  constructor
  · rintro ⟨n, ⟨hn, hp⟩, rfl⟩
    exact ⟨n, ⟨hn, rfl⟩, hp⟩
  · rintro ⟨n, ⟨hn, rfl⟩, hp⟩
    exact ⟨n, ⟨hn, hp⟩, rfl⟩

/-! ### The first pass -/

/-- A node that the pass has come to and is not done with. -/
def Tour.Open (tour : Tour) (id : String) : Prop := id ∈ tour.seen ∧ id ∉ tour.done

theorem Tour.open_enter (hnew : id ∉ tour.done) (x : String) :
    Tour.Open { tour with seen := id :: tour.seen } x ↔ x = id ∨ tour.Open x := by
  simp only [Tour.Open, List.mem_cons]
  constructor
  · rintro ⟨rfl | hx, hdone⟩
    · exact .inl rfl
    · exact .inr ⟨hx, hdone⟩
  · rintro (rfl | ⟨hx, hdone⟩)
    · exact ⟨.inl rfl, hnew⟩
    · exact ⟨.inr hx, hdone⟩

theorem Tour.open_finish (x : String) :
    Tour.Open { tour with done := id :: tour.done } x ↔ x ≠ id ∧ tour.Open x := by
  simp only [Tour.Open, List.mem_cons, not_or]
  exact and_left_comm

structure Tour.Sound (nodes : List (Node K)) (tour : Tour) : Prop where
  seen_nodup : tour.seen.Nodup
  seen_ids : ∀ id ∈ tour.seen, id ∈ nodes.map Node.id
  done_nodup : tour.done.Nodup
  done_seen : ∀ id ∈ tour.done, id ∈ tour.seen
  no_loop : ∀ id ∈ tour.seen, Node.parentOf? nodes id ≠ some id
  children_later : ∀ before id after, tour.done = before ++ id :: after →
    ∀ child, Node.parentOf? nodes child = some id → child ∈ after ∨ Below nodes id child

theorem sound_start (nodes : List (Node K)) : Tour.Sound nodes {} :=
  ⟨by simp, by simp, by simp, by simp, by simp, by simp⟩

/-- What a visit preserves: it forgets no node it has come to, and the nodes it leaves
open are those that were open before. -/
structure Tour.Extends (tour tour' : Tour) : Prop where
  seen : ∀ id ∈ tour.seen, id ∈ tour'.seen
  openSame : ∀ id, tour'.Open id ↔ tour.Open id

theorem Tour.Extends.refl (tour : Tour) : tour.Extends tour :=
  ⟨fun _ h => h, fun _ => Iff.rfl⟩

theorem Tour.Extends.trans {tour'' : Tour} (h : tour.Extends tour') (h' : tour'.Extends tour'') :
    tour.Extends tour'' :=
  ⟨fun id hid => h'.seen id (h.seen id hid), fun id => (h'.openSame id).trans (h.openSame id)⟩

theorem Tour.Sound.seen_length_le (h : tour.Sound nodes) (hext : tour.Extends tour') :
    tour.seen.length ≤ tour'.seen.length :=
  (h.seen_nodup.subperm hext.seen).length_le

/-- A pass that has come to as many nodes as there are has come to each of them. -/
theorem Tour.Sound.mem_seen_of_length_le (h : tour.Sound nodes)
    (hlen : nodes.length ≤ tour.seen.length) (hid : id ∈ nodes.map Node.id) : id ∈ tour.seen := by
  have hsub : tour.seen.Subperm (nodes.map Node.id) := h.seen_nodup.subperm h.seen_ids
  have hperm := hsub.perm_of_length_le (by simpa using hlen)
  exact hperm.mem_iff.mpr hid

/-- A node is done with after its children, which are not open then unless they lie
above it. -/
theorem Tour.Sound.finish (h : tour.Sound nodes) (hid : tour.Open id)
    (hchildren : ∀ child, Node.parentOf? nodes child = some id → child ∈ tour.seen)
    (hopen : ∀ x, tour.Open x → x = id ∨ Below nodes id x) :
    Tour.Sound nodes { tour with done := id :: tour.done } where
  seen_nodup := h.seen_nodup
  seen_ids := h.seen_ids
  done_nodup := List.nodup_cons.mpr ⟨hid.2, h.done_nodup⟩
  done_seen := by
    intro x hx
    rcases List.mem_cons.mp hx with rfl | hx
    · exact hid.1
    · exact h.done_seen x hx
  no_loop := h.no_loop
  children_later := by
    intro before x after hsplit child hchild
    cases before with
    | nil =>
        obtain ⟨rfl, rfl⟩ := List.cons.inj hsplit
        by_cases hdone : child ∈ tour.done
        · exact .inl hdone
        · rcases hopen child ⟨hchildren child hchild, hdone⟩ with rfl | hbelow
          · exact absurd hchild (h.no_loop child hid.1)
          · exact .inr hbelow
    | cons first before =>
        obtain ⟨_, htail⟩ := List.cons.inj hsplit
        exact h.children_later before x after htail child hchild

theorem Tour.Sound.enter (h : tour.Sound nodes) (hmem : id ∈ nodes.map Node.id)
    (hnew : id ∉ tour.seen) (hloop : Node.parentOf? nodes id ≠ some id) :
    Tour.Sound nodes { tour with seen := id :: tour.seen } where
  seen_nodup := List.nodup_cons.mpr ⟨hnew, h.seen_nodup⟩
  seen_ids := by
    intro x hx
    rcases List.mem_cons.mp hx with rfl | hx
    · exact hmem
    · exact h.seen_ids x hx
  done_nodup := h.done_nodup
  done_seen := fun x hx => List.mem_cons_of_mem _ (h.done_seen x hx)
  no_loop := by
    intro x hx
    rcases List.mem_cons.mp hx with rfl | hx
    · exact hloop
    · exact h.no_loop x hx
  children_later := h.children_later

/-- While the children of a node are visited, the node itself is open besides what was open
before, and all of that lies above the children. -/
theorem Tour.Sound.below_of_enter (h : tour.Sound nodes) (hnd : (nodes.map Node.id).Nodup)
    (hnew : id ∉ tour.seen) (hopen : ∀ x, tour.Open x → Below nodes id x) :
    ∀ child ∈ childIds nodes id, ∀ x, Tour.Open { tour with seen := id :: tour.seen } x →
      Below nodes child x := by
  intro child hchild x hx
  rw [mem_childIds hnd] at hchild
  rcases (Tour.open_enter (fun hdone => hnew (h.done_seen id hdone)) x).mp hx with rfl | hx
  · exact .single hchild
  · exact .head hchild (hopen x hx)

/-- The statement on one visit. The nodes on the way down to it are the open ones, so
they lie above the node visited. -/
def VisitsSoundly (nodes : List (Node K)) (depth : Nat) : Prop :=
  ∀ tour tour' id, visit nodes depth tour id = .ok tour' → tour.Sound nodes →
    id ∈ nodes.map Node.id → nodes.length ≤ depth + tour.seen.length →
    (∀ x, tour.Open x → Below nodes id x) →
    tour'.Sound nodes ∧ tour.Extends tour' ∧ id ∈ tour'.seen

theorem VisitsSoundly.foldlM {depth : Nat} (hvisit : VisitsSoundly nodes depth) (ids : List String)
    (hrun : ids.foldlM (visit nodes depth) tour = .ok tour') (h : tour.Sound nodes)
    (hids : ∀ id ∈ ids, id ∈ nodes.map Node.id)
    (hdepth : nodes.length ≤ depth + tour.seen.length)
    (hopen : ∀ id ∈ ids, ∀ x, tour.Open x → Below nodes id x) :
    tour'.Sound nodes ∧ tour.Extends tour' ∧ ∀ id ∈ ids, id ∈ tour'.seen := by
  induction ids generalizing tour with
  | nil =>
      obtain rfl : tour = tour' := by simpa [pure, Except.pure] using hrun
      exact ⟨h, .refl tour, by simp⟩
  | cons id ids ih =>
      rw [List.foldlM_cons] at hrun
      obtain ⟨middle, hfirst, hrun⟩ := Outcome.bind_eq_ok_iff.mp hrun
      obtain ⟨hmiddle, hext, hseen⟩ := hvisit tour middle id hfirst h
        (hids id List.mem_cons_self) hdepth (hopen id List.mem_cons_self)
      have hgrown := h.seen_length_le hext
      obtain ⟨hsound, hext', hrest⟩ := ih hrun hmiddle
        (fun x hx => hids x (List.mem_cons_of_mem _ hx)) (by omega)
        (fun x hx y hy => hopen x (List.mem_cons_of_mem _ hx) y ((hext.openSame y).mp hy))
      refine ⟨hsound, hext.trans hext', ?_⟩
      intro x hx
      rcases List.mem_cons.mp hx with rfl | hx
      · exact hext'.seen x hseen
      · exact hrest x hx

theorem visitsSoundly (hnd : (nodes.map Node.id).Nodup) (depth : Nat) :
    VisitsSoundly nodes depth := by
  induction depth with
  | zero =>
      intro tour tour' id hrun h hid hdepth _
      obtain rfl : tour = tour' := by simpa [visit] using hrun
      exact ⟨h, .refl tour, h.mem_seen_of_length_le (by simpa using hdepth) hid⟩
  | succ depth ih =>
      intro tour tour' id hrun h hid hdepth hopen
      rw [visit] at hrun
      split at hrun
      · rename_i hseen
        obtain rfl : tour = tour' := by simpa using hrun
        exact ⟨h, .refl tour, hseen⟩
      split at hrun
      · cases hrun
      rename_i hnew hloop
      rw [mem_childIds hnd] at hloop
      obtain ⟨middle, hfold, hlast⟩ := Outcome.bind_eq_ok_iff.mp hrun
      obtain rfl : { middle with done := id :: middle.done } = tour' := Except.ok.inj hlast
      have hentered := Tour.open_enter fun hdone => hnew (h.done_seen id hdone)
      obtain ⟨hmiddle, hext, hchildren⟩ := ih.foldlM (childIds nodes id) hfold
        (h.enter hid hnew hloop)
        (fun child hchild => Node.mem_ids_of_parentOf? ((mem_childIds hnd).mp hchild))
        (by simp only [List.length_cons]; omega) (h.below_of_enter hnd hnew hopen)
      have hmiddleOpen := fun x => (hext.openSame x).trans (hentered x)
      have hfinish : Tour.Sound nodes { middle with done := id :: middle.done } := by
        refine hmiddle.finish ((hmiddleOpen id).mpr (.inl rfl)) ?_ ?_
        · exact fun child hchild => hchildren child ((mem_childIds hnd).mpr hchild)
        · exact fun x hx => ((hmiddleOpen x).mp hx).imp_right (hopen x)
      refine ⟨hfinish, ⟨fun x hx => hext.seen x (List.mem_cons_of_mem _ hx), fun x => ?_⟩,
        hext.seen id List.mem_cons_self⟩
      rw [Tour.open_finish, hmiddleOpen]
      constructor
      · rintro ⟨hne, heq | hx⟩
        · exact absurd heq hne
        · exact hx
      · intro hx
        refine ⟨?_, .inr hx⟩
        rintro rfl
        exact hnew hx.1

theorem exists_of_foldlM_eq_error {depth : Nat} {ids : List String} {e : String}
    (hrun : ids.foldlM (visit nodes depth) tour = .error e) :
    ∃ tour id, visit nodes depth tour id = .error e := by
  induction ids generalizing tour with
  | nil => simp [pure, Except.pure] at hrun
  | cons id ids ih =>
      rw [List.foldlM_cons] at hrun
      rcases Outcome.bind_eq_error_iff.mp hrun with hfirst | ⟨middle, _, hrest⟩
      · exact ⟨tour, id, hfirst⟩
      · exact ih hrest

/-- The first pass stops only at a node that is its own parent. -/
theorem visit_eq_error (hnd : (nodes.map Node.id).Nodup) {depth : Nat} {e : String}
    (hrun : visit nodes depth tour id = .error e) : Node.parentOf? nodes e = some e := by
  induction depth generalizing tour id with
  | zero => simp [visit] at hrun
  | succ depth ih =>
      rw [visit] at hrun
      split at hrun
      · cases hrun
      split at hrun
      · rename_i hloop
        obtain rfl : id = e := by simpa using hrun
        exact (mem_childIds hnd).mp hloop
      · rcases Outcome.bind_eq_error_iff.mp hrun with hchildren | ⟨middle, _, hdone⟩
        · obtain ⟨tour', child, hchild⟩ := exists_of_foldlM_eq_error hchildren
          exact ih hchild
        · cases hdone

/-- The first pass from the start: it is done with every node. -/
theorem tour_spec (hnd : (nodes.map Node.id).Nodup)
    (hrun : (nodes.map Node.id).foldlM (visit nodes nodes.length) {} = .ok tour) :
    tour.Sound nodes ∧ ∀ id ∈ nodes.map Node.id, id ∈ tour.done := by
  obtain ⟨hsound, hext, hseen⟩ := (visitsSoundly hnd nodes.length).foldlM _ hrun
    (sound_start nodes) (fun _ h => h) (by simp) (fun _ _ x hx => by simp [Tour.Open] at hx)
  refine ⟨hsound, fun id hid => ?_⟩
  by_contra hdone
  have := (hext.openSame id).mp ⟨hseen id hid, hdone⟩
  simp [Tour.Open] at this

/-! ### The second pass -/

theorem firstLate?_eq_some {met order : List String} {late : String}
    (h : firstLate? nodes met order = some late) :
    ∃ before id after, order = before ++ id :: after ∧ Node.parentOf? nodes id = some late ∧
      late ≠ id ∧ late ∉ before ∧ late ∉ met := by
  induction order generalizing met with
  | nil => simp [firstLate?] at h
  | cons id rest ih =>
      have hlater (hrest : firstLate? nodes (id :: met) rest = some late) :
          ∃ before id' after, id :: rest = before ++ id' :: after ∧
            Node.parentOf? nodes id' = some late ∧ late ≠ id' ∧ late ∉ before ∧ late ∉ met := by
        obtain ⟨before, id', after, rfl, hparent, hne, hbefore, hmet⟩ := ih hrest
        rw [List.mem_cons, not_or] at hmet
        exact ⟨id :: before, id', after, rfl, hparent, hne, by simp [hmet.1, hbefore], hmet.2⟩
      rw [firstLate?] at h
      split at h
      · rename_i parent hparent
        split at h
        · exact hlater h
        · rename_i hlate
          obtain rfl : parent = late := by simpa using h
          rw [List.mem_cons, not_or] at hlate
          exact ⟨[], id, rest, rfl, hparent, hlate.1, by simp, hlate.2⟩
      · exact hlater h

theorem firstLate?_eq_none {met order before after : List String} {parent : String}
    (h : firstLate? nodes met order = none) (hsplit : order = before ++ id :: after)
    (hparent : Node.parentOf? nodes id = some parent) :
    parent = id ∨ parent ∈ before ∨ parent ∈ met := by
  induction before generalizing met order with
  | nil =>
      subst hsplit
      simp only [List.nil_append, firstLate?, hparent] at h
      split at h
      · rename_i hmet
        exact (List.mem_cons.mp hmet).imp_right .inr
      · cases h
  | cons first before ih =>
      subst hsplit
      rw [List.cons_append, firstLate?] at h
      have hrest : firstLate? nodes (first :: met) (before ++ id :: after) = none := by
        split at h
        · split at h
          · exact h
          · cases h
        · exact h
      rcases ih hrest rfl with heq | hbefore | hmet
      · exact .inl heq
      · exact .inr (.inl (List.mem_cons_of_mem _ hbefore))
      · rcases List.mem_cons.mp hmet with rfl | hmet
        · exact .inr (.inl List.mem_cons_self)
        · exact .inr (.inr hmet)

/-! ### The search as a whole -/

/-- A node that the search names is on a circle of parents. -/
theorem below_of_cycle? (hnd : (nodes.map Node.id).Nodup)
    (hparents : ∀ id parent, Node.parentOf? nodes id = some parent → parent ∈ nodes.map Node.id)
    (h : cycle? nodes = some id) : Below nodes id id := by
  rw [cycle?] at h
  split at h
  · rename_i e hrun
    obtain rfl : e = id := by simpa using h
    obtain ⟨tour, start, hvisit⟩ := exists_of_foldlM_eq_error hrun
    exact .single (visit_eq_error hnd hvisit)
  · rename_i tour hrun
    obtain ⟨hsound, hdone⟩ := tour_spec hnd hrun
    obtain ⟨before, child, after, hsplit, hparent, hne, hbefore, -⟩ := firstLate?_eq_some h
    -- every node is done, and a late parent was done before its child
    have hmem : id ∈ after := by
      have := hdone id (hparents child id hparent)
      simpa [hsplit, hne, hbefore] using this
    obtain ⟨middle, rest, rfl⟩ := List.append_of_mem hmem
    have hnodup := hsound.done_nodup
    have hsplit' : tour.done = (before ++ child :: middle) ++ id :: rest := by simp [hsplit]
    rcases hsound.children_later _ id rest hsplit' child hparent with hrest | hbelow
    · rw [hsplit'] at hnodup
      exact absurd hrest (by grind)
    · exact hbelow.trans (.single hparent)

/-- Where no parent comes late, every step up leads further to the front of the order. -/
theorem acyclic_of_cycle? (hnd : (nodes.map Node.id).Nodup) (h : cycle? nodes = none) :
    Acyclic nodes := by
  rw [cycle?] at h
  split at h
  · cases h
  rename_i tour hrun
  obtain ⟨hsound, hdone⟩ := tour_spec hnd hrun
  have hstep : ∀ id parent, Node.parentOf? nodes id = some parent →
      tour.done.idxOf parent < tour.done.idxOf id := by
    intro id parent hparent
    have hmem := hdone id (Node.mem_ids_of_parentOf? hparent)
    obtain ⟨before, after, hsplit, hfirst⟩ := List.eq_append_cons_of_mem hmem
    rcases firstLate?_eq_none h hsplit hparent with rfl | hbefore | hmet
    · exact absurd hparent (hsound.no_loop parent (hsound.done_seen parent hmem))
    · rw [hsplit, List.idxOf_append_of_mem hbefore, List.idxOf_append_of_notMem hfirst]
      simpa using List.idxOf_lt_length_of_mem hbefore
    · simp at hmet
  have hbelow : ∀ id ancestor, Below nodes id ancestor →
      tour.done.idxOf ancestor < tour.done.idxOf id := by
    intro id ancestor hb
    induction hb with
    | single hparent => exact hstep _ _ hparent
    | tail _ hparent ih => exact (hstep _ _ hparent).trans ih
  exact fun id hb => lt_irrefl _ (hbelow id id hb)

theorem cycle?_eq_none_iff (hnd : (nodes.map Node.id).Nodup)
    (hparents : ∀ id parent, Node.parentOf? nodes id = some parent → parent ∈ nodes.map Node.id) :
    cycle? nodes = none ↔ Acyclic nodes := by
  constructor
  · exact acyclic_of_cycle? hnd
  · intro hac
    cases hc : cycle? nodes with
    | none => rfl
    | some id => exact absurd (below_of_cycle? hnd hparents hc) (hac id)

end WorkflowCanvas.Nesting
