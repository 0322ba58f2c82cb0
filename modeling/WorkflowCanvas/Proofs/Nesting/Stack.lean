import WorkflowCanvas.Proofs.Nesting.Search

/-!
The search for a circle of parents, with a stack.

The first pass visits a node by visiting its children. Here it is said as a loop that has no depth
and no bound: it looks at the top of a stack, pushes the children of a node that is new, and is done
with a node when it comes to the top again. Every such loop ends, and it ends with what the visits
give. A node on the stack is either new, or was put there before and has been finished since: only
the node whose children are visited is open, and below it those on the way down.
-/

namespace WorkflowCanvas.Nesting

variable {K : Type} {nodes : List (Node K)} {tour tour' : Tour} {id : String}
  {seen stack : List String} {result result' : Except String Tour}

/-- Pushes those of the children that the pass has not come to. The last is pushed first, so the
first of them ends on top. -/
def push (seen children stack : List String) : List String :=
  children.foldr (fun child stack => if child ∈ seen then stack else child :: stack) stack

/-- Takes note that the pass is done with a node, unless it was so before. -/
def Tour.leave (tour : Tour) (id : String) : Tour :=
  { tour with done := if id ∈ tour.done then tour.done else id :: tour.done }

/-- How the loop ends that goes on until the stack is empty. -/
inductive Empties (nodes : List (Node K)) : List String → Tour → Except String Tour → Prop
  | empty {tour : Tour} : Empties nodes [] tour (.ok tour)
  | loop {tour : Tour} {id : String} {stack : List String} : id ∉ tour.seen →
      id ∈ childIds nodes id → Empties nodes (id :: stack) tour (.error id)
  | enter {tour : Tour} {id : String} {stack : List String} {result : Except String Tour} :
      id ∉ tour.seen → id ∉ childIds nodes id →
      Empties nodes (push (id :: tour.seen) (childIds nodes id) (id :: stack))
        { tour with seen := id :: tour.seen } result →
      Empties nodes (id :: stack) tour result
  | leave {tour : Tour} {id : String} {stack : List String} {result : Except String Tour} :
      id ∈ tour.seen → Empties nodes stack (tour.leave id) result →
      Empties nodes (id :: stack) tour result

/-- How the first pass ends, which starts the loop at every node that is new then. -/
inductive Passes (nodes : List (Node K)) : List String → Tour → Except String Tour → Prop
  | nil {tour : Tour} : Passes nodes [] tour (.ok tour)
  | skip {tour : Tour} {id : String} {rest : List String} {result : Except String Tour} :
      id ∈ tour.seen → Passes nodes rest tour result → Passes nodes (id :: rest) tour result
  | start {tour tour' : Tour} {id : String} {rest : List String} {result : Except String Tour} :
      id ∉ tour.seen → Empties nodes [id] tour (.ok tour') → Passes nodes rest tour' result →
      Passes nodes (id :: rest) tour result
  | stop {tour : Tour} {id e : String} {rest : List String} : id ∉ tour.seen →
      Empties nodes [id] tour (.error e) → Passes nodes (id :: rest) tour (.error e)

/-- What the search tells: a node that is its own parent, or else the first late parent. -/
inductive Search (nodes : List (Node K)) : Option String → Prop
  | loop {id : String} : Passes nodes (nodes.map Node.id) {} (.error id) → Search nodes (some id)
  | sweep {tour : Tour} : Passes nodes (nodes.map Node.id) {} (.ok tour) →
      Search nodes (firstLate? nodes [] tour.done)

/-! ### There is one way to go on -/

theorem Empties.unique (h : Empties nodes stack tour result)
    (h' : Empties nodes stack tour result') : result = result' := by
  induction h generalizing result' with
  | empty =>
      cases h'
      rfl
  | loop hnew hloop =>
      cases h' with
      | loop => rfl
      | enter _ hfree => exact absurd hloop hfree
      | leave hseen => exact absurd hseen hnew
  | enter hnew hfree _ ih =>
      cases h' with
      | loop _ hloop => exact absurd hloop hfree
      | enter _ _ hrest => exact ih hrest
      | leave hseen => exact absurd hseen hnew
  | leave hseen _ ih =>
      cases h' with
      | loop hnew => exact absurd hseen hnew
      | enter hnew => exact absurd hseen hnew
      | leave _ hrest => exact ih hrest

theorem Passes.unique {ids : List String} (h : Passes nodes ids tour result)
    (h' : Passes nodes ids tour result') : result = result' := by
  induction h generalizing result' with
  | nil =>
      cases h'
      rfl
  | skip hseen _ ih =>
      cases h' with
      | skip _ hrest => exact ih hrest
      | start hnew => exact absurd hseen hnew
      | stop hnew => exact absurd hseen hnew
  | start hnew hloop _ ih =>
      cases h' with
      | skip hseen => exact absurd hseen hnew
      | start _ hloop' hrest =>
          obtain rfl := Except.ok.inj (hloop.unique hloop')
          exact ih hrest
      | stop _ hloop' => cases hloop.unique hloop'
  | stop hnew hloop =>
      cases h' with
      | skip hseen => exact absurd hseen hnew
      | start _ hloop' => cases hloop.unique hloop'
      | stop _ hloop' => exact hloop.unique hloop'

theorem Search.unique {told told' : Option String} (h : Search nodes told)
    (h' : Search nodes told') : told = told' := by
  cases h with
  | loop hpass =>
      cases h' with
      | loop hpass' => rw [Except.error.inj (hpass.unique hpass')]
      | sweep hpass' => cases hpass.unique hpass'
  | sweep hpass =>
      cases h' with
      | loop hpass' => cases hpass.unique hpass'
      | sweep hpass' => rw [Except.ok.inj (hpass.unique hpass')]

/-! ### Visits and the stack -/

theorem visit_of_seen {depth : Nat} (h : id ∈ tour.seen) : visit nodes depth tour id = .ok tour := by
  cases depth with
  | zero => rfl
  | succ depth => rw [visit, if_pos h]

theorem Tour.leave_of_not_open (hseen : id ∈ tour.seen) (h : ¬ tour.Open id) :
    tour.leave id = tour := by
  have hdone : id ∈ tour.done := by
    by_contra hdone
    exact h ⟨hseen, hdone⟩
  rw [Tour.leave, if_pos hdone]

theorem Tour.leave_of_open (h : tour.Open id) :
    tour.leave id = { tour with done := id :: tour.done } := by
  rw [Tour.leave, if_neg h.2]

/-- Going on with the stack from what a visit gives. -/
def Resumes (nodes : List (Node K)) (stack : List String) :
    Except String Tour → Except String Tour → Prop
  | .ok tour, result => Empties nodes stack tour result
  | .error id, result => result = .error id

/-- The statement on one visit: a node on top of the stack is dealt with as the visit does. -/
def VisitsByStack (nodes : List (Node K)) (depth : Nat) : Prop :=
  ∀ tour id stack result, tour.Sound nodes → id ∈ nodes.map Node.id →
    nodes.length ≤ depth + tour.seen.length → (∀ x, tour.Open x → Below nodes id x) →
    ¬ tour.Open id → Resumes nodes stack (visit nodes depth tour id) result →
    Empties nodes (id :: stack) tour result

theorem VisitsByStack.foldlM {depth : Nat} (hvisit : VisitsByStack nodes depth)
    (hsound : VisitsSoundly nodes depth) (ids : List String) (h : tour.Sound nodes)
    (hids : ∀ id ∈ ids, id ∈ nodes.map Node.id)
    (hdepth : nodes.length ≤ depth + tour.seen.length)
    (hopen : ∀ id ∈ ids, ∀ x, tour.Open x → Below nodes id x)
    (hseen : ∀ id ∈ seen, id ∈ tour.seen) (hfresh : ∀ id ∈ ids, id ∈ seen ∨ ¬ tour.Open id)
    (hresume : Resumes nodes stack (ids.foldlM (visit nodes depth) tour) result) :
    Empties nodes (push seen ids stack) tour result := by
  induction ids generalizing tour with
  | nil => exact hresume
  | cons id ids ih =>
      obtain ⟨hid, hids⟩ := List.forall_mem_cons.mp hids
      obtain ⟨hidOpen, hopen⟩ := List.forall_mem_cons.mp hopen
      obtain ⟨hidFresh, hfresh⟩ := List.forall_mem_cons.mp hfresh
      rw [List.foldlM_cons] at hresume
      rw [push, List.foldr_cons]
      split
      · rename_i hold
        rw [visit_of_seen (hseen id hold)] at hresume
        exact ih h hids hdepth hopen hseen hfresh hresume
      · rename_i hnew
        refine hvisit tour id _ result h hid hdepth hidOpen (hidFresh.resolve_left hnew) ?_
        cases hfirst : visit nodes depth tour id with
        | error e =>
            rw [hfirst] at hresume
            exact hresume
        | ok middle =>
            rw [hfirst] at hresume
            obtain ⟨hmiddle, hext, -⟩ := hsound tour middle id hfirst h hid hdepth hidOpen
            have hgrown := h.seen_length_le hext
            exact ih hmiddle hids (by omega)
              (fun x hx y hy => hopen x hx y ((hext.openSame y).mp hy))
              (fun x hx => hext.seen x (hseen x hx))
              (fun x hx => (hfresh x hx).imp_right fun hnot hx => hnot ((hext.openSame x).mp hx))
              hresume

theorem visitsByStack (hnd : (nodes.map Node.id).Nodup) (depth : Nat) :
    VisitsByStack nodes depth := by
  -- a node that the pass has come to, and that is not open, is taken off the stack
  have hleave : ∀ {depth : Nat} {tour : Tour} {id : String} {stack : List String}
      {result : Except String Tour}, id ∈ tour.seen → ¬ tour.Open id →
      Resumes nodes stack (visit nodes depth tour id) result →
      Empties nodes (id :: stack) tour result := by
    intro depth tour id stack result hseen hclosed hresume
    rw [visit_of_seen hseen] at hresume
    refine .leave hseen ?_
    rw [Tour.leave_of_not_open hseen hclosed]
    exact hresume
  induction depth with
  | zero =>
      intro tour id stack result h hid hdepth _ hclosed hresume
      exact hleave (h.mem_seen_of_length_le (by simpa using hdepth) hid) hclosed hresume
  | succ depth ih =>
      intro tour id stack result h hid hdepth hopen hclosed hresume
      by_cases hseen : id ∈ tour.seen
      · exact hleave hseen hclosed hresume
      rw [visit, if_neg hseen] at hresume
      split at hresume
      · rename_i hloop
        obtain rfl : result = .error id := hresume
        exact .loop hseen hloop
      rename_i hloop
      refine .enter hseen hloop ?_
      have hnoLoop : Node.parentOf? nodes id ≠ some id := fun hp => hloop ((mem_childIds hnd).mpr hp)
      have hentered : Tour.Sound nodes { tour with seen := id :: tour.seen } :=
        h.enter hid hseen hnoLoop
      have hids : ∀ child ∈ childIds nodes id, child ∈ nodes.map Node.id :=
        fun child hchild => Node.mem_ids_of_parentOf? ((mem_childIds hnd).mp hchild)
      have hrest : nodes.length ≤ depth + (id :: tour.seen).length := by
        rw [List.length_cons]
        omega
      have habove := h.below_of_enter hnd hseen hopen
      refine ih.foldlM (visitsSoundly hnd depth) (childIds nodes id) hentered hids hrest habove
        (fun _ hx => hx) (fun child _ => ?_) ?_
      · exact (Classical.em _).imp_right fun hnew hchild => hnew hchild.1
      dsimp only at hresume
      cases hfold : (childIds nodes id).foldlM (visit nodes depth)
          { tour with seen := id :: tour.seen } with
      | error e =>
          rw [hfold] at hresume
          exact hresume
      | ok middle =>
          rw [hfold] at hresume
          obtain ⟨-, hext, -⟩ := (visitsSoundly hnd depth).foldlM (childIds nodes id) hfold
            hentered hids hrest habove
          have hidOpen : middle.Open id := by
            rw [hext.openSame, Tour.open_enter fun hdone => hseen (h.done_seen id hdone)]
            exact .inl rfl
          refine .leave hidOpen.1 ?_
          rw [Tour.leave_of_open hidOpen]
          exact hresume

/-! ### The search as a whole -/

theorem passes_foldlM (hnd : (nodes.map Node.id).Nodup) (ids : List String) (h : tour.Sound nodes)
    (hids : ∀ id ∈ ids, id ∈ nodes.map Node.id) (hclosed : ∀ x, ¬ tour.Open x) :
    Passes nodes ids tour (ids.foldlM (visit nodes nodes.length) tour) := by
  induction ids generalizing tour with
  | nil => exact .nil
  | cons id ids ih =>
      obtain ⟨hid, hids⟩ := List.forall_mem_cons.mp hids
      have hdepth : nodes.length ≤ nodes.length + tour.seen.length := Nat.le_add_right _ _
      have hopen : ∀ x, tour.Open x → Below nodes id x := fun x hx => absurd hx (hclosed x)
      rw [List.foldlM_cons]
      by_cases hseen : id ∈ tour.seen
      · rw [visit_of_seen hseen]
        exact .skip hseen (ih h hids hclosed)
      have hloop := visitsByStack hnd nodes.length tour id []
        (visit nodes nodes.length tour id) h hid hdepth hopen (hclosed id)
      cases hfirst : visit nodes nodes.length tour id with
      | error e =>
          rw [hfirst] at hloop
          exact .stop hseen (hloop rfl)
      | ok middle =>
          rw [hfirst] at hloop
          obtain ⟨hmiddle, hext, -⟩ := visitsSoundly hnd nodes.length tour middle id hfirst h hid
            hdepth hopen
          exact .start hseen (hloop .empty)
            (ih hmiddle hids fun x hx => hclosed x ((hext.openSame x).mp hx))

theorem search_cycle? (hnd : (nodes.map Node.id).Nodup) : Search nodes (cycle? nodes) := by
  have hpass : Passes nodes (nodes.map Node.id) {} _ :=
    passes_foldlM hnd (nodes.map Node.id) (sound_start nodes) (fun _ hid => hid)
      (by simp [Tour.Open])
  rw [cycle?]
  split
  · rename_i e hrun
    rw [hrun] at hpass
    exact .loop hpass
  · rename_i tour hrun
    rw [hrun] at hpass
    exact .sweep hpass

/-- Let ids be distinct and every parent be listed. Then the search with a stack ends, and tells
what the visits tell. It tells a node exactly if some node is above itself, and the node that it
tells is above itself: not merely below a circle, and not in a part without one. -/
theorem search_tells_circle (nodes : List (Node K)) (hnd : (nodes.map Node.id).Nodup)
    (hparents : ∀ n ∈ nodes, ∀ parent, n.parent = some parent → parent ∈ nodes.map Node.id) :
    (∀ told, Search nodes told ↔ told = cycle? nodes) ∧
      (cycle? nodes ≠ none ↔ ∃ n ∈ nodes, Below nodes n.id n.id) ∧
      ∀ id, cycle? nodes = some id → id ∈ nodes.map Node.id ∧ Below nodes id id := by
  have hlisted : ∀ id parent, Node.parentOf? nodes id = some parent →
      parent ∈ nodes.map Node.id := by
    intro id parent hup
    obtain ⟨n, hn, hparent⟩ := Node.parentOf?_eq_some.mp hup
    exact hparents n (Node.mem_of_first? hn).1 parent hparent
  refine ⟨fun told => ⟨fun h => h.unique (search_cycle? hnd), ?_⟩, ?_, fun id hid => ?_⟩
  · rintro rfl
    exact search_cycle? hnd
  · rw [ne_eq, cycle?_eq_none_iff hnd hlisted, Acyclic, not_forall_not]
    constructor
    · rintro ⟨id, hbelow⟩
      obtain ⟨n, hn, rfl⟩ := List.mem_map.mp hbelow.mem_ids
      exact ⟨n, hn, hbelow⟩
    · rintro ⟨n, _, hbelow⟩
      exact ⟨n.id, hbelow⟩
  · have hbelow := below_of_cycle? hnd hlisted hid
    exact ⟨hbelow.mem_ids, hbelow⟩

/-- A circle of three batches with two more hanging below it, and a part without a circle that stands
in front. -/
def tangle : List (Node Rat) :=
  let batch (id : String) (parent : Option String) : Node Rat :=
    { id, kind := .batch, position := ⟨0, 0⟩, parent }
  [batch "free" none, batch "tail" (some "b"), batch "inside" (some "free"), batch "a" (some "c"),
    batch "b" (some "a"), batch "c" (some "b"), batch "end" (some "tail")]

/-- The search starts in the free part and then below the circle, and tells a node on it. -/
theorem search_tells_circle_tangle :
    (tangle.map Node.id).Nodup ∧
      (∀ n ∈ tangle, ∀ parent, n.parent = some parent → parent ∈ tangle.map Node.id) ∧
      Search tangle (some "c") ∧ Below tangle "c" "c" ∧ ¬ Below tangle "tail" "tail" := by
  have hnd : (tangle.map Node.id).Nodup := by decide
  have hparents : ∀ n ∈ tangle, ∀ parent, n.parent = some parent →
      parent ∈ tangle.map Node.id := by
    have hlisted : ∀ n ∈ tangle, ∀ parent ∈ n.parent, parent ∈ tangle.map Node.id := by decide
    exact hlisted
  have hcycle : cycle? tangle = some "c" := by decide
  obtain ⟨hsearch, -, hcircle⟩ := search_tells_circle tangle hnd hparents
  refine ⟨hnd, hparents, (hsearch _).mpr hcycle.symm, (hcircle "c" hcycle).2, ?_⟩
  rw [← isBelow_iff]
  decide

end WorkflowCanvas.Nesting
