import Mathlib.Algebra.Field.Rat
import WorkflowCanvas.Drop.Layout
import WorkflowCanvas.Proofs.Nesting.Ancestry

/-!
Places on the canvas.

In a well nested scene every node has a place on the canvas. It depends on nothing but the parent
and the place in its frame of each node on the way up, so scenes that agree in these agree in the
places. That much holds of any scalar, since the same places are added in the same order.

In exact arithmetic the place is moreover the place in the frame of the parent, seen from the
canvas. If two scenes differ in these for one node only, then what is below that node is shifted
as the node is, and all else is where it was.
-/

namespace WorkflowCanvas

/-! ### Points -/

@[ext] theorem Point.ext_coords {p q : Point Rat} (hx : p.x = q.x) (hy : p.y = q.y) : p = q := by
  cases p
  cases q
  simp_all

theorem Point.add_add (p q r : Point Rat) : p + q + r = p + (q + r) := by
  ext
  · exact add_assoc p.x q.x r.x
  · exact add_assoc p.y q.y r.y

theorem Point.sub_add_self (p q : Point Rat) : p - q + q = p := by
  ext
  · exact sub_add_cancel p.x q.x
  · exact sub_add_cancel p.y q.y

theorem Point.add_sub_self (p q : Point Rat) : p + (q - p) = q := by
  ext
  · exact add_sub_cancel p.x q.x
  · exact add_sub_cancel p.y q.y

namespace Scene

/-! ### Places and frames -/

section Frames

variable {K : Type}

/-- What a node has to do with places: its parent, and its place in the frame of that. -/
def frame? (s : Scene K) (id : String) : Option (Option String × Point K) :=
  (Node.first? s.nodes id).map fun n => (n.parent, s.place n)

theorem node?_eq {s : Scene K} (h : Nesting.WellNested s.nodes) :
    s.node? = Node.first? s.nodes :=
  funext fun _ => Node.last?_eq_first? h.distinct

theorem frame?_of_first? {s : Scene K} {id : String} {n : Node K}
    (h : Node.first? s.nodes id = some n) : s.frame? id = some (n.parent, s.place n) := by
  rw [frame?, h, Option.map_some]

variable {s s' : Scene K} {id moved : String}

theorem frame?_congr (hdrags : s'.drags = s.drags)
    (hfirst : Node.first? s'.nodes id = Node.first? s.nodes id) : s'.frame? id = s.frame? id := by
  simp only [frame?, place, drag?, hdrags, hfirst]

/-- Scenes that agree on the way up from a node have the same places on it. -/
theorem exists_lineage?_congr (h : Nesting.WellNested s.nodes) (h' : Nesting.WellNested s'.nodes)
    (hsame : ∀ a, a = id ∨ Nesting.Below s.nodes id a → s'.frame? a = s.frame? a) :
    ∃ way way',
      Nesting.lineage? (Node.first? s.nodes) s.nodes.length (some id) = some way ∧
      Nesting.lineage? (Node.first? s'.nodes) s'.nodes.length (some id) = some way' ∧
      way'.map s'.place = way.map s.place := by
  induction id using h.acyclic.induction with
  | step id ih =>
      have hframe := hsame id (.inl rfl)
      cases hn : Node.first? s.nodes id with
      | none =>
          have hn' : Node.first? s'.nodes id = none := by simpa [frame?, hn] using hframe
          exact ⟨[], [], Nesting.lineage?_of_missing hn, Nesting.lineage?_of_missing hn', rfl⟩
      | some n =>
          rw [frame?_of_first? hn, frame?, Option.map_eq_some_iff] at hframe
          obtain ⟨n', hn', heq⟩ := hframe
          obtain ⟨hparent, hplace⟩ := Prod.mk.inj heq
          cases hup : n.parent with
          | none =>
              refine ⟨[n], [n'], h.acyclic.lineage?_cons hn ?_, h'.acyclic.lineage?_cons hn' ?_, ?_⟩
              · rw [hup, Nesting.lineage?_none]
              · rw [hparent, hup, Nesting.lineage?_none]
              · rw [List.map_singleton, List.map_singleton, hplace]
          | some parent =>
              have hstep : Node.parentOf? s.nodes id = some parent :=
                (Node.parentOf?_of_first? hn).trans hup
              obtain ⟨way, way', hway, hway', hmap⟩ := ih parent hstep fun a ha =>
                hsame a (.inr ((Nesting.below_iff_of_parent hstep).mpr (ha.imp_left Eq.symm)))
              refine ⟨n :: way, n' :: way', h.acyclic.lineage?_cons hn ?_,
                h'.acyclic.lineage?_cons hn' ?_, ?_⟩
              · rw [hup, hway]
              · rw [hparent, hup, hway']
              · rw [List.map_cons, List.map_cons, hplace, hmap]

variable [Scalar K]

/-- The place on the canvas of a point that is given in the frame of a parent. -/
def fromFrame? (s : Scene K) (parent : Option String) (p : Point K) : Option (Point K) :=
  match parent with
  | none => some p
  | some id => (s.absolute? id).map (p + ·)

theorem absolute?_of_missing {s : Scene K} (h : Nesting.WellNested s.nodes) {id : String}
    (hid : Node.first? s.nodes id = none) : s.absolute? id = none := by
  rw [absolute?, node?_eq h, hid]
  rfl

theorem absolute?_of_first? {s : Scene K} (h : Nesting.WellNested s.nodes) {id : String}
    {n : Node K} (hn : Node.first? s.nodes id = some n) {way : List (Node K)}
    (hway : Nesting.lineage? (Node.first? s.nodes) s.nodes.length n.parent = some way) :
    s.absolute? id = some (way.foldl (fun sum a => sum + s.place a) (s.place n)) := by
  rw [absolute?, node?_eq h, hn, Option.bind_eq_bind, Option.bind_some, hway]
  rfl

theorem exists_absolute? {s : Scene K} (h : Nesting.WellNested s.nodes) {id : String}
    (hid : id ∈ s.nodes.map Node.id) : ∃ p, s.absolute? id = some p := by
  obtain ⟨n, hn⟩ := Node.exists_first? hid
  obtain ⟨way, hway⟩ := h.acyclic.exists_lineage? n.parent
  exact ⟨_, absolute?_of_first? h hn hway⟩

theorem bounds?_of_first? {s : Scene K} (h : Nesting.WellNested s.nodes) {id : String}
    {n : Node K} (hn : Node.first? s.nodes id = some n) :
    s.bounds? id = (s.absolute? id).map fun origin => Rect.placed origin (n.size?.getD 0) := by
  rw [bounds?, node?_eq h, hn, Option.map_eq_bind]
  rfl

/-- Whether a node lies in the rectangle of another one, if both are there. -/
def within? (s : Scene K) (mode : Containment) (id other : String) : Option Bool := do
  let bounds ← s.bounds? id
  let area ← s.bounds? other
  some (mode.holds bounds area)

/-! ### Scenes that agree on the way up -/

/-- The place of a node depends on the frames of the node and of what it is below. -/
theorem absolute?_congr (h : Nesting.WellNested s.nodes) (h' : Nesting.WellNested s'.nodes)
    (hsame : ∀ a, a = id ∨ Nesting.Below s.nodes id a → s'.frame? a = s.frame? a) :
    s'.absolute? id = s.absolute? id := by
  have hframe := hsame id (.inl rfl)
  cases hn : Node.first? s.nodes id with
  | none =>
      have hn' : Node.first? s'.nodes id = none := by simpa [frame?, hn] using hframe
      rw [absolute?_of_missing h hn, absolute?_of_missing h' hn']
  | some n =>
      obtain ⟨all, all', hall, hall', hmap⟩ := exists_lineage?_congr h h' hsame
      obtain ⟨n', hn', _⟩ := Option.map_eq_some_iff.mp (hframe.trans (frame?_of_first? hn))
      obtain ⟨way, hway⟩ := h.acyclic.exists_lineage? n.parent
      obtain ⟨way', hway'⟩ := h'.acyclic.exists_lineage? n'.parent
      obtain rfl := Option.some.inj (hall.symm.trans (h.acyclic.lineage?_cons hn hway))
      obtain rfl := Option.some.inj (hall'.symm.trans (h'.acyclic.lineage?_cons hn' hway'))
      obtain ⟨hplace, hrest⟩ := List.cons.inj hmap
      -- the same places are added, and from the node upwards in both scenes
      rw [absolute?_of_first? h hn hway, absolute?_of_first? h' hn' hway',
        ← List.foldl_map (f := s.place) (g := (· + ·)),
        ← List.foldl_map (f := s'.place) (g := (· + ·)), hplace, hrest]

/-- What is neither a node nor below it stays when the node is moved. -/
theorem absolute?_eq_of_not_below (h : Nesting.WellNested s.nodes)
    (h' : Nesting.WellNested s'.nodes) (hsame : ∀ id, id ≠ moved → s'.frame? id = s.frame? id)
    (hne : id ≠ moved) (hbelow : ¬ Nesting.Below s.nodes id moved) :
    s'.absolute? id = s.absolute? id := by
  refine absolute?_congr h h' fun a ha => hsame a ?_
  rintro rfl
  exact ha.elim (fun heq => hne heq.symm) hbelow

end Frames

variable {s s' : Scene Rat} {id moved : String}

theorem foldl_place (s : Scene Rat) (p q : Point Rat) (way : List (Node Rat)) :
    way.foldl (fun sum a => sum + s.place a) (p + q) =
      p + way.foldl (fun sum a => sum + s.place a) q := by
  induction way generalizing q with
  | nil => rfl
  | cons a way ih => rw [List.foldl_cons, List.foldl_cons, Point.add_add, ih]

/-- A node is where its place in the frame of its parent is. -/
theorem absolute?_eq (h : Nesting.WellNested s.nodes) (id : String) :
    s.absolute? id = (s.frame? id).bind fun f => s.fromFrame? f.1 f.2 := by
  cases hn : Node.first? s.nodes id with
  | none => rw [absolute?_of_missing h hn, frame?, hn]; rfl
  | some n =>
      rw [frame?_of_first? hn, Option.bind_some]
      cases hparent : n.parent with
      | none =>
          rw [absolute?_of_first? h hn (by rw [hparent, Nesting.lineage?_none])]
          rfl
      | some parent =>
          have hup : Node.parentOf? s.nodes id = some parent :=
            (Node.parentOf?_of_first? hn).trans hparent
          obtain ⟨p, hp⟩ := Node.exists_first? (h.parent_mem_ids hup)
          obtain ⟨way, hway⟩ := h.acyclic.exists_lineage? p.parent
          have hcons := h.acyclic.lineage?_cons hp hway
          rw [← hparent] at hcons
          rw [fromFrame?, absolute?_of_first? h hn hcons, absolute?_of_first? h hp hway,
            List.foldl_cons, foldl_place, Option.map_some]

/-! ### Two scenes that differ in one node -/

/-- The node itself is where its new frame takes it, as long as that frame does not move. -/
theorem absolute?_of_frame? (h : Nesting.WellNested s.nodes) (h' : Nesting.WellNested s'.nodes)
    (hsame : ∀ id, id ≠ moved → s'.frame? id = s.frame? id) {parent : Option String}
    {p : Point Rat} (hframe : s'.frame? moved = some (parent, p))
    (hfree : ∀ q, parent = some q → q ≠ moved ∧ ¬ Nesting.Below s.nodes q moved) :
    s'.absolute? moved = s.fromFrame? parent p := by
  rw [absolute?_eq h', hframe, Option.bind_some]
  cases parent with
  | none => rfl
  | some q =>
      obtain ⟨hne, hnot⟩ := hfree q rfl
      rw [fromFrame?, fromFrame?, absolute?_eq_of_not_below h h' hsame hne hnot]

/-- What is below a node is shifted as the node is. -/
theorem absolute?_of_below (h : Nesting.WellNested s.nodes)
    (h' : Nesting.WellNested s'.nodes) (hsame : ∀ id, id ≠ moved → s'.frame? id = s.frame? id)
    {old new : Point Rat} (hold : s.absolute? moved = some old)
    (hnew : s'.absolute? moved = some new) (hbelow : Nesting.Below s.nodes id moved) :
    ∃ p, s.absolute? id = some p ∧ s'.absolute? id = some (p + (new - old)) := by
  induction id using h.acyclic.induction with
  | step id ih =>
      have hne : id ≠ moved := by
        rintro rfl
        exact h.acyclic id hbelow
      obtain ⟨n, hn⟩ := Node.exists_first? hbelow.mem_ids
      cases hparent : n.parent with
      | none =>
          have hup := (Node.parentOf?_of_first? hn).trans hparent
          exact absurd hbelow (Nesting.not_below_of_no_parent hup)
      | some parent =>
          have hup : Node.parentOf? s.nodes id = some parent :=
            (Node.parentOf?_of_first? hn).trans hparent
          -- the parent is the node that moved, or is shifted as that is
          have hshift : ∃ q, s.absolute? parent = some q ∧
              s'.absolute? parent = some (q + (new - old)) := by
            rcases (Nesting.below_iff_of_parent hup).mp hbelow with rfl | hrest
            · exact ⟨old, hold, by rw [hnew, Point.add_sub_self]⟩
            · exact ih parent hup hrest
          obtain ⟨q, hq, hq'⟩ := hshift
          refine ⟨s.place n + q, ?_, ?_⟩
          · rw [absolute?_eq h, frame?_of_first? hn, Option.bind_some, hparent, fromFrame?, hq,
              Option.map_some]
          · rw [absolute?_eq h', hsame id hne, frame?_of_first? hn, Option.bind_some, hparent,
              fromFrame?, hq', Option.map_some, Point.add_add]

end Scene

end WorkflowCanvas
