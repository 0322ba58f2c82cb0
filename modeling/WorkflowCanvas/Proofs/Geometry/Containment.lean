import Mathlib.Algebra.Order.Field.Rat
import Mathlib.Tactic.Linarith
import WorkflowCanvas.Geometry.Containment

/-!
Comparing areas decides containment.

Whether a node lies in an area is tested on areas and never on edges. In exact arithmetic this
tells the same: what two rectangles share is a product of two lengths, and none of them is longer
than the side of the node along its axis. So the product is as large as the node only if both
lengths are, and it is positive only if both are.

One axis is treated on its own. The area may be inverted, and then it shares nothing.
-/

namespace WorkflowCanvas

/-! ### Exact scalars -/

theorem Scalar.greater_eq_max (x y : Rat) : Scalar.greater x y = max x y :=
  (max_def_lt x y).symm

theorem Scalar.lesser_eq_min (x y : Rat) : Scalar.lesser x y = min x y := by
  rw [min_comm]
  exact (min_def_lt y x).symm

namespace Rect

/-! ### Along one axis -/

variable {b₀ b₁ a₀ a₁ : Rat}

/-- The length that a side from `b₀` to `b₁` shares with a stretch from `a₀` to `a₁`. -/
def sharedLength (b₀ b₁ a₀ a₁ : Rat) : Rat := max (min b₁ a₁) (max b₀ a₀) - max b₀ a₀

theorem sharedLength_nonneg : 0 ≤ sharedLength b₀ b₁ a₀ a₁ :=
  sub_nonneg.mpr (le_max_right _ _)

theorem sharedLength_pos_iff : 0 < sharedLength b₀ b₁ a₀ a₁ ↔ max b₀ a₀ < min b₁ a₁ := by
  rw [sharedLength, sub_pos, lt_max_iff]
  exact or_iff_left (lt_irrefl _)

theorem sharedLength_le (hb : b₀ ≤ b₁) : sharedLength b₀ b₁ a₀ a₁ ≤ b₁ - b₀ := by
  rw [sharedLength]
  rcases le_total (min b₁ a₁) (max b₀ a₀) with hapart | hmeet
  · rw [max_eq_right hapart, sub_self]
    exact sub_nonneg.mpr hb
  · rw [max_eq_left hmeet]
    exact sub_le_sub (min_le_left _ _) (le_max_left _ _)

/-- The whole side is shared only if the stretch covers it. -/
theorem le_sharedLength_iff (hb : b₀ < b₁) :
    b₁ - b₀ ≤ sharedLength b₀ b₁ a₀ a₁ ↔ a₀ ≤ b₀ ∧ b₁ ≤ a₁ := by
  constructor
  · intro h
    have hmeet : max b₀ a₀ < min b₁ a₁ :=
      sharedLength_pos_iff.mp ((sub_pos.mpr hb).trans_le h)
    rw [sharedLength, max_eq_left hmeet.le] at h
    have hlow : b₀ ≤ max b₀ a₀ := le_max_left _ _
    have hhigh : min b₁ a₁ ≤ b₁ := min_le_left _ _
    constructor
    · exact (le_max_right b₀ a₀).trans (by linarith)
    · exact le_trans (by linarith) (min_le_right b₁ a₁)
  · rintro ⟨hlow, hhigh⟩
    rw [sharedLength, max_eq_left hlow, min_eq_left hhigh, max_eq_left hb.le]

/-! ### Both axes -/

variable {r s : Rect Rat}

theorem area_eq (r : Rect Rat) : r.area = (r.x1 - r.x0) * (r.y1 - r.y0) := rfl

theorem area_overlap (r s : Rect Rat) :
    (r.overlap s).area =
      sharedLength r.x0 r.x1 s.x0 s.x1 * sharedLength r.y0 r.y1 s.y0 s.y1 := by
  rw [area_eq]
  simp only [overlap, Scalar.greater_eq_max, Scalar.lesser_eq_min, sharedLength]

theorem sides_pos_of_area_pos (hx : r.x0 ≤ r.x1) (hy : r.y0 ≤ r.y1) (h : 0 < r.area) :
    r.x0 < r.x1 ∧ r.y0 < r.y1 := by
  rw [area_eq] at h
  exact ⟨sub_pos.mp (pos_of_mul_pos_left h (sub_nonneg.mpr hy)),
    sub_pos.mp (pos_of_mul_pos_right h (sub_nonneg.mpr hx))⟩

theorem area_overlap_pos_iff : 0 < (r.overlap s).area ↔
    max r.x0 s.x0 < min r.x1 s.x1 ∧ max r.y0 s.y0 < min r.y1 s.y1 := by
  rw [area_overlap, ← sharedLength_pos_iff, ← sharedLength_pos_iff]
  constructor
  · intro h
    exact ⟨pos_of_mul_pos_left h sharedLength_nonneg, pos_of_mul_pos_right h sharedLength_nonneg⟩
  · rintro ⟨hx, hy⟩
    exact mul_pos hx hy

/-- What is shared is as large as the first rectangle only if that lies in the second. -/
theorem area_le_area_overlap_iff (hx : r.x0 < r.x1) (hy : r.y0 < r.y1) :
    r.area ≤ (r.overlap s).area ↔
      (s.x0 ≤ r.x0 ∧ r.x1 ≤ s.x1) ∧ (s.y0 ≤ r.y0 ∧ r.y1 ≤ s.y1) := by
  rw [area_overlap, area_eq, ← le_sharedLength_iff hx, ← le_sharedLength_iff hy]
  have hxle : sharedLength r.x0 r.x1 s.x0 s.x1 ≤ r.x1 - r.x0 := sharedLength_le hx.le
  have hyle : sharedLength r.y0 r.y1 s.y0 s.y1 ≤ r.y1 - r.y0 := sharedLength_le hy.le
  constructor
  · intro h
    by_contra hshort
    refine absurd h (not_le.mpr ?_)
    -- one length falls short, and the other cannot make up for it
    rcases not_and_or.mp hshort with hshort | hshort
    · exact mul_lt_mul_of_lt_of_le_of_nonneg_of_pos (not_le.mp hshort) hyle sharedLength_nonneg
        (sub_pos.mpr hy)
    · exact mul_lt_mul_of_le_of_lt_of_nonneg_of_pos hxle (not_le.mp hshort) sharedLength_nonneg
        (sub_pos.mpr hx)
  · rintro ⟨hwide, hhigh⟩
    exact mul_le_mul hwide hhigh (sub_pos.mpr hy).le sharedLength_nonneg

end Rect

/-! ### The test -/

namespace Containment

variable {bounds area : Rect Rat}

theorem full_holds_of_sized (h : 0 < bounds.area) :
    full.holds bounds area = true ↔ bounds.area ≤ (bounds.overlap area).area := by
  have hsized : ¬ bounds.area ≤ 0 := not_le.mpr h
  rw [holds, if_neg hsized]
  exact decide_eq_true_iff

theorem overlap_holds_of_sized (h : 0 < bounds.area) :
    overlap.holds bounds area = true ↔ 0 < (bounds.overlap area).area := by
  have hsized : ¬ bounds.area ≤ 0 := not_le.mpr h
  rw [holds, if_neg hsized]
  exact decide_eq_true_iff

theorem holds_of_flat {mode : Containment} (h : bounds.area = 0) :
    mode.holds bounds area = mode.holdsPoint bounds.origin area := by
  have hflat : bounds.area ≤ 0 := h.le
  rw [holds, if_pos hflat]

theorem full_holdsPoint_iff {p : Point Rat} : full.holdsPoint p area = true ↔
    (area.x0 ≤ p.x ∧ p.x ≤ area.x1) ∧ (area.y0 ≤ p.y ∧ p.y ≤ area.y1) := by
  simp only [holdsPoint, Bool.and_eq_true, decide_eq_true_eq, and_assoc]

theorem overlap_holdsPoint_iff {p : Point Rat} : overlap.holdsPoint p area = true ↔
    (area.x0 < p.x ∧ p.x < area.x1) ∧ (area.y0 < p.y ∧ p.y < area.y1) := by
  simp only [holdsPoint, Bool.and_eq_true, decide_eq_true_eq, and_assoc]

/-- In exact arithmetic, a node with a surface lies fully in an area if no edge of it is outside,
and overlaps it if their interiors meet. Of any other node the corner it is placed at decides: it
is in the area with its border, or strictly inside. The area may be inverted. -/
theorem areas_decide_containment (bounds area : Rect Rat) (hx : bounds.x0 ≤ bounds.x1)
    (hy : bounds.y0 ≤ bounds.y1) :
    (0 < bounds.area →
      (full.holds bounds area = true ↔
        (area.x0 ≤ bounds.x0 ∧ bounds.x1 ≤ area.x1) ∧
          (area.y0 ≤ bounds.y0 ∧ bounds.y1 ≤ area.y1)) ∧
      (overlap.holds bounds area = true ↔
        max bounds.x0 area.x0 < min bounds.x1 area.x1 ∧
          max bounds.y0 area.y0 < min bounds.y1 area.y1)) ∧
    (bounds.area = 0 →
      (full.holds bounds area = true ↔
        (area.x0 ≤ bounds.x0 ∧ bounds.x0 ≤ area.x1) ∧
          (area.y0 ≤ bounds.y0 ∧ bounds.y0 ≤ area.y1)) ∧
      (overlap.holds bounds area = true ↔
        (area.x0 < bounds.x0 ∧ bounds.x0 < area.x1) ∧
          (area.y0 < bounds.y0 ∧ bounds.y0 < area.y1))) := by
  constructor
  · intro hsized
    obtain ⟨hwide, hhigh⟩ := Rect.sides_pos_of_area_pos hx hy hsized
    constructor
    · rw [full_holds_of_sized hsized]
      exact Rect.area_le_area_overlap_iff hwide hhigh
    · rw [overlap_holds_of_sized hsized]
      exact Rect.area_overlap_pos_iff
  · intro hflat
    constructor
    · rw [holds_of_flat hflat]
      exact full_holdsPoint_iff
    · rw [holds_of_flat hflat]
      exact overlap_holdsPoint_iff

def pane : Rect Rat := ⟨100, 100, 300, 300⟩

/-- A node that straddles the right edge of an area overlaps it and is not inside, one that is flush
with the edge is inside, and one without a surface that stands on the edge is inside and does not
overlap. -/
theorem areas_decide_containment_pane :
    (full.holds ⟨280, 150, 320, 190⟩ pane = false ∧
        overlap.holds ⟨280, 150, 320, 190⟩ pane = true) ∧
      full.holds ⟨290, 100, 300, 110⟩ pane = true ∧
      (full.holds ⟨300, 100, 300, 110⟩ pane = true ∧
        overlap.holds ⟨300, 100, 300, 110⟩ pane = false) := by
  obtain ⟨hinside, hmeets⟩ :=
    (areas_decide_containment ⟨280, 150, 320, 190⟩ pane (by decide) (by decide)).1
      (by cbv)
  obtain ⟨hflush, -⟩ :=
    (areas_decide_containment ⟨290, 100, 300, 110⟩ pane (by decide) (by decide)).1
      (by cbv)
  obtain ⟨hon, hstrict⟩ :=
    (areas_decide_containment ⟨300, 100, 300, 110⟩ pane (by decide) (by decide)).2
      (by cbv)
  refine ⟨⟨?_, ?_⟩, ?_, ?_, ?_⟩
  · rw [← Bool.not_eq_true, hinside]
    decide
  · exact hmeets.mpr (by decide)
  · exact hflush.mpr (by decide)
  · exact hon.mpr (by decide)
  · rw [← Bool.not_eq_true, hstrict]
    decide

end Containment

end WorkflowCanvas
