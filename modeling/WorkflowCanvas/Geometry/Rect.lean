import WorkflowCanvas.Geometry.Scalar

/-!
Points, sizes and rectangles.

A rectangle is kept as its two corners and may be inverted, with `x1` left of `x0`; `Rect.placed`
never builds an inverted one.
-/

namespace WorkflowCanvas

structure Point (K : Type) where
  x : K
  y : K
  deriving DecidableEq, Repr

structure Size (K : Type) where
  width : K
  height : K
  deriving DecidableEq, Repr

structure Rect (K : Type) where
  x0 : K
  y0 : K
  x1 : K
  y1 : K
  deriving DecidableEq, Repr

variable {K : Type}

instance [Add K] : Add (Point K) where
  add p q := ⟨p.x + q.x, p.y + q.y⟩

instance [Sub K] : Sub (Point K) where
  sub p q := ⟨p.x - q.x, p.y - q.y⟩

@[simp] theorem Point.add_x [Add K] (p q : Point K) : (p + q).x = p.x + q.x := rfl

@[simp] theorem Point.add_y [Add K] (p q : Point K) : (p + q).y = p.y + q.y := rfl

@[simp] theorem Point.sub_x [Sub K] (p q : Point K) : (p - q).x = p.x - q.x := rfl

@[simp] theorem Point.sub_y [Sub K] (p q : Point K) : (p - q).y = p.y - q.y := rfl

variable [Scalar K]

instance : Zero (Size K) where
  zero := ⟨0, 0⟩

namespace Rect

def origin (r : Rect K) : Point K := ⟨r.x0, r.y0⟩

/-- Width times height; an inversion in one direction makes it negative. -/
def area (r : Rect K) : K := (r.x1 - r.x0) * (r.y1 - r.y0)

/-- The rectangle of a size placed with one corner at `origin`. A negative width or height reaches
to the left of the origin or above it. -/
def placed (origin : Point K) (size : Size K) : Rect K :=
  let x := origin.x + size.width
  let y := origin.y + size.height
  ⟨Scalar.lesser origin.x x, Scalar.lesser origin.y y,
    Scalar.greater origin.x x, Scalar.greater origin.y y⟩

/-- What two rectangles share. Where they are apart the result is flat, so its area is zero. -/
def overlap (r s : Rect K) : Rect K :=
  let x0 := Scalar.greater r.x0 s.x0
  let y0 := Scalar.greater r.y0 s.y0
  ⟨x0, y0, Scalar.greater (Scalar.lesser r.x1 s.x1) x0,
    Scalar.greater (Scalar.lesser r.y1 s.y1) y0⟩

end Rect

end WorkflowCanvas
