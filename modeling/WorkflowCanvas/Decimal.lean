/-!
Decimals and floats.

A float is written as the shortest decimal that reads back as it. A finite float is
`mantissa · 2 ^ exponent`. The reals that round to it form an interval around it, whose ends belong
to it when the mantissa is even. A power of ten spans a grid of decimals, and a coarser grid means
fewer digits. So the grids are tried from coarse to fine, and the first with a point in the interval
gives the fewest digits. On each grid only the two neighbours of the value can be the nearest point,
and the nearer of those in the interval is taken; on a tie the even one. All of it is exact
arithmetic on natural numbers.

A decimal is read as the float nearest to it. One beyond the largest float goes to infinity, and one
far below the smallest to zero; both are decided by the place of the leading digit, before any large
power of ten is formed.
-/

namespace WorkflowCanvas

/-- The decimal `digits · 10 ^ exponent`. -/
structure Decimal where
  digits : Nat
  exponent : Int
  deriving DecidableEq, Repr

namespace Decimal

/-! ### The shortest decimal -/

/-- The size of a finite float: `mantissa · 2 ^ exponent`, with the mark whether the float below is
only half as far away as the float above. -/
structure Magnitude where
  mantissa : Nat
  exponent : Int
  nearBelow : Bool
  deriving DecidableEq, Repr

/-- The size of `x`, read off its bits: 52 of them for the fraction and 11 for the exponent. The
sign is left out. -/
def Magnitude.ofFloat (x : Float) : Magnitude :=
  let bits := x.toBits.toNat
  let fraction := bits % 0x10000000000000
  let biased := bits / 0x10000000000000 % 0x800
  if biased = 0 then
    ⟨fraction, -1074, false⟩
  else
    ⟨fraction + 0x10000000000000, Int.ofNat biased - 1075, fraction = 0 && 1 < biased⟩

/-- Two units to compare in: quarters of the last binary place of a float are multiples of
`quarter`, and points of the grid of `10 ^ exponent` are multiples of `step`. -/
structure Scale where
  quarter : Nat
  step : Nat

def Magnitude.scale (m : Magnitude) (exponent : Int) : Scale where
  quarter := Nat.pow 2 (m.exponent - 2).toNat * Nat.pow 10 (-exponent).toNat
  step := Nat.pow 10 exponent.toNat * Nat.pow 2 (2 - m.exponent).toNat

/-- Whether `c · 10 ^ exponent` rounds to the float of size `m`. -/
def Magnitude.admits (m : Magnitude) (exponent : Int) (c : Nat) : Bool :=
  let s := m.scale exponent
  let low := (4 * m.mantissa - (if m.nearBelow then 1 else 2)) * s.quarter
  let high := (4 * m.mantissa + 2) * s.quarter
  let p := c * s.step
  if m.mantissa % 2 = 0 then low ≤ p && p ≤ high else low < p && p < high

/-- The nearest point of a grid that rounds to the float of size `m`, if any does. -/
def Magnitude.onGrid? (m : Magnitude) (exponent : Int) : Option Nat :=
  let s := m.scale exponent
  let value := 4 * m.mantissa * s.quarter
  let below := value / s.step
  match m.admits exponent below, m.admits exponent (below + 1) with
  | true, true =>
    let toBelow := value - below * s.step
    let toAbove := (below + 1) * s.step - value
    if toBelow < toAbove || (toBelow = toAbove && below % 2 = 0) then some below
    else some (below + 1)
  | true, false => some below
  | false, true => some (below + 1)
  | false, false => none

/-- The grids from `exponent` downwards, at most `tries` of them. -/
def Magnitude.search (m : Magnitude) : Nat → Int → Decimal
  | 0, exponent => ⟨4 * m.mantissa * (m.scale exponent).quarter / (m.scale exponent).step, exponent⟩
  | tries + 1, exponent =>
    match m.onGrid? exponent with
    | some c => ⟨c, exponent⟩
    | none => m.search tries (exponent - 1)

/-- The shortest decimal for a size that is not zero. The first grid tried is coarser than the
value, since `30103 / 100000` is just above the decimal logarithm of two; the last one has more
than seventeen digits, and seventeen always suffice. -/
def Magnitude.shortest (m : Magnitude) : Decimal :=
  let bits : Int := m.mantissa.log2 + 1 + m.exponent
  m.search 24 (bits * 30103 / 100000 + 2)

/-- The shortest decimal that rounds to `x`, its sign left out. -/
def ofFloat (x : Float) : Decimal :=
  let m := Magnitude.ofFloat x
  if m.mantissa = 0 then ⟨0, 0⟩ else m.shortest

/-! ### The nearest float -/

/-- The place of the leading digit: `d < 10 ^ d.magnitude`. -/
def magnitude (d : Decimal) : Int := (Nat.repr d.digits).length + d.exponent

/-- The float nearest to a decimal, the even one on a tie. -/
def toFloat (d : Decimal) : Float :=
  if d.digits = 0 ∨ d.magnitude < -330 then 0.0
  else if 330 < d.magnitude then 1.0 / 0.0
  else if 0 ≤ d.exponent then Float.ofScientific d.digits false d.exponent.toNat
  else Float.ofScientific d.digits true (-d.exponent).toNat

end Decimal

end WorkflowCanvas
