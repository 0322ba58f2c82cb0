import WorkflowCanvas.Decimal
import WorkflowCanvas.Json.Value

/-!
Numerals, the texts of JSON numbers.

A numeral without a fraction and without an exponent stands for a whole number if that fits; every
other numeral stands for the nearest float, and for nothing if that is infinite. The numeral `-0`
stands for the negative zero of the floats, since no whole number is negative and zero.
-/

namespace WorkflowCanvas.Json

/-- A numeral taken apart: its sign, whether it is only digits, and its size. -/
structure Numeral where
  negative : Bool
  onlyDigits : Bool
  size : Decimal

/-- The number of a row of decimal digits. -/
def digitsValue (digits : List Char) : Nat :=
  digits.foldl (fun n c => 10 * n + (c.toNat - '0'.toNat)) 0

/-- The digits of the whole part and what follows. A zero in front of other digits is refused. -/
def splitWhole? (cs : List Char) : Option (List Char × List Char) :=
  match cs.span Char.isDigit with
  | ([], _) => none
  | (['0'], rest) => some (['0'], rest)
  | ('0' :: _, _) => none
  | (digits, rest) => some (digits, rest)

/-- The digits of the fraction, none without a point, and what follows. -/
def splitFraction? : List Char → Option (List Char × List Char)
  | '.' :: cs =>
    match cs.span Char.isDigit with
    | ([], _) => none
    | (digits, rest) => some (digits, rest)
  | cs => some ([], cs)

/-- The exponent after its letter. -/
def splitSigned? (cs : List Char) : Option (Int × List Char) :=
  let (negative, cs) :=
    match cs with
    | '-' :: cs => (true, cs)
    | '+' :: cs => (false, cs)
    | cs => (false, cs)
  match cs.span Char.isDigit with
  | ([], _) => none
  | (digits, rest) =>
    let n : Int := digitsValue digits
    some (if negative then -n else n, rest)

/-- The exponent, nothing without a letter, and what follows. -/
def splitExponent? : List Char → Option (Option Int × List Char)
  | 'e' :: cs => (splitSigned? cs).map fun (n, rest) => (some n, rest)
  | 'E' :: cs => (splitSigned? cs).map fun (n, rest) => (some n, rest)
  | cs => some (none, cs)

/-- The numeral at the front of a text and what follows it. -/
def Numeral.split? (cs : List Char) : Option (Numeral × List Char) := do
  let (negative, cs) :=
    match cs with
    | '-' :: cs => (true, cs)
    | cs => (false, cs)
  let (whole, cs) ← splitWhole? cs
  let (fraction, cs) ← splitFraction? cs
  let (exponent, cs) ← splitExponent? cs
  let size : Decimal := ⟨digitsValue (whole ++ fraction), exponent.getD 0 - fraction.length⟩
  some (⟨negative, fraction.isEmpty && exponent.isNone, size⟩, cs)

/-- The number a float is, nothing for an infinity. -/
def Number.ofFloat? (x : Float) : Option Number :=
  if h : x.isFinite = true then some (.real x h) else none

/-- The number a numeral stands for. -/
def Numeral.number? (n : Numeral) : Option Number :=
  let x := n.size.toFloat
  let nearest := Number.ofFloat? (if n.negative then -x else x)
  if n.onlyDigits && !(n.negative && n.size.digits = 0) then
    let value : Int := if n.negative then -n.size.digits else n.size.digits
    if h : Fits value then some (.whole value h) else nearest
  else nearest

end WorkflowCanvas.Json
