/-!
JSON values.

A number is either a whole number that fits in 64 bits, signed or unsigned, or a finite float, and
the two kinds stay apart: `1` and `1.0` are different values. The members of an object are listed.
Values that come from a text list them in the order of their keys, each key once
(`Json.Canonical`); values on their way out list them as they are to be written.
-/

namespace WorkflowCanvas

namespace Json

/-- The whole numbers a JSON value holds exactly: those of the signed and the unsigned 64-bit
range, from -2⁶³ up to 2⁶⁴, excluded. -/
def Fits (n : Int) : Prop := -0x8000000000000000 ≤ n ∧ n < 0x10000000000000000

instance (n : Int) : Decidable (Fits n) := inferInstanceAs (Decidable (_ ∧ _))

inductive Number
  | whole (n : Int) (fits : Fits n)
  | real (x : Float) (finite : x.isFinite = true)
  deriving DecidableEq

/-- The number as a float; a whole number goes to the nearest one. -/
def Number.toFloat : Number → Float
  | whole n _ => Float.ofInt n
  | real x _ => x

end Json

inductive Json
  | null
  | bool (b : Bool)
  | num (n : Json.Number)
  | str (s : String)
  | arr (items : List Json)
  | obj (members : List (String × Json))

namespace Json

/-- The value a float is written as. JSON has no infinities and no NaN, so these become `null`. -/
def ofFloat (x : Float) : Json :=
  if h : x.isFinite = true then num (.real x h) else null

/-- The members with `key` set to `value`, kept in the order of the keys. -/
def set (key : String) (value : Json) : List (String × Json) → List (String × Json)
  | [] => [(key, value)]
  | (k, v) :: rest =>
    if key < k then (key, value) :: (k, v) :: rest
    else if key = k then (key, value) :: rest
    else (k, v) :: set key value rest

/-- The members in the order of their keys; of a key given twice the last value counts. -/
def sortMembers (members : List (String × Json)) : List (String × Json) :=
  members.foldl (fun sorted m => set m.1 m.2 sorted) []

/-- The value listed first under a key. -/
def member? (key : String) : Json → Option Json
  | obj members => members.lookup key
  | _ => none

/-- Keys in strictly ascending order, as in the members of a value read from a text. -/
def Ascending (members : List (String × Json)) : Prop :=
  members.Pairwise fun m m' => m.1 < m'.1

/-- A value as reading a text gives it: at every level each key once and the keys in order. -/
inductive Canonical : Json → Prop
  | null : Canonical null
  | bool (b : Bool) : Canonical (bool b)
  | num (n : Number) : Canonical (num n)
  | str (s : String) : Canonical (str s)
  | arr {items : List Json} : (∀ v ∈ items, Canonical v) → Canonical (arr items)
  | obj {members : List (String × Json)} :
      Ascending members → (∀ m ∈ members, Canonical m.2) → Canonical (obj members)

end Json

end WorkflowCanvas
