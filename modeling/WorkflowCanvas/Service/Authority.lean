/-!
The authorities of addresses.

An authority is a host, which may have a user in front of it and a port behind it. A user ends at an
at sign. A host may stand between brackets, so that its colons are not taken for that of a port.
What follows the last at sign or closing bracket has no escapes and at most one colon, and a user
does not stand alone. Which hosts and ports there are does not matter here.
-/

namespace WorkflowCanvas.Service.Authority

/-- The characters that stand for themselves. -/
def isPlain (c : Char) : Bool := c.isAlphanum || "!$&'()*+,-.;=_~".toList.contains c

/-- How far a pair of brackets has come. -/
inductive Brackets
  | absent
  | opened
  | closed
  deriving DecidableEq, Repr

/-- What is known of the characters read so far. Colons and escapes count from the last at sign or
closing bracket. -/
structure Scan where
  brackets : Brackets := .absent
  colons : Nat := 0
  escaped : Bool := false
  deriving DecidableEq, Repr

/-- The most colons that may stand between two at signs or brackets: a numeric host has seven, and a
port brings one more. -/
def maxColons : Nat := 8

/-- The scan after one more character, if the character may stand there. -/
def Scan.step (s : Scan) : Char → Option Scan
  | ':' => if s.colons < maxColons then some { s with colons := s.colons + 1 } else none
  | '%' => some { s with escaped := true }
  | '@' => some { s with colons := 0, escaped := false }
  | '[' =>
    if s.brackets = .absent && !s.escaped then some { s with brackets := .opened } else none
  | ']' =>
    if s.brackets = .opened then some { brackets := .closed, colons := 0, escaped := false }
    else none
  | c => if isPlain c then some s else none

/-- Whether the authority may end here. -/
def Scan.mayEnd (s : Scan) : Bool := s.brackets ≠ .opened && s.colons ≤ 1 && !s.escaped

/-- Whether a text is an authority. -/
def isWellFormed (cs : List Char) : Bool :=
  !cs.isEmpty && cs.getLast? ≠ some '@' && (cs.foldlM Scan.step {}).any Scan.mayEnd

end WorkflowCanvas.Service.Authority
