import WorkflowCanvas.Text.Characters

/-!
Percent escapes in a segment of a path.

An escape is a percent sign and two hexadecimal digits, and stands for one octet. A percent sign
that does not start an escape stands for itself. The octets of a segment are UTF-8, and a segment
whose octets are not has no reading.
-/

namespace WorkflowCanvas.Text.Percent

/-- The value of a hexadecimal digit, given as an ASCII octet. -/
def octetValue? (b : UInt8) : Option UInt8 := (hexValue? (Char.ofNat b.toNat)).map UInt8.ofNat

/-- The octets that a segment stands for. -/
def unescape : List UInt8 → List UInt8
  | b :: high :: low :: rest =>
    match octetValue? high, octetValue? low with
    | some h, some l =>
      if b = 0x25 then (16 * h + l) :: unescape rest else b :: unescape (high :: low :: rest)
    | _, _ => b :: unescape (high :: low :: rest)
  | few => few

/-- The text that a segment stands for. -/
def decode? (segment : String) : Option String :=
  String.fromUTF8? ⟨(unescape segment.toUTF8.toList).toArray⟩

/-- The octets a segment may hold without an escape: letters, digits and four marks. -/
def isPlain (b : UInt8) : Bool :=
  (0x30 ≤ b && b ≤ 0x39) || (0x41 ≤ b && b ≤ 0x5A) || (0x61 ≤ b && b ≤ 0x7A) ||
    b == 0x2D || b == 0x2E || b == 0x5F || b == 0x7E

/-- The upper-case hexadecimal digit of a value below sixteen. -/
def hexDigit (v : UInt8) : Char := (Nat.digitChar v.toNat).toUpper

/-- The spelling of one octet. -/
def escape (b : UInt8) : List Char :=
  if isPlain b then [Char.ofNat b.toNat] else ['%', hexDigit (b / 16), hexDigit (b % 16)]

/-- A segment that stands for the text. -/
def encode (s : String) : String := String.ofList (s.toUTF8.toList.flatMap escape)

end WorkflowCanvas.Text.Percent
