/-!
Classes of characters.

The blank characters are the twenty-five of the Unicode property White_Space. A name made of them
alone is no name, and they are trimmed off a word before it is looked up. Hexadecimal digits have
their letters in either case.
-/

namespace WorkflowCanvas.Text

/-- The characters of the Unicode property White_Space. -/
def isBlankChar (c : Char) : Bool :=
  let n := c.toNat
  (0x09 ≤ n && n ≤ 0x0D) || n == 0x20 || n == 0x85 || n == 0xA0 || n == 0x1680 ||
    (0x2000 ≤ n && n ≤ 0x200A) || n == 0x2028 || n == 0x2029 || n == 0x202F || n == 0x205F ||
    n == 0x3000

/-- Whether a text has no character but blank ones. -/
def isBlank (s : String) : Bool := s.toList.all isBlankChar

/-- The text without the blank characters at its two ends. -/
def trim (s : String) : String :=
  String.ofList ((s.toList.dropWhile isBlankChar).reverse.dropWhile isBlankChar).reverse

/-- The text with the letters A to Z in lower case and every other character as it is. -/
def lower (s : String) : String := String.ofList (s.toList.map Char.toLower)

/-- The value of a hexadecimal digit. -/
def hexValue? (c : Char) : Option Nat :=
  if '0' ≤ c && c ≤ '9' then some (c.toNat - 0x30)
  else if 'a' ≤ c && c ≤ 'f' then some (c.toNat - 0x57)
  else if 'A' ≤ c && c ≤ 'F' then some (c.toNat - 0x37)
  else none

end WorkflowCanvas.Text
