import WorkflowCanvas.Json.Document
import WorkflowCanvas.Json.Numeral
import WorkflowCanvas.Text.Characters

/-!
Reading the document out of a text.

The reader goes once through the characters. Where the text stops being JSON it closes everything
that is open with a break and reads no further. Its recursion is bounded by twice the length of
the text: of two calls inside each other one has taken a character.
-/

namespace WorkflowCanvas.Json

/-- The four characters that may stand between the parts of a text. -/
def isSpace (c : Char) : Bool := c = ' ' || c = '\n' || c = '\t' || c = '\r'

def skipSpace (cs : List Char) : List Char := cs.dropWhile isSpace

/-- The sixteen-bit unit that four hexadecimal digits give. -/
def unit? (a b c d : Char) : Option Nat := do
  some (4096 * (← Text.hexValue? a) + 256 * (← Text.hexValue? b) + 16 * (← Text.hexValue? c) +
    (← Text.hexValue? d))

def isHighSurrogate (unit : Nat) : Bool := 0xD800 ≤ unit && unit ≤ 0xDBFF

def isLowSurrogate (unit : Nat) : Bool := 0xDC00 ≤ unit && unit ≤ 0xDFFF

/-- The character of a surrogate pair. -/
def pairChar (high low : Nat) : Char :=
  Char.ofNat (0x10000 + 1024 * (high - 0xD800) + (low - 0xDC00))

/-- What a one-letter escape stands for. -/
def shortEscape? : Char → Option Char
  | '"' => some '"'
  | '\\' => some '\\'
  | '/' => some '/'
  | 'b' => some '\x08'
  | 'f' => some '\x0c'
  | 'n' => some '\n'
  | 'r' => some '\r'
  | 't' => some '\t'
  | _ => none

/-- Reads a string from behind its opening quotation mark. The characters read so far are given
latest first, and as nothing once half of a surrogate pair was met. -/
def readString : Option (List Char) → List Char → Option (Option String × List Char)
  | _, [] => none
  | read, '"' :: rest => some (read.map fun cs => String.ofList cs.reverse, rest)
  | read, '\\' :: 'u' :: a :: b :: c :: d :: rest =>
    match unit? a b c d with
    | none => none
    | some unit =>
      if isLowSurrogate unit then readString none rest
      else if isHighSurrogate unit then
        match rest with
        | '\\' :: 'u' :: a :: b :: c :: d :: after =>
          match (unit? a b c d).filter isLowSurrogate with
          | some low => readString (read.map (pairChar unit low :: ·)) after
          | none => readString none ('\\' :: 'u' :: a :: b :: c :: d :: after)
        | rest => readString none rest
      else readString (read.map (Char.ofNat unit :: ·)) rest
  | read, '\\' :: c :: rest =>
    match shortEscape? c with
    | none => none
    | some c => readString (read.map (c :: ·)) rest
  | read, c :: rest => if c.toNat < 0x20 then none else readString (read.map (c :: ·)) rest

mutual

/-- Reads the value at the front of a text. -/
def readValue : Nat → List Char → Document × List Char
  | 0, _ => (.broken, [])
  | fuel + 1, cs =>
    match skipSpace cs with
    | 'n' :: 'u' :: 'l' :: 'l' :: rest => (.null, rest)
    | 't' :: 'r' :: 'u' :: 'e' :: rest => (.bool true, rest)
    | 'f' :: 'a' :: 'l' :: 's' :: 'e' :: rest => (.bool false, rest)
    | '"' :: rest =>
      match readString (some []) rest with
      | some (s, rest) => (.str s, rest)
      | none => (.broken, [])
    | '[' :: rest =>
      match skipSpace rest with
      | ']' :: rest => (.arr .closed, rest)
      | rest =>
        let (items, rest) := readItems fuel rest
        (.arr items, rest)
    | '{' :: rest =>
      match skipSpace rest with
      | '}' :: rest => (.obj .closed, rest)
      | rest =>
        let (members, rest) := readMembers fuel rest
        (.obj members, rest)
    | rest =>
      match Numeral.split? rest with
      | some (n, rest) => (.num n.number?, rest)
      | none => (.broken, [])
termination_by structural fuel => fuel

/-- Reads the items of an array, the first of which is at the front of the text. -/
def readItems : Nat → List Char → Items × List Char
  | 0, _ => (.cut, [])
  | fuel + 1, cs =>
    let (item, rest) := readValue fuel cs
    match skipSpace rest with
    | ',' :: rest =>
      let (items, rest) := readItems fuel rest
      (.more item items, rest)
    | ']' :: rest => (.more item .closed, rest)
    | _ => (.more item .cut, [])
termination_by structural fuel => fuel

/-- Reads the members of an object, the first of which is at the front of the text. -/
def readMembers : Nat → List Char → Members × List Char
  | 0, _ => (.cut, [])
  | fuel + 1, cs =>
    let (key, rest) := readValue fuel cs
    match key, skipSpace rest with
    | .str _, ':' :: rest =>
      let (value, rest) := readValue fuel rest
      match skipSpace rest with
      | ',' :: rest =>
        let (members, rest) := readMembers fuel rest
        (.more key value members, rest)
      | '}' :: rest => (.more key value .closed, rest)
      | _ => (.more key value .cut, [])
    | _, _ => (.more key .broken .cut, [])
termination_by structural fuel => fuel

end

/-- The document a text begins with, and whether nothing but space follows it. -/
def readDocument (text : String) : Document × Bool :=
  let cs := text.toList
  let (document, rest) := readValue (2 * cs.length + 2) cs
  (document, rest.all isSpace)

end WorkflowCanvas.Json
