import WorkflowCanvas.Decimal
import WorkflowCanvas.Json.Value

/-!
The compact text of a JSON value.

Members are written in the order in which they are listed, without blanks. A string escapes the
quotation mark, the backslash and the control characters below U+0020, and nothing else. A float
is written with the fewest digits that read back. It is written positionally, and always with a
fraction, when its leading digit stands at one of the places 10⁻⁵ to 10¹⁵; otherwise it is written
with an exponent, whose sign is always shown, and without a fraction when it has one digit.
-/

namespace WorkflowCanvas.Json

/-- How a character is written between quotation marks. -/
def escapeChar (c : Char) : List Char :=
  if c = '"' then ['\\', '"']
  else if c = '\\' then ['\\', '\\']
  else if c = '\x08' then ['\\', 'b']
  else if c = '\t' then ['\\', 't']
  else if c = '\n' then ['\\', 'n']
  else if c = '\x0c' then ['\\', 'f']
  else if c = '\r' then ['\\', 'r']
  else if c.toNat < 0x20 then
    ['\\', 'u', '0', '0', Nat.digitChar (c.toNat / 16), Nat.digitChar (c.toNat % 16)]
  else [c]

def renderString (s : String) : List Char := '"' :: (s.toList.flatMap escapeChar ++ ['"'])

/-- A decimal above zero, positionally or with an exponent. -/
def renderDecimal (d : Decimal) : List Char :=
  let digits := (Nat.repr d.digits).toList
  let place : Int := digits.length - 1 + d.exponent
  if -5 ≤ place ∧ place < 16 then
    if 0 ≤ d.exponent then
      digits ++ List.replicate d.exponent.toNat '0' ++ ['.', '0']
    else if 0 ≤ place then
      digits.take (place.toNat + 1) ++ '.' :: digits.drop (place.toNat + 1)
    else
      '0' :: '.' :: List.replicate (-place - 1).toNat '0' ++ digits
  else
    let fraction := if digits.length = 1 then [] else '.' :: digits.drop 1
    let sign := if place < 0 then '-' else '+'
    digits.take 1 ++ fraction ++ 'e' :: sign :: (Nat.repr place.natAbs).toList

/-- A finite float. Zero keeps its sign. -/
def renderFloat (x : Float) : List Char :=
  let d := Decimal.ofFloat x
  let size := if d.digits = 0 then ['0', '.', '0'] else renderDecimal d
  if x.toBits ≥ 0x8000000000000000 then '-' :: size else size

def Number.render : Number → List Char
  | whole n _ => (Int.repr n).toList
  | real x _ => renderFloat x

mutual

/-- The characters of a value. -/
def chars : Json → List Char
  | null => ['n', 'u', 'l', 'l']
  | bool true => ['t', 'r', 'u', 'e']
  | bool false => ['f', 'a', 'l', 's', 'e']
  | num n => n.render
  | str s => renderString s
  | arr [] => ['[', ']']
  | arr (v :: rest) => '[' :: (chars v ++ itemChars rest)
  | obj [] => ['{', '}']
  | obj (m :: rest) => '{' :: (memberChars m ++ memberListChars rest)
termination_by structural v => v

/-- The items after the first one of an array, and its end. -/
def itemChars : List Json → List Char
  | [] => [']']
  | v :: rest => ',' :: (chars v ++ itemChars rest)
termination_by structural items => items

/-- The members after the first one of an object, and its end. -/
def memberListChars : List (String × Json) → List Char
  | [] => ['}']
  | m :: rest => ',' :: (memberChars m ++ memberListChars rest)
termination_by structural members => members

/-- One member: its key, a colon and its value. -/
def memberChars : String × Json → List Char
  | (key, v) => renderString key ++ ':' :: chars v
termination_by structural m => m

end

/-- The text of a value. -/
def render (v : Json) : String := String.ofList (chars v)

end WorkflowCanvas.Json
