import WorkflowCanvas.Text.Characters

/-!
Media types that announce JSON.

A media type is a type, a slash and a subtype, and may be followed by parameters. What follows the
last plus sign of the subtype, unless that is its first character, is its suffix. A body is
announced as JSON by the type `application` with the subtype or the suffix `json`, in any case; what
the parameters say does not matter, but they have to be well formed.
-/

namespace WorkflowCanvas.Service.MediaType

/-- The characters of names: letters, digits and some marks. -/
def isToken (c : Char) : Bool :=
  c.isAlphanum || "!#$%&'*+-.^_\x60|~".toList.contains c

/-- The characters that may stand between quotation marks. -/
def isQuotable (c : Char) : Bool := 0x20 ≤ c.toNat && c.toNat < 0x7F

/-- A place in a row of parameters. -/
inductive Place
  | beforeName
  | inName
  | beforeValue
  | inValue
  | beforeQuoted
  | inQuoted
  | afterQuoted
  deriving DecidableEq, Repr

/-- The place after one more character, if the character may stand there. -/
def Place.step : Place → Char → Option Place
  | beforeName, c => if c = ' ' then some beforeName else if isToken c then some inName else none
  | inName, c => if c = '=' then some beforeValue else if isToken c then some inName else none
  | beforeValue, c =>
    if c = '"' then some beforeQuoted else if isToken c then some inValue else none
  | inValue, c => if c = ';' then some beforeName else if isToken c then some inValue else none
  | beforeQuoted, c => if isQuotable c then some inQuoted else none
  | inQuoted, c =>
    if c = '"' then some afterQuoted else if isQuotable c then some inQuoted else none
  | afterQuoted, c =>
    if c = ';' then some beforeName else if c = ' ' then some afterQuoted else none

/-- Whether the parameters may end here. -/
def Place.mayEnd : Place → Bool
  | inName | beforeQuoted | inQuoted => false
  | _ => true

/-- Whether a text is a row of parameters, from behind the first semicolon. -/
def areParameters (cs : List Char) : Bool :=
  (cs.foldlM Place.step .beforeName).any Place.mayEnd

/-- The subtype and the suffix. -/
def splitSuffix (cs : List Char) : List Char × Option (List Char) :=
  let (suffix, front) := cs.reverse.span (· ≠ '+')
  match front with
  | '+' :: c :: front => ((c :: front).reverse, some suffix.reverse)
  | _ => (cs, none)

/-- Whether a content type announces JSON. -/
def isJson (contentType : String) : Bool :=
  let (type, rest) := (Text.lower contentType).toList.span isToken
  match rest with
  | '/' :: rest =>
    let (whole, rest) := rest.span isToken
    let wellFormed :=
      match rest with
      | [] => true
      | ';' :: parameters => !whole.isEmpty && areParameters parameters
      | _ => false
    let (subtype, suffix) := splitSuffix whole
    wellFormed && type = "application".toList &&
      (subtype = "json".toList || suffix = some "json".toList)
  | _ => false

end WorkflowCanvas.Service.MediaType
