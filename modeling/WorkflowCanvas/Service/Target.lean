import WorkflowCanvas.Service.Authority

/-!
The targets of requests.

A target is a path, or a whole address, in which a scheme and an authority stand in front of the
path. Behind the path there may be a query and a fragment. A target may also be an authority alone
or a star, which have no place in the service. Only the path says what a request is about.
-/

namespace WorkflowCanvas.Service.Target

/-- The characters that are neither blanks nor controls of ASCII. -/
def isGraphic (c : Char) : Bool := 0x20 < c.toNat && c.toNat ≠ 0x7F

/-- The characters that may stand in a path. -/
def isPathChar (c : Char) : Bool := isGraphic c && !"<>\x60".toList.contains c

/-- The characters that may stand in a query. -/
def isQueryChar (c : Char) : Bool := isGraphic c && !"\"<>".toList.contains c

/-- The characters that may stand in a scheme. -/
def isSchemeChar (c : Char) : Bool := c.isAlphanum || "+-.~".toList.contains c

/-- The number of characters in the longest scheme. -/
def maxScheme : Nat := 64

/-- The number of bytes in the longest target. -/
def maxSize : Nat := 65534

/-- The path at the front of a text that may go on with a query and a fragment. What the fragment
holds does not matter. -/
def cutPath? (cs : List Char) : Option (List Char) :=
  let (path, rest) := cs.span fun c => c ≠ '?' && c ≠ '#'
  let query := rest.takeWhile fun c => c ≠ '#'
  if path.all isPathChar && query.all isQueryChar then some path else none

/-- The path of an address, from behind its scheme. The authority is the part up to the path, the
query or the fragment, whichever comes first. -/
def addressPath? (cs : List Char) : Option (List Char) :=
  let (authority, rest) := cs.span fun c => c ≠ '/' && c ≠ '?' && c ≠ '#'
  if Authority.isWellFormed authority then cutPath? rest else none

/-- The path of a target, nothing if the target is not well formed. -/
def path? (target : String) : Option String :=
  if maxSize < target.utf8ByteSize then none
  else
    String.ofList <$>
      match target.toList with
      | ['*'] => some ['*']
      | '/' :: rest => cutPath? ('/' :: rest)
      | cs =>
        let (scheme, rest) := cs.span isSchemeChar
        match rest with
        | ':' :: '/' :: '/' :: rest =>
          if scheme.length ≤ maxScheme then addressPath? rest else none
        | _ => if Authority.isWellFormed cs then some [] else none

end WorkflowCanvas.Service.Target
