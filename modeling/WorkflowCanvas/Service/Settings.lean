import WorkflowCanvas.Geometry.Containment
import WorkflowCanvas.Model.Reading
import WorkflowCanvas.Model.Writing
import WorkflowCanvas.Text.Characters

/-!
The settings of the service.

They come from environment variables or from JSON. A variable that is unset, or does not hold a
proper value, leaves its default in force: all interfaces, port 3004, full containment and the log
filter `info`.
-/

namespace WorkflowCanvas

open Json Json.Decoder

namespace Containment

def name : Containment → String
  | full => "full"
  | overlap => "partial"

def named? (s : String) : Option Containment := [full, overlap].find? fun mode => mode.name = s

/-- The mode a setting names, in any case and with blanks around it. -/
def ofSetting? (s : String) : Option Containment := named? (Text.lower (Text.trim s))

def toJson (mode : Containment) : Json := .str mode.name

def decoder : Decoder Containment := choice named?

end Containment

namespace Service

structure Settings where
  host : String := "0.0.0.0"
  port : UInt16 := 3004
  containment : Containment := .full
  logFilter : String := "info"
  deriving DecidableEq, Repr

/-- The values of the environment variables, as far as they are set. -/
structure Variables where
  host : Option String := none
  port : Option String := none
  containment : Option String := none
  logFilter : Option String := none

/-- A port in decimal digits, with a plus sign in front or without. -/
def portOfSetting? (s : String) : Option UInt16 :=
  let digits :=
    match s.toList with
    | '+' :: digits => digits
    | digits => digits
  if digits.isEmpty || !digits.all Char.isDigit then none
  else
    let n := digitsValue digits
    if n < 65536 then some (UInt16.ofNat n) else none

namespace Settings

def ofVariables (v : Variables) : Settings :=
  let default : Settings := {}
  { host := v.host.getD default.host
    port := (v.port.bind portOfSetting?).getD default.port
    containment := (v.containment.bind Containment.ofSetting?).getD default.containment
    logFilter := v.logFilter.getD default.logFilter }

/-- The member for a port. Every 16-bit number is a whole number that JSON holds. -/
def portToJson (port : UInt16) : Json :=
  .num (.whole port.toNat ⟨by omega, by have := port.toNat_lt; omega⟩)

def toJson (s : Settings) : Json :=
  .obj
    [("server", .obj [("host", .str s.host), ("port", portToJson s.port)]),
      ("canvas", .obj [("containment", s.containment.toJson)]),
      ("log_level", .str s.logFilter)]

/-- The host and the port. -/
def addressDecoder : Decoder (String × UInt16) :=
  record ["host", "port"] fun r =>
    (fun _ host port => (host, UInt16.ofNat port)) <$> r.skipOthers <*>
      r.required "host" string <*> r.required "port" (below 65536)

def canvasDecoder : Decoder Containment :=
  record ["containment"] fun r =>
    (fun _ mode => mode) <$> r.skipOthers <*> r.required "containment" Containment.decoder

def decoder : Decoder Settings :=
  record ["server", "canvas", "log_level"] fun r =>
    (fun _ address mode logFilter => ⟨address.1, address.2, mode, logFilter⟩) <$> r.skipOthers <*>
      r.required "server" addressDecoder <*> r.required "canvas" canvasDecoder <*>
      r.required "log_level" string

end Settings

end Service

end WorkflowCanvas
