import CodeAtlas.Number.Reading
import CodeAtlas.Value.Access

/-!
# Settings by name

Settings are texts by name; some of them have to be numbers. Switches are read in two ways: `isOn` is lenient
about blanks around the word and knows one word more than `isYes`. Of loosely typed values, truth values count as
one or zero and a text has to write a number; `Value.toInt` cuts the fraction off.
-/

namespace CodeAtlas

abbrev Environment := List (String × String)

namespace Environment

def get? (env : Environment) (name : String) : Option String := env.lookup name

def getD (env : Environment) (name default : String) : String := (env.get? name).getD default

def nonempty? (env : Environment) (name : String) : Option String := (env.get? name).filter (· != "")

def intOf (s : String) : Loose Int :=
  match Number.readInt? 10 s.toList with
  | some n => .ok n
  | none => .error (.badNumber ("invalid literal for int() with base 10: " ++ Text.take (quoted s) 200))

def floatOf (s : String) : Loose Binary64 :=
  match Number.readFloat? s.toList with
  | some x => .ok x
  | none => .error (.badNumber ("could not convert string to float: " ++ quoted s))

def int (env : Environment) (name default : String) : Loose Int := intOf (env.getD name default)

def float (env : Environment) (name default : String) : Loose Binary64 := floatOf (env.getD name default)

end Environment

namespace Switch

def isOn (s : String) : Bool := ["1", "true", "yes", "on"].contains (Text.lower (Text.trim s))

def isYes (s : String) : Bool := ["1", "true", "yes"].contains (Text.lower s)

end Switch

namespace Value

def toFloat : Value → Loose Binary64
  | .atom (.float x) => .ok x
  | .atom (.int n) => .ok (.ofInt n)
  | .atom (.bool b) => .ok (.ofInt (if b then 1 else 0))
  | .atom (.text s) => Environment.floatOf s
  | v => .error (.mismatch s!"float() argument must be a string or a real number, not '{v.kindName}'")

def wholePart : Binary64 → Loose Int
  | .finite neg m e =>
    let s := Binary64.scale m 1 e
    .ok (Binary64.signed neg (s.1 / s.2))
  | .nan => .error (.badNumber "cannot convert float NaN to integer")
  | .infinite _ => .error (.mismatch "cannot convert float infinity to integer")

def toInt : Value → Loose Int
  | .atom (.float x) => wholePart x
  | .atom (.int n) => .ok n
  | .atom (.bool b) => .ok (if b then 1 else 0)
  | .atom (.text s) => Environment.intOf s
  | v => .error (.mismatch
      s!"int() argument must be a string, a bytes-like object or a real number, not '{v.kindName}'")

end Value

end CodeAtlas
