import JarGate.Text.Blank
import JarGate.Text.Quoted

/-!
# Failure modes

What a licensed program does when its license is invalid or cannot be checked, and the shape of the
code that this asks for at the entry points.
-/

namespace JarGate

/-- What happens when the license is invalid or cannot be checked. -/
inductive FailureMode where
  /-- The entry point refuses, and the host is told to unload the program. -/
  | kickAndDisable
  /-- The entry point refuses. -/
  | disableOnly
  /-- The program runs all the same, and the verdict is recorded for it. -/
  | limitedMode
  /-- A license that cannot be checked counts as valid. -/
  | allowOnError
  /-- A license that cannot be checked counts as invalid. -/
  | denyOnError
  deriving DecidableEq, Repr

/-- The shapes of the code that is put at the front of an entry point. -/
inductive PrologueShape where
  /-- Ask the gate, and leave the method if it refuses. -/
  | earlyReturn
  /-- Ask the gate and go on. -/
  | callOnly
  deriving DecidableEq, Repr

/-- The name of a shape. -/
def PrologueShape.name : PrologueShape → String
  | .earlyReturn => "early-return"
  | .callOnly => "call-only"

/-- Failures of reading a license policy. -/
inductive PolicyError where
  | missingKey (key : String)
  | invalidValue (key value : String)
  | unknownMode (text : String)
  deriving DecidableEq, Repr

/-- The full text of an error. -/
def PolicyError.message : PolicyError → String
  | .missingKey key => "missing required property \x60" ++ key ++ "\x60"
  | .invalidValue key value =>
    "invalid value " ++ Text.Quoted.quote value ++ " for \x60" ++ key ++ "\x60"
  | .unknownMode text => "unknown failure mode " ++ Text.Quoted.quote text

namespace FailureMode

/-- Every mode. -/
def all : List FailureMode :=
  [kickAndDisable, disableOnly, limitedMode, allowOnError, denyOnError]

/-- The shape of the code at entry points. -/
def shape : FailureMode → PrologueShape
  | limitedMode => .callOnly
  | _ => .earlyReturn

/-- The verdict when the license cannot be checked. -/
def onError : FailureMode → Bool
  | allowOnError => true
  | _ => false

/-- The name in property files. -/
def propertyName : FailureMode → String
  | kickAndDisable => "KICK_AND_DISABLE"
  | disableOnly => "DISABLE_ONLY"
  | limitedMode => "LIMITED_MODE"
  | allowOnError => "ALLOW_ON_ERROR"
  | denyOnError => "DENY_ON_ERROR"

/-- The name on the command line. -/
def displayName : FailureMode → String
  | kickAndDisable => "kick-and-disable"
  | disableOnly => "disable-only"
  | limitedMode => "limited-mode"
  | allowOnError => "allow-on-error"
  | denyOnError => "deny-on-error"

/-- The property name that a text stands for: letters of either case, and hyphens for underscores. -/
def normalize (text : String) : String :=
  String.ofList ((Text.trim text).toList.map fun c => if c = '-' then '_' else c.toUpper)

/-- The mode with a property name. -/
def ofPropertyName? (name : String) : Option FailureMode :=
  all.find? fun m => m.propertyName == name

/-- The mode that a text names. -/
def parse (text : String) : Except PolicyError FailureMode :=
  match ofPropertyName? (normalize text) with
  | some mode => .ok mode
  | none => .error (.unknownMode text)

end FailureMode

end JarGate
