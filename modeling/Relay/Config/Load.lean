import Relay.Config.Basic
import Relay.Setting.Layer
import Relay.Setting.Outline

/-!
Loading the configuration of an application: from the file that has its name if there is one, a file
that is asked for, a file that the environment names, and variables of the environment, each over those
before.
-/

namespace Relay

namespace Config

/-- Where a configuration comes from. -/
structure Sources where
  /-- The name of the application, in lower case. -/
  application : String
  /-- The files that there are, by name, with what they say, or nothing if they are malformed. -/
  files : List (String × Option Setting) := []
  path : Option String := none
  environment : List (String × String) := []

/-- Why there is no configuration. -/
inductive LoadFault where
  /-- A source is missing or malformed, or says what cannot be a configuration. -/
  | unreadable
  /-- The configuration is not valid. -/
  | invalid (f : Fault)
deriving DecidableEq

namespace Sources

/-- The file that is looked for in any case. -/
def defaultFile (s : Sources) : String := s.application ++ ".yaml"

def fileVariable (s : Sources) : String := s.application.map Char.toUpper ++ "_CONFIG"

/-- What the names of variables that are settings begin with, in any case. -/
def variableStart (s : Sources) : String := s.application ++ "__"

/-- Whether a part of a name between slashes stays where it is. -/
def stays (part : List Char) : Bool := part.isEmpty || part == ['.']

/-- What a file says. Its name may lack its ending; with a slash at the end of the name it has to. -/
def file? (s : Sources) (name : String) : Option (Option Setting) :=
  let parts := name.toList.splitOn '/'
  let start := if name.toList.head? = some '/' then ['/'] else []
  let short := String.ofList (start ++ ['/'].intercalate (parts.filter (!stays ·)))
  let whole := if parts.getLast?.any stays then [] else [""]
  (whole ++ [".yaml", ".yml"]).findSome? fun ending => s.files.lookup (short ++ ending)

/-- The layer of a file, which has to be a table. -/
def layer? (s : Sources) (name : String) : Option (List (String × Setting)) :=
  match s.file? name with
  | some (some (.table entries)) => some entries
  | _ => none

/-- All layers, the lowest first. -/
def layers? (s : Sources) : Option (List (List (String × Setting))) := do
  let first := if (s.file? s.defaultFile).isSome then [s.defaultFile] else []
  let named := first ++ s.path.toList ++ (s.environment.lookup s.fileVariable).toList
  return (← named.mapM s.layer?) ++ [Setting.ofVariables s.variableStart s.environment]

end Sources

def retryOfSetting? (v : Setting) : Option RetryPolicy := do
  let fields ← v.fields? retryNames
  let p : RetryPolicy := {}
  return {
    initialInterval :=
      ← Setting.field? fields "initial_interval_ms" (·.natural? (Nat.pow 2 64 - 1)) p.initialInterval
    multiplier := ← Setting.field? fields "multiplier" (·.real?) p.multiplier
    maxInterval := ← Setting.field? fields "max_interval_ms" (·.natural? (Nat.pow 2 64 - 1)) p.maxInterval
    maxAttempts := ← Setting.field? fields "max_attempts" (·.natural? (Nat.pow 2 32 - 1)) p.maxAttempts }

/-- The capacity of queues that a setting describes. -/
def bufferOfSetting? (v : Setting) : Option (Option Nat) := do
  let fields ← v.fields? [bufferName]
  Setting.field? fields bufferName (Setting.optional? (·.natural? (Nat.pow 2 64 - 1))) none

/-- The configuration that a table describes; names that it does not know are passed over. -/
def ofSetting? (v : Setting) : Option Config := do
  return {
    retry := ← Setting.field? v.entries "retry" retryOfSetting? {}
    buffer := ← Setting.field? v.entries "pubsub" bufferOfSetting? none }

def load (s : Sources) : Except LoadFault Config :=
  match s.layers?.bind fun layers => ofSetting? (Setting.ofLayers layers) with
  | none => .error .unreadable
  | some c =>
    match c.validate with
    | .error f => .error (.invalid f)
    | .ok () => .ok c

end Config

end Relay
