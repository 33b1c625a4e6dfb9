import Relay.Setting.Path

/-!
Layers of settings. A layer changes the table below it name by name: a table is merged into what is
there, and anything else takes its place. Names are in lower case, and a name at the top of a layer may
be a path.
-/

namespace Relay

namespace Setting

/-- The table `base` under a layer. -/
def addLayer (base : Setting) (layer : List (String × Setting)) : Setting :=
  layer.foldl (fun s e => mergeAt s e.2 (path e.1)) base

def ofLayers (layers : List (List (String × Setting))) : Setting := layers.foldl addLayer (.table [])

/-! ### The environment -/

/-- The name with points in place of pairs of underscores. -/
def pointed : List Char → List Char
  | '_' :: '_' :: cs => '.' :: pointed cs
  | c :: cs => c :: pointed cs
  | [] => []

/-- What the name of a variable that begins with `start` goes on with, in lower case. -/
def remainder? (start name : String) : Option String :=
  let cs := (fold name).toList
  if start.toList.isPrefixOf cs then some (String.ofList (pointed (cs.drop start.length))) else none

/-- The layer of the variables whose names begin with `start`. -/
def ofVariables (start : String) (vars : List (String × String)) : List (String × Setting) :=
  vars.filterMap fun (name, value) => (remainder? start name).map (·, ofText value)

end Setting

end Relay
