import ServiceUnits.AliasSet
import ServiceUnits.FileSystem
import ServiceUnits.Lookup

namespace ServiceUnits

/-- The chain of a name in one directory. A failure counts as the name not being there. -/
def chainIn? (fs : FileSystem) (name dir : String) : Option Chain :=
  match fs.chain (Path.join ⟨dir⟩ name) with
  | .ok c => Chain.ofList? c
  | .error _ => none

def firstChain? (fs : FileSystem) (lookup : Lookup) (name : String) : Option Chain :=
  lookup.dirs.findSome? (chainIn? fs name)

/-- The paths that a unit may be found at: its name beneath every directory, then its template's. -/
def candidates (lookup : Lookup) (text : String) : List Path :=
  let name := Name.canonical text
  (name :: (Name.templateOf? name).toList).flatMap fun n =>
    lookup.dirs.map fun dir => Path.join ⟨dir⟩ n

/-- The alias set of an instance, from the fragment of its template. -/
def locateTemplate (fs : FileSystem) (lookup : Lookup) (name base param : String) :
    Except Error AliasSet :=
  match firstChain? fs lookup base with
  | none => .error (.noUnitOrTemplate name base)
  | some c => if c.isMasked then .error (.masked base) else .ok (.ofTemplate name param c)

/-- The first lookup directory that has the name decides. An instance without a fragment of its own
is read from its template. -/
def locate (fs : FileSystem) (lookup : Lookup) (text : String) : Except Error AliasSet :=
  let name := Name.canonical text
  match firstChain? fs lookup name with
  | some c => if c.isMasked then .error (.masked name) else .ok (.ofChain c)
  | none =>
    match Name.templateOf? name, Name.parameterOf? name with
    | some base, some param => locateTemplate fs lookup name base param
    | _, _ => .error (.noUnit name)

end ServiceUnits
