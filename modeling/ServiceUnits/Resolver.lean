import ServiceUnits.Delta
import ServiceUnits.Dropin
import ServiceUnits.Locate

namespace ServiceUnits

/-- All that is known of a unit after it was resolved. -/
structure ResolvedUnit where
  aliases : AliasSet
  config : Config
  delta : Delta
deriving DecidableEq

structure Handover where
  aliases : List String
  outgoing : Dict Edge
  incoming : Dict Edge
deriving DecidableEq

def ResolvedUnit.handover (u : ResolvedUnit) : Handover :=
  ⟨u.aliases.names, u.delta.outgoing, u.delta.incoming⟩

structure Resolver where
  fs : FileSystem
  lookup : Lookup
  table : SuffixTable

namespace Resolver

/-- A name that may be resolved: a single file name, and no template, which is only resolved through
its instances. -/
def checkName (name : String) : Except Error Unit :=
  if '/' ∈ name.toList then .error (.notFileName name)
  else if Name.isFileName (· = .template) name then .error (.template name)
  else .ok ()

def resolve (r : Resolver) (text : String) : Except Error ResolvedUnit := do
  let name := Name.canonical text
  checkName name
  let aliases ← locate r.fs r.lookup name
  let bytes ← r.fs.read aliases.fragment
  let fragment ← Config.read (Text.decodeLossy bytes)
  let (config, result) := Dropin.apply r.fs r.lookup r.table aliases fragment
  result
  return ⟨aliases, config, .ofConfig config⟩

/-- The names that the drop-ins of a unit are looked for by, once its fragment was read. -/
def fragmentNames (r : Resolver) (text : String) : Except Error (List String) := do
  let name := Name.canonical text
  checkName name
  let aliases ← locate r.fs r.lookup name
  let bytes ← r.fs.read aliases.fragment
  let _ ← Config.read (Text.decodeLossy bytes)
  return aliases.names

/-- What resolving a name comes to. There is no result where the unit has no names at all: its drop-ins
need the first one, and taking that is the end of the program. -/
def resolve? (r : Resolver) (text : String) : Option (Except Error ResolvedUnit) :=
  match r.fragmentNames text with
  | .ok [] => none
  | _ => some (r.resolve text)

/-- What the scheduler is given when some units are loaded one after the other. -/
def handovers (r : Resolver) (names : List String) : List Handover :=
  names.filterMap fun name => (r.resolve name).toOption.map ResolvedUnit.handover

end Resolver
end ServiceUnits
