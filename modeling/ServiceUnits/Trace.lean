import ServiceUnits.Log
import ServiceUnits.Resolver

namespace ServiceUnits.Trace

/-- The search for a name through some directories. -/
def search (fs : FileSystem) (name : String) : List String → List Event
  | [] => []
  | dir :: dirs =>
    let p := Path.join ⟨dir⟩ name
    match fs.chain p with
    | .error e =>
      if e.isNotFound then search fs name dirs else .unresolved p e :: search fs name dirs
    | .ok [] => search fs name dirs
    | .ok chain => [.found name dir chain]

/-- The use of a template's fragment for an instance. -/
def useTemplate (name base : String) (c : Chain) : List Event :=
  .templateUsed c.start name :: (AliasSet.ofChain c).names.filterMap fun other =>
    if (Name.parse? other).any Name.isTemplate then none else some (.aliasIgnored other base)

def locate (fs : FileSystem) (lookup : Lookup) (text : String) : List Event :=
  let name := Name.canonical text
  search fs name lookup.dirs ++
    match firstChain? fs lookup name, Name.templateOf? name with
    | none, some base =>
      search fs base lookup.dirs ++
        match firstChain? fs lookup base with
        | some c => if c.isMasked then [] else useTemplate name base c
        | none => []
    | _, _ => []

/-- The listing of a directory. One that is not there is no event. -/
def list (fs : FileSystem) (dir : Path) : List Event :=
  match fs.list dir with
  | .ok _ => []
  | .error e => if e.isNotFound then [] else [.unlistable dir e]

/-- The reading of overlays up to one that is malformed. -/
def overlays (fs : FileSystem) : List Path → Config → List Event
  | [], _ => []
  | p :: ps, c =>
    match fs.read p with
    | .error e => .unreadable p e :: overlays fs ps c
    | .ok bytes =>
      .applying p ::
        match c.overlay (Text.decodeLossy bytes) with
        | (c, .ok ()) => overlays fs ps c
        | (_, .error _) => []

def dependencyDir (fs : FileSystem) (param : Option String) (r : Relation) (dir : Path) :
    List Event :=
  list fs dir ++ ((Dropin.entries fs dir).mergeSort (· ≤ ·)).map fun entry =>
    match Dropin.dependency? param entry with
    | some unit => .adding r unit dir
    | none => .entryIgnored entry dir

def overlaySearch (fs : FileSystem) (lookup : Lookup) (a : AliasSet) : List Event :=
  (Dropin.stems lookup a).flatMap fun stem => list fs (Dropin.directory stem Dropin.overlaySuffix)

def dropins (fs : FileSystem) (lookup : Lookup) (table : SuffixTable) (a : AliasSet) (c : Config) :
    List Event :=
  let stems := Dropin.stems lookup a
  let selected := Dropin.selectedOverlays fs lookup a
  overlaySearch fs lookup a ++ overlays fs selected c ++
    match Dropin.applyOverlays fs selected c with
    | (_, .error _) => []
    | (_, .ok ()) =>
      (Dropin.dependencyDirs table stems).flatMap fun row =>
        dependencyDir fs (Dropin.parameter? a) row.1 row.2

def read (r : Resolver) (name : String) (a : AliasSet) : List Event :=
  .loading name a.fragment ::
    match r.fs.read a.fragment with
    | .error _ => []
    | .ok bytes =>
      match Config.read (Text.decodeLossy bytes) with
      | .error _ => []
      | .ok c => dropins r.fs r.lookup r.table a c

def resolve (r : Resolver) (text : String) : List Event :=
  let name := Name.canonical text
  match Resolver.checkName name with
  | .error _ => []
  | .ok () =>
    locate r.fs r.lookup name ++
      match ServiceUnits.locate r.fs r.lookup name with
      | .error _ => []
      | .ok a => read r name a

/-- The events of loading a unit, in the order in which they happen. They end where the resolving
ends. -/
def load (r : Resolver) (text : String) : List Event :=
  resolve r text ++
    match r.resolve text with
    | .ok u =>
      [.resolved (Name.canonical text) u.aliases.names u.delta.outgoing.entries.length
        u.delta.incoming.entries.length]
    | .error e => [.failed text e]

end ServiceUnits.Trace
