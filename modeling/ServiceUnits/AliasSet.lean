import ServiceUnits.Name
import ServiceUnits.Path

namespace ServiceUnits

/-- The places that a path leads through: itself, then the targets of its links. -/
structure Chain where
  start : Path
  targets : List Path
deriving DecidableEq

namespace Chain

def ofList? : List Path → Option Chain
  | [] => none
  | p :: ps => some ⟨p, ps⟩

def toList (c : Chain) : List Path := c.start :: c.targets

/-- A unit whose chain leads through the null device is masked. -/
def isMasked (c : Chain) : Bool := c.toList.any (·.same .null)

/-- The canonical names of the files in the chain, as often as they occur. -/
def fileNames (c : Chain) : List String := (c.toList.filterMap Path.fileName?).map Name.canonical

end Chain

/-- The names that one fragment is reached under, and the chain of links that they come from. -/
structure AliasSet where
  /-- The aliases, in the order of the chain. -/
  names : List String
  chain : Chain
deriving DecidableEq

namespace AliasSet

/-- The path that the fragment is read through. -/
def fragment (a : AliasSet) : Path := a.chain.start

/-- The name that the unit was located by. A set without names has none, and the program ends where it
asks for it; `Resolver.resolve?` keeps that case. -/
def id? (a : AliasSet) : Option String := a.names.head?

def contains (a : AliasSet) (name : String) : Bool := name ∈ a.names

/-- The aliases that a chain gives: its file names, each at its first place. -/
def ofChain (c : Chain) : AliasSet := ⟨c.fileNames.eraseDups, c⟩

/-- The aliases of an instance that is read from its template: its own name, and every template in
the chain with the parameter filled in. Other names in the chain are none of the instance's. -/
def ofTemplate (name param : String) (c : Chain) : AliasSet :=
  ⟨(name :: (ofChain c).names.filterMap fun other =>
      (Name.parse? other).bind (·.instantiate? param)).eraseDups, c⟩

end AliasSet
end ServiceUnits
