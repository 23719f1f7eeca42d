namespace ServiceUnits

/-- Where unit files and drop-ins are searched, the most important directory first. -/
structure Lookup where
  dirs : List String
deriving DecidableEq

namespace Lookup

def empty : Lookup := ⟨[]⟩

def administrator : String := "/etc/systemd/system"

def distribution : String := "/usr/lib/systemd/system"

def addSystem (l : Lookup) : Lookup := ⟨l.dirs ++ [administrator, distribution]⟩

def system : Lookup := empty.addSystem

/-- A directory without the slashes at its end; the root keeps its one. -/
def normalDir (dir : String) : String :=
  match (dir.toList.reverse.dropWhile (· = '/')).reverse with
  | [] => "/"
  | cs => .ofList cs

/-- The directories in the order given, each at its first place. -/
def ofList (dirs : List String) : Lookup :=
  ⟨(dirs.map normalDir).eraseDups⟩

def beneath (l : Lookup) (name : String) : List String := l.dirs.map (· ++ "/" ++ name)

end Lookup
end ServiceUnits
