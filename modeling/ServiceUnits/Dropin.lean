import ServiceUnits.AliasSet
import ServiceUnits.Config.Reader
import ServiceUnits.FileSystem
import ServiceUnits.Lookup
import ServiceUnits.Relation
import ServiceUnits.Text.Utf8

namespace ServiceUnits

/-- The suffixes of dependency directories, each with the relation of its entries. -/
abbrev SuffixTable := List (String × Relation)

def SuffixTable.standard : SuffixTable := [("wants", .wants), ("requires", .requires)]

namespace Dropin

/-- The names that drop-ins of an alias stand under: the alias, and the template of an instance. -/
def subpaths (a : AliasSet) : List String :=
  (a.names.flatMap fun name => Name.canonical name :: (Name.templateOf? name).toList).eraseDups

/-- What the drop-in directories of a unit start with: every subpath beneath every directory. -/
def stems (lookup : Lookup) (a : AliasSet) : List String :=
  (subpaths a).flatMap lookup.beneath

def directory (stem suffix : String) : Path := ⟨stem ++ "." ++ suffix⟩

def overlaySuffix : String := "d"

/-- The names in a directory. One that cannot be listed has none. -/
def entries (fs : FileSystem) (dir : Path) : List String := (fs.list dir).toOption.getD []

def isOverlayName (name : String) : Bool := ".conf".toList <:+ name.toList

/-- The overlays of some directories by their names. The first directory that has a name counts. -/
def overlays (fs : FileSystem) (dirs : List Path) : Dict Path :=
  (dirs.flatMap fun dir =>
      ((entries fs dir).filter isOverlayName).map fun name => (name, dir.join name)).foldl
    (fun found entry => found.insertNew entry.1 entry.2) .empty

/-- The overlays read on top of a config. Files that cannot be read are passed over; a malformed
line ends the reading. -/
def applyOverlays (fs : FileSystem) : List Path → Config → Config × Except Error Unit
  | [], c => (c, .ok ())
  | p :: ps, c =>
    match fs.read p with
    | .error _ => applyOverlays fs ps c
    | .ok bytes =>
      match c.overlay (Text.decodeLossy bytes) with
      | (c, .ok ()) => applyOverlays fs ps c
      | (c, .error e) => (c, .error e)

/-- The unit that an entry stands for: for a template in a directory of an instance the instance
with the same parameter, else the name in its canonical form. Entries that are no unit names stand
for none. -/
def dependency? (param : Option String) (entry : String) : Option String :=
  (Name.parse? entry).map fun n =>
    (param.bind n.instantiate?).getD (Name.canonical entry)

def dependencies (fs : FileSystem) (param : Option String) (dir : Path) : List String :=
  ((entries fs dir).mergeSort (· ≤ ·)).filterMap (dependency? param)

/-- The dependency directories: for each row of the table one beneath each stem. -/
def dependencyDirs (table : SuffixTable) (stems : List String) : List (Relation × Path) :=
  table.flatMap fun row => stems.map fun stem => (row.2, directory stem row.1)

/-- The directories that are listed for a unit: those of its overlays, then the dependency
directories. -/
def directories (lookup : Lookup) (table : SuffixTable) (a : AliasSet) : List Path :=
  (stems lookup a).map (directory · overlaySuffix) ++
    (dependencyDirs table (stems lookup a)).map (·.2)

/-- What the dependency directories add, each unit with its relation. -/
def added (fs : FileSystem) (table : SuffixTable) (stems : List String) (param : Option String) :
    List (Relation × String) :=
  (dependencyDirs table stems).flatMap fun row =>
    (dependencies fs param row.2).map fun unit => (row.1, unit)

/-- The parameter of the unit that an alias set was located for. It is only asked for where the set has
a name. -/
def parameter? (a : AliasSet) : Option String := a.id?.bind Name.parameterOf?

/-- The overlays of a unit in the order in which they are read. -/
def selectedOverlays (fs : FileSystem) (lookup : Lookup) (a : AliasSet) : List Path :=
  (overlays fs ((stems lookup a).map (directory · overlaySuffix))).entries.map (·.2)

/-- The drop-ins of a unit on top of its config: the overlays, then, if all were well-formed, the
dependency directories. -/
def apply (fs : FileSystem) (lookup : Lookup) (table : SuffixTable) (a : AliasSet) (c : Config) :
    Config × Except Error Unit :=
  match applyOverlays fs (selectedOverlays fs lookup a) c with
  | (c, .error e) => (c, .error e)
  | (c, .ok ()) =>
    ((added fs table (stems lookup a) (parameter? a)).foldl
      (fun c entry => c.append Config.unitSection entry.1.key entry.2) c, .ok ())

end Dropin
end ServiceUnits
