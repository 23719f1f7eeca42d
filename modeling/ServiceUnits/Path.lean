import ServiceUnits.Text.Pieces

namespace ServiceUnits

open Text

structure Path where
  text : String
deriving DecidableEq

namespace Path

def slash : Char → Bool := (· == '/')

/-- The place where masked units lead to. -/
def null : Path := ⟨"/dev/null"⟩

/-- A piece that does not name a step: empty, or the dot. -/
def isIdle (piece : List Char) : Bool := piece = [] || piece = ['.']

/-- Whether a path starts at the root, and the components after that. -/
structure Components where
  absolute : Bool
  parts : List (List Char)
deriving DecidableEq

/-- The components of a text: what is between the slashes. A dot counts only where a relative path
starts with it. -/
def componentsOf (s : List Char) : Components :=
  match pieces slash s with
  | [] => ⟨false, []⟩
  | first :: rest =>
    ⟨s.head? = some '/',
      (if first = [] then [] else [first]) ++ rest.filter (fun piece => !isIdle piece)⟩

def components (p : Path) : Components := componentsOf p.text.toList

def same (p q : Path) : Bool := p.components = q.components

/-- A name beneath a directory. An absolute name replaces the directory. -/
def join (dir : Path) (name : String) : Path :=
  if name.toList.head? = some '/' then ⟨name⟩
  else if dir.text.toList.getLast?.all slash then ⟨dir.text ++ name⟩
  else ⟨dir.text ++ "/" ++ name⟩

/-- The last component, unless it is a dot or two. -/
def fileName? (p : Path) : Option String :=
  match p.components.parts.getLast? with
  | none => none
  | some last => if last = ['.'] || last = ['.', '.'] then none else some (.ofList last)

end Path
end ServiceUnits
