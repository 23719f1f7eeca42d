import ServiceUnits.Path

namespace ServiceUnits.Path

open Text

/-- One more component after the steps taken, the last of them first. Two dots take back the last
name; above the root they lead nowhere. -/
def takeStep (absolute : Bool) (taken : List (List Char)) (piece : List Char) :
    Option (List (List Char)) :=
  if isIdle piece then some taken
  else if piece = ['.', '.'] then
    match taken with
    | last :: before =>
      if last ≠ ['.', '.'] then some before
      else if absolute then none else some (piece :: taken)
    | [] => if absolute then none else some [piece]
  else some (piece :: taken)

/-- The steps that are left of a path, the last of them first. -/
def takeSteps (absolute : Bool) (ps : List (List Char)) : Option (List (List Char)) :=
  ps.foldlM (takeStep absolute) []

/-- The text of the steps. Nothing left is the root or the place itself. -/
def render (absolute : Bool) (steps : List (List Char)) : List Char :=
  if absolute then '/' :: Text.join '/' steps
  else if steps = [] then ['.'] else Text.join '/' steps

/-- The normal form; none if the path is absolute and climbs above the root. -/
def simplify? (text : String) : Option String :=
  let absolute := text.toList.head? = some '/'
  (takeSteps absolute (pieces slash text.toList)).map fun taken =>
    .ofList (render absolute taken.reverse)

end ServiceUnits.Path
