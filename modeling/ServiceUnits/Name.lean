import ServiceUnits.Text.Blank

namespace ServiceUnits

open Text

/-- The parts of a well-formed unit name. A name with an empty parameter is a template, one with
any other parameter is an instance of it. -/
structure Name where
  base : String
  param : Option String
  type : String
  /-- Whether the text spells the type out. -/
  explicit : Bool
deriving DecidableEq

namespace Name

/-- The longest a name may be, in bytes of UTF-8. -/
def maxBytes : Nat := 255

def defaultType : String := "service"

inductive Form where
  | plain
  | template
  | instantiated
deriving DecidableEq

/-- Whether a text may stand between the separators of a name. -/
def isPart (s : List Char) : Bool := s.all fun c => c != '@' && c != '.' && !isBlank c

/-- The text cut at its first dot, and what is before that dot cut at its first at-sign. -/
def split (s : List Char) : List Char × Option (List Char) × Option (List Char) :=
  let byType := cut '.' s
  let byParam := cut '@' byType.1
  (byParam.1, byParam.2, byType.2)

def parse? (text : String) : Option Name :=
  let (base, param, type) := split text.toList
  if text.utf8ByteSize ≤ maxBytes && base ≠ [] && isPart base && param.all isPart &&
      type.all (fun t => t ≠ [] && isPart t) then
    some ⟨.ofList base, param.map .ofList, (type.map .ofList).getD defaultType, type.isSome⟩
  else none

def form (n : Name) : Form :=
  match n.param with
  | none => .plain
  | some p => if p = "" then .template else .instantiated

def isTemplate (n : Name) : Bool := n.form = .template

def isInstance (n : Name) : Bool := n.form = .instantiated

/-- The name with its type, spelled out or not. -/
def text (n : Name) : String :=
  match n.param with
  | none => n.base ++ "." ++ n.type
  | some p => n.base ++ "@" ++ p ++ "." ++ n.type

def templateName? (n : Name) : Option String :=
  if n.isInstance then some (n.base ++ "@." ++ n.type) else none

/-- The template with a parameter filled in. The parameter is taken as it is. -/
def instantiate? (n : Name) (param : String) : Option String :=
  if n.isTemplate then some (n.base ++ "@" ++ param ++ "." ++ n.type) else none

/-- A text that holds no dot gets the type that it leaves out. -/
def canonical (text : String) : String :=
  if '.' ∈ text.toList then text else text ++ "." ++ defaultType

def templateOf? (text : String) : Option String := (parse? text).bind templateName?

def parameterOf? (text : String) : Option String :=
  (parse? text).bind fun n => if n.isInstance then n.param else none

/-- Whether the text names a unit file of one of the allowed forms: a file's name spells the type
out. -/
def isFileName (allowed : Form → Bool) (text : String) : Bool :=
  match parse? text with
  | none => false
  | some n => n.explicit && allowed n.form

end Name
end ServiceUnits
