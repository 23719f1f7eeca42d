import ServiceUnits.Config
import ServiceUnits.Error
import ServiceUnits.Text.Blank

namespace ServiceUnits

open Text

/-- The forms of a line outside a value, without the blanks at its ends. -/
inductive Line where
  | idle
  | header (name : List Char)
  | assignment (key value : List Char)
  | malformed
deriving DecidableEq

namespace Line

/-- The name between the brackets of a header: anything but nothing, brackets included. -/
def headerName? : List Char → Option (List Char)
  | '[' :: c :: rest => if (c :: rest).getLast? = some ']' && rest ≠ [] then
      some (c :: rest).dropLast else none
  | _ => none

/-- The key and the value of an assignment: what is before the first `=`, and what is after it. -/
def assignment? (s : List Char) : Option (List Char × List Char) :=
  match cut '=' s with
  | (key, some value) => if trim key = [] then none else some (trim key, trim value)
  | (_, none) => none

def ofTrimmed (s : List Char) : Line :=
  if s = [] || s.head? = some '#' || s.head? = some ';' then idle
  else match headerName? s with
    | some name => header name
    | none => match assignment? s with
      | some (key, value) => assignment key value
      | none => malformed

/-- What stands before the backslash of a line that goes on: one that ends in an odd number of
backslashes, the others being paired. -/
def continued? (s : List Char) : Option (List Char) :=
  if (s.reverse.takeWhile (· = '\\')).length % 2 = 1 then some (trimEnd s.dropLast) else none

end Line

/-- A value of which more lines are to come. -/
structure Pending where
  key : String
  segments : List (List Char)

/-- The segments with one space between two of them, trimmed as a whole. -/
def Pending.value (p : Pending) : String := .ofList (trim (join ' ' p.segments))

/-- The state of reading: what has been read, the section that is open, and the value that is not
complete yet. -/
structure Reader where
  config : Config
  current : String
  pending : Option Pending

namespace Reader

def start (c : Config) : Reader := ⟨c, Config.topLevel, none⟩

def commit (r : Reader) : Reader :=
  match r.pending with
  | none => r
  | some p => ⟨r.config.append r.current p.key p.value, r.current, none⟩

def readLine (r : Reader) (line : List Char) : Except Error Reader :=
  match Line.ofTrimmed line with
  | .idle => .ok r
  | .header name =>
    .ok { r with config := r.config.openSection (.ofList name), current := .ofList name }
  | .assignment key value =>
    if value = [] then .ok { r with config := r.config.reset r.current (.ofList key) }
    else match Line.continued? value with
      | some segment => .ok { r with pending := some ⟨.ofList key, [segment]⟩ }
      | none => .ok { r with config := r.config.append r.current (.ofList key) (.ofList value) }
  | .malformed => .error (.badLine (.ofList line))

/-- One more line. Inside a value it is a segment of the value. -/
def step (r : Reader) (raw : List Char) : Except Error Reader :=
  let line := trim raw
  match r.pending with
  | none => r.readLine line
  | some p =>
    match Line.continued? line with
    | some segment => .ok { r with pending := some { p with segments := p.segments ++ [segment] } }
    | none => .ok { r with pending := some { p with segments := p.segments ++ [line] } }.commit

/-- The lines up to the first that is malformed. The end of the text completes a value. -/
def run (r : Reader) : List (List Char) → Config × Except Error Unit
  | [] => (r.commit.config, .ok ())
  | line :: rest =>
    match r.step line with
    | .ok next => next.run rest
    | .error e => (r.config, .error e)

end Reader

namespace Config

/-- A text ends its lines with carriage returns and line feeds, each of them for itself. -/
def isLineEnd (c : Char) : Bool := c = '\r' || c = '\n'

/-- The text read on top of a config: the config then, and whether all lines were well-formed. -/
def overlay (c : Config) (text : String) : Config × Except Error Unit :=
  (Reader.start c).run (pieces isLineEnd text.toList)

def read (text : String) : Except Error Config :=
  match empty.overlay text with
  | (c, .ok ()) => .ok c
  | (_, .error e) => .error e

end Config
end ServiceUnits
