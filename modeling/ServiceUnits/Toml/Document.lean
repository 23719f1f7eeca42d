import ServiceUnits.Toml.Value

namespace ServiceUnits.Toml

/-- A path of keys, and whether it is one more element of an array. -/
structure Header where
  path : List String
  element : Bool
deriving DecidableEq

inductive Line where
  | header (h : Header)
  | entry (key : List String) (value : Value)

def takeLineEnd (ts : List Token) : Option (Rest ts) :=
  let ⟨r, hr⟩ := skipBlank ts
  match r with
  | [] => some ⟨[], by simp⟩
  | .newline :: s | .comment :: .newline :: s => some ⟨s, by simp at hr; omega⟩
  | [.comment] => some ⟨[], by simp⟩
  | _ => none

def takeHeader (ts : List Token) : Option (Header × Rest ts) := do
  let (element, ⟨a, ha⟩) := takeIf .leftBracket ts
  let ⟨b, hb⟩ := skipBlank a
  let (path, ⟨c, hc⟩) ← takeKey b
  let (true, ⟨d, hd⟩) := takeIf .rightBracket c | none
  let (closed, ⟨e, he⟩) := if element then takeIf .rightBracket d else (true, .whole d)
  if !closed then none
  let ⟨f, hf⟩ ← takeLineEnd e
  return (⟨path, element⟩, ⟨f, Nat.le_trans hf (Nat.le_trans he (Nat.le_trans hd
    (Nat.le_trans (Nat.le_of_lt hc) (Nat.le_trans hb ha))))⟩)

def takeEntry (ts : List Token) : Option (Line × Shorter ts) := do
  let (key, ⟨a, ha⟩) ← takeKey ts
  let (true, ⟨b, hb⟩) := takeIf .equals a | none
  let ⟨c, hc⟩ := skipBlank b
  let (value, ⟨d, hd⟩) ← takeValue c
  let ⟨e, he⟩ ← takeLineEnd d
  return (.entry key value, ⟨e, by omega⟩)

def takeLine (ts : List Token) : Option (Line × Shorter ts) :=
  match ts with
  | .leftBracket :: r =>
    (takeHeader r).map fun (h, u) => (.header h, u.after .leftBracket)
  | ts => takeEntry ts

def lines (ts : List Token) : Option (List Line) :=
  let ⟨a, _⟩ := skipLines ts
  if a = [] then some []
  else
    match takeLine a with
    | none => none
    | some (line, ⟨b, _⟩) => (lines b).map (line :: ·)
termination_by ts.length
decreasing_by omega

structure Block where
  header : Header
  entries : Entries

/-- Entries before the first header, then blocks, each a header and the entries behind it. -/
structure Document where
  root : Entries
  blocks : List Block

namespace Document

/-- One line more: a new block, or one more entry of the last one. -/
def addLine (d : Document) : Line → Option Document
  | .header h => some { d with blocks := ⟨h, []⟩ :: d.blocks }
  | .entry key v =>
    match d.blocks with
    | [] => (d.root.add key v).map fun root => { d with root := root }
    | b :: bs =>
      (b.entries.add key v).map fun entries => { d with blocks := { b with entries } :: bs }

def ofLines (ls : List Line) : Option Document := ls.foldlM addLine ⟨[], []⟩

/-- Whether a path goes on from another one. -/
def beneath (path other : List String) : Bool := path <+: other && path ≠ other

/-- The headers that a new one has to agree with, once it agrees with those that there are: an array
may have another element, with the tables beneath it opened anew; all else is opened once, and an
array is not begun after what is beneath it. -/
def open? (opened : List Header) (h : Header) : Option (List Header) :=
  if !h.element then
    if opened.any (·.path = h.path) then none else some (h :: opened)
  else if h ∈ opened then some (opened.filter fun o => !beneath h.path o.path)
  else if opened.any fun o => h.path <+: o.path then none
  else some (h :: opened)

/-- Whether no header opens what must not be opened again. -/
def agrees (d : Document) : Bool :=
  ((d.blocks.reverse.map (·.header)).foldlM open? []).isSome

/-- The keys at the top: of the entries in front, and of every table that headers open. -/
def topKeys (d : Document) : List String :=
  d.root.map (·.1) ++ (d.blocks.reverse.filterMap (·.header.path.head?)).eraseDups

def read? (s : List Char) : Option Document := do
  let d ← ofLines (← lines (← tokens? s))
  if d.agrees then some d else none

end Document
end ServiceUnits.Toml
