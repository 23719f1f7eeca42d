namespace ServiceUnits.Toml

inductive Token where
  | newline
  /-- A run of blanks; `single` if it is one space. -/
  | blank (single : Bool)
  | comment
  | equals
  | period
  | comma
  | colon
  | plus
  | leftBrace
  | rightBrace
  | leftBracket
  | rightBracket
  /-- A run of letters, digits, dashes and underscores. -/
  | bare (text : List Char)
  | quoted (value : List Char) (multiline : Bool)
deriving DecidableEq

/-- How a token that may stand in a date is written; the others have no text here. -/
def Token.dateText : Token → List Char
  | bare text => text
  | colon => [':']
  | period => ['.']
  | plus => ['+']
  | blank true => [' ']
  | _ => []

/-- The delimiter of a string, and whether there are three of it on each side. -/
structure Quotes where
  delimiter : Char
  multiline : Bool

inductive Mode where
  /-- Right behind the delimiters; a line end here does not count. -/
  | fresh
  | content
  | escape
  /-- In a character's number, with so many digits to come. -/
  | number (left value : Nat)
  /-- Behind a backslash and blanks, before the line end. -/
  | lineGap
  /-- Behind a backslash and a line end: blanks and line ends do not count. -/
  | gap
  /-- Behind so many delimiters in a row. -/
  | closing (count : Nat)

/-- The scanner goes through the text one character at a time. Its state is the token that is being
read. -/
inductive Scan where
  | ready
  | blank (single : Bool)
  | bare (reversed : List Char)
  | comment
  | opening (delimiter : Char) (count : Nat)
  | inside (q : Quotes) (reversed : List Char) (mode : Mode)

/-- What a character does: the tokens that it completes, and the token that is then being read. -/
abbrev Step := Option (List Token × Scan)

def isBare (c : Char) : Bool := c.isAlphanum || c = '-' || c = '_'

/-- Whether a string may hold the character as it is. -/
def isContent (c : Char) : Bool := c = '\t' || (' ' ≤ c && c ≠ '\x7f')

namespace Scan

def first (c : Char) : Step :=
  match c with
  | '\n' => some ([.newline], ready)
  | ' ' => some ([], blank true)
  | '\t' => some ([], blank false)
  | '#' => some ([], comment)
  | '=' => some ([.equals], ready)
  | '.' => some ([.period], ready)
  | ',' => some ([.comma], ready)
  | ':' => some ([.colon], ready)
  | '+' => some ([.plus], ready)
  | '\x7b' => some ([.leftBrace], ready)
  | '\x7d' => some ([.rightBrace], ready)
  | '[' => some ([.leftBracket], ready)
  | ']' => some ([.rightBracket], ready)
  | '"' => some ([], opening c 1)
  | '\'' => some ([], opening c 1)
  | _ => if isBare c then some ([], bare [c]) else none

def after (t : Token) (c : Char) : Step := (first c).map fun r => (t :: r.1, r.2)

def content (q : Quotes) (reversed : List Char) (c : Char) : Step :=
  if c = '\n' then
    if q.multiline then some ([], inside q ('\n' :: reversed) .content) else none
  else if c = q.delimiter then
    if q.multiline then some ([], inside q reversed (.closing 1))
    else some ([.quoted reversed.reverse false], ready)
  else if c = '\\' && q.delimiter = '"' then some ([], inside q reversed .escape)
  else if isContent c then some ([], inside q (c :: reversed) .content)
  else none

/-- The character that a letter behind a backslash stands for. -/
def escaped? : Char → Option Char
  | '"' => some '"'
  | '\\' => some '\\'
  | 'b' => some '\x08'
  | 'f' => some '\x0c'
  | 'n' => some '\n'
  | 'r' => some '\r'
  | 't' => some '\t'
  | _ => none

def hexValue? (c : Char) : Option Nat :=
  if c.isDigit then some (c.toNat - '0'.toNat)
  else if 'a' ≤ c && c ≤ 'f' then some (c.toNat - 'a'.toNat + 10)
  else if 'A' ≤ c && c ≤ 'F' then some (c.toNat - 'A'.toNat + 10)
  else none

def charOf? (n : Nat) : Option Char :=
  if h : n.isValidChar then some (Char.ofNatAux n h) else none

def insideStep (q : Quotes) (reversed : List Char) (mode : Mode) (c : Char) : Step :=
  match mode with
  | .fresh => if c = '\n' then some ([], inside q reversed .content) else content q reversed c
  | .content => content q reversed c
  | .escape =>
    match escaped? c with
    | some e => some ([], inside q (e :: reversed) .content)
    | none =>
      if c = 'u' then some ([], inside q reversed (.number 4 0))
      else if c = 'U' then some ([], inside q reversed (.number 8 0))
      else if q.multiline && (c = ' ' || c = '\t') then some ([], inside q reversed .lineGap)
      else if q.multiline && c = '\n' then some ([], inside q reversed .gap)
      else none
  | .number left value =>
    match hexValue? c with
    | none => none
    | some d =>
      let value := value * 16 + d
      if left ≤ 1 then (charOf? value).map fun e => ([], inside q (e :: reversed) .content)
      else some ([], inside q reversed (.number (left - 1) value))
  | .lineGap =>
    if c = ' ' || c = '\t' then some ([], inside q reversed .lineGap)
    else if c = '\n' then some ([], inside q reversed .gap)
    else none
  | .gap =>
    if c = ' ' || c = '\t' || c = '\n' then some ([], inside q reversed .gap)
    else content q reversed c
  | .closing n =>
    if c = q.delimiter then
      if n = 4 then some ([.quoted (c :: c :: reversed).reverse true], ready)
      else some ([], inside q reversed (.closing (n + 1)))
    else if n < 3 then content q (List.replicate n q.delimiter ++ reversed) c
    else after (.quoted (List.replicate (n - 3) q.delimiter ++ reversed).reverse true) c

def step (s : Scan) (c : Char) : Step :=
  match s with
  | ready => first c
  | blank single =>
    if c = ' ' || c = '\t' then some ([], blank false) else after (.blank single) c
  | bare reversed =>
    if isBare c then some ([], bare (c :: reversed)) else after (.bare reversed.reverse) c
  | comment => if c = '\t' || ' ' ≤ c then some ([], comment) else after .comment c
  | opening d n =>
    if n ≤ 1 then
      if c = d then some ([], opening d 2) else content ⟨d, false⟩ [] c
    else if c = d then some ([], inside ⟨d, true⟩ [] .fresh)
    else after (.quoted [] false) c
  | inside q reversed mode => insideStep q reversed mode c

def finish : Scan → Option (List Token)
  | ready => some []
  | blank single => some [.blank single]
  | bare reversed => some [.bare reversed.reverse]
  | comment => some [.comment]
  | opening _ n => if n ≤ 1 then none else some [.quoted [] false]
  | inside q reversed (.closing n) =>
    if n < 3 then none
    else some [.quoted (List.replicate (n - 3) q.delimiter ++ reversed).reverse true]
  | inside _ _ _ => none

def run (s : Scan) : List Char → Option (List Token)
  | [] => s.finish
  | c :: cs => do
    let (ts, s) ← s.step c
    return ts ++ (← s.run cs)

end Scan

/-- Line ends of two characters as one. -/
def foldLineEnds : List Char → List Char
  | [] => []
  | '\r' :: '\n' :: cs => '\n' :: foldLineEnds cs
  | c :: cs => c :: foldLineEnds cs

/-- The text without the mark that some editors put at its start. -/
def dropMark : List Char → List Char
  | '\uFEFF' :: cs => cs
  | cs => cs

def tokens? (s : List Char) : Option (List Token) := Scan.ready.run (foldLineEnds (dropMark s))

end ServiceUnits.Toml
