import ServiceUnits.Text.Shapeless

namespace ServiceUnits.Text

/-- The number of a character between braces, in the digits that it needs. -/
def codePoint (c : Char) : List Char :=
  ['\\', 'u', '\x7b'] ++ Nat.toDigits 16 c.toNat ++ ['\x7d']

def escape (c : Char) : List Char :=
  if c = '\x00' then ['\\', '0']
  else if c = '\t' then ['\\', 't']
  else if c = '\r' then ['\\', 'r']
  else if c = '\n' then ['\\', 'n']
  else if c = '\\' || c = '"' then ['\\', c]
  else if isShapeless c then codePoint c
  else [c]

def quote (s : String) : String := .ofList ('"' :: s.toList.flatMap escape ++ ['"'])

def quoteAll (ss : List String) : String := "[" ++ ", ".intercalate (ss.map quote) ++ "]"

end ServiceUnits.Text
