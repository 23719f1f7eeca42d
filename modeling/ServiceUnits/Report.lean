import ServiceUnits.Resolver

namespace ServiceUnits.Report

def textLines (h : Handover) : List String :=
  " ".intercalate h.aliases ::
    (h.outgoing.entries.map fun e => "  -> " ++ e.1 ++ ": " ++ e.2.text) ++
    (h.incoming.entries.map fun e => "  <- " ++ e.1 ++ ": " ++ e.2.text)

/-- An edge of the graph. The texts stand between the quotes as they are. -/
def statement (source target label : String) : String :=
  "\"" ++ source ++ "\" -> \"" ++ target ++ "\" [label=\"" ++ label ++ "\"];"

/-- The edges of a unit: those from it, then those to it. A unit without a name has none. -/
def statements (h : Handover) : List String :=
  match h.aliases with
  | [] => []
  | id :: _ =>
    (h.outgoing.entries.map fun e => statement id e.1 e.2.text) ++
      h.incoming.entries.map fun e => statement e.1 id e.2.text

def unlines (lines : List String) : String := "".intercalate (lines.map (· ++ "\n"))

def text (hs : List Handover) : String := unlines (hs.flatMap textLines)

/-- All units as one directed graph in the language of Graphviz. -/
def digraph (hs : List Handover) : String :=
  unlines (["digraph units \x7b"] ++ (hs.flatMap statements).map ("    " ++ ·) ++ ["\x7d"])

end ServiceUnits.Report
