import ServiceUnits.Config
import ServiceUnits.Relation
import ServiceUnits.Text.Blank

namespace ServiceUnits

/-- The edges that one unit adds to the graph of dependencies. A relation towards a peer adds an
edge to the peer, and the edge of the reverse relation back from it. -/
structure Delta where
  /-- From the unit to its peers. -/
  outgoing : Dict Edge
  /-- From its peers to the unit. -/
  incoming : Dict Edge
deriving DecidableEq, Inhabited

namespace Delta

def empty : Delta := ⟨.empty, .empty⟩

def isEmpty (d : Delta) : Bool := d.outgoing.isEmpty && d.incoming.isEmpty

/-- The effects of one more edge. An edge without effects is not recorded. -/
def addEdge (edges : Dict Edge) (peer : String) (e : Edge) : Dict Edge :=
  if e.isNone then edges else edges.alter peer fun old => old.getD .none ||| e

def addRelation (d : Delta) (r : Relation) (peer : String) : Delta :=
  ⟨addEdge d.outgoing peer r.edge, addEdge d.incoming peer r.reverse.edge⟩

/-- The peers that a config declares a relation towards: the words of the key's values. -/
def peers (c : Config) (r : Relation) : List String :=
  ((c.values? Config.unitSection r.key).getD []).flatMap fun value =>
    (Text.words value.toList).map .ofList

def declared (c : Config) : List (Relation × String) :=
  Relation.all.flatMap fun r => (peers c r).map fun peer => (r, peer)

def ofConfig (c : Config) : Delta :=
  (declared c).foldl (fun d entry => d.addRelation entry.1 entry.2) empty

end Delta
end ServiceUnits
