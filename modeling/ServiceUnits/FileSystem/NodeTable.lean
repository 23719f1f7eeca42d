import ServiceUnits.FileSystem
import ServiceUnits.Path.Raw

namespace ServiceUnits

inductive Node where
  | file (bytes : ByteArray)
  | unreadable
  | link (target : String)
  | brokenChain
  /-- Following links gives nothing at all here. -/
  | emptyChain

inductive Listing where
  | names (ns : List String)
  | denied

/-- A file system that stands in a table. Nothing is made absolute and nothing is looked up on the
way to a path: a node is what stands under the path's components. -/
structure NodeTable where
  nodes : List (Path.Components × Node)
  listings : List (Path.Components × Listing)

namespace NodeTable

def empty : NodeTable := ⟨[], []⟩

def maxLinks : Nat := 32

def node? (t : NodeTable) (p : Path) : Option Node := t.nodes.lookup p.components

def listing? (t : NodeTable) (p : Path) : Option Listing := t.listings.lookup p.components

/-- More names for a directory, each only once. A denied listing stays denied. -/
def addNames (t : NodeTable) (p : Path) (ns : List String) : NodeTable :=
  match t.listing? p with
  | some .denied => t
  | some (.names old) =>
    { t with listings := (p.components, .names (old ++ ns).eraseDups) :: t.listings }
  | none => { t with listings := (p.components, .names ns.eraseDups) :: t.listings }

def addToParent (t : NodeTable) (p : Path) : NodeTable :=
  match p.fileName?, p.parent? with
  | some name, some dir => t.addNames dir [name]
  | _, _ => t

/-- A node, in place of the one that was there. -/
def addNode (t : NodeTable) (p : Path) (n : Node) : NodeTable :=
  { t with nodes := (p.components, n) :: t.nodes }.addToParent p

def addDirectory (t : NodeTable) (p : Path) (ns : List String) : NodeTable :=
  (t.addNames p ns).addToParent p

def denyListing (t : NodeTable) (p : Path) : NodeTable :=
  { t with listings := (p.components, .denied) :: t.listings }.addToParent p

def denied : Error := .system (.other "permission denied")

def tooManyLinks : Error := .system (.other "too many links")

/-- The places from a path on, after those that were met before it. -/
def chainFrom (t : NodeTable) : Nat → List Path → Path → Except Error (List Path)
  | 0, _, _ => .error tooManyLinks
  | n + 1, met, p =>
    match t.node? p with
    | some (.link target) => chainFrom t n (met ++ [p]) ⟨target⟩
    | some (.file _) | some .unreadable => .ok (met ++ [p])
    | some .brokenChain => .error denied
    | some .emptyChain => .ok []
    | none => .error (.missing p.text)

def chain (t : NodeTable) (p : Path) : Except Error (List Path) := t.chainFrom maxLinks [] p

def read (t : NodeTable) (p : Path) : Except Error ByteArray := do
  match (← t.chain p).getLast?.bind t.node? with
  | some (.file bytes) => return bytes
  | some .unreadable => throw denied
  | _ => throw (.missing p.text)

def list (t : NodeTable) (p : Path) : Except Error (List String) :=
  match t.listing? p with
  | some (.names ns) => .ok ns
  | some .denied => .error denied
  | none => .error (.missing p.text)

def fileSystem (t : NodeTable) : FileSystem := ⟨t.chain, t.read, t.list⟩

end NodeTable
end ServiceUnits
