import ServiceUnits.FileSystem.System

namespace ServiceUnits

open Text

/-- Where an object is: the names from the root on. -/
abbrev Location := List Bytes

inductive Object where
  | file (bytes : ByteArray)
  | link (target : Bytes)
  | directory
  /-- The device that is always empty. -/
  | null

/-- All that a system finds at paths. It walks along a path step by step, through links in the middle,
from a working directory. -/
structure Tree where
  /-- All objects but the root, the newest first. -/
  objects : List (Location × Object)
  working : Location

/-- What a walk is for, as far as its last name depends on it. -/
inductive Purpose where
  /-- To reach the object that all links lead to. -/
  | reach
  /-- To look at what has the last name, be it a link or not. A slash behind it follows a link. -/
  | look
  /-- To open a file, made where nothing is. A slash behind the last name is refused unseen. -/
  | makeFile
  /-- To make what is not a file. No link is followed, and a slash behind the name means nothing. -/
  | make
deriving DecidableEq

inductive Walk where
  | found (place : Location) (o : Object)
  /-- The last name is not in its directory. -/
  | absent (place : Location) (name : Bytes)
  | refused (e : SystemError)

namespace Tree

def maxLinks : Nat := 40

def maxNameBytes : Nat := 255

/-- The bytes that a path stays below. -/
def pathBytes : Nat := 4096

def object? (t : Tree) (place : Location) : Option Object :=
  if place = [] then some .directory else t.objects.lookup place

def isDirectory (t : Tree) (place : Location) : Bool :=
  match t.object? place with
  | some .directory => true
  | _ => false

/-- The steps of a path: its pieces that are not empty. A slash at the end is an empty step to the
object itself, which has to be a directory for it. -/
def steps (path : Bytes) : List Bytes :=
  (RawPath.piecesOf path).filter (· ≠ []) ++
    (if path.getLast? = some RawPath.slash then [[]] else [])

def origin (path : Bytes) (here : Location) : Location :=
  if path.head? = some RawPath.slash then [] else here

/-- Whether a walk stops at an object: no more than a slash follows, and only the name counts. -/
def stopsAt (w : Purpose) (rest : List Bytes) : Bool :=
  match w with
  | .reach | .makeFile => false
  | .look => rest = []
  | .make => rest = [] || rest = [[]]

/-- The walk from a place along some steps. Where a link has to be followed, it goes on by `follow`
along the target and the steps that are left. -/
def walkSteps (t : Tree) (w : Purpose) (follow : Location → List Bytes → Walk) :
    Location → List Bytes → Walk
  | here, [] =>
    match t.object? here with
    | some o => .found here o
    | none => .refused (.call .noEntry)
  | here, step :: rest =>
    if !t.isDirectory here then .refused (.call .notDirectory)
    else if RawPath.isIdle step then walkSteps t w follow here rest
    else if step = RawPath.up then walkSteps t w follow here.dropLast rest
    else if w = .makeFile && rest = [[]] then .refused (.call .isDirectory)
    else if maxNameBytes < step.length then .refused (.call .nameTooLong)
    else
      let place := here ++ [step]
      match t.object? place with
      | none => if rest = [] || stopsAt w rest then .absent here step else .refused (.call .noEntry)
      | some (.link target) =>
        if stopsAt w rest then .found place (.link target)
        else follow (origin target here) (steps target ++ rest)
      | some o => if stopsAt w rest then .found place o else walkSteps t w follow place rest

/-- The walk from a place along some steps, with a number of links still to be followed. -/
def walk (t : Tree) (w : Purpose) : Nat → Location → List Bytes → Walk
  | 0 => t.walkSteps w fun _ _ => .refused (.call .linkLoop)
  | links + 1 => t.walkSteps w (walk t w links)

def walkPath (t : Tree) (w : Purpose) (p : RawPath) : Walk :=
  if 0 ∈ p.bytes then .refused (.other "file name contained an unexpected NUL byte")
  else if p.bytes = [] then .refused (.call .noEntry)
  else if pathBytes ≤ p.bytes.length then .refused (.call .nameTooLong)
  else t.walk w maxLinks (origin p.bytes t.working) (steps p.bytes)

def find (t : Tree) (p : RawPath) : Except SystemError (Location × Object) :=
  match t.walkPath .reach p with
  | .found place o => .ok (place, o)
  | .absent _ _ => .error (.call .noEntry)
  | .refused e => .error e

/-- What is at a path. A last link is not followed, and it can always be read. -/
def probe (t : Tree) (p : RawPath) : Probe :=
  match t.walkPath .look p with
  | .found _ (.link target) => .link (.ok target)
  | .found _ _ => .plain
  | .absent _ _ => .refused (.call .noEntry)
  | .refused e => .refused e

def read (t : Tree) (p : RawPath) : Except SystemError ByteArray :=
  match t.find p with
  | .ok (_, .file bytes) => .ok bytes
  | .ok (_, .null) => .ok .empty
  | .ok (_, .directory) => .error (.call .isDirectory)
  | .ok (_, .link _) => .error (.call .linkLoop)
  | .error e => .error e

def namesIn (t : Tree) (place : Location) : List Bytes :=
  (t.objects.filterMap fun entry =>
    match entry.1.getLast? with
    | some name => if entry.1.dropLast = place then some name else none
    | none => none).eraseDups

def list (t : Tree) (p : RawPath) : Except SystemError (List Bytes) :=
  match t.find p with
  | .ok (place, .directory) => .ok (t.namesIn place)
  | .ok _ => .error (.call .notDirectory)
  | .error e => .error e

def system (t : Tree) : System := ⟨t.probe, t.read, t.list⟩

def fileSystem (t : Tree) : FileSystem := t.system.fileSystem

def put (t : Tree) (place : Location) (o : Object) : Tree :=
  { t with objects := (place, o) :: t.objects }

def makeDirectory (t : Tree) (text : String) : Except SystemError Tree :=
  match t.walkPath .make text with
  | .absent place name => .ok (t.put (place ++ [name]) .directory)
  | .found _ _ => .error (.call .alreadyThere)
  | .refused e => .error e

def hasDirectory (t : Tree) (p : Path) : Bool :=
  match t.find p with
  | .ok (_, .directory) => true
  | _ => false

/-- A directory that is there from now on; one that could not be made may be there already. -/
def ensureDirectory (t : Tree) (p : Path) : Tree × Except SystemError Unit :=
  match t.makeDirectory p.text with
  | .ok made => (made, .ok ())
  | .error e => (t, if t.hasDirectory p then .ok () else .error e)

/-- A directory and those above it that are missing, `n` of them at most. Where one cannot be made,
those above it stay. -/
def makeDirectories (t : Tree) (n : Nat) (p : Path) : Tree × Except SystemError Unit :=
  if p.text = "" then (t, .ok ())
  else match t.makeDirectory p.text with
    | .ok made => (made, .ok ())
    | .error e =>
      if e ≠ .call .noEntry then t.ensureDirectory p
      else match n, p.parent? with
        | n + 1, some dir =>
          match makeDirectories t n dir with
          | (t, .ok ()) => t.ensureDirectory p
          | failure => failure
        | _, _ => (t, .error (.other "failed to create whole tree"))

/-- The file is there from now on, empty if it is new. -/
def makeFile (t : Tree) (text : String) : Except SystemError Tree :=
  match t.walkPath .makeFile text with
  | .found _ .directory => .error (.call .isDirectory)
  | .found _ _ => .ok t
  | .absent place name => .ok (t.put (place ++ [name]) (.file .empty))
  | .refused e => .error e

/-- The directories above a path are there from now on, as far as they can be made. -/
def makeParents (t : Tree) (text : String) : Tree × Except SystemError Unit :=
  match Path.parent? ⟨text⟩ with
  | none => (t, .ok ())
  | some dir =>
    if (t.find dir).toBool then (t, .ok ())
    else t.makeDirectories dir.components.parts.length dir

/-- A log file is there from now on, and so are the directories above it. The directories stay where
the file cannot be made. -/
def openLog (t : Tree) (text : String) : Tree × Except SystemError Unit :=
  match t.makeParents text with
  | (t, .ok ()) =>
    match t.makeFile text with
    | .ok made => (made, .ok ())
    | .error e => (t, .error e)
  | failure => failure

def writeFile (t : Tree) (text : String) (bytes : ByteArray) : Except SystemError Tree :=
  match t.walkPath .makeFile text with
  | .found place (.file _) => .ok (t.put place (.file bytes))
  | .found _ .null => .ok t
  | .found _ _ => .error (.call .isDirectory)
  | .absent place name => .ok (t.put (place ++ [name]) (.file bytes))
  | .refused e => .error e

def makeLink (t : Tree) (text target : String) : Except SystemError Tree :=
  match t.walkPath .make text with
  | .absent place name => .ok (t.put (place ++ [name]) (.link target))
  | .found _ _ => .error (.call .alreadyThere)
  | .refused e => .error e

/-- A tree that holds the null device, and a working directory. -/
def bare (working : Location) : Tree :=
  let t : Tree := ⟨[(["dev", "null"], .null), (["dev"], .directory)], working⟩
  (List.range working.length).foldl (fun t n => t.put (working.take (n + 1)) .directory) t

/-- More bytes at the end of a file. What goes to the null device is lost. -/
def append (t : Tree) (p : RawPath) (bytes : ByteArray) : Except SystemError Tree :=
  match t.find p with
  | .ok (place, .file old) => .ok (t.put place (.file (old ++ bytes)))
  | .ok (_, .null) => .ok t
  | .ok _ => .error (.call .isDirectory)
  | .error e => .error e

end Tree
end ServiceUnits
