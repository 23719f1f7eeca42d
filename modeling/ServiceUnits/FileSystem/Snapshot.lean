import ServiceUnits.FileSystem

namespace ServiceUnits

/-- Answers of a file system that have been written down. What was not asked is not there. -/
structure Snapshot where
  chains : List (Path × Except Error (List Path))
  contents : List (Path × Except Error ByteArray)
  listings : List (Path × Except Error (List String))
  logs : List Path

namespace Snapshot

def empty : Snapshot := ⟨[], [], [], []⟩

def answerTo {α : Type} (answers : List (Path × Except Error α)) (p : Path) : Except Error α :=
  (answers.lookup p).getD (.error (.missing p.text))

def fileSystem (s : Snapshot) : FileSystem where
  chain := answerTo s.chains
  read := answerTo s.contents
  list := answerTo s.listings

/-- The file system when a text has been added to the log file. -/
def withLog (s : Snapshot) (text : String) : FileSystem :=
  let fs := s.fileSystem
  { fs with
    read := fun p => if p ∈ s.logs then (fs.read p).map (· ++ text.toUTF8) else fs.read p }

end Snapshot
end ServiceUnits
