import ServiceUnits.FileSystem
import ServiceUnits.FileSystem.Links

namespace ServiceUnits

open Text

/-- What a system answers about paths. Each answer may be a refusal. -/
structure System where
  probe : RawPath → Probe
  read : RawPath → Except SystemError ByteArray
  /-- The names in a directory, in no order that means anything. -/
  list : RawPath → Except SystemError (List Bytes)

namespace System

def chain (s : System) (p : RawPath) : Except Error (List RawPath) :=
  (Probe.chase s.probe p).mapError .ofLink

def readFile (s : System) (p : RawPath) : Except Error ByteArray := (s.read p).mapError .ofSystem

/-- The names in a directory as they are shown. -/
def listDirectory (s : System) (p : RawPath) : Except Error (List String) :=
  ((s.list p).mapError .ofSystem).map (·.map lossy)

/-- Units are looked for by text, and all places that their links lead to are shown as text. -/
def fileSystem (s : System) : FileSystem where
  chain p := (Probe.follow s.probe p).mapError .ofLink
  read p := s.readFile p
  list p := s.listDirectory p

end System
end ServiceUnits
