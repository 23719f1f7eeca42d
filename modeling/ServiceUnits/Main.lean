import Std.Time.Format
import ServiceUnits.FileSystem.Snapshot
import ServiceUnits.Path.Raw
import ServiceUnits.Session

namespace ServiceUnits.Host

/-- The number of a refusal. Some of the host's calls give it negated. -/
def errno (code : UInt32) : Errno := ⟨code.toInt32.toInt.natAbs⟩

def refusal : IO.Error → SystemError
  | .alreadyExists _ code _ | .otherError code _ | .resourceBusy code _ | .resourceVanished code _
  | .unsupportedOperation code _ | .hardwareFault code _ | .unsatisfiedConstraints code _
  | .illegalOperation code _ | .protocolError code _ | .timeExpired code _
  | .interrupted _ code _ | .noFileOrDirectory _ code _ | .invalidArgument _ code _
  | .permissionDenied _ code _ | .resourceExhausted _ code _ | .inappropriateType _ code _
  | .noSuchThing _ code _ => .call (errno code)
  | e => .other (toString e)

def ask {α : Type} (act : IO α) : IO (Except SystemError α) :=
  return (← act.toBaseIO).mapError refusal

/-- A path, as the host takes it: a relative one starts in the working directory. -/
def place (p : Path) := IO.FS.DirEntry.path ⟨⟨"."⟩, p.text⟩

/-- Why links that do not end are not followed. -/
def linkError : SystemError → LinkError
  | .call e => .errno e
  | e => .system e

/-- The path and, if it is a link, the place that all links lead to. A host does not tell one link
after the other, so a chain has two places here at most. -/
def chain (p : Path) : IO (Except Error (List Path)) := do
  match ← ask (place p).symlinkMetadata with
  | .error _ => return .error (.ofLink (.notExisting p.text))
  | .ok data =>
    match data.type with
    | .symlink =>
      let reached : IO (List Path) := do
        discard (place p).metadata
        return [p, ⟨(← IO.FS.realPath (place p)).toString⟩]
      return (← ask reached).mapError fun e => .ofLink (linkError e)
    | _ => return .ok [p]

def read (p : Path) : IO (Except Error ByteArray) :=
  return (← ask (IO.FS.readBinFile (place p))).mapError .ofSystem

def list (p : Path) : IO (Except Error (List String)) :=
  return ((← ask (place p).readDir).map fun found =>
    (found.map IO.FS.DirEntry.fileName).toList).mapError .ofSystem

def record {α : Type} (question : Path → IO (Except Error α)) (ps : List Path) :
    IO (List (Path × Except Error α)) :=
  ps.mapM fun p => return (p, ← question p)

def areSame (p q : Path) : IO Bool := do
  match ← ask (IO.FS.realPath (place p)), ← ask (IO.FS.realPath (place q)) with
  | .ok a, .ok b => return a.toString = b.toString
  | _, _ => return false

/-- What the host answers to all that resolving some units asks. -/
def snapshot (lookup : Lookup) (table : SuffixTable) (names : List String) (log? : Option Path) :
    IO Snapshot := do
  let chains ← record chain (names.flatMap (candidates lookup))
  let found := names.filterMap fun name =>
    (locate { Snapshot.empty with chains }.fileSystem lookup name).toOption
  let listings ← record list (found.flatMap (Dropin.directories lookup table))
  let fs := { Snapshot.empty with listings }.fileSystem
  let files := found.map AliasSet.fragment ++ found.flatMap (Dropin.selectedOverlays fs lookup)
  let contents ← record read files
  let logs ← match log? with
    | some log => files.filterM (areSame log)
    | none => pure []
  return ⟨chains, contents, listings, logs⟩

def openLog (path : String) : IO IO.FS.Handle := do
  if let some dir := Path.parent? ⟨path⟩ then
    if !(← (place dir).pathExists) then IO.FS.createDirAll (place dir)
  IO.FS.Handle.mk (place ⟨path⟩) .append

def time : IO String :=
  return (← Std.Time.PlainDateTime.now).format "uuuu-MM-dd HH:mm:ss"

def session (o : Options) : IO UInt32 := do
  let loaded := Settings.ofFile (← read ⟨o.config.getD Settings.defaultFile⟩)
  let settings := (Session.effective loaded).1
  let log ← match Session.logPath? settings with
    | some p => do pure ((← ask (openLog p)).map some)
    | none => pure (.ok none)
  let seen ← snapshot (Session.lookup o settings) (settings.table.toOption.getD [])
    (Session.units o) ((Session.logPath? settings).map Path.mk)
  let now ← time
  let outcome := Session.run o loaded (log.map fun _ => ()) now seen.withLog
  for notice in outcome.notices do
    IO.eprintln (notice.text now)
  if let .ok (some handle) := log then
    handle.putStr outcome.logged
  IO.print outcome.output
  return outcome.exit.toUInt32

end ServiceUnits.Host

def main (args : List String) : IO UInt32 :=
  match ServiceUnits.CommandLine.read args with
  | .misuse => do
    IO.eprint ServiceUnits.CommandLine.help
    return 2
  | .usage => do
    IO.print ServiceUnits.CommandLine.help
    return 0
  | .resolve o => ServiceUnits.Host.session o
