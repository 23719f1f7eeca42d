import ServiceUnits.CommandLine
import ServiceUnits.Growth
import ServiceUnits.Report
import ServiceUnits.Settings

namespace ServiceUnits

/-- What is told to the user: a plain line, or an event of the log. -/
inductive Notice where
  | plain (text : String)
  | logged (e : Event)

/-- The lines of a notice. The time stands before an event. -/
def Notice.text (time : String) : Notice → String
  | plain s => s
  | logged e => e.timedLine time

/-- What goes to each channel, and how the program ends. -/
structure Outcome where
  exit : Nat
  output : String
  /-- What goes to the console's error channel. -/
  notices : List Notice
  logged : String

inductive Sink where
  | console
  | file

namespace Session

def defaultUnit : String := "default.target"

/-- The level of a session: the command line's, else the settings'. -/
def levelName (o : Options) (s : Settings) : String := o.logLevel.getD s.logLevel

/-- A complaint about a level that is not known. -/
def levelNotices (name : String) : List Notice :=
  if (Level.parse? name).isSome then []
  else [.plain ("Unknown log level " ++ name ++ ", using info.")]

/-- The file that the log goes to, if it goes to one. -/
def logPath? (s : Settings) : Option String :=
  if s.logTarget = "file" then
    some (if s.logFile = "" then Settings.defaultLogFile else s.logFile)
  else none

/-- Where the log goes, and the complaints about where it cannot go. -/
def sink (s : Settings) (opened : Except SystemError Unit) : Sink × List Notice :=
  match logPath? s with
  | some p =>
    match opened with
    | .ok () => (.file, [])
    | .error e =>
      (.console, [.plain ("Failed to open log file " ++ p ++ ": " ++ e.message ++
        ", changing the LogTarget to \x60console\x60")])
  | none =>
    (.console, if s.logTarget = "console" then []
      else [.plain ("Unknown LogTarget " ++ s.logTarget ++ ", using \x60console\x60")])

def lookup (o : Options) (s : Settings) : Lookup :=
  if o.lookup = [] then s.lookupPaths else .ofList o.lookup

def units (o : Options) : List String := if o.units = [] then [defaultUnit] else o.units

def loadNotices (u : Encounter) : List Notice :=
  (Trace.load u.resolver u.name).map .logged ++
    match u.resolver.resolve u.name with
    | .ok _ => []
    | .error e => [.plain ("Failed to resolve " ++ u.name ++ ": " ++ e.message)]

def handover? (u : Encounter) : Option Handover :=
  (u.resolver.resolve u.name).toOption.map ResolvedUnit.handover

def loads (u : Encounter) : Bool := (u.resolver.resolve u.name).toBool

/-- What is logged before the first unit is loaded. -/
def firstEvents (ignored : Option Error) (lookup : Lookup) : List Event :=
  (ignored.map Event.settingsIgnored).toList ++ [.lookupPaths lookup.dirs]

/-- Whether a notice is given at a level, and to the console. -/
def onConsole (limit : Level) : Sink → Notice → Bool
  | _, .plain _ => true
  | .console, .logged e => e.isShown limit
  | .file, .logged _ => false

/-- What is added to the log file of a session for some events: a line for each that is shown. -/
def fileText (limit : Level) (k : Sink) (time : String) (es : List Event) : String :=
  match k with
  | .console => ""
  | .file => "".intercalate ((es.filter (·.isShown limit)).map fun e => e.timedLine time ++ "\n")

def events (ns : List Notice) : List Event :=
  ns.filterMap fun n =>
    match n with
    | .plain _ => none
    | .logged e => some e

def report (o : Options) (hs : List Handover) : String :=
  if o.dot then Report.digraph hs else Report.text hs

/-- The settings that are used, and why those of the file are not. -/
def effective (loaded : Except Error Settings) : Settings × Option Error :=
  match loaded with
  | .ok s => (s, none)
  | .error e => (.standard, some e)

/-- A session with its settings, once the log file has been opened or not. The units are read from
`files`, which is what the file system becomes when a text is added to the log file. -/
def run (o : Options) (loaded : Except Error Settings) (opened : Except SystemError Unit)
    (time : String) (files : String → FileSystem) : Outcome :=
  let (settings, ignored) := effective loaded
  let name := levelName o settings
  let limit := Level.ofName name
  let (k, complaints) := sink settings opened
  let finish (exit : Nat) (output : String) (ns : List Notice) : Outcome :=
    ⟨exit, output, levelNotices name ++ complaints ++ ns.filter (onConsole limit k),
      fileText limit k time (events ns)⟩
  match settings.table with
  | .error e =>
    finish 1 "" ((ignored.map fun e => Notice.logged (.settingsIgnored e)).toList ++
      [.plain ("Invalid DropinDirectories: " ++ e.message)])
  | .ok table =>
    let first := firstEvents ignored (lookup o settings)
    let g : Growth := ⟨files, fileText limit k time⟩
    let met := g.along (lookup o settings) table (g.text first) (units o)
    finish (if met.all loads then 0 else 1) (report o (met.filterMap handover?))
      (first.map .logged ++ met.flatMap loadNotices)

end Session
end ServiceUnits
