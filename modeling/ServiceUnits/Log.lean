import ServiceUnits.Error
import ServiceUnits.Path
import ServiceUnits.Relation

namespace ServiceUnits

/-- How much is logged: nothing, or all events up to a level. -/
inductive Level where
  | off
  | error
  | warn
  | info
  | debug
  | trace
deriving DecidableEq, Inhabited

namespace Level

def all : List Level := [off, error, warn, info, debug, trace]

def label : Level → String
  | off => "OFF"
  | error => "ERROR"
  | warn => "WARN"
  | info => "INFO"
  | debug => "DEBUG"
  | trace => "TRACE"

def rank (l : Level) : Nat := l.ctorIdx

/-- The level with a name; the case of its letters does not count. -/
def parse? (text : String) : Option Level :=
  all.find? fun l => l.label.toList = text.toList.map Char.toUpper

/-- The level that is used for a name: for one that is unknown it is `info`. -/
def ofName (text : String) : Level := (parse? text).getD info

theorem mem_all (l : Level) : l ∈ all := by cases l <;> decide

end Level

/-- What happens while units are resolved, as the log tells it. -/
inductive Event where
  | settingsIgnored (e : Error)
  | lookupPaths (dirs : List String)
  /-- A path was passed over in the search for a fragment. -/
  | unresolved (p : Path) (e : Error)
  | found (name dir : String) (chain : List Path)
  | templateUsed (fragment : Path) (name : String)
  | aliasIgnored (name base : String)
  | loading (name : String) (fragment : Path)
  | unlistable (dir : Path) (e : Error)
  | unreadable (overlay : Path) (e : Error)
  | applying (overlay : Path)
  | entryIgnored (entry : String) (dir : Path)
  | adding (r : Relation) (name : String) (dir : Path)
  | resolved (name : String) (aliases : List String) (outgoing incoming : Nat)
  | failed (name : String) (e : Error)

namespace Event

def level : Event → Level
  | settingsIgnored _ | unlistable _ _ | unreadable _ _ => .warn
  | failed _ _ => .error
  | _ => .debug

/-- The part of the program that an event is reported from. -/
def origin : Event → String
  | settingsIgnored _ | lookupPaths _ => "uresolve"
  | unresolved _ _ | found _ _ _ | templateUsed _ _ | aliasIgnored _ _ => "unitcore::unit::locate"
  | unlistable _ _ | unreadable _ _ | applying _ | entryIgnored _ _ | adding _ _ _ =>
    "unitcore::unit::dropin"
  | loading _ _ | resolved _ _ _ _ | failed _ _ => "unitcore::unit::load"

private def quotePath (p : Path) : String := Text.quote p.text

def message : Event → String
  | settingsIgnored e =>
    "Failed to load the resolver configuration: " ++ e.message ++ ", using defaults."
  | lookupPaths dirs => "Lookup paths: " ++ Text.quoteAll dirs
  | unresolved p e => "Failed to resolve " ++ quotePath p ++ ": " ++ e.message ++ ", ignoring."
  | found name dir chain =>
    "Found fragment of " ++ name ++ " at " ++ dir ++ ", symlink chain: " ++
      Text.quoteAll (chain.map Path.text)
  | templateUsed fragment name =>
    "Using the template fragment " ++ quotePath fragment ++ " for " ++ name
  | aliasIgnored name base =>
    "Alias " ++ name ++ " of template " ++ base ++ " is not a template, ignoring."
  | loading name fragment => "Loading " ++ name ++ " from " ++ quotePath fragment
  | unlistable dir e =>
    "Failed to read directory " ++ quotePath dir ++ ": " ++ e.message ++ ", ignoring."
  | unreadable overlay e =>
    "Failed to read drop-in " ++ quotePath overlay ++ ": " ++ e.message ++ ", ignoring."
  | applying overlay => "Applying drop-in " ++ quotePath overlay
  | entryIgnored entry dir =>
    Text.quote entry ++ " in " ++ quotePath dir ++ " is not a unit name, ignoring."
  | adding r name dir => "Adding " ++ r.key ++ "=" ++ name ++ " from " ++ quotePath dir
  | resolved name aliases outgoing incoming =>
    "Resolved " ++ name ++ ": aliases " ++ Text.quoteAll aliases ++ ", " ++
      toString outgoing ++ " edges from, " ++ toString incoming ++ " edges to"
  | failed name e => "Failed to load " ++ name ++ ": " ++ e.message

def isShown (limit : Level) (e : Event) : Bool := e.level.rank ≤ limit.rank

/-- The line of the log for an event, without the time. -/
def line (e : Event) : String := e.level.label ++ " " ++ e.origin ++ " " ++ e.message

def timedLine (e : Event) (time : String) : String := time ++ " " ++ e.line

end Event
end ServiceUnits
