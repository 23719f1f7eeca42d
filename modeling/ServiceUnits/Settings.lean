import ServiceUnits.Dropin
import ServiceUnits.Toml.Document

namespace ServiceUnits

open Toml

/-- The settings of the resolver, as far as a file gives them. -/
structure Settings where
  lookup : Option (List String)
  /-- The dependency directories: each suffix with the key of its relation. -/
  dropins : Option (Dict String)
  logLevel : String
  logTarget : String
  logFile : String

namespace Settings

/-- Where the log goes if it goes to a file and none is named. -/
def defaultLogFile : String := "/var/log/unitgraph.log"

/-- Where the settings are if the command line names no file. -/
def defaultFile : String := "/etc/unitgraph/resolver.conf"

def standard : Settings := ⟨none, none, "info", "console", defaultLogFile⟩

instance : Inhabited Settings := ⟨standard⟩

def lookupPaths (s : Settings) : Lookup :=
  match s.lookup with
  | some dirs => .ofList dirs
  | none => .system

/-- One row of the suffix table. A suffix is part of a directory's name. -/
def row (suffix key : String) : Except Error (String × Relation) :=
  if suffix = "" || '/' ∈ suffix.toList then .error (.badSuffix suffix)
  else match Relation.ofKey? key with
    | some r => .ok (suffix, r)
    | none => .error (.unknownKey key)

/-- The rows in the order of the suffixes, or the first of them that is wrong. -/
def table (s : Settings) : Except Error SuffixTable :=
  match s.dropins with
  | none => .ok .standard
  | some d => d.entries.mapM fun e => row e.1 e.2

def text? : Value → Option String
  | .text s => some s
  | _ => none

def texts? : Value → Option (List String)
  | .array vs => vs.mapM text?
  | _ => none

/-- Entries whose values are texts. Of those with the same key the last counts. -/
def textEntries? (es : Entries) : Option (Dict String) :=
  (es.mapM fun e => (text? e.2).map fun v => (e.1, v)).map .ofList

/-- The key under which a date stands where a table is looked for. -/
def dateKey : String := "$__toml_private_datetime"

/-- A table of texts. A date is one of them, with a single entry: the text that it is written as. -/
def textTable? : Value → Option (Dict String)
  | .inline es | .dotted es => textEntries? es
  | .date text => some (.ofList [(dateKey, text)])
  | _ => none

def addEntry (s : Settings) (key : String) (v : Value) : Option Settings :=
  if key = "LookupPaths" then (texts? v).map fun t => { s with lookup := some t }
  else if key = "DropinDirectories" then (textTable? v).map fun d => { s with dropins := some d }
  else if key = "LogLevel" then (text? v).map fun t => { s with logLevel := t }
  else if key = "LogTarget" then (text? v).map fun t => { s with logTarget := t }
  else if key = "LogFile" then (text? v).map fun t => { s with logFile := t }
  else some s

def knownKeys : List String :=
  ["LookupPaths", "DropinDirectories", "LogLevel", "LogTarget", "LogFile"]

/-- What a block gives. Of the settings only the dependency directories are a table, and it holds
no tables. -/
def addBlock (s : Settings) (b : Block) : Option Settings :=
  match b.header with
  | ⟨["DropinDirectories"], false⟩ =>
    (textEntries? b.entries).map fun d => { s with dropins := some d }
  | ⟨key :: _, _⟩ => if key ∈ knownKeys then none else some s
  | _ => some s

def ofDocument? (d : Document) : Option Settings := do
  let known := d.topKeys.filter (· ∈ knownKeys)
  if known.eraseDups.length ≠ known.length then none
  let s ← d.root.foldlM (fun s e => s.addEntry e.1 e.2) standard
  d.blocks.reverse.foldlM addBlock s

def ofBytes? (bytes : ByteArray) : Option Settings := do
  ofDocument? (← Document.read? (← Text.decode? bytes).toList)

/-- The settings of a file, as far as it could be read. A file that is not there gives none. -/
def ofFile : Except Error ByteArray → Except Error Settings
  | .ok bytes =>
    match ofBytes? bytes with
    | some s => .ok s
    | none => .error .badSettings
  | .error e => if e.isNotFound then .ok standard else .error .badSettings

end Settings
end ServiceUnits
