import ServiceUnits.FileSystem.Tree
import ServiceUnits.Session

namespace ServiceUnits.Session

def settingsIn (o : Options) (t : Tree) : Except Error Settings :=
  Settings.ofFile (t.fileSystem.read ⟨o.config.getD Settings.defaultFile⟩)

/-- The log file of the settings is opened, if the log goes to one. -/
def openLogIn (s : Settings) (t : Tree) : Tree × Except SystemError Unit :=
  match logPath? s with
  | some p => t.openLog p
  | none => (t, .ok ())

def addLogIn (s : Settings) (t : Tree) (text : String) : Tree :=
  match logPath? s with
  | some p => if text = "" then t else (t.append ⟨p⟩ text.toUTF8).toOption.getD t
  | none => t

/-- A session in a tree, and the tree after it. The log is opened before the first unit is read, so
units see its file and its directories. The time stands before every line of the log. -/
def inTree (o : Options) (time : String) (t : Tree) : Outcome × Tree :=
  let loaded := settingsIn o t
  let settings := (effective loaded).1
  let (t, opened) := openLogIn settings t
  let outcome := run o loaded opened time fun text => (addLogIn settings t text).fileSystem
  (outcome, addLogIn settings t outcome.logged)

end ServiceUnits.Session
