import ServiceUnits.Errno
import ServiceUnits.Text.Quoted

namespace ServiceUnits

inductive SystemError where
  | call (errno : Errno)
  /-- A refusal with a text of its own, where nothing is there. -/
  | missing (text : String)
  | other (text : String)
deriving DecidableEq

namespace SystemError

def message : SystemError → String
  | call e => e.text ++ " (os error " ++ toString e.code ++ ")"
  | missing text | other text => text

/-- Only a system call has a number. -/
def code : SystemError → Int
  | call e => e.code
  | missing _ | other _ => 0

def isNotFound : SystemError → Bool
  | call e => e = .noEntry
  | missing _ => true
  | other _ => false

end SystemError

inductive LinkError where
  | system (e : SystemError)
  | errno (e : Errno)
  | notExisting (what : String)
  | invalid (what : String)
deriving DecidableEq

namespace LinkError

def message : LinkError → String
  | system e => "Io: " ++ e.message
  | errno e => "Errno: " ++ e.symbolic
  | notExisting what => "Not exist: '" ++ what ++ "'."
  | invalid what => "Invalid: '" ++ what ++ "'."

def code : LinkError → Int
  | system e => e.code
  | errno e => e.knownCode
  | notExisting _ => Errno.noEntry.code
  | invalid _ => Errno.invalid.code

/-- A refusal by the system says itself whether nothing is there; all else says it by its number. -/
def isNotFound : LinkError → Bool
  | system e => e.isNotFound
  | e => e.code = Errno.noEntry.code

end LinkError

/-- What can go wrong, as causes. The refusals of the system and the failures of following a link
become errors by `ofSystem` and `ofLink`. -/
inductive Error where
  | missing (what : String)
  | noUnit (name : String)
  | noUnitOrTemplate (name base : String)
  | badLine (line : String)
  | system (e : SystemError)
  | link (e : LinkError)
  | masked (name : String)
  | notFileName (name : String)
  | template (name : String)
  | badSuffix (suffix : String)
  | unknownKey (key : String)
  | badSettings
deriving DecidableEq

namespace Error

def isNotFound : Error → Bool
  | missing _ | noUnit _ | noUnitOrTemplate _ _ => true
  | _ => false

def ofSystem (e : SystemError) : Error := if e.isNotFound then .missing e.message else .system e

def ofLink (e : LinkError) : Error := if e.isNotFound then .missing e.message else .link e

private def notFound (what : String) : String := "NotFound(unitcore): '" ++ what ++ "'."

private def invalidName (what : String) : String := "Invalid Name: " ++ what

def message : Error → String
  | missing what => notFound what
  | noUnit name => notFound ("unit " ++ name)
  | noUnitOrTemplate name base => notFound ("unit " ++ name ++ " or its template " ++ base)
  | badLine line => "Failed to parse line <" ++ line ++ ">"
  | system e => "IoError(unitcore): " ++ e.message
  | link e => "UtilError(unitcore): " ++ e.message
  | masked name => "unit " ++ name ++ " is masked."
  | notFileName name => invalidName (name ++ " is not a file name")
  | template name => invalidName (name ++ " is a template")
  | badSuffix suffix => invalidName ("drop-in directory suffix " ++ Text.quote suffix)
  | unknownKey key => invalidName ("unknown dependency key " ++ key)
  | badSettings => "the settings file is not valid"

end Error
end ServiceUnits
