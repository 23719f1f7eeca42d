namespace ServiceUnits

structure Options where
  config : Option String
  lookup : List String
  logLevel : Option String
  dot : Bool
  units : List String
deriving DecidableEq

/-- What a command line asks for. -/
inductive Request where
  | resolve (o : Options)
  /-- To be told how the program is used, or which version it is. -/
  | usage
  | misuse
deriving DecidableEq

namespace CommandLine

inductive Valued where
  | config
  | lookup
  | logLevel
deriving DecidableEq

inductive Long where
  | valued (v : Valued)
  | dot
  | usage
deriving DecidableEq

def long? (name : List Char) : Option Long :=
  if name = "config".toList then some (.valued .config)
  else if name = "lookup-path".toList then some (.valued .lookup)
  else if name = "log-level".toList then some (.valued .logLevel)
  else if name = "dot".toList then some .dot
  else if name = "help".toList || name = "version".toList then some .usage
  else none

/-- What has been read of a command line. -/
structure State where
  /-- The uses of options that have a value, each with its value if it has got one. -/
  uses : List (Valued × Option String)
  dots : Nat
  units : List String
  /-- The option whose value comes next, if it comes. -/
  awaited : Option Valued

def State.start : State := ⟨[], 0, [], none⟩

def State.use (s : State) (v : Valued) (value : Option String) : State :=
  { s with uses := s.uses ++ [(v, value)] }

/-- An option that waits for a value is left without one. -/
def State.stopWaiting (s : State) : State :=
  match s.awaited with
  | some v => { s.use v none with awaited := none }
  | none => s

def State.await (s : State) (v : Valued) : State := { s with awaited := some v }

/-- What is left of a command line when an argument has been read. -/
inductive Progress where
  | go (s : State)
  | usage
  | misuse

/-- A long option, with the value that stands behind an equals sign. -/
def readLong (s : State) (name : List Char) (value : Option String) : Progress :=
  match long? name, value with
  | some (.valued v), some text => .go (s.use v (some text))
  | some (.valued v), none => .go (s.await v)
  | some .dot, none => .go { s with dots := s.dots + 1 }
  | some .usage, none => .usage
  | _, _ => .misuse

/-- Short options, of which one that has a value takes what stands behind it. -/
def readShort (s : State) (letter : Char) (rest : List Char) : Progress :=
  let valued? : Option Valued :=
    if letter = 'c' then some .config else if letter = 'p' then some .lookup else none
  match valued? with
  | some v =>
    match rest with
    | [] => .go (s.await v)
    | '=' :: value => .go (s.use v (some (.ofList value)))
    | value => .go (s.use v (some (.ofList value)))
  | none => if letter = 'h' || letter = 'V' then .usage else .misuse

def readArgument (s : State) (arg : String) : Progress :=
  match arg.toList with
  | '-' :: '-' :: name =>
    let s := s.stopWaiting
    match name.span (· ≠ '=') with
    | (name, _ :: value) => readLong s name (some (.ofList value))
    | (name, []) => readLong s name none
  | '-' :: letter :: rest => readShort s.stopWaiting letter rest
  | _ =>
    match s.awaited with
    | some v => .go { s.use v (some arg) with awaited := none }
    | none => .go { s with units := s.units ++ [arg] }

def State.usesOf (s : State) (v : Valued) : List (Option String) :=
  s.uses.filterMap fun u => if u.1 = v then some u.2 else none

/-- The value of an option that may be used once, and then has a value. -/
def single? : List (Option String) → Option (Option String)
  | [] => some none
  | [some value] => some (some value)
  | _ => none

/-- The values of an option that may be used again and again, at least once with a value. -/
def several? (uses : List (Option String)) : Option (List String) :=
  let values := uses.filterMap id
  if uses ≠ [] && values = [] then none else some values

/-- The options at the end of a command line. Only the lookup path may be given more than once. -/
def State.finish (s : State) : Request :=
  let s := s.stopWaiting
  match single? (s.usesOf .config), several? (s.usesOf .lookup), single? (s.usesOf .logLevel) with
  | some config, some lookup, some logLevel =>
    if 1 < s.dots then .misuse else .resolve ⟨config, lookup, logLevel, s.dots = 1, s.units⟩
  | _, _, _ => .misuse

def help : String :=
  "Usage: uresolve [OPTIONS] [UNIT]...\n\n" ++
  "  -c, --config FILE        read the settings from a file\n" ++
  "  -p, --lookup-path DIR    search a directory for units; may be given again\n" ++
  "      --log-level LEVEL    off, error, warn, info, debug or trace\n" ++
  "      --dot                print a directed graph in place of text\n" ++
  "  -h, --help               print this text\n"

/-- The arguments from a state on. Behind two dashes all of them are units. -/
def readFrom (s : State) : List String → Request
  | [] => s.finish
  | arg :: args =>
    if arg = "--" then { s.stopWaiting with units := s.units ++ args }.finish
    else match readArgument s arg with
      | .go s => readFrom s args
      | .usage => .usage
      | .misuse => .misuse

def read (args : List String) : Request := readFrom .start args

end CommandLine
end ServiceUnits
