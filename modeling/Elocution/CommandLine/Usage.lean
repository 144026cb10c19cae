/-!
# Usage

What can be given by name on a command line, and at which level. The first level comes before
the name of a command; each command is a level of its own.
-/

namespace Elocution.CommandLine

inductive Parameter where
  | verbose
  | config
  | device
  | set
  | paged
  | markers
  | output
  | help
  | version
deriving DecidableEq, Repr

namespace Parameter

def longName : Parameter → String
  | .verbose => "verbose"
  | .config => "config"
  | .device => "device"
  | .set => "set"
  | .paged => "paged"
  | .markers => "markers"
  | .output => "output"
  | .help => "help"
  | .version => "version"

def letter? : Parameter → Option Char
  | .verbose => some 'v'
  | .config => some 'c'
  | .device => some 'd'
  | .set => some 's'
  | .output => some 'o'
  | .help => some 'h'
  | .version => some 'V'
  | .paged | .markers => none

def takesValue : Parameter → Bool
  | .config | .device | .set | .output => true
  | _ => false

end Parameter

inductive Level where
  | top
  | say
  | render
  | devices
  | settings
deriving DecidableEq, Repr

namespace Level

/-- What can be given at every level. -/
def shared : List Parameter := [.verbose, .config, .device, .set, .help]

def parameters : Level → List Parameter
  | .top => .version :: shared
  | .say => .paged :: .markers :: shared
  | .render => .output :: .markers :: shared
  | .devices | .settings => shared

/-- Whether the level takes the text to speak. -/
def takesText : Level → Bool
  | .say | .render => true
  | .top | .devices | .settings => false

/-- The names of the commands. -/
def commands : List (String × Level) :=
  [("say", .say), ("render", .render), ("devices", .devices), ("settings", .settings)]

def ofName? (name : String) : Option Level := commands.lookup name

def long? (l : Level) (name : List Char) : Option Parameter :=
  l.parameters.find? (·.longName.toList == name)

def letter? (l : Level) (c : Char) : Option Parameter :=
  l.parameters.find? (·.letter? == some c)

end Level

end Elocution.CommandLine
