import Elocution.CommandLine.Argument
import Elocution.CommandLine.Usage

/-!
# Invocations

Command lines are read from left to right, level by level, and the first thing that ends the
reading decides. What a command is given comes before what the first level was given; a command
with assignments of its own drops all those of the first level.
-/

namespace Elocution.CommandLine

/-- Why there is nothing to run. -/
inductive Ending where
  | help
  | version
  | misuse
deriving DecidableEq, Repr

/-- What has been given at a level. -/
structure Given where
  config : Option String := none
  device : Option String := none
  set : List String := []
  paged : Bool := false
  markers : Bool := false
  output : Option String := none
  plain : List String := []
deriving DecidableEq, Repr

namespace Given

/-- Notes a parameter that takes no value. Only verbosity may be given twice. -/
def mark (p : Parameter) (g : Given) : Except Ending Given :=
  match p with
  | .verbose => .ok g
  | .help => .error .help
  | .version => .error .version
  | .paged => if g.paged then .error .misuse else .ok { g with paged := true }
  | .markers => if g.markers then .error .misuse else .ok { g with markers := true }
  | _ => .error .misuse

/-- Sets a value that must not have been given before. -/
def once (old : Option String) (value : String) (set : String → Given) : Except Ending Given :=
  if old.isSome then .error .misuse else .ok (set value)

/-- Notes the value of a parameter. A path must not be empty. -/
def supply (p : Parameter) (value : List Char) (g : Given) : Except Ending Given :=
  let text := String.ofList value
  match p with
  | .config =>
    if value.isEmpty then .error .misuse
    else once g.config text fun path => { g with config := some path }
  | .output =>
    if value.isEmpty then .error .misuse
    else once g.output text fun path => { g with output := some path }
  | .device => once g.device text fun d => { g with device := some d }
  | .set => .ok { g with set := g.set ++ [text] }
  | _ => .error .misuse

end Given

namespace Level

/-- A parameter that was found, with the value attached to it. A parameter without the value
that it takes is left waiting for one. -/
def readNamed (p : Option Parameter) (value : Option (List Char)) (g : Given) :
    Except Ending (Option Parameter × Given) := do
  match p, value with
  | none, _ => .error .misuse
  | some p, some value => return (none, ← g.supply p value)
  | some p, none => if p.takesValue then return (some p, g) else return (none, ← g.mark p)

/-- The value after a letter: the rest of the argument, without an equals sign before it. -/
def attachedValue : List Char → Option (List Char)
  | [] => none
  | '=' :: value | value => some value

/-- Reads letters up to the first that takes a value. -/
def readLetters (l : Level) : List Char → Given → Except Ending (Option Parameter × Given)
  | [], g => .ok (none, g)
  | c :: rest, g =>
    match l.letter? c with
    | none => .error .misuse
    | some p =>
      if p.takesValue then
        readNamed p (attachedValue rest) g
      else g.mark p >>= readLetters l rest

/-- Takes plain arguments. The first level takes none itself. -/
def addPlain (l : Level) (texts : List String) (g : Given) : Except Ending Given :=
  if l.takesText || texts.isEmpty then .ok { g with plain := g.plain ++ texts }
  else .error .misuse

/-- Reads the arguments of a level; `waiting` is the parameter that waits for a value. The first
level ends with the name of a command, which it keeps with all that follows. -/
def read (l : Level) (waiting : Option Parameter) (g : Given) :
    List String → Except Ending Given
  | [] => if waiting.isSome then .error .misuse else .ok g
  | text :: rest =>
    match Argument.ofText text.toList, waiting with
    | .plain value, some p => g.supply p value >>= (read l none · rest)
    | _, some _ => .error .misuse
    | .plain _, none =>
      if l = .top then .ok { g with plain := text :: rest }
      else l.addPlain [text] g >>= (read l none · rest)
    | .separator, none => l.addPlain rest g
    | .long name value, none => do
      let (waiting, g) ← readNamed (l.long? name) value g
      read l waiting g rest
    | .cluster letters, none => do
      let (waiting, g) ← l.readLetters letters g
      read l waiting g rest

end Level

inductive Action where
  | say (text : String) (paged markers : Bool)
  | render (text : String) (output : String) (markers : Bool)
  | devices
  | settings
deriving DecidableEq, Repr

/-- A command that can be run. -/
structure Invocation where
  action : Action
  config : Option String := none
  device : Option String := none
  /-- Assignments of the form `ID=VALUE`, in order. -/
  assignments : List String := []
deriving DecidableEq, Repr

namespace Invocation

/-- The text to speak, which must be given. -/
def textOf (g : Given) : Except Ending String :=
  if g.plain.isEmpty then .error .misuse else .ok (" ".intercalate g.plain)

def actionOf (l : Level) (g : Given) : Except Ending Action := do
  match l with
  | .top => .error .misuse
  | .say => return .say (← textOf g) g.paged g.markers
  | .render =>
    match g.output with
    | none => .error .misuse
    | some output => return .render (← textOf g) output g.markers
  | .devices => return .devices
  | .settings => return .settings

/-- Whether help can be given on that. -/
def isTopic : List String → Bool
  | [] | ["help"] => true
  | [name] => (Level.ofName? name).isSome
  | _ => false

def ofArguments (arguments : List String) : Except Ending Invocation := do
  let first ← Level.top.read none {} arguments
  match first.plain with
  | [] => .error .misuse
  | "help" :: topic => .error (if isTopic topic then .help else .misuse)
  | name :: rest =>
    match Level.ofName? name with
    | none => .error .misuse
    | some l =>
      let own ← l.read none {} rest
      return {
        action := ← actionOf l own
        config := own.config <|> first.config
        device := own.device <|> first.device
        assignments := if own.set.isEmpty then first.set else own.set }

end Invocation

end Elocution.CommandLine
