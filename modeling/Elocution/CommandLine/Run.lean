import Elocution.CommandLine.Invocation
import Elocution.CommandLine.Recital
import Elocution.Output.OpenCard
import Elocution.Output.Wave
import Elocution.Text.Places
import Elocution.Text.Visible

/-!
# Runs

What a command line comes to: what it prints, the file that is then to be written, and the
fault that ends it. Configurations are read and assignments made before a command starts, so
that no command starts with settings that are not valid.
-/

namespace Elocution.CommandLine

/-- What a run gets to see of the system. -/
structure Surroundings where
  lookup : String → Option String
  /-- The contents of the file at a path, if it can be read. -/
  contents : String → Option ByteArray
  /-- The contents of the configuration file at the usual place. -/
  usual : Option ByteArray := none
  cards : Output.Cards

inductive RunFault where
  /-- A configuration file that was named cannot be used. -/
  | unusable (path : String) (error : Error)
  | notAssignment (given : String)
  | refused (error : Error)
  /-- A recital did not come to its end in time. -/
  | silence (waitMs : Nat)
deriving DecidableEq, Repr

def RunFault.message : RunFault → String
  | .unusable path error => "failed to load " ++ path ++ ": " ++ error.message
  | .notAssignment given => "expected ID=VALUE, got " ++ given
  | .refused error => error.message
  | .silence waitMs =>
    "no speech notification within " ++ toString (waitMs / 1000) ++
      "s: timed out waiting on channel"

/-- The message as a terminal shows it. -/
def RunFault.shown (fault : RunFault) : String :=
  String.ofList (Text.visibleText fault.message.toList)

/-- A recording that is to be written to a file. -/
structure Recording where
  path : String
  rate : Nat
  samples : List Int16
deriving DecidableEq, Repr

namespace Recording

/-- The file, as the plain writer makes it. -/
def bytes (r : Recording) : List UInt8 := Output.Wave.encode r.rate r.samples

def seconds (r : Recording) : Float := Float.ofNat r.samples.length / Float.ofNat r.rate

/-- What is printed once the file has been written. -/
def note (r : Recording) : String :=
  "Wrote " ++ Text.withTwoPlaces r.seconds ++ "s of audio to " ++ r.path ++ "\n"

end Recording

structure Outcome where
  printed : String := ""
  recording : Option Recording := none
  fault : Option RunFault := none
  misused : Bool := false
deriving DecidableEq, Repr

namespace Outcome

/-- The outcome once it is known whether the recording could be written. -/
def settle (written : Bool) (o : Outcome) : Outcome :=
  match o.recording with
  | none => o
  | some r =>
    if written then { o with printed := o.printed ++ r.note }
    else { o with recording := none, fault := some (.refused .file) }

def code (o : Outcome) : Nat := if o.misused then 2 else if o.fault.isSome then 1 else 0

end Outcome

/-- Makes an assignment of the form `ID=VALUE`; the identifier may have blanks around it. -/
def assign (s : VoiceSettings) (assignment : String) : Except RunFault VoiceSettings :=
  match Argument.splitValue assignment.toList with
  | (_, none) => .error (.notAssignment assignment)
  | (id, some value) =>
    (s.setText .builtin (String.ofList (Text.trim id)) value).mapError (.refused ∘ .setting)

def configure (w : Surroundings) (i : Invocation) : Except RunFault Config := do
  let env := Config.Environment.ofLookup w.lookup
  let config ← match i.config with
    | some path => (Config.ofFile (w.contents path) env).mapError (.unusable path)
    | none => (Config.load w.usual env).mapError .refused
  let voice ← i.assignments.foldlM assign config.voice
  return { config with voice, device := i.device <|> config.device }

def lines (texts : List String) : String := String.join (texts.map (· ++ "\n"))

/-- The lines for the markers of a recital, and the fault if it did not come to its end. -/
def report (text : String) (markers : Bool) (events : List Speech.Event) : Outcome :=
  match reached? events with
  | none => { fault := some (.silence (longestWaitMs text.toList)) }
  | some ids => { printed := if markers then lines (ids.map fun id => "#" ++ toString id) else "" }

def ofFault (fault : RunFault) : Outcome := { fault := some fault }

/-- Speaks a text through a sound card. -/
def say (w : Surroundings) (config : Config) (text : String) (paged markers : Bool) : Outcome :=
  let factory : Output.Factory Unit := fun device rate =>
    (Output.OpenCard.openFirst (κ := Unit) w.cards device rate).1.map fun _ => ()
  match recite config factory (commandsOf text.toList markers) paged with
  | .error fault => ofFault (.refused (.audio fault))
  | .ok events => report text markers events

/-- Records a text. -/
def render (config : Config) (text path : String) (markers : Bool) : Outcome :=
  match recite config (fun _ _ => .ok ()) (commandsOf text.toList markers) false with
  | .error fault => ofFault (.refused (.audio fault))
  | .ok events =>
    let o := report text markers events
    if o.fault.isSome then o
    else { o with recording := some ⟨path, config.sampleRate, audio events⟩ }

def listDevices (cards : Output.Cards) : Outcome :=
  match cards.names with
  | .error fault => ofFault (.refused (.audio fault))
  | .ok [] => { printed := lines ["No output devices found"] }
  | .ok names => { printed := lines names }

/-- The text with blanks after it up to a width. -/
def padded (width : Nat) (s : String) : String :=
  s ++ String.ofList (List.replicate (width - s.length) ' ')

/-- A row of the table of settings. -/
def row (id label value : String) : String := padded 12 id ++ " " ++ padded 24 label ++ " " ++ value

def settingRow (s : VoiceSettings) (setting : Setting) : String :=
  row setting.id setting.label
    ((setting.value s).shown ++ " (default " ++ (setting.value (.defaults .builtin)).shown ++ ")")

def showSettings (config : Config) : Outcome :=
  { printed := lines (Setting.all.map (settingRow config.voice) ++
      [row "device" "Output device" (config.device.getD "default")]) }

def perform (w : Surroundings) (config : Config) : Action → Outcome
  | .say text paged markers => say w config text paged markers
  | .render text path markers => render config text path markers
  | .devices => listDevices w.cards
  | .settings => showSettings config

def versionLine : String := "murmur 0.1.0"

def usageLines : List String :=
  ["Usage: murmur [OPTIONS] <COMMAND>",
    "",
    "Commands:",
    "  say <TEXT>...                  Speak text through the output device",
    "  render -o <OUTPUT> <TEXT>...   Render text to a WAV file",
    "  devices                        List output devices",
    "  settings                       Show voice settings",
    "  help                           Print this message",
    "",
    "Options:",
    "  -c, --config <CONFIG>          Config file",
    "  -d, --device <DEVICE>          Output device name",
    "  -s, --set <ID=VALUE>           Override a voice setting",
    "  -o, --output <OUTPUT>          Output file, for render",
    "      --paged                    Merge soft line wraps into sentences, for say",
    "      --markers                  Place a position marker after every word and report it",
    "  -v, --verbose                  Increase verbosity",
    "  -h, --help                     Print help",
    "  -V, --version                  Print version"]

/-- The outcome of a command line, the recording still to be written. -/
def run (w : Surroundings) (arguments : List String) : Outcome :=
  match Invocation.ofArguments arguments with
  | .error .help => { printed := lines usageLines }
  | .error .version => { printed := lines [versionLine] }
  | .error .misuse => { misused := true }
  | .ok i =>
    match configure w i with
    | .error fault => ofFault fault
    | .ok config => perform w config i.action

end Elocution.CommandLine
