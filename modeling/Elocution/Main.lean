import Elocution.CommandLine.Run

/-!
# The program

Reads the environment and the files that a command line names, runs it, prints and writes what
comes of it. No sound card is driven from here.
-/

namespace Elocution.CommandLine

/-- The contents of a file that can be read. -/
def contents? (path : String) : IO (Option ByteArray) :=
  try return some (← IO.FS.readBinFile path) catch _ => return none

/-- The configuration file at the usual place. -/
def usualContents? : IO (Option ByteArray) := do
  match ← IO.getEnv "XDG_CONFIG_HOME", ← IO.getEnv "HOME" with
  | some base, _ => contents? (base ++ "/murmur/config.toml")
  | none, some home => contents? (home ++ "/.config/murmur/config.toml")
  | none, none => return none

/-- What the command line gets to see: of the files, the one that it names. -/
def surroundings (arguments : List String) : IO Surroundings := do
  let values ← Config.Environment.names.mapM fun name => return (name, ← IO.getEnv name)
  let named ← match Invocation.ofArguments arguments with
    | .ok { config := some path, .. } => contents? path
    | _ => pure none
  return {
    lookup := fun name => (values.lookup name).join
    contents := fun _ => named
    usual := ← usualContents?
    cards := some [] }

/-- Writes a recording; says whether it could be written. -/
def save (r : Recording) : IO Bool :=
  try
    IO.FS.writeBinFile r.path ⟨r.bytes.toArray⟩
    return true
  catch _ => return false

/-- Runs a command line and gives its exit code. -/
def program (arguments : List String) : IO UInt32 := do
  let o := run (← surroundings arguments) arguments
  let written ← match o.recording with
    | none => pure false
    | some r => save r
  let o := o.settle written
  IO.print o.printed
  if let some fault := o.fault then IO.eprintln ("fatal: " ++ fault.shown)
  if o.misused then IO.eprint (lines usageLines)
  return UInt32.ofNat o.code

end Elocution.CommandLine

def main (arguments : List String) : IO UInt32 := Elocution.CommandLine.program arguments
