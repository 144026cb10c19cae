import Elocution.Config.Basic
import Elocution.Speech.Session.Rehearsal
import Elocution.Voice.Letters

/-!
# Recitals

A text spoken from its beginning to its end, in the settings of a configuration. Whoever waits
for the end waits for one notification at a time, and the longer the text the longer for each.
-/

namespace Elocution.CommandLine

/-- A marker after every word, numbered from one; each word keeps a space after it. -/
def markWords (text : List Char) : List Command :=
  ((Text.words text).zipIdx 1).flatMap fun (word, i) => [.text (word ++ [' ']), .marker i]

/-- The commands that speak a text, with or without markers. -/
def commandsOf (text : List Char) (markers : Bool) : List Command :=
  if markers then markWords text else [.text text]

/-- The wait in milliseconds for a notification, whatever the text. -/
def baseWaitMs : Nat := 30000

/-- The wait in milliseconds for each character of the text. -/
def waitPerCharacterMs : Nat := 250

/-- The longest wait for one notification while a text is spoken, in milliseconds. Without
markers the only notification comes after all of the text. -/
def longestWaitMs (text : List Char) : Nat :=
  baseWaitMs + waitPerCharacterMs * min text.length (UInt32.size - 1)

/-- A rig for the built-in voices and the devices of a factory. -/
def rigOf (config : Config) (factory : Output.Factory Unit) : Speech.Rig where
  engine _ request := Voice.synthesize .builtin request
  limits := config.limits
  rate := config.sampleRate
  chunkMs := config.chunkMs
  factory _ := factory

/-- What the devices and the host get to see of a recital. -/
def recite (config : Config) (factory : Output.Factory Unit) (commands : List Command)
    (paged : Bool) : Except OutputFault (List Speech.Event) := do
  let rig := rigOf config factory
  let s ← Speech.Session.start rig config.device config.voice
  return (s.say rig commands paged {}).log

/-- The markers reached before the end of the recital; none if no end was notified. -/
def reached? : List Speech.Event → Option (List Marker)
  | [] => none
  | .done :: _ => some []
  | .reached m :: rest => (reached? rest).map (m :: ·)
  | _ :: rest => reached? rest

/-- The audio that was handed to devices. -/
def audio (events : List Speech.Event) : List Int16 :=
  events.flatMap fun
    | .fed samples _ _ => samples
    | _ => []

end Elocution.CommandLine
