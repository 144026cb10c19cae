import Elocution.Block
import Elocution.Config.File
import Elocution.Settings.Registry

/-!
# Configuration

A configuration is put together from the environment, a file and defaults: the environment
comes before the file, and the file before the defaults. A value that is hidden by another is
not looked at.
-/

namespace Elocution

structure Config where
  voice : VoiceSettings := {}
  /-- None for the default device. -/
  device : Option String := none
  sampleRate : Nat := 24000
  limits : CoalesceLimits := {}
  framesReadyTimeoutMs : Nat := 50
  joinTimeoutMs : Nat := 500
  chunkMs : Nat := 20
deriving DecidableEq, Repr

namespace Config

/-- What may be set in the environment. -/
structure Environment where
  device : Option String := none
  voice : Option String := none
  rate : Option String := none
  pitch : Option String := none
  sampleRate : Option String := none
deriving DecidableEq, Repr

/-- The names of the variables. -/
def Environment.names : List String :=
  ["MURMUR_OUTPUT_DEVICE", "MURMUR_VOICE", "MURMUR_RATE", "MURMUR_PITCH", "MURMUR_SAMPLE_RATE"]

/-- Looks the variables up by their names. -/
def Environment.ofLookup (get : String → Option String) : Environment where
  device := get "MURMUR_OUTPUT_DEVICE"
  voice := get "MURMUR_VOICE"
  rate := get "MURMUR_RATE"
  pitch := get "MURMUR_PITCH"
  sampleRate := get "MURMUR_SAMPLE_RATE"

def minSampleRate : Nat := 8000

def maxSampleRate : Nat := 192000

/-- Sets a value as if it had been typed, if there is one. -/
def applyText (id : String) (value : Option String) (s : VoiceSettings) :
    Except Error VoiceSettings :=
  match value with
  | none => .ok s
  | some raw => (s.setText .builtin id raw.toList).mapError .setting

def resolveVoice (file : VoiceSection) (env : Environment) : Except Error VoiceSettings := do
  let s ← applyText "voice" (env.voice <|> file.voice) (.defaults .builtin)
  let s ← applyText "rate" (env.rate <|> file.rate.map toString) s
  let s ← applyText "pitch" (env.pitch <|> file.pitch.map toString) s
  let s ← applyText "inflection" (file.inflection.map toString) s
  let s ← applyText "volume" (file.volume.map toString) s
  return { s with pauseMode := file.pauseMode.getD s.pauseMode }

def resolveSampleRate (file : Option Nat) (env : Option String) : Except Error Nat := do
  let rate ← match env with
    | some raw =>
      (Text.readNumeral wordMax (Text.trim raw.toList)).mapError
        fun fault => .config (.sampleRateNumeral fault)
    | none => pure (file.getD ({} : Config).sampleRate)
  if minSampleRate ≤ rate ∧ rate ≤ maxSampleRate then return rate
  else .error (.config (.sampleRateRange rate))

/-- A blank name stands for the default device. -/
def resolveDevice (file env : Option String) : Option String :=
  (env <|> file).filter fun name => !Text.allBlank name.toList

def resolve (file : File) (env : Environment) : Except Error Config := do
  let voice ← resolveVoice file.voice env
  let sampleRate ← resolveSampleRate file.audio.sampleRate env.sampleRate
  let base : Config := {}
  let config : Config :=
    { voice, sampleRate
      device := resolveDevice file.audio.device env.device
      limits :=
        { maxChars := file.pipeline.maxChars.getD base.limits.maxChars
          maxMarkers := file.pipeline.maxMarkers.getD base.limits.maxMarkers }
      framesReadyTimeoutMs := file.pipeline.framesReadyTimeoutMs.getD base.framesReadyTimeoutMs
      joinTimeoutMs := file.pipeline.joinTimeoutMs.getD base.joinTimeoutMs
      chunkMs := file.pipeline.chunkMs.getD base.chunkMs }
  if config.chunkMs = 0 ∨ config.framesReadyTimeoutMs = 0 then .error (.config .notPositive)
  else return config

/-- The configuration of a file that has been named, if it is there. -/
def ofFile (bytes : Option ByteArray) (env : Environment) : Except Error Config := do
  match bytes with
  | none => .error .file
  | some bytes => resolve (← File.ofBytes bytes) env

/-- The configuration of the file at the usual place; a file that is not there or cannot be
used sets nothing. -/
def load (bytes : Option ByteArray) (env : Environment) : Except Error Config :=
  resolve (bytes.elim {} fun bytes => (File.ofBytes bytes).toOption.getD {}) env

end Config

end Elocution
