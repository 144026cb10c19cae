import Elocution.Text.Numeral

/-!
# Errors

The causes for which an operation is refused, and their wording.
-/

namespace Elocution

inductive SettingFault where
  | unknown (id : String)
  | unknownPauseMode (given : List Char)
  | notPercent (id : String) (given : Nat)
  | notListed (id : String) (listed : List String) (given : String)
  | wrongKind (id : String)
  | numeral (id : String) (fault : Text.NumeralFault)
deriving DecidableEq, Repr

def SettingFault.message : SettingFault → String
  | .unknown id => "unknown setting: " ++ id
  | .unknownPauseMode given => "unknown pause mode: " ++ String.ofList given
  | .notPercent id given => id ++ " must be between 0 and 100, got " ++ toString given
  | .notListed id listed given =>
    id ++ " must be one of " ++ ", ".intercalate listed ++ ", got " ++ given
  | .wrongKind id => "wrong value type for " ++ id
  | .numeral id fault => id ++ ": " ++ fault.message

inductive ConfigFault where
  | sampleRateNumeral (fault : Text.NumeralFault)
  | sampleRateRange (given : Nat)
  | notPositive
deriving DecidableEq, Repr

def ConfigFault.message : ConfigFault → String
  | .sampleRateNumeral fault => "MURMUR_SAMPLE_RATE: " ++ fault.message
  | .sampleRateRange given =>
    "sample rate must be between 8000 and 192000 Hz, got " ++ toString given
  | .notPositive => "chunk_ms and frames_ready_timeout_ms must be positive"

inductive SynthesisFault where
  | unknownVoice (name : String)
  /-- An engine gave no frames for a clause. -/
  | refused
deriving DecidableEq, Repr

def SynthesisFault.message : SynthesisFault → String
  | .unknownVoice name => "unknown voice: " ++ name
  | .refused => "clause refused"

inductive OutputFault where
  | noDevice
  | notFound (device : String)
  | cannotOpen (device : Option String)
  | noConfig (reason : String)
  /-- A failure that the sound system reports in its own words. -/
  | system (reason : String)
  | zeroRate (source target : Nat)
deriving DecidableEq, Repr

def OutputFault.message : OutputFault → String
  | .noDevice => "no output device available"
  | .notFound device => "output device not found: " ++ device
  | .cannotOpen device => "cannot open " ++ device.getD "default"
  | .noConfig reason => "no suitable output config found: " ++ reason
  | .system reason => reason
  | .zeroRate source target =>
    "resampler init failed: Input and output sample rates must both be > 0. " ++
      "Provided input: " ++ toString source ++ ", provided output: " ++ toString target

inductive Error where
  | config (fault : ConfigFault)
  | setting (fault : SettingFault)
  | synthesis (fault : SynthesisFault)
  | audio (fault : OutputFault)
  /-- A file cannot be read or written. -/
  | file
  /-- A configuration file breaks its grammar or its schema. -/
  | malformed
deriving DecidableEq, Repr

def Error.message : Error → String
  | .config fault => "configuration error: " ++ fault.message
  | .setting fault => "setting error: " ++ fault.message
  | .synthesis fault => "synthesis error: " ++ fault.message
  | .audio fault => "audio error: " ++ fault.message
  | .file => "io error"
  | .malformed => "toml error"

end Elocution
