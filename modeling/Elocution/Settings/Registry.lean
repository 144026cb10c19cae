import Elocution.Error
import Elocution.Settings.Basic
import Elocution.Text.Blank
import Elocution.Voice.Table

/-!
# The registry of settings

Each setting has an identifier, a label, a kind of value and a default. Reading and writing by
identifier go through the registry, which lets no invalid value in.
-/

namespace Elocution

inductive SettingValue where
  | percent (n : Nat)
  | choice (name : String)
deriving DecidableEq, Repr

/-- The text shown for a value. -/
def SettingValue.shown : SettingValue → String
  | .percent n => toString n
  | .choice name => name

def SettingValue.percentage : SettingValue → Nat
  | .percent n => n
  | .choice _ => 0

inductive SettingKind where
  /-- A whole number from 0 to 100. -/
  | percent
  /-- One of the names. -/
  | choice (names : List String)
deriving DecidableEq, Repr

inductive Setting where
  | voice
  | rate
  | pitch
  | inflection
  | volume
  | pauseMode
deriving DecidableEq, Repr

namespace Setting

/-- The settings in the order in which they are listed. -/
def all : List Setting := [.voice, .rate, .pitch, .inflection, .volume, .pauseMode]

def id : Setting → String
  | .voice => "voice"
  | .rate => "rate"
  | .pitch => "pitch"
  | .inflection => "inflection"
  | .volume => "volume"
  | .pauseMode => "pause_mode"

def label : Setting → String
  | .voice => "Voice"
  | .rate => "Rate"
  | .pitch => "Pitch"
  | .inflection => "Inflection"
  | .volume => "Volume"
  | .pauseMode => "Pauses at punctuation"

def kind (voices : VoiceTable) : Setting → SettingKind
  | .voice => .choice voices.names
  | .pauseMode => .choice (PauseMode.all.map PauseMode.name)
  | _ => .percent

/-- The value that the settings hold. -/
def value (s : VoiceSettings) : Setting → SettingValue
  | .voice => .choice s.voice
  | .rate => .percent s.rate
  | .pitch => .percent s.pitch
  | .inflection => .percent s.inflection
  | .volume => .percent s.volume
  | .pauseMode => .choice s.pauseMode.name

/-- The settings with one value replaced. A value of the wrong kind, which validation keeps
out, is written as its text or as 0, and a mode that does not exist as the short one. -/
def write (s : VoiceSettings) (setting : Setting) (value : SettingValue) : VoiceSettings :=
  match setting with
  | .voice => { s with voice := value.shown }
  | .rate => { s with rate := value.percentage }
  | .pitch => { s with pitch := value.percentage }
  | .inflection => { s with inflection := value.percentage }
  | .volume => { s with volume := value.percentage }
  | .pauseMode => { s with pauseMode := (PauseMode.ofName? value.shown.toList).getD .short }

/-- The value that a setting starts with: of the plain settings all but the voice. -/
def initial (voices : VoiceTable) : Setting → SettingValue :=
  value { voice := voices.defaultName }

def ofId? (id : String) : Option Setting := all.find? (·.id == id)

def require (id : String) : Except SettingFault Setting :=
  match ofId? id with
  | some setting => .ok setting
  | none => .error (.unknown id)

/-- Refuses a value that the setting does not take. -/
def check (voices : VoiceTable) (setting : Setting) (value : SettingValue) :
    Except SettingFault Unit :=
  match setting.kind voices, value with
  | .percent, .percent n => if n ≤ 100 then .ok () else .error (.notPercent setting.id n)
  | .choice names, .choice name =>
    if names.contains name then .ok () else .error (.notListed setting.id names name)
  | _, _ => .error (.wrongKind setting.id)

/-- Reads a typed value: a numeral that fits in a byte, or a name in any case. -/
def parse (voices : VoiceTable) (setting : Setting) (raw : List Char) :
    Except SettingFault SettingValue :=
  match setting.kind voices with
  | .percent =>
    match Text.readNumeral 255 (Text.trim raw) with
    | .ok n => .ok (.percent n)
    | .error fault => .error (.numeral setting.id fault)
  | .choice _ => .ok (.choice (String.ofList ((Text.trim raw).map Char.toLower)))

end Setting

namespace VoiceSettings

/-- The settings that a table of voices starts with. -/
def defaults (voices : VoiceTable) : VoiceSettings :=
  Setting.all.foldl (fun s setting => setting.write s (setting.initial voices)) {}

def get (s : VoiceSettings) (id : String) : Except SettingFault SettingValue := do
  let setting ← Setting.require id
  return setting.value s

def set (voices : VoiceTable) (s : VoiceSettings) (id : String) (value : SettingValue) :
    Except SettingFault VoiceSettings := do
  let setting ← Setting.require id
  setting.check voices value
  return setting.write s value

def setText (voices : VoiceTable) (s : VoiceSettings) (id : String) (raw : List Char) :
    Except SettingFault VoiceSettings := do
  let setting ← Setting.require id
  let value ← setting.parse voices raw
  s.set voices id value

/-- Checks all settings, in their order. -/
def validate (voices : VoiceTable) (s : VoiceSettings) : Except SettingFault Unit :=
  Setting.all.forM fun setting => setting.check voices (setting.value s)

end VoiceSettings

end Elocution
