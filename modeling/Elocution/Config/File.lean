import Elocution.Config.Toml.Document
import Elocution.Error
import Elocution.Pause

/-!
# Configuration files

What a configuration file may set, in three sections. Every setting may be left out; a name
that is not listed here, or a value of the wrong kind, makes the whole file unusable.
-/

namespace Elocution.Config

structure VoiceSection where
  voice : Option String := none
  rate : Option Nat := none
  pitch : Option Nat := none
  inflection : Option Nat := none
  volume : Option Nat := none
  pauseMode : Option PauseMode := none
deriving DecidableEq, Repr

structure AudioSection where
  device : Option String := none
  sampleRate : Option Nat := none
deriving DecidableEq, Repr

structure PipelineSection where
  maxChars : Option Nat := none
  maxMarkers : Option Nat := none
  framesReadyTimeoutMs : Option Nat := none
  joinTimeoutMs : Option Nat := none
  chunkMs : Option Nat := none
deriving DecidableEq, Repr

structure File where
  voice : VoiceSection := {}
  audio : AudioSection := {}
  pipeline : PipelineSection := {}
deriving DecidableEq, Repr

/-- The fields of a section with what each does with a value. -/
abbrev Fields (σ : Type) := List (String × (Toml.Value → σ → Option σ))

variable {σ : Type}

/-- A field that takes text. -/
def textField (set : String → σ → σ) (v : Toml.Value) (s : σ) : Option σ :=
  match v with
  | .text t => some (set (String.ofList t) s)
  | _ => none

/-- A field that takes a whole number from zero to a limit. -/
def wholeField (limit : Nat) (set : Nat → σ → σ) (v : Toml.Value) (s : σ) : Option σ :=
  match v with
  | .integer n => if 0 ≤ n ∧ n.toNat ≤ limit then some (set n.toNat s) else none
  | _ => none

/-- The pause mode of exactly that name. -/
def pauseModeNamed (name : List Char) : Option PauseMode :=
  PauseMode.all.find? fun mode => mode.name.toList == name

/-- A pause mode by its name, as text or as the only key of a table; nothing may be kept under
that key. -/
def pauseModeOf? : Toml.Value → Option PauseMode
  | .text name => pauseModeNamed name
  | .table _ [(name, .list [])] | .table _ [(name, .table _ [])] => pauseModeNamed name
  | _ => none

def byteMax : Nat := UInt8.size - 1

def wordMax : Nat := UInt32.size - 1

def longMax : Nat := UInt64.size - 1

def VoiceSection.fields : Fields VoiceSection :=
  [("voice", textField fun t s => { s with voice := some t }),
    ("rate", wholeField byteMax fun n s => { s with rate := some n }),
    ("pitch", wholeField byteMax fun n s => { s with pitch := some n }),
    ("inflection", wholeField byteMax fun n s => { s with inflection := some n }),
    ("volume", wholeField byteMax fun n s => { s with volume := some n }),
    ("pause_mode", fun v s => (pauseModeOf? v).map fun mode => { s with pauseMode := some mode })]

def AudioSection.fields : Fields AudioSection :=
  [("device", textField fun t s => { s with device := some t }),
    ("sample_rate", wholeField wordMax fun n s => { s with sampleRate := some n })]

def PipelineSection.fields : Fields PipelineSection :=
  [("coalesce_max_chars", wholeField longMax fun n s => { s with maxChars := some n }),
    ("coalesce_max_markers", wholeField longMax fun n s => { s with maxMarkers := some n }),
    ("frames_ready_timeout_ms",
      wholeField longMax fun n s => { s with framesReadyTimeoutMs := some n }),
    ("join_timeout_ms", wholeField longMax fun n s => { s with joinTimeoutMs := some n }),
    ("chunk_ms", wholeField wordMax fun n s => { s with chunkMs := some n })]

/-- Sets the fields that the entries name. -/
def readEntries (fields : Fields σ) (entries : Toml.Entries) (s : σ) : Option σ :=
  entries.foldlM (fun s (k, v) => do (← fields.lookup (String.ofList k)) v s) s

/-- A section is a table, or a list with a value for every field in order. -/
def readSection (fields : Fields σ) (v : Toml.Value) (s : σ) : Option σ :=
  match v with
  | .table _ entries => readEntries fields entries s
  | .list values =>
    if values.length < fields.length then none
    else (fields.zip values).foldlM (fun s ((_, set), v) => set v s) s
  | _ => none

namespace File

def fields : Fields File :=
  [("voice", fun v f => do return { f with voice := ← readSection VoiceSection.fields v {} }),
    ("audio", fun v f => do return { f with audio := ← readSection AudioSection.fields v {} }),
    ("pipeline",
      fun v f => do return { f with pipeline := ← readSection PipelineSection.fields v {} })]

def ofText (text : List Char) : Except Error File :=
  match Toml.parse? text >>= (readEntries fields · {}) with
  | some file => .ok file
  | none => .error .malformed

/-- Reads the bytes of a file, which must be text. -/
def ofBytes (bytes : ByteArray) : Except Error File :=
  match String.fromUTF8? bytes with
  | some text => ofText text.toList
  | none => .error .file

end File

end Elocution.Config
