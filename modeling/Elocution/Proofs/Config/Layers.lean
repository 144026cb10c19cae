import Elocution.Config.Basic
import Elocution.Proofs.Settings.Editing

/-!
# Layers of a configuration

Of every value the first that is there counts: that of the environment, else that of the file, else
the default. A configuration comes about if and only if these values can be used, and then holds
just them. What the environment hides in the file is not looked at, so that it may well be useless.
-/

namespace Elocution.Config

open VoiceSettings (bind_eq_ok_iff)

variable {file : File} {get : String → Option String} {default n : Nat} {s t : VoiceSettings}
  {c : Config}

/-- A number as it has been typed, or as it is. -/
inductive Quantity where
  | typed (raw : String)
  | number (n : Nat)

namespace Quantity

def Denotes : Quantity → Nat → Prop
  | .typed raw, n => Text.Denotes (Text.trim raw.toList) n
  | .number m, n => n = m

def first (typed : Option String) (given : Option Nat) (default : Nat) : Quantity :=
  match typed, given with
  | some raw, _ => .typed raw
  | none, some n => .number n
  | none, none => .number default

theorem Denotes.unique {q : Quantity} {n m : Nat} (hn : q.Denotes n) (hm : q.Denotes m) :
    n = m := by
  cases q with
  | typed raw => exact Text.Denotes.unique hn hm
  | number k => exact Eq.trans hn (Eq.symm hm)

def IsPercentage (q : Quantity) : Prop := ∃ n, n ≤ 100 ∧ q.Denotes n

theorem IsPercentage.le {q : Quantity} (h : q.IsPercentage) (hn : q.Denotes n) : n ≤ 100 := by
  obtain ⟨m, hm, hdenotes⟩ := h
  rw [hn.unique hdenotes]
  exact hm

end Quantity

/-- The first value that is there, for all that makes up a configuration. -/
structure Effective where
  voice : String
  rate : Quantity
  pitch : Quantity
  inflection : Quantity
  volume : Quantity
  pauseMode : PauseMode
  device : Option String
  sampleRate : Quantity
  limits : CoalesceLimits
  framesReadyTimeoutMs : Nat
  joinTimeoutMs : Nat
  chunkMs : Nat

def effective (file : File) (get : String → Option String) : Effective :=
  let base : Config := {}
  { voice := (get "MURMUR_VOICE" <|> file.voice.voice).getD base.voice.voice
    rate := .first (get "MURMUR_RATE") file.voice.rate base.voice.rate
    pitch := .first (get "MURMUR_PITCH") file.voice.pitch base.voice.pitch
    inflection := .first none file.voice.inflection base.voice.inflection
    volume := .first none file.voice.volume base.voice.volume
    pauseMode := file.voice.pauseMode.getD base.voice.pauseMode
    device := get "MURMUR_OUTPUT_DEVICE" <|> file.audio.device
    sampleRate := .first (get "MURMUR_SAMPLE_RATE") file.audio.sampleRate base.sampleRate
    limits :=
      { maxChars := file.pipeline.maxChars.getD base.limits.maxChars
        maxMarkers := file.pipeline.maxMarkers.getD base.limits.maxMarkers }
    framesReadyTimeoutMs := file.pipeline.framesReadyTimeoutMs.getD base.framesReadyTimeoutMs
    joinTimeoutMs := file.pipeline.joinTimeoutMs.getD base.joinTimeoutMs
    chunkMs := file.pipeline.chunkMs.getD base.chunkMs }

namespace Effective

/-- The name of the voice as it is looked up. -/
def voiceName (e : Effective) : String :=
  String.ofList ((Text.trim e.voice.toList).map Char.toLower)

/-- A configuration can be made of these values. -/
structure IsSound (e : Effective) : Prop where
  voice : e.voiceName ∈ VoiceTable.builtin.names
  rate : e.rate.IsPercentage
  pitch : e.pitch.IsPercentage
  inflection : e.inflection.IsPercentage
  volume : e.volume.IsPercentage
  sampleRate : ∃ n, e.sampleRate.Denotes n ∧ 8000 ≤ n ∧ n ≤ 192000
  chunkMs : 0 < e.chunkMs
  framesReadyTimeoutMs : 0 < e.framesReadyTimeoutMs

/-- The configuration holds these values; a blank name of a device is none. -/
structure IsHeldBy (e : Effective) (c : Config) : Prop where
  voice : c.voice.voice = e.voiceName
  rate : e.rate.Denotes c.voice.rate
  pitch : e.pitch.Denotes c.voice.pitch
  inflection : e.inflection.Denotes c.voice.inflection
  volume : e.volume.Denotes c.voice.volume
  pauseMode : c.voice.pauseMode = e.pauseMode
  device : ∀ name, c.device = some name ↔
    e.device = some name ∧ Text.allBlank name.toList = false
  sampleRate : e.sampleRate.Denotes c.sampleRate
  limits : c.limits = e.limits
  framesReadyTimeoutMs : c.framesReadyTimeoutMs = e.framesReadyTimeoutMs
  joinTimeoutMs : c.joinTimeoutMs = e.joinTimeoutMs
  chunkMs : c.chunkMs = e.chunkMs

end Effective

/-- What is left of a value where another hides it. -/
def unhidden {α β : Type} (hider : Option α) (value : Option β) : Option β :=
  if hider.isSome then none else value

/-- The file without what the environment hides. -/
def File.unhidden (file : File) (get : String → Option String) : File :=
  { file with
    voice :=
      { file.voice with
        voice := Config.unhidden (get "MURMUR_VOICE") file.voice.voice
        rate := Config.unhidden (get "MURMUR_RATE") file.voice.rate
        pitch := Config.unhidden (get "MURMUR_PITCH") file.voice.pitch }
    audio :=
      { device := Config.unhidden (get "MURMUR_OUTPUT_DEVICE") file.audio.device
        sampleRate := Config.unhidden (get "MURMUR_SAMPLE_RATE") file.audio.sampleRate } }

theorem mapError_eq_ok_iff {ε ε' α : Type} {x : Except ε α} {f : ε → ε'} {a : α} :
    x.mapError f = .ok a ↔ x = .ok a := by
  cases x with
  | ok b =>
    change (.ok b : Except ε' α) = .ok a ↔ _
    rw [Except.ok.injEq, Except.ok.injEq]
  | error e => exact iff_of_false nofun nofun

theorem ite_eq_ok_iff {ε α : Type} {p : Prop} [Decidable p] {e : ε} {a b : α} :
    (if p then .ok a else .error e) = (.ok b : Except ε α) ↔ p ∧ a = b := by
  split
  · rename_i hp
    rw [Except.ok.injEq, and_iff_right hp]
  · rename_i hp
    exact iff_of_false nofun fun h => hp h.1

theorem applyText_some_iff {id raw : String} :
    applyText id (some raw) s = .ok t ↔ s.setText .builtin id raw.toList = .ok t :=
  mapError_eq_ok_iff

/-- A percentage is set to the first value that is there, if this is one; the default is there
from the beginning. -/
theorem applyText_percent_iff (setting : Setting) (typed : Option String) (given : Option Nat)
    (hkind : setting.kind .builtin = .percent) (hdefault : default ≤ 100)
    (hvalue : setting.value s = .percent default) :
    applyText setting.id (typed <|> given.map toString) s = .ok t ↔
      ∃ n, n ≤ 100 ∧ (Quantity.first typed given default).Denotes n ∧
        setting.write s (.percent n) = t := by
  cases typed with
  | some raw => exact applyText_some_iff.trans (VoiceSettings.setText_percent_iff hkind)
  | none =>
    cases given with
    | some m =>
      change applyText setting.id (some (toString m)) s = .ok t ↔ _
      rw [applyText_some_iff, VoiceSettings.setText_percent_iff hkind]
      simp only [Text.denotes_trim_toString_iff]
      rfl
    | none =>
      -- The default is not read or checked; to write it where it is already changes nothing.
      change Except.ok s = .ok t ↔ _
      rw [Except.ok.injEq]
      constructor
      · rintro rfl
        refine ⟨default, hdefault, rfl, ?_⟩
        rw [← hvalue, Setting.write_value]
      · rintro ⟨n, -, hn, hwrite⟩
        obtain rfl : n = default := hn
        rw [← hwrite, ← hvalue, Setting.write_value]

theorem applyText_voice_iff {name : Option String} :
    applyText "voice" name (.defaults .builtin) = .ok t ↔
      let raw := name.getD ({} : Config).voice.voice
      let spoken := String.ofList ((Text.trim raw.toList).map Char.toLower)
      spoken ∈ VoiceTable.builtin.names ∧ { voice := spoken } = t := by
  have hdefaults : VoiceSettings.defaults .builtin = {} := VoiceSettings.defaults_eq .builtin
  rw [hdefaults]
  cases name with
  | some raw =>
    have hkind : Setting.voice.kind .builtin = .choice VoiceTable.builtin.names := rfl
    exact applyText_some_iff.trans (VoiceSettings.setText_choice_iff hkind)
  | none =>
    have hname : String.ofList ((Text.trim "adam".toList).map Char.toLower) = "adam" := by decide
    have hlisted : "adam" ∈ VoiceTable.builtin.names := by decide
    rw [applyText, Except.ok.injEq, Option.getD_none]
    dsimp only
    rw [hname]
    exact (and_iff_right hlisted).symm

theorem resolveVoice_eq_ok_iff : resolveVoice file.voice (.ofLookup get) = .ok s ↔
    let e := effective file get
    e.voiceName ∈ VoiceTable.builtin.names ∧ ∃ rate pitch inflection volume,
      (rate ≤ 100 ∧ e.rate.Denotes rate) ∧ (pitch ≤ 100 ∧ e.pitch.Denotes pitch) ∧
      (inflection ≤ 100 ∧ e.inflection.Denotes inflection) ∧
      (volume ≤ 100 ∧ e.volume.Denotes volume) ∧
      s = ⟨e.voiceName, rate, pitch, inflection, volume, e.pauseMode⟩ := by
  have hrate {s t : VoiceSettings} (hs : s.rate = 50) := applyText_percent_iff (t := t) .rate
    (get "MURMUR_RATE") file.voice.rate rfl (by decide) (congrArg SettingValue.percent hs)
  have hpitch {s t : VoiceSettings} (hs : s.pitch = 50) := applyText_percent_iff (t := t) .pitch
    (get "MURMUR_PITCH") file.voice.pitch rfl (by decide) (congrArg SettingValue.percent hs)
  have hinflection {s t : VoiceSettings} (hs : s.inflection = 60) := applyText_percent_iff (t := t)
    .inflection none file.voice.inflection rfl (by decide) (congrArg SettingValue.percent hs)
  have hvolume {s t : VoiceSettings} (hs : s.volume = 100) := applyText_percent_iff (t := t)
    .volume none file.voice.volume rfl (by decide) (congrArg SettingValue.percent hs)
  simp only [resolveVoice, bind_eq_ok_iff]
  constructor
  · rintro ⟨s₁, h₁, s₂, h₂, s₃, h₃, s₄, h₄, s₅, h₅, h⟩
    obtain ⟨hlisted, rfl⟩ := applyText_voice_iff.mp h₁
    obtain ⟨rate, hle₂, hdenotes₂, rfl⟩ := (hrate rfl).mp h₂
    obtain ⟨pitch, hle₃, hdenotes₃, rfl⟩ := (hpitch rfl).mp h₃
    obtain ⟨inflection, hle₄, hdenotes₄, rfl⟩ := (hinflection rfl).mp h₄
    obtain ⟨volume, hle₅, hdenotes₅, rfl⟩ := (hvolume rfl).mp h₅
    exact ⟨hlisted, rate, pitch, inflection, volume, ⟨hle₂, hdenotes₂⟩, ⟨hle₃, hdenotes₃⟩,
      ⟨hle₄, hdenotes₄⟩, ⟨hle₅, hdenotes₅⟩, (Except.ok.inj h).symm⟩
  · rintro ⟨hlisted, rate, pitch, inflection, volume, ⟨hle₂, hdenotes₂⟩, ⟨hle₃, hdenotes₃⟩,
      ⟨hle₄, hdenotes₄⟩, ⟨hle₅, hdenotes₅⟩, rfl⟩
    exact ⟨_, applyText_voice_iff.mpr ⟨hlisted, rfl⟩,
      _, (hrate rfl).mpr ⟨rate, hle₂, hdenotes₂, rfl⟩,
      _, (hpitch rfl).mpr ⟨pitch, hle₃, hdenotes₃, rfl⟩,
      _, (hinflection rfl).mpr ⟨inflection, hle₄, hdenotes₄, rfl⟩,
      _, (hvolume rfl).mpr ⟨volume, hle₅, hdenotes₅, rfl⟩, rfl⟩

theorem resolveSampleRate_eq_ok_iff {given : Option Nat} {typed : Option String} :
    resolveSampleRate given typed = .ok n ↔
      (Quantity.first typed given ({} : Config).sampleRate).Denotes n ∧ 8000 ≤ n ∧ n ≤ 192000 := by
  have hrange (m : Nat) : (if minSampleRate ≤ m ∧ m ≤ maxSampleRate then .ok m
      else .error (Error.config (.sampleRateRange m))) = Except.ok n ↔
        n = m ∧ 8000 ≤ n ∧ n ≤ 192000 := by
    rw [ite_eq_ok_iff]
    constructor
    · rintro ⟨hm, rfl⟩
      exact ⟨rfl, hm⟩
    · rintro ⟨rfl, hn⟩
      exact ⟨hn, rfl⟩
  cases typed with
  | none =>
    cases given with
    | none => exact hrange 24000
    | some m => exact hrange m
  | some raw =>
    simp only [resolveSampleRate, bind_eq_ok_iff, mapError_eq_ok_iff, Text.readNumeral_eq_ok_iff]
    constructor
    · rintro ⟨m, ⟨hdenotes, -⟩, hm⟩
      obtain ⟨rfl, hn⟩ := (hrange m).mp hm
      exact ⟨hdenotes, hn⟩
    · rintro ⟨hdenotes, hn⟩
      have hword : n ≤ wordMax := Nat.le_trans hn.2 (by decide)
      exact ⟨n, ⟨hdenotes, hword⟩, (hrange n).mpr ⟨rfl, hn⟩⟩

theorem resolveDevice_eq_some_iff {given typed : Option String} {name : String} :
    resolveDevice given typed = some name ↔
      (typed <|> given) = some name ∧ Text.allBlank name.toList = false := by
  rw [resolveDevice, Option.filter_eq_some_iff, Bool.not_eq_true']

/-- A configuration comes about of values that can be used only, and holds them. -/
theorem effective_of_resolve (h : resolve file (.ofLookup get) = .ok c) :
    (effective file get).IsSound ∧ (effective file get).IsHeldBy c := by
  simp only [resolve, bind_eq_ok_iff, resolveVoice_eq_ok_iff, resolveSampleRate_eq_ok_iff] at h
  obtain ⟨_, ⟨hlisted, rate, pitch, inflection, volume, hrate, hpitch, hinflection, hvolume, rfl⟩,
    sampleRate, ⟨hsampleRate, hrange⟩, h⟩ := h
  split at h
  · cases h
  · rename_i hpositive
    obtain ⟨hchunk, htimeout⟩ := not_or.mp hpositive
    obtain rfl := Except.ok.inj h
    refine ⟨⟨hlisted, ⟨rate, hrate⟩, ⟨pitch, hpitch⟩, ⟨inflection, hinflection⟩, ⟨volume, hvolume⟩,
      ⟨sampleRate, hsampleRate, hrange⟩, ?_, ?_⟩, ?_⟩
    · exact Nat.pos_of_ne_zero hchunk
    · exact Nat.pos_of_ne_zero htimeout
    · exact ⟨rfl, hrate.2, hpitch.2, hinflection.2, hvolume.2, rfl,
        fun _ => resolveDevice_eq_some_iff, hsampleRate, rfl, rfl, rfl, rfl⟩

theorem exists_resolve_of_isSound (h : (effective file get).IsSound) :
    ∃ c, resolve file (.ofLookup get) = .ok c := by
  obtain ⟨rate, hrate⟩ := h.rate
  obtain ⟨pitch, hpitch⟩ := h.pitch
  obtain ⟨inflection, hinflection⟩ := h.inflection
  obtain ⟨volume, hvolume⟩ := h.volume
  obtain ⟨sampleRate, hsampleRate⟩ := h.sampleRate
  have hvoice := resolveVoice_eq_ok_iff.mpr
    ⟨h.voice, rate, pitch, inflection, volume, hrate, hpitch, hinflection, hvolume, rfl⟩
  have hrange := resolveSampleRate_eq_ok_iff.mpr hsampleRate
  simp only [resolve, bind_eq_ok_iff]
  refine ⟨_, _, hvoice, _, hrange, if_neg ?_⟩
  rintro (hchunk | htimeout)
  · exact Nat.ne_of_gt h.chunkMs hchunk
  · exact Nat.ne_of_gt h.framesReadyTimeoutMs htimeout

theorem validate_of_effective {e : Effective} (hsound : e.IsSound) (hheld : e.IsHeldBy c) :
    c.voice.validate .builtin = .ok () := by
  rw [VoiceSettings.validate_eq_ok_iff, hheld.voice]
  exact ⟨hsound.voice, hsound.rate.le hheld.rate, hsound.pitch.le hheld.pitch,
    hsound.inflection.le hheld.inflection, hsound.volume.le hheld.volume⟩

theorem Effective.IsHeldBy.unique {e : Effective} {d : Config} (hc : e.IsHeldBy c)
    (hd : e.IsHeldBy d) : c = d := by
  have hdevice : c.device = d.device := by
    apply Option.ext
    intro name
    rw [hc.device, hd.device]
  have hvoice := hc.voice.trans hd.voice.symm
  have hmode := hc.pauseMode.trans hd.pauseMode.symm
  have hlimits := hc.limits.trans hd.limits.symm
  have htimeout := hc.framesReadyTimeoutMs.trans hd.framesReadyTimeoutMs.symm
  have hjoin := hc.joinTimeoutMs.trans hd.joinTimeoutMs.symm
  have hchunk := hc.chunkMs.trans hd.chunkMs.symm
  have hrate := hc.rate.unique hd.rate
  have hpitch := hc.pitch.unique hd.pitch
  have hinflection := hc.inflection.unique hd.inflection
  have hvolume := hc.volume.unique hd.volume
  have hsampleRate := hc.sampleRate.unique hd.sampleRate
  obtain ⟨⟨_, _, _, _, _, _⟩, _, _, _, _, _, _⟩ := c
  obtain ⟨⟨_, _, _, _, _, _⟩, _, _, _, _, _, _⟩ := d
  simp only at *
  subst_vars
  rfl

theorem orElse_map_unhidden {α β : Type} (hider : Option β) (value : Option α) (f : α → β) :
    (hider <|> (unhidden hider value).map f) = (hider <|> value.map f) := by
  cases hider <;> rfl

theorem orElse_unhidden {α : Type} (hider value : Option α) :
    (hider <|> unhidden hider value) = (hider <|> value) := by
  cases hider <;> rfl

theorem resolve_unhidden (file : File) (get : String → Option String) :
    resolve (file.unhidden get) (.ofLookup get) = resolve file (.ofLookup get) := by
  have hvoice : resolveVoice (file.unhidden get).voice (.ofLookup get) =
      resolveVoice file.voice (.ofLookup get) := by
    simp only [resolveVoice, File.unhidden, Environment.ofLookup, orElse_unhidden,
      orElse_map_unhidden]
  have hsampleRate : resolveSampleRate (file.unhidden get).audio.sampleRate
      (Environment.ofLookup get).sampleRate =
        resolveSampleRate file.audio.sampleRate (Environment.ofLookup get).sampleRate := by
    simp only [File.unhidden, Environment.ofLookup]
    cases get "MURMUR_SAMPLE_RATE" <;> rfl
  have hdevice : resolveDevice (file.unhidden get).audio.device
      (Environment.ofLookup get).device =
        resolveDevice file.audio.device (Environment.ofLookup get).device := by
    simp only [resolveDevice, File.unhidden, Environment.ofLookup, orElse_unhidden]
  rw [resolve, hvoice, hsampleRate, hdevice]
  rfl

/-- A configuration comes about if and only if the first values that are there can be used; it then
holds just these, and its voice settings are valid. Values that the environment hides might as well
not be there. -/
theorem first_values_count (file : File) (get : String → Option String) :
    let e := effective file get
    let env := Environment.ofLookup get
    ((∃ c, resolve file env = .ok c) ↔ e.IsSound) ∧
    (∀ c, resolve file env = .ok c ↔ e.IsSound ∧ e.IsHeldBy c) ∧
    (∀ c, resolve file env = .ok c → c.voice.validate .builtin = .ok ()) ∧
    resolve (file.unhidden get) env = resolve file env := by
  intro e env
  refine ⟨⟨?_, exists_resolve_of_isSound⟩, fun c => ⟨effective_of_resolve, ?_⟩, ?_,
    resolve_unhidden file get⟩
  · rintro ⟨c, h⟩
    exact (effective_of_resolve h).1
  · rintro ⟨hsound, hheld⟩
    obtain ⟨d, hd⟩ := exists_resolve_of_isSound hsound
    obtain rfl := hheld.unique (effective_of_resolve hd).2
    exact hd
  · intro c h
    obtain ⟨hsound, hheld⟩ := effective_of_resolve h
    exact validate_of_effective hsound hheld

/-- A voice, a rate, a sample rate and a device that would not do or are not wanted, all hidden. -/
theorem first_values_count_hidden :
    let file : File :=
      { voice := { voice := some "nobody", rate := some 200, volume := some 7 }
        audio := { device := some "usb", sampleRate := some 7 }
        pipeline := { chunkMs := some 5 } }
    let get := fun name => [("MURMUR_VOICE", " Caleb"), ("MURMUR_RATE", "+007 "),
      ("MURMUR_SAMPLE_RATE", "0016000"), ("MURMUR_OUTPUT_DEVICE", " ")].lookup name
    let c : Config :=
      { voice := { voice := "caleb", rate := 7, volume := 7 }, sampleRate := 16000, chunkMs := 5 }
    resolve file (.ofLookup get) = .ok c ∧ c.voice.validate .builtin = .ok () ∧
      (effective file get).IsHeldBy c := by
  intro file get c
  have hresolve : resolve file (.ofLookup get) = .ok c := by rfl
  obtain ⟨-, hiff, hvalid, -⟩ := first_values_count file get
  exact ⟨hresolve, hvalid c hresolve, ((hiff c).mp hresolve).2⟩

end Elocution.Config
