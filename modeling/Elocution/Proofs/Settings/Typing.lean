import Mathlib
import Elocution.Proofs.Settings.Editing
import Elocution.Proofs.Text.Squeeze

/-!
# Settings as they are typed

A percentage is taken in every spelling that denotes it, and a text that denotes none is refused.
A name is looked up in lower case and without the blanks around it. The modes have names in that
form, but the voices of a table have the names that they were given: a voice can be typed back as
it is shown if and only if its name is plain.
-/

namespace Elocution

namespace Text

variable {s : List Char} {c : Char}

theorem toLower_of_not_isUpper (h : c.isUpper = false) : c.toLower = c := by
  rw [Char.isUpper, decide_eq_false_iff_not] at h
  exact dif_neg h

theorem not_isUpper_toLower (c : Char) : c.toLower.isUpper = false := by
  simp only [Char.toLower, Char.isUpper]
  split
  · rename_i h
    simp only [ge_iff_le, UInt32.le_iff_toNat_le] at h ⊢
    simp at h ⊢
    omega
  · rename_i h
    exact decide_eq_false h

/-- There are no blanks around the text and no capitals in it. -/
def IsPlain (s : List Char) : Prop := trim s = s ∧ ∀ c ∈ s, c.isUpper = false

/-- Plain texts, and no others, are the same in lower case and without the blanks around them. -/
theorem map_toLower_trim_eq_self_iff : (trim s).map Char.toLower = s ↔ IsPlain s := by
  constructor
  · intro h
    have hlength : (trim s).length = s.length := by
      rw [← List.length_map Char.toLower, h]
    refine ⟨(trim_sublist s).eq_of_length hlength, fun c hc => ?_⟩
    rw [← h] at hc
    obtain ⟨d, -, rfl⟩ := List.mem_map.1 hc
    exact not_isUpper_toLower d
  · rintro ⟨htrim, hupper⟩
    rw [htrim, List.map_congr_left fun c hc => toLower_of_not_isUpper (hupper c hc), List.map_id']

end Text

namespace Setting

variable {voices : VoiceTable} {setting : Setting} {n : Nat} {raw : List Char}

/-- A number beyond a hundred is refused, as out of range if a byte can hold it. -/
theorem enter_percent_of_lt (hkind : setting.kind voices = .percent) (s : VoiceSettings)
    (hdenotes : Text.Denotes (Text.trim raw) n) (hn : 100 < n) :
    s.setText voices setting.id raw =
      .error (if n ≤ 255 then .notPercent setting.id n else .numeral setting.id .tooLarge) := by
  have hrequire : Setting.require setting.id = .ok setting := require_eq_ok_iff.2 rfl
  by_cases hbyte : n ≤ 255
  · have hparse : setting.parse voices raw = .ok (.percent n) :=
      (parse_percent_iff hkind).2 ⟨n, hbyte, hdenotes, rfl⟩
    have hcheck : setting.check voices (.percent n) = .error (.notPercent setting.id n) := by
      simp only [check, hkind]
      exact if_neg (by omega)
    simp only [VoiceSettings.setText, VoiceSettings.set, hrequire, hparse, hcheck, bind,
      Except.bind, if_pos hbyte]
  · have hparse : setting.parse voices raw = .error (.numeral setting.id .tooLarge) := by
      rw [parse, hkind, hdenotes.readNumeral_of_lt (by omega)]
    simp only [VoiceSettings.setText, hrequire, hparse, bind, Except.bind, if_neg hbyte]

end Setting

namespace VoiceSettings

open Setting

variable {voices : VoiceTable} {s t : VoiceSettings} {setting : Setting} {raw : List Char}

/-! ## Percentages -/

/-- The settings that are percentages. -/
def percentages : List Setting := [.rate, .pitch, .inflection, .volume]

theorem kind_of_mem_percentages (h : setting ∈ percentages) (voices : VoiceTable) :
    setting.kind voices = .percent := by
  cases setting <;> first | rfl | simp [percentages] at h

/-- A percentage is taken if what is typed, less the blanks around it, is a numeral for a number up
to a hundred, whatever zeros it begins with. That number is then what the setting holds, and all
other settings are as they were. All else is refused and changes nothing; a numeral for a greater
number is refused for being too great. -/
theorem percentages_typed (h : setting ∈ percentages) (voices : VoiceTable) (s : VoiceSettings)
    (raw : List Char) :
    let (answer, t) := s.edit voices (setting.id, .text raw)
    (answer = .ok () ↔ ∃ n ≤ 100, Text.Denotes (Text.trim raw) n) ∧
      (answer = .ok () → ∀ n, Text.Denotes (Text.trim raw) n →
        t.get setting.id = .ok (.percent n) ∧ ∀ other ≠ setting.id, t.get other = s.get other) ∧
      (answer ≠ .ok () → t = s) ∧
      ∀ n, Text.Denotes (Text.trim raw) n → 100 < n → answer =
        .error (if n ≤ 255 then .notPercent setting.id n else .numeral setting.id .tooLarge) := by
  have hkind := kind_of_mem_percentages h voices
  cases henter : s.enter voices setting.id (.text raw) with
  | ok t =>
    obtain ⟨m, hm, hdenotes, hwrite⟩ := (setText_percent_iff hkind).1 henter
    rw [edit_of_ok henter]
    refine ⟨iff_of_true rfl ⟨m, hm, hdenotes⟩, ?_, fun hno => absurd rfl hno, ?_⟩
    · intro _ n hn
      obtain rfl := hn.unique hdenotes
      refine ⟨?_, (get_enter henter).2⟩
      rw [← hwrite, get_id, value_write ((allows_percent_iff hkind).2 hm)]
    · intro n hn hgreat
      obtain rfl := hn.unique hdenotes
      omega
  | error fault =>
    have hrefused : (.error fault : Except SettingFault Unit) ≠ .ok () := nofun
    rw [edit_of_error henter]
    refine ⟨iff_of_false hrefused ?_, fun hok => absurd hok hrefused, fun _ => rfl, ?_⟩
    · rintro ⟨n, hn, hdenotes⟩
      have htaken := (setText_percent_iff (s := s) hkind).2 ⟨n, hn, hdenotes, rfl⟩
      cases henter.symm.trans htaken
    · intro n hn hgreat
      have hfault := enter_percent_of_lt hkind s hn hgreat
      rw [Except.error.inj (henter.symm.trans hfault)]

/-- Zeros and a sign ahead of a hundred, blanks around it; and the number after it. -/
theorem percentages_typed_padded :
    let s : VoiceSettings := {}
    let (taken, t) := s.edit .builtin ("rate", .text [' ', '+', '0', '0', '0', '1', '0', '0', '\n'])
    let (refused, u) := s.edit .builtin ("volume", .text ['1', '0', '1'])
    Setting.rate ∈ percentages ∧ taken = .ok () ∧ t.get "rate" = .ok (.percent 100) ∧
      t.get "volume" = s.get "volume" ∧ Setting.volume ∈ percentages ∧
      refused = .error (.notPercent "volume" 101) ∧ u = s := by
  intro s
  have hrate : Setting.rate ∈ percentages := by decide
  have hvolume : Setting.volume ∈ percentages := by decide
  have hhundred : Text.Denotes ['+', '0', '0', '0', '1', '0', '0'] 100 :=
    ⟨_, .inr rfl, by decide, List.all_eq_true.mp rfl, by decide⟩
  have hmore : Text.Denotes ['1', '0', '1'] 101 :=
    ⟨_, .inl rfl, by decide, List.all_eq_true.mp rfl, by decide⟩
  obtain ⟨htaken, hholds, -⟩ := percentages_typed hrate .builtin s
    [' ', '+', '0', '0', '0', '1', '0', '0', '\n']
  obtain ⟨-, -, hsame, hgreat⟩ := percentages_typed hvolume .builtin s ['1', '0', '1']
  have hok := htaken.2 ⟨100, Nat.le_refl 100, hhundred⟩
  obtain ⟨hget, hothers⟩ := hholds hok 100 hhundred
  have hfault := hgreat 101 hmore (by decide)
  refine ⟨hrate, hok, hget, hothers "volume" (by decide), hvolume, hfault, hsame ?_⟩
  rw [hfault]
  nofun

/-! ## Typing back -/

/-- A setting is typed just as it is shown. -/
def retype (voices : VoiceTable) (s : VoiceSettings) (id : String) :
    Except SettingFault VoiceSettings := do
  let value ← s.get id
  s.setText voices id value.shown.toList

theorem retype_id (voices : VoiceTable) (s : VoiceSettings) (setting : Setting) :
    s.retype voices setting.id =
      s.setText voices setting.id (setting.value s).shown.toList := by
  rw [retype, get_id]
  rfl

theorem retype_percent (h : setting ∈ percentages) (hs : s.validate voices = .ok ()) :
    s.retype voices setting.id = .ok s := by
  have hkind := kind_of_mem_percentages h voices
  have hallows := validate_eq_ok_iff_allows.1 hs setting
  obtain ⟨n, hn⟩ : ∃ n, setting.value s = .percent n := by
    cases setting <;> first | exact ⟨_, rfl⟩ | simp [percentages] at h
  rw [hn, allows_percent_iff hkind] at hallows
  rw [retype_id, setText_percent_iff hkind, hn]
  refine ⟨n, hallows, Text.denotes_trim_toString_iff.2 rfl, ?_⟩
  rw [← hn, write_value]

theorem retype_pauseMode (voices : VoiceTable) (s : VoiceSettings) :
    s.retype voices Setting.pauseMode.id = .ok s := by
  have hplain : Text.IsPlain s.pauseMode.name.toList := by
    cases s.pauseMode <;> exact Text.map_toLower_trim_eq_self_iff.1 (by decide)
  rw [retype_id, setText_choice_iff rfl]
  dsimp only [Setting.value, SettingValue.shown]
  rw [Text.map_toLower_trim_eq_self_iff.2 hplain, String.ofList_toList]
  exact ⟨mem_pauseModes_iff.2 ⟨_, rfl⟩, write_value s .pauseMode⟩

/-- A voice answers to its own name if that is plain; otherwise to what is typed another voice
answers or none. -/
theorem setText_voice_iff {name : String} :
    s.setText voices Setting.voice.id name.toList = .ok { s with voice := name } ↔
      name ∈ voices.names ∧ Text.IsPlain name.toList := by
  rw [setText_choice_iff rfl, ← Text.map_toLower_trim_eq_self_iff]
  constructor
  · rintro ⟨hmem, hwrite⟩
    have hname := congrArg VoiceSettings.voice hwrite
    dsimp only [write, SettingValue.shown] at hname
    rw [hname] at hmem
    exact ⟨hmem, String.ofList_injective (hname.trans String.ofList_toList.symm)⟩
  · rintro ⟨hmem, hplain⟩
    rw [hplain, String.ofList_toList]
    exact ⟨hmem, rfl⟩

/-- Valid settings can be typed back as they are shown, each of them, and are then as they were; a
voice, however, if and only if its name is plain. So it is with the choice of any voice of the table
by its name. -/
theorem retyped_iff (hs : s.validate voices = .ok ()) :
    (∀ setting : Setting, s.retype voices setting.id = .ok s ↔
        (setting = .voice → Text.IsPlain s.voice.toList)) ∧
      ∀ name ∈ voices.names,
        s.setText voices Setting.voice.id name.toList = .ok { s with voice := name } ↔
          Text.IsPlain name.toList := by
  have hvoice : s.voice ∈ voices.names := (validate_eq_ok_iff.1 hs).1
  constructor
  · intro setting
    cases setting with
    | voice =>
      rw [retype_id]
      change s.setText voices Setting.voice.id s.voice.toList = .ok { s with voice := s.voice } ↔ _
      rw [setText_voice_iff, and_iff_right hvoice]
      exact ⟨fun h _ => h, fun h => h rfl⟩
    | pauseMode => exact iff_of_true (retype_pauseMode voices s) nofun
    | _ => exact iff_of_true (retype_percent (by decide) hs) nofun
  · intro name hname
    rw [setText_voice_iff, and_iff_right hname]

/-- The voices that are always there have plain names. -/
theorem retyped_iff_builtin :
    let s : VoiceSettings := { voice := "caleb", rate := 7, pauseMode := .long }
    s.validate .builtin = .ok () ∧ s.retype .builtin "voice" = .ok s ∧
      s.retype .builtin "rate" = .ok s ∧
      s.setText .builtin "voice" ['d', 'a', 'v', 'i', 'd'] = .ok { s with voice := "david" } := by
  intro s
  have hs : s.validate .builtin = .ok () := validate_eq_ok_iff.2 (by decide +kernel)
  have hplain : ∀ name ∈ VoiceTable.builtin.names, Text.IsPlain name.toList := by
    simp only [← Text.map_toLower_trim_eq_self_iff]
    decide +kernel
  obtain ⟨hretyped, hchosen⟩ := retyped_iff hs
  have hdavid : "david" ∈ VoiceTable.builtin.names := by decide +kernel
  exact ⟨hs, (hretyped .voice).2 fun _ => hplain "caleb" (by decide +kernel),
    (hretyped .rate).2 nofun, (hchosen "david" hdavid).2 (hplain "david" hdavid)⟩

/-- A voice with a capital does not answer to its name, though it is the one in use. -/
theorem capital_not_retyped :
    let voices := VoiceTable.ofRows "Adam" ⟨110, 40, 85, 45⟩ []
    let s := defaults voices
    s.validate voices = .ok () ∧ s.voice = "Adam" ∧
      s.retype voices "voice" = .error (.notListed "voice" ["Adam"] "adam") :=
  ⟨rfl, rfl, rfl⟩

end VoiceSettings

end Elocution
