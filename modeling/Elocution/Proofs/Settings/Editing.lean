import Elocution.Proofs.Text.Numerals
import Elocution.Settings.Registry

/-!
# Settings under editing

Values are set by identifier, as they are or as they are typed. An entry is taken if the setting
exists and allows the value; it is then what the setting holds, all others are as they were, and
the settings stay valid however many entries are made.
-/

namespace Elocution

/-! ## Tables of voices -/

namespace VoiceTable

/-- A table that starts with one voice, the default, to which others are added in turn. -/
def ofRows (name : String) (voice : Voice) (more : List (String × Voice)) : VoiceTable :=
  more.foldl (fun t row => t.insert row.1 row.2) (single name voice)

theorem mem_names_insertEntry_iff {name other : String} {voice : Voice}
    {entries : List (String × Voice)} :
    other ∈ (insertEntry name voice entries).map Prod.fst ↔
      other = name ∨ other ∈ entries.map Prod.fst := by
  induction entries with
  | nil => rw [insertEntry, List.map_singleton, List.mem_singleton, List.map_nil,
      or_iff_left List.not_mem_nil]
  | cons entry rest ih =>
    obtain ⟨first, v⟩ := entry
    rw [insertEntry]
    split
    · simp only [List.map_cons, List.mem_cons]
    · split
      · rename_i heq
        subst heq
        simp only [List.map_cons, List.mem_cons, or_self_left]
      · simp only [List.map_cons, List.mem_cons, ih]
        exact or_left_comm

theorem default_mem_names (name : String) (voice : Voice) (more : List (String × Voice)) :
    (ofRows name voice more).defaultName ∈ (ofRows name voice more).names := by
  have hfold : ∀ t : VoiceTable, t.defaultName ∈ t.names →
      (more.foldl (fun t row => t.insert row.1 row.2) t).defaultName ∈
        (more.foldl (fun t row => t.insert row.1 row.2) t).names := by
    induction more with
    | nil => exact fun _ h => h
    | cons row rest ih =>
      intro t h
      exact ih (t.insert row.1 row.2) (mem_names_insertEntry_iff.mpr (.inr h))
  exact hfold (single name voice) (List.mem_singleton.mpr rfl)

end VoiceTable

/-! ## Single settings -/

namespace Setting

variable {voices : VoiceTable} {setting other : Setting} {value : SettingValue}
  {s : VoiceSettings} {id : String}

/-- A setting allows the names of its list, or the numbers up to 100. -/
def Allows (voices : VoiceTable) : Setting → SettingValue → Prop
  | .voice, .choice name => name ∈ voices.names
  | .voice, .percent _ => False
  | .pauseMode, .choice name => ∃ mode : PauseMode, mode.name = name
  | .pauseMode, .percent _ => False
  | _, .percent n => n ≤ 100
  | _, .choice _ => False

theorem mem_pauseModes_iff {name : String} :
    name ∈ PauseMode.all.map PauseMode.name ↔ ∃ mode : PauseMode, mode.name = name := by
  constructor
  · intro h
    obtain ⟨mode, -, hmode⟩ := List.mem_map.mp h
    exact ⟨mode, hmode⟩
  · rintro ⟨mode, rfl⟩
    cases mode <;> decide

theorem check_eq_ok_iff : setting.check voices value = .ok () ↔ setting.Allows voices value := by
  cases setting <;> cases value <;>
    simp [check, kind, Allows, ← mem_pauseModes_iff]

theorem ofId?_eq_some_iff : ofId? id = some setting ↔ setting.id = id := by
  constructor
  · intro h
    simpa using List.find?_some h
  · rintro rfl
    cases setting <;> decide

theorem id_injective : Function.Injective Setting.id := by
  intro setting other h
  exact Option.some.inj ((ofId?_eq_some_iff.mpr rfl).symm.trans (ofId?_eq_some_iff.mpr h.symm))

theorem require_eq_ok_iff : require id = .ok setting ↔ setting.id = id := by
  rw [← ofId?_eq_some_iff, require]
  cases ofId? id <;> simp

theorem ofName?_name (mode : PauseMode) : PauseMode.ofName? mode.name.toList = some mode := by
  cases mode <;> rfl

theorem value_write (h : setting.Allows voices value) :
    setting.value (setting.write s value) = value := by
  cases setting <;> cases value <;> simp [Allows] at h <;>
    simp [write, Setting.value, SettingValue.shown, SettingValue.percentage]
  obtain ⟨mode, rfl⟩ := h
  rw [ofName?_name, Option.getD_some]

theorem value_write_of_ne (h : other ≠ setting) (value : SettingValue) :
    other.value (setting.write s value) = other.value s := by
  cases setting <;> cases other <;> first | rfl | exact absurd rfl h

theorem write_value (s : VoiceSettings) (setting : Setting) :
    setting.write s (setting.value s) = s := by
  cases setting with
  | pauseMode =>
    rw [write, Setting.value, SettingValue.shown, ofName?_name]
    rfl
  | _ => rfl

theorem allows_percent_iff {n : Nat} (hkind : setting.kind voices = .percent) :
    setting.Allows voices (.percent n) ↔ n ≤ 100 := by
  rw [← check_eq_ok_iff]
  simp [check, hkind]

theorem allows_choice_iff {names : List String} {name : String}
    (hkind : setting.kind voices = .choice names) :
    setting.Allows voices (.choice name) ↔ name ∈ names := by
  rw [← check_eq_ok_iff]
  simp [check, hkind]

theorem parse_percent_iff {raw : List Char} (hkind : setting.kind voices = .percent) :
    setting.parse voices raw = .ok value ↔
      ∃ n, n ≤ 255 ∧ Text.Denotes (Text.trim raw) n ∧ value = .percent n := by
  rw [parse, hkind]
  dsimp only
  constructor
  · split
    · rename_i n hread
      obtain ⟨hdenotes, hn⟩ := Text.readNumeral_eq_ok_iff.mp hread
      intro h
      exact ⟨n, hn, hdenotes, (Except.ok.inj h).symm⟩
    · nofun
  · rintro ⟨n, hn, hdenotes, rfl⟩
    rw [Text.readNumeral_eq_ok_iff.mpr ⟨hdenotes, hn⟩]

theorem mem_all (setting : Setting) : setting ∈ all := by
  cases setting <;> decide

end Setting

/-! ## All settings -/

/-- What is entered for a setting: a value, or a text that is read as one. -/
inductive Entry where
  | value (v : SettingValue)
  | text (raw : List Char)

def Entry.read (voices : VoiceTable) (setting : Setting) :
    Entry → Except SettingFault SettingValue
  | .value v => .ok v
  | .text raw => setting.parse voices raw

namespace VoiceSettings

open Setting

variable {voices : VoiceTable} {s t : VoiceSettings} {id : String} {entry : Entry}
  {value : SettingValue}

theorem bind_eq_ok_iff {ε α β : Type} {x : Except ε α} {f : α → Except ε β} {b : β} :
    (x >>= f) = .ok b ↔ ∃ a, x = .ok a ∧ f a = .ok b := by
  cases x <;> simp [bind, Except.bind]

theorem forM_eq_ok_iff {ε α : Type} {f : α → Except ε Unit} {xs : List α} :
    forM xs f = .ok () ↔ ∀ x ∈ xs, f x = .ok () := by
  induction xs with
  | nil => simp [pure, Except.pure]
  | cons x rest ih => cases h : f x <;> simp [bind, Except.bind, h, ih]

theorem validate_eq_ok_iff_allows :
    s.validate voices = .ok () ↔ ∀ setting : Setting, setting.Allows voices (setting.value s) := by
  rw [validate, List.forM_eq_forM, forM_eq_ok_iff]
  constructor
  · intro h setting
    exact check_eq_ok_iff.mp (h setting (mem_all setting))
  · intro h setting _
    exact check_eq_ok_iff.mpr (h setting)

theorem validate_eq_ok_iff :
    s.validate voices = .ok () ↔ s.voice ∈ voices.names ∧ s.rate ≤ 100 ∧ s.pitch ≤ 100 ∧
      s.inflection ≤ 100 ∧ s.volume ≤ 100 := by
  rw [validate_eq_ok_iff_allows]
  constructor
  · intro h
    exact ⟨h .voice, h .rate, h .pitch, h .inflection, h .volume⟩
  · rintro ⟨hvoice, hrate, hpitch, hinflection, hvolume⟩ setting
    cases setting with
    | voice => exact hvoice
    | rate => exact hrate
    | pitch => exact hpitch
    | inflection => exact hinflection
    | volume => exact hvolume
    | pauseMode => exact ⟨s.pauseMode, rfl⟩

def enter (voices : VoiceTable) (s : VoiceSettings) (id : String) :
    Entry → Except SettingFault VoiceSettings
  | .value v => s.set voices id v
  | .text raw => s.setText voices id raw

theorem set_eq_ok_iff : s.set voices id value = .ok t ↔
    ∃ setting : Setting, setting.id = id ∧ setting.Allows voices value ∧
      setting.write s value = t := by
  simp only [set, bind_eq_ok_iff, require_eq_ok_iff, pure, Except.pure, Except.ok.injEq]
  constructor
  · rintro ⟨setting, hid, ⟨⟩, hcheck, hwrite⟩
    exact ⟨setting, hid, check_eq_ok_iff.mp hcheck, hwrite⟩
  · rintro ⟨setting, hid, hallows, hwrite⟩
    exact ⟨setting, hid, (), check_eq_ok_iff.mpr hallows, hwrite⟩

/-- An entry is taken if there is such a setting and it allows what the entry is read as. -/
theorem enter_eq_ok_iff : s.enter voices id entry = .ok t ↔
    ∃ setting : Setting, ∃ value, setting.id = id ∧ entry.read voices setting = .ok value ∧
      setting.Allows voices value ∧ setting.write s value = t := by
  cases entry with
  | value v =>
    simp only [enter, set_eq_ok_iff, Entry.read, Except.ok.injEq]
    constructor
    · rintro ⟨setting, hid, h⟩
      exact ⟨setting, v, hid, rfl, h⟩
    · rintro ⟨setting, value, hid, rfl, h⟩
      exact ⟨setting, hid, h⟩
  | text raw =>
    simp only [enter, setText, bind_eq_ok_iff, set_eq_ok_iff, require_eq_ok_iff, Entry.read]
    constructor
    · rintro ⟨setting, hid, value, hread, other, hother, h⟩
      obtain rfl := id_injective (hother.trans hid.symm)
      exact ⟨other, value, hid, hread, h⟩
    · rintro ⟨setting, value, hid, hread, h⟩
      exact ⟨setting, hid, value, hread, setting, hid, h⟩

theorem setText_id_eq_ok_iff {setting : Setting} {raw : List Char} :
    s.setText voices setting.id raw = .ok t ↔ ∃ value, setting.parse voices raw = .ok value ∧
      setting.Allows voices value ∧ setting.write s value = t := by
  change s.enter voices setting.id (.text raw) = .ok t ↔ _
  rw [enter_eq_ok_iff]
  constructor
  · rintro ⟨other, value, hid, h⟩
    obtain rfl := id_injective hid
    exact ⟨value, h⟩
  · rintro ⟨value, h⟩
    exact ⟨setting, value, rfl, h⟩

/-- A text is taken for a percentage if it is a numeral for one, blanks around it aside. -/
theorem setText_percent_iff {setting : Setting} {raw : List Char}
    (hkind : setting.kind voices = .percent) :
    s.setText voices setting.id raw = .ok t ↔
      ∃ n, n ≤ 100 ∧ Text.Denotes (Text.trim raw) n ∧ setting.write s (.percent n) = t := by
  rw [setText_id_eq_ok_iff]
  constructor
  · rintro ⟨value, hparse, hallows, hwrite⟩
    obtain ⟨n, -, hdenotes, rfl⟩ := (parse_percent_iff hkind).mp hparse
    exact ⟨n, (allows_percent_iff hkind).mp hallows, hdenotes, hwrite⟩
  · rintro ⟨n, hn, hdenotes, hwrite⟩
    have hbyte : n ≤ 255 := by omega
    exact ⟨.percent n, (parse_percent_iff hkind).mpr ⟨n, hbyte, hdenotes, rfl⟩,
      (allows_percent_iff hkind).mpr hn, hwrite⟩

theorem setText_choice_iff {setting : Setting} {raw : List Char} {names : List String}
    (hkind : setting.kind voices = .choice names) :
    s.setText voices setting.id raw = .ok t ↔
      let name := String.ofList ((Text.trim raw).map Char.toLower)
      name ∈ names ∧ setting.write s (.choice name) = t := by
  simp only [setText_id_eq_ok_iff, parse, hkind, Except.ok.injEq, exists_eq_left',
    allows_choice_iff hkind]

theorem get_id (s : VoiceSettings) (setting : Setting) :
    s.get setting.id = .ok (setting.value s) := by
  rw [get, require_eq_ok_iff.mpr rfl]
  rfl

theorem get_eq_of_value_eq (h : ∀ setting : Setting, setting.id = id →
    setting.value t = setting.value s) : t.get id = s.get id := by
  by_cases hid : ∃ setting : Setting, setting.id = id
  · obtain ⟨setting, rfl⟩ := hid
    rw [get_id, get_id, h setting rfl]
  · cases hrequire : require id with
    | ok setting => exact absurd ⟨setting, require_eq_ok_iff.mp hrequire⟩ hid
    | error fault =>
      rw [get, get, hrequire]
      rfl

/-- What is entered is held, and nothing else changes. -/
theorem get_enter (h : s.enter voices id entry = .ok t) :
    (∃ setting : Setting, ∃ value, setting.id = id ∧ entry.read voices setting = .ok value ∧
      t.get id = .ok value) ∧ ∀ other ≠ id, t.get other = s.get other := by
  obtain ⟨setting, value, rfl, hread, hallows, rfl⟩ := enter_eq_ok_iff.mp h
  refine ⟨⟨setting, value, rfl, hread, ?_⟩, fun other hother => ?_⟩
  · rw [get_id, value_write hallows]
  · refine get_eq_of_value_eq fun otherSetting hid => value_write_of_ne ?_ value
    rintro rfl
    exact hother hid.symm

theorem validate_enter (h : s.enter voices id entry = .ok t) (hs : s.validate voices = .ok ()) :
    t.validate voices = .ok () := by
  obtain ⟨setting, value, -, -, hallows, rfl⟩ := enter_eq_ok_iff.mp h
  rw [validate_eq_ok_iff_allows] at hs ⊢
  intro other
  by_cases hother : other = setting
  · rw [hother, value_write hallows]
    exact hallows
  · rw [value_write_of_ne hother]
    exact hs other

theorem defaults_eq (voices : VoiceTable) :
    defaults voices = { voice := voices.defaultName } := by
  simp only [defaults, all, List.foldl_cons, List.foldl_nil, write, initial, Setting.value,
    SettingValue.shown, SettingValue.percentage, ofName?_name, Option.getD_some]

theorem validate_defaults (name : String) (voice : Voice) (more : List (String × Voice)) :
    (defaults (.ofRows name voice more)).validate (.ofRows name voice more) = .ok () := by
  rw [validate_eq_ok_iff, defaults_eq]
  refine ⟨VoiceTable.default_mem_names name voice more, ?_⟩
  simp

/-- The answer to an entry, and the settings after it. -/
def edit (voices : VoiceTable) (s : VoiceSettings) (e : String × Entry) :
    Except SettingFault Unit × VoiceSettings :=
  match s.enter voices e.1 e.2 with
  | .ok t => (.ok (), t)
  | .error fault => (.error fault, s)

def editAll (voices : VoiceTable) (s : VoiceSettings) (edits : List (String × Entry)) :
    VoiceSettings := edits.foldl (fun s e => (s.edit voices e).2) s

theorem edit_of_ok (h : s.enter voices id entry = .ok t) :
    s.edit voices (id, entry) = (.ok (), t) := by
  simp only [edit, h]

theorem edit_of_error {fault : SettingFault} (h : s.enter voices id entry = .error fault) :
    s.edit voices (id, entry) = (.error fault, s) := by
  simp only [edit, h]

theorem validate_edit (e : String × Entry) (hs : s.validate voices = .ok ()) :
    (s.edit voices e).2.validate voices = .ok () := by
  obtain ⟨id, entry⟩ := e
  cases h : s.enter voices id entry with
  | ok t =>
    rw [edit_of_ok h]
    exact validate_enter h hs
  | error fault =>
    rw [edit_of_error h]
    exact hs

theorem validate_editAll (edits : List (String × Entry)) (hs : s.validate voices = .ok ()) :
    (s.editAll voices edits).validate voices = .ok () := by
  induction edits generalizing s with
  | nil => exact hs
  | cons e rest ih => exact ih (validate_edit e hs)

/-- Settings that start with the defaults of a table of voices are valid after any entries. An
entry is taken if and only if there is such a setting and it allows what is entered; then the
setting holds just that and all others are as they were, and else nothing changes. Settings that
come about in another way are valid if and only if their voice is in the table and their numbers
are percentages. -/
theorem entries_keep_valid (name : String) (voice : Voice) (more : List (String × Voice))
    (edits : List (String × Entry)) :
    let voices := VoiceTable.ofRows name voice more
    let s := (defaults voices).editAll voices edits
    s.validate voices = .ok () ∧
    (∀ id entry, let (answer, t) := s.edit voices (id, entry)
      (answer = .ok () ↔ ∃ setting : Setting, ∃ value, setting.id = id ∧
        entry.read voices setting = .ok value ∧ setting.Allows voices value) ∧
      (answer = .ok () → (∃ setting : Setting, ∃ value, setting.id = id ∧
        entry.read voices setting = .ok value ∧ t.get id = .ok value) ∧
        ∀ other ≠ id, t.get other = s.get other) ∧
      (answer ≠ .ok () → t = s)) ∧
    ∀ t : VoiceSettings, t.validate voices = .ok () ↔
      t.voice ∈ voices.names ∧ t.rate ≤ 100 ∧ t.pitch ≤ 100 ∧ t.inflection ≤ 100 ∧
        t.volume ≤ 100 := by
  intro voices s
  refine ⟨validate_editAll edits (validate_defaults name voice more), fun id entry => ?_,
    fun t => validate_eq_ok_iff⟩
  cases h : s.enter voices id entry with
  | ok t =>
    obtain ⟨setting, value, hid, hread, hallows, -⟩ := enter_eq_ok_iff.mp h
    obtain ⟨hget, hothers⟩ := get_enter h
    rw [edit_of_ok h]
    refine ⟨?_, ?_, ?_⟩
    · exact iff_of_true rfl ⟨setting, value, hid, hread, hallows⟩
    · intro _
      exact ⟨hget, hothers⟩
    · intro hnot
      exact absurd rfl hnot
  | error fault =>
    have hrefused : (.error fault : Except SettingFault Unit) ≠ .ok () := nofun
    rw [edit_of_error h]
    refine ⟨?_, ?_, ?_⟩
    · refine iff_of_false hrefused ?_
      rintro ⟨setting, value, hid, hread, hallows⟩
      have htaken : s.enter voices id entry = .ok (setting.write s value) :=
        enter_eq_ok_iff.mpr ⟨setting, value, hid, hread, hallows, rfl⟩
      rw [h] at htaken
      cases htaken
    · intro hok
      exact absurd hok hrefused
    · intro _
      rfl

/-- Two typed entries and two that are refused, and then one of each kind. -/
theorem entries_keep_valid_typed :
    let voice : Voice := ⟨110, 40, 85, 45⟩
    let voices := VoiceTable.ofRows "adam" voice [("bea", voice)]
    let s := (defaults voices).editAll voices [("rate", .text [' ', '+', '0', '8']),
      ("volume", .value (.percent 101)), ("voice", .text ['B', 'e', 'a', ' ']),
      ("timbre", .value (.percent 5))]
    let (taken, t) := s.edit voices ("pause_mode", .value (.choice "long"))
    let (refused, u) := s.edit voices ("pitch", .value (.choice "long"))
    s = { voice := "bea", rate := 8 } ∧ s.validate voices = .ok () ∧
    taken = .ok () ∧ "rate" ≠ "pause_mode" ∧ t.get "rate" = s.get "rate" ∧
    refused ≠ .ok () ∧ u = s := by
  intro voice voices s
  obtain ⟨hvalid, hedit, -⟩ := entries_keep_valid "adam" voice [("bea", voice)]
    [("rate", .text [' ', '+', '0', '8']), ("volume", .value (.percent 101)),
      ("voice", .text ['B', 'e', 'a', ' ']), ("timbre", .value (.percent 5))]
  obtain ⟨-, htaken, -⟩ := hedit "pause_mode" (.value (.choice "long"))
  obtain ⟨-, -, hrefused⟩ := hedit "pitch" (.value (.choice "long"))
  have hs : s = { voice := "bea", rate := 8 } := by decide
  have hne : "rate" ≠ "pause_mode" := by decide
  have hok : (s.edit voices ("pause_mode", .value (.choice "long"))).1 = .ok () := rfl
  have hnot : (s.edit voices ("pitch", .value (.choice "long"))).1 ≠ .ok () := by
    have hkind : (s.edit voices ("pitch", .value (.choice "long"))).1 =
        .error (.wrongKind "pitch") := rfl
    rw [hkind]
    nofun
  exact ⟨hs, hvalid, hok, hne, (htaken hok).2 "rate" hne, hnot, hrefused hnot⟩

end VoiceSettings

end Elocution
