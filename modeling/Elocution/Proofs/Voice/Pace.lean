import Elocution.Proofs.Frame.Lasting
import Elocution.Proofs.Settings.Editing
import Elocution.Proofs.Voice.Spelling

/-!
# The pace of speech

How long letters, gaps and pauses are at most. Letters and blanks take time and nothing else of a
clause does, so a bound for one of them is a bound for the clause.
-/

namespace Elocution

namespace Text

/-- Whether a character is spoken, or is a gap. -/
def takesTime (c : Char) : Bool := isBlank c || isAlphanumeric c

end Text

namespace Voice

/-- At this speed no letter and no gap takes longer than `letter` milliseconds, and no pause longer
than `pause`. -/
structure Keeps (v : Voice) (mode : PauseMode) (speed : Float32) (letter pause : Nat) : Prop where
  letters : ∀ c, (v.letterDuration c / speed).isFinite = true ∧
    Single.value (v.letterDuration c / speed) ≤ letter
  gap : (wordGap / speed).isFinite = true ∧ Single.value (wordGap / speed) ≤ letter
  pauses : ∀ i ms, mode.pause? i = some ms → Single.value (ms / speed) ≤ pause

section Keeps

variable {v : Voice} {mode : PauseMode} {p : Prosody} {letter pause : Nat}

theorem Keeps.mono {speed : Float32} {letter' pause' : Nat} (h : v.Keeps mode speed letter pause)
    (hletter : letter ≤ letter') (hpause : pause ≤ pause') :
    v.Keeps mode speed letter' pause' where
  letters c := ⟨(h.letters c).1, (h.letters c).2.trans (Nat.cast_le.mpr hletter)⟩
  gap := ⟨h.gap.1, h.gap.2.trans (Nat.cast_le.mpr hletter)⟩
  pauses i ms hms := (h.pauses i ms hms).trans (Nat.cast_le.mpr hpause)

theorem Keeps.isFinite_letterFrames (h : v.Keeps mode p.speed letter pause)
    (intonation : Intonation) (count i : Nat) (text : List Char) :
    ∀ f ∈ v.letterFrames p intonation count i text, f.duration.isFinite = true := by
  induction text generalizing i with
  | nil => exact List.forall_mem_nil _
  | cons c rest ih =>
    rw [letterFrames]
    split
    · exact List.forall_mem_cons.mpr ⟨h.gap.1, ih i⟩
    · split
      · exact List.forall_mem_cons.mpr ⟨(h.letters c).1, ih (i + 1)⟩
      · exact ih i

theorem Keeps.lasting_letterFrames_le (h : v.Keeps mode p.speed letter pause)
    (intonation : Intonation) (count i : Nat) (text : List Char) :
    Frame.lasting (v.letterFrames p intonation count i text) ≤
      letter * text.countP Text.takesTime := by
  induction text generalizing i with
  | nil => exact (mul_zero _).ge
  | cons c rest ih =>
    rw [letterFrames, List.countP_cons]
    by_cases hblank : Text.isBlank c = true
    · have hgap := h.gap.2
      have hrest := ih i
      have htime : Text.takesTime c = true := by rw [Text.takesTime, hblank]; rfl
      rw [if_pos hblank, htime, if_pos rfl, Frame.lasting_cons]
      push_cast
      change Single.value (wordGap / p.speed) + _ ≤ _
      linarith
    · rw [if_neg hblank]
      by_cases hletter : Text.isAlphanumeric c = true
      · have hfirst := (h.letters c).2
        have hrest := ih (i + 1)
        have htime : Text.takesTime c = true := by rw [Text.takesTime, hletter, Bool.or_true]
        rw [if_pos hletter, htime, if_pos rfl, Frame.lasting_cons]
        push_cast
        change Single.value (v.letterDuration c / p.speed) + _ ≤ _
        linarith
      · have htime : Text.takesTime c = false := by simp [Text.takesTime, hblank, hletter]
        rw [if_neg hletter, htime, if_neg Bool.false_ne_true, Nat.add_zero]
        exact ih i

end Keeps

theorem any_isVoiced_letterFrames (v : Voice) (p : Prosody) (intonation : Intonation)
    (count i : Nat) (text : List Char) :
    (v.letterFrames p intonation count i text).any Frame.isVoiced =
      text.any Text.isAlphanumeric := by
  induction text generalizing i with
  | nil => rfl
  | cons c rest ih =>
    rw [letterFrames, List.any_cons]
    split
    · rename_i hblank
      rw [List.any_cons, ih, Text.isAlphanumeric_of_isBlank c hblank]
      rfl
    · split
      · rename_i hletter
        rw [hletter]
        rfl
      · rename_i hno
        rw [ih, Bool.eq_false_iff.mpr hno, Bool.false_or]

/-! ## The voices that are always there -/

/-- Numbers that a divisor makes no more than a bound. -/
def Within (xs : List Float32) (y : Float32) (n : Nat) : Prop :=
  ∀ x ∈ xs, (x / y).isFinite = true ∧ x / y ≤ Single.ofCount n

instance (xs : List Float32) (y : Float32) (n : Nat) : Decidable (Within xs y n) :=
  inferInstanceAs (Decidable (∀ x ∈ xs, _))

/-- The durations of their letters, and that of a gap. -/
def builtinSpans : List Float32 :=
  wordGap :: VoiceTable.builtin.entries.flatMap fun e => [e.2.vowel, e.2.consonant]

def pauses (mode : PauseMode) : List Float32 :=
  [Intonation.statement, .continuation].filterMap mode.pause?

theorem mem_pauses {mode : PauseMode} {i : Intonation} {ms : Float32}
    (h : mode.pause? i = some ms) : ms ∈ pauses mode := by
  cases i with
  | continuation => exact List.mem_filterMap.mpr ⟨.continuation, by simp, h⟩
  | _ => exact List.mem_filterMap.mpr ⟨.statement, by simp, by cases mode <;> exact h⟩

/-- How long a letter or a gap is at most. Speech is at least half as fast as normal, and swifter
from rate five on. -/
def longestSpan (rate : Nat) : Nat := if 5 ≤ rate then 178 else 190

/-- How long a pause is at most. -/
def longestPause : PauseMode → Nat → Nat
  | .long, rate => if 5 ≤ rate then 560 else 600
  | _, _ => 280

theorem longestSpan_le (rate : Nat) : longestSpan rate ≤ 190 := by
  unfold longestSpan
  split <;> decide

theorem longestPause_of_ne_long {mode : PauseMode} (h : mode ≠ .long) (rate : Nat) :
    longestPause mode rate = 280 := by
  cases mode with
  | long => exact absurd rfl h
  | _ => rfl

theorem longestPause_le (mode : PauseMode) (rate : Nat) : longestPause mode rate ≤ 600 := by
  by_cases h : mode = .long
  · rw [h, longestPause]
    split <;> decide
  · rw [longestPause_of_ne_long h]
    decide

/-- At this rate no letter, no gap and no pause lasts longer. -/
def IsPaced (rate : Nat) : Prop :=
  Within builtinSpans (VoiceSettings.speed { rate }) (longestSpan rate) ∧
    ∀ mode ∈ [PauseMode.short, .long],
      Within (pauses mode) (VoiceSettings.speed { rate }) (longestPause mode rate)

instance (rate : Nat) : Decidable (IsPaced rate) := inferInstanceAs (Decidable (_ ∧ _))

theorem isPaced_of_lt {rate : Nat} (h : rate < 110) : IsPaced rate := by
  -- Ten rates at a time: what is computed for a fact is kept until the whole fact is checked.
  have hall : ∀ tens < 11, ∀ ones < 10, IsPaced (10 * tens + ones) := by
    intro tens htens
    interval_cases tens <;> decide +kernel
  have hrate := hall (rate / 10) (by omega) (rate % 10) (Nat.mod_lt _ (by decide))
  rwa [Nat.div_add_mod] at hrate

/-- All that these bounds can be, in milliseconds. -/
def bounds : List Nat := [178, 190, 280, 560, 600]

theorem value_bounds :
    ∀ n ∈ bounds, (Single.ofCount n).isFinite = true ∧ Single.value (Single.ofCount n) = n := by
  have hbits : ∀ n ∈ bounds, (Single.ofCount n).isFinite = true ∧
      Single.isNegative (Single.ofCount n) = false ∧
      Single.significand (Single.ofCount n) * 2 ^ (Single.exponent (Single.ofCount n) + 149).toNat =
        n * 2 ^ 149 := by
    decide +kernel
  intro n hn
  obtain ⟨hfinite, hs, h⟩ := hbits n hn
  exact ⟨hfinite, Single.value_eq_natCast hs h⟩

theorem longestSpan_mem_bounds (rate : Nat) : longestSpan rate ∈ bounds := by
  unfold longestSpan
  split <;> decide

theorem longestPause_mem_bounds (mode : PauseMode) (rate : Nat) :
    longestPause mode rate ∈ bounds := by
  by_cases h : mode = .long
  · rw [h, longestPause]
    split <;> decide
  · rw [longestPause_of_ne_long h]
    decide

theorem value_le_of_within {xs : List Float32} {x y : Float32} {n : Nat} (h : Within xs y n)
    (hn : n ∈ bounds) (hx : x ∈ xs) :
    (x / y).isFinite = true ∧ Single.value (x / y) ≤ n := by
  obtain ⟨hfinite, hle⟩ := h x hx
  obtain ⟨hbound, hvalue⟩ := value_bounds n hn
  rw [Single.le_iff_value_le hfinite hbound, hvalue] at hle
  exact ⟨hfinite, hle⟩

section Builtin

variable {name : String} {v : Voice} {s : VoiceSettings}

theorem letterDuration_mem_builtinSpans (h : VoiceTable.builtin.get? name = some v) (c : Char) :
    v.letterDuration c ∈ builtinSpans := by
  obtain ⟨before, after, hentries, -⟩ := List.lookup_eq_some_iff.mp h
  have hmem : (name, v) ∈ VoiceTable.builtin.entries := by
    rw [hentries]
    exact List.mem_append_right _ List.mem_cons_self
  refine List.mem_cons_of_mem _ (List.mem_flatMap.mpr ⟨(name, v), hmem, ?_⟩)
  unfold letterDuration
  split
  · exact List.mem_cons_self
  · exact List.mem_cons_of_mem _ List.mem_cons_self

theorem exists_voice (h : s.validate .builtin = .ok ()) :
    ∃ v, VoiceTable.builtin.get? s.voice = some v := by
  obtain ⟨hvoice, -⟩ := VoiceSettings.validate_eq_ok_iff.mp h
  obtain ⟨e, he, hname⟩ := List.mem_map.mp hvoice
  refine Option.isSome_iff_exists.mp (List.lookup_isSome_iff.mpr ⟨e, he, ?_⟩)
  rw [hname, beq_self_eq_true]

variable (h : VoiceTable.builtin.get? name = some v) (hrate : s.rate ≤ 100)
include h hrate

theorem keeps_longest :
    v.Keeps s.pauseMode s.speed (longestSpan s.rate) (longestPause s.pauseMode s.rate) := by
  obtain ⟨hspans, hpauses⟩ := isPaced_of_lt (Nat.lt_of_le_of_lt hrate (by decide))
  have hspan := longestSpan_mem_bounds s.rate
  have hpause := longestPause_mem_bounds s.pauseMode s.rate
  refine ⟨fun c => value_le_of_within hspans hspan (letterDuration_mem_builtinSpans h c),
    value_le_of_within hspans hspan List.mem_cons_self, fun i ms hms => ?_⟩
  have hmem := mem_pauses hms
  cases hmode : s.pauseMode with
  | off =>
    rw [hmode] at hms
    cases hms
  | _ =>
    rw [hmode] at hmem hpause
    exact (value_le_of_within (hpauses _ (by decide)) hpause hmem).2

theorem keeps_builtin : v.Keeps s.pauseMode s.speed 190 600 :=
  (keeps_longest h hrate).mono (longestSpan_le _) (longestPause_le _ _)

theorem keeps_of_ne_long (hmode : s.pauseMode ≠ .long) : v.Keeps s.pauseMode s.speed 190 280 :=
  (keeps_longest h hrate).mono (longestSpan_le _) (longestPause_of_ne_long hmode _).le

theorem keeps_of_swift (hswift : 5 ≤ s.rate) : v.Keeps s.pauseMode s.speed 178 560 := by
  refine (keeps_longest h hrate).mono ?_ ?_
  · rw [longestSpan, if_pos hswift]
  · by_cases hmode : s.pauseMode = .long
    · rw [hmode, longestPause, if_pos hswift]
    · rw [longestPause_of_ne_long hmode]
      decide

end Builtin

end Voice

end Elocution
