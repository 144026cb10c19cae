import Elocution.Text.Blank
import Elocution.Text.Numeral

/-!
# What numerals denote

Digits, perhaps after one plus sign, denote a number, however many zeros they begin with. A numeral
is read if and only if what it denotes is within the limit: the value so far only grows, so it is
beyond the limit at some digit just when it is at the last.
-/

namespace Elocution.Text

variable {limit value n m : Nat} {s : List Char} {c : Char}

/-- The text is a numeral for the number. -/
def Denotes (s : List Char) (n : Nat) : Prop :=
  ∃ digits, (s = digits ∨ s = '+' :: digits) ∧ digits ≠ [] ∧
    (∀ c ∈ digits, c.isDigit = true) ∧ Nat.ofDigitChars 10 digits 0 = n

theorem digitValue?_of_isDigit (h : c.isDigit = true) :
    digitValue? c = some (c.toNat - '0'.toNat) := by
  apply if_pos
  rw [Char.isDigit, Bool.and_eq_true, decide_eq_true_iff, decide_eq_true_iff] at h
  exact h

theorem digitValue?_of_not_isDigit (h : c.isDigit = false) : digitValue? c = none := by
  apply if_neg
  intro hdigit
  apply Bool.eq_false_iff.1 h
  rw [Char.isDigit, Bool.and_eq_true, decide_eq_true_iff, decide_eq_true_iff]
  exact hdigit

theorem not_isBlank_of_isDigit (h : c.isDigit = true) : isBlank c = false := by
  apply Bool.eq_false_iff.2
  intro hblank
  simp only [Char.isDigit, isBlank, Char.toNat, ge_iff_le, UInt32.le_iff_toNat_le, Bool.and_eq_true,
    Bool.or_eq_true, decide_eq_true_iff, beq_iff_eq] at h hblank
  have hnine : '9'.val.toNat = 57 := rfl
  have hzero : '0'.val.toNat = 48 := rfl
  omega

theorem le_ofDigitChars (value : Nat) (s : List Char) : value ≤ Nat.ofDigitChars 10 s value := by
  induction s generalizing value with
  | nil => exact Nat.le_refl value
  | cons c rest ih =>
    rw [Nat.ofDigitChars_cons]
    have hrest := ih (10 * value + (c.toNat - '0'.toNat))
    omega

theorem readDigits_eq_ok_iff (hvalue : value ≤ limit) : readDigits limit value s = .ok n ↔
    (∀ c ∈ s, c.isDigit = true) ∧ Nat.ofDigitChars 10 s value = n ∧ n ≤ limit := by
  induction s generalizing value with
  | nil =>
    rw [readDigits, Except.ok.injEq, Nat.ofDigitChars_nil]
    constructor
    · rintro rfl
      exact ⟨List.forall_mem_nil _, rfl, hvalue⟩
    · rintro ⟨-, hn, -⟩
      exact hn
  | cons c rest ih =>
    rw [readDigits, Nat.ofDigitChars_cons, Nat.mul_comm 10 value]
    cases hc : c.isDigit with
    | false =>
      rw [digitValue?_of_not_isDigit hc]
      apply iff_of_false
      · nofun
      · rintro ⟨hdigits, -⟩
        rw [hdigits c List.mem_cons_self] at hc
        cases hc
    | true =>
      rw [digitValue?_of_isDigit hc]
      dsimp only
      split
      · rename_i hle
        rw [ih hle, List.forall_mem_cons, hc, and_iff_right rfl]
      · rename_i hgt
        apply iff_of_false
        · nofun
        · rintro ⟨-, hn, hle⟩
          have hgrown := le_ofDigitChars (value * 10 + (c.toNat - '0'.toNat)) rest
          omega

/-- Digits for a number beyond the limit are refused, and for no other reason. -/
theorem readDigits_of_lt (hdigits : ∀ c ∈ s, c.isDigit = true) (hvalue : value ≤ limit)
    (h : limit < Nat.ofDigitChars 10 s value) : readDigits limit value s = .error .tooLarge := by
  induction s generalizing value with
  | nil =>
    rw [Nat.ofDigitChars_nil] at h
    omega
  | cons c rest ih =>
    obtain ⟨hc, hrest⟩ := List.forall_mem_cons.1 hdigits
    rw [Nat.ofDigitChars_cons, Nat.mul_comm 10 value] at h
    rw [readDigits, digitValue?_of_isDigit hc]
    dsimp only
    split
    · rename_i hle
      exact ih hrest hle h
    · rfl

theorem not_denotes_nil (n : Nat) : ¬ Denotes [] n := by
  rintro ⟨digits, hsign | hsign, hne, -⟩
  · exact hne hsign.symm
  · cases hsign

theorem denotes_plus_iff : Denotes ('+' :: s) n ↔
    s ≠ [] ∧ (∀ c ∈ s, c.isDigit = true) ∧ Nat.ofDigitChars 10 s 0 = n := by
  constructor
  · rintro ⟨digits, rfl | hsign, hne, hdigits, hn⟩
    · exact absurd (hdigits '+' List.mem_cons_self) (by decide)
    · obtain rfl := (List.cons.inj hsign).2
      exact ⟨hne, hdigits, hn⟩
  · rintro ⟨hne, hdigits, hn⟩
    exact ⟨s, .inr rfl, hne, hdigits, hn⟩

theorem denotes_iff_of_ne_plus (h : c ≠ '+') : Denotes (c :: s) n ↔
    (∀ d ∈ c :: s, d.isDigit = true) ∧ Nat.ofDigitChars 10 (c :: s) 0 = n := by
  constructor
  · rintro ⟨digits, rfl | hsign, -, hdigits, hn⟩
    · exact ⟨hdigits, hn⟩
    · exact absurd (List.cons.inj hsign).1 h
  · rintro ⟨hdigits, hn⟩
    exact ⟨c :: s, .inl rfl, List.cons_ne_nil c s, hdigits, hn⟩

theorem readNumeral_eq_ok_iff : readNumeral limit s = .ok n ↔ Denotes s n ∧ n ≤ limit := by
  unfold readNumeral
  split
  · apply iff_of_false
    · nofun
    · rintro ⟨hdenotes, -⟩
      exact not_denotes_nil n hdenotes
  · apply iff_of_false
    · nofun
    · rintro ⟨hdenotes, -⟩
      exact (denotes_plus_iff.1 hdenotes).1 rfl
  · rename_i digits hne
    rw [readDigits_eq_ok_iff (Nat.zero_le limit), denotes_plus_iff, and_assoc, and_assoc,
      and_iff_right hne]
  · rename_i hnil _ hplus
    cases s with
    | nil => exact absurd rfl hnil
    | cons c rest =>
      have hc : c ≠ '+' := by
        rintro rfl
        exact hplus rest rfl
      rw [readDigits_eq_ok_iff (Nat.zero_le limit), denotes_iff_of_ne_plus hc, and_assoc]

/-- A numeral for a number beyond the limit is refused as too large. -/
theorem Denotes.readNumeral_of_lt (h : Denotes s n) (hn : limit < n) :
    readNumeral limit s = .error .tooLarge := by
  obtain ⟨digits, hsign, hne, hdigits, rfl⟩ := h
  have hread := readDigits_of_lt hdigits (Nat.zero_le limit) hn
  obtain ⟨c, rest, rfl⟩ := List.exists_cons_of_ne_nil hne
  unfold readNumeral
  rcases hsign with rfl | rfl
  · have hc : c ≠ '+' := by
      rintro rfl
      exact absurd (hdigits '+' List.mem_cons_self) (by decide)
    split
    · rename_i hnil
      cases hnil
    · rename_i hplus
      exact absurd (List.cons.inj hplus).1 hc
    · rename_i hplus
      exact absurd (List.cons.inj hplus).1 hc
    · exact hread
  · split
    · rename_i hnil
      cases hnil
    · rename_i hplus
      cases (List.cons.inj hplus).2
    · rename_i hplus
      rw [← (List.cons.inj hplus).2]
      exact hread
    · rename_i hplus
      exact absurd rfl (hplus _)

theorem Denotes.unique (hn : Denotes s n) (hm : Denotes s m) : n = m := by
  have hread := readNumeral_eq_ok_iff.2 ⟨hn, Nat.le_max_left n m⟩
  rw [readNumeral_eq_ok_iff.2 ⟨hm, Nat.le_max_right n m⟩] at hread
  exact (Except.ok.inj hread).symm

theorem trim_of_visible (h : ∀ c ∈ s, isBlank c = false) : trim s = s := by
  have hdrop {t : List Char} (ht : ∀ c ∈ t, isBlank c = false) : t.dropWhile isBlank = t := by
    cases t with
    | nil => rfl
    | cons c rest => rw [List.dropWhile_cons, ht c List.mem_cons_self, if_neg Bool.false_ne_true]
  have hreverse : s.reverse.dropWhile isBlank = s.reverse := by
    apply hdrop
    intro c hc
    exact h c (List.mem_reverse.1 hc)
  rw [trim, trimEnd, dropEndWhile, hdrop h, hreverse, List.reverse_reverse]

/-- A number that is written out denotes itself and nothing else. -/
theorem denotes_trim_toString_iff : Denotes (trim (toString m).toList) n ↔ n = m := by
  have hdigits : ∀ c ∈ Nat.toDigits 10 m, c.isDigit = true := by
    intro c hc
    exact Nat.isDigit_of_mem_toDigits (by decide) (by decide) hc
  have hself : Denotes (Nat.toDigits 10 m) m :=
    ⟨_, .inl rfl, Nat.toDigits_ne_nil, hdigits, Nat.ofDigitChars_ten_toDigits⟩
  rw [Nat.toString_eq_ofList_toDigits, String.toList_ofList, trim_of_visible]
  · constructor
    · intro h
      exact h.unique hself
    · rintro rfl
      exact hself
  · intro c hc
    exact not_isBlank_of_isDigit (hdigits c hc)

end Elocution.Text
