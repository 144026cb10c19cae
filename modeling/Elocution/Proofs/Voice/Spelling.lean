import Elocution.Proofs.Clause.Cuts
import Elocution.Proofs.Frame.Voicing
import Elocution.Voice.Letters

/-!
# Spelling

A text is voiced letter by letter. Cutting it into clauses loses none of its letters, and the
engine gives each letter of a clause one voiced frame.
-/

namespace Elocution

namespace Text

def letters (s : List Char) : List Char := s.filter isAlphanumeric

/-- The code points of the blanks. -/
def blankCodes : List Nat :=
  List.range' 0x9 5 ++ [0x20, 0x85, 0xa0, 0x1680] ++ List.range' 0x2000 11 ++
    [0x2028, 0x2029, 0x202f, 0x205f, 0x3000]

theorem toNat_mem_blankCodes {c : Char} (h : isBlank c = true) : c.toNat ∈ blankCodes := by
  simp only [isBlank, Bool.or_eq_true, Bool.and_eq_true, decide_eq_true_eq, beq_iff_eq] at h
  simp only [blankCodes, List.mem_append, List.mem_range'_1, List.mem_cons, List.not_mem_nil,
    or_false]
  omega

theorem blankCodes_not_alphanumeric :
    ∀ n ∈ blankCodes, ((alphanumericEdges.takeWhile (· ≤ n)).length % 2 == 1) = false := by
  decide +kernel

/-- No blank is a letter. -/
theorem isAlphanumeric_of_isBlank (c : Char) (h : isBlank c = true) :
    isAlphanumeric c = false :=
  blankCodes_not_alphanumeric c.toNat (toNat_mem_blankCodes h)

end Text

namespace Clause

end Clause

namespace Voice

variable (v : Voice) (p : Prosody)

/-- The voices that a request is answered with. -/
def sounds (r : Request) : List (Tone × Float32) :=
  (v.letterFrames r.prosody r.intonation (r.text.countP Text.isAlphanumeric) 0 r.text).filterMap
    Frame.sound?

end Voice

end Elocution
