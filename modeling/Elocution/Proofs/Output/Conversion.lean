import Mathlib
import Elocution.Output.Resampler

/-!
# The length of converted audio

A resampler in the course of its use. All that is left in it is told by the number of source
samples since it was last flushed or reset, so the length of the audio that has come out of it
is told by that number too, however the samples were cut into pushes.
-/

namespace Elocution.Output

/-- The samples that leave the filter for so many that have gone into it. -/
def BlockLengths.made (b : BlockLengths) (fed : Nat) : Nat := fed / b.source * b.target

/-- Those of them that are not skipped. -/
def BlockLengths.emitted (b : BlockLengths) (fed : Nat) : Nat := b.made fed - b.delay

theorem BlockLengths.made_add (b : BlockLengths) (hb : 0 < b.source) (p n : Nat) :
    b.made (p + n) = b.made p + b.made (p % b.source + n) := by
  have hsplit : p + n = b.source * (p / b.source) + (p % b.source + n) := by
    rw [← Nat.add_assoc, Nat.div_add_mod]
  have hdiv : (p + n) / b.source = p / b.source + (p % b.source + n) / b.source := by
    conv_lhs => rw [hsplit]
    exact Nat.mul_add_div hb ..
  simp only [made, hdiv, Nat.add_mul]

@[simp] theorem BlockLengths.emitted_zero (b : BlockLengths) : b.emitted 0 = 0 := by
  simp [emitted, made]

theorem BlockLengths.source_pos {source : Nat} (hs : 0 < source) (target : Nat) :
    0 < (ofRates source target).source := by
  have hunit : 0 < source / Nat.gcd source target :=
    Nat.div_pos (Nat.gcd_le_left target hs) (Nat.gcd_pos_of_pos_left target hs)
  have hk : 0 < (passLength / 2 + source / Nat.gcd source target - 1) /
      (source / Nat.gcd source target) := by
    apply Nat.div_pos _ hunit
    simp only [passLength]
    omega
  apply Nat.div_pos _ (Nat.gcd_pos_of_pos_left target hs)
  exact Nat.le_trans (Nat.gcd_le_left target hs) (Nat.le_mul_of_pos_left source hk)

namespace Resampler

variable {κ : Type} {b : BlockLengths} {source target t p : Nat} {r : Resampler κ}

theorem make_of_pos (hs : 0 < source) (ht : 0 < target) :
    make source target = .ok (ofBlocks (.ofRates source target) : Resampler κ) := by
  have h : ¬ (source = 0 ∨ target = 0) := by omega
  simp only [make, if_neg h]

/-! ## Courses of use -/

inductive Use (κ : Type) where
  | push (count : Nat) (call : Option κ)
  | flush
  | reset
deriving DecidableEq

namespace Use

/-- The call that waits for its audio. -/
def call? : Use κ → Option κ
  | .push _ call => call
  | _ => none

/-- The source samples since the last flush or reset. -/
def advance (t : Nat) : Use κ → Nat
  | .push count _ => t + count
  | _ => 0

end Use

/-- A reset gives nothing. -/
def take (r : Resampler κ) : Use κ → Converted κ × Resampler κ
  | .push count call => r.push count call
  | .flush => r.flush
  | .reset => ({}, r.reset)

def perform : List (Use κ) → Resampler κ → List (Converted κ) × Resampler κ
  | [], r => ([], r)
  | u :: rest, r =>
    let (converted, r) := r.take u
    let (others, r) := perform rest r
    (converted :: others, r)

theorem perform_append (uses later : List (Use κ)) (r : Resampler κ) :
    perform (uses ++ later) r =
      ((perform uses r).1 ++ (perform later (perform uses r).2).1,
        (perform later (perform uses r).2).2) := by
  induction uses generalizing r with
  | nil => rfl
  | cons u rest ih => simp only [List.cons_append, perform, ih]

theorem perform_concat (uses : List (Use κ)) (u : Use κ) (r : Resampler κ) :
    perform (uses ++ [u]) r =
      ((perform uses r).1 ++ [((perform uses r).2.take u).1], ((perform uses r).2.take u).2) :=
  perform_append uses [u] r

/-- The source samples since the last flush or reset in a course of use. -/
def input (uses : List (Use κ)) : Nat := uses.foldl Use.advance 0

theorem input_concat (uses : List (Use κ)) (u : Use κ) :
    input (uses ++ [u]) = u.advance (input uses) := List.foldl_concat ..

/-! ## Passes -/

/-- How many of the first `t` source samples have been in a pass. -/
def passed (t : Nat) : Nat := t / passLength * passLength

theorem passed_le (t : Nat) : passed t ≤ t := Nat.div_mul_le_self ..

theorem lt_passed_add (t : Nat) : t < passed t + passLength := by
  simp only [passed, passLength]
  omega

theorem passed_add (t n : Nat) : passed (t + n) = passed t + passed (t - passed t + n) := by
  simp only [passed, passLength]
  omega

/-- The samples that fill the passes which it takes for all of them. -/
theorem passLength_mul_ceilDiv (t : Nat) :
    passLength * (t ⌈/⌉ passLength) = if passed t = t then passed t else passed t + passLength := by
  rw [Nat.ceilDiv_eq_add_pred_div]
  by_cases h : passed t = t
  · rw [if_pos h]
    simp only [passed, passLength] at h ⊢
    omega
  · rw [if_neg h]
    simp only [passed, passLength] at h ⊢
    omega

/-- So many source samples have been in a pass of the filter since it was new. -/
structure Fed (b : BlockLengths) (p : Nat) (r : Resampler κ) : Prop where
  blocks : r.blocks = b
  saved : r.saved = p % b.source
  skip : r.skip = b.delay - b.made p
  primed : r.primed = decide (0 < p)

theorem fed_ofBlocks (b : BlockLengths) : Fed b 0 (ofBlocks b : Resampler κ) where
  blocks := rfl
  saved := (Nat.zero_mod _).symm
  skip := by simp [ofBlocks, BlockLengths.made]
  primed := rfl

theorem Fed.pass (hb : 0 < b.source) (h : Fed b p r) :
    b.emitted p + r.pass.1 = b.emitted (p + passLength) ∧ Fed b (p + passLength) r.pass.2 := by
  have hmade := b.made_add hb p passLength
  have hstep : (r.saved + passLength) / r.blocks.source * r.blocks.target =
      b.made (p % b.source + passLength) := by
    rw [h.saved, h.blocks, BlockLengths.made]
  constructor
  · simp only [Resampler.pass, hstep, h.skip, BlockLengths.emitted]
    omega
  · refine ⟨h.blocks, ?_, ?_, ?_⟩
    · simp only [Resampler.pass, h.saved, h.blocks, Nat.mod_add_mod]
    · simp only [Resampler.pass, hstep, h.skip]
      omega
    · simp [Resampler.pass, passLength]

theorem Fed.passes (hb : 0 < b.source) (h : Fed b p r) (n : Nat) :
    b.emitted p + (r.passes n).1 = b.emitted (p + n * passLength) ∧
      Fed b (p + n * passLength) (r.passes n).2 := by
  induction n generalizing p r with
  | zero => simpa [Resampler.passes] using h
  | succ n ih =>
    obtain ⟨hfirst, hfed⟩ := h.pass hb
    obtain ⟨hothers, hall⟩ := ih hfed
    have hp : p + (n + 1) * passLength = p + passLength + n * passLength := by
      rw [Nat.succ_mul]
      omega
    rw [hp]
    simp only [Resampler.passes]
    exact ⟨by omega, hall⟩

/-- The resampler holds what is left of so many source samples since it was new. -/
structure Holds (b : BlockLengths) (t : Nat) (r : Resampler κ) : Prop where
  fed : Fed b (passed t) r
  pending : r.pending = t - passed t

theorem holds_ofBlocks (b : BlockLengths) : Holds b 0 (ofBlocks b : Resampler κ) :=
  ⟨fed_ofBlocks b, rfl⟩

theorem pending_push (count : Nat) (call : Option κ) (r : Resampler κ) :
    (r.push count call).2.pending = r.pending + count - passed (r.pending + count) := rfl

theorem Holds.push (hb : 0 < b.source) (h : Holds b t r) (count : Nat) (call : Option κ) :
    b.emitted (passed t) + (r.push count call).1.length = b.emitted (passed (t + count)) ∧
      Holds b (t + count) (r.push count call).2 := by
  have hpassed := passed_add t count
  obtain ⟨hlength, hfed⟩ := h.fed.passes hb ((r.pending + count) / passLength)
  have hp : passed t + (r.pending + count) / passLength * passLength = passed (t + count) := by
    rw [hpassed, h.pending]
    rfl
  rw [hp] at hlength hfed
  refine ⟨hlength, ⟨hfed.blocks, hfed.saved, hfed.skip, hfed.primed⟩, ?_⟩
  have hle := passed_le t
  rw [pending_push, h.pending]
  omega

theorem Holds.pending_eq_zero_iff (h : Holds b t r) : r.pending = 0 ↔ passed t = t := by
  have hpending := h.pending
  have hle := passed_le t
  omega

theorem Holds.flush_length (hb : 0 < b.source) (h : Holds b t r) :
    b.emitted (passed t) + r.flush.1.length =
      if t = 0 then 0 else b.emitted (passLength * (t ⌈/⌉ passLength + 1)) := by
  have hceil := passLength_mul_ceilDiv t
  rw [Nat.mul_add, Nat.mul_one, hceil]
  obtain ⟨hnext, hfed⟩ := h.fed.pass hb
  by_cases hpending : r.pending = 0
  · have ht := h.pending_eq_zero_iff.mp hpending
    have hprimed := h.fed.primed
    rw [ht] at hprimed hnext
    obtain rfl | hpos := Nat.eq_zero_or_pos t
    -- No pass has been made, so there is no tail to be got out.
    · simp [Resampler.flush, hpending, hprimed, passed]
    · simpa [Resampler.flush, hpending, hprimed, hpos, hpos.ne', ht] using hnext
  · have ht : passed t ≠ t := fun ht => hpending (h.pending_eq_zero_iff.mpr ht)
    have hzero : t ≠ 0 := by
      rintro rfl
      exact ht rfl
    obtain ⟨hlast, -⟩ := hfed.pass hb
    have hprimed : r.pass.2.primed = true := rfl
    simp only [Resampler.flush, if_neg hpending, hprimed, if_true, if_neg hzero, if_neg ht]
    omega

theorem Holds.reset_eq (h : Holds b t r) : r.reset = ofBlocks b :=
  congrArg ofBlocks h.fed.blocks

theorem Holds.flush_eq (h : Holds b t r) : r.flush.2 = ofBlocks b := by
  simp only [Resampler.flush]
  split <;> split <;> exact h.reset_eq

theorem Holds.take (hb : 0 < b.source) (h : Holds b t r) (u : Use κ) :
    Holds b (u.advance t) (r.take u).2 := by
  cases u with
  | push count call => exact (h.push hb count call).2
  | flush =>
    simp only [Resampler.take, h.flush_eq]
    exact holds_ofBlocks b
  | reset =>
    simp only [Resampler.take, h.reset_eq]
    exact holds_ofBlocks b

theorem holds_perform (hb : 0 < b.source) (uses : List (Use κ)) :
    Holds b (input uses) (perform uses (ofBlocks b)).2 := by
  induction uses using List.reverseRecOn with
  | nil => exact holds_ofBlocks b
  | append_singleton uses u ih =>
    rw [perform_concat, input_concat]
    exact ih.take hb u

/-- Pushes that follow one another, with the calls that wait for them. -/
def pushes (cuts : List (Nat × Option κ)) : List (Use κ) := cuts.map fun cut => .push cut.1 cut.2

theorem Holds.pushes (hb : 0 < b.source) (h : Holds b t r) (cuts : List (Nat × Option κ)) :
    b.emitted (passed t) + ((perform (pushes cuts) r).1.map (·.length)).sum =
        b.emitted (passed (t + (cuts.map Prod.fst).sum)) ∧
      Holds b (t + (cuts.map Prod.fst).sum) (perform (Resampler.pushes cuts) r).2 := by
  induction cuts generalizing t r with
  | nil => exact ⟨rfl, h⟩
  | cons cut rest ih =>
    obtain ⟨hfirst, hfed⟩ := h.push hb cut.1 cut.2
    obtain ⟨hothers, hall⟩ := ih hfed
    simp only [List.map_cons, List.sum_cons, ← Nat.add_assoc]
    refine ⟨?_, hall⟩
    rw [← hothers, ← hfirst, Nat.add_assoc]
    rfl

/-- The length of what a resampler gives is told by the length of what it is given. Of the source
samples those in whole passes of 256 have been converted, in blocks whose length the rates tell,
and half a block is skipped; a flush adds what fills the last pass and one more pass, but nothing
if there was no audio at all. A flush and a reset leave the resampler as it was made. -/
theorem length_converted (hs : 0 < source) (ht : 0 < target) :
    ∃ r : Resampler κ, make source target = .ok r ∧
      (∀ uses : List (Use κ), (perform (uses ++ [.flush]) r).2 = r ∧
        (perform (uses ++ [.reset]) r).2 = r) ∧
      let g := Nat.gcd source target
      let k := 128 ⌈/⌉ (source / g)
      let block := k * source / g
      let made := k * target / g
      let converted := fun fed => fed / block * made - made / 2
      ∀ cuts : List (Nat × Option κ),
        let total := (cuts.map Prod.fst).sum
        let (given, s) := perform (pushes cuts) r
        (given.map (·.length)).sum = converted (256 * (total / 256)) ∧
        (given.map (·.length)).sum + s.flush.1.length =
          if total = 0 then 0 else converted (256 * (total ⌈/⌉ 256 + 1)) := by
  have hb := BlockLengths.source_pos hs target
  refine ⟨ofBlocks (.ofRates source target), make_of_pos hs ht, ?_, ?_⟩
  · intro uses
    have hholds := holds_perform hb uses
    simp only [perform_concat]
    exact ⟨hholds.flush_eq, hholds.reset_eq⟩
  · intro g k block made converted cuts total
    have hconverted : converted = (BlockLengths.ofRates source target).emitted := rfl
    obtain ⟨hlength, hholds⟩ := (holds_ofBlocks _).pushes hb cuts
    have hflush := hholds.flush_length hb
    simp only [Nat.zero_add] at hlength hflush
    have hzero : passed 0 = 0 := rfl
    have htotal : passed total = 256 * (total / 256) := Nat.mul_comm ..
    rw [hzero, BlockLengths.emitted_zero, Nat.zero_add] at hlength
    rw [← hlength] at hflush
    rw [hconverted, ← htotal]
    exact ⟨hlength, hflush⟩

/-- The block is longer than a pass. -/
theorem length_converted_down :
    0 < 22050 ∧ 0 < 16000 ∧ ∃ r : Resampler Unit, make 22050 16000 = .ok r ∧
      let (given, s) := perform (pushes [(300, none), (0, some ()), (500, none)]) r
      (given.map (·.length)).sum = 160 ∧ (given.map (·.length)).sum + s.flush.1.length = 480 := by
  have hs : 0 < 22050 := by decide
  have ht : 0 < 16000 := by decide
  obtain ⟨r, hr, -, hlength⟩ := @length_converted Unit 22050 16000 hs ht
  exact ⟨hs, ht, r, hr, hlength [(300, none), (0, some ()), (500, none)]⟩

end Resampler

end Elocution.Output
