import Elocution.Proofs.Output.Conversion

/-!
# What a flush leaves behind

A flush adds one pass of padding after the last audio. What has not left the filter by then is
lost: up to a block that is not full, and the half block of delay. One pass is enough for that as
long as the blocks are short.
-/

namespace Elocution.Output

namespace BlockLengths

variable {b : BlockLengths} {source target fed t : Nat}

/-- Blocks are in the ratio of the rates. -/
theorem source_mul_target (hs : 0 < source) (target : Nat) :
    (ofRates source target).source * target = (ofRates source target).target * source := by
  have hg := Nat.gcd_pos_of_pos_left target hs
  apply Nat.eq_of_mul_eq_mul_left hg
  simp only [ofRates, ← Nat.mul_assoc]
  rw [Nat.mul_div_cancel' (Dvd.dvd.mul_left (Nat.gcd_dvd_left ..) _),
    Nat.mul_div_cancel' (Dvd.dvd.mul_left (Nat.gcd_dvd_right ..) _)]
  exact Nat.mul_right_comm ..

theorem mul_target_div_source (hs : 0 < source) (target t : Nat) :
    t * target / source =
      t * (ofRates source target).target / (ofRates source target).source := by
  have hb := source_pos hs target
  rw [← Nat.mul_div_mul_left _ _ hb, ← Nat.mul_div_mul_left (t * _) _ hs]
  congr 1
  · rw [Nat.mul_left_comm, source_mul_target hs]
    ring
  · exact Nat.mul_comm ..

/-! ## What comes out in all -/

/-- The samples that come of `t` source samples and a flush after them. -/
def flushed (b : BlockLengths) (t : Nat) : Nat :=
  if t = 0 then 0 else b.emitted (passLength * (t ⌈/⌉ passLength + 1))

theorem add_passLength_le (t : Nat) : t + passLength ≤ passLength * (t ⌈/⌉ passLength + 1) := by
  rw [Nat.ceilDiv_eq_add_pred_div]
  simp only [passLength]
  omega

/-- What has left the filter has come out of it, but for the delay. -/
theorem made_le (b : BlockLengths) (fed : Nat) : b.made fed ≤ b.emitted fed + b.delay := by
  simp only [emitted]
  omega

/-- What has gone into the filter has come out of it, but for the delay and the last block. -/
theorem mul_target_le (b : BlockLengths) (fed : Nat) :
    fed * b.target ≤
      b.emitted fed * b.source + b.delay * b.source + fed % b.source * b.target := by
  calc fed * b.target
      = (fed / b.source * b.source + fed % b.source) * b.target := by
        rw [Nat.mul_comm (fed / b.source), Nat.div_add_mod]
    _ = b.made fed * b.source + fed % b.source * b.target := by
        simp only [made]
        ring
    _ ≤ (b.emitted fed + b.delay) * b.source + fed % b.source * b.target := by
        gcongr
        exact b.made_le fed
    _ = _ := by ring

/-- A flush leaves behind at most the delay and what a block exceeds a pass by. -/
theorem mul_target_div_le (hb : 0 < b.source) (t : Nat) :
    t * b.target / b.source ≤
      b.flushed t + b.delay + (b.source - passLength) * b.target / b.source := by
  obtain rfl | ht := Nat.eq_zero_or_pos t
  · simp
  rw [flushed, if_neg ht.ne']
  have hfed := add_passLength_le t
  generalize passLength * (t ⌈/⌉ passLength + 1) = fed at hfed ⊢
  have hlast := Nat.mod_lt fed hb
  have hle : t ≤ b.source * (fed / b.source) + (b.source - passLength) := by
    have hsplit := Nat.div_add_mod fed b.source
    omega
  calc t * b.target / b.source
      ≤ (b.source * (fed / b.source) + (b.source - passLength)) * b.target / b.source := by
        gcongr
    _ = b.made fed + (b.source - passLength) * b.target / b.source := by
        rw [Nat.add_mul, Nat.mul_assoc, Nat.mul_add_div hb, made]
    _ ≤ _ := by
        gcongr
        exact b.made_le fed

/-! ## Short blocks -/

/-- Blocks so short that one pass after the last audio gets all of it out of the filter. -/
def IsShort (b : BlockLengths) : Prop :=
  b.source * (b.target + b.delay) <
    (passLength + Nat.gcd passLength b.source) * b.target + b.source

/-- The samples of whole passes do not fill a block by at least their common divisor. -/
theorem mod_add_gcd_le (hb : 0 < b.source) (n : Nat) :
    passLength * n % b.source + Nat.gcd passLength b.source ≤ b.source := by
  have hdvd : Nat.gcd passLength b.source ∣ passLength * n % b.source :=
    (Nat.dvd_mod_iff (Nat.gcd_dvd_right ..)).mpr (Dvd.dvd.mul_right (Nat.gcd_dvd_left ..) n)
  obtain ⟨i, hi⟩ := hdvd
  obtain ⟨j, hj⟩ := Nat.gcd_dvd_right passLength b.source
  have hlt := Nat.mod_lt (passLength * n) hb
  generalize Nat.gcd passLength b.source = g at hi hj ⊢
  rw [hi] at hlt ⊢
  have hij : i < j := by
    rw [hj] at hlt
    exact Nat.lt_of_mul_lt_mul_left hlt
  calc g * i + g = g * (i + 1) := by ring
    _ ≤ g * j := by gcongr; exact hij
    _ = b.source := hj.symm

theorem IsShort.le_flushed (h : b.IsShort) (hb : 0 < b.source) (t : Nat) :
    t * b.target / b.source ≤ b.flushed t := by
  obtain rfl | ht := Nat.eq_zero_or_pos t
  · simp
  rw [flushed, if_neg ht.ne']
  have hfed := add_passLength_le t
  have hlast := mod_add_gcd_le hb (t ⌈/⌉ passLength + 1)
  generalize passLength * (t ⌈/⌉ passLength + 1) = fed at hfed hlast ⊢
  have hle := b.mul_target_le fed
  have hfed := Nat.mul_le_mul_right b.target hfed
  have hlast := Nat.mul_le_mul_right b.target hlast
  rw [← Nat.lt_succ_iff, Nat.div_lt_iff_lt_mul hb]
  unfold IsShort at h
  linarith

/-- Some whole passes leave the last block as full as it gets. -/
theorem exists_longest_rest (hb : 0 < b.source) :
    ∃ n q, 0 < n ∧ 0 < q ∧
      passLength * (n + 1) + Nat.gcd passLength b.source = b.source * (q + 1) := by
  have hxy := Nat.gcd_eq_gcd_ab passLength b.source
  generalize Nat.gcd passLength b.source = g at hxy ⊢
  generalize Nat.gcdA passLength b.source = x at hxy
  generalize Nat.gcdB passLength b.source = y at hxy
  obtain ⟨m, hm⟩ : ∃ m : ℕ, (m : ℤ) = |x| + |y| := ⟨_, Int.toNat_of_nonneg (by positivity)⟩
  have hx := le_abs_self x
  have hy := neg_abs_le y
  have hx0 := abs_nonneg x
  have hy0 := abs_nonneg y
  have hblocks : (m : ℤ) + 2 ≤ b.source * (m + 2) :=
    le_mul_of_one_le_left (by positivity) (by exact_mod_cast hb)
  have hn : 0 < (b.source : ℤ) * (m + 2) - x - 1 := by linarith
  have hq : 0 < (passLength : ℤ) * (m + 2) + y - 1 := by
    simp only [passLength]
    push_cast
    linarith
  obtain ⟨n, hn'⟩ := Int.eq_ofNat_of_zero_le hn.le
  obtain ⟨q, hq'⟩ := Int.eq_ofNat_of_zero_le hq.le
  refine ⟨n, q, by omega, by omega, ?_⟩
  zify
  rw [hxy, ← hn', ← hq']
  ring

theorem isShort_of_le_flushed (hb : 0 < b.source)
    (h : ∀ t, t * b.target / b.source ≤ b.flushed t) : b.IsShort := by
  obtain ⟨n, q, hn, hq, hnq⟩ := exists_longest_rest hb
  have hg := Nat.gcd_pos_of_pos_right passLength hb
  have hgle := Nat.gcd_le_right passLength hb
  have hblocks : passLength * (n + 1) / b.source = q := by
    have hsucc : b.source * (q + 1) = q * b.source + b.source := by ring
    rw [Nat.div_eq_iff hb]
    omega
  have hpos : passLength * n ≠ 0 := Nat.mul_ne_zero (by decide) hn.ne'
  have hceil : passLength * n ⌈/⌉ passLength = n := smul_ceilDiv (by decide) n
  -- With a block or more the delay has passed, so nothing is cut off below.
  have hdelay : b.delay ≤ q * b.target :=
    (Nat.div_le_self ..).trans (Nat.le_mul_of_pos_left _ hq)
  obtain ⟨out, hout⟩ := Nat.exists_eq_add_of_le hdelay
  have ht := h (passLength * n)
  rw [flushed, if_neg hpos, hceil, emitted, made, hblocks, hout, Nat.add_sub_cancel_left,
    ← Nat.lt_succ_iff, Nat.div_lt_iff_lt_mul hb] at ht
  have hfed : (passLength * (n + 1) + Nat.gcd passLength b.source) * b.target =
      b.source * (q + 1) * b.target := by rw [hnq]
  have hmade : q * b.target * b.source = (b.delay + out) * b.source := by rw [hout]
  unfold IsShort
  linarith

end BlockLengths

namespace Resampler

variable {κ : Type} {b : BlockLengths} {source target : Nat}

/-- All that a resampler gives for some pushes and a flush after them. -/
def playedOut (cuts : List (Nat × Option κ)) (r : Resampler κ) : Nat :=
  ((perform (pushes cuts) r).1.map (·.length)).sum + (perform (pushes cuts) r).2.flush.1.length

theorem playedOut_ofBlocks (hb : 0 < b.source) (cuts : List (Nat × Option κ)) :
    playedOut cuts (ofBlocks b) = b.flushed (cuts.map Prod.fst).sum := by
  obtain ⟨hlength, hholds⟩ := (holds_ofBlocks b).pushes hb cuts
  have hflush := hholds.flush_length hb
  have hzero : passed 0 = 0 := rfl
  rw [hzero, BlockLengths.emitted_zero, Nat.zero_add, Nat.zero_add] at hlength
  rw [Nat.zero_add, ← hlength] at hflush
  exact hflush

/-- However audio is pushed, a flush after it brings out all of it but for at most the delay and
what a block exceeds a pass by. It brings out all of it, whatever its length, at those rates and
only those at which blocks are so short that one pass of padding drives out the last block and
the delay. A resampler that has been flushed or reset is as it was made. -/
theorem played_out_iff (hs : 0 < source) (ht : 0 < target) :
    ∃ r : Resampler κ, make source target = .ok r ∧
      (∀ uses : List (Use κ), (perform (uses ++ [.flush]) r).2 = r ∧
        (perform (uses ++ [.reset]) r).2 = r) ∧
      let g := Nat.gcd source target
      let k := 128 ⌈/⌉ (source / g)
      let block := k * source / g
      let made := k * target / g
      (∀ cuts : List (Nat × Option κ),
        (cuts.map Prod.fst).sum * target / source ≤
          playedOut cuts r + made / 2 + (block - 256) * made / block) ∧
      ((∀ cuts : List (Nat × Option κ),
        (cuts.map Prod.fst).sum * target / source ≤ playedOut cuts r) ↔
        block * (made + made / 2) < (256 + Nat.gcd 256 block) * made + block) := by
  have hb := BlockLengths.source_pos hs target
  refine ⟨ofBlocks (.ofRates source target), make_of_pos hs ht, ?_, ?_⟩
  · intro uses
    have hholds := holds_perform hb uses
    simp only [perform_concat]
    exact ⟨hholds.flush_eq, hholds.reset_eq⟩
  · intro g k block made
    simp only [playedOut_ofBlocks hb, BlockLengths.mul_target_div_source hs]
    refine ⟨fun cuts => BlockLengths.mul_target_div_le hb _, ?_, ?_⟩
    · intro h
      refine BlockLengths.isShort_of_le_flushed hb fun t => ?_
      simpa using h [(t, none)]
    · intro h cuts
      have hshort : (BlockLengths.ofRates source target).IsShort := h
      exact hshort.le_flushed hb _

/-- At these rates nothing stays behind. -/
theorem played_out_iff_up :
    0 < 24000 ∧ 0 < 44100 ∧ ∃ r : Resampler Unit, make 24000 44100 = .ok r ∧
      ∀ cuts : List (Nat × Option Unit),
        (cuts.map Prod.fst).sum * 44100 / 24000 ≤ playedOut cuts r := by
  have hs : 0 < 24000 := by decide
  have ht : 0 < 44100 := by decide
  obtain ⟨r, hr, -, -, hiff⟩ := @played_out_iff Unit 24000 44100 hs ht
  exact ⟨hs, ht, r, hr, hiff.mpr (by decide)⟩

/-- A single pass of audio, of which more than a third stays behind. -/
theorem tail_left_behind :
    ∃ r : Resampler Unit, make 96000 44100 = .ok r ∧ playedOut [(256, none)] r = 74 ∧
      ¬ 256 * 44100 / 96000 ≤ playedOut [(256, none)] r :=
  ⟨_, rfl, by decide, by decide⟩

end Resampler

end Elocution.Output
