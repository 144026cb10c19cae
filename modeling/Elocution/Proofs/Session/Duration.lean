import Elocution.Proofs.Clause.Lengths
import Elocution.Proofs.Session.Frames
import Elocution.Proofs.Voice.Pace

/-!
# How long a job lasts

A clause lasts as long as its letters and gaps, the silence ahead of them and the pause after it. A
clause with a pause has a letter and a mark at least, and a blank or nothing after it, and the mark
and the blank take no time: so the silence and the pause are made up for in part. What is left over
is allowed for once in three characters.
-/

namespace Elocution.Speech

/-! ## The allowance -/

/-- The time allowed for so many characters, at no more than `letter` milliseconds for each and
pauses of no more than `pause`. -/
def allowance (letter pause n : Nat) : Nat := letter * n + (10 + pause - 2 * letter) * (n / 3)

section Allowance

variable {letter pause m n : Nat}

theorem allowance_mono (h : m ≤ n) : allowance letter pause m ≤ allowance letter pause n := by
  unfold allowance
  gcongr

theorem allowance_add_le (letter pause m n : Nat) :
    allowance letter pause m + allowance letter pause n ≤ allowance letter pause (m + n) := by
  have hfloor : m / 3 + n / 3 ≤ (m + n) / 3 := by omega
  calc allowance letter pause m + allowance letter pause n
      = letter * (m + n) + (10 + pause - 2 * letter) * (m / 3 + n / 3) := by
        unfold allowance
        ring
    _ ≤ allowance letter pause (m + n) := by
        unfold allowance
        gcongr

/-- A clause of `n` characters, `m` of which take time. -/
theorem le_allowance (hletter : 40 ≤ letter) (h : m ≤ n) :
    40 + letter * m ≤ allowance letter pause (n + 1) := by
  have hm := Nat.mul_le_mul_left letter h
  unfold allowance
  rw [Nat.mul_add_one]
  omega

/-- A clause with a mark and a pause. -/
theorem le_allowance_of_marked (hm : 1 ≤ m) (h : m + 1 ≤ n) :
    10 + letter * m + pause ≤ allowance letter pause (n + 1) := by
  have hthree : 1 ≤ (n + 1) / 3 := by omega
  have hover := Nat.mul_le_mul_left (10 + pause - 2 * letter) hthree
  have htwo := Nat.mul_le_mul_left letter (by omega : m + 2 ≤ n + 1)
  rw [Nat.mul_add] at htwo
  unfold allowance
  omega

end Allowance

/-! ## Clauses -/

/-- How much more silence than the cap may still be let through, in milliseconds. -/
def headroom (seen : Bool) : Nat := if seen then 0 else 30

/-- What a clause is answered with. -/
def clauseAnswer (v : Voice) (p : Prosody) (k : Clause) : List Frame :=
  .silence Voice.leadingSilence 0 ::
    v.letterFrames p k.intonation (k.text.countP Text.isAlphanumeric) 0 k.text

/-- What is queued for a clause, its pause included. -/
def clauseFrames (v : Voice) (p : Prosody) (clip : Bool) (k : Clause) : List Frame :=
  Frame.Shaper.yields { clipLeading := clip } (clauseAnswer v p k) ++
    Task.pauseFrames (k.text.any Text.isAlphanumeric) (k.pause.map (· / p.speed))

theorem any_isVoiced_clauseAnswer (v : Voice) (p : Prosody) (k : Clause) :
    (clauseAnswer v p k).any Frame.isVoiced = k.text.any Text.isAlphanumeric := by
  rw [clauseAnswer, List.any_cons, Voice.any_isVoiced_letterFrames]
  rfl

theorem value_leadingSilence : Single.value Voice.leadingSilence = 40 :=
  Single.value_eq_natCast (by decide +kernel) (by decide +kernel)

theorem kept_leadingSilence (clip : Bool) :
    Frame.kept clip (.silence Voice.leadingSilence 0) = 10 + headroom clip := by
  change (if clip then min (Single.value Voice.leadingSilence) 10 else
    Single.value Voice.leadingSilence) = _
  rw [value_leadingSilence]
  cases clip <;> norm_num [headroom]

section Clause

variable {v : Voice} {mode : PauseMode} {p : Prosody} {letter pause : Nat} {k : Clause}
  {seen clip : Bool}

theorem lasting_pauseFrames_le (h : v.Keeps mode p.speed letter pause) (hk : k.IsRead mode) :
    Frame.lasting (Task.pauseFrames true (k.pause.map (· / p.speed))) ≤
      (if k.pause.isSome then pause else 0 : ℕ) := by
  cases hp : k.pause with
  | none => exact le_rfl
  | some ms =>
    have hle := h.pauses _ ms (hk.pause ms hp)
    change Single.value (ms / p.speed) + 0 ≤ (pause : ℚ)
    linarith

theorem lasting_answer_le (h : v.Keeps mode p.speed letter pause) (clip : Bool) (k : Clause) :
    Frame.lasting (Frame.Shaper.yields { clipLeading := clip } (clauseAnswer v p k)) ≤
      (10 + headroom clip + letter * k.text.countP Text.takesTime : ℕ) := by
  let letters := v.letterFrames p k.intonation (k.text.countP Text.isAlphanumeric) 0 k.text
  have hfinite : ∀ f ∈ clauseAnswer v p k, f.duration.isFinite = true :=
    List.forall_mem_cons.mpr ⟨by decide +kernel, h.isFinite_letterFrames _ _ _ _⟩
  have hletters : Frame.lasting letters ≤ letter * k.text.countP Text.takesTime :=
    h.lasting_letterFrames_le ..
  have hall := Frame.Shaper.lasting_yields_cons_le clip rfl hfinite
  rw [kept_leadingSilence] at hall
  push_cast
  exact hall.trans (add_le_add_right hletters _)

/-- A clause with a pause has a mark, which takes no time. -/
theorem countP_takesTime_lt (hk : k.IsRead mode) (hp : k.pause.isSome = true) :
    k.text.countP Text.takesTime + 1 ≤ k.text.length := by
  obtain ⟨c, hmem, hc⟩ := Text.exists_clauseBreak (hk.paused.mp hp).1
  have hno : Text.takesTime c = false := by
    rw [Text.takesTime, (Text.of_isClauseBreak hc).1, Text.isAlphanumeric_of_isClauseBreak hc]
    rfl
  have hsplit := List.length_eq_countP_add_countP Text.takesTime (l := k.text)
  have hpos : 0 < k.text.countP (fun c => ¬ Text.takesTime c = true) :=
    List.countP_pos_iff.mpr ⟨c, hmem, by simp [hno]⟩
  omega

/-- A clause keeps to its allowance, but for the silence ahead of the first voice of a job. -/
theorem lasting_clause_le (h : v.Keeps mode p.speed letter pause) (hletter : 40 ≤ letter)
    (hk : k.IsRead mode) (hc : seen = true → clip = true) :
    Frame.lasting (clauseFrames v p clip k) + headroom (seen || k.text.any Text.isAlphanumeric) ≤
      (headroom seen + allowance letter pause (k.text.length + 1) : ℕ) := by
  have hanswer := lasting_answer_le h clip k
  have hunmarked : 40 + letter * k.text.countP Text.takesTime ≤
      allowance letter pause (k.text.length + 1) :=
    le_allowance hletter List.countP_le_length
  rw [clauseFrames, Frame.lasting_append]
  cases hv : k.text.any Text.isAlphanumeric with
  | false =>
    have hroom : headroom clip ≤ 30 := by cases clip <;> decide
    have hnone : Frame.lasting (Task.pauseFrames false (k.pause.map (· / p.speed))) = 0 := rfl
    rw [hnone, Bool.or_false, add_zero]
    calc _ ≤ ((10 + headroom clip + letter * k.text.countP Text.takesTime : ℕ) : ℚ) +
          headroom seen := add_le_add_left hanswer _
      _ ≤ _ := by
        rw [← Nat.cast_add]
        exact Nat.cast_le.mpr (by omega)
  | true =>
    have hroom : headroom clip ≤ headroom seen := by
      cases seen with
      | true => rw [hc rfl]
      | false => cases clip <;> decide
    have hmarked : 10 + letter * k.text.countP Text.takesTime +
        (if k.pause.isSome then pause else 0) ≤ allowance letter pause (k.text.length + 1) := by
      split
      · rename_i hp
        obtain ⟨c, hmem, hc⟩ := List.any_eq_true.mp hv
        refine le_allowance_of_marked ?_ (countP_takesTime_lt hk hp)
        exact List.countP_pos_iff.mpr ⟨c, hmem, by rw [Text.takesTime, hc, Bool.or_true]⟩
      · omega
    have hnone : headroom (seen || true) = 0 := by rw [Bool.or_true]; rfl
    rw [hnone, Nat.cast_zero, add_zero]
    calc _ ≤ ((10 + headroom clip + letter * k.text.countP Text.takesTime : ℕ) : ℚ) +
          (if k.pause.isSome then pause else 0 : ℕ) :=
          add_le_add hanswer (lasting_pauseFrames_le h hk)
      _ ≤ _ := by
        rw [← Nat.cast_add]
        exact Nat.cast_le.mpr (by omega)

end Clause

/-! ## Jobs -/

section Job

variable {rig : Rig} {settings : VoiceSettings} {v : Voice} {voices : VoiceTable}
  {letter pause : Nat} {prosody : Prosody} {seen : Bool} {tasks : List Task} {frames : List Frame}

namespace Task

theorem Queues.of_spelt_clause {k : Clause} (he : rig.engine = fun _ => Voice.synthesize voices)
    (hp : rig.phonemize = id) (hv : voices.get? settings.voice = some v)
    (h : Queues rig settings seen (.clause prosody k :: tasks) frames) :
    ∃ clip more, (seen = true → clip = true) ∧ frames = clauseFrames v prosody clip k ++ more ∧
      Queues rig settings (seen || k.text.any Text.isAlphanumeric) tasks more := by
  have hanswer (past : List Request) : rig.engine past (rig.request settings.voice prosody k) =
      .ok (clauseAnswer v prosody k) := by
    rw [he]
    dsimp only
    rw [Voice.synthesize, Rig.request, hp, hv]
    rfl
  obtain ⟨past, answer, clip, more, hok, hclip, rfl, hmore⟩ :=
    h.of_clause fun past => ⟨_, hanswer past⟩
  obtain rfl : clauseAnswer v prosody k = answer := Except.ok.inj ((hanswer past).symm.trans hok)
  rw [any_isVoiced_clauseAnswer] at hmore ⊢
  exact ⟨clip, more, hclip, (List.append_assoc ..).symm, hmore⟩

/-- Clauses that are answered with letters keep to their allowance together. -/
theorem Queues.lasting_clauses_le {clauses : List Clause}
    (he : rig.engine = fun _ => Voice.synthesize voices) (hp : rig.phonemize = id)
    (hv : voices.get? settings.voice = some v)
    (hk : v.Keeps settings.pauseMode prosody.speed letter pause) (hletter : 40 ≤ letter)
    (hread : ∀ k ∈ clauses, k.IsRead settings.pauseMode)
    (h : Queues rig settings seen (clauses.map (.clause prosody) ++ tasks) frames) :
    ∃ spent more later, frames = spent ++ more ∧ Queues rig settings later tasks more ∧
      Frame.lasting spent ≤
        (headroom seen + allowance letter pause (Clause.extent clauses) : ℕ) - headroom later := by
  induction clauses generalizing seen frames with
  | nil =>
    refine ⟨[], frames, seen, rfl, h, ?_⟩
    rw [Frame.lasting_nil, Nat.cast_add, add_sub_cancel_left]
    exact Nat.cast_nonneg _
  | cons k rest ih =>
    obtain ⟨hfirst, hrest⟩ := List.forall_mem_cons.mp hread
    obtain ⟨clip, later, hclip, rfl, hlater⟩ := Queues.of_spelt_clause he hp hv h
    obtain ⟨spent, more, last, rfl, hmore, hspent⟩ := ih hrest hlater
    have hclause := lasting_clause_le hk hletter hfirst hclip
    have hadd : (allowance letter pause (k.text.length + 1) : ℚ) +
        allowance letter pause (Clause.extent rest) ≤
        allowance letter pause (Clause.extent (k :: rest)) := by
      rw [Clause.extent_cons]
      exact_mod_cast allowance_add_le ..
    refine ⟨_, more, last, (List.append_assoc ..).symm, hmore, ?_⟩
    rw [Frame.lasting_append]
    push_cast at hclause hspent ⊢
    linarith

/-- Clauses that each last so long at least. -/
theorem Queues.le_lasting_clauses {clauses : List Clause} {least : ℚ}
    (he : rig.engine = fun _ => Voice.synthesize voices) (hp : rig.phonemize = id)
    (hv : voices.get? settings.voice = some v)
    (hleast : ∀ k ∈ clauses, ∀ clip, least ≤ Frame.lasting (clauseFrames v prosody clip k))
    (h : Queues rig settings seen (clauses.map (.clause prosody) ++ tasks) frames) :
    ∃ spent more later, frames = spent ++ more ∧ Queues rig settings later tasks more ∧
      clauses.length * least ≤ Frame.lasting spent := by
  induction clauses generalizing seen frames with
  | nil =>
    refine ⟨[], frames, seen, rfl, h, ?_⟩
    rw [List.length_nil, Nat.cast_zero, zero_mul, Frame.lasting_nil]
  | cons k rest ih =>
    obtain ⟨hfirst, hrest⟩ := List.forall_mem_cons.mp hleast
    obtain ⟨clip, later, -, rfl, hlater⟩ := Queues.of_spelt_clause he hp hv h
    obtain ⟨spent, more, last, rfl, hmore, hspent⟩ := ih hrest hlater
    have hclause := hfirst clip
    refine ⟨_, more, last, (List.append_assoc ..).symm, hmore, ?_⟩
    rw [Frame.lasting_append, List.length_cons, Nat.cast_succ, add_mul, one_mul]
    linarith

theorem Queues.of_closing {f : Frame} (h : Queues rig settings seen (closing f) frames) :
    frames = [f.ending] := by
  obtain ⟨more, rfl, hmore⟩ := Queues.of_frame h
  have hnone := (hmore.tail (.inl rfl)).tail (.inl rfl)
  rw [hnone.of_nil]

end Task

/-- A text alone is one block, unless there is nothing in it to be spoken. -/
theorem Rig.ofBlocks_text (rig : Rig) (text : List Char) (paged : Bool) :
    JobKind.ofBlocks (rig.blocks ⟨[.text text], paged⟩) =
      if Text.allBlank text then .notify [] else .speak [⟨Text.squeeze text, [], 0⟩] := by
  rw [blocks, Block.segment, Block.segmentFrom, Block.segmentFrom, Block.Buffer.flush,
    Block.Buffer.isIdle]
  simp only [List.nil_append, List.isEmpty_nil, Bool.and_true]
  cases hblank : Text.allBlank text with
  | true => rfl
  | false =>
    have hsome : (Text.squeeze text).isEmpty = false := by
      rw [List.isEmpty_eq_false_iff]
      intro hnil
      have hall := Text.allBlank_squeezeFrom false text
      rw [← Text.squeeze, hnil, hblank] at hall
      cases hall
    simp [JobKind.ofBlocks, Block.hasText, hsome]

theorem value_closingSilence : Single.value closingSilence = 10 :=
  Single.value_eq_natCast (by decide +kernel) (by decide +kernel)

theorem Task.Queues.of_text {text : List Char}
    (h : Queues rig settings seen (ofJob (.speak [⟨text, [], 0⟩])) frames) :
    Queues rig settings seen
      ((Clause.split settings.pauseMode text).map (.clause (settings.prosody.offsetPitch 0)) ++
        closing (.silence closingSilence closingSilence)) frames := by
  have hblock := (Queues.tail h (.inr rfl)).of_block
  rwa [List.append_assoc] at hblock

/-- A text that is spoken in letters keeps to its allowance, the silence at its beginning and at its
end included. -/
theorem lasting_text_le {text : List Char} {paged : Bool}
    (he : rig.engine = fun _ => Voice.synthesize voices) (hp : rig.phonemize = id)
    (hv : voices.get? settings.voice = some v)
    (hk : v.Keeps settings.pauseMode settings.speed letter pause) (hletter : 40 ≤ letter)
    (h : Task.Queues rig settings false
      (Task.ofJob (.ofBlocks (rig.blocks ⟨[.text text], paged⟩))) frames) :
    Frame.lasting frames ≤ (40 + allowance letter pause (text.length + 1) : ℕ) := by
  rw [Rig.ofBlocks_text] at h
  split at h
  · have hclosing : Task.Queues rig settings false (Task.closing (.silence 0 0)) frames :=
      Task.Queues.tail h (.inr rfl)
    rw [hclosing.of_closing]
    change Single.value 0 + 0 ≤ _
    rw [Single.value_zero, add_zero]
    exact Nat.cast_nonneg _
  · have hblock := Task.Queues.of_text h
    have hread : ∀ k ∈ Clause.split settings.pauseMode (Text.squeeze text),
        k.IsRead settings.pauseMode := by
      intro k hk
      obtain ⟨piece, -, hof⟩ := List.mem_filterMap.mp hk
      exact (Clause.isRead_ofPiece? hof).1
    obtain ⟨spent, more, later, rfl, hmore, hspent⟩ :=
      Task.Queues.lasting_clauses_le he hp hv hk hletter hread hblock
    have hclosing : Task.Queues rig settings later
        (Task.closing (.silence closingSilence closingSilence)) more := hmore
    have hextent : Clause.extent (Clause.split settings.pauseMode (Text.squeeze text)) ≤
        text.length + 1 :=
      (Clause.extent_split_le ..).trans (Nat.succ_le_succ (Text.length_squeeze_le text))
    have hallowance : (allowance letter pause (Clause.extent
        (Clause.split settings.pauseMode (Text.squeeze text))) : ℚ) ≤
        allowance letter pause (text.length + 1) := Nat.cast_le.mpr (allowance_mono hextent)
    have hlast : Frame.lasting [(Frame.silence closingSilence closingSilence).ending] = 10 := by
      change Single.value closingSilence + 0 = 10
      rw [value_closingSilence, add_zero]
    have hroom : headroom false = 30 := rfl
    have hleft : (0 : ℚ) ≤ headroom later := Nat.cast_nonneg _
    rw [hclosing.of_closing, Frame.lasting_append, hlast]
    push_cast [hroom] at hspent ⊢
    linarith

end Job

end Elocution.Speech
