import Elocution.CommandLine.Recital
import Elocution.Proofs.Session.Duration

/-!
# Whether the wait is long enough

A text without markers is notified of once, at its end, and the wait for that grows with its
characters. Letters, each with a mark, a blank and a long pause after it, take more of it than a
character adds if they are spoken at the slowest: the wait is long enough for all shorter texts, and
for all texts at other settings.
-/

namespace Elocution.CommandLine

open Speech Speech.Session

variable {rig : Rig} {s : Session} {text : List Char} {paged : Bool}

theorem longestWaitMs_of_lt (h : text.length < 2 ^ 32) :
    longestWaitMs text = 30000 + 250 * text.length := by
  have hmin : min text.length (UInt32.size - 1) = text.length := Nat.min_eq_left (by
    change _ ≤ 2 ^ 32 - 1
    omega)
  rw [longestWaitMs, hmin]
  rfl

/-- When the wait for a text covers what its characters are allowed. -/
theorem allowance_le_longestWaitMs {letter pause : Nat} (hlength : text.length < 2 ^ 32)
    (h : letter * (text.length + 1) + (10 + pause - 2 * letter) * ((text.length + 1) / 3) ≤
      29960 + 250 * text.length) :
    40 + allowance letter pause (text.length + 1) ≤ longestWaitMs text := by
  rw [longestWaitMs_of_lt hlength, allowance]
  omega

/-- Whatever a text is, its frames last no longer than a letter at its slowest for each character,
and what is left over of a long pause for every three. The wait for its end covers that if the text
is shorter than 1784 characters, or if pauses are not long, or if the rate is not among the five
slowest. -/
theorem recital_within_wait (he : rig.engine = fun _ => Voice.synthesize .builtin)
    (hp : rig.phonemize = id) (hv : s.settings.validate .builtin = .ok ())
    (hs : s.synthesizer =
      .fetched ⟨.ofBlocks (rig.blocks ⟨commandsOf text false, paged⟩), s.generation⟩) :
    (s.isGated = false → ∃ n t,
        Run (jobStep? rig) s (.synthesize :: List.replicate n .synthesize) t ∧
          t.synthesizer = .idle ∧ t.generation = s.generation) ∧
      ∀ acts t, Run (jobStep? rig) s (.synthesize :: acts) t → t.synthesizer = .idle →
        t.generation = s.generation →
        ∃ frames, t.queued = s.queued ++ frames ∧
          Frame.lasting frames ≤
            (40 + 190 * (text.length + 1) + 230 * ((text.length + 1) / 3) : ℕ) ∧
          (text.length < 1784 ∨
            text.length < 2 ^ 32 ∧ (s.settings.pauseMode ≠ .long ∨ 5 ≤ s.settings.rate) →
            Frame.lasting frames ≤ longestWaitMs text) := by
  constructor
  · exact exists_job_run hs
  · intro acts t hrun hidle hgen
    obtain ⟨frames, hframes, hqueues⟩ := job_queues hs rfl hrun hidle hgen
    obtain ⟨v, hvoice⟩ := Voice.exists_voice hv
    obtain ⟨-, hrate, -⟩ := VoiceSettings.validate_eq_ok_iff.mp hv
    have hlasting {letter pause : Nat}
        (hk : v.Keeps s.settings.pauseMode s.settings.speed letter pause)
        (hletter : 40 ≤ letter) :
        Frame.lasting frames ≤ (40 + allowance letter pause (text.length + 1) : ℕ) :=
      lasting_text_le he hp hvoice hk hletter hqueues
    have hall := hlasting (Voice.keeps_builtin hvoice hrate) (by decide)
    refine ⟨frames, hframes, by rwa [allowance, ← add_assoc] at hall, ?_⟩
    rintro (hshort | ⟨hlength, hmode | hswift⟩)
    · exact hall.trans (Nat.cast_le.mpr (allowance_le_longestWaitMs (by omega) (by omega)))
    · exact (hlasting (Voice.keeps_of_ne_long hvoice hrate hmode) (by decide)).trans
        (Nat.cast_le.mpr (allowance_le_longestWaitMs hlength (by omega)))
    · exact (hlasting (Voice.keeps_of_swift hvoice hrate hswift) (by decide)).trans
        (Nat.cast_le.mpr (allowance_le_longestWaitMs hlength (by omega)))

theorem recital_within_wait_ok :
    ∃ s t acts, Run (step? Rig.speller) (initial Rig.speller none {})
        [.call (.speak (commandsOf ['o', 'k', '!'] false) false), .synthesize] s ∧
      Run (jobStep? Rig.speller) s (.synthesize :: acts) t ∧ t.synthesizer = .idle ∧
      Frame.lasting t.queued ≤ longestWaitMs ['o', 'k', '!'] := by
  let x : Saying := ⟨commandsOf ['o', 'k', '!'] false, false⟩
  let s := (initial Rig.speller none {}).after (step? Rig.speller)
    [.call (.speak x.commands x.paged), .synthesize]
  have hfetched : s.synthesizer = .fetched ⟨.ofBlocks (Rig.speller.blocks x), s.generation⟩ := rfl
  have hvalid : s.settings.validate .builtin = .ok () := by decide +kernel
  obtain ⟨hend, hall⟩ := @recital_within_wait Rig.speller s ['o', 'k', '!'] false rfl rfl hvalid
    hfetched
  obtain ⟨n, t, hrun, hidle, hgen⟩ := hend rfl
  obtain ⟨frames, hframes, -, hwait⟩ := hall _ t hrun hidle hgen
  have hqueued : t.queued = frames := hframes
  exact ⟨s, t, _, Run.after rfl, hrun, hidle, hqueued ▸ hwait (.inl (by decide))⟩

/-! ## A text that outlasts the wait -/

/-- So many sentences of one letter each, with a space ahead of each. -/
def sentences : Nat → List Char
  | 0 => []
  | n + 1 => ' ' :: 'a' :: '.' :: sentences n

/-- A sentence of one letter, and more of them. -/
def pausing (n : Nat) : List Char := 'a' :: '.' :: sentences n

theorem length_sentences (n : Nat) : (sentences n).length = 3 * n := by
  induction n with
  | zero => rfl
  | succ n ih =>
    change (sentences n).length + 3 = _
    omega

theorem squeezeFrom_sentences (n : Nat) :
    Text.squeezeFrom false (sentences n) = sentences n := by
  induction n with
  | zero => rfl
  | succ n ih =>
    change ' ' :: 'a' :: '.' :: Text.squeezeFrom false (sentences n) = _
    rw [ih, sentences]

theorem squeeze_pausing (n : Nat) : Text.squeeze (pausing n) = pausing n := by
  change 'a' :: '.' :: Text.squeezeFrom false (sentences n) = _
  rw [squeezeFrom_sentences, pausing]

theorem piecesFrom_sentences (n : Nat) :
    Clause.piecesFrom true (sentences n) = ([], List.replicate n [' ', 'a', '.']) := by
  induction n with
  | zero => rfl
  | succ n ih =>
    change (([] : List Char), (' ' :: 'a' :: '.' :: (Clause.piecesFrom true (sentences n)).1) ::
      (Clause.piecesFrom true (sentences n)).2) = _
    rw [ih, List.replicate_succ]

/-- The clause that each of the sentences is. -/
def lone : Clause := ⟨['a', '.'], .statement, some 300⟩

theorem split_pausing (n : Nat) :
    Clause.split .long (pausing n) = List.replicate (n + 1) lone := by
  have hpieces : Clause.pieces (pausing n) = ['a', '.'] :: List.replicate n [' ', 'a', '.'] := by
    change ('a' :: '.' :: (Clause.piecesFrom true (sentences n)).1) ::
      (Clause.piecesFrom true (sentences n)).2 = _
    rw [piecesFrom_sentences]
  have hfirst : Clause.ofPiece? .long ['a', '.'] = some lone := by decide +kernel
  have hother : Clause.ofPiece? .long [' ', 'a', '.'] = some lone := by decide +kernel
  rw [Clause.split, hpieces, List.filterMap_cons_some hfirst,
    List.filterMap_replicate_of_some hother]
  rfl

/-- The slowest voice at its slowest, with long pauses. -/
def slowest : VoiceSettings := { voice := "caleb", rate := 0, pauseMode := .long }

def caleb : Voice := ⟨95, 25, 95, 50⟩

theorem speed_offsetPitch (s : VoiceSettings) (offset : Float32) :
    (s.prosody.offsetPitch offset).speed = s.speed := rfl

theorem clauseAnswer_lone (v : Voice) (p : Prosody) :
    clauseAnswer v p lone = [.silence Voice.leadingSilence 0,
      v.letterFrame p .statement (lone.text.countP Text.isAlphanumeric) 0 'a'] := by
  have hspoken : Text.isAlphanumeric 'a' = true := by decide +kernel
  have hmark : Text.isAlphanumeric '.' = false := by decide +kernel
  have hvisible : Text.isBlank 'a' = false ∧ Text.isBlank '.' = false := by decide
  simp [clauseAnswer, lone, Voice.letterFrames, hspoken, hmark, hvisible]

theorem le_lasting_lone {p : Prosody} (hp : p.speed = slowest.speed) (clip : Bool) :
    800 ≤ Frame.lasting (clauseFrames caleb p clip lone) := by
  have hletter : Single.value (caleb.letterDuration 'a' / p.speed) = 190 := by
    rw [hp]
    exact Single.value_eq_natCast (by decide +kernel) (by decide +kernel)
  have hpause : Single.value (300 / p.speed) = 600 := by
    rw [hp]
    exact Single.value_eq_natCast (by decide +kernel) (by decide +kernel)
  have hlead : Frame.lead (clauseAnswer caleb p lone) = [.silence Voice.leadingSilence 0] := by
    rw [clauseAnswer_lone, Frame.lead_of_silent rfl, Frame.lead_of_voiced rfl]
  have hfinite : ∀ f ∈ Frame.lead (clauseAnswer caleb p lone), f.duration.isFinite = true := by
    rw [hlead]
    decide +kernel
  have hbody : Frame.lasting (Frame.body (clauseAnswer caleb p lone)) = 190 := by
    rw [clauseAnswer_lone, Frame.body_of_silent rfl, Frame.body_of_voiced rfl, Frame.lasting_cons,
      Frame.lasting_nil, add_zero]
    exact hletter
  have hlast : Frame.lasting (Task.pauseFrames (lone.text.any Text.isAlphanumeric)
      (lone.pause.map (· / p.speed))) = 600 := by
    have hspoken : lone.text.any Text.isAlphanumeric = true := by decide +kernel
    rw [hspoken]
    change Single.value (300 / p.speed) + 0 = 600
    rw [hpause, add_zero]
  have hroom : (0 : ℚ) ≤ headroom clip := Nat.cast_nonneg _
  rw [clauseFrames, Frame.lasting_append, Frame.Shaper.lasting_yields clip hfinite, hlead, hbody,
    hlast, List.map_singleton, List.sum_singleton, kept_leadingSilence]
  linarith

/-- A text of 1784 characters, spoken at the slowest: its end is not reached within the wait. -/
theorem recital_outlasts_wait :
    ∃ text s t acts, slowest.validate .builtin = .ok () ∧
      Run (step? Rig.speller) (initial Rig.speller none slowest)
        [.call (.speak (commandsOf text false) false), .synthesize] s ∧
      Run (jobStep? Rig.speller) s (.synthesize :: acts) t ∧ t.synthesizer = .idle ∧
      t.generation = s.generation ∧ text.length = 1784 ∧
      longestWaitMs text < Frame.lasting t.queued := by
  let text := pausing 594
  let x : Saying := ⟨commandsOf text false, false⟩
  let s := (initial Rig.speller none slowest).after (step? Rig.speller)
    [.call (.speak x.commands x.paged), .synthesize]
  have hfetched : s.synthesizer = .fetched ⟨.ofBlocks (Rig.speller.blocks x), s.generation⟩ := rfl
  have hvoice : VoiceTable.builtin.get? slowest.voice = some caleb := by decide +kernel
  have hlength : text.length = 1784 := by
    change (sentences 594).length + 2 = 1784
    rw [length_sentences]
  have hsettings : s.settings = slowest := rfl
  have hblank : Text.allBlank text = false := rfl
  have hkind : JobKind.ofBlocks (Rig.speller.blocks x) = .speak [⟨Text.squeeze text, [], 0⟩] := by
    change JobKind.ofBlocks (Rig.speller.blocks ⟨[.text text], false⟩) = _
    rw [Rig.ofBlocks_text, hblank, if_neg Bool.false_ne_true]
  have hclauses : Clause.split slowest.pauseMode (Text.squeeze text) =
      List.replicate 595 lone := by
    rw [squeeze_pausing]
    exact split_pausing 594
  obtain ⟨n, t, hrun, hidle, hgen⟩ := @exists_job_run Rig.speller s _ hfetched rfl
  obtain ⟨frames, hframes, hqueues⟩ := job_queues hfetched rfl hrun hidle hgen
  rw [hsettings, hkind] at hqueues
  have htext := hqueues.of_text
  rw [hclauses] at htext
  obtain ⟨spent, more, later, rfl, hmore, hspent⟩ := htext.le_lasting_clauses rfl rfl hvoice
    fun k hk clip => by
      rw [List.eq_of_mem_replicate hk]
      exact le_lasting_lone (speed_offsetPitch slowest 0) clip
  have hlast : Frame.lasting more = 10 := by
    rw [hmore.of_closing, Frame.lasting_cons, Frame.lasting_nil, add_zero]
    exact value_closingSilence
  refine ⟨text, s, t, _, by decide +kernel, Run.after rfl, hrun, hidle, hgen, hlength, ?_⟩
  have hqueued : t.queued = spent ++ more := hframes
  rw [hqueued, Frame.lasting_append, hlast, longestWaitMs_of_lt (by omega), hlength]
  rw [List.length_replicate] at hspent
  norm_num at hspent ⊢
  linarith

end Elocution.CommandLine
