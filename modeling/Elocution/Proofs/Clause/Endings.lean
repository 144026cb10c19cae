import Elocution.Proofs.Clause.Cuts

/-!
# Where sentences end

Whether a text ends a sentence is told in two ways: by its last character, blanks and closers
aside, and by the pause after its last clause. Both tell the same, for a clause begins at a blank
or where the text begins, and nothing before a blank counts for what comes after it.
-/

namespace Elocution

namespace Text

variable {s : List Char} {c : Char}

theorem lastBeforeClosers_append (s t : List Char) :
    lastBeforeClosers (s ++ t) = (lastBeforeClosers t).or (lastBeforeClosers s) := by
  induction t using List.reverseRecOn with
  | nil =>
    rw [List.append_nil]
    rfl
  | append_singleton t c ih =>
    rw [← List.append_assoc, lastBeforeClosers_concat, lastBeforeClosers_concat, ih]
    split
    · rfl
    · rfl

theorem isClauseBreak_of_isSentenceEnd (h : isSentenceEnd c = true) : isClauseBreak c = true := by
  have hall : sentenceEnds.all isClauseBreak = true := by decide
  exact List.all_eq_true.1 hall c (List.contains_iff_mem.1 h)

theorem not_isSentenceEnd_of_isBlank (h : isBlank c = true) : isSentenceEnd c = false := by
  apply Bool.eq_false_iff.2
  intro hend
  have hvisible := (of_isClauseBreak (isClauseBreak_of_isSentenceEnd hend)).1
  rw [h] at hvisible
  cases hvisible

theorem not_isCloser_of_isBlank (h : isBlank c = true) : isCloser c = false := by
  apply Bool.eq_false_iff.2
  intro hcloser
  rw [isBlank_of_isCloser hcloser] at h
  cases h

theorem allBlank_cons_of_isBlank (h : isBlank c = true) (s : List Char) :
    allBlank (c :: s) = allBlank s := by
  rw [allBlank, List.all_cons, h, Bool.true_and]
  rfl

theorem trimEnd_trim (s : List Char) : trimEnd (trim s) = trim s :=
  List.rdropWhile_idempotent isBlank (s.dropWhile isBlank)

theorem trimEnd_append_of_visible (before : List Char) (hs : allBlank s = false) :
    trimEnd (before ++ s) = before ++ trimEnd s := by
  have hleft : (s.reverse.dropWhile isBlank).isEmpty = false := by
    apply Bool.eq_false_iff.2
    intro hnil
    have hblank := List.dropWhile_eq_nil_iff.1 (List.isEmpty_iff.1 hnil)
    have hall : allBlank s = true := by
      apply List.all_eq_true.2
      intro c hc
      exact hblank c (List.mem_reverse.2 hc)
    rw [hs] at hall
    cases hall
  rw [trimEnd, dropEndWhile, List.reverse_append, List.dropWhile_append, hleft, if_neg (by simp),
    List.reverse_append, List.reverse_reverse]
  rfl

theorem endsSentence_append_blank (s : List Char) {t : List Char} (h : allBlank t = true) :
    endsSentence (s ++ t) = endsSentence s := by
  rw [endsSentence, trimEnd_append_blank s h]
  rfl

/-- What stands before a blank does not count, if something can be spoken after it. -/
theorem endsSentence_append_cons (before : List Char) (hc : isBlank c = true)
    (hs : allBlank s = false) : endsSentence (before ++ c :: s) = endsSentence s := by
  rw [endsSentence, List.append_cons, trimEnd_append_of_visible _ hs, lastBeforeClosers_append,
    lastBeforeClosers_concat, not_isCloser_of_isBlank hc, endsSentence]
  cases lastBeforeClosers (trimEnd s) with
  | none => exact not_isSentenceEnd_of_isBlank hc
  | some d => rfl

theorem endsSentence_dropWhile_isBlank (hs : allBlank s = false) :
    endsSentence (s.dropWhile isBlank) = endsSentence s := by
  induction s with
  | nil => rfl
  | cons c rest ih =>
    rw [List.dropWhile_cons]
    split
    · rename_i hc
      rw [allBlank_cons_of_isBlank hc] at hs
      rw [ih hs]
      exact (endsSentence_append_cons [] hc hs).symm
    · rfl

theorem endsSentence_trim (hs : allBlank s = false) : endsSentence (trim s) = endsSentence s := by
  rw [← endsSentence_dropWhile_isBlank hs, endsSentence, trimEnd_trim]
  rfl

end Text

namespace Clause

variable {mode : PauseMode} {piece : List Char} {k : Clause}

/-- A text is cut at blanks only. -/
theorem exists_blank_of_mem_piecesFrom {armed : Bool} {s : List Char}
    (h : piece ∈ (piecesFrom armed s).2) : ∃ c rest, piece = c :: rest ∧ Text.isBlank c = true := by
  induction s generalizing armed with
  | nil => cases h
  | cons c rest ih =>
    cases hcut : armed && Text.isBlank c with
    | true =>
      rw [piecesFrom_of_cut hcut] at h
      rcases List.mem_cons.1 h with rfl | h
      · exact ⟨c, _, rfl, (Bool.and_eq_true_iff.1 hcut).2⟩
      · exact ih h
    | false =>
      rw [piecesFrom_of_not_cut hcut] at h
      exact ih h

/-- Pieces that are put together at blanks end a sentence if the last clause of them does. -/
theorem endsSentence_flatten (mode : PauseMode) {pieces : List (List Char)}
    (h : ∀ piece ∈ pieces.tail, ∃ c rest, piece = c :: rest ∧ Text.isBlank c = true) :
    Text.endsSentence pieces.flatten =
      (pieces.filterMap (ofPiece? mode)).getLast?.any fun k => Text.endsSentence k.text := by
  -- From the end, because a piece that is blank leaves the decision to those before it.
  induction pieces using List.reverseRecOn with
  | nil => rfl
  | append_singleton before piece ih =>
    rw [List.flatten_append, List.flatten_cons, List.flatten_nil, List.append_nil,
      List.filterMap_append]
    cases hblank : Text.allBlank piece with
    | true =>
      rw [List.filterMap_cons_none (ofPiece?_of_blank hblank), List.filterMap_nil, List.append_nil,
        Text.endsSentence_append_blank _ hblank]
      apply ih
      intro other hother
      cases before with
      | nil => cases hother
      | cons first more => exact h other (List.mem_append_left [piece] hother)
    | false =>
      rw [List.filterMap_cons_some (ofPiece?_of_visible hblank), List.filterMap_nil,
        List.getLast?_concat, Option.any_some, Text.endsSentence_trim hblank]
      cases before with
      | nil => rfl
      | cons first more =>
        obtain ⟨c, rest, rfl, hc⟩ := h piece (List.mem_append_right more List.mem_cons_self)
        rw [Text.allBlank_cons_of_isBlank hc] at hblank
        rw [Text.endsSentence_append_cons _ hc hblank]
        exact (Text.endsSentence_append_cons [] hc hblank).symm

theorem endsSentence_eq_any (mode : PauseMode) (s : List Char) :
    Text.endsSentence s = (split mode s).getLast?.any fun k => Text.endsSentence k.text := by
  rw [split, ← endsSentence_flatten mode, flatten_pieces]
  intro piece hpiece
  exact exists_blank_of_mem_piecesFrom hpiece

theorem classify_closes_iff (s : List Char) :
    ((classify s).2 = true ∧ (classify s).1.endsSentence = true) ↔
      (Text.lastBeforeClosers s).any Text.isSentenceEnd = true := by
  rw [classify]
  cases Text.lastBeforeClosers s with
  | none => simp
  | some c => split <;> simp_all [Text.isSentenceEnd, Text.sentenceEnds, Intonation.endsSentence]

theorem pause?_eq_statement_iff (hmode : mode ≠ .off) (i : Intonation) :
    mode.pause? i = mode.pause? .statement ↔ i.endsSentence = true := by
  cases mode with
  | off => exact absurd rfl hmode
  | short => cases i <;> decide
  | long => cases i <;> decide

theorem pause_ofPiece?_iff (hmode : mode ≠ .off) (h : ofPiece? mode piece = some k) :
    k.pause = mode.pause? .statement ↔ Text.endsSentence k.text = true := by
  rw [ofPiece?_of_visible (visible_of_ofPiece? h)] at h
  obtain rfl := Option.some.inj h
  dsimp only
  rw [Text.endsSentence, Text.trimEnd_trim, ← classify_closes_iff]
  cases (classify (Text.trim piece)).2 with
  | true =>
    rw [if_pos rfl, pause?_eq_statement_iff hmode]
    exact (and_iff_right rfl).symm
  | false =>
    have hsome := (isSome_pause? mode .statement).2 hmode
    rw [if_neg Bool.false_ne_true]
    apply iff_of_false
    · intro hnone
      rw [← hnone] at hsome
      cases hsome
    · rintro ⟨hmarked, -⟩
      cases hmarked

/-- A text ends a sentence if and only if it has a last clause and the pause after that clause is
the one between sentences, as long as there are pauses. -/
theorem endsSentence_iff_pause (mode : PauseMode) (hmode : mode ≠ .off) (s : List Char) :
    Text.endsSentence s = true ↔
      ∃ k, (split mode s).getLast? = some k ∧ k.pause = mode.pause? .statement := by
  have hpause {k : Clause} (hlast : (split mode s).getLast? = some k) :
      k.pause = mode.pause? .statement ↔ Text.endsSentence k.text = true := by
    obtain ⟨piece, -, hof⟩ := List.mem_filterMap.1 (List.mem_of_getLast? hlast)
    exact pause_ofPiece?_iff hmode hof
  rw [endsSentence_eq_any mode, Option.any_eq_true]
  constructor
  · rintro ⟨k, hlast, hends⟩
    exact ⟨k, hlast, (hpause hlast).2 hends⟩
  · rintro ⟨k, hlast, hends⟩
    exact ⟨k, hlast, (hpause hlast).1 hends⟩

/-- A quotation after a comma, closed and followed by a blank. -/
theorem endsSentence_iff_pause_quoted :
    let s := ['o', 'h', ',', ' ', '"', 'n', 'o', '!', '"', ' ']
    PauseMode.long ≠ .off ∧ Text.endsSentence s = true ∧
      ∃ k, (split .long s).getLast? = some k ∧ k.pause = some 300 := by
  intro s
  have hmode : PauseMode.long ≠ .off := by decide
  have hends : Text.endsSentence s = true := by decide
  exact ⟨hmode, hends, (endsSentence_iff_pause .long hmode s).1 hends⟩

end Clause

end Elocution
