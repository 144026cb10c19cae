import Elocution.Proofs.Clause.Endings

/-!
# Clauses of a text in canonical form

Squeezing a text changes no word of it and nothing at its ends, but that blanks become spaces. So
it is cut where it was cut before, and its clauses are those of the text, squeezed.
-/

namespace Elocution

namespace Text

variable {s : List Char} {c : Char}

/-- What is left of a character that stands alone. -/
def spaced (c : Char) : Char := if isBlank c then ' ' else c

theorem spaced_of_isBlank (h : isBlank c = true) : spaced c = ' ' := if_pos h

theorem spaced_of_visible (h : isBlank c = false) : spaced c = c := if_neg (by simp [h])

theorem spaced_eq_space_iff : spaced c = ' ' ↔ isBlank c = true := by
  cases h : isBlank c with
  | true => exact iff_of_true (spaced_of_isBlank h) rfl
  | false =>
    rw [spaced_of_visible h]
    apply iff_of_false
    · intro hspace
      rw [hspace, isBlank_space] at h
      cases h
    · exact Bool.false_ne_true

/-! ## One run of blanks at a seam -/

/-- Whether a run of blanks is under way after the text, if `inRun` says so before it. -/
def runAfter (inRun : Bool) (s : List Char) : Bool := s.foldl (fun _ c => isBlank c) inRun

theorem runAfter_concat (inRun : Bool) (s : List Char) (c : Char) :
    runAfter inRun (s ++ [c]) = isBlank c := List.foldl_concat ..

theorem squeezeFrom_append (inRun : Bool) (s t : List Char) :
    squeezeFrom inRun (s ++ t) = squeezeFrom inRun s ++ squeezeFrom (runAfter inRun s) t := by
  induction s generalizing inRun with
  | nil => rfl
  | cons c rest ih =>
    rw [runAfter, List.foldl_cons, ← runAfter, List.cons_append]
    cases h : isBlank c with
    | true =>
      rw [squeezeFrom_blank h, squeezeFrom_blank h, ih]
      cases inRun <;> rfl
    | false =>
      rw [squeezeFrom_visible h, squeezeFrom_visible h, ih]
      rfl

theorem squeeze_concat_visible (h : isBlank c = false) (s : List Char) :
    squeeze (s ++ [c]) = squeeze s ++ [c] := by
  rw [squeeze, squeezeFrom_append, squeezeFrom_visible h]
  rfl

/-- A blank at the end of a text is a space at the end of its canonical form. -/
theorem squeeze_concat_blank (h : isBlank c = true) (s : List Char) :
    ∃ front, squeeze (s ++ [c]) = front ++ [' '] := by
  induction s using List.reverseRecOn generalizing c with
  | nil =>
    refine ⟨[], ?_⟩
    rw [squeeze, List.nil_append, squeezeFrom_blank h]
    rfl
  | append_singleton s d ih =>
    rw [squeeze, squeezeFrom_append, runAfter_concat, squeezeFrom_blank h]
    cases hd : isBlank d with
    | true =>
      obtain ⟨front, heq⟩ := ih hd
      refine ⟨front, ?_⟩
      rw [if_pos rfl, squeezeFrom_nil, List.append_nil]
      exact heq
    | false => exact ⟨squeezeFrom false (s ++ [d]), rfl⟩

theorem head?_squeeze (s : List Char) : (squeeze s).head? = s.head?.map spaced := by
  cases s with
  | nil => rfl
  | cons c rest =>
    rw [squeeze]
    cases h : isBlank c with
    | true =>
      rw [squeezeFrom_blank h, List.head?_cons, Option.map_some, spaced_of_isBlank h]
      rfl
    | false =>
      rw [squeezeFrom_visible h, List.head?_cons, List.head?_cons, Option.map_some,
        spaced_of_visible h]

theorem getLast?_squeeze (s : List Char) : (squeeze s).getLast? = s.getLast?.map spaced := by
  induction s using List.reverseRecOn with
  | nil => rfl
  | append_singleton s c _ =>
    rw [List.getLast?_concat, Option.map_some]
    cases h : isBlank c with
    | true =>
      obtain ⟨front, heq⟩ := squeeze_concat_blank h s
      rw [heq, List.getLast?_concat, spaced_of_isBlank h]
    | false => rw [squeeze_concat_visible h, List.getLast?_concat, spaced_of_visible h]

theorem map_spaced_eq_space_iff (o : Option Char) :
    o.map spaced = some ' ' ↔ o.any isBlank = true := by
  cases o with
  | none => exact iff_of_false nofun Bool.false_ne_true
  | some c => rw [Option.map_some, Option.some.injEq, Option.any_some, spaced_eq_space_iff]

/-! ## Spaces -/

theorem eq_space_of_mem_squeezeFrom {inRun : Bool} (hc : c ∈ squeezeFrom inRun s)
    (h : isBlank c = true) : c = ' ' := by
  induction s generalizing inRun with
  | nil => cases hc
  | cons d rest ih =>
    cases hd : isBlank d with
    | true =>
      rw [squeezeFrom_blank hd] at hc
      cases inRun with
      | true => exact ih hc
      | false =>
        rcases List.mem_cons.mp hc with rfl | hc
        · rfl
        · exact ih hc
    | false =>
      rw [squeezeFrom_visible hd] at hc
      rcases List.mem_cons.mp hc with rfl | hc
      · rw [hd] at h
        cases h
      · exact ih hc

theorem not_space_prefix_squeezeFrom (s : List Char) : ¬ [' '] <+: squeezeFrom true s := by
  induction s with
  | nil => exact fun h => nomatch List.prefix_nil.mp h
  | cons c rest ih =>
    cases hc : isBlank c with
    | true =>
      rw [squeezeFrom_blank hc]
      exact ih
    | false =>
      rw [squeezeFrom_visible hc, List.cons_prefix_cons]
      rintro ⟨rfl, -⟩
      cases hc

theorem not_spaces_infix_squeezeFrom (inRun : Bool) (s : List Char) :
    ¬ [' ', ' '] <:+: squeezeFrom inRun s := by
  induction s generalizing inRun with
  | nil => exact fun h => nomatch List.infix_nil.mp h
  | cons c rest ih =>
    cases hc : isBlank c with
    | true =>
      rw [squeezeFrom_blank hc]
      cases inRun with
      | true => exact ih true
      | false =>
        rw [if_neg Bool.false_ne_true, List.infix_cons_iff, List.cons_prefix_cons]
        rintro (⟨-, hspace⟩ | hrest)
        · exact not_space_prefix_squeezeFrom rest hspace
        · exact ih true hrest
    | false =>
      rw [squeezeFrom_visible hc, List.infix_cons_iff, List.cons_prefix_cons]
      rintro (⟨rfl, -⟩ | hrest)
      · cases hc
      · exact ih false hrest

/-! ## Words -/

/-- While a run of blanks is under way, no word is. -/
theorem wordsFrom_squeezeFrom {inRun : Bool} {word : List Char} (s : List Char)
    (h : inRun = true → word = []) : wordsFrom word (squeezeFrom inRun s) = wordsFrom word s := by
  induction s generalizing inRun word with
  | nil => rfl
  | cons c rest ih =>
    have hnext : wordsFrom [] (squeezeFrom true rest) = wordsFrom [] rest := ih fun _ => rfl
    cases hc : isBlank c with
    | true =>
      cases inRun with
      | true =>
        rw [squeezeFrom_blank hc, if_pos rfl, h rfl, hnext, wordsFrom, if_pos hc]
        rfl
      | false =>
        rw [squeezeFrom_blank hc, if_neg Bool.false_ne_true, wordsFrom, if_pos isBlank_space,
          hnext, wordsFrom, if_pos hc]
    | false =>
      have hvisible : ¬ isBlank c = true := Bool.eq_false_iff.mp hc
      rw [squeezeFrom_visible hc, wordsFrom, if_neg hvisible, wordsFrom, if_neg hvisible]
      exact ih nofun

/-! ## Trimming -/

theorem dropWhile_squeezeFrom (inRun : Bool) (s : List Char) :
    (squeezeFrom inRun s).dropWhile isBlank = squeeze (s.dropWhile isBlank) := by
  induction s generalizing inRun with
  | nil => rfl
  | cons c rest ih =>
    cases hc : isBlank c with
    | true =>
      rw [squeezeFrom_blank hc, List.dropWhile_cons_of_pos hc]
      cases inRun with
      | true => exact ih true
      | false =>
        rw [if_neg Bool.false_ne_true, List.dropWhile_cons_of_pos isBlank_space]
        exact ih true
    | false =>
      have hvisible : ¬ isBlank c = true := Bool.eq_false_iff.mp hc
      rw [squeezeFrom_visible hc, List.dropWhile_cons_of_neg hvisible,
        List.dropWhile_cons_of_neg hvisible, squeeze, squeezeFrom_visible hc]

theorem trimEnd_concat_visible (h : isBlank c = false) (s : List Char) :
    trimEnd (s ++ [c]) = s ++ [c] :=
  List.rdropWhile_concat_neg isBlank s c (Bool.eq_false_iff.mp h)

theorem trimEnd_squeeze (s : List Char) : trimEnd (squeeze s) = squeeze (trimEnd s) := by
  induction s using List.reverseRecOn with
  | nil => rfl
  | append_singleton s c ih =>
    cases h : isBlank c with
    | true =>
      have hblank : allBlank [c] = true := List.all_eq_true.mpr (by simpa using h)
      rw [trimEnd_squeeze_append_blank s hblank, trimEnd_append_blank s hblank, ih]
    | false =>
      rw [squeeze_concat_visible h, trimEnd_concat_visible h, trimEnd_concat_visible h,
        squeeze_concat_visible h]

theorem trim_squeeze (s : List Char) : trim (squeeze s) = squeeze (trim s) := by
  rw [trim, squeeze, dropWhile_squeezeFrom, trimEnd_squeeze]
  rfl

theorem lastBeforeClosers_squeeze (s : List Char) :
    lastBeforeClosers (squeeze s) = (lastBeforeClosers s).map spaced := by
  induction s using List.reverseRecOn with
  | nil => rfl
  | append_singleton s c ih =>
    rw [lastBeforeClosers_concat]
    cases h : isBlank c with
    | true =>
      obtain ⟨front, heq⟩ := squeeze_concat_blank h s
      rw [heq, lastBeforeClosers_concat, not_isCloser_of_isBlank h,
        not_isCloser_of_isBlank isBlank_space, if_neg Bool.false_ne_true,
        if_neg Bool.false_ne_true, Option.map_some, spaced_of_isBlank h]
    | false =>
      rw [squeeze_concat_visible h, lastBeforeClosers_concat, ih]
      split
      · rfl
      · rw [Option.map_some, spaced_of_visible h]

end Text

namespace Clause

variable {mode : PauseMode} {s : List Char}

/-- The scan of a squeezed text has the pieces of the text, squeezed. It is not armed while a run of
blanks is under way, so that the blanks that are left out make no cut. -/
theorem piecesFrom_squeezeFrom {armed inRun : Bool} (s : List Char) (h : (inRun && armed) = false) :
    piecesFrom armed (Text.squeezeFrom inRun s) =
      (Text.squeezeFrom inRun (piecesFrom armed s).1,
        (piecesFrom armed s).2.map Text.squeeze) := by
  induction s generalizing armed inRun with
  | nil => rfl
  | cons c rest ih =>
    have hrun := ih (Bool.and_false true)
    cases hc : Text.isBlank c with
    | true =>
      have harms := Text.arms_of_isBlank hc
      cases inRun with
      | true =>
        obtain rfl : armed = false := h
        rw [Text.squeezeFrom_blank hc, if_pos rfl, hrun, piecesFrom_of_not_cut rfl, harms,
          Text.squeezeFrom_blank hc, if_pos rfl]
      | false =>
        rw [Text.squeezeFrom_blank hc, if_neg Bool.false_ne_true]
        cases armed with
        | true =>
          have hcut : (true && Text.isBlank c) = true := hc
          have hspace : (true && Text.isBlank ' ') = true := rfl
          rw [piecesFrom_of_cut hspace, piecesFrom_of_cut hcut, hrun, List.map_cons,
            Text.squeeze, Text.squeezeFrom_blank hc]
          rfl
        | false =>
          rw [piecesFrom_of_not_cut rfl, piecesFrom_of_not_cut rfl, harms,
            Text.arms_of_isBlank Text.isBlank_space, hrun, Text.squeezeFrom_blank hc]
          rfl
    | false =>
      have hcut : (armed && Text.isBlank c) = false := by rw [hc, Bool.and_false]
      have hrest := ih (Bool.false_and (arms armed c))
      rw [Text.squeezeFrom_visible hc, piecesFrom_of_not_cut hcut, piecesFrom_of_not_cut hcut,
        Text.squeezeFrom_visible hc, hrest]

theorem pieces_squeeze (s : List Char) : pieces (Text.squeeze s) = (pieces s).map Text.squeeze := by
  rw [pieces, Text.squeeze, piecesFrom_squeezeFrom s (Bool.false_and false)]
  rfl

theorem classify_of_blank {c : Char} (h : Text.lastBeforeClosers s = some c)
    (hc : Text.isBlank c = true) : classify s = (.statement, false) := by
  rw [classify, h]
  split <;> simp_all [Text.isBlank]

theorem classify_squeeze (s : List Char) : classify (Text.squeeze s) = classify s := by
  have hlast := Text.lastBeforeClosers_squeeze s
  cases h : Text.lastBeforeClosers s with
  | none =>
    rw [h] at hlast
    rw [classify, hlast, classify, h]
    rfl
  | some c =>
    rw [h, Option.map_some] at hlast
    cases hc : Text.isBlank c with
    | true =>
      rw [Text.spaced_of_isBlank hc] at hlast
      rw [classify_of_blank h hc, classify_of_blank hlast Text.isBlank_space]
    | false =>
      rw [Text.spaced_of_visible hc] at hlast
      rw [classify, hlast, classify, h]

/-- The clause with its text in canonical form. -/
def squeezed (k : Clause) : Clause := { k with text := Text.squeeze k.text }

theorem ofPiece?_squeeze (mode : PauseMode) (piece : List Char) :
    ofPiece? mode (Text.squeeze piece) = (ofPiece? mode piece).map squeezed := by
  have hblank : Text.allBlank (Text.squeeze piece) = Text.allBlank piece :=
    Text.allBlank_squeezeFrom false piece
  cases h : Text.allBlank piece with
  | true =>
    rw [h] at hblank
    rw [ofPiece?_of_blank h, ofPiece?_of_blank hblank]
    rfl
  | false =>
    rw [h] at hblank
    rw [ofPiece?_of_visible h, ofPiece?_of_visible hblank, Text.trim_squeeze, classify_squeeze]
    rfl

theorem split_squeeze (mode : PauseMode) (s : List Char) :
    split mode (Text.squeeze s) = (split mode s).map squeezed := by
  rw [split, pieces_squeeze, List.filterMap_map, split, List.map_filterMap]
  congr 1
  funext piece
  exact ofPiece?_squeeze mode piece

end Clause

/-- Texts may be squeezed before they are joined, and squeezing twice is squeezing once. In a
squeezed text all blanks are spaces, no two of them side by side; it begins and ends with a space
where the text begins and ends with a blank, and has the same words. Its clauses are those of the
text, each squeezed, with the same intonations and pauses. -/
theorem Text.squeeze_canonical (mode : PauseMode) (s t : List Char) :
    squeeze (s ++ t) = squeeze (squeeze s ++ squeeze t) ∧
      squeeze (squeeze s) = squeeze s ∧
      (∀ c ∈ squeeze s, isBlank c = true → c = ' ') ∧ ¬ [' ', ' '] <:+: squeeze s ∧
      ((squeeze s).head? = some ' ' ↔ s.head?.any isBlank = true) ∧
      ((squeeze s).getLast? = some ' ' ↔ s.getLast?.any isBlank = true) ∧
      words (squeeze s) = words s ∧
      Clause.split mode (squeeze s) =
        (Clause.split mode s).map fun k => { k with text := squeeze k.text } := by
  have hidem (u : List Char) : squeeze (squeeze u) = squeeze u := squeezeFrom_idem false u
  refine ⟨?_, hidem s, ?_, not_spaces_infix_squeezeFrom false s, ?_, ?_, ?_,
    Clause.split_squeeze mode s⟩
  · rw [squeeze_append_left]
    exact (squeeze_append_congr (hidem t) s).symm
  · intro c hc
    exact eq_space_of_mem_squeezeFrom hc
  · rw [head?_squeeze]
    exact map_spaced_eq_space_iff s.head?
  · rw [getLast?_squeeze]
    exact map_spaced_eq_space_iff s.getLast?
  · exact wordsFrom_squeezeFrom s nofun

end Elocution
