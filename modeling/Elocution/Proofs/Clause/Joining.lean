import Elocution.Proofs.Clause.Endings

/-!
# Texts put together

Two texts have the clauses of the first and then those of the second, if the first is at the end of
a clause and the second begins with a blank. For the text is cut where a clause ends and a blank
comes next, so that no piece reaches over the seam, and blanks at the start of a piece are not
heard.
-/

namespace Elocution

namespace Text

variable {s t : List Char} {c : Char}

/-- Whatever comes before it, a text that ends a clause ends it. -/
theorem endsClause_append_of_endsClause (s : List Char) (h : endsClause t = true) :
    endsClause (s ++ t) = true := by
  rw [endsClause] at h
  rw [endsClause, lastBeforeClosers_append]
  cases hlast : lastBeforeClosers t with
  | none =>
    rw [hlast] at h
    cases h
  | some c =>
    rw [hlast] at h
    exact h

theorem trim_cons_of_isBlank (h : isBlank c = true) (s : List Char) : trim (c :: s) = trim s := by
  rw [trim, List.dropWhile_cons_of_pos h]
  rfl

/-- Trimming takes blanks off both ends. -/
theorem exists_blanks_around (s : List Char) :
    ∃ lead tail, s = lead ++ (trim s ++ tail) ∧ allBlank tail = true := by
  refine ⟨s.takeWhile isBlank, (s.dropWhile isBlank).rtakeWhile isBlank, ?_, ?_⟩
  · calc s = s.takeWhile isBlank ++ s.dropWhile isBlank := List.takeWhile_append_dropWhile.symm
      _ = s.takeWhile isBlank ++ (trim s ++ (s.dropWhile isBlank).rtakeWhile isBlank) :=
        congrArg _ (List.rdropWhile_append_rtakeWhile ..).symm
  · exact List.all_eq_true.2 fun c hc => List.mem_rtakeWhile_imp hc

theorem allBlank_flatten {pieces : List (List Char)}
    (h : ∀ piece ∈ pieces, allBlank piece = true) : allBlank pieces.flatten = true := by
  refine List.all_eq_true.2 fun c hc => ?_
  obtain ⟨piece, hpiece, hc⟩ := List.mem_flatten.1 hc
  exact List.all_eq_true.1 (h piece hpiece) c hc

theorem head?_append_of_blank (hs : allBlank s = true) (ht : t.head?.all isBlank = true) :
    (s ++ t).head?.all isBlank = true := by
  cases s with
  | nil => exact ht
  | cons c rest => exact (Bool.and_eq_true_iff.1 hs).1

end Text

namespace Clause

variable {mode : PauseMode} {s t : List Char} {c : Char}

theorem pieces_cons_of_isBlank (hc : Text.isBlank c = true) (s : List Char) :
    pieces (c :: s) = (c :: (piecesFrom false s).1) :: (piecesFrom false s).2 := by
  rw [pieces, piecesFrom_of_not_cut (Bool.false_and _), Text.arms_of_isBlank hc]

/-- Where a clause ends and a blank comes next, the scan begins anew. -/
theorem piecesFrom_append {armed : Bool} (hs : s.foldl arms armed = true)
    (hc : Text.isBlank c = true) (rest : List Char) :
    piecesFrom armed (s ++ c :: rest) =
      ((piecesFrom armed s).1, (piecesFrom armed s).2 ++ pieces (c :: rest)) := by
  induction s generalizing armed with
  | nil =>
    obtain rfl : armed = true := hs
    rw [List.nil_append, piecesFrom_of_cut (by rw [hc]; rfl), pieces_cons_of_isBlank hc]
    rfl
  | cons d s ih =>
    cases hcut : armed && Text.isBlank d with
    | true =>
      have hd : Text.isBlank d = true := (Bool.and_eq_true_iff.1 hcut).2
      rw [List.foldl_cons, Text.arms_of_isBlank hd] at hs
      rw [List.cons_append, piecesFrom_of_cut hcut, piecesFrom_of_cut hcut, ih hs]
      rfl
    | false =>
      rw [List.foldl_cons] at hs
      rw [List.cons_append, piecesFrom_of_not_cut hcut, piecesFrom_of_not_cut hcut, ih hs]

theorem pieces_append (hs : Text.endsClause s = true) (hc : Text.isBlank c = true)
    (rest : List Char) : pieces (s ++ c :: rest) = pieces s ++ pieces (c :: rest) := by
  rw [Text.endsClause_eq_foldl] at hs
  rw [pieces, piecesFrom_append hs hc]
  rfl

theorem split_append_of_endsClause (hs : Text.endsClause s = true)
    (ht : t.head?.all Text.isBlank = true) :
    split mode (s ++ t) = split mode s ++ split mode t := by
  cases t with
  | nil =>
    rw [List.append_nil]
    exact (List.append_nil _).symm
  | cons c rest =>
    rw [split, pieces_append hs ht, List.filterMap_append]
    rfl

theorem split_cons_of_isBlank (hc : Text.isBlank c = true) (s : List Char) :
    split mode (c :: s) = split mode s := by
  have hpiece (piece : List Char) : ofPiece? mode (c :: piece) = ofPiece? mode piece := by
    rw [ofPiece?, Text.trim_cons_of_isBlank hc]
    rfl
  rw [split, pieces_cons_of_isBlank hc, List.filterMap_cons, hpiece, ← List.filterMap_cons]
  rfl

/-- Blanks ahead of a text are not heard. -/
theorem split_blank_append (hs : Text.allBlank s = true) (t : List Char) :
    split mode (s ++ t) = split mode t := by
  induction s with
  | nil => rfl
  | cons c s ih =>
    obtain ⟨hc, hs⟩ := Bool.and_eq_true_iff.1 hs
    rw [List.cons_append, split_cons_of_isBlank hc, ih hs]

theorem blank_of_ofPiece? {piece : List Char} (h : ofPiece? mode piece = none) :
    Text.allBlank piece = true := by
  by_contra hvisible
  rw [ofPiece?_of_visible (by simpa using hvisible)] at h
  cases h

/-- If the last clause of a text ends in a clause mark, so does the text, blanks aside. -/
theorem exists_end_of_getLast? {k : Clause} (hk : (split mode s).getLast? = some k)
    (h : Text.endsClause k.text = true) :
    ∃ said blanks, s = said ++ blanks ∧ Text.endsClause said = true ∧
      Text.allBlank blanks = true := by
  obtain ⟨earlier, heq⟩ := List.getLast?_eq_some_iff.1 hk
  obtain ⟨front, more, hpieces, -, hmore⟩ := List.filterMap_eq_append_iff.1 heq
  obtain ⟨skipped, piece, after, rfl, -, hpiece, hafter⟩ := List.filterMap_eq_cons_iff.1 hmore
  rw [ofPiece?_of_visible (visible_of_ofPiece? hpiece)] at hpiece
  obtain rfl := Option.some.inj hpiece
  obtain ⟨lead, tail, haround, htail⟩ := Text.exists_blanks_around piece
  refine ⟨front.flatten ++ skipped.flatten ++ lead ++ Text.trim piece, tail ++ after.flatten,
    ?_, Text.endsClause_append_of_endsClause _ h, ?_⟩
  · calc s = (front ++ (skipped ++ piece :: after)).flatten := by
          rw [← hpieces, flatten_pieces]
      _ = front.flatten ++ skipped.flatten ++ piece ++ after.flatten := by simp
      _ = front.flatten ++ skipped.flatten ++ (lead ++ (Text.trim piece ++ tail)) ++
          after.flatten := by rw [← haround]
      _ = front.flatten ++ skipped.flatten ++ lead ++ Text.trim piece ++
          (tail ++ after.flatten) := by simp
  · have hnone := List.filterMap_eq_nil_iff.1 hafter
    rw [Text.allBlank_append, htail, Bool.true_and]
    exact Text.allBlank_flatten fun other hother => blank_of_ofPiece? (hnone other hother)

/-- The clauses of two texts put together are those of the first and those of the second, if the
first is blank or its last clause ends in a clause mark, and the second is empty or begins with a
blank. -/
theorem split_append (mode : PauseMode) (s t : List Char)
    (hs : Text.allBlank s = true ∨
      ∃ k, (split mode s).getLast? = some k ∧ Text.endsClause k.text = true)
    (ht : t.head?.all Text.isBlank = true) :
    split mode (s ++ t) = split mode s ++ split mode t := by
  have hblank {blanks : List Char} (h : Text.allBlank blanks = true) : split mode blanks = [] := by
    rw [← List.append_nil blanks, split_blank_append h]
    rfl
  rcases hs with hs | ⟨k, hk, hend⟩
  · rw [split_blank_append hs, hblank hs, List.nil_append]
  · obtain ⟨said, blanks, rfl, hsaid, hblanks⟩ := exists_end_of_getLast? hk hend
    have hseam {t : List Char} (ht : t.head?.all Text.isBlank = true) :
        split mode (said ++ (blanks ++ t)) = split mode said ++ split mode t := by
      rw [split_append_of_endsClause hsaid (Text.head?_append_of_blank hblanks ht),
        split_blank_append hblanks]
    have hfirst := hseam (t := []) rfl
    rw [List.append_nil] at hfirst
    rw [List.append_assoc, hseam ht, hfirst]
    exact congrArg (· ++ split mode t) (List.append_nil _).symm

/-- A question closed by a quote, with blanks on both sides of the seam. -/
theorem split_append_quoted :
    let s := ['w', 'h', 'y', '?', '"', ' ']
    let t := [' ', 's', 'h', 'e', ',']
    (∃ k, (split .long s).getLast? = some k ∧ Text.endsClause k.text = true) ∧
      t.head?.all Text.isBlank = true ∧
      split .long (s ++ t) = split .long s ++ split .long t ∧
      (split .long (s ++ t)).map Clause.text =
        [['w', 'h', 'y', '?', '"'], ['s', 'h', 'e', ',']] := by
  intro s t
  have hs : ∃ k, (split .long s).getLast? = some k ∧ Text.endsClause k.text = true :=
    ⟨⟨['w', 'h', 'y', '?', '"'], .question, some 300⟩, by decide, by decide⟩
  have ht : t.head?.all Text.isBlank = true := by decide
  exact ⟨hs, ht, split_append .long s t (.inr hs) ht, by decide⟩

end Clause

end Elocution
