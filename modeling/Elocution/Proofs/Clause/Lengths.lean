import Mathlib
import Elocution.Proofs.Clause.Endings
import Elocution.Text.Alphanumeric

/-!
# How long clauses are

Between two clauses of a text a blank is lost. So the clauses, with one character more for each,
are not longer than the text with one character more; and a clause with a pause after it has a mark
that is neither a letter nor a blank.
-/

namespace Elocution

namespace Text

variable {s : List Char}

theorem length_trim_cons_le {c : Char} (h : isBlank c = true) (s : List Char) :
    (trim (c :: s)).length ≤ s.length := by
  rw [trim, List.dropWhile_cons_of_pos h]
  exact (trim_sublist s).length_le

/-- A text that ends a clause has the mark in it. -/
theorem exists_clauseBreak (h : endsClause s = true) : ∃ c ∈ s, isClauseBreak c = true := by
  rw [endsClause, Option.any_eq_true] at h
  obtain ⟨c, hlast, hc⟩ := h
  exact ⟨c, (List.rdropWhile_prefix isCloser s).subset (List.mem_of_getLast? hlast), hc⟩

theorem isAlphanumeric_of_isClauseBreak {c : Char} (h : isClauseBreak c = true) :
    isAlphanumeric c = false := by
  have hall : clauseBreaks.all (fun c => !isAlphanumeric c) = true := by decide +kernel
  simpa using List.all_eq_true.mp hall c (List.contains_iff_mem.mp h)

end Text

namespace Clause

variable {mode : PauseMode} {pieces : List (List Char)}

/-- How much of a text clauses take up, the blanks between them included. -/
def extent (clauses : List Clause) : Nat := (clauses.map fun k => k.text.length + 1).sum

theorem extent_cons (k : Clause) (clauses : List Clause) :
    extent (k :: clauses) = k.text.length + 1 + extent clauses := by
  rw [extent, List.map_cons, List.sum_cons, extent]

theorem text_of_ofPiece? {piece : List Char} {k : Clause} (h : ofPiece? mode piece = some k) :
    k.text = Text.trim piece := by
  rw [ofPiece?_of_visible (visible_of_ofPiece? h)] at h
  obtain rfl := Option.some.inj h
  rfl

/-- Pieces that each begin with a blank. -/
theorem extent_ofPiece?_le
    (h : ∀ piece ∈ pieces, ∃ c rest, piece = c :: rest ∧ Text.isBlank c = true) :
    extent (pieces.filterMap (ofPiece? mode)) ≤ pieces.flatten.length := by
  induction pieces with
  | nil => exact Nat.le_refl 0
  | cons piece others ih =>
    obtain ⟨⟨c, rest, rfl, hc⟩, hothers⟩ := List.forall_mem_cons.mp h
    have hrest := ih hothers
    rw [List.flatten_cons, List.length_append, List.length_cons]
    cases hk : ofPiece? mode (c :: rest) with
    | none =>
      rw [List.filterMap_cons_none hk]
      omega
    | some k =>
      have hlength := Text.length_trim_cons_le hc rest
      rw [List.filterMap_cons_some hk, extent_cons, text_of_ofPiece? hk]
      omega

theorem extent_split_le (mode : PauseMode) (s : List Char) :
    extent (split mode s) ≤ s.length + 1 := by
  have hothers : extent ((piecesFrom false s).2.filterMap (ofPiece? mode)) ≤
      (piecesFrom false s).2.flatten.length :=
    extent_ofPiece?_le fun _ => exists_blank_of_mem_piecesFrom
  have hall := congrArg List.length (flatten_piecesFrom false s)
  rw [List.length_append] at hall
  rw [split, pieces]
  dsimp only
  cases hk : ofPiece? mode (piecesFrom false s).1 with
  | none =>
    rw [List.filterMap_cons_none hk]
    omega
  | some k =>
    have hlength := (Text.trim_sublist (piecesFrom false s).1).length_le
    rw [List.filterMap_cons_some hk, extent_cons, text_of_ofPiece? hk]
    omega

end Clause

end Elocution
