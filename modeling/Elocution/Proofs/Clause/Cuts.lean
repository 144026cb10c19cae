import Mathlib.Data.List.DropRight
import Elocution.Clause
import Elocution.Proofs.Text.Squeeze

/-!
# Where a text is cut

A position is a cut if the text before it ends in a clause mark, closers aside, and a blank or the
end of the text comes next. The clauses of a text are the pieces between its cuts, trimmed, less
those that are blank; all but the last end in a clause mark.
-/

namespace Elocution

namespace Text

variable {s : List Char} {c : Char}

/-- A text ends a clause when, closers removed, a clause mark is last. -/
def endsClause (s : List Char) : Bool := (lastBeforeClosers s).any isClauseBreak

/-- A cut: what is before it ends a clause, and a blank or nothing is after it. -/
def isCut (s : List Char) (n : Nat) : Bool := endsClause (s.take n) && s[n]?.all isBlank

/-- All positions at which a text is cut. -/
def cuts (s : List Char) : List Nat := (List.range (s.length + 1)).filter (isCut s)

/-- The stretches of a text from `start` on, between these positions and up to its end. -/
def between (s : List Char) (start : Nat) : List Nat → List (List Char)
  | [] => [s.drop start]
  | n :: more => (s.take n).drop start :: between s n more

theorem isBlank_of_isCloser (h : isCloser c = true) : isBlank c = false := by
  have hall : closers.all (isBlank · = false) = true := by decide
  simpa using List.all_eq_true.1 hall c (List.contains_iff_mem.1 h)

theorem of_isClauseBreak (h : isClauseBreak c = true) :
    isBlank c = false ∧ isCloser c = false := by
  have hall : clauseBreaks.all (fun c => isBlank c = false ∧ isCloser c = false) = true := by
    decide
  simpa using List.all_eq_true.1 hall c (List.contains_iff_mem.1 h)

theorem lastBeforeClosers_concat (s : List Char) (c : Char) :
    lastBeforeClosers (s ++ [c]) = if isCloser c then lastBeforeClosers s else some c := by
  have hdrop (s : List Char) : dropEndWhile isCloser s = s.rdropWhile isCloser := rfl
  rw [lastBeforeClosers, hdrop, List.rdropWhile_concat]
  split
  · rfl
  · exact List.getLast?_concat

theorem endsClause_concat (s : List Char) (c : Char) :
    endsClause (s ++ [c]) = Clause.arms (endsClause s) c := by
  rw [endsClause, lastBeforeClosers_concat, Clause.arms, endsClause]
  split
  · rename_i hcloser
    have hbreak : isClauseBreak c = false := by
      cases h : isClauseBreak c with
      | false => rfl
      | true => rw [(of_isClauseBreak h).2] at hcloser; cases hcloser
    rw [hcloser, hbreak, Bool.and_true, Bool.false_or]
  · rename_i hcloser
    rw [Bool.eq_false_iff.2 hcloser, Bool.and_false, Bool.or_false]
    rfl

theorem endsClause_append (s t : List Char) :
    endsClause (s ++ t) = t.foldl Clause.arms (endsClause s) := by
  induction t generalizing s with
  | nil => rw [List.append_nil]; rfl
  | cons c rest ih => rw [List.append_cons, ih, endsClause_concat, List.foldl_cons]

theorem arms_of_isBlank (h : isBlank c = true) (armed : Bool) : Clause.arms armed c = false := by
  rw [Clause.arms]
  cases hbreak : isClauseBreak c with
  | true => rw [(of_isClauseBreak hbreak).1] at h; cases h
  | false =>
    cases hcloser : isCloser c with
    | true => rw [isBlank_of_isCloser hcloser] at h; cases h
    | false => rw [Bool.and_false]; rfl

theorem isBlank_of_arms {armed : Bool} (h : Clause.arms armed c = true) : isBlank c = false := by
  cases hb : isBlank c with
  | false => rfl
  | true => rw [arms_of_isBlank hb] at h; cases h

theorem endsClause_eq_foldl (s : List Char) : endsClause s = s.foldl Clause.arms false :=
  endsClause_append [] s

theorem endsClause_cons_of_isBlank (h : isBlank c = true) (s : List Char) :
    endsClause (c :: s) = endsClause s := by
  rw [endsClause_eq_foldl, List.foldl_cons, arms_of_isBlank h, ← endsClause_eq_foldl]

theorem endsClause_dropWhile_isBlank (s : List Char) :
    endsClause (s.dropWhile isBlank) = endsClause s := by
  induction s with
  | nil => rfl
  | cons c rest ih =>
    rw [List.dropWhile_cons]
    split
    · rename_i hblank
      rw [ih, endsClause_cons_of_isBlank hblank]
    · rfl

/-- No blank comes after the mark. -/
theorem trimEnd_of_endsClause (h : endsClause s = true) : trimEnd s = s := by
  refine List.rdropWhile_eq_self_iff.2 fun hs => ?_
  rw [← List.dropLast_concat_getLast hs, endsClause_concat] at h
  rw [isBlank_of_arms h]
  exact Bool.false_ne_true

theorem endsClause_trim (h : endsClause s = true) : endsClause (trim s) = true := by
  rw [← endsClause_dropWhile_isBlank] at h
  rwa [trim, trimEnd_of_endsClause h]

theorem trim_eq_nil_iff : trim s = [] ↔ allBlank s = true := by
  have hdrop : trim s = (s.dropWhile isBlank).rdropWhile isBlank := rfl
  rw [hdrop, List.rdropWhile_eq_nil_iff, ← List.all_eq_true, ← allBlank,
    ← filter_notBlank_eq_nil, filter_dropWhile_isBlank notBlank_of_isBlank,
    filter_notBlank_eq_nil]

end Text

namespace Clause

variable {mode : PauseMode} {s : List Char}

theorem piecesFrom_of_cut {armed : Bool} {c : Char} (h : (armed && Text.isBlank c) = true)
    (rest : List Char) :
    piecesFrom armed (c :: rest) =
      ([], (c :: (piecesFrom false rest).1) :: (piecesFrom false rest).2) := by
  rw [piecesFrom, if_pos h]

theorem piecesFrom_of_not_cut {armed : Bool} {c : Char} (h : (armed && Text.isBlank c) = false)
    (rest : List Char) :
    piecesFrom armed (c :: rest) =
      (c :: (piecesFrom (arms armed c) rest).1, (piecesFrom (arms armed c) rest).2) := by
  rw [piecesFrom, if_neg (by simp [h])]

theorem flatten_piecesFrom (armed : Bool) (s : List Char) :
    (piecesFrom armed s).1 ++ (piecesFrom armed s).2.flatten = s := by
  induction s generalizing armed with
  | nil => rfl
  | cons c rest ih =>
    rw [piecesFrom]
    split
    · simp only [List.nil_append, List.flatten_cons, List.cons_append, ih false]
    · simp only [List.cons_append, ih (arms armed c)]

/-- Where a text is cut, nothing is taken away. -/
theorem flatten_pieces (s : List Char) : (pieces s).flatten = s :=
  flatten_piecesFrom false s

/-- The pieces that can be spoken. -/
def visible (pieces : List (List Char)) : List (List Char) :=
  pieces.filter fun piece => !Text.allBlank piece

theorem visible_cons (piece : List Char) (others : List (List Char)) :
    visible (piece :: others) = visible [piece] ++ visible others :=
  List.filter_append [piece] others

theorem visible_nil : visible [[]] = [] := rfl

theorem isCut_append (before after : List Char) :
    Text.isCut (before ++ after) before.length =
      (Text.endsClause before && after.head?.all Text.isBlank) := by
  rw [Text.isCut, List.take_left, List.getElem?_append_right (Nat.le_refl _), Nat.sub_self,
    List.head?_eq_getElem?]

/-- The scan has the pieces between the cuts that are ahead, if it stands between `before` and
`after`, last cut the text at `start` and is armed as `before` says. -/
theorem visible_between (before after : List Char) {start : Nat} (hstart : start ≤ before.length) :
    visible (Text.between (before ++ after) start
        ((List.range' before.length (after.length + 1)).filter (Text.isCut (before ++ after)))) =
      visible ((before.drop start ++ (piecesFrom (Text.endsClause before) after).1) ::
        (piecesFrom (Text.endsClause before) after).2) := by
  induction after generalizing before start with
  | nil =>
    rw [List.length_nil, List.range'_succ, List.range'_zero, List.filter_cons, isCut_append]
    -- A cut at the end of the text has the empty piece after it.
    cases Text.endsClause before with
    | true => simp [Text.between, piecesFrom, visible_cons (before.drop start) [[]], visible_nil]
    | false => simp [Text.between, piecesFrom]
  | cons c rest ih =>
    have hnext (start : Nat) (hstart : start ≤ before.length) := ih (before ++ [c])
      (hstart.trans (by simp : before.length ≤ (before ++ [c]).length))
    simp only [List.length_append, List.length_singleton, Text.endsClause_concat,
      ← List.append_cons] at hnext
    rw [List.length_cons, List.range'_succ, List.filter_cons, isCut_append, List.head?_cons,
      Option.all_some]
    cases h : Text.endsClause before && Text.isBlank c with
    | true =>
      have hblank : Text.isBlank c = true := (Bool.and_eq_true_iff.1 h).2
      have hcut := hnext before.length (Nat.le_refl _)
      rw [Text.arms_of_isBlank hblank, List.drop_left] at hcut
      rw [if_pos rfl, Text.between, List.take_left, piecesFrom_of_cut h, List.append_nil,
        visible_cons, hcut, ← visible_cons]
      rfl
    | false =>
      rw [if_neg (by simp), hnext start hstart, piecesFrom_of_not_cut h,
        List.drop_append_of_le_length hstart, List.append_assoc]
      rfl

theorem visible_pieces (s : List Char) :
    visible (pieces s) = visible (Text.between s 0 (Text.cuts s)) := by
  rw [Text.cuts, List.range_eq_range']
  exact (visible_between [] s (Nat.le_refl 0)).symm

/-- All pieces but the last end in a clause mark. -/
theorem endsClause_piecesFrom (armed : Bool) (s : List Char) :
    ((piecesFrom armed s).2 ≠ [] → (piecesFrom armed s).1.foldl arms armed = true) ∧
      ∀ piece ∈ (piecesFrom armed s).2.dropLast, Text.endsClause piece = true := by
  induction s generalizing armed with
  | nil => exact ⟨fun h => absurd rfl h, by simp [piecesFrom]⟩
  | cons c rest ih =>
    cases h : armed && Text.isBlank c with
    | true =>
      obtain ⟨harmed, hblank⟩ := Bool.and_eq_true_iff.1 h
      obtain ⟨hfirst, hothers⟩ := ih false
      rw [piecesFrom_of_cut h]
      refine ⟨fun _ => harmed, ?_⟩
      cases hmore : (piecesFrom false rest).2 with
      | nil => simp
      | cons next more =>
        rw [hmore] at hfirst hothers
        rw [List.dropLast_cons_of_ne_nil (by simp), List.forall_mem_cons]
        refine ⟨?_, hothers⟩
        rw [Text.endsClause_cons_of_isBlank hblank, Text.endsClause_eq_foldl]
        exact hfirst (by simp)
    | false =>
      rw [piecesFrom_of_not_cut h]
      exact ih (arms armed c)

theorem endsClause_pieces {piece : List Char} (h : piece ∈ (pieces s).dropLast) :
    Text.endsClause piece = true := by
  obtain ⟨hfirst, hothers⟩ := endsClause_piecesFrom false s
  rw [pieces] at h
  dsimp only at h
  cases hmore : (piecesFrom false s).2 with
  | nil => simp [hmore] at h
  | cons next more =>
    rw [List.dropLast_cons_of_ne_nil (by simp [hmore]), List.mem_cons] at h
    rcases h with rfl | h
    · rw [Text.endsClause_eq_foldl]
      exact hfirst (by simp [hmore])
    · exact hothers piece h

theorem ofPiece?_of_blank {piece : List Char} (h : Text.allBlank piece = true) :
    ofPiece? mode piece = none := by
  rw [ofPiece?, Text.trim_eq_nil_iff.2 h]

theorem ofPiece?_of_visible {piece : List Char} (h : Text.allBlank piece = false) :
    ofPiece? mode piece = some ⟨Text.trim piece, (classify (Text.trim piece)).1,
      if (classify (Text.trim piece)).2 then mode.pause? (classify (Text.trim piece)).1
      else none⟩ := by
  rw [ofPiece?]
  split
  · rename_i hnil
    rw [Text.trim_eq_nil_iff.1 hnil] at h
    cases h
  · rfl

theorem visible_of_ofPiece? {piece : List Char} {k : Clause} (h : ofPiece? mode piece = some k) :
    Text.allBlank piece = false := by
  cases hblank : Text.allBlank piece with
  | false => rfl
  | true => rw [ofPiece?_of_blank hblank] at h; cases h

theorem text_ofPiece? (mode : PauseMode) (pieces : List (List Char)) :
    (pieces.filterMap (ofPiece? mode)).map Clause.text = (visible pieces).map Text.trim := by
  induction pieces with
  | nil => rfl
  | cons piece others ih =>
    rw [visible_cons, List.map_append, ← ih]
    cases h : Text.allBlank piece with
    | true => rw [List.filterMap_cons_none (ofPiece?_of_blank h)]; simp [visible, h]
    | false => rw [List.filterMap_cons_some (ofPiece?_of_visible h)]; simp [visible, h]

theorem text_split (mode : PauseMode) (s : List Char) :
    (split mode s).map Clause.text =
      (visible (Text.between s 0 (Text.cuts s))).map Text.trim := by
  rw [split, text_ofPiece?, visible_pieces]

theorem mem_filterMap_dropLast {α β : Type} {f : α → Option β} {l : List α} {b : β}
    (h : b ∈ (l.filterMap f).dropLast) : b ∈ l.dropLast.filterMap f := by
  rcases List.eq_nil_or_concat l with rfl | ⟨front, last, rfl⟩
  · cases h
  · rw [List.concat_eq_append, List.filterMap_append] at h
    rw [List.concat_eq_append, List.dropLast_concat]
    cases hlast : f last with
    | none =>
      rw [List.filterMap_cons_none hlast, List.filterMap_nil, List.append_nil] at h
      exact (List.dropLast_sublist _).subset h
    | some c =>
      rwa [List.filterMap_cons_some hlast, List.filterMap_nil, List.dropLast_concat] at h

theorem filter_split {p : Char → Bool} (hp : ∀ c, Text.isBlank c = true → p c = false)
    (mode : PauseMode) (s : List Char) :
    (split mode s).flatMap (fun k => k.text.filter p) = s.filter p := by
  have hpieces (pieces : List (List Char)) :
      ((visible pieces).map Text.trim).flatMap (·.filter p) = pieces.flatten.filter p := by
    induction pieces with
    | nil => rfl
    | cons piece others ih =>
      rw [visible_cons, List.map_append, List.flatMap_append, ih, List.flatten_cons,
        List.filter_append]
      congr 1
      cases h : Text.allBlank piece with
      | true => simp [visible, h, Text.filter_of_allBlank hp h]
      | false => simp [visible, h, Text.filter_trim hp]
  rw [← flatten_pieces s, ← hpieces, ← text_ofPiece? mode, List.flatMap_map, split, flatten_pieces]

/-- The clause is intoned as its last character asks for, closers aside. If that is a clause mark,
and pauses are not off, the pause that the mode has for this intonation is made. -/
structure IsRead (mode : PauseMode) (k : Clause) : Prop where
  question : k.intonation = .question ↔ Text.lastBeforeClosers k.text = some '?'
  exclamation : k.intonation = .exclamation ↔ Text.lastBeforeClosers k.text = some '!'
  continuation : k.intonation = .continuation ↔
    ∃ c ∈ [',', ';', ':'], Text.lastBeforeClosers k.text = some c
  paused : k.pause.isSome = true ↔ Text.endsClause k.text = true ∧ mode ≠ .off
  pause : ∀ ms, k.pause = some ms → mode.pause? k.intonation = some ms

theorem classify_spec (s : List Char) :
    (classify s).2 = Text.endsClause s ∧
      ((classify s).1 = .question ↔ Text.lastBeforeClosers s = some '?') ∧
      ((classify s).1 = .exclamation ↔ Text.lastBeforeClosers s = some '!') ∧
      ((classify s).1 = .continuation ↔
        ∃ c ∈ [',', ';', ':'], Text.lastBeforeClosers s = some c) := by
  rw [classify, Text.endsClause]
  cases Text.lastBeforeClosers s with
  | none => simp
  | some c => split <;> simp_all [Text.isClauseBreak, Text.clauseBreaks]

theorem isSome_pause? (mode : PauseMode) (i : Intonation) :
    (mode.pause? i).isSome = true ↔ mode ≠ .off := by
  cases mode <;> simp [PauseMode.pause?]

theorem isRead_ofPiece? {piece : List Char} {k : Clause} (h : ofPiece? mode piece = some k) :
    k.IsRead mode ∧ (Text.endsClause piece = true → Text.endsClause k.text = true) := by
  rw [ofPiece?_of_visible (visible_of_ofPiece? h)] at h
  obtain rfl := Option.some.inj h
  obtain ⟨hmarked, hquestion, hexclamation, hcontinuation⟩ := classify_spec (Text.trim piece)
  refine ⟨⟨hquestion, hexclamation, hcontinuation, ?_, ?_⟩, Text.endsClause_trim⟩
  · dsimp only
    rw [hmarked, ← isSome_pause? mode (classify (Text.trim piece)).1]
    cases Text.endsClause (Text.trim piece) <;> simp
  · intro ms hms
    dsimp only at hms ⊢
    split at hms
    · exact hms
    · cases hms

/-- Splitting a text is cutting it where it can be cut. The clauses are the pieces between the
cuts that are not blank, trimmed, so that blanks alone are lost; each but the last ends in a clause
mark; and each is intoned, and has a pause after it, as its last character says. -/
theorem split_at_cuts (mode : PauseMode) (s : List Char) :
    (split mode s).map Clause.text =
        ((Text.between s 0 (Text.cuts s)).filter fun piece => !Text.allBlank piece).map
          Text.trim ∧
      (split mode s).flatMap (fun k => k.text.filter Text.notBlank) = s.filter Text.notBlank ∧
      (∀ k ∈ (split mode s).dropLast, Text.endsClause k.text = true) ∧
      ∀ k ∈ split mode s, k.IsRead mode := by
  refine ⟨text_split mode s, filter_split Text.notBlank_of_isBlank mode s, ?_, ?_⟩
  · intro k hk
    obtain ⟨piece, hpiece, hof⟩ := List.mem_filterMap.1 (mem_filterMap_dropLast hk)
    exact (isRead_ofPiece? hof).2 (endsClause_pieces hpiece)
  · intro k hk
    obtain ⟨piece, -, hof⟩ := List.mem_filterMap.1 hk
    exact (isRead_ofPiece? hof).1

/-- A closing quote stays with the mark before it, and a mark within a number cuts nothing. -/
example : Text.cuts ['a', '.', '"', ' ', '3', '.', '5', '!'] = [3, 8] := by
  decide

end Clause

end Elocution
