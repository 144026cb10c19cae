import Elocution.Text.Blank

/-!
# The canonical form of a text

Squeezing a text twice is squeezing it once, and a text may be squeezed before or after it is
joined to another. No character but a blank is lost by squeezing or by trimming.
-/

namespace Elocution.Text

variable {s t : List Char} {p : Char → Bool}

theorem squeezeFrom_blank {c : Char} (h : isBlank c = true) (inRun : Bool) (s : List Char) :
    squeezeFrom inRun (c :: s) =
      if inRun then squeezeFrom true s else ' ' :: squeezeFrom true s := by
  rw [squeezeFrom, if_pos h]

theorem squeezeFrom_visible {c : Char} (h : isBlank c = false) (inRun : Bool) (s : List Char) :
    squeezeFrom inRun (c :: s) = c :: squeezeFrom false s := by
  rw [squeezeFrom, if_neg (by simp [h])]

theorem isBlank_space : isBlank ' ' = true := rfl

theorem squeezeFrom_append_left (inRun : Bool) (s t : List Char) :
    squeezeFrom inRun (squeezeFrom inRun s ++ t) = squeezeFrom inRun (s ++ t) := by
  induction s generalizing inRun with
  | nil => rfl
  | cons c rest ih =>
    cases h : isBlank c with
    | true =>
      rw [List.cons_append, squeezeFrom_blank h, squeezeFrom_blank h]
      cases inRun with
      | true => exact ih true
      | false =>
        simp only [Bool.false_eq_true, if_false, List.cons_append]
        rw [squeezeFrom_blank isBlank_space, ih true]
        rfl
    | false =>
      rw [List.cons_append, squeezeFrom_visible h, squeezeFrom_visible h, List.cons_append,
        squeezeFrom_visible h, ih false]

theorem squeeze_append_left (s t : List Char) : squeeze (squeeze s ++ t) = squeeze (s ++ t) :=
  squeezeFrom_append_left false s t

theorem squeezeFrom_idem (inRun : Bool) (s : List Char) :
    squeezeFrom inRun (squeezeFrom inRun s) = squeezeFrom inRun s := by
  have h := squeezeFrom_append_left inRun s []
  rwa [List.append_nil, List.append_nil] at h

theorem squeezeFrom_squeeze (inRun : Bool) (s : List Char) :
    squeezeFrom inRun (squeeze s) = squeezeFrom inRun s := by
  cases inRun with
  | false => exact squeezeFrom_idem false s
  | true =>
    cases s with
    | nil => rfl
    | cons c rest =>
      cases h : isBlank c with
      | true =>
        rw [squeeze, squeezeFrom_blank h, squeezeFrom_blank h, if_neg (by simp), if_pos rfl,
          squeezeFrom_blank isBlank_space, if_pos rfl]
        exact squeezeFrom_idem true rest
      | false =>
        rw [squeeze, squeezeFrom_visible h, squeezeFrom_visible h, squeezeFrom_visible h,
          squeezeFrom_idem]

theorem squeezeFrom_eq_of_squeeze (h : squeeze s = squeeze t) (inRun : Bool) :
    squeezeFrom inRun s = squeezeFrom inRun t := by
  rw [← squeezeFrom_squeeze inRun s, h, squeezeFrom_squeeze]

theorem length_squeezeFrom_le (inRun : Bool) (s : List Char) :
    (squeezeFrom inRun s).length ≤ s.length := by
  induction s generalizing inRun with
  | nil => exact Nat.le_refl 0
  | cons c rest ih =>
    have hrest := ih true
    cases hc : isBlank c with
    | true =>
      rw [squeezeFrom_blank hc]
      split
      · exact Nat.le_succ_of_le hrest
      · exact Nat.succ_le_succ hrest
    | false =>
      rw [squeezeFrom_visible hc]
      exact Nat.succ_le_succ (ih false)

theorem length_squeeze_le (s : List Char) : (squeeze s).length ≤ s.length :=
  length_squeezeFrom_le false s

/-- Texts of one canonical form are alike after any other text. -/
theorem squeeze_append_congr (h : squeeze s = squeeze t) (before : List Char) :
    squeeze (before ++ s) = squeeze (before ++ t) := by
  have hrun (inRun : Bool) :
      squeezeFrom inRun (before ++ s) = squeezeFrom inRun (before ++ t) := by
    induction before generalizing inRun with
    | nil => exact squeezeFrom_eq_of_squeeze h inRun
    | cons c rest ih => simp only [List.cons_append, squeezeFrom, ih]
  exact hrun false

/-- The complement of the blanks. -/
def notBlank (c : Char) : Bool := !isBlank c

theorem notBlank_of_isBlank (c : Char) (h : isBlank c = true) : notBlank c = false := by
  rw [notBlank, h]
  rfl

theorem filter_notBlank_eq_nil : s.filter notBlank = [] ↔ allBlank s = true := by
  simp [allBlank, notBlank]

section Filter

variable (hp : ∀ c, isBlank c = true → p c = false)
include hp

theorem filter_squeezeFrom (inRun : Bool) (s : List Char) :
    (squeezeFrom inRun s).filter p = s.filter p := by
  induction s generalizing inRun with
  | nil => rfl
  | cons c rest ih =>
    cases hc : isBlank c with
    | true =>
      rw [squeezeFrom_blank hc, List.filter_cons_of_neg (by simp [hp c hc])]
      split
      · exact ih true
      · rw [List.filter_cons_of_neg (by simp [hp _ isBlank_space]), ih true]
    | false =>
      rw [squeezeFrom_visible hc, List.filter_cons, List.filter_cons, ih false]

theorem filter_squeeze (s : List Char) : (squeeze s).filter p = s.filter p :=
  filter_squeezeFrom hp false s

theorem filter_of_allBlank (h : allBlank s = true) : s.filter p = [] := by
  rw [List.filter_eq_nil_iff]
  intro c hc
  simp [hp c (List.all_eq_true.1 h c hc)]

theorem filter_dropWhile_isBlank (s : List Char) :
    (s.dropWhile isBlank).filter p = s.filter p := by
  induction s with
  | nil => rfl
  | cons c rest ih =>
    rw [List.dropWhile_cons]
    split
    · rename_i hc
      rw [ih, List.filter_cons_of_neg (by simp [hp c hc])]
    · rfl

theorem filter_trim (s : List Char) : (trim s).filter p = s.filter p := by
  rw [trim, trimEnd, dropEndWhile, List.filter_reverse, filter_dropWhile_isBlank hp,
    List.filter_reverse, List.reverse_reverse, filter_dropWhile_isBlank hp]

end Filter

theorem allBlank_squeezeFrom (inRun : Bool) (s : List Char) :
    allBlank (squeezeFrom inRun s) = allBlank s := by
  rw [Bool.eq_iff_iff, ← filter_notBlank_eq_nil, filter_squeezeFrom notBlank_of_isBlank,
    filter_notBlank_eq_nil]

theorem squeezeFrom_append_blank (inRun : Bool) (s : List Char) (h : allBlank t = true) :
    ∃ blanks, allBlank blanks = true ∧
      squeezeFrom inRun (s ++ t) = squeezeFrom inRun s ++ blanks := by
  induction s generalizing inRun with
  | nil => exact ⟨squeezeFrom inRun t, (allBlank_squeezeFrom inRun t).trans h, rfl⟩
  | cons c rest ih =>
    cases hc : isBlank c with
    | true =>
      obtain ⟨blanks, hblanks, heq⟩ := ih true
      refine ⟨blanks, hblanks, ?_⟩
      rw [List.cons_append, squeezeFrom_blank hc, squeezeFrom_blank hc, heq]
      split <;> rfl
    | false =>
      obtain ⟨blanks, hblanks, heq⟩ := ih false
      refine ⟨blanks, hblanks, ?_⟩
      rw [List.cons_append, squeezeFrom_visible hc, squeezeFrom_visible hc, heq]
      rfl

theorem trim_sublist (s : List Char) : (trim s).Sublist s := by
  have hend (t : List Char) : (trimEnd t).Sublist t := by
    have hreverse := List.reverse_sublist.2 (List.dropWhile_sublist (l := t.reverse) isBlank)
    rwa [List.reverse_reverse] at hreverse
  exact (hend _).trans (List.dropWhile_sublist isBlank)

theorem trimEnd_append_blank (s : List Char) (h : allBlank t = true) :
    trimEnd (s ++ t) = trimEnd s := by
  have hall : ∀ c ∈ t.reverse, isBlank c = true := by
    intro c hc
    exact List.all_eq_true.1 h c (List.mem_reverse.1 hc)
  rw [trimEnd, dropEndWhile, List.reverse_append, List.dropWhile_append_of_pos hall]
  rfl

/-- Blanks at the end of a text are no part of its trimmed canonical form. -/
theorem trimEnd_squeeze_append_blank (s : List Char) (h : allBlank t = true) :
    trimEnd (squeeze (s ++ t)) = trimEnd (squeeze s) := by
  obtain ⟨blanks, hblanks, heq⟩ := squeezeFrom_append_blank false s h
  rw [squeeze, heq, trimEnd_append_blank _ hblanks]
  rfl

end Elocution.Text
