import Elocution.Proofs.Block.Placement

/-!
# Why blocks are cut

Where markers are held back, a block is cut by a marker that finds the text before it at the end of
a sentence, or too much text or too many markers waiting; otherwise by a change of offset or the end
of the commands. No other marker of the block finds any of this. What counts is all text since the
last cut as it came, with the blanks that earlier changes of offset and lone markers left there.
-/

namespace Elocution.Block

variable {limits : CoalesceLimits} {b : Buffer} {made before after : List Block} {k : Block}
  {front lead body rest : List Command} {c : Command} {id : Marker}

/-- What the last marker of `body` finds if it cuts: the end of a sentence, or more text or more
markers than may wait. The text of `lead`, though not the markers, still waits too. -/
def Fills (limits : CoalesceLimits) (lead body : List Command) : Prop :=
  Text.endsSentence ((lead ++ body).flatMap Command.run) = true ∨
    limits.maxChars < ((lead ++ body).flatMap Command.run).length ∨
    limits.maxMarkers < (body.filterMap Command.marker?).length

/-- The marker that comes after `before` does not cut. -/
def Passes (limits : CoalesceLimits) (lead before : List Command) (id : Marker) : Prop :=
  ¬ Fills limits lead (before ++ [.marker id])

/-- A buffer in which `body` waits with its markers, and before it the blanks of `lead`. -/
structure Buffer.Gathers (b : Buffer) (lead body : List Command) : Prop where
  text : b.text = (lead ++ body).flatMap Command.run
  markers : b.markers = body.filterMap Command.marker?
  blank : Text.allBlank (lead.flatMap Command.run) = true
  visible : body ≠ [] → Text.allBlank b.text = false
  steady : ∀ c ∈ body, c.pitch? = none

/-- Nothing waits, not even blanks. -/
def Buffer.IsClear (b : Buffer) : Prop := b.text = [] ∧ b.markers = []

/-- How a block has been cut out of the commands, after the blocks `made`: `front` ends with the
last cut or is empty, `lead` has brought no text but blanks, and `body` has come to the block. Of
its markers all but the last have passed. The last one cuts if it can, and if not the block has
waited for a change of offset or the end. -/
structure IsCut (limits : CoalesceLimits) (commands : List Command) (made : List Block) (k : Block)
    (front lead body back : List Command) : Prop where
  commands_eq : commands = front ++ lead ++ body ++ back
  cleared : (Buffer.takeAll limits true {} front).2.IsClear
  made_eq : (Buffer.takeAll limits true {} (front ++ lead)).1 = made
  blank : Text.allBlank (lead.flatMap Command.run) = true
  steady : ∀ c ∈ body, c.pitch? = none
  text : k.text = Text.squeeze ((lead ++ body).flatMap Command.run)
  markers : k.markers = body.filterMap Command.marker?
  passed : ∀ before id after, body = before ++ .marker id :: after → after ≠ [] →
    Passes limits lead before id
  reason :
    (Buffer.takeAll limits true {} (front ++ lead ++ body)).1 = made ++ [k] ∧
        (∃ before id, body = before ++ [.marker id]) ∧ Fills limits lead body ∨
      (Buffer.takeAll limits true {} (front ++ lead ++ body)).1 = made ∧
        (∀ before id, body = before ++ [.marker id] → ¬ Fills limits lead body) ∧
        (back = [] ∨ ∃ pitch after, back = .offset pitch :: after)

/-- The commands `seen` have brought about the blocks `made` and this buffer; the last cut was at
the end of `front`. -/
structure Waits (limits : CoalesceLimits) (seen : List Command) (made : List Block) (b : Buffer)
    (front lead body : List Command) : Prop where
  seen_eq : seen = front ++ lead ++ body
  run : Buffer.takeAll limits true {} seen = (made, b)
  cleared : (Buffer.takeAll limits true {} front).2.IsClear
  made_eq : (Buffer.takeAll limits true {} (front ++ lead)).1 = made
  gathers : b.Gathers lead body
  passed : ∀ before id after, body = before ++ .marker id :: after → Passes limits lead before id

namespace Buffer

theorem takeAll_concat (limits : CoalesceLimits) (coalesce : Bool) (b : Buffer)
    (commands : List Command) (c : Command) :
    b.takeAll limits coalesce (commands ++ [c]) =
      ((b.takeAll limits coalesce commands).1 ++
          ((b.takeAll limits coalesce commands).2.take limits coalesce c).1,
        ((b.takeAll limits coalesce commands).2.take limits coalesce c).2) := by
  induction commands generalizing b with
  | nil =>
    rw [List.nil_append, takeAll_cons, takeAll, takeAll, List.append_nil]
    rfl
  | cons first more ih =>
    rw [List.cons_append, takeAll_cons, ih, takeAll_cons, List.append_assoc]

namespace Gathers

theorem of_isClear (h : b.IsClear) : b.Gathers [] [] := by
  refine ⟨h.1, h.2, rfl, ?_, ?_⟩
  · intro hne
    exact absurd rfl hne
  · intro c hc
    cases hc

theorem isIdle_iff (h : b.Gathers lead body) : b.isIdle = true ↔ body = [] := by
  rw [Buffer.isIdle_iff]
  constructor
  · rintro ⟨hblank, -⟩
    apply Classical.byContradiction
    intro hbody
    rw [h.visible hbody] at hblank
    cases hblank
  · rintro rfl
    rw [h.text, List.append_nil, h.markers]
    exact ⟨h.blank, rfl⟩

theorem isFull_iff (h : b.Gathers lead body) : b.isFull limits = true ↔ Fills limits lead body := by
  rw [isFull, h.text, h.markers, Fills, Bool.or_eq_true, Bool.or_eq_true, decide_eq_true_iff,
    decide_eq_true_iff, or_assoc]

theorem flush (h : b.Gathers lead body) (hbody : body ≠ []) :
    ∃ k, b.flush = ([k], { b with text := [], markers := [] }) ∧
      k.text = Text.squeeze ((lead ++ body).flatMap Command.run) ∧
      k.markers = body.filterMap Command.marker? := by
  have hidle : b.isIdle = false := by
    apply Bool.eq_false_iff.2
    intro hidle
    exact hbody (h.isIdle_iff.1 hidle)
  rw [flush_of_not_idle hidle, if_neg (by simp [h.visible hbody])]
  refine ⟨_, rfl, ?_, h.markers⟩
  rw [h.text]

/-- A command that brings no text but blanks, while nothing else waits. -/
theorem lead_concat (h : b.Gathers lead []) {next : Buffer} (hc : Text.allBlank c.run = true)
    (htext : next.text = b.text ++ c.run) (hmarkers : next.markers = []) :
    next.Gathers (lead ++ [c]) [] := by
  refine ⟨?_, hmarkers, ?_, ?_, ?_⟩
  · rw [htext, h.text]
    simp
  · rw [List.flatMap_append, Text.allBlank_append, h.blank, List.flatMap_singleton, hc]
    rfl
  · intro hne
    exact absurd rfl hne
  · intro c hc
    cases hc

theorem body_concat (h : b.Gathers lead body) {next : Buffer} (hc : c.pitch? = none)
    (htext : next.text = b.text ++ c.run) (hvisible : Text.allBlank next.text = false)
    (hmarkers : next.markers = b.markers ++ c.marker?.toList) :
    next.Gathers lead (body ++ [c]) := by
  refine ⟨?_, ?_, h.blank, fun _ => hvisible, ?_⟩
  · rw [htext, h.text]
    simp
  · rw [hmarkers, h.markers, List.filterMap_append]
    cases hmarker : c.marker? <;> simp [hmarker]
  · intro d hd
    rcases List.mem_append.1 hd with hd | hd
    · exact h.steady d hd
    · rw [List.mem_singleton.1 hd]
      exact hc

theorem hold (h : b.Gathers lead body) (hbody : body ≠ []) (id : Marker) :
    (b.hold id).Gathers lead (body ++ [.marker id]) :=
  h.body_concat rfl (List.append_nil _).symm (h.visible hbody) rfl

end Gathers

end Buffer

theorem eq_or_exists_of_concat_eq {α : Type} {before after xs : List α} {x y : α}
    (h : xs ++ [y] = before ++ x :: after) :
    after = [] ∧ xs = before ∧ y = x ∨ ∃ more, after = more ++ [y] ∧ xs = before ++ x :: more := by
  rcases List.eq_nil_or_concat after with rfl | ⟨more, last, rfl⟩
  · obtain ⟨hxs, hy⟩ := List.append_inj' h rfl
    exact .inl ⟨rfl, hxs, (List.cons.inj hy).1⟩
  · rw [List.concat_eq_append, ← List.cons_append, ← List.append_assoc] at h
    obtain ⟨hxs, hy⟩ := List.append_inj' h rfl
    rw [← (List.cons.inj hy).1]
    exact .inr ⟨more, List.concat_eq_append, hxs⟩

namespace Waits

variable {seen : List Command} {next : Buffer} {out : List Block}

theorem run_concat (h : Waits limits seen made b front lead body)
    (htake : b.take limits true c = (out, next)) :
    Buffer.takeAll limits true {} (seen ++ [c]) = (made ++ out, next) := by
  rw [Buffer.takeAll_concat, h.run, htake]

theorem lead_concat (h : Waits limits seen made b front lead [])
    (htake : b.take limits true c = (out, next)) (hnext : next.Gathers (lead ++ [c]) []) :
    Waits limits (seen ++ [c]) (made ++ out) next front (lead ++ [c]) [] := by
  have hrun := h.run_concat htake
  have hseen : seen ++ [c] = front ++ (lead ++ [c]) := by
    rw [h.seen_eq, List.append_nil, List.append_assoc]
  refine ⟨?_, hrun, h.cleared, ?_, hnext, ?_⟩
  · rw [hseen, List.append_nil]
  · rw [← hseen, hrun]
  · intro before id after hbody
    exact absurd hbody (by simp)

theorem body_concat (h : Waits limits seen made b front lead body)
    (htake : b.take limits true c = ([], next)) (hnext : next.Gathers lead (body ++ [c]))
    (hpass : ∀ id, c = .marker id → Passes limits lead body id) :
    Waits limits (seen ++ [c]) made next front lead (body ++ [c]) := by
  have hrun := h.run_concat htake
  rw [List.append_nil] at hrun
  refine ⟨?_, hrun, h.cleared, h.made_eq, hnext, ?_⟩
  · rw [h.seen_eq, List.append_assoc]
  · intro before id after hbody
    rcases eq_or_exists_of_concat_eq hbody with ⟨-, rfl, hid⟩ | ⟨more, -, hbody⟩
    · exact hpass id hid
    · exact h.passed before id more hbody

theorem of_isClear (h : Waits limits seen made b front lead body)
    (htake : b.take limits true c = (out, next)) (hnext : next.IsClear) :
    Waits limits (seen ++ [c]) (made ++ out) next (seen ++ [c]) [] [] := by
  have hrun := h.run_concat htake
  refine ⟨?_, hrun, ?_, ?_, .of_isClear hnext, ?_⟩
  · rw [List.append_nil, List.append_nil]
  · rw [hrun]
    exact hnext
  · rw [List.append_nil, hrun]
  · intro before id after hbody
    exact absurd hbody (by simp)

/-- What waits is cut off by a change of offset, or at the end. -/
theorem isCut_of_flush (h : Waits limits seen made b front lead body)
    (htext : k.text = Text.squeeze ((lead ++ body).flatMap Command.run))
    (hmarkers : k.markers = body.filterMap Command.marker?)
    (hrest : rest = [] ∨ ∃ pitch after, rest = .offset pitch :: after) :
    IsCut limits (seen ++ rest) made k front lead body rest := by
  refine ⟨?_, h.cleared, h.made_eq, h.gathers.blank, h.gathers.steady, htext, hmarkers, ?_, ?_⟩
  · rw [h.seen_eq]
  · intro before id after hbody _
    exact h.passed before id after hbody
  · refine .inr ⟨?_, ?_, hrest⟩
    · rw [← h.seen_eq, h.run]
    · intro before id hbody
      rw [hbody]
      exact h.passed before id [] hbody

/-- What waits is cut off by a marker. -/
theorem isCut_of_fills (h : Waits limits seen made b front lead body)
    (htake : b.take limits true (.marker id) = ([k], next))
    (hhold : (b.hold id).Gathers lead (body ++ [.marker id]))
    (htext : k.text = Text.squeeze ((lead ++ (body ++ [Command.marker id])).flatMap Command.run))
    (hmarkers : k.markers = (body ++ [Command.marker id]).filterMap Command.marker?)
    (hfills : Fills limits lead (body ++ [.marker id])) (rest : List Command) :
    IsCut limits (seen ++ .marker id :: rest) made k front lead (body ++ [.marker id]) rest := by
  have hseen : seen ++ [.marker id] = front ++ lead ++ (body ++ [.marker id]) := by
    rw [h.seen_eq, List.append_assoc]
  refine ⟨?_, h.cleared, h.made_eq, hhold.blank, hhold.steady, htext, hmarkers, ?_, ?_⟩
  · rw [← hseen, List.append_cons]
  · intro before other after hbody hafter
    rcases eq_or_exists_of_concat_eq hbody with ⟨hnil, -⟩ | ⟨more, -, hbody⟩
    · exact absurd hnil hafter
    · exact h.passed before other more hbody
  · refine .inl ⟨?_, ⟨body, id, rfl⟩, hfills⟩
    rw [← hseen, h.run_concat htake]

/-- While nothing waits nothing is cut off, lone markers apart. -/
theorem take_of_idle (h : Waits limits seen made b front lead []) (c : Command) :
    ∃ lead' body', (∀ k ∈ (b.take limits true c).1, k.hasText = false) ∧
      Waits limits (seen ++ [c]) (made ++ (b.take limits true c).1) (b.take limits true c).2
        front lead' body' := by
  have hidle : b.isIdle = true := h.gathers.isIdle_iff.2 rfl
  have hnone : ∀ k ∈ ([] : List Block), k.hasText = false := fun k hk => nomatch hk
  cases c with
  | text run =>
    have htake : b.take limits true (.text run) = ([], { b with text := b.text ++ run }) := rfl
    by_cases hblank : Text.allBlank run = true
    · refine ⟨lead ++ [.text run], [], hnone, ?_⟩
      exact h.lead_concat htake (h.gathers.lead_concat hblank rfl h.gathers.markers)
    · have hvisible : Text.allBlank (b.text ++ run) = false := by
        rw [Text.allBlank_append, Bool.eq_false_iff.2 hblank, Bool.and_false]
      rw [htake, List.append_nil]
      refine ⟨lead, [] ++ [.text run], hnone, h.body_concat htake ?_ ?_⟩
      · exact h.gathers.body_concat rfl rfl hvisible (List.append_nil _).symm
      · intro id hid
        cases hid
  | marker id =>
    have htake : b.take limits true (.marker id) = ([⟨[], [id], b.offset⟩], b) := by
      rw [Buffer.take, if_pos hidle]
    rw [htake]
    refine ⟨lead ++ [.marker id], [], ?_, ?_⟩
    · intro k hk
      rw [List.mem_singleton.1 hk]
      rfl
    · exact h.lead_concat htake
        (h.gathers.lead_concat rfl (List.append_nil _).symm h.gathers.markers)
  | offset pitch =>
    have htake : b.take limits true (.offset pitch) = ([], { b with offset := pitch }) := by
      rw [Buffer.take, Buffer.flush_of_idle hidle]
    rw [htake]
    refine ⟨lead ++ [.offset pitch], [], hnone, ?_⟩
    exact h.lead_concat htake
      (h.gathers.lead_concat rfl (List.append_nil _).symm h.gathers.markers)

/-- What waits goes on waiting with the next command, or it is cut off. -/
theorem take_of_waiting (h : Waits limits seen made b front lead body) (hbody : body ≠ [])
    (c : Command) :
    (b.take limits true c).1 = [] ∧
        Waits limits (seen ++ [c]) made (b.take limits true c).2 front lead (body ++ [c]) ∨
      ∃ k, (b.take limits true c).1 = [k] ∧
        Waits limits (seen ++ [c]) (made ++ [k]) (b.take limits true c).2 (seen ++ [c]) [] [] ∧
        ∀ rest, ∃ body' back, IsCut limits (seen ++ c :: rest) made k front lead body' back := by
  cases c with
  | text run =>
    have hvisible : Text.allBlank (b.text ++ run) = false := by
      rw [Text.allBlank_append, h.gathers.visible hbody, Bool.false_and]
    have htake : b.take limits true (.text run) = ([], { b with text := b.text ++ run }) := rfl
    refine .inl ⟨rfl, h.body_concat htake ?_ ?_⟩
    · exact h.gathers.body_concat rfl rfl hvisible (List.append_nil _).symm
    · intro id hid
      cases hid
  | marker id =>
    have hhold := h.gathers.hold hbody id
    have hidle : ¬ b.isIdle = true := fun hidle => hbody (h.gathers.isIdle_iff.1 hidle)
    by_cases hfills : Fills limits lead (body ++ [.marker id])
    · obtain ⟨k, hflush, htext, hmarkers⟩ := hhold.flush (by simp)
      have htake : b.take limits true (.marker id) =
          ([k], { b.hold id with text := [], markers := [] }) := by
        rw [Buffer.take, if_neg hidle, if_pos ?_, hflush]
        rw [Bool.not_true, Bool.false_or]
        exact hhold.isFull_iff.2 hfills
      rw [htake]
      refine .inr ⟨k, rfl, h.of_isClear htake ⟨rfl, rfl⟩, ?_⟩
      intro rest
      exact ⟨_, rest, h.isCut_of_fills htake hhold htext hmarkers hfills rest⟩
    · have htake : b.take limits true (.marker id) = ([], b.hold id) := by
        rw [Buffer.take, if_neg hidle, if_neg ?_]
        rw [Bool.not_true, Bool.false_or, hhold.isFull_iff]
        exact hfills
      rw [htake]
      refine .inl ⟨rfl, h.body_concat htake hhold ?_⟩
      rintro other ⟨⟩
      exact hfills
  | offset pitch =>
    obtain ⟨k, hflush, htext, hmarkers⟩ := h.gathers.flush hbody
    have htake : b.take limits true (.offset pitch) =
        ([k], { b with text := [], markers := [], offset := pitch }) := by
      rw [Buffer.take, hflush]
    rw [htake]
    refine .inr ⟨k, rfl, h.of_isClear htake ⟨rfl, rfl⟩, ?_⟩
    intro rest
    exact ⟨body, _, h.isCut_of_flush htext hmarkers (.inr ⟨pitch, rest, rfl⟩)⟩

/-- What waits at the end is cut off there. -/
theorem isCut_of_end (h : Waits limits seen made b front lead body)
    (hflush : b.flush.1 = before ++ k :: after) :
    IsCut limits seen (made ++ before) k front lead body [] := by
  by_cases hbody : body = []
  · rw [Buffer.flush_of_idle (h.gathers.isIdle_iff.2 hbody)] at hflush
    exact absurd hflush (by simp)
  · obtain ⟨cut, hcut, htext, hmarkers⟩ := h.gathers.flush hbody
    rw [hcut] at hflush
    rcases List.cons_eq_append_iff.1 hflush with ⟨rfl, hk⟩ | ⟨more, -, hnil⟩
    · obtain ⟨rfl, -⟩ := List.cons.inj hk
      have hcut := h.isCut_of_flush htext hmarkers (.inl rfl)
      rwa [List.append_nil] at hcut ⊢
    · exact absurd hnil (by simp)

end Waits

theorem exists_of_append_eq {α : Type} {out more before after : List α} {x : α}
    (h : out ++ more = before ++ x :: after) (hx : x ∉ out) :
    ∃ middle, before = out ++ middle ∧ more = middle ++ x :: after := by
  rcases List.append_eq_append_iff.1 h with ⟨middle, rfl, rfl⟩ | ⟨middle, rfl, hmore⟩
  · exact ⟨middle, rfl, rfl⟩
  · cases middle with
    | nil => exact ⟨[], by simp, by simpa using hmore.symm⟩
    | cons y more =>
      obtain ⟨rfl, -⟩ := List.cons.inj hmore
      exact absurd (by simp) hx

/-- A block with text that comes of what waits and of the commands after it has been cut. -/
theorem exists_isCut {seen : List Command} (h : Waits limits seen made b front lead body)
    (hsegment : segmentFrom limits true b rest = before ++ k :: after) (hk : k.hasText = true) :
    ∃ front' lead' body' back,
      IsCut limits (seen ++ rest) (made ++ before) k front' lead' body' back := by
  induction rest generalizing seen made b front lead body before with
  | nil =>
    rw [List.append_nil]
    exact ⟨front, lead, body, [], h.isCut_of_end hsegment⟩
  | cons c rest ih =>
    rw [segmentFrom_cons] at hsegment
    rw [List.append_cons]
    by_cases hbody : body = []
    · subst hbody
      obtain ⟨lead', body', hout, hnext⟩ := h.take_of_idle c
      have hnot : k ∉ (b.take limits true c).1 := by
        intro hmem
        rw [hout k hmem] at hk
        cases hk
      obtain ⟨middle, rfl, hmiddle⟩ := exists_of_append_eq hsegment hnot
      rw [← List.append_assoc]
      exact ih hnext hmiddle
    · rcases h.take_of_waiting hbody c with ⟨hout, hnext⟩ | ⟨k', hout, hnext, hcut⟩
      · rw [hout] at hsegment
        exact ih hnext hsegment
      · rw [hout] at hsegment
        cases before with
        | nil =>
          obtain ⟨rfl, -⟩ := List.cons.inj hsegment
          obtain ⟨body', back, hcut⟩ := hcut rest
          refine ⟨front, lead, body', back, ?_⟩
          rwa [← List.append_cons, List.append_nil]
        | cons first middle =>
          obtain ⟨rfl, hmiddle⟩ := List.cons.inj hsegment
          rw [List.append_cons made]
          exact ih hnext hmiddle

theorem length_markers_of_mem_flush {n : Nat} (hb : b.markers.length ≤ n) (hk : k ∈ b.flush.1) :
    k.markers.length ≤ n := by
  rwa [Buffer.markers_of_mem_flush hk]

theorem length_markers_take (hb : b.markers.length ≤ limits.maxMarkers) :
    (∀ k ∈ (b.take limits true c).1, k.markers.length ≤ limits.maxMarkers + 1) ∧
      (b.take limits true c).2.markers.length ≤ limits.maxMarkers := by
  have hempty (b : Buffer) : b.flush.2.markers.length ≤ limits.maxMarkers := by
    rw [b.markers_flush]
    exact Nat.zero_le _
  cases c with
  | text run => exact ⟨by simp [Buffer.take], hb⟩
  | marker id =>
    have hhold : (b.hold id).markers.length ≤ limits.maxMarkers + 1 := by
      rw [Buffer.hold, List.length_append]
      exact Nat.add_le_add_right hb 1
    rw [Buffer.take]
    split
    · refine ⟨?_, hb⟩
      intro k hk
      rw [List.mem_singleton.1 hk]
      exact Nat.le_add_left 1 limits.maxMarkers
    · split
      · exact ⟨fun k hk => length_markers_of_mem_flush hhold hk, hempty (b.hold id)⟩
      · rename_i hroom
        refine ⟨by simp, ?_⟩
        rw [Bool.not_true, Bool.false_or, Buffer.isFull] at hroom
        simp only [Bool.or_eq_true, decide_eq_true_iff, not_or] at hroom
        exact Nat.le_of_not_lt hroom.2
  | offset pitch =>
    exact ⟨fun k hk => length_markers_of_mem_flush (Nat.le_succ_of_le hb) hk, hempty b⟩

theorem length_markers_le {commands : List Command} (hb : b.markers.length ≤ limits.maxMarkers) :
    ∀ k ∈ segmentFrom limits true b commands, k.markers.length ≤ limits.maxMarkers + 1 := by
  induction commands generalizing b with
  | nil => exact fun k hk => length_markers_of_mem_flush (Nat.le_succ_of_le hb) hk
  | cons c rest ih =>
    intro k hk
    obtain ⟨hout, hnext⟩ := length_markers_take (c := c) hb
    rw [segmentFrom_cons] at hk
    rcases List.mem_append.1 hk with hk | hk
    · exact hout k hk
    · exact ih hnext k hk

/-- Where markers are held back, no block has more markers than one above the limit, and every
block with text has been cut for a reason: by its last marker, which finds a sentence at its end or
too much waiting, or by a change of offset or the end of the commands; its other markers find
nothing of the kind. -/
theorem cut_for_a_reason (limits : CoalesceLimits) (commands : List Command) :
    (∀ k ∈ segment limits true commands, k.markers.length ≤ limits.maxMarkers + 1) ∧
      ∀ made k after, segment limits true commands = made ++ k :: after → k.hasText = true →
        ∃ front lead body back, IsCut limits commands made k front lead body back := by
  refine ⟨length_markers_le (Nat.zero_le _), ?_⟩
  intro made k after hsegment hk
  have hstart : Waits limits [] [] {} [] [] [] :=
    ⟨rfl, rfl, ⟨rfl, rfl⟩, rfl, .of_isClear ⟨rfl, rfl⟩, fun before id after h => absurd h (by simp)⟩
  exact exists_isCut hstart hsegment hk

/-- The blanks that waited through the change of offset are text that waits, though only one of them
is left in the block. -/
theorem cut_for_a_reason_blanks :
    let commands : List Command :=
      [.text [' ', ' '], .offset 1, .text ['a', 'b'], .marker 7, .text ['c']]
    let k : Block := ⟨[' ', 'a', 'b'], [7], 1⟩
    segment ⟨3, 9⟩ true commands = [k, ⟨['c'], [], 1⟩] ∧ k.hasText = true ∧
      ∃ front lead body back, IsCut ⟨3, 9⟩ commands [] k front lead body back := by
  intro commands k
  have hsegment : segment ⟨3, 9⟩ true commands = [k, ⟨['c'], [], 1⟩] := by decide
  have hk : k.hasText = true := by decide
  exact ⟨hsegment, hk, (cut_for_a_reason ⟨3, 9⟩ commands).2 [] k _ hsegment hk⟩

end Elocution.Block
