import Elocution.Proofs.Block.Placement

/-!
# Blocks as commands

A block can be written as the commands that bring it about: its offset, its text and its markers.
Where no marker is held back a block has at most one marker and squeezed text; blocks of this kind,
written as commands one after the other, are cut up into the same blocks again.
-/

namespace Elocution.Block

/-- The commands that say what a block says. -/
def commands (k : Block) : List Command :=
  .offset k.offset :: ((if k.hasText then [.text k.text] else []) ++ k.markers.map .marker)

/-- A block that takes at most one marker to cut it off, and that is written in canonical form. -/
structure IsSimple (k : Block) : Prop where
  wellFormed : k.WellFormed
  squeezed : Text.squeeze k.text = k.text
  single : k.markers.length ≤ 1

variable {limits : CoalesceLimits} {b : Buffer} {blocks : List Block} {k : Block}

namespace Buffer

/-- A buffer into which nothing has come under this offset. -/
def fresh (offset : Float32) : Buffer := { offset }

theorem squeezed_flush (hk : k ∈ b.flush.1) : Text.squeeze k.text = k.text := by
  cases h : b.isIdle with
  | true =>
    rw [flush_of_idle h] at hk
    cases hk
  | false =>
    rw [flush_of_not_idle h] at hk
    rw [List.mem_singleton.1 hk]
    dsimp only
    split
    · rfl
    · exact Text.squeezeFrom_idem false b.text

theorem squeezed_take (hb : b.markers = []) {c : Command} (hk : k ∈ (b.take limits false c).1) :
    Text.squeeze k.text = k.text ∧ k.markers.length ≤ 1 := by
  cases c with
  | text run => cases hk
  | marker id =>
    rw [take] at hk
    split at hk
    · obtain rfl := List.mem_singleton.1 hk
      exact ⟨rfl, Nat.le_refl 1⟩
    · refine ⟨squeezed_flush hk, ?_⟩
      rw [markers_of_mem_flush hk, hold, hb]
      exact Nat.le_refl 1
  | offset pitch =>
    refine ⟨squeezed_flush hk, ?_⟩
    rw [markers_of_mem_flush hk, hb]
    exact Nat.zero_le 1

/-- A change of offset leaves nothing behind, unless blanks alone were waiting. -/
theorem flush_fresh (hb : b.isIdle = true → b.text = []) (pitch : Float32) :
    { b.flush.2 with offset := pitch } = fresh pitch := by
  cases h : b.isIdle with
  | true =>
    rw [flush_of_idle h, fresh]
    simp only [hb h, (isIdle_iff.1 h).2]
  | false =>
    rw [flush_of_not_idle h]
    rfl

theorem flush_visible {text : List Char} (hvisible : Text.allBlank text = false)
    (hsqueezed : Text.squeeze text = text) (ids : List Marker) (offset : Float32) :
    isIdle ⟨text, ids, offset⟩ = false ∧
      flush ⟨text, ids, offset⟩ = ([⟨text, ids, offset⟩], fresh offset) := by
  have hidle : isIdle ⟨text, ids, offset⟩ = false := by
    rw [isIdle, hvisible, Bool.false_and]
  refine ⟨hidle, ?_⟩
  rw [flush_of_not_idle hidle, if_neg (by simp [hvisible]), hsqueezed]
  rfl

theorem take_marker {text : List Char} (hvisible : Text.allBlank text = false)
    (hsqueezed : Text.squeeze text = text) (id : Marker) (offset : Float32) :
    take limits false ⟨text, [], offset⟩ (.marker id) =
      ([⟨text, [id], offset⟩], fresh offset) := by
  rw [take, (flush_visible hvisible hsqueezed [] offset).1, if_neg Bool.false_ne_true,
    if_pos (by rw [Bool.not_false, Bool.true_or])]
  exact (flush_visible hvisible hsqueezed [id] offset).2

/-- Text that waits is a block with its marker at once, or without one at the next flush. -/
theorem takeAll_visible (limits : CoalesceLimits) {text : List Char} {ids : List Marker}
    (hvisible : Text.allBlank text = false) (hsqueezed : Text.squeeze text = text)
    (hsingle : ids.length ≤ 1) (offset : Float32) :
    ∃ out next, takeAll limits false ⟨text, [], offset⟩ (ids.map .marker) = (out, next) ∧
      out ++ next.flush.1 = [⟨text, ids, offset⟩] ∧ (next.isIdle = true → next.text = []) := by
  rcases Nat.le_one_iff_eq_zero_or_eq_one.1 hsingle with hnone | hone
  · obtain rfl := List.length_eq_zero_iff.1 hnone
    obtain ⟨hidle, hflush⟩ := flush_visible hvisible hsqueezed [] offset
    refine ⟨[], _, rfl, ?_, ?_⟩
    · rw [hflush, List.nil_append]
    · intro h
      rw [hidle] at h
      cases h
  · obtain ⟨id, rfl⟩ := List.length_eq_one_iff.1 hone
    rw [List.map_singleton, takeAll_cons, take_marker hvisible hsqueezed]
    exact ⟨_, fresh offset, rfl, rfl, fun _ => rfl⟩

/-- The commands of a block give the block, if not at once then with the next flush. -/
theorem takeAll_commands (limits : CoalesceLimits) (hb : b.isIdle = true → b.text = [])
    (hk : k.IsSimple) :
    ∃ out next, b.takeAll limits false k.commands = (out, next) ∧
      out ++ next.flush.1 = b.flush.1 ++ [k] ∧ (next.isIdle = true → next.text = []) := by
  obtain ⟨text, ids, offset⟩ := k
  rw [commands, takeAll_cons, take, flush_fresh hb]
  rcases hk.wellFormed with hvisible | ⟨hnone, id, hid⟩
  · have htext : hasText ⟨text, ids, offset⟩ = true := by
      cases text with
      | nil => cases hvisible
      | cons c rest => rfl
    have hwrite : (fresh offset).take limits false (.text text) = ([], ⟨text, [], offset⟩) := rfl
    obtain ⟨out, next, htake, hout, hnext⟩ :=
      takeAll_visible limits hvisible hk.squeezed hk.single offset
    dsimp only at htake hout
    rw [if_pos htext, List.singleton_append, takeAll_cons, hwrite, htake]
    refine ⟨_, _, rfl, ?_, hnext⟩
    rw [List.nil_append, List.append_assoc, hout]
  · dsimp only at hnone hid
    subst hnone hid
    exact ⟨_, _, rfl, List.append_nil _, fun _ => rfl⟩

end Buffer

theorem squeezed_segmentFrom (hb : b.markers = []) {commands : List Command}
    (hk : k ∈ segmentFrom limits false b commands) :
    Text.squeeze k.text = k.text ∧ k.markers.length ≤ 1 := by
  induction commands generalizing b with
  | nil =>
    refine ⟨Buffer.squeezed_flush hk, ?_⟩
    rw [Buffer.markers_of_mem_flush hk, hb]
    exact Nat.zero_le 1
  | cons c rest ih =>
    rw [segmentFrom_cons] at hk
    rcases List.mem_append.1 hk with hout | hrest
    · exact Buffer.squeezed_take hb hout
    · exact ih (Buffer.markers_take hb c) hrest

theorem isSimple_of_mem_segment {commands : List Command}
    (hk : k ∈ segment limits false commands) : k.IsSimple := by
  obtain ⟨hsqueezed, hsingle⟩ := squeezed_segmentFrom rfl hk
  exact ⟨wellFormed_segment hk, hsqueezed, hsingle⟩

/-- The commands of simple blocks bring these blocks about, after what they find in the buffer. -/
theorem segmentFrom_commands (hb : b.isIdle = true → b.text = [])
    (hblocks : ∀ k ∈ blocks, k.IsSimple) :
    segmentFrom limits false b (blocks.flatMap commands) = b.flush.1 ++ blocks := by
  induction blocks generalizing b with
  | nil =>
    rw [List.flatMap_nil, List.append_nil]
    rfl
  | cons k rest ih =>
    obtain ⟨out, next, htake, hout, hnext⟩ :=
      Buffer.takeAll_commands limits hb (hblocks k List.mem_cons_self)
    have hrest := ih hnext fun k hk => hblocks k (List.mem_cons_of_mem _ hk)
    rw [List.flatMap_cons, segmentFrom_append, htake]
    calc
      out ++ segmentFrom limits false next (rest.flatMap commands)
        = (out ++ next.flush.1) ++ rest := by rw [hrest, List.append_assoc]
      _ = b.flush.1 ++ k :: rest := by rw [hout, ← List.append_cons]

/-- Simple blocks come back from the commands that they are written as. -/
theorem segment_commands (limits : CoalesceLimits) (hblocks : ∀ k ∈ blocks, k.IsSimple) :
    segment limits false (blocks.flatMap Block.commands) = blocks :=
  segmentFrom_commands (fun _ => rfl) hblocks

/-- What has been cut into blocks is cut into the same blocks again, as long as no marker is held
back. -/
theorem segment_idempotent (limits : CoalesceLimits) (commands : List Command) :
    segment limits false ((segment limits false commands).flatMap Block.commands) =
      segment limits false commands := by
  apply segment_commands
  intro k hk
  exact isSimple_of_mem_segment hk

end Elocution.Block
