import Elocution.Block
import Elocution.Proofs.Text.Squeeze

/-!
# What segmentation conserves

The commands, read one after the other under the offset in force, say the same as the blocks they
come to: the same markers and the same characters other than blanks, each under the same offset.
Blanks between two words may be joined, and blanks at the end of the commands may be lost.
-/

namespace Elocution

namespace Command

def marker? : Command → Option Marker
  | .marker id => some id
  | _ => none

def run : Command → List Char
  | .text run => run
  | _ => []

def pitch? : Command → Option Float32
  | .offset pitch => some pitch
  | _ => none

/-- The commands, each with the offset in force where it stands. -/
def underOffset (offset : Float32) : List Command → List (Float32 × Command)
  | [] => []
  | c :: rest => (offset, c) :: underOffset (c.pitch?.getD offset) rest

theorem flatMap_underOffset {α : Type} (f : Command → List α) (offset : Float32)
    (commands : List Command) :
    (underOffset offset commands).flatMap (fun c => f c.2) = commands.flatMap f := by
  induction commands generalizing offset with
  | nil => rfl
  | cons c rest ih => rw [underOffset, List.flatMap_cons, List.flatMap_cons, ih]

theorem flatMap_marker? (commands : List Command) :
    commands.flatMap (fun c => c.marker?.toList) = commands.filterMap marker? := by
  induction commands with
  | nil => rfl
  | cons c rest ih =>
    rw [List.flatMap_cons, ih, List.filterMap_cons]
    cases c.marker? <;> rfl

end Command

namespace Block

variable {limits : CoalesceLimits} {coalesce : Bool} {b : Buffer} {commands : List Command}

theorem Buffer.isIdle_iff : b.isIdle = true ↔ Text.allBlank b.text = true ∧ b.markers = [] := by
  simp [Buffer.isIdle]

theorem Buffer.flush_of_idle (h : b.isIdle = true) : b.flush = ([], b) := by
  rw [Buffer.flush, if_pos h]

theorem Buffer.flush_of_not_idle (h : b.isIdle = false) :
    b.flush = ([⟨if Text.allBlank b.text then [] else Text.squeeze b.text, b.markers, b.offset⟩],
      { b with text := [], markers := [] }) := by
  rw [Buffer.flush, if_neg (by simp [h])]

theorem Buffer.flush_offset (b : Buffer) : b.flush.2.offset = b.offset := by
  cases h : b.isIdle with
  | true => rw [flush_of_idle h]
  | false => rw [flush_of_not_idle h]

theorem Buffer.markers_of_mem_flush {k : Block} (hk : k ∈ b.flush.1) : k.markers = b.markers := by
  cases h : b.isIdle with
  | true => rw [flush_of_idle h] at hk; cases hk
  | false => rw [flush_of_not_idle h] at hk; rw [List.mem_singleton.1 hk]

theorem Buffer.markers_flush (b : Buffer) : b.flush.2.markers = [] := by
  cases h : b.isIdle with
  | true => rw [flush_of_idle h, (isIdle_iff.1 h).2]
  | false => rw [flush_of_not_idle h]

/-- A reading of blocks, of what is buffered and of commands that a flush carries over whole and
that the buffer takes in as the commands come. -/
structure Conserved {α : Type} (block : Block → List α) (held : Buffer → List α)
    (command : Float32 × Command → List α) : Prop where
  flush (b : Buffer) : b.flush.1.flatMap block = held b ∧ held b.flush.2 = []
  alone (offset : Float32) (id : Marker) :
    block ⟨[], [id], offset⟩ = command (offset, .marker id)
  text (b : Buffer) (run : List Char) :
    held { b with text := b.text ++ run } = held b ++ command (b.offset, .text run)
  marker (b : Buffer) (id : Marker) :
    held { b with markers := b.markers ++ [id] } = held b ++ command (b.offset, .marker id)
  offset (b : Buffer) (pitch : Float32) :
    command (b.offset, .offset pitch) = [] ∧
      (held b = [] → held { b with offset := pitch } = [])

theorem Conserved.segmentFrom {α : Type} {block : Block → List α} {held : Buffer → List α}
    {command : Float32 × Command → List α} (hc : Conserved block held command)
    (limits : CoalesceLimits) (coalesce : Bool) (b : Buffer) (commands : List Command) :
    (segmentFrom limits coalesce b commands).flatMap block =
      held b ++ (Command.underOffset b.offset commands).flatMap command := by
  induction commands generalizing b with
  | nil => simp [Block.segmentFrom, Command.underOffset, (hc.flush b).1]
  | cons c rest ih =>
    have hread (offset : Float32) :
        (Command.underOffset offset (c :: rest)).flatMap command = command (offset, c) ++
          (Command.underOffset (c.pitch?.getD offset) rest).flatMap command := by
      rw [Command.underOffset, List.flatMap_cons]
    rw [hread]
    cases c with
    | text run =>
      rw [Block.segmentFrom, ih, hc.text, List.append_assoc]
      rfl
    | marker id =>
      rw [Block.segmentFrom]
      split
      · rename_i hidle
        -- The marker overtakes nothing: an idle buffer holds only blanks.
        have hheld : held b = [] := by
          rw [← (hc.flush b).1, Buffer.flush_of_idle hidle]
          rfl
        rw [List.flatMap_cons, hc.alone, ih, hheld]
        rfl
      · obtain ⟨hout, hleft⟩ := hc.flush { b with markers := b.markers ++ [id] }
        dsimp only
        split
        · rw [List.flatMap_append, hout, ih, hleft, hc.marker, Buffer.flush_offset,
            List.nil_append, List.append_assoc]
          rfl
        · rw [ih, hc.marker, List.append_assoc]
          rfl
    | offset pitch =>
      obtain ⟨hout, hleft⟩ := hc.flush b
      obtain ⟨hnone, hkeep⟩ := hc.offset b.flush.2 pitch
      rw [Buffer.flush_offset] at hnone
      rw [Block.segmentFrom, List.flatMap_append, hout, ih, hkeep hleft, hnone]
      rfl

theorem conserved_markers {α : Type} (f : Marker → Float32 → α) :
    Conserved (fun k => k.markers.map (f · k.offset)) (fun b => b.markers.map (f · b.offset))
      (fun c => c.2.marker?.toList.map (f · c.1)) where
  flush b := by
    cases h : b.isIdle with
    | true =>
      have hnone := (Buffer.isIdle_iff.1 h).2
      rw [Buffer.flush_of_idle h, hnone]
      exact ⟨rfl, rfl⟩
    | false =>
      rw [Buffer.flush_of_not_idle h]
      exact ⟨List.append_nil _, rfl⟩
  alone offset id := rfl
  text b run := (List.append_nil _).symm
  marker b id := List.map_append
  offset b pitch := by
    refine ⟨rfl, ?_⟩
    intro h
    rw [List.map_eq_nil_iff.1 h]
    rfl

theorem conserved_characters {α : Type} {p : Char → Bool}
    (hp : ∀ c, Text.isBlank c = true → p c = false) (f : Char → Float32 → α) :
    Conserved (fun k => (k.text.filter p).map (f · k.offset))
      (fun b => (b.text.filter p).map (f · b.offset))
      (fun c => (c.2.run.filter p).map (f · c.1)) where
  flush b := by
    cases h : b.isIdle with
    | true =>
      have hblank := (Buffer.isIdle_iff.1 h).1
      rw [Buffer.flush_of_idle h, Text.filter_of_allBlank hp hblank]
      exact ⟨rfl, rfl⟩
    | false =>
      rw [Buffer.flush_of_not_idle h]
      refine ⟨?_, rfl⟩
      rw [List.flatMap_cons, List.flatMap_nil, List.append_nil]
      dsimp only
      split
      · rename_i hblank
        rw [Text.filter_of_allBlank hp hblank]
        rfl
      · rw [Text.filter_squeeze hp]
  alone offset id := rfl
  text b run := by simp only [Command.run, List.filter_append, List.map_append]
  marker b id := (List.append_nil _).symm
  offset b pitch := by
    refine ⟨rfl, ?_⟩
    intro h
    rw [List.map_eq_nil_iff.1 h]
    rfl

theorem markers_segment (limits : CoalesceLimits) (coalesce : Bool) (commands : List Command) :
    (segment limits coalesce commands).flatMap Block.markers =
      commands.filterMap Command.marker? := by
  have h := (conserved_markers fun id _ => id).segmentFrom limits coalesce {} commands
  simp only [List.map_id_fun', id, List.map_nil, List.nil_append] at h
  rw [segment, h, Command.flatMap_underOffset fun c => c.marker?.toList, Command.flatMap_marker?]

/-- Markers wait in the buffer only behind something that can be spoken. -/
def Buffer.Ready (b : Buffer) : Prop := b.markers ≠ [] → Text.allBlank b.text = false

theorem Buffer.Ready.not_blank (hb : b.Ready) (hidle : b.isIdle = false) :
    Text.allBlank b.text = false := by
  cases hm : b.markers with
  | nil => simpa [Buffer.isIdle, hm] using hidle
  | cons id more => exact hb (by simp [hm])

/-- What a flush makes is a block with text, and what it leaves is blank. -/
theorem Buffer.Ready.flush (hb : b.Ready) :
    (∀ k ∈ b.flush.1, Text.allBlank k.text = false) ∧
      Text.allBlank b.flush.2.text = true ∧ b.flush.2.Ready ∧
      ∀ after, Text.squeeze (b.flush.1.flatMap Block.text ++ (b.flush.2.text ++ after)) =
        Text.squeeze (b.text ++ after) := by
  cases h : b.isIdle with
  | true =>
    rw [flush_of_idle h]
    exact ⟨by simp, (isIdle_iff.1 h).1, hb, fun after => rfl⟩
  | false =>
    have htext := hb.not_blank h
    rw [flush_of_not_idle h, if_neg (by simp [htext])]
    refine ⟨?_, rfl, fun hne => absurd rfl hne, ?_⟩
    · intro k hk
      rw [List.mem_singleton.1 hk]
      exact (Text.allBlank_squeezeFrom false b.text).trans htext
    · intro after
      rw [List.flatMap_cons, List.flatMap_nil, List.append_nil]
      exact Text.squeeze_append_left b.text after

theorem Buffer.Ready.text (hb : b.Ready) (run : List Char) :
    Buffer.Ready { b with text := b.text ++ run } := by
  intro hsome
  rw [Text.allBlank_append, hb hsome]
  rfl

theorem Buffer.Ready.marker (hb : b.Ready) (hidle : b.isIdle = false) (id : Marker) :
    Buffer.Ready { b with markers := b.markers ++ [id] } :=
  fun _ => hb.not_blank hidle

/-- A block has text that can be spoken, or no text and one marker. -/
def WellFormed (k : Block) : Prop :=
  Text.allBlank k.text = false ∨ k.text = [] ∧ ∃ id, k.markers = [id]

theorem wellFormed_segmentFrom (hb : b.Ready) :
    ∀ k ∈ segmentFrom limits coalesce b commands, k.WellFormed := by
  induction commands generalizing b with
  | nil =>
    intro k hk
    exact .inl (hb.flush.1 k hk)
  | cons c rest ih =>
    have hflush {b : Buffer} (hb : b.Ready) {left : Buffer} (hleft : left.Ready) :
        ∀ k ∈ b.flush.1 ++ segmentFrom limits coalesce left rest, k.WellFormed := by
      intro k hk
      rcases List.mem_append.1 hk with hout | hrest
      · exact .inl (hb.flush.1 k hout)
      · exact ih hleft k hrest
    cases c with
    | text run => exact ih (hb.text run)
    | marker id =>
      rw [segmentFrom]
      split
      · intro k hk
        rcases List.mem_cons.1 hk with rfl | hrest
        · exact .inr ⟨rfl, id, rfl⟩
        · exact ih hb k hrest
      · rename_i hidle
        have hheld := hb.marker (by simpa using hidle) id
        dsimp only
        split
        · exact hflush hheld hheld.flush.2.2.1
        · exact ih hheld
    | offset pitch => exact hflush hb hb.flush.2.2.1

/-- But for blanks that no word follows, the blocks have the text of the commands. -/
theorem squeeze_segmentFrom (limits : CoalesceLimits) (coalesce : Bool) (commands : List Command)
    (hb : b.Ready) :
    ∃ blanks, Text.allBlank blanks = true ∧
      Text.squeeze ((segmentFrom limits coalesce b commands).flatMap Block.text ++ blanks) =
        Text.squeeze (b.text ++ commands.flatMap Command.run) := by
  induction commands generalizing b with
  | nil =>
    obtain ⟨-, hblank, -, hsame⟩ := hb.flush
    refine ⟨b.flush.2.text, hblank, ?_⟩
    have h := hsame []
    rwa [List.append_nil] at h
  | cons c rest ih =>
    have hflush {b : Buffer} (hb : b.Ready) {left : Buffer} (hleft : left.Ready)
        (htext : left.text = b.flush.2.text) :
        ∃ blanks, Text.allBlank blanks = true ∧
          Text.squeeze ((b.flush.1 ++ segmentFrom limits coalesce left rest).flatMap Block.text ++
            blanks) = Text.squeeze (b.text ++ rest.flatMap Command.run) := by
      obtain ⟨blanks, hblanks, h⟩ := ih hleft
      refine ⟨blanks, hblanks, ?_⟩
      rw [List.flatMap_append, List.append_assoc, Text.squeeze_append_congr h, htext]
      exact hb.flush.2.2.2 _
    rw [List.flatMap_cons]
    cases c with
    | text run =>
      obtain ⟨blanks, hblanks, h⟩ := ih (hb.text run)
      refine ⟨blanks, hblanks, h.trans ?_⟩
      rw [List.append_assoc]
      rfl
    | marker id =>
      rw [segmentFrom]
      split
      · exact ih hb
      · rename_i hidle
        have hheld := hb.marker (by simpa using hidle) id
        dsimp only
        split
        · exact hflush hheld hheld.flush.2.2.1 rfl
        · exact ih hheld
    | offset pitch => exact hflush hb hb.flush.2.2.1 rfl

theorem ready_empty : Buffer.Ready {} := fun hne => absurd rfl hne

theorem wellFormed_segment {k : Block} (hk : k ∈ segment limits coalesce commands) :
    k.WellFormed :=
  wellFormed_segmentFrom ready_empty k hk

/-- Blanks alone are no speakable text. -/
theorem hasText_segment_of_blank (limits : CoalesceLimits) (coalesce : Bool)
    {commands : List Command} (hc : ∀ run, .text run ∈ commands → Text.allBlank run = true) :
    (segment limits coalesce commands).any hasText = false := by
  obtain ⟨blanks, -, h⟩ := squeeze_segmentFrom limits coalesce commands ready_empty
  have hruns : Text.allBlank (commands.flatMap Command.run) = true := by
    rw [Text.allBlank, List.all_flatMap, List.all_eq_true]
    intro c hm
    cases c with
    | text run => exact hc run hm
    | marker id => rfl
    | offset pitch => rfl
  have hall : Text.allBlank ((segment limits coalesce commands).flatMap Block.text) = true := by
    have hboth := (Text.allBlank_squeezeFrom false _).symm.trans
      ((congrArg Text.allBlank h).trans ((Text.allBlank_squeezeFrom false _).trans hruns))
    rw [Text.allBlank_append, Bool.and_eq_true] at hboth
    exact hboth.1
  rw [Text.allBlank, List.all_flatMap, List.all_eq_true] at hall
  rw [List.any_eq_false]
  intro k hk
  rcases wellFormed_segment hk with hvisible | ⟨hnone, -⟩
  · exact absurd (hall k hk) (by simpa [Text.allBlank] using hvisible)
  · simp [hasText, hnone]

/-- Nothing is lost between commands and blocks, and nothing changes its pitch: the markers, in
order; the text, blanks squeezed and those at its end apart; every character other than a blank
and every marker, with the offset that is in force where it stands. No block is empty, and a
block without text is one marker. -/
theorem segment_conserves (limits : CoalesceLimits) (coalesce : Bool) (commands : List Command) :
    (segment limits coalesce commands).flatMap Block.markers =
        commands.filterMap Command.marker? ∧
      Text.trimEnd (Text.squeeze ((segment limits coalesce commands).flatMap Block.text)) =
        Text.trimEnd (Text.squeeze (commands.flatMap Command.run)) ∧
      ((segment limits coalesce commands).flatMap fun k =>
          (k.text.filter Text.notBlank).map (·, k.offset)) =
        (Command.underOffset 0 commands).flatMap
          (fun c => (c.2.run.filter Text.notBlank).map (·, c.1)) ∧
      ((segment limits coalesce commands).flatMap fun k => k.markers.map (·, k.offset)) =
        (Command.underOffset 0 commands).flatMap (fun c => c.2.marker?.toList.map (·, c.1)) ∧
      ∀ k ∈ segment limits coalesce commands,
        k.isEmpty = false ∧ (k.hasText = false → ∃ id, k.markers = [id]) := by
  refine ⟨markers_segment .., ?_, ?_, ?_, ?_⟩
  · obtain ⟨blanks, hblanks, h⟩ := squeeze_segmentFrom limits coalesce commands ready_empty
    rw [segment, ← Text.trimEnd_squeeze_append_blank _ hblanks, h]
    rfl
  · exact (conserved_characters Text.notBlank_of_isBlank fun c offset => (c, offset)).segmentFrom
      limits coalesce {} commands
  · exact (conserved_markers fun id offset => (id, offset)).segmentFrom limits coalesce {} commands
  · intro k hk
    rcases wellFormed_segment hk with hvisible | ⟨hnone, id, hid⟩
    · have htext : k.text ≠ [] := by
        intro hnone
        rw [hnone] at hvisible
        cases hvisible
      exact ⟨by simp [isEmpty, htext], fun h => absurd h (by simp [hasText, htext])⟩
    · exact ⟨by simp [isEmpty, hid], fun _ => ⟨id, hid⟩⟩

end Block

end Elocution
