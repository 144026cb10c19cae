import Elocution.Proofs.Block.Conservation

/-!
# Where markers stand

Commands and blocks are both read as one sequence of visible characters and markers. Unless
markers are held back the two sequences are the same. A marker that is held back lets characters
pass, all of them of the block that it comes to stand in.
-/

namespace Elocution

/-- A character other than a blank, or a marker. -/
inductive Token where
  | character (c : Char)
  | marker (id : Marker)
deriving DecidableEq

namespace Token

def character? : Token → Option Char
  | .character c => some c
  | .marker _ => none

def marker? : Token → Option Marker
  | .character _ => none
  | .marker id => some id

def characters (tokens : List Token) : List Char := tokens.filterMap character?

def markers (tokens : List Token) : List Marker := tokens.filterMap marker?

def ofText (text : List Char) : List Token := (text.filter Text.notBlank).map .character

def ofMarkers (ids : List Marker) : List Token := ids.map .marker

/-- The same characters and the same markers, whatever stands between which. -/
def Alike (s t : List Token) : Prop := characters s = characters t ∧ markers s = markers t

variable {s t u : List Token}

@[simp] theorem characters_append (s t : List Token) :
    characters (s ++ t) = characters s ++ characters t :=
  List.filterMap_append ..

@[simp] theorem markers_append (s t : List Token) :
    markers (s ++ t) = markers s ++ markers t :=
  List.filterMap_append ..

@[simp] theorem characters_ofText (text : List Char) :
    characters (ofText text) = text.filter Text.notBlank := by
  simp [characters, ofText, List.filterMap_map, Function.comp_def, character?]

@[simp] theorem characters_ofMarkers (ids : List Marker) : characters (ofMarkers ids) = [] := by
  simp [characters, ofMarkers, List.filterMap_map, Function.comp_def, character?]

@[simp] theorem markers_ofText (text : List Char) : markers (ofText text) = [] := by
  simp [markers, ofText, List.filterMap_map, Function.comp_def, marker?]

@[simp] theorem markers_ofMarkers (ids : List Marker) : markers (ofMarkers ids) = ids := by
  simp [markers, ofMarkers, List.filterMap_map, Function.comp_def, marker?]

@[simp] theorem ofText_append (s t : List Char) : ofText (s ++ t) = ofText s ++ ofText t := by
  simp [ofText]

@[simp] theorem ofMarkers_append (s t : List Marker) :
    ofMarkers (s ++ t) = ofMarkers s ++ ofMarkers t :=
  List.map_append

theorem ofText_of_allBlank {text : List Char} (h : Text.allBlank text = true) :
    ofText text = [] := by
  rw [ofText, Text.filter_of_allBlank Text.notBlank_of_isBlank h]
  rfl

theorem ofText_squeeze (text : List Char) : ofText (Text.squeeze text) = ofText text := by
  rw [ofText, Text.filter_squeeze Text.notBlank_of_isBlank, ofText]

theorem Alike.of_eq (h : s = t) : Alike s t := h ▸ ⟨rfl, rfl⟩

theorem Alike.trans (hst : Alike s t) (htu : Alike t u) : Alike s u :=
  ⟨hst.1.trans htu.1, hst.2.trans htu.2⟩

theorem Alike.append_left (h : Alike s t) (u : List Token) : Alike (u ++ s) (u ++ t) := by
  constructor
  · rw [characters_append, characters_append, h.1]
  · rw [markers_append, markers_append, h.2]

theorem Alike.append_right (h : Alike s t) (u : List Token) : Alike (s ++ u) (t ++ u) := by
  constructor
  · rw [characters_append, characters_append, h.1]
  · rw [markers_append, markers_append, h.2]

end Token

def Command.tokens : Command → List Token
  | .text run => Token.ofText run
  | .marker id => Token.ofMarkers [id]
  | .offset _ => []

namespace Block

def tokens (k : Block) : List Token := Token.ofText k.text ++ Token.ofMarkers k.markers

variable {limits : CoalesceLimits} {coalesce : Bool} {b : Buffer}

namespace Buffer

def tokens (b : Buffer) : List Token := Token.ofText b.text ++ Token.ofMarkers b.markers

/-- The buffer with one more marker held back. -/
def hold (id : Marker) (b : Buffer) : Buffer := { b with markers := b.markers ++ [id] }

/-- The blocks that a command brings about, and the buffer after it. -/
def take (limits : CoalesceLimits) (coalesce : Bool) (b : Buffer) :
    Command → List Block × Buffer
  | .text run => ([], { b with text := b.text ++ run })
  | .marker id =>
    if b.isIdle then ([⟨[], [id], b.offset⟩], b)
    else if !coalesce || (b.hold id).isFull limits then (b.hold id).flush
    else ([], b.hold id)
  | .offset pitch => (b.flush.1, { b.flush.2 with offset := pitch })

/-- The blocks that the commands bring about, and the buffer after the last of them. -/
def takeAll (limits : CoalesceLimits) (coalesce : Bool) (b : Buffer) :
    List Command → List Block × Buffer
  | [] => ([], b)
  | c :: rest =>
    let (out, next) := b.take limits coalesce c
    let (more, last) := next.takeAll limits coalesce rest
    (out ++ more, last)

theorem takeAll_cons (limits : CoalesceLimits) (coalesce : Bool) (b : Buffer) (c : Command)
    (rest : List Command) :
    b.takeAll limits coalesce (c :: rest) =
      ((b.take limits coalesce c).1 ++
          ((b.take limits coalesce c).2.takeAll limits coalesce rest).1,
        ((b.take limits coalesce c).2.takeAll limits coalesce rest).2) := rfl

/-- What is in some blocks and then in a buffer. -/
def said (p : List Block × Buffer) : List Token := p.1.flatMap Block.tokens ++ p.2.tokens

theorem tokens_of_idle (h : b.isIdle = true) : b.tokens = [] := by
  obtain ⟨hblank, hnone⟩ := isIdle_iff.1 h
  rw [tokens, Token.ofText_of_allBlank hblank, hnone]
  rfl

theorem markers_tokens (b : Buffer) : Token.markers b.tokens = b.markers := by
  simp [tokens]

theorem markers_hold (b : Buffer) (id : Marker) : (b.hold id).markers ≠ [] := by
  simp [hold]

theorem tokens_hold (b : Buffer) (id : Marker) :
    (b.hold id).tokens = b.tokens ++ Command.tokens (.marker id) := by
  simp [hold, tokens, Command.tokens]

/-- A flush gives the whole of the buffer away. -/
theorem tokens_flush (b : Buffer) :
    b.flush.1.flatMap Block.tokens = b.tokens ∧ b.flush.2.tokens = [] := by
  cases h : b.isIdle with
  | true =>
    rw [flush_of_idle h, tokens_of_idle h]
    exact ⟨rfl, rfl⟩
  | false =>
    rw [flush_of_not_idle h]
    refine ⟨?_, rfl⟩
    rw [List.flatMap_cons, List.flatMap_nil, List.append_nil, Block.tokens, tokens]
    dsimp only
    split
    · rename_i hblank
      rw [Token.ofText_of_allBlank hblank]
      rfl
    · rw [Token.ofText_squeeze]

/-- What a command says comes last, but that text gets ahead of the markers that are held. -/
theorem said_take (limits : CoalesceLimits) (coalesce : Bool) (b : Buffer) (c : Command) :
    Token.Alike (said (b.take limits coalesce c)) (b.tokens ++ c.tokens) ∧
      (b.markers = [] → said (b.take limits coalesce c) = b.tokens ++ c.tokens) := by
  cases c with
  | text run =>
    refine ⟨?_, fun hnone => ?_⟩
    · constructor <;> simp [take, said, tokens, Command.tokens]
    · simp [take, said, tokens, Command.tokens, hnone, Token.ofMarkers]
  | marker id =>
    have hsame : said (b.take limits coalesce (.marker id)) =
        b.tokens ++ Command.tokens (.marker id) := by
      rw [take]
      split
      · rename_i hidle
        rw [tokens_of_idle hidle, said, tokens_of_idle hidle]
        rfl
      · obtain ⟨hout, hleft⟩ := (b.hold id).tokens_flush
        split
        · rw [said, hout, hleft, List.append_nil, tokens_hold]
        · exact b.tokens_hold id
    exact ⟨Token.Alike.of_eq hsame, fun _ => hsame⟩
  | offset pitch =>
    have hsame : said (b.take limits coalesce (.offset pitch)) = b.tokens ++ [] := by
      obtain ⟨hout, hleft⟩ := tokens_flush b
      rw [take, said, hout]
      exact congrArg (b.tokens ++ ·) hleft
    exact ⟨Token.Alike.of_eq hsame, fun _ => hsame⟩

/-- With nothing held back no marker stays in the buffer. -/
theorem markers_take (hb : b.markers = []) (c : Command) :
    (b.take limits false c).2.markers = [] := by
  cases c with
  | text run => exact hb
  | marker id =>
    simp only [take]
    split
    · exact hb
    · exact (b.hold id).markers_flush
  | offset pitch => exact b.markers_flush

theorem said_takeAll_cons (limits : CoalesceLimits) (coalesce : Bool) (b : Buffer) (c : Command)
    (rest : List Command) :
    said (b.takeAll limits coalesce (c :: rest)) =
      (b.take limits coalesce c).1.flatMap Block.tokens ++
        said ((b.take limits coalesce c).2.takeAll limits coalesce rest) := by
  simp [takeAll, said]

theorem said_takeAll (limits : CoalesceLimits) (coalesce : Bool) (b : Buffer)
    (commands : List Command) :
    Token.Alike (said (b.takeAll limits coalesce commands))
      (b.tokens ++ commands.flatMap Command.tokens) := by
  induction commands generalizing b with
  | nil => exact Token.Alike.of_eq (by simp [takeAll, said])
  | cons c rest ih =>
    have hstep := (b.said_take limits coalesce c).1.append_right (rest.flatMap Command.tokens)
    rw [said, List.append_assoc] at hstep
    rw [said_takeAll_cons, List.flatMap_cons, ← List.append_assoc]
    exact ((ih _).append_left _).trans hstep

theorem said_takeAll_of_not_coalesce (limits : CoalesceLimits) (hb : b.markers = [])
    (commands : List Command) :
    said (b.takeAll limits false commands) = b.tokens ++ commands.flatMap Command.tokens := by
  induction commands generalizing b with
  | nil => simp [takeAll, said]
  | cons c rest ih =>
    have hstep := (b.said_take limits false c).2 hb
    rw [said_takeAll_cons, ih (markers_take hb c), ← List.append_assoc, ← said, hstep,
      List.append_assoc, List.flatMap_cons]

/-- These blocks begin with one in which all of the buffer is, its text first. -/
def OpensWith (b : Buffer) (blocks : List Block) : Prop :=
  ∃ k after, blocks = k :: after ∧ b.markers <+: k.markers ∧
    Token.characters b.tokens <+: Token.characters k.tokens

theorem OpensWith.of_text {run : List Char} {blocks : List Block}
    (h : OpensWith { b with text := b.text ++ run } blocks) : b.OpensWith blocks := by
  obtain ⟨k, after, rfl, hmarkers, hcharacters⟩ := h
  refine ⟨k, after, rfl, hmarkers, List.IsPrefix.trans ?_ hcharacters⟩
  simp [tokens]

theorem OpensWith.of_hold {id : Marker} {blocks : List Block}
    (h : (b.hold id).OpensWith blocks) : b.OpensWith blocks := by
  obtain ⟨k, after, rfl, hmarkers, hcharacters⟩ := h
  refine ⟨k, after, rfl, (List.prefix_append ..).trans hmarkers, ?_⟩
  simpa [tokens_hold, Command.tokens] using hcharacters

theorem opensWith_flush (hb : b.markers ≠ []) (rest : List Block) :
    b.OpensWith (b.flush.1 ++ rest) := by
  have hidle : b.isIdle = false := by
    cases h : b.isIdle with
    | true => exact absurd (isIdle_iff.1 h).2 hb
    | false => rfl
  have htokens := b.tokens_flush.1
  rw [flush_of_not_idle hidle] at htokens ⊢
  rw [List.flatMap_cons, List.flatMap_nil, List.append_nil] at htokens
  exact ⟨_, rest, rfl, List.prefix_rfl, htokens ▸ List.prefix_rfl⟩

end Buffer

theorem segmentFrom_marker (limits : CoalesceLimits) (coalesce : Bool) (b : Buffer) (id : Marker)
    (rest : List Command) :
    segmentFrom limits coalesce b (.marker id :: rest) =
      if b.isIdle then ⟨[], [id], b.offset⟩ :: segmentFrom limits coalesce b rest
      else if !coalesce || (b.hold id).isFull limits then
        (b.hold id).flush.1 ++ segmentFrom limits coalesce (b.hold id).flush.2 rest
      else segmentFrom limits coalesce (b.hold id) rest := rfl

theorem segmentFrom_cons (limits : CoalesceLimits) (coalesce : Bool) (b : Buffer) (c : Command)
    (rest : List Command) :
    segmentFrom limits coalesce b (c :: rest) =
      (b.take limits coalesce c).1 ++
        segmentFrom limits coalesce (b.take limits coalesce c).2 rest := by
  cases c with
  | text run => rfl
  | marker id =>
    rw [segmentFrom_marker, Buffer.take]
    split
    · rfl
    · split <;> rfl
  | offset pitch => rfl

theorem segmentFrom_append (limits : CoalesceLimits) (coalesce : Bool) (b : Buffer)
    (front rest : List Command) :
    segmentFrom limits coalesce b (front ++ rest) =
      (b.takeAll limits coalesce front).1 ++
        segmentFrom limits coalesce (b.takeAll limits coalesce front).2 rest := by
  induction front generalizing b with
  | nil => rfl
  | cons c front ih =>
    rw [List.cons_append, segmentFrom_cons, ih, Buffer.takeAll]
    simp

/-- What comes of a buffer in which markers are held begins with the block that they go into. -/
theorem opensWith_segmentFrom (limits : CoalesceLimits) (coalesce : Bool) (hb : b.markers ≠ [])
    (commands : List Command) :
    b.OpensWith (segmentFrom limits coalesce b commands) := by
  induction commands generalizing b with
  | nil =>
    have h := Buffer.opensWith_flush hb []
    rwa [List.append_nil] at h
  | cons c rest ih =>
    cases c with
    | text run => exact Buffer.OpensWith.of_text (ih (b := { b with text := b.text ++ run }) hb)
    | marker id =>
      rw [segmentFrom_marker]
      split
      · rename_i hidle
        exact absurd (Buffer.isIdle_iff.1 hidle).2 hb
      · split
        · exact (Buffer.opensWith_flush (b.markers_hold id) _).of_hold
        · exact (ih (b.markers_hold id)).of_hold
    | offset pitch => exact Buffer.opensWith_flush hb _

/-- A marker goes into the first block that comes of it and of the commands after it. The text
that waits with it goes there too. -/
theorem exists_block_of_marker (limits : CoalesceLimits) (coalesce : Bool) (b : Buffer)
    (id : Marker) (rest : List Command) :
    ∃ k after, segmentFrom limits coalesce b (.marker id :: rest) = k :: after ∧
      b.markers ++ [id] <+: k.markers ∧
      Token.characters b.tokens <+: Token.characters k.tokens := by
  cases hidle : b.isIdle with
  | true =>
    rw [segmentFrom_marker, if_pos hidle, (Buffer.isIdle_iff.1 hidle).2,
      Buffer.tokens_of_idle hidle]
    exact ⟨_, _, rfl, List.prefix_rfl, List.nil_prefix⟩
  | false =>
    have hopen : (b.hold id).OpensWith (segmentFrom limits coalesce b (.marker id :: rest)) := by
      rw [segmentFrom_marker, if_neg (by simp [hidle])]
      split
      · exact Buffer.opensWith_flush (b.markers_hold id) _
      · exact opensWith_segmentFrom limits coalesce (b.markers_hold id) rest
    obtain ⟨k, after, heq, hmarkers, hcharacters⟩ := hopen
    refine ⟨k, after, heq, hmarkers, ?_⟩
    simpa [Buffer.tokens_hold, Command.tokens] using hcharacters

theorem segment_eq_said (limits : CoalesceLimits) (coalesce : Bool) (commands : List Command) :
    (segment limits coalesce commands).flatMap Block.tokens =
      Buffer.said (Buffer.takeAll limits coalesce {} commands) := by
  have h := segmentFrom_append limits coalesce {} commands []
  rw [List.append_nil] at h
  rw [segment, h, List.flatMap_append]
  exact congrArg _ (Buffer.tokens_flush _).1

/-- Markers stay in place. Unless they are held back, blocks and commands are one sequence of
characters and markers. If they are, both have the same characters and the same markers, and a
marker that stands after `front` goes into a block `k` so that no character of `front` comes after
it, and those of the other blocks before it are all in `front`. -/
theorem segment_keeps_places (limits : CoalesceLimits) :
    (∀ commands, (segment limits false commands).flatMap Block.tokens =
        commands.flatMap Command.tokens) ∧
      (∀ commands, Token.Alike ((segment limits true commands).flatMap Block.tokens)
        (commands.flatMap Command.tokens)) ∧
      ∀ front id back, ∃ before k after ids,
        segment limits true (front ++ .marker id :: back) = before ++ k :: after ∧
        ids ++ [id] <+: k.markers ∧
        Token.markers (before.flatMap Block.tokens) ++ ids =
          Token.markers (front.flatMap Command.tokens) ∧
        Token.characters (before.flatMap Block.tokens) <+:
          Token.characters (front.flatMap Command.tokens) ∧
        Token.characters (front.flatMap Command.tokens) <+:
          Token.characters ((before ++ [k]).flatMap Block.tokens) := by
  refine ⟨?_, ?_, ?_⟩
  · intro commands
    exact (segment_eq_said ..).trans (Buffer.said_takeAll_of_not_coalesce limits rfl commands)
  · intro commands
    rw [segment_eq_said]
    exact Buffer.said_takeAll limits true {} commands
  · intro front id back
    obtain ⟨hcharacters, hmarkers⟩ : Token.Alike (Buffer.said (Buffer.takeAll limits true {} front))
        (front.flatMap Command.tokens) := Buffer.said_takeAll limits true {} front
    rw [Buffer.said, Token.characters_append] at hcharacters
    rw [Buffer.said, Token.markers_append, Buffer.markers_tokens] at hmarkers
    obtain ⟨k, after, heq, hid, hopen⟩ :=
      exists_block_of_marker limits true (Buffer.takeAll limits true {} front).2 id back
    refine ⟨_, k, after, _, ?_, hid, hmarkers, ?_, ?_⟩
    · rw [segment, segmentFrom_append, heq]
    · rw [← hcharacters]
      exact List.prefix_append ..
    · rw [← hcharacters, List.flatMap_append, Token.characters_append, List.flatMap_cons,
        List.flatMap_nil, List.append_nil]
      exact (List.prefix_append_right_inj _).2 hopen

/-- The marker after the first word of a sentence is held back to its end. -/
example :
    (segment {} true [.text ['o', 'h'], .marker 1, .text [' ', 'n', 'o', '.'], .marker 2]).flatMap
      Block.tokens = [.character 'o', .character 'h', .character 'n', .character 'o',
        .character '.', .marker 1, .marker 2] := by
  decide

end Block

end Elocution
