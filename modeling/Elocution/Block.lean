import Elocution.Command
import Elocution.Text.Punctuation

/-!
# Blocks

A block is text with the markers that follow it, all under one pitch offset. Commands are
gathered into blocks through a buffer that is cleared at every change of offset and, unless
markers are held back to keep sentences whole, at every marker.
-/

namespace Elocution

structure Block where
  text : List Char
  markers : List Marker
  offset : Float32
deriving DecidableEq

namespace Block

def hasText (b : Block) : Bool := !b.text.isEmpty

def isEmpty (b : Block) : Bool := b.text.isEmpty && b.markers.isEmpty

end Block

/-- How much a buffer may hold before the next marker clears it. -/
structure CoalesceLimits where
  maxChars : Nat := 600
  maxMarkers : Nat := 30
deriving DecidableEq, Repr, Inhabited

namespace Block

/-- Text and markers that are not in a block yet, and the offset in force. -/
structure Buffer where
  text : List Char := []
  markers : List Marker := []
  offset : Float32 := 0

namespace Buffer

/-- Nothing that a block could be made of; stray blanks do not count. -/
def isIdle (b : Buffer) : Bool := Text.allBlank b.text && b.markers.isEmpty

/-- The block that clears the buffer. Stray blanks stay, so that the words around them remain
apart. -/
def flush (b : Buffer) : List Block × Buffer :=
  if b.isIdle then ([], b)
  else
    ([⟨if Text.allBlank b.text then [] else Text.squeeze b.text, b.markers, b.offset⟩],
      { b with text := [], markers := [] })

/-- Whether a marker clears a buffer that holds markers back. -/
def isFull (limits : CoalesceLimits) (b : Buffer) : Bool :=
  Text.endsSentence b.text || b.text.length > limits.maxChars ||
    b.markers.length > limits.maxMarkers

end Buffer

/-- The blocks of the commands that follow `b`. A marker that nothing speakable precedes does
not wait. -/
def segmentFrom (limits : CoalesceLimits) (coalesce : Bool) (b : Buffer) :
    List Command → List Block
  | [] => b.flush.1
  | .text run :: rest => segmentFrom limits coalesce { b with text := b.text ++ run } rest
  | .marker id :: rest =>
    if b.isIdle then
      ⟨[], [id], b.offset⟩ :: segmentFrom limits coalesce b rest
    else
      let held := { b with markers := b.markers ++ [id] }
      if !coalesce || held.isFull limits then
        held.flush.1 ++ segmentFrom limits coalesce held.flush.2 rest
      else
        segmentFrom limits coalesce held rest
  | .offset pitch :: rest =>
    b.flush.1 ++ segmentFrom limits coalesce { b.flush.2 with offset := pitch } rest

/-- The blocks of a list of commands. -/
def segment (limits : CoalesceLimits) (coalesce : Bool) (commands : List Command) : List Block :=
  segmentFrom limits coalesce {} commands

end Block

end Elocution
