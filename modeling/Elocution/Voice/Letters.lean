import Elocution.Error
import Elocution.Prosody
import Elocution.Frame.Basic
import Elocution.Single.PowerOfTwo
import Elocution.Text.Alphanumeric
import Elocution.Text.Blank
import Elocution.Voice.Table

/-!
# Letter synthesis

Each letter or digit of a clause becomes a short voiced frame, each blank a gap, and all else
is left out. Vowels are long and loud. The pitch follows a contour over the letters of the
clause, and every clause starts with a short silence.
-/

namespace Elocution.Voice

/-- The silence before each clause, in milliseconds. -/
def leadingSilence : Float32 := 40

/-- The silence between words at normal speed, in milliseconds. -/
def wordGap : Float32 := 35

/-- The glide from letter to letter, in milliseconds. -/
def letterFade : Float32 := 8

/-- The loudness of letters other than vowels. -/
def consonantGain : Float32 := 0.35

def isVowel (c : Char) : Bool := ['a', 'e', 'i', 'o', 'u', 'y'].contains c.toLower

/-- How far the pitch lies from its base at a position between zero and one in the clause. -/
def contour (i : Intonation) (position : Float32) : Float32 :=
  match i with
  | .statement => 0.3 - 0.8 * position
  | .exclamation => 0.8 - 1.2 * position
  | .question => if position < 0.7 then -0.1 * position else (position - 0.7) * 3
  | .continuation => 0.1 + 0.3 * position

/-- The place of letter number `i` of `count`, from zero to one; a lone letter is the last. -/
def position (i count : Nat) : Float32 :=
  if count ≤ 1 then 1 else Single.ofCount i / Single.ofCount (count - 1)

/-- The duration of a letter at normal speed. -/
def letterDuration (v : Voice) (c : Char) : Float32 := if isVowel c then v.vowel else v.consonant

def letterGain (c : Char) : Float32 := if isVowel c then 1 else consonantGain

/-- The frame of letter number `i` of `count`. -/
def letterFrame (v : Voice) (p : Prosody) (intonation : Intonation) (count i : Nat) (c : Char) :
    Frame :=
  let swing := v.pitchRange * p.inflection * contour intonation (position i count)
  let base := v.basePitch * Single.powerOfTwo ((p.pitch - 50) / 100)
  .voiced
    { pitch := Single.maxNum (base + swing) 40
      amplitude := Single.clamp 0 1 (p.volume * letterGain c) }
    (v.letterDuration c / p.speed) letterFade

/-- The frames of a text of which `i` letters came before. -/
def letterFrames (v : Voice) (p : Prosody) (intonation : Intonation) (count : Nat) :
    (i : Nat) → List Char → List Frame
  | _, [] => []
  | i, c :: rest =>
    if Text.isBlank c then
      .silence (wordGap / p.speed) letterFade :: letterFrames v p intonation count i rest
    else if Text.isAlphanumeric c then
      v.letterFrame p intonation count i c :: letterFrames v p intonation count (i + 1) rest
    else
      letterFrames v p intonation count i rest

/-- The frames of a clause in a voice of the table. -/
def synthesize (voices : VoiceTable) (r : Request) : Except SynthesisFault (List Frame) :=
  match voices.get? r.voice with
  | none => .error (.unknownVoice r.voice)
  | some v =>
    .ok (.silence leadingSilence 0 ::
      v.letterFrames r.prosody r.intonation (r.text.countP Text.isAlphanumeric) 0 r.text)

end Elocution.Voice
