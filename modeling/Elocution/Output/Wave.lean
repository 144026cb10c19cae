import Elocution.Error

/-!
# Wave files

Mono 16-bit audio as a RIFF file of form WAVE. The file is left to a writer, which is told what is
to be written, is given the samples one after the other and is then finished. Of the writers only
the plain one is known, which lays a file out as a format chunk of sixteen bytes and the samples as
the data chunk.
-/

namespace Elocution.Output.Wave

/-- The last `width` bytes of a number, the least significant first. -/
def littleEndian : (width n : Nat) → List UInt8
  | 0, _ => []
  | width + 1, n => UInt8.ofNat n :: littleEndian width (n / 256)

def tag (name : String) : List UInt8 := name.toList.map fun c => UInt8.ofNat c.toNat

/-- A chunk: its tag, the size of its contents, the contents. -/
def chunk (name : String) (contents : List UInt8) : List UInt8 :=
  tag name ++ littleEndian 4 contents.length ++ contents

/-- What is to be written. -/
structure Spec where
  channels : Nat
  /-- Samples of each channel per second. -/
  rate : Nat
  /-- Bits for one sample of one channel. -/
  bits : Nat
  /-- Whether samples are floating-point numbers. -/
  floating : Bool

namespace Spec

/-- One channel of 16-bit samples at `rate` hertz. -/
def mono (rate : Nat) : Spec := { channels := 1, rate, bits := 16, floating := false }

/-- Bytes for one sample of all channels. -/
def blockAlign (q : Spec) : Nat := q.channels * (q.bits / 8)

/-- Bytes per second. -/
def byteRate (q : Spec) : Nat := q.blockAlign * q.rate

@[simp] theorem blockAlign_mono (rate : Nat) : (mono rate).blockAlign = 2 := by
  simp [blockAlign, mono]

@[simp] theorem byteRate_mono (rate : Nat) : (mono rate).byteRate = 2 * rate :=
  congrArg (· * rate) (blockAlign_mono rate)

end Spec

/-- The format of samples that are not compressed. -/
def format (q : Spec) : List UInt8 :=
  littleEndian 2 1 ++ littleEndian 2 q.channels ++ littleEndian 4 q.rate ++
    littleEndian 4 q.byteRate ++ littleEndian 2 q.blockAlign ++ littleEndian 2 q.bits

theorem format_mono (rate : Nat) :
    format (.mono rate) = littleEndian 2 1 ++ littleEndian 2 1 ++ littleEndian 4 rate ++
      littleEndian 4 (2 * rate) ++ littleEndian 2 2 ++ littleEndian 2 16 := by
  rw [format, Spec.byteRate_mono, Spec.blockAlign_mono]
  rfl

/-- A sample in two's complement. -/
def sampleBytes (s : Int16) : List UInt8 := littleEndian 2 s.toUInt16.toNat

/-- A file laid out around the bytes of its samples. -/
def layOut (q : Spec) (data : List UInt8) : List UInt8 :=
  chunk "RIFF" (tag "WAVE" ++ chunk "fmt " (format q) ++ chunk "data" data)

/-! ## Writers -/

/-- A writer of wave files. It says in its own words why it refuses. -/
structure Writer (σ : Type) where
  begin : Spec → Except String σ
  write : Int16 → σ → Except String σ
  finish : σ → Except String (List UInt8)

/-- The bytes of a mono file at `rate` hertz, or what the writer has to say against it. -/
def ofSamples {σ : Type} (w : Writer σ) (rate : Nat) (samples : List Int16) :
    Except Error (List UInt8) :=
  Except.mapError (.audio ∘ .system) do
    let draft ← w.begin (.mono rate)
    let draft ← samples.foldlM (fun draft s => w.write s draft) draft
    w.finish draft

/-- A file that is being written. -/
structure Draft where
  spec : Spec
  data : List UInt8 := []

/-- A writer that refuses nothing. -/
def Writer.plain : Writer Draft where
  begin spec := .ok { spec }
  write s draft := .ok { draft with data := draft.data ++ sampleBytes s }
  finish draft := .ok (layOut draft.spec draft.data)

/-- The bytes that the plain writer makes of a mono file. -/
def encode (rate : Nat) (samples : List Int16) : List UInt8 :=
  layOut (.mono rate) (samples.flatMap sampleBytes)

theorem foldlM_plain (samples : List Int16) (draft : Draft) :
    samples.foldlM (fun draft s => Writer.plain.write s draft) draft =
      .ok { draft with data := draft.data ++ samples.flatMap sampleBytes } := by
  induction samples generalizing draft with
  | nil => simp [pure, Except.pure]
  | cons s rest ih =>
    rw [List.foldlM_cons]
    change rest.foldlM _ { draft with data := draft.data ++ sampleBytes s } = _
    rw [ih, List.flatMap_cons, List.append_assoc]

theorem ofSamples_plain (rate : Nat) (samples : List Int16) :
    ofSamples .plain rate samples = .ok (encode rate samples) := by
  change Except.mapError _ (samples.foldlM _ (⟨.mono rate, []⟩ : Draft) >>= _) = _
  rw [foldlM_plain]
  rfl

end Elocution.Output.Wave
