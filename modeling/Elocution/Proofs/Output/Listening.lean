import Mathlib
import Elocution.Output.Wave

/-!
# Wave files read back

A reader that knows of a wave file only what the format says: it walks the chunks by their sizes,
finds the format and the data among them, and takes the data for 16-bit samples. A file that a
writer has written, if the writer keeps to its contract, is read back as the samples it was written
from, with sizes and rates that agree.
-/

namespace Elocution.Output.Wave

/-! ## Reading -/

/-- The number that bytes stand for, the least significant first. -/
def ofLittleEndian : List UInt8 → Nat
  | [] => 0
  | b :: rest => b.toNat + 256 * ofLittleEndian rest

/-- A number of so many bytes, and what comes after it. -/
def readNumber (width : Nat) (bytes : List UInt8) : Option (Nat × List UInt8) :=
  if bytes.length < width then none
  else some (ofLittleEndian (bytes.take width), bytes.drop width)

structure Chunk where
  tag : List UInt8
  contents : List UInt8

namespace Chunk

/-- The first chunk, and what comes after it. After contents of an odd size a byte is skipped. -/
def read (bytes : List UInt8) : Option (Chunk × List UInt8) := do
  let (size, rest) ← readNumber 4 (bytes.drop 4)
  if rest.length < size then none
  else some (⟨bytes.take 4, rest.take size⟩, rest.drop (size + size % 2))

theorem length_lt_of_read {bytes rest : List UInt8} {c : Chunk} (h : read bytes = some (c, rest)) :
    rest.length < bytes.length := by
  rw [read, Option.bind_eq_bind, Option.bind_eq_some_iff] at h
  obtain ⟨⟨size, more⟩, hnumber, h⟩ := h
  unfold readNumber at hnumber
  split at hnumber
  · cases hnumber
  · rename_i hlong
    obtain ⟨-, rfl⟩ := Prod.mk.inj (Option.some.inj hnumber)
    dsimp only at h
    split at h
    · cases h
    · obtain ⟨-, rfl⟩ := Prod.mk.inj (Option.some.inj h)
      simp only [List.length_drop] at hlong ⊢
      omega

/-- All chunks, one after the other. -/
def readAll (bytes : List UInt8) : Option (List Chunk) :=
  if bytes.isEmpty then some []
  else
    match _h : read bytes with
    | none => none
    | some (c, rest) => (readAll rest).map (c :: ·)
termination_by bytes.length
decreasing_by exact length_lt_of_read _h

end Chunk

/-- How the samples of a file are to be understood. -/
structure Format where
  /-- One for samples that are not compressed. -/
  encoding : Nat
  channels : Nat
  /-- Samples of each channel per second. -/
  rate : Nat
  /-- Bytes per second. -/
  byteRate : Nat
  /-- Bytes for one sample of all channels. -/
  blockAlign : Nat
  /-- Bits for one sample of one channel. -/
  bits : Nat

/-- A format of sixteen bytes. -/
def Format.read (bytes : List UInt8) : Option Format := do
  let (encoding, bytes) ← readNumber 2 bytes
  let (channels, bytes) ← readNumber 2 bytes
  let (rate, bytes) ← readNumber 4 bytes
  let (byteRate, bytes) ← readNumber 4 bytes
  let (blockAlign, bytes) ← readNumber 2 bytes
  let (bits, bytes) ← readNumber 2 bytes
  if bytes.isEmpty then some { encoding, channels, rate, byteRate, blockAlign, bits } else none

/-- The number that sixteen bits stand for in two's complement. -/
def ofTwosComplement (n : Nat) : Int := if n < 2 ^ 15 then n else n - 2 ^ 16

/-- The samples that bytes stand for, two bytes for each. -/
def readSamples : List UInt8 → Option (List Int)
  | [] => some []
  | [_] => none
  | low :: high :: rest =>
    (readSamples rest).map (ofTwosComplement (ofLittleEndian [low, high]) :: ·)

/-- What a file says of itself, and its samples. -/
structure Reading where
  /-- The size of the file as it says, its first eight bytes not counted. -/
  size : Nat
  format : Format
  /-- The size of the data as they say. -/
  dataSize : Nat
  samples : List Int

/-- Reads a file of 16-bit samples that are not compressed. -/
def read (bytes : List UInt8) : Option Reading := do
  let (file, rest) ← Chunk.read bytes
  guard (file.tag = tag "RIFF" ∧ rest = [] ∧ file.contents.take 4 = tag "WAVE")
  let chunks ← Chunk.readAll (file.contents.drop 4)
  let described ← chunks.find? (·.tag = tag "fmt ")
  let format ← Format.read described.contents
  guard (format.encoding = 1 ∧ format.bits = 16)
  let data ← chunks.find? (·.tag = tag "data")
  let samples ← readSamples data.contents
  return { size := file.contents.length, format, dataSize := data.contents.length, samples }

/-! ## Writing and reading -/

theorem length_littleEndian (width n : Nat) : (littleEndian width n).length = width := by
  induction width generalizing n with
  | zero => rfl
  | succ width ih => rw [littleEndian, List.length_cons, ih]

theorem ofLittleEndian_littleEndian {width n : Nat} (h : n < 256 ^ width) :
    ofLittleEndian (littleEndian width n) = n := by
  induction width generalizing n with
  | zero =>
    rw [Nat.pow_zero, Nat.lt_one_iff] at h
    rw [h]
    rfl
  | succ width ih =>
    have hrest : n / 256 < 256 ^ width := by
      rw [Nat.div_lt_iff_lt_mul (by decide)]
      exact h
    rw [littleEndian, ofLittleEndian, ih hrest, UInt8.toNat_ofNat']
    exact Nat.mod_add_div n 256

theorem readNumber_littleEndian {width n : Nat} (h : n < 256 ^ width) (rest : List UInt8) :
    readNumber width (littleEndian width n ++ rest) = some (n, rest) := by
  have hlength := length_littleEndian width n
  rw [readNumber, if_neg (by simp [hlength]), List.take_left' hlength, List.drop_left' hlength,
    ofLittleEndian_littleEndian h]

theorem length_tag (name : String) : (tag name).length = name.length := by
  rw [tag, List.length_map, String.length_toList]

theorem length_chunk {name : String} (hname : name.length = 4) (contents : List UInt8) :
    (chunk name contents).length = 8 + contents.length := by
  rw [chunk, List.length_append, List.length_append, length_tag, length_littleEndian, hname]

theorem length_format (q : Spec) : (format q).length = 16 := by
  simp only [format, List.length_append, length_littleEndian]

namespace Chunk

variable {name : String} {contents rest : List UInt8}

theorem read_chunk (hname : name.length = 4) (hsize : contents.length < 2 ^ 32)
    (heven : contents.length % 2 = 0) :
    read (chunk name contents ++ rest) = some (⟨Wave.tag name, contents⟩, rest) := by
  have htag : (Wave.tag name).length = 4 := (length_tag name).trans hname
  have hbytes : chunk name contents ++ rest =
      Wave.tag name ++ (littleEndian 4 contents.length ++ (contents ++ rest)) := by
    simp only [chunk, List.append_assoc]
  rw [read, hbytes, List.drop_left' htag, List.take_left' htag,
    readNumber_littleEndian hsize, Option.bind_eq_bind, Option.bind_some]
  dsimp only
  rw [if_neg (by simp), List.take_left, heven, Nat.add_zero, List.drop_left]

theorem readAll_nil : readAll [] = some [] := by
  rw [readAll]
  rfl

theorem readAll_chunk (hname : name.length = 4) (hsize : contents.length < 2 ^ 32)
    (heven : contents.length % 2 = 0) :
    readAll (chunk name contents ++ rest) =
      (readAll rest).map (⟨Wave.tag name, contents⟩ :: ·) := by
  have hread : read (chunk name contents ++ rest) = some (⟨Wave.tag name, contents⟩, rest) :=
    read_chunk hname hsize heven
  have hlength := length_chunk hname contents
  have hsome : (chunk name contents ++ rest).isEmpty = false := by
    rw [List.isEmpty_eq_false_iff, ← List.length_pos_iff, List.length_append]
    omega
  rw [readAll, hsome]
  split
  · rename_i hno
    cases hno
  · split
    · rename_i hnone
      cases hnone.symm.trans hread
    · rename_i hsome
      obtain ⟨rfl, rfl⟩ := Prod.mk.inj (Option.some.inj (hsome.symm.trans hread))
      rfl

end Chunk

theorem Format.read_format {rate : Nat} (h : rate < 2 ^ 31) :
    Format.read (format (.mono rate)) = some
      { encoding := 1, channels := 1, rate, byteRate := 2 * rate, blockAlign := 2
        bits := 16 } := by
  have hlast : littleEndian 2 16 = littleEndian 2 16 ++ [] := (List.append_nil _).symm
  have hrate : rate < 256 ^ 4 := by omega
  have hbytes : 2 * rate < 256 ^ 4 := by omega
  rw [Format.read, format_mono, hlast]
  simp only [List.append_assoc, readNumber_littleEndian hrate, readNumber_littleEndian hbytes,
    readNumber_littleEndian (by decide : 1 < 256 ^ 2),
    readNumber_littleEndian (by decide : 2 < 256 ^ 2),
    readNumber_littleEndian (by decide : 16 < 256 ^ 2), Option.bind_eq_bind, Option.bind_some]
  rfl

theorem ofTwosComplement_toNat (s : Int16) : ofTwosComplement s.toUInt16.toNat = s.toInt := by
  rw [← Int16.toInt_toBitVec, BitVec.toInt_eq_toNat_cond, Int16.toNat_toBitVec, ofTwosComplement]
  split <;> split <;> omega

theorem readSamples_sampleBytes (samples : List Int16) :
    readSamples (samples.flatMap sampleBytes) = some (samples.map Int16.toInt) := by
  induction samples with
  | nil => rfl
  | cons s rest ih =>
    have hsample : s.toUInt16.toNat < 256 ^ 2 := s.toUInt16.toNat_lt
    have hnumber := ofLittleEndian_littleEndian hsample
    rw [List.flatMap_cons]
    change (readSamples (rest.flatMap sampleBytes)).map
      (ofTwosComplement (ofLittleEndian (littleEndian 2 s.toUInt16.toNat)) :: ·) = _
    rw [ih, hnumber, ofTwosComplement_toNat]
    rfl

theorem length_samples (samples : List Int16) :
    (samples.flatMap sampleBytes).length = 2 * samples.length := by
  induction samples with
  | nil => rfl
  | cons s rest ih =>
    rw [List.flatMap_cons, List.length_append, ih, sampleBytes, length_littleEndian,
      List.length_cons]
    omega

/-- The plain layout is read back as what it was made from. -/
theorem read_encode {rate : Nat} {samples : List Int16} (hsize : 36 + 2 * samples.length < 2 ^ 32)
    (hrate : rate < 2 ^ 31) :
    (encode rate samples).length = 44 + 2 * samples.length ∧
      read (encode rate samples) = some
        { size := 36 + 2 * samples.length
          format :=
            { encoding := 1, channels := 1, rate, byteRate := 2 * rate, blockAlign := 2
              bits := 16 }
          dataSize := 2 * samples.length
          samples := samples.map Int16.toInt } := by
  let data := samples.flatMap sampleBytes
  have hdata : data.length = 2 * samples.length := length_samples samples
  have hformat := length_format (.mono rate)
  have hfirst : (chunk "fmt " (format (.mono rate))).length = 24 := by
    rw [length_chunk rfl, hformat]
  have hsecond : (chunk "data" data).length = 8 + 2 * samples.length := by
    rw [length_chunk rfl, hdata]
  let contents := tag "WAVE" ++ (chunk "fmt " (format (.mono rate)) ++ (chunk "data" data ++ []))
  have hform : (tag "WAVE").length = 4 := length_tag "WAVE"
  have hcontents : contents.length = 36 + 2 * samples.length := by
    simp only [contents, List.length_append, hfirst, hsecond, hform, List.length_nil]
    omega
  have hencode : encode rate samples = chunk "RIFF" contents := by
    simp only [encode, layOut, contents, data, List.append_assoc, List.append_nil]
  have hfile : Chunk.read (encode rate samples) = some (⟨tag "RIFF", contents⟩, []) := by
    rw [hencode, ← List.append_nil (chunk "RIFF" contents)]
    exact Chunk.read_chunk rfl (by omega) (by omega)
  have hchunks : Chunk.readAll (contents.drop 4) =
      some [⟨tag "fmt ", format (.mono rate)⟩, ⟨tag "data", data⟩] := by
    rw [List.drop_left' hform, Chunk.readAll_chunk rfl (by omega) (by omega),
      Chunk.readAll_chunk rfl (by omega) (by omega), Chunk.readAll_nil]
    rfl
  have hsamples : readSamples data = some (samples.map Int16.toInt) :=
    readSamples_sampleBytes samples
  refine ⟨?_, ?_⟩
  · rw [hencode, length_chunk rfl, hcontents]
    omega
  · have hother : tag "fmt " ≠ tag "data" := by decide
    have hhead : contents.take 4 = tag "WAVE" := List.take_left' hform
    simp only [read, hfile, hhead, hchunks, Format.read_format hrate, hsamples, hcontents, hdata,
      hother, guard, List.find?_cons, decide_true, decide_false, and_self, if_true,
      Option.bind_eq_bind, Option.bind_some, Option.pure_def]

/-! ## Writers that keep to the layout -/

/-- What a plain layout is there for: one or two channels of 16-bit whole numbers. -/
structure Spec.IsPlain (q : Spec) : Prop where
  channels : q.channels = 1 ∨ q.channels = 2
  bits : q.bits = 16
  whole : q.floating = false

theorem Spec.isPlain_mono (rate : Nat) : (Spec.mono rate).IsPlain := ⟨.inl rfl, rfl, rfl⟩

/-- What writers keep to where a plain layout will do: as long as rates and sizes fit into their
fields a writer refuses nothing, keeps the bytes of the samples in the order in which they come, and
lays them out when it is finished between two samples of all channels. `spec` and `data` tell what a
file that is being written is to be, and what it has of it. -/
structure Writer.Contract {σ : Type} (w : Writer σ) (spec : σ → Spec) (data : σ → List UInt8) :
    Prop where
  begin_ok : ∀ q : Spec, q.IsPlain → q.byteRate < 2 ^ 32 →
    ∃ x, w.begin q = .ok x ∧ spec x = q ∧ data x = []
  write_ok : ∀ s x, (spec x).IsPlain → 36 + ((data x).length + 2) < 2 ^ 32 →
    ∃ y, w.write s x = .ok y ∧ spec y = spec x ∧ data y = data x ++ sampleBytes s
  finish_ok : ∀ x, (spec x).IsPlain → (data x).length % (spec x).blockAlign = 0 →
    36 + (data x).length < 2 ^ 32 → w.finish x = .ok (layOut (spec x) (data x))

theorem Writer.contract_plain : Writer.plain.Contract Draft.spec Draft.data where
  begin_ok q _ _ := ⟨⟨q, []⟩, rfl, rfl, rfl⟩
  write_ok s x _ _ := ⟨{ x with data := x.data ++ sampleBytes s }, rfl, rfl, rfl⟩
  finish_ok _ _ _ _ := rfl

namespace Writer.Contract

variable {σ : Type} {w : Writer σ} {spec : σ → Spec} {data : σ → List UInt8} {rate : Nat}

/-- The bytes of one sample after the other are put behind what is there. -/
theorem write_all (hw : w.Contract spec data) {samples : List Int16} {x : σ}
    (hx : spec x = .mono rate) (hsize : 36 + ((data x).length + 2 * samples.length) < 2 ^ 32) :
    ∃ y, samples.foldlM (fun y s => w.write s y) x = .ok y ∧ spec y = .mono rate ∧
      data y = data x ++ samples.flatMap sampleBytes := by
  induction samples generalizing x with
  | nil => exact ⟨x, rfl, hx, (List.append_nil _).symm⟩
  | cons s rest ih =>
    rw [List.length_cons] at hsize
    obtain ⟨y, hwrite, hspec, hdata⟩ := hw.write_ok s x (hx ▸ Spec.isPlain_mono rate) (by omega)
    have hlength : (data y).length = (data x).length + 2 := by
      rw [hdata, List.length_append, sampleBytes, length_littleEndian]
    obtain ⟨z, hrest, hlast, hall⟩ := ih (hspec.trans hx) (by omega)
    refine ⟨z, ?_, hlast, ?_⟩
    · rw [List.foldlM_cons, hwrite]
      exact hrest
    · rw [hall, hdata, List.flatMap_cons, List.append_assoc]

/-- A writer that keeps to its contract writes what the plain writer writes. -/
theorem ofSamples_eq (hw : w.Contract spec data) {samples : List Int16}
    (hsize : 36 + 2 * samples.length < 2 ^ 32) (hrate : rate < 2 ^ 31) :
    ofSamples w rate samples = .ok (encode rate samples) := by
  have hbytes := Spec.byteRate_mono rate
  obtain ⟨x, hbegin, hspec, hnone⟩ := hw.begin_ok (.mono rate) (Spec.isPlain_mono rate) (by omega)
  have hroom : (data x).length = 0 := by rw [hnone, List.length_nil]
  have hfits : 36 + ((data x).length + 2 * samples.length) < 2 ^ 32 := by omega
  obtain ⟨y, hwrite, hlast, hall⟩ := hw.write_all hspec hfits
  rw [hnone, List.nil_append] at hall
  have hfinish : w.finish y = .ok (layOut (spec y) (data y)) := by
    refine hw.finish_ok y (hlast ▸ Spec.isPlain_mono rate) ?_ ?_
    · rw [hall, hlast, Spec.blockAlign_mono, length_samples, Nat.mul_mod_right]
    · rw [hall, length_samples]
      exact hsize
  have hrun : (w.begin (.mono rate) >>= fun x =>
      samples.foldlM (fun y s => w.write s y) x >>= w.finish) = .ok (encode rate samples) := by
    rw [hbegin]
    change samples.foldlM (fun y s => w.write s y) x >>= w.finish = _
    rw [hwrite]
    change w.finish y = _
    rw [hfinish, hlast, hall]
    rfl
  exact congrArg (Except.mapError _) hrun

end Writer.Contract

/-- Mono samples are written without a fault, and the file is read back as what it was written
from: as mono samples of 16 bits at that rate, each as it was. Its size, the size of its data, its
rate of bytes and its alignment are as they have to be. -/
theorem read_ofSamples {σ : Type} {w : Writer σ} {spec : σ → Spec} {data : σ → List UInt8}
    (hw : w.Contract spec data) {rate : Nat} {samples : List Int16}
    (hsize : 36 + 2 * samples.length < 2 ^ 32) (hrate : rate < 2 ^ 31) :
    ∃ bytes, ofSamples w rate samples = .ok bytes ∧ bytes.length = 44 + 2 * samples.length ∧
      read bytes = some
        { size := 36 + 2 * samples.length
          format :=
            { encoding := 1, channels := 1, rate, byteRate := 2 * rate, blockAlign := 2
              bits := 16 }
          dataSize := 2 * samples.length
          samples := samples.map Int16.toInt } := by
  obtain ⟨hlength, hread⟩ := read_encode hsize hrate
  exact ⟨_, hw.ofSamples_eq hsize hrate, hlength, hread⟩

theorem read_ofSamples_extremes :
    Writer.plain.Contract Draft.spec Draft.data ∧
    ∃ bytes, ofSamples .plain 24000 [0, -1, 32767, -32768] = .ok bytes ∧ bytes.length = 52 ∧
      read bytes = some
        { size := 44
          format :=
            { encoding := 1, channels := 1, rate := 24000, byteRate := 48000, blockAlign := 2
              bits := 16 }
          dataSize := 8
          samples := [0, -1, 32767, -32768] } :=
  ⟨Writer.contract_plain, read_ofSamples Writer.contract_plain (by decide) (by decide)⟩

end Elocution.Output.Wave
