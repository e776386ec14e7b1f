import UserFace800.Lib.Bits
import UserFace800.Protocol.Codec
import Mathlib.Tactic.IntervalCases
/-!
# WAV files

`wav.hpp` writes a file with two chunks and no padding; `read_wav` of `uf-testsig.cpp` walks
any chunks, padded. `wav_round_trip` says the reader finds what was written, also among
other chunks. The step over a chunk is computed in 32 bits: `walk_ends_iff` says of which
files the walk ends.
-/
open UserFace800.Lib.Bits UserFace800.Protocol

namespace UserFace800.Signal.Wav

/-- A byte of a file. -/
abbrev Byte := BitVec 8

/-! ## The writer -/

/-- "RIFF", "WAVE", "fmt " and "data". -/
def tagRiff : List Byte := [0x52, 0x49, 0x46, 0x46]

/-- "WAVE". -/
def tagWave : List Byte := [0x57, 0x41, 0x56, 0x45]

/-- "fmt ". -/
def tagFmt : List Byte := [0x66, 0x6d, 0x74, 0x20]

/-- "data". -/
def tagData : List Byte := [0x64, 0x61, 0x74, 0x61]

/-- Two bytes more, little-endian. -/
def pushU16 (b : List Byte) (v : BitVec 16) : List Byte := b ++ [(v &&& 0xff).setWidth 8, (v >>> 8 &&& 0xff).setWidth 8]

/-- Four bytes more, little-endian. -/
def pushU32 (b : List Byte) (v : BitVec 32) : List Byte :=
  b ++ (List.range 4).map fun i => (v >>> (8 * i) &&& 0xff).setWidth 8

/-- A tag more. -/
def pushTag (b t : List Byte) : List Byte := b ++ t

/-- `wav_header`, with its 16-bit and 32-bit products. -/
def wavHeader (sampleRate : BitVec 32) (nChannels bitsPerSample : BitVec 16) (dataBytes : BitVec 32) : List Byte :=
  let bytesPerSample := bitsPerSample / 8
  let blockAlign := nChannels * bytesPerSample
  let byteRate := sampleRate * blockAlign.setWidth 32
  let h := pushTag [] tagRiff
  let h := pushU32 h (36 + dataBytes)
  let h := pushTag h tagWave
  let h := pushTag h tagFmt
  let h := pushU32 h 16
  let h := pushU16 h 1
  let h := pushU16 h nChannels
  let h := pushU32 h sampleRate
  let h := pushU32 h byteRate
  let h := pushU16 h blockAlign
  let h := pushU16 h bitsPerSample
  let h := pushTag h tagData
  pushU32 h dataBytes

/-- A sample more, its low bytes. -/
def pushPcmSample (b : List Byte) (sample : BitVec 32) (bytesPerSample : BitVec 16) : List Byte :=
  b ++ (List.range bytesPerSample.toNat).map fun i => (sample >>> (8 * i) &&& 0xff).setWidth 8

/-- The header, and the samples. -/
def writeWav (samples : List (BitVec 32)) (sampleRate : BitVec 32) (nChannels : BitVec 16)
    (bitsPerSample : BitVec 16 := 24) : List Byte :=
  let bytesPerSample := bitsPerSample / 8
  let dataBytes := BitVec.ofNat 32 samples.length * bytesPerSample.setWidth 32
  samples.foldl (fun out s => pushPcmSample out s bytesPerSample)
  (wavHeader sampleRate nChannels bitsPerSample dataBytes)

/-! ## The reader -/

/-- A little-endian field of two bytes. -/
def le16At (b : List Byte) (i : ℕ) : BitVec 16 := (b.getD i 0).setWidth 16 ||| (b.getD (i + 1) 0).setWidth 16 <<< 8

/-- A little-endian field of four bytes. -/
def le32At (b : List Byte) (i : ℕ) : BitVec 32 := le32ToHost (fun j => b.getD j 0) i

/-- The variables of the walk. `p` counts bytes of a file, so that 64 bits hold it. -/
structure Walk where
  p : ℕ := 12
  dataOff : ℕ := 0
  dataLen : ℕ := 0
  channels : BitVec 32 := 0
  rate : BitVec 32 := 0
  bits : BitVec 32 := 0
  deriving DecidableEq

/-- The tag of the chunk at `p`. -/
def chunkId (b : List Byte) (p : ℕ) : List Byte := (b.drop p).take 4

/-- Its size, as the file says. -/
def chunkSize (b : List Byte) (p : ℕ) : BitVec 32 := le32At b (p + 4)

/-- `8 + sz + (sz & 1)`. -/
def chunkStep (sz : BitVec 32) : BitVec 32 := 8 + sz + (sz &&& 1)

/-- What an iteration finds in the chunk at `p`. -/
def Walk.look (s : Walk) (b : List Byte) : Walk :=
  if chunkId b s.p = tagFmt ∧ s.p + 8 + 16 ≤ b.length then
    { s with
      channels := (le16At b (s.p + 10)).setWidth 32
      rate := le32At b (s.p + 12)
      bits := (le16At b (s.p + 22)).setWidth 32 }
  else if chunkId b s.p = tagData then { s with dataOff := s.p + 8, dataLen := (chunkSize b s.p).toNat }
  else s

/-- A chunk is looked at and stepped over. -/
def Walk.chunk (s : Walk) (b : List Byte) : Walk := { s.look b with p := s.p + (chunkStep (chunkSize b s.p)).toNat }

/-- The loop; `none` if it has not ended after `fuel` iterations. -/
def walkChunks (b : List Byte) : ℕ → Walk → Option Walk
  | 0, _ => none
  | fuel + 1, s => if s.p + 8 ≤ b.length then walkChunks b fuel (s.chunk b) else some s

/-- What a file holds. -/
structure Recording where
  samples : List (BitVec 32)
  channels : BitVec 32
  rate : BitVec 32
  bits : BitVec 32
  deriving DecidableEq

/-- The sample whose bytes begin at `i`. -/
def sampleAt (b : List Byte) (i : ℕ) : BitVec 32 :=
  let v := (b.getD i 0).setWidth 32 ||| (b.getD (i + 1) 0).setWidth 32 <<< 8 ||| (b.getD (i + 2) 0).setWidth 32 <<< 16
  if v &&& 0x800000 ≠ 0 then v ||| 0xFF000000 else v

/-- After the walk; `none` where it returns false. -/
def Walk.finish (s : Walk) (b : List Byte) : Option Recording :=
  if s.channels = 0 ∨ s.dataLen = 0 then none
  else if s.bits ≠ 24 then none
  else
    let dataLen := if s.dataOff + s.dataLen > b.length then b.length - s.dataOff else s.dataLen
    some
      { samples := (List.range (dataLen / 3)).map fun i => sampleAt b (s.dataOff + i * 3)
        channels := s.channels
        rate := s.rate
        bits := s.bits }

/-- `read_wav` of a file's bytes, for as many iterations as `fuel`. -/
def readWav (b : List Byte) (fuel : ℕ) : Option (Option Recording) :=
  if b.length < 44 ∨ b.take 4 ≠ tagRiff ∨ (b.drop 8).take 4 ≠ tagWave then some none
  else (walkChunks b fuel {}).map fun s => s.finish b

/-! ## What is written -/

/-- Two bytes, little-endian. -/
def le16Bytes (v : BitVec 16) : List Byte := [v.setWidth 8, (v >>> 8).setWidth 8]

/-- A sample as it lies in a file. -/
def pcmBytes (s : BitVec 32) : List Byte := [s.setWidth 8, (s >>> 8).setWidth 8, (s >>> 16).setWidth 8]

theorem pushU16_eq (b : List Byte) (v : BitVec 16) : pushU16 b v = b ++ le16Bytes v := by
  rw [pushU16, low_byte (by decide), low_byte (by decide)]
  rfl

theorem pushU32_eq (b : List Byte) (v : BitVec 32) : pushU32 b v = b ++ leBytes v := by
  have hfour : List.range 4 = [0, 1, 2, 3] := rfl
  simp only [pushU32, hfour, List.map_cons, List.map_nil, low_byte (show 8 ≤ 32 by decide)]
  rfl

theorem pushPcmSample_eq (b : List Byte) (s : BitVec 32) : pushPcmSample b s 3 = b ++ pcmBytes s := by
  have hthree : List.range (3 : BitVec 16).toNat = [0, 1, 2] := rfl
  simp only [pushPcmSample, hthree, List.map_cons, List.map_nil, low_byte (show 8 ≤ 32 by decide)]
  rfl

/-- The twelve bytes before the chunks. -/
def riffHead (dataBytes : BitVec 32) : List Byte := tagRiff ++ leBytes (36 + dataBytes) ++ tagWave

/-- The format chunk. -/
def fmtChunk (sampleRate : BitVec 32) (nChannels : BitVec 16) : List Byte :=
  tagFmt ++ (leBytes 16 ++ (le16Bytes 1 ++ (le16Bytes nChannels ++ (leBytes sampleRate ++
    (leBytes (sampleRate * (nChannels * 3).setWidth 32) ++ (le16Bytes (nChannels * 3) ++ le16Bytes 24))))))

/-- The data chunk, without a pad byte. -/
def dataChunk (samples : List (BitVec 32)) : List Byte :=
  tagData ++ (leBytes (BitVec.ofNat 32 (samples.length * 3)) ++ samples.flatMap pcmBytes)

theorem foldl_pushPcmSample (samples : List (BitVec 32)) (b : List Byte) :
    samples.foldl (fun out s => pushPcmSample out s 3) b = b ++ samples.flatMap pcmBytes := by
  induction samples generalizing b with
  | nil => simp
  | cons s samples ih => rw [List.foldl_cons, ih, pushPcmSample_eq, List.flatMap_cons, List.append_assoc]

theorem writeWav_eq (samples : List (BitVec 32)) (sampleRate : BitVec 32) (nChannels : BitVec 16) :
    writeWav samples sampleRate nChannels =
      riffHead (BitVec.ofNat 32 (samples.length * 3)) ++ (fmtChunk sampleRate nChannels ++ dataChunk samples) := by
  have hbytes : BitVec.ofNat 32 samples.length * (3 : BitVec 16).setWidth 32 =
      BitVec.ofNat 32 (samples.length * 3) := by
    apply BitVec.eq_of_toNat_eq
    simp
  have hthree : (24 : BitVec 16) / 8 = 3 := by decide
  rw [writeWav, hthree, hbytes, foldl_pushPcmSample, wavHeader]
  simp only [hthree, pushU16_eq, pushU32_eq, pushTag, List.nil_append, List.append_assoc, riffHead, fmtChunk, dataChunk]

/-! ## What is read -/

theorem getD_past (a b : List Byte) (i : ℕ) : (a ++ b).getD (a.length + i) 0 = b.getD i 0 := by
  rw [List.getD_eq_getElem?_getD, List.getElem?_append_right (by omega), Nat.add_sub_cancel_left,
    List.getD_eq_getElem?_getD]

theorem le32At_append (a b : List Byte) (i : ℕ) : le32At (a ++ b) (a.length + i) = le32At b i := by
  simp only [le32At, le32ToHost, Nat.add_assoc, getD_past]

theorem le16At_append (a b : List Byte) (i : ℕ) : le16At (a ++ b) (a.length + i) = le16At b i := by
  simp only [le16At, Nat.add_assoc, getD_past]

theorem le32At_leBytes (v : BitVec 32) (b : List Byte) : le32At (leBytes v ++ b) 0 = v := le32_leBytes v b

theorem le16At_le16Bytes (v : BitVec 16) (b : List Byte) : le16At (le16Bytes v ++ b) 0 = v := by
  change (v.setWidth 8).setWidth 16 ||| ((v >>> 8).setWidth 8).setWidth 16 <<< 8 = v
  apply BitVec.eq_of_getLsbD_eq
  intro i hi
  interval_cases i <;> simp

theorem chunkId_append (a b : List Byte) : chunkId (a ++ b) a.length = b.take 4 := by
  rw [chunkId, List.drop_left]

theorem chunkSize_append (a : List Byte) {id : List Byte} (hid : id.length = 4) (v : BitVec 32) (b : List Byte) :
    chunkSize (a ++ (id ++ (leBytes v ++ b))) a.length = v := by
  have h := le32At_append id (leBytes v ++ b) 0
  rw [hid, le32At_leBytes] at h
  rw [chunkSize, le32At_append]
  exact h

/-- A chunk that is neither of the two, of a size that a step of 32 bits can take. -/
structure Chunk where
  id : List Byte
  body : List Byte
  padByte : Byte
  id_length : id.length = 4
  id_ne_fmt : id ≠ tagFmt
  id_ne_data : id ≠ tagData
  body_lt : body.length < 2 ^ 31

/-- What makes a length even. -/
def pad (n : ℕ) (b : Byte) : List Byte := if n % 2 = 1 then [b] else []

/-- The chunk as it lies in the file. -/
def Chunk.bytes (c : Chunk) : List Byte :=
  c.id ++ (leBytes (BitVec.ofNat 32 c.body.length) ++ (c.body ++ pad c.body.length c.padByte))

theorem length_pad (n : ℕ) (b : Byte) : (pad n b).length = n % 2 := by
  unfold pad
  split
  · rename_i h
    rw [h]
    rfl
  · rw [List.length_nil]
    omega

/-- The step, where it fits 32 bits. -/
theorem toNat_chunkStep (sz : BitVec 32) :
    (chunkStep sz).toNat = ((8 + sz.toNat) % 2 ^ 32 + sz.toNat % 2) % 2 ^ 32 := by
  rw [chunkStep, BitVec.toNat_add, BitVec.toNat_add, toNat_mask 1 rfl]
  rfl

theorem chunkStep_fits {n : ℕ} (h : n + 9 < 2 ^ 32) : (chunkStep (BitVec.ofNat 32 n)).toNat = 8 + n + n % 2 := by
  have hn : (BitVec.ofNat 32 n).toNat = n := Nat.mod_eq_of_lt (by omega)
  rw [toNat_chunkStep, hn]
  omega

theorem length_bytes (c : Chunk) : c.bytes.length = 8 + c.body.length + c.body.length % 2 := by
  simp only [Chunk.bytes, List.length_append, c.id_length, length_pad]
  change 4 + (4 + (c.body.length + c.body.length % 2)) = _
  omega

theorem chunk_other (c : Chunk) (a rest : List Byte) {s : Walk} (hp : s.p = a.length) :
    s.chunk (a ++ (c.bytes ++ rest)) = { s with p := a.length + c.bytes.length } := by
  have hid : chunkId (a ++ (c.bytes ++ rest)) s.p = c.id := by
    rw [hp, chunkId_append, Chunk.bytes, List.append_assoc, List.take_left' c.id_length]
  have hsize : chunkSize (a ++ (c.bytes ++ rest)) s.p = BitVec.ofNat 32 c.body.length := by
    rw [hp, Chunk.bytes, List.append_assoc, List.append_assoc, chunkSize_append _ c.id_length]
  have hlt := c.body_lt
  have hlook : s.look (a ++ (c.bytes ++ rest)) = s := by
    rw [Walk.look, hid, if_neg fun h => c.id_ne_fmt h.1, if_neg c.id_ne_data]
  rw [Walk.chunk, hlook, hsize, chunkStep_fits (by omega), length_bytes, hp]

/-- Other chunks are passed by. -/
theorem walkChunks_others (cs : List Chunk) (a rest : List Byte) {s : Walk} (hp : s.p = a.length) (fuel : ℕ) :
    walkChunks (a ++ (cs.flatMap Chunk.bytes ++ rest)) (cs.length + fuel) s =
      walkChunks (a ++ (cs.flatMap Chunk.bytes ++ rest)) fuel
        { s with p := a.length + (cs.flatMap Chunk.bytes).length } := by
  induction cs generalizing a s with
  | nil =>
    rw [List.flatMap_nil, List.length_nil, List.length_nil, Nat.zero_add, Nat.add_zero, ← hp]
  | cons c cs ih =>
    have hfuel : (c :: cs).length + fuel = (cs.length + fuel) + 1 := by
      rw [List.length_cons]
      omega
    have hroom : s.p + 8 ≤ (a ++ (c.bytes ++ (cs.flatMap Chunk.bytes ++ rest))).length := by
      rw [List.length_append, List.length_append, length_bytes, hp]
      omega
    have hnext := ih (a ++ c.bytes) (s := { s with p := a.length + c.bytes.length }) List.length_append.symm
    rw [List.append_assoc] at hnext
    rw [hfuel, List.flatMap_cons, List.append_assoc, walkChunks, if_pos hroom, chunk_other c _ _ hp, hnext]
    simp only [List.length_append, Nat.add_assoc]

theorem length_fmtChunk (rate : BitVec 32) (ch : BitVec 16) : (fmtChunk rate ch).length = 24 := rfl

theorem chunk_fmt (rate : BitVec 32) (ch : BitVec 16) (a rest : List Byte) {s : Walk} (hp : s.p = a.length) :
    s.chunk (a ++ (fmtChunk rate ch ++ rest)) = { s with
      p := a.length + 24
      channels := ch.setWidth 32
      rate := rate
      bits := 24 } := by
  have hid : chunkId (a ++ (fmtChunk rate ch ++ rest)) s.p = tagFmt := by
    rw [hp, chunkId_append]
    rfl
  have hsize : chunkSize (a ++ (fmtChunk rate ch ++ rest)) s.p = 16 := by
    rw [hp, fmtChunk, List.append_assoc, List.append_assoc, chunkSize_append _ rfl]
  have hroom : s.p + 8 + 16 ≤ (a ++ (fmtChunk rate ch ++ rest)).length := by
    rw [List.length_append, List.length_append, length_fmtChunk, hp]
    omega
  have hchannels : le16At (a ++ (fmtChunk rate ch ++ rest)) (s.p + 10) = ch := by
    rw [hp, le16At_append]
    exact le16At_le16Bytes ch []
  have hrate : le32At (a ++ (fmtChunk rate ch ++ rest)) (s.p + 12) = rate := by
    rw [hp, le32At_append]
    exact le32_leBytes rate []
  have hbits : le16At (a ++ (fmtChunk rate ch ++ rest)) (s.p + 22) = 24 := by
    rw [hp, le16At_append]
    exact le16At_le16Bytes 24 []
  rw [Walk.chunk, Walk.look, if_pos ⟨hid, hroom⟩, hsize, hchannels, hrate, hbits, hp]
  rfl

theorem walkChunks_fmt (rate : BitVec 32) (ch : BitVec 16) (a rest : List Byte) {s : Walk} (hp : s.p = a.length)
    (fuel : ℕ) :
    walkChunks (a ++ (fmtChunk rate ch ++ rest)) (fuel + 1) s =
    walkChunks (a ++ (fmtChunk rate ch ++ rest)) fuel { s with
      p := a.length + 24
      channels := ch.setWidth 32
      rate := rate
      bits := 24 } := by
  have hroom : s.p + 8 ≤ (a ++ (fmtChunk rate ch ++ rest)).length := by
    rw [List.length_append, List.length_append, length_fmtChunk, hp]
    omega
  rw [walkChunks, if_pos hroom, chunk_fmt rate ch a rest hp]

theorem chunk_data {n : ℕ} (hn : n + 9 < 2 ^ 32) (a rest : List Byte) {s : Walk} (hp : s.p = a.length) :
    s.chunk (a ++ (tagData ++ (leBytes (BitVec.ofNat 32 n) ++ rest))) = { s with
      p := a.length + (8 + n + n % 2)
      dataOff := a.length + 8
      dataLen := n } := by
  have hid : chunkId (a ++ (tagData ++ (leBytes (BitVec.ofNat 32 n) ++ rest))) s.p = tagData := by
    rw [hp, chunkId_append]
    rfl
  have hsize : chunkSize (a ++ (tagData ++ (leBytes (BitVec.ofNat 32 n) ++ rest))) s.p = BitVec.ofNat 32 n := by
    rw [hp, chunkSize_append _ rfl]
  have hne : tagData ≠ tagFmt := by decide
  rw [Walk.chunk, Walk.look, hid, if_neg (fun h => hne h.1), if_pos rfl, hsize, chunkStep_fits hn, hp,
    BitVec.toNat_ofNat, show n % 2 ^ 32 = n from Nat.mod_eq_of_lt (by omega)]

theorem walkChunks_end {b : List Byte} {s : Walk} (h : b.length < s.p + 8) (fuel : ℕ) :
    walkChunks b (fuel + 1) s = some s :=
  if_neg (by omega)

/-! ## The samples -/

theorem sampleAt_append (a b : List Byte) (i : ℕ) : sampleAt (a ++ b) (a.length + i) = sampleAt b i := by
  simp only [sampleAt, Nat.add_assoc, getD_past]

theorem sampleAt_past (s : BitVec 32) (b : List Byte) (i : ℕ) : sampleAt (pcmBytes s ++ b) (i + 3) = sampleAt b i := rfl

/-- The sign is that of a quadlet with the sample at its top. -/
theorem sampleAt_pcmBytes {s : BitVec 32} (h : Is24 s) (b : List Byte) : sampleAt (pcmBytes s ++ b) 0 = s := by
  have hlow : (s.setWidth 8).setWidth 32 ||| ((s >>> 8).setWidth 8).setWidth 32 <<< 8 |||
      (((s >>> 16).setWidth 8).setWidth 32 <<< 16) = s <<< 8 >>> 8 &&& 0x00FFFFFF := by
    apply BitVec.eq_of_getLsbD_eq
    intro i hi
    interval_cases i <;> simp
  have hsign : (s <<< 8 >>> 8 &&& 0x00FFFFFF &&& 0x800000 ≠ 0) ↔ (s <<< 8 &&& 0x80000000 ≠ 0) := by
    rw [show (0x800000 : BitVec 32) = BitVec.twoPow 32 23 from rfl,
      show (0x80000000 : BitVec 32) = BitVec.twoPow 32 31 from rfl,
      ← bne_iff_ne, ← bne_iff_ne, test_bit _ (by decide), test_bit _ (by decide)]
    simp
  refine Eq.trans ?_ (decodeSample_of_is24 h)
  change (let v := (s.setWidth 8).setWidth 32 ||| ((s >>> 8).setWidth 8).setWidth 32 <<< 8 |||
    (((s >>> 16).setWidth 8).setWidth 32 <<< 16); if v &&& 0x800000 ≠ 0 then v ||| 0xFF000000 else v) = _
  rw [hlow]
  dsimp only [decodeSample]
  by_cases hs : s <<< 8 &&& 0x80000000 ≠ 0
  · rw [if_pos hs, if_pos (hsign.2 hs)]
  · rw [if_neg hs, if_neg fun h => hs (hsign.1 h)]

theorem sampleAt_pcm {x : List (BitVec 32)} (h24 : ∀ s ∈ x, Is24 s) (b : List Byte) {i : ℕ} (hi : i < x.length) :
    sampleAt (x.flatMap pcmBytes ++ b) (i * 3) = x[i] := by
  induction x generalizing i with
  | nil => cases hi
  | cons s x ih =>
    rw [List.flatMap_cons, List.append_assoc]
    cases i with
    | zero => exact sampleAt_pcmBytes (h24 s List.mem_cons_self) _
    | succ i =>
      rw [Nat.succ_mul, sampleAt_past, List.getElem_cons_succ]
      exact ih (fun t ht => h24 t (List.mem_cons_of_mem _ ht)) (Nat.lt_of_succ_lt_succ hi)

theorem length_pcm (x : List (BitVec 32)) : (x.flatMap pcmBytes).length = x.length * 3 := by
  induction x with
  | nil => rfl
  | cons s x ih =>
    rw [List.flatMap_cons, List.length_append, ih, List.length_cons, Nat.succ_mul, Nat.add_comm]
    rfl

/-- The walk has found the format and the data. -/
theorem finish_eq {x : List (BitVec 32)} (h24 : ∀ s ∈ x, Is24 s) (hne : x ≠ []) (a rest : List Byte) {s : Walk}
    (hoff : s.dataOff = a.length) (hlen : s.dataLen = x.length * 3) (hchannels : s.channels ≠ 0) (hbits : s.bits = 24) :
    s.finish (a ++ (x.flatMap pcmBytes ++ rest)) = some ⟨x, s.channels, s.rate, 24⟩ := by
  have hpos : 0 < x.length := List.length_pos_of_ne_nil hne
  have hfits : ¬ s.dataOff + s.dataLen > (a ++ (x.flatMap pcmBytes ++ rest)).length := by
    rw [List.length_append, List.length_append, length_pcm, hoff, hlen]
    omega
  have hsamples : (List.range (x.length * 3 / 3)).map
      (fun i => sampleAt (a ++ (x.flatMap pcmBytes ++ rest)) (s.dataOff + i * 3)) = x := by
    apply List.ext_getElem
    · simp
    · intro i _ hi
      rw [List.getElem_map, List.getElem_range, hoff, sampleAt_append, sampleAt_pcm h24 _ hi]
  have hdata : ¬ (s.channels = 0 ∨ s.dataLen = 0) := by
    rintro (h | h)
    · exact hchannels h
    · omega
  rw [Walk.finish, if_neg hdata, if_neg (not_not_intro hbits), if_neg hfits, hlen]
  dsimp only
  rw [hsamples, hbits]

/-! ## A file among other chunks -/

/-- The file `w` of `x` with chunks before its format, before its data and, past a padded data chunk, at its end. -/
def among (w : List Byte) (x : List (BitVec 32)) (before between after : List Chunk) (padByte : Byte) : List Byte :=
  w.take 12 ++ (before.flatMap Chunk.bytes ++ ((w.drop 12).take 24 ++ (between.flatMap Chunk.bytes ++ (w.drop 36 ++
    if after = [] then [] else pad (x.length * 3) padByte ++ after.flatMap Chunk.bytes))))

theorem length_dataChunk (x : List (BitVec 32)) : (dataChunk x).length = 8 + x.length * 3 := by
  rw [dataChunk, List.length_append, List.length_append, length_pcm, ← Nat.add_assoc]
  rfl

theorem dataChunk_append (x : List (BitVec 32)) (r : List Byte) :
    dataChunk x ++ r = tagData ++ (leBytes (BitVec.ofNat 32 (x.length * 3)) ++ (x.flatMap pcmBytes ++ r)) := by
  rw [dataChunk, List.append_assoc, List.append_assoc]

theorem length_riffHead (n : BitVec 32) : (riffHead n).length = 12 := rfl

theorem among_eq (x : List (BitVec 32)) (rate : BitVec 32) (ch : BitVec 16) (before between after : List Chunk)
    (padByte : Byte) :
    among (writeWav x rate ch) x before between after padByte = riffHead (BitVec.ofNat 32 (x.length * 3)) ++
      (before.flatMap Chunk.bytes ++ (fmtChunk rate ch ++ (between.flatMap Chunk.bytes ++ (dataChunk x ++
        if after = [] then [] else pad (x.length * 3) padByte ++ after.flatMap Chunk.bytes)))) := by
  have hhead (r : List Byte) (n : BitVec 32) : (riffHead n ++ r).take 12 = riffHead n :=
    List.take_left' (length_riffHead n)
  have htail (r : List Byte) (n : BitVec 32) : (riffHead n ++ r).drop 12 = r := List.drop_left' (length_riffHead n)
  have hdata (n : BitVec 32) : (riffHead n ++ (fmtChunk rate ch ++ dataChunk x)).drop 36 = dataChunk x := by
    rw [show 36 = 12 + 24 from rfl, ← List.drop_drop, htail, List.drop_left' (length_fmtChunk rate ch)]
  rw [among, writeWav_eq, hhead, htail, hdata, List.take_left' (length_fmtChunk rate ch)]

theorem among_nil (x : List (BitVec 32)) (rate : BitVec 32) (ch : BitVec 16) (padByte : Byte) :
    among (writeWav x rate ch) x [] [] [] padByte = writeWav x rate ch := by
  rw [among_eq, writeWav_eq]
  simp

theorem readWav_riff {n : BitVec 32} {r : List Byte} (h : 32 ≤ r.length) (fuel : ℕ) :
    readWav (riffHead n ++ r) fuel = (walkChunks (riffHead n ++ r) fuel {}).map fun s =>
    s.finish (riffHead n ++ r) := by
  have hlen : ¬ (riffHead n ++ r).length < 44 := by
    rw [List.length_append, length_riffHead]
    omega
  apply if_neg
  rintro (h | h | h)
  · exact hlen h
  · exact h rfl
  · exact h rfl

section
variable {x : List (BitVec 32)} {rate : BitVec 32} {ch : BitVec 16}

/-- From the data chunk at `a` on, the walk ends, and the reader returns the samples. -/
theorem walkChunks_data (hfit : 44 + 3 * x.length < 2 ^ 32) (a : List Byte) (after : List Chunk) (padByte : Byte)
    {s : Walk} (hp : s.p = a.length) (k : ℕ) : ∃ p, walkChunks
      (a ++ (dataChunk x ++ if after = [] then [] else pad (x.length * 3) padByte ++ after.flatMap Chunk.bytes))
      (after.length + k + 2) s = some { s with p := p, dataOff := a.length + 8, dataLen := x.length * 3 } := by
  have hpad := length_pad (x.length * 3) padByte
  generalize htail : (if after = [] then [] else pad (x.length * 3) padByte ++ after.flatMap Chunk.bytes) = tail
  have hroom : s.p + 8 ≤ (a ++ (dataChunk x ++ tail)).length := by
    rw [List.length_append, List.length_append, length_dataChunk, hp]
    omega
  have hchunk := chunk_data (show x.length * 3 + 9 < 2 ^ 32 by omega) a (x.flatMap pcmBytes ++ tail) hp
  rw [← dataChunk_append] at hchunk
  rw [walkChunks, if_pos hroom, hchunk]
  by_cases hafter : after = []
  · rw [if_pos hafter] at htail
    have hlen : (a ++ (dataChunk x ++ tail)).length = a.length + (8 + x.length * 3) := by
      rw [← htail, List.append_nil, List.length_append, length_dataChunk]
    exact ⟨_, walkChunks_end (by rw [hlen]; dsimp only; omega) _⟩
  · rw [if_neg hafter] at htail
    have hfile : a ++ (dataChunk x ++ tail) =
        a ++ (dataChunk x ++ pad (x.length * 3) padByte) ++ (after.flatMap Chunk.bytes ++ []) := by
      rw [← htail, List.append_nil, List.append_assoc, List.append_assoc]
    have hlen : (a ++ (dataChunk x ++ pad (x.length * 3) padByte)).length =
        a.length + (8 + x.length * 3 + x.length * 3 % 2) := by
      rw [List.length_append, List.length_append, length_dataChunk, hpad]
    rw [hfile, Nat.add_assoc, walkChunks_others after _ [] hlen.symm (k + 1)]
    refine ⟨_, walkChunks_end ?_ k⟩
    rw [List.append_nil, List.length_append]
    dsimp only
    omega

/-- The walk over a file: it ends with the format and where the data is. -/
theorem walkChunks_among (hfit : 44 + 3 * x.length < 2 ^ 32) (before between after : List Chunk) (padByte : Byte)
    (k : ℕ) : ∃ p, walkChunks (among (writeWav x rate ch) x before between after padByte)
      (before.length + (between.length + (after.length + k + 2) + 1)) {} = some
        { p := p, dataOff := 12 + (before.flatMap Chunk.bytes).length + 24 + (between.flatMap Chunk.bytes).length + 8,
          dataLen := x.length * 3, channels := ch.setWidth 32, rate := rate, bits := 24 } := by
  rw [among_eq]
  generalize hhead : riffHead (BitVec.ofNat 32 (x.length * 3)) = head
  have hlen : head.length = 12 := by
    rw [← hhead, length_riffHead]
  have hformat : (head ++ before.flatMap Chunk.bytes).length = 12 + (before.flatMap Chunk.bytes).length := by
    rw [List.length_append, hlen]
  have hbetween : (head ++ before.flatMap Chunk.bytes ++ fmtChunk rate ch).length =
      12 + (before.flatMap Chunk.bytes).length + 24 := by
    rw [List.length_append, hformat, length_fmtChunk]
  have hdata : (head ++ before.flatMap Chunk.bytes ++ fmtChunk rate ch ++ between.flatMap Chunk.bytes).length =
      12 + (before.flatMap Chunk.bytes).length + 24 + (between.flatMap Chunk.bytes).length := by
    rw [List.length_append, hbetween]
  have hwalk :=
    @walkChunks_data x hfit (head ++ before.flatMap Chunk.bytes ++ fmtChunk rate ch ++ between.flatMap Chunk.bytes)
    after padByte
      { p := 12 + (before.flatMap Chunk.bytes).length + 24 + (between.flatMap Chunk.bytes).length,
        channels := ch.setWidth 32, rate := rate, bits := 24 } hdata.symm k
  obtain ⟨p, hwalk⟩ := hwalk
  refine ⟨p, ?_⟩
  rw [hdata] at hwalk
  rw [walkChunks_others before _ _ hlen.symm, hlen, ← List.append_assoc head, walkChunks_fmt _ _ _ _ hformat.symm,
    hformat, ← List.append_assoc (head ++ before.flatMap Chunk.bytes), walkChunks_others between _ _ hbetween.symm,
    hbetween, ← List.append_assoc (head ++ before.flatMap Chunk.bytes ++ fmtChunk rate ch)]
  exact hwalk

/-- What was written is read back, on its own and among other chunks. -/
theorem readWav_among (h24 : ∀ s ∈ x, Is24 s) (hne : x ≠ []) (hfit : 44 + 3 * x.length < 2 ^ 32) (hch : ch ≠ 0)
    (before between after : List Chunk) (padByte : Byte) {fuel : ℕ}
    (hfuel : before.length + between.length + after.length + 3 ≤ fuel) :
    readWav (among (writeWav x rate ch) x before between after padByte) fuel =
    some (some ⟨x, ch.setWidth 32, rate, 24⟩) := by
  obtain ⟨k, rfl⟩ := Nat.exists_eq_add_of_le hfuel
  obtain ⟨p, hwalk⟩ := @walkChunks_among x rate ch hfit before between after padByte k
  have hchannels : ch.setWidth 32 ≠ 0 := by
    intro h
    apply hch
    apply BitVec.eq_of_toNat_eq
    have := congrArg BitVec.toNat h
    rwa [BitVec.toNat_setWidth_of_le (by decide)] at this
  have hfuel' : before.length + between.length + after.length + 3 + k =
      before.length + (between.length + (after.length + k + 2) + 1) := by
    omega
  rw [hfuel']
  rw [among_eq] at hwalk ⊢
  have hlong (r : List Byte) : 32 ≤ (before.flatMap Chunk.bytes ++ (fmtChunk rate ch ++ (between.flatMap Chunk.bytes ++
      (dataChunk x ++ r)))).length := by
    simp only [List.length_append, length_fmtChunk, length_dataChunk]
    omega
  rw [readWav_riff (hlong _), hwalk, Option.map_some]
  generalize (if after = [] then [] else pad (x.length * 3) padByte ++ after.flatMap Chunk.bytes) = tail
  have hfile : riffHead (BitVec.ofNat 32 (x.length * 3)) ++ (before.flatMap Chunk.bytes ++ (fmtChunk rate ch ++
      (between.flatMap Chunk.bytes ++ (dataChunk x ++ tail)))) = riffHead (BitVec.ofNat 32 (x.length * 3)) ++
        before.flatMap Chunk.bytes ++ fmtChunk rate ch ++ between.flatMap Chunk.bytes ++ tagData ++
        leBytes (BitVec.ofNat 32 (x.length * 3)) ++ (x.flatMap pcmBytes ++ tail) := by
    rw [dataChunk_append]
    simp only [List.append_assoc]
  rw [hfile, finish_eq h24 hne _ tail _ rfl hchannels rfl]
  simp only [List.length_append, length_riffHead, length_fmtChunk]
  rfl

/-- The reader of the writer's file, and of the file among other chunks. -/
theorem wav_round_trip (h24 : ∀ s ∈ x, Is24 s) (hne : x ≠ []) (hfit : 44 + 3 * x.length < 2 ^ 32) (hch : ch ≠ 0)
    (before between after : List Chunk) (padByte : Byte) :
    (∀ fuel, 3 ≤ fuel → readWav (writeWav x rate ch) fuel = some (some ⟨x, ch.setWidth 32, rate, 24⟩)) ∧
      ∀ fuel, before.length + between.length + after.length + 3 ≤ fuel →
        readWav (among (writeWav x rate ch) x before between after padByte) fuel =
        some (some ⟨x, ch.setWidth 32, rate, 24⟩) := by
  refine ⟨fun fuel hfuel => ?_, fun _ => readWav_among h24 hne hfit hch before between after padByte⟩
  have h := @readWav_among x rate ch h24 hne hfit hch [] [] [] padByte fuel hfuel
  rwa [among_nil] at h

/-- A chunk of three bytes, called "LIST". -/
def listChunk : Chunk := ⟨[0x4c, 0x49, 0x53, 0x54], [1, 2, 3], 0, rfl, by decide, by decide, by decide⟩

/-- A file of one sample, alone and between two such chunks. -/
theorem wav_round_trip_one : readWav (writeWav [0xFFFFFFFF] 48000 1) 3 = some (some ⟨[0xFFFFFFFF], 1, 48000, 24⟩) ∧
    readWav (among (writeWav [0xFFFFFFFF] 48000 1) [0xFFFFFFFF] [listChunk] [] [listChunk] 0) 5 =
      some (some ⟨[0xFFFFFFFF], 1, 48000, 24⟩) := by
  have h :=
    @wav_round_trip [0xFFFFFFFF] 48000 1 (by simp [Is24]) (by decide) (by decide) (by decide)
      [listChunk] [] [listChunk] 0
  exact ⟨h.1 3 (by decide), h.2 5 (by decide)⟩

end

/-! ## Where the walk does not end -/

/-- The offsets the sizes lead to. -/
inductive Reached (b : List Byte) : ℕ → Prop
  | first : Reached b 12
  | next {p : ℕ} (h : Reached b p) (hp : p + 8 ≤ b.length) : Reached b (p + (chunkStep (chunkSize b p)).toNat)

/-- Neither of the two sizes for which 32 bits hold the step as 0. -/
def Steps (sz : BitVec 32) : Prop := sz ≠ 0xFFFFFFF7 ∧ sz ≠ 0xFFFFFFF8

theorem step_pos_iff (sz : BitVec 32) : 0 < (chunkStep sz).toNat ↔ Steps sz := by
  have hlt := sz.isLt
  rw [toNat_chunkStep, Steps, ne_eq, ne_eq, ← BitVec.toNat_inj, ← BitVec.toNat_inj,
    show (0xFFFFFFF7 : BitVec 32).toNat = 2 ^ 32 - 9 from rfl,
      show (0xFFFFFFF8 : BitVec 32).toNat = 2 ^ 32 - 8 from rfl]
  omega

section
variable {b : List Byte} {s : Walk}

theorem chunk_p (s : Walk) (b : List Byte) : (s.chunk b).p = s.p + (chunkStep (chunkSize b s.p)).toNat := rfl

theorem walkChunks_more {fuel : ℕ} {t : Walk} (h : walkChunks b fuel s = some t) (k : ℕ) :
    walkChunks b (fuel + k) s = some t := by
  induction fuel generalizing s with
  | zero => cases h
  | succ fuel ih =>
    rw [Nat.succ_add, walkChunks]
    rw [walkChunks] at h
    split
    · rename_i hp
      rw [if_pos hp] at h
      exact ih h
    · rename_i hp
      rwa [if_neg hp] at h

/-- A step of 0 is taken forever. -/
theorem walkChunks_stuck (hp : s.p + 8 ≤ b.length) (h : ¬ Steps (chunkSize b s.p)) (fuel : ℕ) :
    walkChunks b fuel s = none := by
  induction fuel generalizing s with
  | zero => rfl
  | succ fuel ih =>
    have hstay : (s.chunk b).p = s.p := by
      rw [← step_pos_iff] at h
      rw [chunk_p]
      omega
    rw [walkChunks, if_pos hp]
    apply ih
    · rwa [hstay]
    · rwa [hstay]

/-- The walk comes to every offset that is reached. -/
theorem Reached.walk {p : ℕ} (h : Reached b p) :
    ∃ n s, s.p = p ∧ ∀ fuel, walkChunks b (n + fuel) {} = walkChunks b fuel s := by
  induction h with
  | first => exact ⟨0, {}, rfl, fun fuel => by rw [Nat.zero_add]⟩
  | next h hp ih =>
    obtain ⟨n, s, rfl, hwalk⟩ := ih
    refine ⟨n + 1, s.chunk b, chunk_p s b, fun fuel => ?_⟩
    rw [Nat.add_assoc, Nat.add_comm 1 fuel, hwalk, walkChunks, if_pos hp]

theorem walkChunks_ends (hsteps : ∀ p, Reached b p → p + 8 ≤ b.length → Steps (chunkSize b p)) (n : ℕ)
    (hs : Reached b s.p) (hn : b.length ≤ s.p + n) : walkChunks b (n + 1) s ≠ none := by
  induction n generalizing s with
  | zero =>
    rw [walkChunks, if_neg (by omega)]
    exact Option.some_ne_none _
  | succ n ih =>
    rw [walkChunks]
    split
    · rename_i hp
      have hpos := (step_pos_iff _).2 (hsteps _ hs hp)
      apply ih
      · exact chunk_p s b ▸ hs.next hp
      · rw [chunk_p]
        omega
    · exact Option.some_ne_none _

end

/-- An iteration moves on unless the size is one of the two, and the reader ends unless the
walk over a WAVE file comes to such a size. -/
theorem walk_ends_iff (b : List Byte) :
    (∀ s : Walk, s.p < (s.chunk b).p ↔ Steps (chunkSize b s.p)) ∧
      ((∃ fuel, readWav b fuel ≠ none) ↔ (44 ≤ b.length ∧ b.take 4 = tagRiff ∧ (b.drop 8).take 4 = tagWave →
        ∀ p, Reached b p → p + 8 ≤ b.length → Steps (chunkSize b p))) := by
  constructor
  · intro s
    rw [chunk_p, ← step_pos_iff]
    omega
  constructor
  · rintro ⟨fuel, hfuel⟩ ⟨hlen, hriff, hwave⟩ p hreached hp
    by_contra hno
    apply hfuel
    obtain ⟨n, s, rfl, hwalk⟩ := hreached.walk
    have hnone : walkChunks b fuel {} = none := by
      by_contra hsome
      obtain ⟨t, ht⟩ := Option.ne_none_iff_exists'.1 hsome
      have hmore := walkChunks_more ht n
      rw [Nat.add_comm, hwalk, walkChunks_stuck hp hno] at hmore
      cases hmore
    have hheader : ¬ (b.length < 44 ∨ b.take 4 ≠ tagRiff ∨ (b.drop 8).take 4 ≠ tagWave) := by
      rintro (h | h | h)
      · omega
      · exact h hriff
      · exact h hwave
    rw [readWav, if_neg hheader, hnone, Option.map_none]
  · intro hsteps
    by_cases hheader : b.length < 44 ∨ b.take 4 ≠ tagRiff ∨ (b.drop 8).take 4 ≠ tagWave
    · refine ⟨0, ?_⟩
      rw [readWav, if_pos hheader]
      exact Option.some_ne_none _
    · obtain ⟨hlen, hriff, hwave⟩ : 44 ≤ b.length ∧ b.take 4 = tagRiff ∧ (b.drop 8).take 4 = tagWave := by
        rw [not_or, not_or, not_not, not_not, Nat.not_lt] at hheader
        exact hheader
      refine ⟨b.length + 1, ?_⟩
      rw [readWav, if_neg hheader, ne_eq, Option.map_eq_none_iff]
      exact walkChunks_ends (hsteps ⟨hlen, hriff, hwave⟩) b.length .first (by omega)

/-- A WAVE file whose first chunk has one of the two sizes. -/
def stuckFile : List Byte := riffHead 0 ++ ([0x4c, 0x49, 0x53, 0x54] ++ (leBytes 0xFFFFFFF8 ++ List.replicate 24 0))

theorem stuckFile_walk : (({} : Walk).chunk stuckFile).p = 12 ∧ ∀ fuel, readWav stuckFile fuel = none := by
  refine ⟨by decide, fun fuel => ?_⟩
  rw [stuckFile, readWav_riff (by decide), walkChunks_stuck (by decide) (fun h => h.2 (by decide)), Option.map_none]

end UserFace800.Signal.Wav
