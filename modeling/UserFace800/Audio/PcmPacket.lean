import UserFace800.Lib.Bits
import UserFace800.Lib.Buffer
import UserFace800.Audio.TxFill
import UserFace800.Audio.CapturePath
import Mathlib.Tactic.IntervalCases
/-!
# Packets of samples

`codec.hpp`: `encode_packet` and `decode_packet` over whole packets, each loop with its
addresses and every access inside its buffer. What is encoded is decoded, what is decoded is
encoded again but for the low bytes, and a sample is as it was after the ring.
-/
open UserFace800.Lib.Buffer UserFace800.Lib.Bits UserFace800.Protocol

namespace UserFace800.Audio.PcmPacket

/-- A byte of a payload. -/
abbrev Byte := BitVec 8

/-- A 24-bit sample, sign-extended. -/
abbrev Sample := BitVec 32

/-! ## Decoding -/

/-- `p` points at the byte `i` of the payload. -/
def decodeSampleLe (payload : List Byte) (i : ℕ) : Option Sample :=
  if i + 3 < payload.length then some (Protocol.decodeSampleLe (fun j => payload.getD j 0) i) else none

/-- `none` is the division by a product that is 0. -/
def framesInPayload (payloadBytes pcmChannels : BitVec 32) : Option (BitVec 32) :=
  if pcmChannels ≠ 0 then if pcmChannels * 4 ≠ 0 then some (payloadBytes / (pcmChannels * 4)) else none else some 0

/-- `decode_frame`, into `out` from `i` on. -/
def decodeFrame (payload : List Byte) (frame : ℕ) (pcmChannels : BitVec 32) (out : List Sample) (i : ℕ) :
    Option (List Sample) :=
  (List.range pcmChannels.toNat).foldlM (fun out c => do
    let s ← decodeSampleLe payload (frame + (BitVec.ofNat 32 c * 4).toNat)
    put out (i + c) s) out

/-- `decode_packet`: the frames decoded, and the buffer with them. -/
def decodePacket (payload : List Byte) (payloadBytes pcmChannels : BitVec 32) (out : List Sample) :
    Option (BitVec 32 × List Sample) := do
  let n ← framesInPayload payloadBytes pcmChannels
  let out ← (List.range n.toNat).foldlM (fun out f =>
    decodeFrame payload (BitVec.ofNat 32 f * pcmChannels * 4).toNat pcmChannels out
    (BitVec.ofNat 32 f * pcmChannels).toNat) out
  pure (n, out)

/-! ## Encoding -/

/-- Four bytes of a buffer are written, the lowest first. -/
def hostToLe32 (v : BitVec 32) (p : List Byte) (i : ℕ) : Option (List Byte) := do
  let p ← put p i ((v &&& 0xff).setWidth 8)
  let p ← put p (i + 1) ((v >>> 8 &&& 0xff).setWidth 8)
  let p ← put p (i + 2) ((v >>> 16 &&& 0xff).setWidth 8)
  put p (i + 3) ((v >>> 24 &&& 0xff).setWidth 8)

/-- A sample is written as the device wants it. -/
def encodeSampleLe (sample24 : Sample) (p : List Byte) (i : ℕ) : Option (List Byte) :=
  hostToLe32 (encodeSample sample24) p i

/-- `in` points at the sample `i`. -/
def encodeFrame (samples : List Sample) (i : ℕ) (pcmChannels : BitVec 32) (payload : List Byte) (frame : ℕ) :
    Option (List Byte) :=
  (List.range pcmChannels.toNat).foldlM (fun payload c => do
    let s ← samples[i + c]?
    encodeSampleLe s payload (frame + (BitVec.ofNat 32 c * 4).toNat)) payload

/-- `encode_packet`: the bytes written, as the 32-bit product says, and the buffer. -/
def encodePacket (samples : List Sample) (nFrames pcmChannels : BitVec 32) (payload : List Byte) :
    Option (BitVec 32 × List Byte) := do
  let payload ← (List.range nFrames.toNat).foldlM (fun payload f =>
    encodeFrame samples (BitVec.ofNat 32 f * pcmChannels).toNat pcmChannels payload
    (BitVec.ofNat 32 f * pcmChannels * 4).toNat) payload
  pure (nFrames * pcmChannels * 4, payload)

/-! ## What is encoded -/

/-- The samples of a packet as they lie in its payload. -/
def layout (samples : List Sample) : List Byte := samples.flatMap fun s => leBytes (encodeSample s)

theorem writes_hostToLe32 (v : BitVec 32) (i : ℕ) : Writes (fun p => hostToLe32 v p i) i (leBytes v) := by
  unfold hostToLe32 leBytes
  simp only [low_byte (show 8 ≤ 32 by decide)]
  exact (writes_put i _).seq <| (writes_put (i + 1) _).seq <| (writes_put (i + 2) _).seq <| writes_put (i + 3) _

theorem toNat_ofNat_mul {a b : ℕ} {x : BitVec 32} (hx : x.toNat = b) (h : a * b < 2 ^ 32) :
    (BitVec.ofNat 32 a * x).toNat = a * b := by
  subst hx
  rcases Nat.eq_zero_or_pos x.toNat with hx | hx
  · rw [BitVec.toNat_mul, hx, Nat.mul_zero, Nat.mul_zero, Nat.zero_mod]
  · have ha : a < 2 ^ 32 := lt_of_le_of_lt (Nat.le_mul_of_pos_right a hx) h
    rw [BitVec.toNat_mul, BitVec.toNat_ofNat, Nat.mod_eq_of_lt ha, Nat.mod_eq_of_lt h]

theorem toNat_mul_four {x : BitVec 32} (h : x.toNat * 4 < 2 ^ 32) : (x * 4).toNat = x.toNat * 4 := Nat.mod_eq_of_lt h

/-- The frames one after the other are the samples one after the other. -/
theorem flatMap_frames {α : Type} (g : ℕ → List α) (n m : ℕ) :
    ((List.range n).flatMap fun f => (List.range m).flatMap fun c => g (f * m + c)) =
    (List.range (n * m)).flatMap g := by
  induction n with
  | zero => simp
  | succ n ih =>
    rw [List.range_succ, List.flatMap_append, ih, List.flatMap_singleton, Nat.succ_mul, List.range_add,
      List.flatMap_append, List.flatMap_map]

theorem flatMap_getD {α : Type} (g : Sample → List α) (xs : List Sample) :
    ((List.range xs.length).flatMap fun k => g (xs.getD k 0)) = xs.flatMap g := by
  have hxs : (List.range xs.length).map (fun k => xs.getD k 0) = xs := by
    apply List.ext_getElem
    · rw [List.length_map, List.length_range]
    · intro k hk hk'
      simp [hk']
  rw [← List.flatMap_map, hxs]

theorem length_layout (samples : List Sample) : (layout samples).length = samples.length * 4 := by
  rw [layout, ← flatMap_getD]
  exact length_blocks fun _ _ => rfl

section
variable {samples : List Sample} {n ch : BitVec 32}

theorem writes_encodeFrame (hch : ch.toNat * 4 < 2 ^ 32) {i : ℕ} (hi : i + ch.toNat ≤ samples.length) (frame : ℕ) :
    Writes (fun p => encodeFrame samples i ch p frame) frame
      ((List.range ch.toNat).flatMap fun c => leBytes (encodeSample (samples.getD (i + c) 0))) := by
  apply Writes.loop 4
  · intro c hc
    have hread : samples[i + c]? = some (samples.getD (i + c) 0) := by
      simp [show i + c < samples.length by omega]
    rw [toNat_ofNat_mul (show (4 : BitVec 32).toNat = 4 from rfl) (by omega)]
    exact Writes.bind hread (writes_hostToLe32 _ _)
  · exact fun _ _ => rfl

/-- All of the samples, and the count of their bytes. -/
theorem encodePacket_eq (hlen : samples.length = n.toNat * ch.toNat) (hfit : samples.length * 4 < 2 ^ 32)
    {payload : List Byte} (hroom : samples.length * 4 ≤ payload.length) :
    encodePacket samples n ch payload = some (n * ch * 4, layout samples ++ payload.drop (samples.length * 4)) := by
  have hloop : Writes (fun p => (List.range n.toNat).foldlM (fun p f =>
      encodeFrame samples (BitVec.ofNat 32 f * ch).toNat ch p (BitVec.ofNat 32 f * ch * 4).toNat) p)
      0 (layout samples) := by
    rw [layout, ← flatMap_getD, hlen, ← flatMap_frames]
    apply Writes.loop (ch.toNat * 4)
    · intro f hf
      have hf' : (f + 1) * ch.toNat ≤ n.toNat * ch.toNat := Nat.mul_le_mul_right _ hf
      rw [Nat.succ_mul] at hf'
      have hat : (BitVec.ofNat 32 f * ch).toNat = f * ch.toNat := toNat_ofNat_mul rfl (by omega)
      have hbyte : (BitVec.ofNat 32 f * ch * 4).toNat = f * (ch.toNat * 4) := by
        rw [toNat_mul_four (by omega), hat, Nat.mul_assoc]
      rw [hat, hbyte, Nat.zero_add]
      exact writes_encodeFrame (by omega) (by omega) _
    · exact fun f _ => length_blocks fun _ _ => rfl
  have hrun := hloop [] payload rfl (by rwa [length_layout])
  rw [encodePacket]
  rw [List.nil_append, List.nil_append, length_layout] at hrun
  dsimp only at hrun
  rw [hrun]
  rfl

end

/-! ## What is decoded -/

theorem decodeSample_encodeSample {s : Sample} (h : Is24 s) : decodeSample (encodeSample s) = s :=
  decodeSample_of_is24 h

/-- What is decoded at the byte `i`, inside the payload or past its end. -/
def sampleAt (payload : List Byte) (i : ℕ) : Sample := Protocol.decodeSampleLe (fun j => payload.getD j 0) i

theorem sampleAt_layout (samples : List Sample) (rest : List Byte) {k : ℕ} (hk : k < samples.length) :
    sampleAt (layout samples ++ rest) (k * 4) = decodeSample (encodeSample (samples.getD k 0)) := by
  have hquads : layout samples = (samples.map encodeSample).flatMap leBytes := by rw [layout, List.flatMap_map]
  have hlen : k < (samples.map encodeSample).length := by rwa [List.length_map]
  rw [sampleAt, Protocol.decodeSampleLe, hquads, le32_flatMap _ rest hlen, List.getElem_map, List.getD_eq_getElem?_getD,
    List.getElem?_eq_getElem hk, Option.getD_some]

section
variable {payload : List Byte} {payloadBytes ch : BitVec 32} {out : List Sample}

theorem size_zero_iff (ch : BitVec 32) : ch * 4 = 0 ↔ ch.toNat * 4 % 2 ^ 32 = 0 := by
  rw [← BitVec.toNat_inj]
  exact Iff.rfl

/-- The division, by what 32 bits hold of the size of a frame. -/
theorem framesInPayload_eq (hsize : ch.toNat * 4 % 2 ^ 32 ≠ 0) :
    framesInPayload payloadBytes ch = some (BitVec.ofNat 32 (payloadBytes.toNat / (ch.toNat * 4 % 2 ^ 32))) := by
  have hch : ch ≠ 0 := by
    rintro rfl
    exact hsize rfl
  rw [framesInPayload, if_pos hch, if_pos fun h => hsize ((size_zero_iff ch).1 h)]
  congr 1
  apply BitVec.eq_of_toNat_eq
  rw [BitVec.toNat_udiv, BitVec.toNat_ofNat, Nat.mod_eq_of_lt (lt_of_le_of_lt (Nat.div_le_self _ _) payloadBytes.isLt)]
  rfl

theorem writes_decodeFrame (hch : ch.toNat * 4 < 2 ^ 32) {frame : ℕ} (hframe : frame + ch.toNat * 4 ≤ payload.length)
    (i : ℕ) : Writes (fun out => decodeFrame payload frame ch out i) i
      ((List.range ch.toNat).flatMap fun c => [sampleAt payload (frame + c * 4)]) := by
  apply Writes.loop 1
  · intro c hc
    have hread : decodeSampleLe payload (frame + c * 4) = some (sampleAt payload (frame + c * 4)) := if_pos (by omega)
    rw [toNat_ofNat_mul (show (4 : BitVec 32).toNat = 4 from rfl) (by omega), Nat.mul_one]
    exact Writes.bind hread (writes_put _ _)
  · exact fun _ _ => rfl

/-- The whole frames of a payload. -/
theorem decodePacket_eq (hpos : 0 < ch.toNat) (hch : ch.toNat * 4 < 2 ^ 32) (hlen : payloadBytes.toNat ≤ payload.length)
    {n : ℕ} (hn : n = payloadBytes.toNat / (ch.toNat * 4)) (hroom : n * ch.toNat ≤ out.length) :
    decodePacket payload payloadBytes ch out =
      some (BitVec.ofNat 32 n,
        (List.range (n * ch.toNat)).map (fun k => sampleAt payload (k * 4)) ++ out.drop (n * ch.toNat)) := by
  have hbytes : n * (ch.toNat * 4) ≤ payloadBytes.toNat := by
    rw [hn]
    exact Nat.div_mul_le_self _ _
  have hn32 : n < 2 ^ 32 := by
    rw [hn]
    exact lt_of_le_of_lt (Nat.div_le_self _ _) payloadBytes.isLt
  have hframes : framesInPayload payloadBytes ch = some (BitVec.ofNat 32 n) := by
    rw [framesInPayload_eq (by omega), Nat.mod_eq_of_lt hch, hn]
  have hloop : Writes (fun out =>
      (List.range n).foldlM (fun out f => decodeFrame payload (BitVec.ofNat 32 f * ch * 4).toNat ch out
      (BitVec.ofNat 32 f * ch).toNat) out) 0 ((List.range (n * ch.toNat)).map fun k => sampleAt payload (k * 4)) := by
    rw [← List.flatMap_pure_eq_map, ← flatMap_frames]
    apply Writes.loop ch.toNat
    · intro f hf
      have hf' : (f + 1) * (ch.toNat * 4) ≤ n * (ch.toNat * 4) := Nat.mul_le_mul_right _ hf
      rw [Nat.succ_mul, ← Nat.mul_assoc] at hf'
      have hpayload := payloadBytes.isLt
      have hat : (BitVec.ofNat 32 f * ch).toNat = f * ch.toNat := toNat_ofNat_mul rfl (by omega)
      have hbyte : (BitVec.ofNat 32 f * ch * 4).toNat = f * ch.toNat * 4 := by
        rw [toNat_mul_four (by omega), hat]
      rw [hat, hbyte, Nat.zero_add]
      have := writes_decodeFrame hch (show f * ch.toNat * 4 + ch.toNat * 4 ≤ payload.length by omega) (f * ch.toNat)
      simp only [← Nat.add_mul] at this
      exact this
    · intro f _
      exact (length_blocks (w := 1) fun _ _ => rfl).trans (Nat.mul_one _)
  have hcount : ((List.range (n * ch.toNat)).map fun k => sampleAt payload (k * 4)).length = n * ch.toNat := by
    rw [List.length_map, List.length_range]
  have hrun := hloop [] out rfl (by rwa [hcount])
  rw [List.nil_append, List.nil_append, hcount] at hrun
  dsimp only at hrun
  rw [decodePacket, hframes, Option.bind_eq_bind, Option.bind_some, BitVec.toNat_ofNat, Nat.mod_eq_of_lt hn32, hrun]
  rfl

theorem decodePacket_no_channels : decodePacket payload payloadBytes 0 out = some (0, out) := rfl

theorem decodePacket_short (h : payloadBytes.toNat < ch.toNat * 4 % 2 ^ 32) :
    decodePacket payload payloadBytes ch out = some (0, out) := by
  rw [decodePacket, framesInPayload_eq (by omega), Nat.div_eq_of_lt h]
  rfl

theorem decodePacket_divides (hch : ch ≠ 0) (h : ch.toNat * 4 % 2 ^ 32 = 0) :
    decodePacket payload payloadBytes ch out = none := by
  rw [decodePacket, framesInPayload, if_pos hch, if_neg (not_not_intro ((size_zero_iff ch).2 h))]
  rfl

/-- A frame of 2^32 bytes is not inside any payload. -/
theorem decodePacket_outside (hch : 2 ^ 32 ≤ ch.toNat * 4) (hsize : ch.toNat * 4 % 2 ^ 32 ≠ 0)
    (h : ch.toNat * 4 % 2 ^ 32 ≤ payloadBytes.toNat) (hlen : payload.length < 2 ^ 32) :
    decodePacket payload payloadBytes ch out = none := by
  have hpos : 0 < payloadBytes.toNat / (ch.toNat * 4 % 2 ^ 32) := Nat.div_pos h (by omega)
  have hn32 : payloadBytes.toNat / (ch.toNat * 4 % 2 ^ 32) < 2 ^ 32 :=
    lt_of_le_of_lt (Nat.div_le_self _ _) payloadBytes.isLt
  rw [decodePacket, framesInPayload_eq hsize, Option.bind_eq_bind, Option.bind_some, BitVec.toNat_ofNat,
    Nat.mod_eq_of_lt hn32, Option.bind_eq_bind, Option.bind_eq_none_iff]
  intro out' hloop
  obtain ⟨c, hturn⟩ := foldlM_turn hloop hpos
  obtain ⟨c', hframe⟩ := Option.ne_none_iff_exists'.1 hturn
  obtain ⟨c, hsample⟩ := foldlM_turn hframe (show 2 ^ 30 - 1 < ch.toNat by omega)
  have hread : decodeSampleLe payload ((BitVec.ofNat 32 0 * ch * 4).toNat + (BitVec.ofNat 32 (2 ^ 30 - 1) * 4).toNat) =
      none := by
    apply if_neg
    rw [show (BitVec.ofNat 32 (2 ^ 30 - 1) * 4).toNat = 2 ^ 32 - 4 from rfl]
    omega
  rw [hread] at hsample
  exact absurd rfl hsample

end

/-! ## Round trips -/

/-- The low byte of each quadlet cleared. -/
def lowCleared (payload : List Byte) : List Byte := payload.mapIdx fun i b => if i % 4 = 0 then 0 else b

theorem leBytes_masked (b0 b1 b2 b3 : Byte) :
    leBytes ((b0.setWidth 32 ||| b1.setWidth 32 <<< 8 ||| b2.setWidth 32 <<< 16 ||| b3.setWidth 32 <<< 24) &&&
      0xFFFFFF00) = [0, b1, b2, b3] := by
  simp only [leBytes, List.cons.injEq, and_true]
  refine ⟨?_, ?_, ?_, ?_⟩
  all_goals
    apply BitVec.eq_of_getLsbD_eq
    intro i hi
    interval_cases i <;> simp

theorem leBytes_sampleAt (payload : List Byte) (i : ℕ) : leBytes (encodeSample (sampleAt payload i)) =
    [0, payload.getD (i + 1) 0, payload.getD (i + 2) 0, payload.getD (i + 3) 0] := by
  have hquad : encodeSample (sampleAt payload i) = le32ToHost (fun j => payload.getD j 0) i &&& 0xFFFFFF00 :=
    decodeSample_shiftLeft _
  rw [hquad]
  exact leBytes_masked _ _ _ _

theorem layout_decoded {payload : List Byte} {m : ℕ} (h : m * 4 ≤ payload.length) :
    layout ((List.range m).map fun k => sampleAt payload (k * 4)) = lowCleared (payload.take (m * 4)) := by
  have hclear : lowCleared (payload.take (m * 4)) =
      (List.range (m * 4)).map fun i => if i % 4 = 0 then 0 else payload.getD i 0 := by
    apply List.ext_getElem
    · simp [lowCleared, h]
    · intro i hi hi'
      have hi : i < payload.length := by
        rw [List.length_map, List.length_range] at hi'
        omega
      simp [lowCleared, hi]
  rw [hclear, layout, List.flatMap_map, ← List.flatMap_pure_eq_map, ← flatMap_frames]
  congr 1
  funext k
  have hmod (c : ℕ) : (k * 4 + c) % 4 = c % 4 := Nat.mul_add_mod' k 4 c
  rw [leBytes_sampleAt, show List.range 4 = [0, 1, 2, 3] from rfl]
  simp [hmod]

/-- Encoding `x` and decoding the bytes written, in buffers that hold `buf` and `out`. -/
def roundTrip (x : List Sample) (n ch : BitVec 32) (buf : List Byte) (out : List Sample) :
    Option (BitVec 32 × List Sample) := do
  let (bytes, payload) ← encodePacket x n ch buf
  decodePacket payload bytes ch out

section
variable {x out : List Sample} {n ch : BitVec 32} {buf : List Byte}

theorem decodePacket_encoded (h24 : ∀ s ∈ x, Is24 s) (hx : x.length = n.toNat * ch.toNat) (hfit : x.length * 4 < 2 ^ 32)
    (hpos : 0 < n.toNat) (hch : 0 < ch.toNat) (hout : x.length ≤ out.length) (rest : List Byte) :
    decodePacket (layout x ++ rest) (n * ch * 4) ch out = some (n, x ++ out.drop x.length) := by
  have hle : ch.toNat ≤ n.toNat * ch.toNat := Nat.le_mul_of_pos_left _ hpos
  have hbytes : (n * ch * 4).toNat = n.toNat * (ch.toNat * 4) := by
    have hmul : (n * ch).toNat = n.toNat * ch.toNat := Nat.mod_eq_of_lt (by omega)
    rw [toNat_mul_four (by omega), hmul, Nat.mul_assoc]
  have hlen : (n * ch * 4).toNat ≤ (layout x ++ rest).length := by
    rw [List.length_append, length_layout, hbytes, hx, Nat.mul_assoc]
    omega
  have hn : n.toNat = (n * ch * 4).toNat / (ch.toNat * 4) := by
    rw [hbytes, Nat.mul_div_cancel _ (by omega)]
  have hsamples : (List.range (n.toNat * ch.toNat)).map (fun k => sampleAt (layout x ++ rest) (k * 4)) = x := by
    apply List.ext_getElem
    · rw [List.length_map, List.length_range, hx]
    · intro k _ hk
      rw [List.getElem_map, List.getElem_range, sampleAt_layout _ _ hk]
      rw [show x.getD k 0 = x[k] by simp [hk]]
      exact decodeSample_encodeSample (h24 _ (List.getElem_mem hk))
  rw [decodePacket_eq hch (by omega) hlen hn (by omega), hsamples, BitVec.ofNat_toNat, BitVec.setWidth_eq, ← hx]

/-- What is encoded is decoded, but for a frame that is of no channels or whose size 32 bits hold as 0. -/
theorem roundTrip_iff (h24 : ∀ s ∈ x, Is24 s) (hx : x.length = n.toNat * ch.toNat) (hfit : x.length * 4 < 2 ^ 32)
    (hbuf : x.length * 4 ≤ buf.length) (hout : x.length ≤ out.length) :
    roundTrip x n ch buf out = some (n, x ++ out.drop x.length) ↔ ch.toNat % 2 ^ 30 ≠ 0 ∨ ch = 0 ∧ n = 0 := by
  rw [roundTrip, encodePacket_eq hx hfit hbuf, Option.bind_eq_bind, Option.bind_some]
  dsimp only
  rcases Nat.eq_zero_or_pos ch.toNat with hzero | hch
  · have hch : ch = 0 := BitVec.eq_of_toNat_eq hzero
    have hnil : x = [] := List.eq_nil_of_length_eq_zero (by rw [hx, hzero, Nat.mul_zero])
    subst hch hnil
    rw [decodePacket_no_channels, List.length_nil, List.drop_zero, List.nil_append, Option.some.injEq, Prod.mk.injEq]
    constructor
    · exact fun h => Or.inr ⟨rfl, h.1.symm⟩
    · rintro (h | ⟨-, h⟩)
      · exact absurd rfl h
      · exact ⟨h.symm, rfl⟩
  have hch0 : ch ≠ 0 := by
    rintro rfl
    cases hch
  rcases Nat.eq_zero_or_pos n.toNat with hzero | hn
  · have hn : n = 0 := BitVec.eq_of_toNat_eq hzero
    have hnil : x = [] := List.eq_nil_of_length_eq_zero (by rw [hx, hzero, Nat.zero_mul])
    subst hn hnil
    by_cases hsize : ch.toNat * 4 % 2 ^ 32 = 0
    · rw [decodePacket_divides hch0 hsize]
      constructor
      · exact fun h => nomatch h
      · rintro (h | ⟨h, -⟩)
        · omega
        · exact absurd h hch0
    · have hshort : ((0 : BitVec 32) * ch * 4).toNat < ch.toNat * 4 % 2 ^ 32 := by
        rw [zero_mul, zero_mul]
        exact Nat.pos_of_ne_zero hsize
      rw [decodePacket_short hshort]
      exact iff_of_true rfl (Or.inl (by omega))
  · have hle : ch.toNat ≤ n.toNat * ch.toNat := Nat.le_mul_of_pos_left _ hn
    rw [decodePacket_encoded h24 hx hfit hn hch hout]
    exact iff_of_true rfl (Or.inl (by omega))

end

/-- Decoding a payload and encoding what was decoded: `frames` frames, and their bytes but for the low ones. -/
def Recodes (payload : List Byte) (ch : BitVec 32) (frames : ℕ) (buf : List Byte) (out : List Sample) : Prop :=
  ∃ samples : List Sample, samples.length = frames * ch.toNat ∧
    decodePacket payload (BitVec.ofNat 32 payload.length) ch out =
    some (BitVec.ofNat 32 frames, samples ++ out.drop samples.length) ∧
    encodePacket samples (BitVec.ofNat 32 frames) ch buf = some (BitVec.ofNat 32 (frames * (ch.toNat * 4)),
      lowCleared (payload.take (frames * (ch.toNat * 4))) ++ buf.drop (frames * (ch.toNat * 4)))

section
variable {payload buf : List Byte} {ch : BitVec 32} {out : List Sample}

theorem recodes_frames (hch : 0 < ch.toNat) (hsize : ch.toNat * 4 < 2 ^ 32) (hlen : payload.length < 2 ^ 32)
    (hbuf : payload.length ≤ buf.length) (hout : payload.length ≤ out.length * 4) :
    Recodes payload ch (payload.length / (ch.toNat * 4)) buf out := by
  have hbytes : (BitVec.ofNat 32 payload.length).toNat = payload.length := Nat.mod_eq_of_lt hlen
  generalize hframes : payload.length / (ch.toNat * 4) = frames
  have hle : frames * (ch.toNat * 4) ≤ payload.length := by
    rw [← hframes]
    exact Nat.div_mul_le_self _ _
  have hn32 : frames < 2 ^ 32 := by
    rw [← hframes]
    exact lt_of_le_of_lt (Nat.div_le_self _ _) hlen
  have hn : (BitVec.ofNat 32 frames).toNat = frames := Nat.mod_eq_of_lt hn32
  rw [← Nat.mul_assoc] at hle
  have hcount : ((List.range (frames * ch.toNat)).map fun k => sampleAt payload (k * 4)).length =
      frames * ch.toNat := by
    rw [List.length_map, List.length_range]
  refine ⟨(List.range (frames * ch.toNat)).map fun k => sampleAt payload (k * 4), hcount, ?_, ?_⟩
  · rw [hcount]
    exact decodePacket_eq hch hsize (by omega) (by rw [hbytes, hframes]) (by omega)
  · have hcounted : BitVec.ofNat 32 frames * ch * 4 = BitVec.ofNat 32 (frames * (ch.toNat * 4)) := by
      apply BitVec.eq_of_toNat_eq
      have hmul : (BitVec.ofNat 32 frames * ch).toNat = frames * ch.toNat := toNat_ofNat_mul rfl (by omega)
      rw [toNat_mul_four (by omega), hmul, BitVec.toNat_ofNat, ← Nat.mul_assoc, Nat.mod_eq_of_lt (by omega)]
    rw [encodePacket_eq (by rw [hcount, hn]) (by omega) (by omega), layout_decoded hle, hcount, hcounted, Nat.mul_assoc]

theorem recodes_none (hsize : 2 ^ 32 ≤ ch.toNat * 4) (hshort : payload.length < ch.toNat * 4 % 2 ^ 32) :
    Recodes payload ch (payload.length / (ch.toNat * 4)) buf out := by
  have hbytes : (BitVec.ofNat 32 payload.length).toNat = payload.length := Nat.mod_eq_of_lt (by omega)
  rw [Nat.div_eq_of_lt (by omega)]
  refine ⟨[], by simp, ?_, ?_⟩
  · rw [decodePacket_short (by rwa [hbytes])]
    rfl
  · rw [encodePacket_eq (by simp) (by simp) (by simp)]
    simp [layout, lowCleared]

theorem recodes_iff (hch : ch ≠ 0) (hlen : payload.length < 2 ^ 32) (hbuf : payload.length ≤ buf.length)
    (hout : payload.length ≤ out.length * 4) : Recodes payload ch (payload.length / (ch.toNat * 4)) buf out ↔
      ch.toNat * 4 < 2 ^ 32 ∨ payload.length < ch.toNat * 4 % 2 ^ 32 := by
  have hbytes : (BitVec.ofNat 32 payload.length).toNat = payload.length := Nat.mod_eq_of_lt hlen
  have hpos : 0 < ch.toNat := Nat.pos_of_ne_zero fun h => hch (BitVec.eq_of_toNat_eq h)
  constructor
  · rintro ⟨samples, -, hdecode, -⟩
    by_contra hno
    have hnone : decodePacket payload (BitVec.ofNat 32 payload.length) ch out = none := by
      by_cases hzero : ch.toNat * 4 % 2 ^ 32 = 0
      · exact decodePacket_divides hch hzero
      · exact decodePacket_outside (by omega) hzero (by omega) hlen
    rw [hnone] at hdecode
    cases hdecode
  · intro h
    by_cases hsize : ch.toNat * 4 < 2 ^ 32
    · exact recodes_frames hpos hsize hlen hbuf hout
    · exact recodes_none (Nat.not_lt.1 hsize) (h.resolve_left hsize)

end

/-! ## The ring -/

/-- At the top of a column and back. -/
theorem ring_detour (quad : BitVec 32) : (decodeSample quad <<< 8).sshiftRight 8 = decodeSample quad := by
  rw [decodeSample_shiftLeft, decodeSample_eq]
  apply BitVec.eq_of_getLsbD_eq
  intro i hi
  have hmsb : (quad &&& 0xFFFFFF00).msb = quad.msb := by
    rw [BitVec.msb_and, show (0xFFFFFF00 : BitVec 32).msb = true from rfl, Bool.and_true]
  rw [BitVec.getLsbD_sshiftRight, BitVec.getLsbD_sshiftRight, hmsb, BitVec.getLsbD_and]
  interval_cases i <;> simp

/-- A frame that was captured, put into the ring and is sent: each sample is what was decoded. -/
theorem frame_sent (p : Packet) {dbq : ℕ} (k : ℕ) {c : Fin kMaxChannels} (hc : c.1 < dbq) :
    (PacedFill.encode (p.frame dbq k) dbq)[c.1]? =
    some (encodeSample (Protocol.decodeSampleLe p.payload (k * dbq * 4 + c * 4))) := by
  rw [PacedFill.encode_get _ c hc, Packet.frame, if_pos hc]
  exact congrArg (some ∘ encodeSample) (ring_detour _)

/-! ## Both ways -/

/-- What is encoded is decoded, and what is decoded is encoded again but for the low bytes,
for just the channel counts the equivalences say; and the ring keeps every sample. -/
theorem codec_round_trip {x out out' : List Sample} {n ch ch' : BitVec 32} {buf buf' payload : List Byte}
    (h24 : ∀ s ∈ x, Is24 s)
    (hx : x.length = n.toNat * ch.toNat) (hfit : x.length * 4 < 2 ^ 32) (hbuf : x.length * 4 ≤ buf.length)
    (hout : x.length ≤ out.length) (hch' : ch' ≠ 0) (hlen : payload.length < 2 ^ 32)
    (hbuf' : payload.length ≤ buf'.length) (hout' : payload.length ≤ out'.length * 4) :
    (encodePacket x n ch buf = some (n * ch * 4, layout x ++ buf.drop (x.length * 4)) ∧
      (layout x).length = n.toNat * ch.toNat * 4 ∧
      (roundTrip x n ch buf out = some (n, x ++ out.drop x.length) ↔ ch.toNat % 2 ^ 30 ≠ 0 ∨ ch = 0 ∧ n = 0)) ∧
    (Recodes payload ch' (payload.length / (ch'.toNat * 4)) buf' out' ↔
      ch'.toNat * 4 < 2 ^ 32 ∨ payload.length < ch'.toNat * 4 % 2 ^ 32) ∧
    (∀ quad, (decodeSample quad <<< 8).sshiftRight 8 = decodeSample quad) ∧
    ∀ (p : Packet) (dbq k : ℕ) (c : Fin kMaxChannels), c.1 < dbq →
      (PacedFill.encode (p.frame dbq k) dbq)[c.1]? =
      some (encodeSample (Protocol.decodeSampleLe p.payload (k * dbq * 4 + c * 4))) :=
  ⟨⟨encodePacket_eq hx hfit hbuf, by rw [length_layout, hx], roundTrip_iff h24 hx hfit hbuf hout⟩,
    recodes_iff hch' hlen hbuf' hout', ring_detour, fun p _ k _ hc => frame_sent p k hc⟩

/-- Two frames of two channels, and a payload of one frame and a byte. -/
theorem codec_round_trip_two :
    roundTrip [1, 2, 0xFFFFFFFF, 0x7FFFFF] 2 2 (List.replicate 17 0xAA) (List.replicate 4 9) =
    some (2, [1, 2, 0xFFFFFFFF, 0x7FFFFF]) ∧
      Recodes [1, 2, 3, 4, 5] 1 1 (List.replicate 5 0) [0, 0] := by
  have h := @codec_round_trip [1, 2, 0xFFFFFFFF, 0x7FFFFF] (List.replicate 4 9) [0, 0] 2 2 1 (List.replicate 17 0xAA)
    (List.replicate 5 0) [1, 2, 3, 4, 5] (by simp [Is24]) rfl (by decide) (by decide) (by decide) (by decide)
    (by decide) (by decide) (by decide)
  exact ⟨h.1.2.2.2 (Or.inl (by decide)), h.2.1.2 (Or.inl (by decide))⟩

/-- Frames of no channels are not counted, and those whose size wraps to 0 divide by it. -/
theorem no_channels : roundTrip [] 1 0 [] [] = some (0, []) ∧ roundTrip [] 1 0 [] [] ≠ some (1, []) ∧
    decodePacket [] 0 0x40000000 [] = none := by
  refine ⟨rfl, ?_, rfl⟩
  rw [show roundTrip [] 1 0 [] [] = some (0, []) from rfl]
  simp

end UserFace800.Audio.PcmPacket
