import UserFace800.Lib.Bits
import Mathlib.Data.BitVec
import Mathlib.Tactic.IntervalCases
/-!
# The test signal

`testsig.hpp`: a sample of the signal says which channel it is of and which frame, under a
marker and over three check digits. What the analyser reads off a sample is what was put
into it (`testsigChannelOf_sample`, `testsigIndexOf_sample`), and the valid samples are the
encoded ones (`encoded_of_valid`, `testsigValid_sample`).
-/
open UserFace800.Lib.Bits

namespace UserFace800.Signal

/-- A 24-bit sample, sign-extended. -/
abbrev Sample := BitVec 32

/-- The 16 bits of an index. -/
def kTestSigIndexMask : BitVec 32 := 0xFFFF

/-- The frames until the index comes round. -/
def kTestSigPeriod : ℤ := 0x10000

/-- The top bit of the 24, set in every sample of the signal. -/
def kTestSigMarker : BitVec 32 := 0x800000

/-- `testsig_check`: three bits of channel and index. -/
def testsigCheck (channel index : BitVec 32) : BitVec 32 := (channel ^^^ index ^^^ index >>> 8) &&& 0x7

/-- `testsig_sample`: marker, channel, index and check, with the sign extended. -/
def testsigSample (channel : BitVec 32) (frame : BitVec 64) : Sample :=
  let ch := channel &&& 0xF
  let ix := (frame &&& kTestSigIndexMask.setWidth 64).setWidth 32
  let raw := kTestSigMarker ||| ch <<< 19 ||| ix <<< 3 ||| testsigCheck ch ix
  raw ||| 0xFF000000

/-- The channel a sample says it is of. -/
def testsigChannelOf (sample : Sample) : BitVec 32 := sample >>> 19 &&& 0xF

/-- The index a sample says it has. -/
def testsigIndexOf (sample : Sample) : BitVec 32 := sample >>> 3 &&& kTestSigIndexMask

/-- `testsig_valid`: the sample is the one its own channel and index encode to. -/
def testsigValid (sample : Sample) : Bool :=
  let raw := sample &&& 0xFFFFFF
  if raw &&& kTestSigMarker = 0 then false
  else testsigSample (testsigChannelOf sample) ((testsigIndexOf sample).setWidth 64) == sample

/-- Frame `n` of the signal's channel `c`. -/
def encoded (c : BitVec 32) (n : ℕ) : Sample := testsigSample c (BitVec.ofNat 64 n)

/-! ## What is put into a sample is read off it -/

theorem testsigCheck_high (c x : BitVec 32) {i : ℕ} (hi : 3 ≤ i) : (testsigCheck c x).getLsbD i = false := by
  have hmask : (0x7 : BitVec 32).getLsbD i = false := by
    rw [show (0x7 : BitVec 32) = (0x7 : BitVec 3).setWidth 32 from rfl, BitVec.getLsbD_setWidth,
      BitVec.getLsbD_of_ge _ _ hi, Bool.and_false]
  rw [testsigCheck, BitVec.getLsbD_and, hmask, Bool.and_false]

theorem testsigChannelOf_sample (c : BitVec 32) (f : BitVec 64) : testsigChannelOf (testsigSample c f) = c &&& 0xF := by
  apply BitVec.eq_of_getLsbD_eq
  intro i hi
  unfold testsigChannelOf testsigSample
  simp only [BitVec.getLsbD_and, BitVec.getLsbD_ushiftRight, BitVec.getLsbD_or,
    testsigCheck_high _ _ (show 3 ≤ 19 + i by omega)]
  interval_cases i <;> simp [kTestSigMarker, kTestSigIndexMask]

theorem testsigIndexOf_sample (c : BitVec 32) (f : BitVec 64) :
    testsigIndexOf (testsigSample c f) = f.setWidth 32 &&& kTestSigIndexMask := by
  apply BitVec.eq_of_getLsbD_eq
  intro i hi
  unfold testsigIndexOf testsigSample
  simp only [BitVec.getLsbD_and, BitVec.getLsbD_ushiftRight, BitVec.getLsbD_or,
    testsigCheck_high _ _ (show 3 ≤ 3 + i by omega)]
  interval_cases i <;> simp [kTestSigMarker, kTestSigIndexMask]

theorem testsigSample_ne_zero (c : BitVec 32) (f : BitVec 64) : testsigSample c f ≠ 0 := by
  intro h
  have hbit : (testsigSample c f).getLsbD 31 = true := by
    unfold testsigSample
    rw [BitVec.getLsbD_or, show (0xFF000000 : BitVec 32).getLsbD 31 = true from rfl, Bool.or_true]
  rw [h] at hbit
  cases hbit

/-- Only four bits of the channel and sixteen of the frame are encoded. -/
theorem testsigSample_masked (c : BitVec 32) (f : BitVec 64) :
    testsigSample (c &&& 0xF) ((f.setWidth 32 &&& kTestSigIndexMask).setWidth 64) = testsigSample c f := by
  have hch : c &&& 0xF &&& 0xF = c &&& 0xF := by rw [BitVec.and_assoc, BitVec.and_self]
  have hix :
      (((f.setWidth 32 &&& kTestSigIndexMask).setWidth 64 &&& kTestSigIndexMask.setWidth 64).setWidth 32 : BitVec 32) =
      (f &&& kTestSigIndexMask.setWidth 64).setWidth 32 := by
    apply BitVec.eq_of_getLsbD_eq
    intro i hi
    simp only [BitVec.getLsbD_setWidth, BitVec.getLsbD_and]
    cases f.getLsbD i <;> cases kTestSigIndexMask.getLsbD i <;> simp [hi, show i < 64 by omega]
  unfold testsigSample
  rw [hch, hix]

theorem testsigValid_sample (c : BitVec 32) (f : BitVec 64) : testsigValid (testsigSample c f) = true := by
  have hmarker : testsigSample c f &&& 0xFFFFFF &&& kTestSigMarker ≠ 0 := by
    intro h
    have hbit : (testsigSample c f &&& 0xFFFFFF &&& kTestSigMarker).getLsbD 23 = true := by
      unfold testsigSample
      simp [kTestSigMarker]
    rw [h] at hbit
    cases hbit
  unfold testsigValid
  dsimp only
  rw [if_neg hmarker, testsigChannelOf_sample, testsigIndexOf_sample, testsigSample_masked]
  exact beq_self_eq_true _

theorem encoded_of_valid {s : Sample} (h : testsigValid s = true) :
    s = encoded (testsigChannelOf s) (testsigIndexOf s).toNat := by
  unfold testsigValid at h
  dsimp only at h
  split at h
  · cases h
  · rw [beq_iff_eq] at h
    rw [encoded, BitVec.ofNat_toNat]
    exact h.symm

theorem index_toNat (n : ℕ) : ((BitVec.ofNat 64 n).setWidth 32 &&& kTestSigIndexMask).toNat = n % 2 ^ 16 := by
  rw [toNat_mask 16 rfl, BitVec.toNat_setWidth, BitVec.toNat_ofNat]
  omega

theorem encoded_index (c : BitVec 32) (n : ℕ) : (testsigIndexOf (encoded c n)).toNat = n % 2 ^ 16 := by
  rw [encoded, testsigIndexOf_sample, index_toNat]

theorem encoded_channel {c : BitVec 32} (hc : c < 16) (n : ℕ) : testsigChannelOf (encoded c n) = c := by
  rw [encoded, testsigChannelOf_sample]
  exact mask_eq 4 rfl hc

/-- The index comes round every 65536 frames. -/
theorem encoded_eq_iff (c : BitVec 32) (m n : ℕ) : encoded c m = encoded c n ↔ m % 2 ^ 16 = n % 2 ^ 16 := by
  constructor
  · intro h
    rw [← encoded_index c m, h, encoded_index]
  · intro h
    have hmask : (BitVec.ofNat 64 m).setWidth 32 &&& kTestSigIndexMask =
        (BitVec.ofNat 64 n).setWidth 32 &&& kTestSigIndexMask := by
      apply BitVec.eq_of_toNat_eq
      rw [index_toNat, index_toNat, h]
    rw [encoded, encoded, ← testsigSample_masked c (BitVec.ofNat 64 m), hmask, testsigSample_masked]

theorem encoded_iff {c : BitVec 32} (hc : c < 16) (s : Sample) (n : ℕ) :
    s = encoded c n ↔ testsigValid s = true ∧ testsigChannelOf s = c ∧ (testsigIndexOf s).toNat = n % 2 ^ 16 := by
  constructor
  · rintro rfl
    exact ⟨testsigValid_sample _ _, encoded_channel hc n, encoded_index c n⟩
  · rintro ⟨hv, hch, hix⟩
    have hs := encoded_of_valid hv
    rw [hch, hix] at hs
    rw [hs, encoded_eq_iff, Nat.mod_mod]

end UserFace800.Signal
