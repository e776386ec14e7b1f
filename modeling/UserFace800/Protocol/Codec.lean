import Mathlib.Data.BitVec
import Mathlib.Tactic.IntervalCases
/-!
# The isochronous sample codec

`codec.hpp` and `endian.hpp`: a quadlet of a packet carries a 24-bit sample in
its top bits, little-endian in the payload.
-/

namespace UserFace800.Protocol

/-- The quadlet at the byte `i` of a buffer. -/
def le32ToHost (p : ℕ → BitVec 8) (i : ℕ) : BitVec 32 :=
  (p i).setWidth 32 ||| (p (i + 1)).setWidth 32 <<< 8 ||| (p (i + 2)).setWidth 32 <<< 16 |||
  (p (i + 3)).setWidth 32 <<< 24

/-- `decode_sample`: 24 bits, with the sign in the others. -/
def decodeSample (quad : BitVec 32) : BitVec 32 :=
  let s := quad >>> 8 &&& 0x00FFFFFF
  if quad &&& 0x80000000 ≠ 0 then s ||| 0xFF000000 else s

/-- The sample in the four bytes at `i`. -/
def decodeSampleLe (p : ℕ → BitVec 8) (i : ℕ) : BitVec 32 := decodeSample (le32ToHost p i)

/-- Back at the top of a quadlet a sample is as it came, without the low byte. -/
theorem decodeSample_shiftLeft (quad : BitVec 32) : decodeSample quad <<< 8 = quad &&& 0xFFFFFF00 := by
  have hsign (s : BitVec 32) : (s ||| 0xFF000000) <<< 8 = s <<< 8 := by
    rw [BitVec.shiftLeft_or_distrib, show (0xFF000000 : BitVec 32) <<< 8 = 0 from rfl]
    exact BitVec.or_zero
  have hmask : (0xFFFFFF00 : BitVec 32) = BitVec.allOnes 32 <<< 8 := rfl
  have htop : (quad >>> 8 &&& 0x00FFFFFF) <<< 8 = quad &&& 0xFFFFFF00 := by
    rw [BitVec.shiftLeft_and_distrib, show (0x00FFFFFF : BitVec 32) <<< 8 = 0xFFFFFF00 from rfl, hmask]
    ext i hi
    simp only [BitVec.getElem_and, BitVec.getElem_shiftLeft]
    by_cases hlow : i < 8
    · simp [hlow]
    · have : 8 + (i - 8) = i := by omega
      simp [hlow, this, hi]
  unfold decodeSample
  dsimp only
  split
  · rw [hsign, htop]
  · exact htop

/-- Decoding is an arithmetic shift. -/
theorem decodeSample_eq (quad : BitVec 32) : decodeSample quad = quad.sshiftRight 8 := by
  have hsign : (quad &&& 0x80000000 ≠ 0) ↔ quad.msb = true := by
    rw [show (0x80000000 : BitVec 32) = BitVec.twoPow 32 31 from rfl, BitVec.and_twoPow, BitVec.msb_eq_getLsbD_last]
    cases quad.getLsbD (32 - 1) <;> decide
  have hlow : quad >>> 8 &&& (0x00FFFFFF : BitVec 32) = quad >>> 8 := by
    apply BitVec.eq_of_getLsbD_eq
    intro i hi
    interval_cases i <;> simp
  unfold decodeSample
  dsimp only
  rw [hlow]
  apply BitVec.eq_of_getLsbD_eq
  intro i hi
  rw [BitVec.getLsbD_sshiftRight]
  by_cases h : quad.msb = true
  · rw [if_pos (hsign.2 h), BitVec.getLsbD_or, h]
    interval_cases i <;> simp
  · rw [if_neg (fun h' => h (hsign.1 h')), BitVec.getLsbD_ushiftRight]
    simp only [h]
    interval_cases i <;> simp

/-- A number of 24 bits. -/
def Is24 (s : BitVec 32) : Prop := -2 ^ 23 ≤ s.toInt ∧ s.toInt < 2 ^ 23

/-- A number of 24 bits at the top of a quadlet is decoded as it was. -/
theorem decodeSample_of_is24 {s : BitVec 32} (h : Is24 s) : decodeSample (s <<< 8) = s := by
  obtain ⟨hlo, hhi⟩ := h
  have hshift : (s <<< 8).toInt = s.toInt * 2 ^ 8 := by
    rw [BitVec.shiftLeft_eq_mul_twoPow, BitVec.toInt_mul, show (BitVec.twoPow 32 8).toInt = 2 ^ 8 from rfl]
    exact Int.bmod_eq_of_le (by omega) (by omega)
  apply BitVec.eq_of_toInt_eq
  rw [decodeSample_eq, BitVec.toInt_sshiftRight, hshift, Int.shiftRight_eq_div_pow]
  omega

/-- A quadlet as it lies in a payload. -/
def leBytes (v : BitVec 32) : List (BitVec 8) :=
  [v.setWidth 8, (v >>> 8).setWidth 8, (v >>> 16).setWidth 8, (v >>> 24).setWidth 8]

theorem le32_leBytes (v : BitVec 32) (rest : List (BitVec 8)) :
    le32ToHost (fun j => (leBytes v ++ rest).getD j 0) 0 = v := by
  change (v.setWidth 8).setWidth 32 ||| ((v >>> 8).setWidth 8).setWidth 32 <<< 8 |||
    ((v >>> 16).setWidth 8).setWidth 32 <<< 16 ||| (((v >>> 24).setWidth 8).setWidth 32 <<< 24) = v
  apply BitVec.eq_of_getLsbD_eq
  intro i hi
  interval_cases i <;> simp

theorem le32_past (v : BitVec 32) (rest : List (BitVec 8)) (i : ℕ) :
    le32ToHost (fun j => (leBytes v ++ rest).getD j 0) (i + 4) = le32ToHost (fun j => rest.getD j 0) i := rfl

/-- Quadlets in a row are read back one by one. -/
theorem le32_flatMap (vs : List (BitVec 32)) (rest : List (BitVec 8)) {k : ℕ} (hk : k < vs.length) :
    le32ToHost (fun j => (vs.flatMap leBytes ++ rest).getD j 0) (k * 4) = vs[k] := by
  induction vs generalizing k with
  | nil => cases hk
  | cons v vs ih =>
    rw [List.flatMap_cons, List.append_assoc]
    cases k with
    | zero =>
      rw [Nat.zero_mul, le32_leBytes]
      rfl
    | succ k =>
      rw [Nat.succ_mul, le32_past]
      exact ih (Nat.lt_of_succ_lt_succ hk)

end UserFace800.Protocol
