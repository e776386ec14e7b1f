import Mathlib.Data.BitVec
/-!
# Fields of a word

A mask of the low bits takes the remainder (`toNat_mask`). A field is masked and then shifted
down, or shifted down and then masked; `field_eq` reads one off the bits of the word it was
put into, `test_bit` a flag.
-/

namespace UserFace800.Lib.Bits

variable {n : ℕ}

/-- A mask of the low `w` bits takes the remainder. -/
theorem toNat_mask {mask : BitVec n} (w : ℕ) (hmask : mask.toNat = 2 ^ w - 1) (x : BitVec n) :
    (x &&& mask).toNat = x.toNat % 2 ^ w := by
  rw [BitVec.toNat_and, hmask, Nat.and_two_pow_sub_one_eq_mod]

theorem mask_lt {mask : BitVec n} (w : ℕ) (hmask : mask.toNat = 2 ^ w - 1) (x : BitVec n) :
    (x &&& mask).toNat < 2 ^ w := by
  rw [toNat_mask w hmask]
  exact Nat.mod_lt _ (Nat.two_pow_pos w)

theorem mask_eq {mask x : BitVec n} (w : ℕ) (hmask : mask.toNat = 2 ^ w - 1) (hx : x.toNat < 2 ^ w) :
    x &&& mask = x := by
  apply BitVec.eq_of_toNat_eq
  rw [toNat_mask w hmask, Nat.mod_eq_of_lt hx]

/-- Masking then shifting, or shifting then masking. -/
theorem mask_shift (q mask small : BitVec n) (k : ℕ) (h : mask >>> k = small) :
    (q &&& mask) >>> k = q >>> k &&& small := by
  rw [BitVec.ushiftRight_and_distrib, h]

/-- A field of `w` bits from bit `k` on. -/
theorem field_eq {q mask x : BitVec n} {k : ℕ} (w : ℕ) (hmask : (mask >>> k).toNat = 2 ^ w - 1) (hx : x.toNat < 2 ^ w)
    (hq : ∀ i < w, q.getLsbD (k + i) = x.getLsbD i) : (q &&& mask) >>> k = x := by
  rw [mask_shift q mask _ k rfl]
  apply BitVec.eq_of_getLsbD_eq
  intro i _
  have hbit : (mask >>> k).getLsbD i = decide (i < w) := by
    rw [BitVec.getLsbD, hmask, Nat.testBit_two_pow_sub_one]
  rw [BitVec.getLsbD_and, BitVec.getLsbD_ushiftRight, hbit]
  by_cases hi : i < w
  · rw [hq i hi]
    simp [hi]
  · have hzero : x.getLsbD i = false :=
      Nat.testBit_lt_two_pow (Nat.lt_of_lt_of_le hx (Nat.pow_le_pow_right (by decide) (by omega)))
    rw [hzero]
    simp [hi]

theorem test_bit (q : BitVec n) {k : ℕ} (hk : k < n) : (q &&& BitVec.twoPow n k != 0) = q.getLsbD k := by
  rw [BitVec.and_twoPow]
  cases hq : q.getLsbD k
  · rw [if_neg (by decide)]
    exact bne_self_eq_false 0
  · rw [if_pos rfl, bne_iff_ne]
    intro h
    have hbit : (BitVec.twoPow n k).getLsbD k = true := by
      rw [BitVec.getLsbD_twoPow]
      simp [hk]
    rw [h] at hbit
    simp at hbit

/-- The bits of a flag. -/
theorem flag_bit (b : Bool) {k : ℕ} (hk : k < n) (i : ℕ) :
    (if b then BitVec.twoPow n k else 0).getLsbD i = (b && decide (k = i)) := by
  cases b
  · simp
  · rw [if_pos rfl, BitVec.getLsbD_twoPow]
    simp [hk]

/-- Masking off a byte, or only keeping it. -/
theorem low_byte (hn : 8 ≤ n) (v : BitVec n) : (v &&& 0xff).setWidth 8 = v.setWidth 8 := by
  apply BitVec.eq_of_toNat_eq
  have hmask : (0xff : BitVec n).toNat = 2 ^ 8 - 1 := by
    have : 2 ^ 8 ≤ 2 ^ n := Nat.pow_le_pow_right (by decide) hn
    change (BitVec.ofNat n 255).toNat = 255
    rw [BitVec.toNat_ofNat, Nat.mod_eq_of_lt (by omega)]
  rw [BitVec.toNat_setWidth, BitVec.toNat_setWidth, toNat_mask 8 hmask, Nat.mod_mod]

end UserFace800.Lib.Bits
