import Mathlib.Algebra.CharP.Two
import Mathlib.Algebra.Field.ZMod
import Mathlib.Algebra.Polynomial.FieldDivision
import Mathlib.RingTheory.AdjoinRoot
import Mathlib.Tactic.LinearCombination
/-!
# Cyclic redundancy checks

A shift register of `w` bits that takes a message in chunks of `k` bits, the first at the top
and nothing inverted. A chunk is added at the top of the register, which is then turned `k`
times: shifted left, and the generator subtracted when a one falls out. Over the polynomials
with coefficients in two elements a turn is multiplication by `X` modulo the generator, so
`crc` is a remainder (`toPoly_crc`), and a block carries its own checksum exactly if the
generator divides it (`valid_iff`). What damage the checksum detects (`damaged_iff`) is then
a matter of what the generator divides: no burst of `w` bits or less, no odd number of bits
if it has the factor `X + 1`, no pair of bits closer than the order of `X`.
-/
open Polynomial

namespace UserFace800.Lib.Crc

variable {w k n : ℕ}

/-- The polynomial whose coefficients are the bits. -/
noncomputable def toPoly (b : BitVec n) : (ZMod 2)[X] :=
  ∑ i ∈ Finset.range n, if b.getLsbD i then X ^ i else 0

theorem coeff_toPoly (b : BitVec n) (i : ℕ) : (toPoly b).coeff i = if b.getLsbD i then 1 else 0 := by
  have hterm : ∀ j, (if b.getLsbD j then X ^ j else (0 : (ZMod 2)[X])).coeff i =
      if j = i then if b.getLsbD i then 1 else 0 else 0 := by
    intro j
    by_cases hij : i = j
    · subst hij
      split <;> simp
    · rw [if_neg (Ne.symm hij)]
      split
      · exact (coeff_X_pow j i).trans (if_neg hij)
      · exact coeff_zero i
  simp only [toPoly, finsetSum_coeff, hterm, Finset.sum_ite_eq', Finset.mem_range]
  split
  next => rfl
  next hi => rw [BitVec.getLsbD_of_ge b i (Nat.not_lt.1 hi)]; rfl

theorem toPoly_zero : toPoly (0 : BitVec n) = 0 := by
  ext i
  simp [coeff_toPoly]

theorem toPoly_xor (a b : BitVec n) : toPoly (a ^^^ b) = toPoly a + toPoly b := by
  ext i
  rw [coeff_add, coeff_toPoly, coeff_toPoly, coeff_toPoly, BitVec.getLsbD_xor]
  cases a.getLsbD i <;> cases b.getLsbD i <;> decide

theorem toPoly_inj {a b : BitVec n} (h : toPoly a = toPoly b) : a = b := by
  refine BitVec.eq_of_getLsbD_eq fun i _ => ?_
  have hi := congrArg (fun p => p.coeff i) h
  simp only [coeff_toPoly] at hi
  cases ha : a.getLsbD i <;> cases hb : b.getLsbD i <;> simp [ha, hb] at hi ⊢

theorem degree_toPoly (b : BitVec n) : (toPoly b).degree < n := by
  refine (degree_lt_iff_coeff_zero _ _).2 fun i hi => ?_
  rw [coeff_toPoly, BitVec.getLsbD_of_ge b i hi]
  rfl

/-- What a shift to the left loses is the top bit. -/
theorem toPoly_shiftLeft (c : BitVec w) : toPoly (c <<< 1) + (if c.msb then X ^ w else 0) = X * toPoly c := by
  have htop : ∀ i, (if c.msb then X ^ w else (0 : (ZMod 2)[X])).coeff i = if c.msb ∧ i = w then 1 else 0 := by
    intro i
    split
    next h => simp only [coeff_X_pow, h, true_and]
    next h => simp only [coeff_zero, h, false_and, if_false, Bool.false_eq_true]
  ext i
  rw [coeff_add, coeff_toPoly, htop, BitVec.msb_eq_getLsbD_last]
  cases i with
  | zero =>
    rw [mul_coeff_zero, coeff_X_zero, zero_mul]
    have hzero : ¬(c.getLsbD (w - 1) = true ∧ 0 = w) := by
      rintro ⟨hbit, rfl⟩
      simp at hbit
    rw [if_neg hzero, add_zero]
    simp
  | succ i =>
    rw [coeff_X_mul, coeff_toPoly, BitVec.getLsbD_shiftLeft]
    rcases Nat.lt_trichotomy (i + 1) w with hi | hi | hi
    · simp [hi, hi.ne]
    · simp [hi, show w - 1 = i by omega]
    · rw [BitVec.getLsbD_of_ge c i (by omega)]
      simp [hi.not_gt, hi.ne']

/-- A chunk at the top of the register. -/
theorem toPoly_top (hk : k ≤ w) (b : BitVec k) : toPoly (b.setWidth w <<< (w - k)) = X ^ (w - k) * toPoly b := by
  ext i
  rw [coeff_X_pow_mul', coeff_toPoly]
  by_cases hi : w - k ≤ i
  · rw [if_pos hi, coeff_toPoly]
    by_cases hlt : i < w
    · simp [hlt, hi]
    · rw [BitVec.getLsbD_of_ge _ _ (Nat.not_lt.1 hlt), BitVec.getLsbD_of_ge b _ (by omega)]
  · rw [if_neg hi]
    simp [hi]

/-! ## The register -/

/-- A turn of the register. -/
def turn (p c : BitVec w) : BitVec w := if c.msb then (c <<< 1) ^^^ p else c <<< 1

/-- `n` turns. -/
def turns (p : BitVec w) : ℕ → BitVec w → BitVec w
  | 0, c => c
  | n + 1, c => turns p n (turn p c)

/-- `k` bits more, the highest first. -/
def feed (p c : BitVec w) (b : BitVec k) : BitVec w := turns p k (c ^^^ (b.setWidth w <<< (w - k)))

/-- The checksum of a block, from 0. -/
def crc (p : BitVec w) (bs : List (BitVec k)) : BitVec w := bs.foldl (feed p) 0

/-- The generator, whose leading term the register does not hold. -/
noncomputable def generator (p : BitVec w) : (ZMod 2)[X] := X ^ w + toPoly p

/-- The block as one polynomial. -/
noncomputable def message (bs : List (BitVec k)) : (ZMod 2)[X] := bs.foldl (fun m b => X ^ k * m + toPoly b) 0

theorem generator_monic (p : BitVec w) : (generator p).Monic := monic_X_pow_add (degree_toPoly p)

theorem degree_generator (p : BitVec w) : (generator p).degree = w := by
  rw [generator, degree_add_eq_left_of_degree_lt, degree_X_pow]
  rw [degree_X_pow]
  exact degree_toPoly p

theorem toPoly_turn (p c : BitVec w) : toPoly (turn p c) = X * toPoly c + if c.msb then generator p else 0 := by
  have hshift := toPoly_shiftLeft c
  unfold turn generator
  split
  next h =>
    rw [if_pos h] at hshift
    rw [toPoly_xor, ← hshift]
    linear_combination - CharTwo.add_self_eq_zero (X ^ w : (ZMod 2)[X])
  next h => rw [add_zero, ← hshift, if_neg h, add_zero]

/-- Modulo the generator a turn multiplies by `X`. -/
theorem mk_turns (p c : BitVec w) (n : ℕ) : AdjoinRoot.mk (generator p) (toPoly (turns p n c)) =
    AdjoinRoot.mk (generator p) (X ^ n * toPoly c) := by
  induction n generalizing c with
  | zero => rw [pow_zero, one_mul, turns]
  | succ n ih =>
    have hturn : AdjoinRoot.mk (generator p) (toPoly (turn p c)) = AdjoinRoot.mk (generator p) (X * toPoly c) := by
      rw [toPoly_turn, map_add]
      split
      · rw [AdjoinRoot.mk_self, add_zero]
      · rw [map_zero, add_zero]
    rw [turns, ih, map_mul, hturn, ← map_mul, pow_succ, mul_assoc]

theorem mk_feed (hk : k ≤ w) (p c : BitVec w) (b : BitVec k) : AdjoinRoot.mk (generator p) (toPoly (feed p c b)) =
    AdjoinRoot.mk (generator p) (X ^ k * toPoly c + X ^ w * toPoly b) := by
  have hpow : (X : (ZMod 2)[X]) ^ k * (X ^ (w - k) * toPoly b) = X ^ w * toPoly b := by
    rw [← mul_assoc, ← pow_add, Nat.add_sub_cancel' hk]
  rw [feed, mk_turns, toPoly_xor, toPoly_top hk, mul_add, hpow]

/-- What is in the register after a message is its remainder. -/
theorem mk_crc (hk : k ≤ w) (p : BitVec w) (bs : List (BitVec k)) :
    AdjoinRoot.mk (generator p) (toPoly (crc p bs)) = AdjoinRoot.mk (generator p) (X ^ w * message bs) := by
  have hfold : ∀ (c : BitVec w) (m : (ZMod 2)[X]),
      AdjoinRoot.mk (generator p) (toPoly c) = AdjoinRoot.mk (generator p) (X ^ w * m) →
      AdjoinRoot.mk (generator p) (toPoly (bs.foldl (feed p) c)) =
        AdjoinRoot.mk (generator p) (X ^ w * bs.foldl (fun m b => X ^ k * m + toPoly b) m) := by
    induction bs with
    | nil => exact fun c m h => h
    | cons b bs ih =>
      intro c m h
      refine ih _ _ ?_
      rw [mk_feed hk, map_add, map_mul, h, ← map_mul, ← map_add]
      congr 1
      ring
  exact hfold 0 0 (by rw [toPoly_zero, mul_zero])

theorem toPoly_crc (hk : k ≤ w) (p : BitVec w) (bs : List (BitVec k)) :
    toPoly (crc p bs) = (X ^ w * message bs) %ₘ generator p := by
  have hdvd := AdjoinRoot.mk_eq_mk.1 (mk_crc hk p bs)
  have hself := (modByMonic_eq_self_iff (generator_monic p)).2 (degree_generator p ▸ degree_toPoly (crc p bs))
  rw [← hself]
  exact (modByMonic_eq_of_dvd_sub (generator_monic p) hdvd)

/-! ## Blocks that carry their checksum -/

/-- The message with the checksum behind it. -/
noncomputable def block (bs : List (BitVec k)) (c : BitVec w) : (ZMod 2)[X] := X ^ w * message bs + toPoly c

theorem valid_iff (hk : k ≤ w) (p : BitVec w) (bs : List (BitVec k)) (c : BitVec w) :
    crc p bs = c ↔ generator p ∣ block bs c := by
  have hself : ∀ c : BitVec w, toPoly c %ₘ generator p = toPoly c := fun c =>
    (modByMonic_eq_self_iff (generator_monic p)).2 (degree_generator p ▸ degree_toPoly c)
  rw [← modByMonic_eq_zero_iff_dvd (generator_monic p), block, add_modByMonic, ← toPoly_crc hk, hself,
    CharTwo.add_eq_zero]
  exact ⟨fun h => h ▸ rfl, toPoly_inj⟩

/-- Bit `i` of a block, from its end. -/
def blockBit (bs : List (BitVec k)) (c : BitVec w) (i : ℕ) : Bool :=
  if i < w then c.getLsbD i else (bs.reverse.getD ((i - w) / k) 0).getLsbD ((i - w) % k)

theorem coeff_message (hk : 0 < k) (bs : List (BitVec k)) (i : ℕ) :
    (message bs).coeff i = if (bs.reverse.getD (i / k) 0).getLsbD (i % k) then 1 else 0 := by
  induction bs using List.reverseRecOn generalizing i with
  | nil => simp [message]
  | append_singleton bs b ih =>
    rw [message, List.foldl_append, List.foldl_cons, List.foldl_nil, coeff_add, coeff_X_pow_mul', coeff_toPoly,
      List.reverse_concat]
    rcases Nat.lt_or_ge i k with hi | hi
    · rw [if_neg (Nat.not_le.2 hi), zero_add, Nat.div_eq_of_lt hi, Nat.mod_eq_of_lt hi, List.getD_cons_zero]
    · rw [if_pos hi, BitVec.getLsbD_of_ge b i hi]
      have hrest := ih (i - k)
      rw [message] at hrest
      rw [hrest, Nat.div_eq_sub_div hk hi, List.getD_cons_succ, Nat.mod_eq_sub_mod hi]
      simp

theorem coeff_block (hk : 0 < k) (bs : List (BitVec k)) (c : BitVec w) (i : ℕ) :
    (block bs c).coeff i = if blockBit bs c i then 1 else 0 := by
  unfold block blockBit
  rw [coeff_add, coeff_X_pow_mul', coeff_toPoly]
  rcases Nat.lt_or_ge i w with hi | hi
  · rw [if_neg (Nat.not_le.2 hi), zero_add, if_pos hi]
  · rw [if_pos hi, BitVec.getLsbD_of_ge c i hi, coeff_message hk, if_neg (Nat.not_lt.2 hi)]
    simp

/-- The polynomial of the places where two blocks differ. -/
noncomputable def damage (errors : Finset ℕ) : (ZMod 2)[X] := ∑ i ∈ errors, X ^ i

theorem coeff_damage (errors : Finset ℕ) (i : ℕ) : (damage errors).coeff i = if i ∈ errors then 1 else 0 := by
  simp only [damage, finsetSum_coeff, coeff_X_pow, Finset.sum_ite_eq]

/-- Damage passes for a valid block exactly if the generator divides it. -/
theorem damaged_iff (hk : 0 < k) (hkw : k ≤ w) {p c c' : BitVec w} {bs bs' : List (BitVec k)} (hv : crc p bs = c)
    {errors : Finset ℕ} (he : ∀ i, i ∈ errors ↔ blockBit bs c i ≠ blockBit bs' c' i) :
    crc p bs' = c' ↔ generator p ∣ damage errors := by
  have hsum : block bs' c' = block bs c + damage errors := by
    ext i
    have hi := he i
    rw [coeff_add, coeff_block hk, coeff_block hk, coeff_damage]
    by_cases hmem : i ∈ errors
    · have hne := hi.1 hmem
      cases hb : blockBit bs c i <;> cases hb' : blockBit bs' c' i <;> simp [hb, hb', hmem] at hne ⊢
      decide
    · have heq := not_not.1 fun h => hmem (hi.2 h)
      rw [heq, if_neg hmem, add_zero]
  rw [valid_iff hkw, hsum]
  exact dvd_add_right ((valid_iff hkw p bs c).1 hv)

/-! ## What the generator does not divide -/

variable {p : BitVec w} {errors : Finset ℕ}

theorem coprime_X_pow (hw : 0 < w) (hp : p.getLsbD 0 = true) (j : ℕ) : IsCoprime (generator p) (X ^ j) := by
  refine (irreducible_X.coprime_iff_not_dvd.2 ?_).symm.pow_right
  rw [X_dvd_iff, generator, coeff_add, coeff_toPoly, hp, coeff_X_pow, if_neg hw.ne]
  decide

/-- A burst of `w` bits or less. -/
theorem not_dvd_burst (hw : 0 < w) (hp : p.getLsbD 0 = true) (hne : errors.Nonempty) {j : ℕ}
    (hj : ∀ i ∈ errors, j ≤ i ∧ i < j + w) : ¬ generator p ∣ damage errors := by
  intro hdvd
  -- the burst is at place `j` of a polynomial that is too small
  have hsplit : damage errors = X ^ j * damage (errors.image (· - j)) := by
    ext i
    rw [coeff_damage, coeff_X_pow_mul', coeff_damage]
    by_cases hi : j ≤ i
    · rw [if_pos hi]
      refine if_congr ⟨fun h => Finset.mem_image.2 ⟨i, h, rfl⟩, fun h => ?_⟩ rfl rfl
      obtain ⟨i', hi', he⟩ := Finset.mem_image.1 h
      have := (hj i' hi').1
      rwa [show i = i' by omega]
    · rw [if_neg hi, if_neg fun h => hi (hj i h).1]
  rw [hsplit] at hdvd
  have hsmall := eq_zero_of_dvd_of_degree_lt ((coprime_X_pow hw hp j).dvd_of_dvd_mul_left hdvd) (by
    rw [degree_generator]
    refine (degree_lt_iff_coeff_zero _ _).2 fun i hi => ?_
    rw [coeff_damage, if_neg]
    intro hmem
    obtain ⟨i', hi', rfl⟩ := Finset.mem_image.1 hmem
    have := (hj i' hi').2
    have := (hj i' hi').1
    omega)
  obtain ⟨i, hi⟩ := hne
  have hcoeff := congrArg (fun q => q.coeff (i - j)) hsmall
  simp only [coeff_damage, coeff_zero] at hcoeff
  rw [if_pos (Finset.mem_image.2 ⟨i, hi, rfl⟩)] at hcoeff
  exact one_ne_zero hcoeff

theorem eval_generator (p : BitVec w) :
    (generator p).eval 1 = 1 + ∑ i ∈ Finset.range w, if p.getLsbD i then 1 else 0 := by
  rw [generator, eval_add, eval_pow, eval_X, one_pow, toPoly, eval_finsetSum]
  refine congrArg (1 + ·) (Finset.sum_congr rfl fun i _ => ?_)
  split <;> simp

/-- An odd number of bits, where the generator has the root 1. -/
theorem not_dvd_odd (hp : (generator p).eval 1 = 0) (hodd : Odd errors.card) : ¬ generator p ∣ damage errors := by
  rintro ⟨q, hq⟩
  have heval := congrArg (eval 1) hq
  rw [eval_mul, hp, zero_mul, damage, eval_finsetSum] at heval
  simp only [eval_pow, eval_X, one_pow, Finset.sum_const, nsmul_eq_mul, mul_one] at heval
  exact (Nat.not_even_iff_odd.2 hodd) (ZMod.natCast_eq_zero_iff_even.1 heval)

theorem toPoly_one (hw : 0 < w) : toPoly (1 : BitVec w) = 1 := by
  ext i
  rw [coeff_toPoly, coeff_one]
  simp [BitVec.getLsbD_one, hw]

/-- A pair of bits at a distance after which the register has not come round. -/
theorem not_dvd_pair (hw : 0 < w) (hp : p.getLsbD 0 = true) (i : ℕ) {d : ℕ} (hd : 0 < d) (hturns : turns p d 1 ≠ 1) :
    ¬ generator p ∣ damage {i, i + d} := by
  intro hdvd
  have hsplit : damage {i, i + d} = X ^ i * (X ^ d - 1) := by
    rw [damage, Finset.sum_pair (by omega), mul_sub, ← pow_add, mul_one, CharTwo.sub_eq_add, add_comm]
  rw [hsplit] at hdvd
  have hround := AdjoinRoot.mk_eq_mk.2 ((coprime_X_pow hw hp i).dvd_of_dvd_mul_left hdvd)
  refine hturns (toPoly_inj ?_)
  have hmk := mk_turns p 1 d
  rw [toPoly_one hw, mul_one, hround] at hmk
  -- both are remainders
  have hsmall := eq_zero_of_dvd_of_degree_lt (AdjoinRoot.mk_eq_mk.1 hmk) (by
    rw [degree_generator, ← toPoly_one hw, CharTwo.sub_eq_add, ← toPoly_xor]
    exact degree_toPoly _)
  rw [toPoly_one hw]
  exact sub_eq_zero.1 hsmall

/-- Whether the register does not come round to 1 in `n` turns. -/
def apart (p : BitVec w) : ℕ → BitVec w → Bool
  | 0, _ => true
  | n + 1, c => turn p c != 1 && apart p n (turn p c)

theorem apart_turns {n : ℕ} {c : BitVec w} (h : apart p n c = true) {d : ℕ} (hd : 0 < d) (hdn : d ≤ n) :
    turns p d c ≠ 1 := by
  induction n generalizing c d with
  | zero => omega
  | succ n ih =>
    obtain ⟨hne, hrest⟩ := (Bool.and_eq_true _ _).mp h
    obtain ⟨d, rfl⟩ := Nat.exists_eq_succ_of_ne_zero hd.ne'
    cases d with
    | zero => exact bne_iff_ne.1 hne
    | succ d => exact ih hrest (Nat.succ_pos d) (Nat.le_of_succ_le_succ hdn)

end UserFace800.Lib.Crc
