import Mathlib.Data.List.Basic
import Mathlib.Data.Nat.ModEq
import Mathlib.Algebra.Order.Floor.Div
/-!
# Even distribution

Of every `n` places in a row `f` are taken, spread as evenly as whole places allow: place
`i` is taken when `⌊i f / n⌋` steps up. A count of places telescopes (`taken_add`), so any
`w` places in a row, wherever they begin, have `⌊w f / n⌋` or `⌈w f / n⌉` taken ones
(`taken_even`), and the pattern comes again every `n` places (`isTaken_mod`).
-/

namespace UserFace800.Lib.Bresenham

variable {n f : ℕ}

/-- Position `i` is one of the `f` taken of `n`, spread evenly. -/
def IsTaken (n f i : ℕ) : Prop := i * f / n < (i + 1) * f / n

instance (n f i : ℕ) : Decidable (IsTaken n f i) := inferInstanceAs (Decidable (_ < _))

/-- How many of `w` places from the `a`-th on are taken. -/
def taken (n f a w : ℕ) : ℕ := (List.range w).countP fun k => IsTaken n f (a + k)

theorem div_succ (hn : 0 < n) (hf : f ≤ n) (i : ℕ) : (i + 1) * f / n = i * f / n + if IsTaken n f i then 1 else 0 := by
  have hmul : (i + 1) * f = i * f + f := Nat.succ_mul i f
  have hup : (i + 1) * f / n ≤ i * f / n + 1 := by
    rw [hmul, ← Nat.add_div_right _ hn]
    exact Nat.div_le_div_right (Nat.add_le_add_left hf _)
  have hmono : i * f / n ≤ (i + 1) * f / n := Nat.div_le_div_right (hmul ▸ Nat.le_add_right _ _)
  split
  · rename_i h
    exact le_antisymm hup h
  · rename_i h
    exact le_antisymm (Nat.not_lt.1 h) hmono

theorem taken_succ (n f a w : ℕ) : taken n f a (w + 1) = taken n f a w + if IsTaken n f (a + w) then 1 else 0 := by
  unfold taken
  rw [List.range_succ, List.countP_append, List.countP_singleton]
  simp only [decide_eq_true_eq]

/-- The count telescopes. -/
theorem taken_add (hn : 0 < n) (hf : f ≤ n) (a w : ℕ) : a * f / n + taken n f a w = (a + w) * f / n := by
  induction w with
  | zero => rfl
  | succ w ih => rw [taken_succ, ← Nat.add_assoc, ih, ← Nat.add_assoc, div_succ hn hf (a + w)]

theorem taken_zero (hn : 0 < n) (hf : f ≤ n) (i : ℕ) : taken n f 0 i = i * f / n := by
  have h := taken_add hn hf 0 i
  rw [Nat.zero_mul, Nat.zero_div, Nat.zero_add, Nat.zero_add] at h
  exact h

/-- Wherever the places begin, the count is the floor or the ceiling of their share. -/
theorem taken_even (hn : 0 < n) (hf : f ≤ n) (a w : ℕ) :
    taken n f a w = w * f / n ∨ taken n f a w = w * f ⌈/⌉ n := by
  have h := taken_add hn hf a w
  rw [Nat.add_mul, Nat.add_div hn] at h
  split at h
  · right
    rename_i hcarry
    have hpos : 0 < w * f % n := by
      have := Nat.mod_lt (a * f) hn
      omega
    have hceil : (w * f + n - 1) / n = w * f / n + 1 := by
      have hlt := Nat.mod_lt (w * f) hn
      have hsplit := Nat.div_add_mod (w * f) n
      have hup : w * f + n - 1 = n * (w * f / n + 1) + (w * f % n - 1) := by
        have hnext : n * (w * f / n + 1) = n * (w * f / n) + n := Nat.mul_succ _ _
        omega
      have hrest : (w * f % n - 1) / n = 0 := Nat.div_eq_of_lt (by omega)
      rw [hup, Nat.mul_add_div hn, hrest]
    rw [Nat.ceilDiv_eq_add_pred_div, hceil]
    omega
  · left
    omega

/-- The pattern comes again after `n` places. -/
theorem isTaken_mod (hn : 0 < n) (p : ℕ) : IsTaken n f (p % n) ↔ IsTaken n f p := by
  have hsplit : ∀ i, (n * (p / n) + i) * f / n = p / n * f + i * f / n := by
    intro i
    rw [Nat.add_mul, Nat.mul_assoc, Nat.mul_add_div hn]
  have hp := hsplit (p % n)
  have hp1 := hsplit (p % n + 1)
  rw [← Nat.add_assoc] at hp1
  rw [Nat.div_add_mod] at hp hp1
  unfold IsTaken
  rw [hp, hp1]
  exact Nat.add_lt_add_iff_left.symm

/-- Where at least half of the places are taken, no two free ones follow each other. -/
theorem isTaken_or_next (hn : 0 < n) (hf : f ≤ n) (hhalf : n ≤ 2 * f) (p : ℕ) :
    IsTaken n f p ∨ IsTaken n f (p + 1) := by
  have hfloor : 1 ≤ 2 * f / n := (Nat.one_le_div_iff hn).2 hhalf
  have hceil : 2 * f / n ≤ 2 * f ⌈/⌉ n := by
    rw [Nat.ceilDiv_eq_add_pred_div]
    exact Nat.div_le_div_right (by omega)
  have htwo : 1 ≤ taken n f p 2 := by
    rcases taken_even hn hf p 2 with h | h <;> omega
  rw [taken_succ, taken_succ] at htwo
  by_contra hno
  rw [not_or] at hno
  rw [Nat.add_zero, if_neg hno.1, if_neg hno.2] at htwo
  exact absurd htwo (Nat.not_succ_le_zero 0)

end UserFace800.Lib.Bresenham
