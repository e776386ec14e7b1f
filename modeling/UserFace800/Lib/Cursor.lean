import Mathlib.Data.List.Basic
import Mathlib.Data.Nat.ModEq
/-!
# Free-running ring cursors

A ring of `N = 2 ^ k` slots is addressed by free-running machine counters: a
cursor counts forever, wraps at its width, and its low bits pick the slot.
`cur w n` is the `w`-bit cursor after `n` increments. As long as two counts
differ by less than `2 ^ w`, subtraction and comparison of the cursors are those
of the counts (`cur_sub`, `cur_eq_iff`), and since `N` divides `2 ^ w` the slot
is that of the count (`index_cur`), so none of this ends at the wrap. Counts that
use one slot are whole laps apart (`lap_le`).
-/

namespace UserFace800.Lib.Cursor

/-- The `w`-bit cursor after `n` increments. -/
def cur (w n : ℕ) : BitVec w := BitVec.ofNat w n

/-- The slot a cursor addresses in a ring of `N` slots, `c & (N - 1)`. -/
def index (N : ℕ) [NeZero N] {w : ℕ} (c : BitVec w) : Fin N :=
  Fin.ofNat N (c &&& BitVec.ofNat w (N - 1)).toNat

theorem cur_succ (w n : ℕ) : cur w n + 1 = cur w (n + 1) := by
  apply BitVec.eq_of_toNat_eq
  simp [cur, BitVec.toNat_add]

theorem cur_toNat {w n : ℕ} (h : n < 2 ^ w) : (cur w n).toNat = n := by
  simp [cur, Nat.mod_eq_of_lt h]

/-- The distance of two cursors is that of the counts. -/
theorem cur_sub {w m n : ℕ} (h : m ≤ n) (hlt : n - m < 2 ^ w) : (cur w n - cur w m).toNat = n - m := by
  have e : cur w n = cur w m + cur w (n - m) := by
    apply BitVec.eq_of_toNat_eq
    simp [cur, BitVec.toNat_add, Nat.add_sub_cancel' h]
  rw [e, BitVec.add_comm, BitVec.add_sub_cancel, cur_toNat hlt]

theorem cur_eq_iff {w m n : ℕ} (h : m ≤ n) (hlt : n - m < 2 ^ w) : cur w m = cur w n ↔ m = n := by
  constructor
  · intro e
    have := cur_sub h hlt
    rw [e, BitVec.sub_self] at this
    simp at this
    omega
  · rintro rfl; rfl

/-- The slot of a cursor is the count modulo the ring. -/
theorem index_cur {N k w : ℕ} [NeZero N] (hN : N = 2 ^ k) (hk : k ≤ w) (n : ℕ) :
    index N (cur w n) = Fin.ofNat N n := by
  have hp : 2 ^ k ≤ 2 ^ w := Nat.pow_le_pow_right (by decide) hk
  have hpos := Nat.two_pow_pos k
  have hm : (BitVec.ofNat w (N - 1)).toNat = 2 ^ k - 1 := by
    rw [BitVec.toNat_ofNat, hN, Nat.mod_eq_of_lt (by omega)]
  apply Fin.ext
  simp only [index, cur, Fin.val_ofNat, BitVec.toNat_and, hm, BitVec.toNat_ofNat, Nat.and_two_pow_sub_one_eq_mod]
  rw [hN, Nat.mod_mod, Nat.mod_mod_of_dvd _ (Nat.pow_dvd_pow 2 hk)]

/-- Two counts on one slot are a whole lap apart. -/
theorem lap_le {N m n : ℕ} (h : m % N = n % N) (hlt : m < n) : m + N ≤ n := by
  have hd : N ∣ n - m := (Nat.modEq_iff_dvd' hlt.le).1 h
  have := Nat.le_of_dvd (Nat.sub_pos_of_lt hlt) hd
  omega

/-- Two counts less than a lap apart use different slots. -/
theorem ofNat_ne_of_lt {N m n : ℕ} [NeZero N] (h : m < n) (hn : n < m + N) : Fin.ofNat N m ≠ Fin.ofNat N n := by
  intro e
  have e' : m % N = n % N := by simpa using congrArg Fin.val e
  have := lap_le e' h
  omega

end UserFace800.Lib.Cursor
