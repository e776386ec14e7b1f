import UserFace800.Lib.Bresenham
import UserFace800.Session.TxPacing
/-!
# The blocking cadence

Of the packets of the transmit ring `full_count` are full, and dext and daemon each ask
`is_full_packet` which. In 32 bits that is the even distribution of `Bresenham` as long as
`ring_len * full_count` fits (`isFullPacket_taken`), so it is exact over the ring and even
over every window of it, across the wrap too (`cadence_even`).
-/
open UserFace800.Lib UserFace800.Protocol
open UserFace800.Lib.Bresenham (IsTaken taken)
open UserFace800.Dext (isFullPacket isFullPacket_taken isFullPacket_mod)

namespace UserFace800.Session

variable {n f : ℕ}

/-- The full packets among the first `i` of a ring of `n`, of which `f` are to be full. -/
def fullAmong (n f i : ℕ) : ℕ := (List.range i).countP fun k => isFullPacket k f n

/-- The full packets in a window of `w` that begins at `a` and may go round the ring. -/
def fullInWindow (n f a w : ℕ) : ℕ := (List.range w).countP fun k => isFullPacket ((a + k) % n) f n

/-- The full packets are spread evenly: around the ring, from its start, and in every window. -/
structure Cadence (n f : ℕ) : Prop where
  ring : fullAmong n f n = f
  first : ∀ i ≤ n, fullAmong n f i = i * f / n
  even : ∀ a < n, ∀ w, fullInWindow n f a w = w * f / n ∨ fullInWindow n f a w = w * f ⌈/⌉ n
  neighbours : n ≤ 2 * f → ∀ i < n, isFullPacket i f n = true ∨ isFullPacket ((i + 1) % n) f n = true

theorem fullInWindow_eq (hn : 0 < n) (hnf : n * f < 2 ^ 32) (a w : ℕ) : fullInWindow n f a w = taken n f a w := by
  unfold fullInWindow taken
  refine List.countP_congr fun k _ => ?_
  rw [isFullPacket_mod hn hnf, decide_eq_true_iff]

theorem fullAmong_eq (hnf : n * f < 2 ^ 32) {i : ℕ} (hi : i ≤ n) : fullAmong n f i = taken n f 0 i := by
  unfold fullAmong taken
  refine List.countP_congr fun k hk => ?_
  rw [isFullPacket_taken ((List.mem_range.1 hk).trans_le hi) hnf, Nat.zero_add, decide_eq_true_iff]

theorem cadence (hn : 0 < n) (hf : f ≤ n) (hnf : n * f < 2 ^ 32) : Cadence n f := by
  have hfirst : ∀ i ≤ n, fullAmong n f i = i * f / n := by
    intro i hi
    rw [fullAmong_eq hnf hi, Bresenham.taken_zero hn hf]
  refine ⟨?_, hfirst, fun a _ w => ?_, fun hhalf i hi => ?_⟩
  · rw [hfirst n (le_refl n), Nat.mul_div_cancel_left f hn]
  · rw [fullInWindow_eq hn hnf]
    exact Bresenham.taken_even hn hf a w
  · rw [isFullPacket_taken hi hnf, isFullPacket_mod hn hnf]
    exact Bresenham.isTaken_or_next hn hf hhalf i

theorem blockingFullCount_frames {rate : Quadlet} {speed : Speed} (hfits : rate.toNat * kBlockingRingLen < 2 ^ 32)
    (hwhole : 8000 * framesPerPacket speed ∣ rate.toNat * kBlockingRingLen) :
    blockingFullCount rate speed * framesPerPacket speed = rate.toNat * kBlockingRingLen / 8000 := by
  have hprod : (rate * BitVec.ofNat 32 kBlockingRingLen).toNat = rate.toNat * kBlockingRingLen := by
    rw [BitVec.toNat_mul, BitVec.toNat_ofNat, show kBlockingRingLen % 2 ^ 32 = kBlockingRingLen from rfl]
    exact Nat.mod_eq_of_lt hfits
  obtain ⟨k, hk⟩ := hwhole
  have hpos : 0 < 8000 * framesPerPacket speed := by cases speed <;> decide
  rw [blockingFullCount, hprod, hk, Nat.mul_div_cancel_left k hpos, Nat.mul_assoc,
    Nat.mul_div_cancel_left _ (by decide), Nat.mul_comm]

/-- The cadence of every ring, and the frames a ring carries at a rate that fills it evenly. -/
theorem cadence_even : (∀ n f, 0 < n → f ≤ n → n * f < 2 ^ 32 → Cadence n f) ∧
    ∀ (rate : Quadlet) (speed : Speed), rate.toNat * kBlockingRingLen < 2 ^ 32 →
      8000 * framesPerPacket speed ∣ rate.toNat * kBlockingRingLen →
      blockingFullCount rate speed * framesPerPacket speed = rate.toNat * kBlockingRingLen / 8000 ∧
      (blockingFullCount rate speed ≤ kBlockingRingLen →
        fullAmong kBlockingRingLen (blockingFullCount rate speed) kBlockingRingLen * framesPerPacket speed =
          rate.toNat * kBlockingRingLen / 8000) := by
  refine ⟨fun n f hn hf hnf => cadence hn hf hnf, fun rate speed hfits hwhole => ?_⟩
  have hframes := blockingFullCount_frames hfits hwhole
  refine ⟨hframes, fun hle => ?_⟩
  have hlen : 0 < kBlockingRingLen ∧ kBlockingRingLen * kBlockingRingLen < 2 ^ 32 := by decide
  have hring := (cadence hlen.1 hle ((Nat.mul_le_mul_left kBlockingRingLen hle).trans_lt hlen.2)).ring
  rw [hring, hframes]

/-- 44.1 kHz: 441 packets of 640, and 3528 frames. -/
theorem cadence_even_44k : Cadence kBlockingRingLen 441 ∧
    fullAmong kBlockingRingLen 441 kBlockingRingLen * 8 = 3528 := by
  have hcount : blockingFullCount 44100 .x1 = 441 := by decide
  have hframes := (cadence_even.2 44100 .x1 (by decide) (by decide)).2 (by decide)
  have hsum : (44100 : Quadlet).toNat * kBlockingRingLen / 8000 = 3528 := by decide
  rw [hcount, hsum, show framesPerPacket .x1 = 8 from rfl] at hframes
  exact ⟨cadence_even.1 kBlockingRingLen 441 (by decide) (by decide) (by decide), hframes⟩

end UserFace800.Session
