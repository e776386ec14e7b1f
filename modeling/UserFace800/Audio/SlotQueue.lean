import UserFace800.Audio.Ring
import UserFace800.Lib.FrameQueue
/-!
# The ring, call by call

A queue of slots, as either side of a `Ring` sees it: what was committed, and how
many slots were given back. Each call of `Ring` is one operation. `step_queue`
and the two lemmas on the acquires say the ring's single accesses do just that:
an acquire takes effect at its load of the other side's cursor, a commit at its
`fetch_add`, and no other access is seen in the queue.
-/
open UserFace800.Lib UserFace800.Lib.Cursor

namespace UserFace800.Audio

/-- The slots committed so far, and how many of them are taken. -/
structure SlotQueue where
  committed : List Slot := []
  taken : ℕ := 0

namespace SlotQueue

/-- Whether `acquireWrite` returns a slot. -/
def acquireWrite (q : SlotQueue) : Bool := q.committed.length - q.taken < kSlots

/-- The slot `acquireRead` returns. -/
def acquireRead (q : SlotQueue) : Option Slot := q.committed[q.taken]?

/-- `commitWrite` of a slot. -/
def commitWrite (q : SlotQueue) (s : Slot) : SlotQueue := { q with committed := q.committed ++ [s] }

/-- The slot read is given back. -/
def commitRead (q : SlotQueue) : SlotQueue := { q with taken := q.taken + 1 }

end SlotQueue

/-! ## The ring is this queue -/

/-- The queue a ring in memory stands for. -/
def Sys.queue (s : Sys) : SlotQueue := ⟨s.hist.committed, s.hist.taken.length⟩

theorem stepProducer_queue {s t : Sys} {a : Act} (h : stepProducer s a = some t) :
    (a = .commitWrite ∧ ∃ i, s.prod = .filling i ∧ t.queue = s.queue.commitWrite (s.ring.slot i)) ∨
    t.queue = s.queue := by
  cases a with
  | commitWrite =>
    simp only [stepProducer] at h
    split at h <;> cases h
    rename_i i hp
    exact .inl ⟨rfl, i, hp, rfl⟩
  | loadTail =>
    simp only [stepProducer] at h
    split at h
    · split at h <;> cases h <;> exact .inr rfl
    · cases h
  | loadHead | countOverrun | store f v =>
    simp only [stepProducer] at h
    split at h <;> cases h
    exact .inr rfl
  | _ => simp [stepProducer] at h

theorem stepConsumer_queue {s t : Sys} {a : Act} (h : stepConsumer s a = some t) :
    (a = .commitRead ∧ t.queue = s.queue.commitRead) ∨ t.queue = s.queue := by
  cases a with
  | commitRead =>
    simp only [stepConsumer] at h
    split at h <;> cases h
    refine .inl ⟨rfl, ?_⟩
    simp only [Sys.queue, SlotQueue.commitRead, List.length_append, List.length_singleton]
  | loadOtherHead =>
    simp only [stepConsumer] at h
    split at h
    · split at h <;> cases h <;> exact .inr rfl
    · cases h
  | loadOwnTail | countUnderrun | load f =>
    simp only [stepConsumer] at h
    split at h <;> cases h
    exact .inr rfl
  | _ => simp [stepConsumer] at h

/-- Only the two commits show in the queue, and a commit of the producer's adds
the slot as it was filled. -/
theorem step_queue {s t : Sys} {a : Act} (h : step s a = some t) :
    (a = .commitWrite ∧ ∃ i, s.prod = .filling i ∧ t.queue = s.queue.commitWrite (s.ring.slot i)) ∨
      (a = .commitRead ∧ t.queue = s.queue.commitRead) ∨ t.queue = s.queue := by
  rcases Option.or_eq_some_iff.1 h with h | ⟨-, h⟩
  · rcases stepProducer_queue h with hc | hq
    · exact .inl hc
    · exact .inr (.inr hq)
  · exact .inr (stepConsumer_queue h)

/-- The producer has a slot to fill exactly if there is room when it loads the
consumer's cursor. -/
theorem Inv.acquireWrite {s t : Sys} (hi : Inv s) {c : BitVec 64} (hp : s.prod = .gotHead c)
    (h : step s .loadTail = some t) :
    t.queue = s.queue ∧ ((∃ i, t.prod = .filling i) ↔ s.queue.acquireWrite = true) := by
  have hK : kSlots = 8 := rfl
  have hc := hi.prod
  rw [hp] at hc
  have hc : c = cur 64 s.hist.committed.length := hc
  have hle := hi.le
  have hcap := hi.cap
  rcases Option.or_eq_some_iff.1 h with h | ⟨-, h⟩
  · simp only [stepProducer, hp] at h
    rw [hc, hi.tail, hi.slots, cur_sub hle (by omega)] at h
    have hroom : s.queue.acquireWrite = true ↔ s.hist.committed.length - s.hist.taken.length < kSlots :=
      decide_eq_true_iff
    rw [hroom]
    split at h
    · rename_i hfull
      cases h
      refine ⟨rfl, ?_, fun hn => by omega⟩
      rintro ⟨i, hi⟩
      cases hi
    · rename_i hn
      cases h
      exact ⟨rfl, ⟨fun _ => by omega, fun _ => ⟨_, rfl⟩⟩⟩
  · simp [stepConsumer] at h

/-- The consumer has a slot to read exactly if one is committed when it loads the
producer's cursor; it is that slot, and stays so while it is read. -/
theorem Inv.acquireRead {s t : Sys} (hi : Inv s) {c : BitVec 64} (hp : s.cons = .gotTail c)
    (h : step s .loadOtherHead = some t) :
    t.queue = s.queue ∧ ((∃ j, t.cons = .reading j) ↔ (s.queue.acquireRead).isSome = true) := by
  have hK : kSlots = 8 := rfl
  have hc := hi.cons
  rw [hp] at hc
  have hc : c = cur 64 s.hist.taken.length := hc
  have hle := hi.le
  have hcap := hi.cap
  rcases Option.or_eq_some_iff.1 h with h | ⟨-, h⟩
  · simp [stepProducer] at h
  · simp only [stepConsumer, hp] at h
    simp only [hc, hi.head, cur_eq_iff hle (show _ < 2 ^ 64 by omega)] at h
    have hsome : (s.queue.acquireRead).isSome = true ↔ s.hist.taken.length < s.hist.committed.length := by
      simp [SlotQueue.acquireRead, Sys.queue]
    rw [hsome]
    split at h
    · rename_i hempty
      cases h
      refine ⟨rfl, ?_, fun hn => by omega⟩
      rintro ⟨i, hi⟩
      cases hi
    · rename_i hn
      cases h
      exact ⟨rfl, ⟨fun _ => by omega, fun _ => ⟨_, rfl⟩⟩⟩

theorem Inv.held {s : Sys} (hi : Inv s) {j : Fin kSlots} (hc : s.cons = .reading j) :
    s.queue.acquireRead = some (s.ring.slot j) :=
  hi.reading hc

/-! ## Frames -/

/-- A frame at full ring width. -/
abbrev Frame := Fin kMaxChannels → BitVec 32

namespace Slot

/-- The sample at an index; a slot is read within its bounds. -/
def sample (s : Slot) (i : ℕ) : BitVec 32 :=
  if h : i < kFramesPerSlot * kMaxChannels then s.audio ⟨i, h⟩ else 0

/-- Frame `p` of a slot of full-width frames. -/
def frame (s : Slot) (p : ℕ) : Frame := fun c => s.sample (p * kMaxChannels + c)

/-- The `memcpy` of one frame into a slot. -/
def setFrame (s : Slot) (p : ℕ) (x : Frame) : Slot :=
  { s with audio := fun i =>
      if i.1 / kMaxChannels = p then x ⟨i.1 % kMaxChannels, Nat.mod_lt _ (by decide)⟩ else s.audio i }

theorem frame_setFrame_self (s : Slot) {p : ℕ} (hp : p < kFramesPerSlot) (x : Frame) :
    (s.setFrame p x).frame p = x := by
  funext c
  have hc := c.2
  have hlt : p * kMaxChannels + c < kFramesPerSlot * kMaxChannels := by
    have : (p + 1) * kMaxChannels ≤ kFramesPerSlot * kMaxChannels := Nat.mul_le_mul_right _ hp
    rw [Nat.succ_mul] at this
    omega
  have hdiv : (p * kMaxChannels + c) / kMaxChannels = p := by
    rw [Nat.add_comm, Nat.add_mul_div_right _ _ (by decide), Nat.div_eq_of_lt hc, Nat.zero_add]
  have hmod : (p * kMaxChannels + c) % kMaxChannels = c := by
    rw [Nat.add_comm, Nat.add_mul_mod_self_right, Nat.mod_eq_of_lt hc]
  simp only [frame, sample, dif_pos hlt, setFrame, hdiv, if_true, hmod]

theorem frame_setFrame_ne (s : Slot) {p q : ℕ} (hq : q ≠ p) (x : Frame) : (s.setFrame p x).frame q = s.frame q := by
  funext c
  have hdiv : (q * kMaxChannels + c) / kMaxChannels = q := by
    rw [Nat.add_comm, Nat.add_mul_div_right _ _ (by decide), Nat.div_eq_of_lt c.2, Nat.zero_add]
  simp only [frame, sample, setFrame, hdiv, if_neg hq]

end Slot

end UserFace800.Audio
