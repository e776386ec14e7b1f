import Mathlib.Data.List.Basic
import Mathlib.Data.List.Range
import Mathlib.Order.Lattice
/-!
# Frames through slots

A producer packs a stream of frames into slots of `N` frames and commits each as
it fills; a consumer takes the committed slots one by one and unpacks them. Each
side has a slot of its own in hand and how far it has come in it. `Packed` says
what the producer has sent is what the slots hold and the one in hand; `Unpacked`
says the same of what the consumer has received. One lemma per call of either
side, and `prefix_sent`: what is received is what was sent, from the start.

A slot is anything with frames in it (`frameAt`).
-/

namespace UserFace800.Lib.FrameQueue

variable {σ φ : Type} {frameAt : σ → ℕ → φ} {N : ℕ}

/-- The first `n` frames of a slot. -/
def part (frameAt : σ → ℕ → φ) (s : σ) (n : ℕ) : List φ := (List.range n).map (frameAt s)

/-- The frames of full slots. -/
def frames (frameAt : σ → ℕ → φ) (N : ℕ) (slots : List σ) : List φ := slots.flatMap fun s => part frameAt s N

/-- The first `n` frames of the slot in hand, if there is one. -/
def inHand (frameAt : σ → ℕ → φ) : Option σ → ℕ → List φ
  | some s, n => part frameAt s n
  | none, _ => []

theorem part_succ (s : σ) (n : ℕ) : part frameAt s (n + 1) = part frameAt s n ++ [frameAt s n] := by
  simp [part, List.range_succ]

theorem prefix_part (s : σ) {n m : ℕ} (h : n ≤ m) : part frameAt s n <+: part frameAt s m := by
  obtain ⟨k, rfl⟩ := Nat.exists_eq_add_of_le h
  unfold part
  rw [List.range_add, List.map_append]
  exact List.prefix_append _ _

theorem part_congr {s s' : σ} {n : ℕ} (h : ∀ p < n, frameAt s' p = frameAt s p) :
    part frameAt s' n = part frameAt s n :=
  List.map_congr_left fun p hp => h p (List.mem_range.1 hp)

theorem frames_append (l l' : List σ) : frames frameAt N (l ++ l') = frames frameAt N l ++ frames frameAt N l' :=
  List.flatMap_append

theorem frames_concat (l : List σ) (s : σ) : frames frameAt N (l ++ [s]) = frames frameAt N l ++ part frameAt s N := by
  rw [frames_append]
  simp [frames]

theorem frames_take_succ {l : List σ} {n : ℕ} {s : σ} (h : l[n]? = some s) :
    frames frameAt N (l.take (n + 1)) = frames frameAt N (l.take n) ++ part frameAt s N := by
  obtain ⟨hlt, rfl⟩ := List.getElem?_eq_some_iff.1 h
  rw [List.take_succ_eq_append_getElem hlt, frames_concat]

/-! ## The producer -/

/-- What was sent is in the slots committed and in the one in hand, in order. -/
structure Packed (frameAt : σ → ℕ → φ) (N : ℕ) (slots : List σ) (draft : Option σ) (wr : ℕ) (sent : List φ) : Prop where
  sent : sent = frames frameAt N slots ++ inHand frameAt draft wr
  room : ∀ d, draft = some d → wr < N

variable {slots : List σ} {wr : ℕ} {sent : List φ}

theorem Packed.init (wr : ℕ) : Packed frameAt N [] none wr [] := ⟨rfl, fun _ h => nomatch h⟩

theorem Packed.acquire (h : Packed frameAt N slots none wr sent) (hN : 0 < N) (d : σ) :
    Packed frameAt N slots (some d) 0 sent :=
  ⟨h.sent, fun _ _ => hN⟩

/-- A frame goes into the slot in hand, after those that are there. -/
theorem Packed.write {d d' : σ} (h : Packed frameAt N slots (some d) wr sent)
    (hd : ∀ p < wr, frameAt d' p = frameAt d p) :
    sent ++ [frameAt d' wr] = frames frameAt N slots ++ part frameAt d' (wr + 1) := by
  rw [part_succ, part_congr hd, h.sent, List.append_assoc]
  rfl

/-- A full slot is committed. -/
theorem Packed.commit {d : σ} (h : sent = frames frameAt N slots ++ part frameAt d N) (wr : ℕ) :
    Packed frameAt N (slots ++ [d]) none wr sent := by
  refine ⟨?_, fun _ h => nomatch h⟩
  rw [frames_concat, h]
  exact (List.append_nil _).symm

theorem Packed.frames_le {draft : Option σ} (h : Packed frameAt N slots draft wr sent) :
    frames frameAt N slots <+: sent := by
  rw [h.sent]
  exact List.prefix_append _ _

/-! ## The consumer -/

/-- What was received came from the slots taken and from the one held, in order. -/
structure Unpacked (frameAt : σ → ℕ → φ) (N : ℕ) (slots : List σ) (taken : ℕ) (held : Option σ) (rd : ℕ)
    (received : List φ) : Prop where
  received : received = frames frameAt N (slots.take taken) ++ inHand frameAt held rd
  le : taken ≤ slots.length
  holds : ∀ s, held = some s → slots[taken]? = some s ∧ rd ≤ N

variable {taken rd : ℕ} {held : Option σ} {received : List φ}

theorem Unpacked.init (slots : List σ) (rd : ℕ) : Unpacked frameAt N slots 0 none rd [] :=
  ⟨rfl, Nat.zero_le _, fun _ h => nomatch h⟩

/-- A commit of the producer's is behind what the consumer has come to. -/
theorem Unpacked.append (h : Unpacked frameAt N slots taken held rd received) (l : List σ) :
    Unpacked frameAt N (slots ++ l) taken held rd received := by
  refine ⟨?_, h.le.trans (by simp), fun s hs => ?_⟩
  · rw [List.take_append_of_le_length h.le]
    exact h.received
  · obtain ⟨hget, hrd⟩ := h.holds s hs
    exact ⟨by rw [List.getElem?_append_left (List.getElem?_eq_some_iff.1 hget).1, hget], hrd⟩

theorem Unpacked.acquire (h : Unpacked frameAt N slots taken none rd received) {s : σ} (hs : slots[taken]? = some s) :
    Unpacked frameAt N slots taken (some s) 0 received :=
  ⟨h.received, h.le, fun _ h => ⟨Option.some.inj h ▸ hs, Nat.zero_le _⟩⟩

/-- Without a slot in hand it does not matter how far in one the consumer was. -/
theorem Unpacked.dry (h : Unpacked frameAt N slots taken none rd received) (rd' : ℕ) :
    Unpacked frameAt N slots taken none rd' received :=
  ⟨h.received, h.le, fun _ h => nomatch h⟩

theorem Unpacked.read {s : σ} (h : Unpacked frameAt N slots taken (some s) rd received) (hrd : rd < N) :
    Unpacked frameAt N slots taken (some s) (rd + 1) (received ++ [frameAt s rd]) := by
  refine ⟨?_, h.le, fun _ hs => ⟨(h.holds _ hs).1, hrd⟩⟩
  rw [h.received, List.append_assoc]
  exact congrArg _ (part_succ s rd).symm

/-- A slot read to its end is given back. -/
theorem Unpacked.release {s : σ} (h : Unpacked frameAt N slots taken (some s) rd received) (hrd : N ≤ rd) (rd' : ℕ) :
    Unpacked frameAt N slots (taken + 1) none rd' received := by
  obtain ⟨hget, hle⟩ := h.holds s rfl
  have heq : rd = N := Nat.le_antisymm hle hrd
  refine ⟨?_, (List.getElem?_eq_some_iff.1 hget).1, fun _ h => nomatch h⟩
  rw [frames_take_succ hget, h.received, heq]
  exact (List.append_nil _).symm

theorem Unpacked.prefix_frames (h : Unpacked frameAt N slots taken held rd received) :
    received <+: frames frameAt N slots := by
  rw [h.received]
  cases held with
  | none =>
    rw [← List.take_append_drop taken slots, frames_append]
    simp [inHand]
  | some s =>
    obtain ⟨hget, hrd⟩ := h.holds s rfl
    have hslot : frames frameAt N (slots.take (taken + 1)) <+: frames frameAt N slots := by
      nth_rewrite 2 [← List.take_append_drop (taken + 1) slots]
      rw [frames_append]
      exact List.prefix_append _ _
    refine List.IsPrefix.trans ?_ hslot
    rw [frames_take_succ hget, List.prefix_append_right_inj]
    exact prefix_part s hrd

theorem prefix_sent {draft : Option σ} (hp : Packed frameAt N slots draft wr sent)
    (hu : Unpacked frameAt N slots taken held rd received) : received <+: sent :=
  hu.prefix_frames.trans hp.frames_le

end UserFace800.Lib.FrameQueue
