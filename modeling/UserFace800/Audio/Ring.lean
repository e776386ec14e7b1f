import UserFace800.Lib.Run
import UserFace800.Lib.Cursor
/-!
# The shared audio ring

`Ring` of `uf_shm_ring.hpp`: one producer, one consumer, eight slots, two
free-running cursors. Every atomic load, store and read-modify-write and every
access to a slot's words is a step of its own, so each side works from the copy
of the other's cursor it loaded, however long ago. `step` is the system of both
sides; the history it carries (the slots committed, the slots given back, the
words read, the acquires that returned null) is what the theorems speak about
and is never read by a step.
-/
open UserFace800.Lib UserFace800.Lib.Cursor

namespace UserFace800.Audio

/-- The FF800's channels at single speed. -/
def kMaxChannels : ℕ := 28
/-- The frames a slot has room for. -/
def kFramesPerSlot : ℕ := 512
/-- The slots of a ring. -/
abbrev kSlots : ℕ := 8

/-- A word of a slot. -/
inductive SlotField where
  | frameCount
  | channelCount
  | audio (i : Fin (kFramesPerSlot * kMaxChannels))
  deriving DecidableEq

/-- A slot, `frameCount` valid frames of `channelCount` samples, frame-major. -/
structure Slot where
  frameCount : BitVec 32
  channelCount : BitVec 32
  audio : Fin (kFramesPerSlot * kMaxChannels) → BitVec 32

/-- A load of one word of a slot. -/
def Slot.get (s : Slot) : SlotField → BitVec 32
  | .frameCount => s.frameCount
  | .channelCount => s.channelCount
  | .audio i => s.audio i

/-- A store to one word of a slot. -/
def Slot.set (s : Slot) (v : BitVec 32) : SlotField → Slot
  | .frameCount => { s with frameCount := v }
  | .channelCount => { s with channelCount := v }
  | .audio i => { s with audio := Function.update s.audio i v }

/-- The mapped ring: `head` is the producer's cursor, `tail` the consumer's. -/
structure Ring where
  slots : BitVec 32
  head : BitVec 64
  tail : BitVec 64
  overruns : BitVec 32
  underruns : BitVec 32
  slot : Fin kSlots → Slot

/-- `Ring::init`, which leaves the slots as the mapping has them. -/
def Ring.init (slot : Fin kSlots → Slot) : Ring := ⟨BitVec.ofNat 32 kSlots, 0, 0, 0, 0, slot⟩

/-- Where the producer is: in `acquireWrite` after its load of `head`, about to
count an overrun, or filling the slot it was handed. -/
inductive Producer where
  | idle
  | gotHead (h : BitVec 64)
  | full
  | filling (i : Fin kSlots)

/-- Where the consumer is, the mirror image. -/
inductive Consumer where
  | idle
  | gotTail (t : BitVec 64)
  | empty
  | reading (i : Fin kSlots)

/-- What happened so far. A word read is recorded with the number of slots the
consumer had given back before. -/
structure History where
  committed : List Slot := []
  taken : List Slot := []
  seen : List (ℕ × SlotField × BitVec 32) := []
  nullWrites : ℕ := 0
  nullReads : ℕ := 0

/-- The ring, where each side is, and what has happened so far. -/
structure Sys where
  ring : Ring
  prod : Producer
  cons : Consumer
  hist : History

/-- One access of the producer or of the consumer. -/
inductive Act where
  | loadHead
  | loadTail
  | countOverrun
  | store (f : SlotField) (v : BitVec 32)
  | commitWrite
  | loadOwnTail
  | loadOtherHead
  | countUnderrun
  | load (f : SlotField)
  | commitRead
  deriving DecidableEq

/-- After `init`, with both sides idle. -/
def Sys.init (slot : Fin kSlots → Slot) : Sys := ⟨Ring.init slot, .idle, .idle, {}⟩

/-- The producer's steps: `acquireWrite`, filling the slot, `commitWrite`. -/
def stepProducer (s : Sys) : Act → Option Sys
  | .loadHead => match s.prod with
    | .idle => some { s with prod := .gotHead s.ring.head }
    | _ => none
  | .loadTail => match s.prod with
    | .gotHead h =>
      if (h - s.ring.tail).toNat ≥ s.ring.slots.toNat then some { s with prod := .full }
      else some { s with prod := .filling (index kSlots h) }
    | _ => none
  | .countOverrun => match s.prod with
    | .full => some { s with
        ring := { s.ring with overruns := s.ring.overruns + 1 }, prod := .idle,
        hist := { s.hist with nullWrites := s.hist.nullWrites + 1 } }
    | _ => none
  | .store f v => match s.prod with
    | .filling i => some { s with
        ring := { s.ring with slot := Function.update s.ring.slot i ((s.ring.slot i).set v f) } }
    | _ => none
  | .commitWrite => match s.prod with
    | .filling i => some { s with
        ring := { s.ring with head := s.ring.head + 1 }, prod := .idle,
        hist := { s.hist with committed := s.hist.committed ++ [s.ring.slot i] } }
    | _ => none
  | _ => none

/-- The consumer's steps: `acquireRead`, reading the slot, `commitRead`. -/
def stepConsumer (s : Sys) : Act → Option Sys
  | .loadOwnTail => match s.cons with
    | .idle => some { s with cons := .gotTail s.ring.tail }
    | _ => none
  | .loadOtherHead => match s.cons with
    | .gotTail t =>
      if t = s.ring.head then some { s with cons := .empty }
      else some { s with cons := .reading (index kSlots t) }
    | _ => none
  | .countUnderrun => match s.cons with
    | .empty => some { s with
        ring := { s.ring with underruns := s.ring.underruns + 1 }, cons := .idle,
        hist := { s.hist with nullReads := s.hist.nullReads + 1 } }
    | _ => none
  | .load f => match s.cons with
    | .reading i => some { s with
        hist := { s.hist with seen := s.hist.seen ++ [(s.hist.taken.length, f, (s.ring.slot i).get f)] } }
    | _ => none
  | .commitRead => match s.cons with
    | .reading i => some { s with
        ring := { s.ring with tail := s.ring.tail + 1 }, cons := .idle,
        hist := { s.hist with taken := s.hist.taken ++ [s.ring.slot i] } }
    | _ => none
  | _ => none

/-- An access of either side. -/
def step (s : Sys) (a : Act) : Option Sys := (stepProducer s a).or (stepConsumer s a)

/-! ## The invariant -/

/-- What the producer's local copy is good for: the `head` it loaded is still
`head`, and a slot it fills is the next one, with room for it. -/
def Producer.Ok (p : Producer) (written read : ℕ) : Prop :=
  match p with
  | .gotHead h => h = cur 64 written
  | .filling i => i = Fin.ofNat kSlots written ∧ written < read + kSlots
  | _ => True

/-- What the consumer's local copy is good for. -/
def Consumer.Ok (c : Consumer) (written read : ℕ) : Prop :=
  match c with
  | .gotTail t => t = cur 64 read
  | .reading i => i = Fin.ofNat kSlots read ∧ read < written
  | _ => True

/-- The cursors count the commits and the reads, and a slot between them is as it was committed. -/
structure Inv (s : Sys) : Prop where
  slots : s.ring.slots.toNat = kSlots
  head : s.ring.head = cur 64 s.hist.committed.length
  tail : s.ring.tail = cur 64 s.hist.taken.length
  le : s.hist.taken.length ≤ s.hist.committed.length
  cap : s.hist.committed.length ≤ s.hist.taken.length + kSlots
  prod : s.prod.Ok s.hist.committed.length s.hist.taken.length
  cons : s.cons.Ok s.hist.committed.length s.hist.taken.length
  /-- Every slot committed and not given back is still as committed. -/
  live : ∀ k c, s.hist.taken.length ≤ k → s.hist.committed[k]? = some c → s.ring.slot (Fin.ofNat kSlots k) = c
  taken : s.hist.taken = s.hist.committed.take s.hist.taken.length
  seen : ∀ e ∈ s.hist.seen, ∃ c, s.hist.committed[e.1]? = some c ∧ c.get e.2.1 = e.2.2
  overruns : s.ring.overruns = cur 32 s.hist.nullWrites
  underruns : s.ring.underruns = cur 32 s.hist.nullReads

theorem init_inv (slot : Fin kSlots → Slot) : Inv (Sys.init slot) := by
  constructor <;> simp [Sys.init, Ring.init, kSlots, cur, Producer.Ok, Consumer.Ok]

theorem kSlots_pow : kSlots = 2 ^ 3 := rfl

theorem producer_inv {s t : Sys} {a : Act} (hi : Inv s) (h : stepProducer s a = some t) : Inv t := by
  obtain ⟨hs, hh, ht, hle, hcap, hp, hc, hlive, htk, hseen, hov, hun⟩ := hi
  have hK : kSlots = 8 := rfl
  cases a with
  | loadHead =>
    simp only [stepProducer] at h
    split at h <;> cases h
    exact ⟨hs, hh, ht, hle, hcap, hh, hc, hlive, htk, hseen, hov, hun⟩
  | loadTail =>
    simp only [stepProducer] at h
    split at h
    · rename_i hd he
      rw [he] at hp
      have hp : hd = cur 64 s.hist.committed.length := hp
      subst hp
      rw [ht, hs, cur_sub hle (by omega)] at h
      split at h <;> cases h
      · exact ⟨hs, hh, ht, hle, hcap, trivial, hc, hlive, htk, hseen, hov, hun⟩
      · rename_i hroom
        have hlt : s.hist.committed.length < s.hist.taken.length + kSlots := by omega
        exact ⟨hs, hh, ht, hle, hcap, ⟨index_cur kSlots_pow (by decide) _, hlt⟩, hc, hlive, htk, hseen, hov, hun⟩
    · cases h
  | countOverrun =>
    simp only [stepProducer] at h
    split at h <;> cases h
    exact ⟨hs, hh, ht, hle, hcap, trivial, hc, hlive, htk, hseen, by rw [hov, cur_succ], hun⟩
  | store f v =>
    simp only [stepProducer] at h
    split at h <;> cases h
    rename_i i he
    rw [he] at hp
    obtain ⟨rfl, hroom⟩ := hp
    refine ⟨hs, hh, ht, hle, hcap, by rw [he]; exact ⟨rfl, hroom⟩, hc, fun k c (hk : s.hist.taken.length ≤ k) hkc => ?_,
      htk, hseen, hov, hun⟩
    -- the slot being filled is not one of the live ones
    have hlt : k < s.hist.committed.length := (List.getElem?_eq_some_iff.1 hkc).1
    exact (Function.update_of_ne (ofNat_ne_of_lt hlt (by omega)) _ _).trans (hlive k c hk hkc)
  | commitWrite =>
    simp only [stepProducer] at h
    split at h <;> cases h
    rename_i i he
    rw [he] at hp
    obtain ⟨rfl, hroom⟩ := hp
    refine ⟨hs, ?_, ht, ?_, ?_, trivial, ?_, fun k c hk hkc => ?_, ?_, fun e he => ?_, hov, hun⟩
    · simp only [List.length_append, List.length_singleton, hh, cur_succ]
    · simp only [List.length_append, List.length_singleton]; omega
    · simp only [List.length_append, List.length_singleton]; omega
    · simp only [List.length_append, List.length_singleton]
      revert hc
      cases s.cons <;> simp only [Consumer.Ok] <;> first | exact id | exact fun h => ⟨h.1, by omega⟩
    · rcases Nat.lt_or_ge k s.hist.committed.length with hlt | hge
      · rw [List.getElem?_append_left hlt] at hkc
        exact hlive k c hk hkc
      · rw [List.getElem?_append_right hge] at hkc
        obtain ⟨hk0, hkc⟩ := List.getElem?_eq_some_iff.1 hkc
        simp only [List.length_singleton] at hk0
        simp only [List.getElem_singleton] at hkc
        rw [show k = s.hist.committed.length by omega]
        exact hkc
    · rw [List.take_append_of_le_length hle]; exact htk
    · obtain ⟨c, hc1, hc2⟩ := hseen e he
      exact ⟨c, by rw [List.getElem?_append_left (List.getElem?_eq_some_iff.1 hc1).1]; exact hc1, hc2⟩
  | _ => simp [stepProducer] at h

theorem consumer_inv {s t : Sys} {a : Act} (hi : Inv s) (h : stepConsumer s a = some t) : Inv t := by
  obtain ⟨hs, hh, ht, hle, hcap, hp, hc, hlive, htk, hseen, hov, hun⟩ := hi
  have hK : kSlots = 8 := rfl
  cases a with
  | loadOwnTail =>
    simp only [stepConsumer] at h
    split at h <;> cases h
    exact ⟨hs, hh, ht, hle, hcap, hp, ht, hlive, htk, hseen, hov, hun⟩
  | loadOtherHead =>
    simp only [stepConsumer] at h
    split at h
    · rename_i tl he
      rw [he] at hc
      have hc : tl = cur 64 s.hist.taken.length := hc
      subst hc
      simp only [hh, cur_eq_iff hle (show _ < 2 ^ 64 by omega)] at h
      split at h <;> cases h
      · exact ⟨hs, hh, ht, hle, hcap, hp, trivial, hlive, htk, hseen, hov, hun⟩
      · rename_i hne
        have hlt : s.hist.taken.length < s.hist.committed.length := by omega
        exact ⟨hs, hh, ht, hle, hcap, hp, ⟨index_cur kSlots_pow (by decide) _, hlt⟩, hlive, htk, hseen, hov, hun⟩
    · cases h
  | countUnderrun =>
    simp only [stepConsumer] at h
    split at h <;> cases h
    exact ⟨hs, hh, ht, hle, hcap, hp, trivial, hlive, htk, hseen, hov, by rw [hun, cur_succ]⟩
  | load f =>
    simp only [stepConsumer] at h
    split at h <;> cases h
    rename_i i he
    obtain ⟨rfl, hlt⟩ : i = Fin.ofNat kSlots s.hist.taken.length ∧ _ := by rw [he] at hc; exact hc
    refine ⟨hs, hh, ht, hle, hcap, hp, hc, hlive, htk, fun e hm => ?_, hov, hun⟩
    rcases List.mem_append.1 hm with hm | hm
    · exact hseen e hm
    · rw [List.mem_singleton] at hm
      subst hm
      have hget := List.getElem?_eq_getElem hlt
      exact ⟨_, hget, by rw [hlive _ _ (le_refl _) hget]⟩
  | commitRead =>
    simp only [stepConsumer] at h
    split at h <;> cases h
    rename_i i he
    rw [he] at hc
    obtain ⟨rfl, hlt⟩ := hc
    have hslot := hlive _ _ (le_refl _) (List.getElem?_eq_getElem hlt)
    refine ⟨hs, hh, ?_, ?_, ?_, ?_, trivial, fun k c hk hkc => ?_, ?_, hseen, hov, hun⟩
    · simp only [List.length_append, List.length_singleton, ht, cur_succ]
    · simp only [List.length_append, List.length_singleton]; omega
    · simp only [List.length_append, List.length_singleton]; omega
    · simp only [List.length_append, List.length_singleton]
      revert hp
      cases s.prod <;> simp only [Producer.Ok] <;> first | exact id | exact fun h => ⟨h.1, by omega⟩
    · simp only [List.length_append, List.length_singleton] at hk
      exact hlive k c (by omega) hkc
    · simp only [List.length_append, List.length_singleton]
      rw [hslot, List.take_succ_eq_append_getElem hlt, ← htk]
  | _ => simp [stepConsumer] at h

theorem step_inv (s : Sys) (a : Act) (t : Sys) (hi : Inv s) (h : step s a = some t) : Inv t := by
  rcases Option.or_eq_some_iff.1 h with h | ⟨-, h⟩
  · exact producer_inv hi h
  · exact consumer_inv hi h

/-- The invariant holds after every interleaving. -/
theorem run_inv_init {slot : Fin kSlots → Slot} {as : List Act} {s : Sys} (h : run step (Sys.init slot) as = some s) :
    Inv s :=
  run_inv Inv step_inv h (init_inv slot)

/-! ## What the ring guarantees -/

/-- The slot being filled is never the slot being read. -/
theorem Inv.exclusive {s : Sys} (hi : Inv s) {i j : Fin kSlots} (hp : s.prod = .filling i)
    (hc : s.cons = .reading j) : i ≠ j := by
  have h1 := hi.prod
  have h2 := hi.cons
  rw [hp] at h1
  rw [hc] at h2
  obtain ⟨rfl, hroom⟩ := h1
  obtain ⟨rfl, hlt⟩ := h2
  exact (ofNat_ne_of_lt hlt hroom).symm

/-- A slot being read is the next committed one, as committed. -/
theorem Inv.reading {s : Sys} (hi : Inv s) {j : Fin kSlots} (hc : s.cons = .reading j) :
    s.hist.committed[s.hist.taken.length]? = some (s.ring.slot j) := by
  have h2 := hi.cons
  rw [hc] at h2
  obtain ⟨rfl, hlt⟩ := h2
  rw [List.getElem?_eq_getElem hlt, hi.live _ _ (le_refl _) (List.getElem?_eq_getElem hlt)]

/-- After any interleaving of the two sides, of any length: the counts of
commits and of give-backs are at most `kSlots` apart in the right order and are
what the cursors hold; the two sides never hold one slot; the slots given back
are the committed ones in commit order, each once and as committed, and so is
every word read; `overruns` and `underruns` are the null returns modulo 2³². -/
theorem spsc (slot : Fin kSlots → Slot) (as : List Act) (s : Sys) (h : run step (Sys.init slot) as = some s) :
    (s.hist.taken.length ≤ s.hist.committed.length ∧ s.hist.committed.length ≤ s.hist.taken.length + kSlots ∧
      s.ring.head = cur 64 s.hist.committed.length ∧ s.ring.tail = cur 64 s.hist.taken.length ∧
      (s.hist.committed.length < 2 ^ 64 →
        s.ring.tail.toNat ≤ s.ring.head.toNat ∧ s.ring.head.toNat ≤ s.ring.tail.toNat + kSlots)) ∧
    (∀ i j, s.prod = .filling i → s.cons = .reading j → i ≠ j) ∧
    s.hist.taken = s.hist.committed.take s.hist.taken.length ∧
    (∀ j, s.cons = .reading j → s.hist.committed[s.hist.taken.length]? = some (s.ring.slot j)) ∧
    (∀ e ∈ s.hist.seen, ∃ c, s.hist.committed[e.1]? = some c ∧ c.get e.2.1 = e.2.2) ∧
    s.ring.overruns = cur 32 s.hist.nullWrites ∧ s.ring.underruns = cur 32 s.hist.nullReads := by
  have hi := run_inv_init h
  refine ⟨⟨hi.le, hi.cap, hi.head, hi.tail, fun hb => ?_⟩, fun i j => hi.exclusive, hi.taken, fun j => hi.reading,
    hi.seen, hi.overruns, hi.underruns⟩
  rw [hi.head, hi.tail, cur_toNat hb, cur_toNat (lt_of_le_of_lt hi.le hb)]
  exact ⟨hi.le, hi.cap⟩

/-- A slot never written. -/
def silence : Slot := ⟨0, 0, fun _ => 0⟩

/-- The producer fills its second slot while the consumer reads the first. -/
def overlap : List Act :=
  [.loadHead, .loadTail, .store .frameCount 512, .commitWrite, .loadOwnTail, .loadHead, .loadOtherHead, .loadTail,
    .store .frameCount 7, .load .frameCount, .commitRead]

theorem spsc_overlap : ∃ s, run step (Sys.init fun _ => silence) overlap = some s ∧
    s.hist.seen = [(0, .frameCount, 512)] ∧ s.hist.taken = s.hist.committed.take s.hist.taken.length :=
  ⟨_, rfl, rfl, (spsc (fun _ => silence) overlap _ rfl).2.2.1⟩

/-- The empty ring after `n` acquires by the consumer. -/
def polled (n : ℕ) : Sys :=
  ⟨⟨BitVec.ofNat 32 kSlots, 0, 0, 0, cur 32 n, fun _ => silence⟩, .idle, .idle, { nullReads := n }⟩

theorem run_polled (n : ℕ) : run step (Sys.init fun _ => silence)
    (List.replicate n [.loadOwnTail, .loadOtherHead, .countUnderrun]).flatten = some (polled n) := by
  refine run_replicate polled _ n fun n _ => ?_
  simp only [polled, ← cur_succ]
  rfl

/-- The counters are 32 bits wide: 2³² acquires of an empty ring return null
and leave `underruns` at 0. -/
theorem underruns_wrap : ∃ s,
    run step (Sys.init fun _ => silence)
      (List.replicate (2 ^ 32) [.loadOwnTail, .loadOtherHead, .countUnderrun]).flatten = some s ∧
    s.hist.nullReads = 2 ^ 32 ∧ s.ring.underruns.toNat ≠ s.hist.nullReads :=
  ⟨_, run_polled (2 ^ 32), rfl, by simp [polled, cur]⟩

end UserFace800.Audio
