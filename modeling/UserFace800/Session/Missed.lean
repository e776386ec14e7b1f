import UserFace800.Session.Cycles
/-!
# What the gap counters count

`missedCycles` and `cycleGaps` are what a user reads to judge the capture, and a gap in
the first ten seconds decides whether a later one restarts the stream. They are right
as long as no stamp comes twice in a row: a difference of 0 is a gap of which the check
adds one cycle less than none, in 64 unsigned bits. `missed_exact` says so for every
sequence of packets, `missed_wrapped` is the repeated stamp.
-/
open UserFace800.Lib UserFace800.Protocol

namespace UserFace800.Session

/-- The cycles from one stamp to the next. -/
def advance (a b : Quadlet) : ℕ := (((linearCycle b : ℤ) - linearCycle a) % 64000).toNat

/-- The advance of each stamp over the one before. -/
def advances : List Quadlet → List ℕ
  | [] => []
  | [_] => []
  | a :: b :: stamps => advance a b :: advances (b :: stamps)

/-- The cycles without a packet. -/
def missed (stamps : List Quadlet) : ℕ := ((advances stamps).map (· - 1)).sum

/-- The pairs of packets that are not one cycle apart. -/
def gaps (stamps : List Quadlet) : ℕ := (advances stamps).countP (· ≠ 1)

namespace Cycles

/-- The check after each of these packets. -/
def packets (s : Cycles) (stamps : List Quadlet) : Cycles := stamps.foldl packet s

/-- The counters are exact; 64 bits hold the number of gaps. -/
structure Counts (stamps : List Quadlet) (s : Cycles) : Prop where
  missed : s.missedCycles.toNat = missed stamps
  gaps : s.cycleGaps = gaps stamps
  fits : s.cycleGaps < 2 ^ 64

/-- The packet leaves exact counters, and the missed cycles do not decrease. -/
def CountsPacket (s : Cycles) (stamps : List Quadlet) (q0 : Quadlet) : Prop :=
  (s.packets (stamps ++ [q0])).Counts (stamps ++ [q0]) ∧
    (s.packets stamps).missedCycles ≤ (s.packets (stamps ++ [q0])).missedCycles

end Cycles

/-! ## The differences of a sequence -/

theorem advances_concat (stamps : List Quadlet) (p q : Quadlet) :
    advances (stamps ++ [p] ++ [q]) = advances (stamps ++ [p]) ++ [advance p q] := by
  induction stamps with
  | nil => rfl
  | cons a stamps ih =>
    cases stamps with
    | nil => rfl
    | cons b stamps =>
      simp only [List.cons_append, advances] at ih ⊢
      rw [ih]

theorem missed_concat (stamps : List Quadlet) (p q : Quadlet) :
    missed (stamps ++ [p] ++ [q]) = missed (stamps ++ [p]) + (advance p q - 1) := by
  unfold missed
  rw [advances_concat, List.map_append, List.sum_append]
  simp

theorem gaps_concat (stamps : List Quadlet) (p q : Quadlet) :
    gaps (stamps ++ [p] ++ [q]) = gaps (stamps ++ [p]) + if advance p q ≠ 1 then 1 else 0 := by
  unfold gaps
  rw [advances_concat, List.countP_append, List.countP_singleton]
  simp only [decide_eq_true_eq]

/-- Each gap misses at least a cycle, if no two packets have the same. -/
theorem gaps_le_missed {stamps : List Quadlet} (h : 0 ∉ advances stamps) : gaps stamps ≤ missed stamps := by
  unfold gaps missed
  generalize advances stamps = ds at h
  induction ds with
  | nil => exact le_refl _
  | cons d ds ih =>
    rw [List.mem_cons, not_or] at h
    have hrest := ih h.2
    rw [List.countP_cons, List.map_cons, List.sum_cons]
    have hd := h.1
    split
    · rename_i hne
      have hne' := of_decide_eq_true hne
      omega
    · omega

theorem forall_prefix_concat {α : Type} {P : List α → α → Prop} {as : List α} {a : α} :
    (∀ bs b, bs ++ [b] <+: as ++ [a] → P bs b) ↔ P as a ∧ ∀ bs b, bs ++ [b] <+: as → P bs b := by
  constructor
  · exact fun h => ⟨h as a (List.prefix_refl _), fun bs b hb => h bs b (hb.trans (List.prefix_append _ _))⟩
  · intro ⟨hlast, h⟩ bs b hb
    rcases List.prefix_concat_iff.1 hb with heq | hb
    · obtain ⟨rfl, hsingle⟩ := List.append_inj' heq rfl
      cases hsingle
      exact hlast
    · exact h bs b hb

/-! ## One packet -/

namespace Cycles

variable {s : Cycles} {stamps : List Quadlet} {p q : Quadlet}

theorem packets_concat (s : Cycles) (stamps : List Quadlet) (q : Quadlet) :
    s.packets (stamps ++ [q]) = (s.packets stamps).packet q := List.foldl_concat ..

theorem packet_last (s : Cycles) (q : Quadlet) :
    (s.packet q).haveCycle = true ∧ (s.packet q).lastCycle = linearCycle q := by
  unfold packet
  split <;> exact ⟨rfl, rfl⟩

theorem gap_eq_advance (hlast : s.lastCycle = linearCycle p) (hp : cycleCount p < 8000) (hq : cycleCount q < 8000) :
    s.gap q = advance p q := by
  have hltp := linearCycle_lt hp
  have hltq := linearCycle_lt hq
  unfold gap advance
  rw [hlast]
  dsimp only
  split <;> omega

theorem packet_adds (hhave : s.haveCycle = true) :
    (s.packet q).cycleGaps = s.cycleGaps + (if s.gap q ≠ 1 then 1 else 0) ∧
      (s.packet q).missedCycles = s.missedCycles + BitVec.ofInt 64 (s.gap q - 1) := by
  unfold packet
  rw [if_pos hhave]
  by_cases h : s.gap q = 1
  · simp [h]
  · simp [h]

/-- A difference of 0 takes one away. -/
theorem packet_missed (hhave : s.haveCycle = true) {d : ℕ} (hd : s.gap q = d) :
    (s.packet q).missedCycles.toNat =
      if d = 0 then (s.missedCycles.toNat + (2 ^ 64 - 1)) % 2 ^ 64 else (s.missedCycles.toNat + (d - 1)) % 2 ^ 64 := by
  rw [(packet_adds hhave).2, BitVec.toNat_add, BitVec.toNat_ofInt, hd]
  split
  · rename_i hzero
    rw [hzero]
    rfl
  · omega

/-- After exact counters the next packet leaves exact ones, if it does not repeat the
cycle of the last and the sum fits. -/
theorem packet_counts (hs : s.Counts (stamps ++ [p])) (hzero : 0 ∉ advances (stamps ++ [p]))
    (hhave : s.haveCycle = true) (hgap : s.gap q = advance p q) :
    ((s.packet q).Counts (stamps ++ [p] ++ [q]) ∧ s.missedCycles ≤ (s.packet q).missedCycles) ↔
      advance p q ≠ 0 ∧ missed (stamps ++ [p] ++ [q]) < 2 ^ 64 := by
  have hmissed := packet_missed hhave hgap
  have hbefore := hs.missed
  have hlt := s.missedCycles.isLt
  constructor
  · -- after a difference of 0 the sum is the same and the counter is not
    intro ⟨hcounts, hle⟩
    have hafter := hcounts.missed
    have hlt' := (s.packet q).missedCycles.isLt
    refine ⟨fun h => ?_, by omega⟩
    rw [missed_concat] at hafter
    rw [if_pos h] at hmissed
    omega
  · intro ⟨hne, hfits⟩
    have hsum := missed_concat stamps p q
    rw [if_neg hne] at hmissed
    have hafter : (s.packet q).missedCycles.toNat = missed (stamps ++ [p] ++ [q]) := by omega
    have hgaps : (s.packet q).cycleGaps = gaps (stamps ++ [p] ++ [q]) := by
      rw [(packet_adds hhave).1, gaps_concat, hs.gaps, hgap]
      simp only [ne_eq, Nat.cast_eq_one]
    have hzero' : 0 ∉ advances (stamps ++ [p] ++ [q]) := by
      rw [advances_concat, List.mem_append, List.mem_singleton, not_or]
      exact ⟨hzero, Ne.symm hne⟩
    refine ⟨⟨hafter, hgaps, ?_⟩, BitVec.le_def.2 (by omega)⟩
    rw [hgaps]
    exact lt_of_le_of_lt (gaps_le_missed hzero') hfits

theorem countsPacket_iff (hcounts : (s.packets (stamps ++ [p])).Counts (stamps ++ [p]))
    (hzero : 0 ∉ advances (stamps ++ [p])) (hp : cycleCount p < 8000) (hq : cycleCount q < 8000) :
    s.CountsPacket (stamps ++ [p]) q ↔ advance p q ≠ 0 ∧ missed (stamps ++ [p] ++ [q]) < 2 ^ 64 := by
  obtain ⟨hhave, hlast⟩ := (s.packets stamps).packet_last p
  rw [← packets_concat] at hhave hlast
  unfold CountsPacket
  rw [packets_concat _ (stamps ++ [p])]
  exact packet_counts hcounts hzero hhave (gap_eq_advance hlast hp hq)

end Cycles

/-- For every sequence of stamps that count 8000 cycles a second: after each packet the
missed cycles are the sum of what the differences leave out, they have not decreased, and
the gaps are the differences other than 1, exactly if no packet has the cycle of the one
before and 64 bits hold the sum. -/
theorem missed_exact (cycleArmed cycleDisarmed : Bool) (toneStart : ℕ) {stamps : List Quadlet}
    (hstamps : ∀ q0 ∈ stamps, cycleCount q0 < 8000) :
    (∀ before q0, before ++ [q0] <+: stamps →
      (Cycles.start cycleArmed cycleDisarmed toneStart).CountsPacket before q0) ↔
      0 ∉ advances stamps ∧ missed stamps < 2 ^ 64 := by
  induction stamps using List.reverseRecOn with
  | nil =>
    refine ⟨fun _ => ⟨List.not_mem_nil, Nat.two_pow_pos 64⟩, fun _ before q0 h => ?_⟩
    exact absurd (List.prefix_nil.1 h) (List.append_ne_nil_of_right_ne_nil _ (List.cons_ne_nil _ _))
  | append_singleton stamps q ih =>
    have ih := ih fun q0 h => hstamps q0 (List.mem_append_left _ h)
    have hq := hstamps q (List.mem_append_right _ (List.mem_singleton_self q))
    rw [forall_prefix_concat, ih]
    rcases List.eq_nil_or_concat' stamps with rfl | ⟨stamps, p, rfl⟩
    · exact ⟨fun h => h.2, fun h => ⟨⟨⟨rfl, rfl, Nat.two_pow_pos 64⟩, BitVec.le_refl _⟩, h⟩⟩
    · have hp := hstamps p (by simp)
      have hmissed := missed_concat stamps p q
      rw [advances_concat, List.mem_append, List.mem_singleton, not_or]
      constructor
      · intro ⟨hcounts, hbefore⟩
        have hexact := (ih.2 hbefore stamps p (List.prefix_refl _)).1
        obtain ⟨hne, hfits⟩ := (Cycles.countsPacket_iff hexact hbefore.1 hp hq).1 hcounts
        exact ⟨⟨hbefore.1, Ne.symm hne⟩, hfits⟩
      · intro ⟨⟨hzero, hne⟩, hfits⟩
        have hbefore : 0 ∉ advances (stamps ++ [p]) ∧ missed (stamps ++ [p]) < 2 ^ 64 := ⟨hzero, by omega⟩
        have hexact := (ih.2 hbefore stamps p (List.prefix_refl _)).1
        exact ⟨(Cycles.countsPacket_iff hexact hzero hp hq).2 ⟨Ne.symm hne, hfits⟩, hbefore⟩

/-- Two cycles without a packet. -/
theorem missed_exact_hole : (Cycles.start false false 0).CountsPacket [5, 6] 9 :=
  (@missed_exact false false 0 [5, 6, 9] (by simp [cycleCount])).2 (by decide +kernel) [5, 6] 9 (List.prefix_refl _)

/-- The stamp of the second packet is that of the first: 2^64 - 1 cycles are missed. -/
theorem missed_wrapped : (∀ q0 ∈ [5, 5], cycleCount q0 < 8000) ∧
    ((Cycles.start false false 0).packets [5, 5]).missedCycles.toNat = 2 ^ 64 - 1 ∧ missed [5, 5] = 0 ∧
    ((Cycles.start false false 0).packets [5, 5]).cycleGaps = 1 := by
  refine ⟨by simp [cycleCount], ?_⟩
  decide +kernel

end UserFace800.Session
