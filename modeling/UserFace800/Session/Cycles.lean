import UserFace800.Lib.Run
import UserFace800.Protocol.Registers
/-!
# Cycle continuity across restarts

The pump compares the arrival cycle of each packet with that of the packet
before, counts the gaps, and restarts the session on a large one once ten clean
seconds have armed it. Only that restart forgets the last cycle: after one for a
rate change or a wedge the first packet of the new session is compared with the
last of the old. `seams` says the counters stay 0 exactly in the runs in which
those two happen to be a cycle apart; `counted_seam` is a restart that counts.
-/
open UserFace800.Lib UserFace800.Protocol

namespace UserFace800.Session

/-- The clean streaming that arms the cycle check. -/
def kCycleArmNs : ℕ := 10000000000

/-- Restarts for a gap that are closer together look like flapping. -/
def kCycleRestartFloorNs : ℕ := 30000000000

/-- A gap of more cycles is a broken stream. -/
def kCycleGapRestart : ℤ := 8

/-- `cycleCount` of an arrival stamp. -/
def cycleCount (q0 : Quadlet) : ℕ := (q0.extractLsb' 0 13).toNat

/-- The cycle of an arrival stamp on a line of eight seconds. -/
def linearCycle (q0 : Quadlet) : ℕ := cycleCount q0 + (q0.extractLsb' 13 3).toNat * 8000

/-- Where the pump is in its tick. -/
inductive PumpPhase where
  | ready
  | draining
  | checked
  | restarting
  deriving DecidableEq

/-- The variables of the cycle check. `first` is not in the source: the session
has drained no packet yet. -/
structure Cycles where
  haveCycle : Bool := false
  lastCycle : ℕ := 0
  worstGap : ℕ := 0
  cycleGaps : ℕ := 0
  missedCycles : BitVec 64 := 0
  cycleRestarts : ℕ := 0
  cycleArmed : Bool
  cycleDisarmed : Bool
  lastCycleRestart : ℕ := 0
  cycleRestartBurst : ℕ := 0
  toneStart : ℕ
  phase : PumpPhase := .ready
  first : Bool := true

/-- The steps of the pump that the cycle check depends on. -/
inductive CycleAct where
  | rateChange
  /-- A packet is drained. -/
  | packet (q0 : Quadlet)
  /-- The drain is over, at this host time (in ns). -/
  | drained (now : ℕ)
  | wedge
  | tickEnd
  | sessionStarts
  | sessionFails

namespace Cycles

/-- The cycles from the last packet to this one. -/
def gap (s : Cycles) (q0 : Quadlet) : ℤ :=
  let d : ℤ := linearCycle q0 - s.lastCycle
  if d < 0 then d + 8 * 8000 else d

/-- The continuity check. -/
def packet (s : Cycles) (q0 : Quadlet) : Cycles :=
  let s := if s.haveCycle then
      { s with
        cycleGaps := if s.gap q0 ≠ 1 then s.cycleGaps + 1 else s.cycleGaps
        missedCycles := if s.gap q0 ≠ 1 then s.missedCycles + BitVec.ofInt 64 (s.gap q0 - 1) else s.missedCycles
        worstGap := if kCycleGapRestart < s.gap q0 then (s.gap q0).toNat else s.worstGap }
    else s
  { s with lastCycle := linearCycle q0, haveCycle := true, first := false, phase := .draining }

/-- Ten seconds of streaming without a gap arm the restart; with one, it is off. -/
def arm (s : Cycles) (now : ℕ) : Cycles :=
  if !s.cycleArmed && !s.cycleDisarmed && kCycleArmNs ≤ now - s.toneStart then
    if s.cycleGaps = 0 then { s with cycleArmed := true } else { s with cycleDisarmed := true }
  else s

/-- What a large gap leads to: a restart, or none any more after three in a row. -/
def actOnGap (s : Cycles) (now : ℕ) : Cycles :=
  if s.worstGap ≠ 0 ∧ s.cycleArmed ∧ !s.cycleDisarmed then
    let near := now - s.lastCycleRestart < kCycleRestartFloorNs
    let s := { s with worstGap := 0, lastCycleRestart := now }
    let s := if near then { s with cycleRestartBurst := s.cycleRestartBurst + 1 } else s
    if near ∧ 3 ≤ s.cycleRestartBurst then { s with cycleDisarmed := true, phase := .checked }
    else
      { s with
        cycleRestartBurst := if near then s.cycleRestartBurst else 0
        cycleRestarts := s.cycleRestarts + 1
        haveCycle := false
        phase := .restarting }
  else { s with worstGap := 0, phase := .checked }

/-- `restart_session` touches none of this. -/
def step (s : Cycles) (a : CycleAct) : Option Cycles :=
  match a, s.phase with
  | .rateChange, .ready => some { s with phase := .restarting }
  | .packet q0, .ready | .packet q0, .draining => some (s.packet q0)
  | .drained now, .ready | .drained now, .draining => some ((s.arm now).actOnGap now)
  | .wedge, .checked => some { s with phase := .restarting }
  | .tickEnd, .checked => some { s with phase := .ready }
  | .sessionStarts, .restarting => some { s with first := true, phase := .ready }
  | .sessionFails, .restarting => some { s with phase := .ready }
  | _, _ => none

/-- `UF_CYCLE_RESTART` may arm the restart or turn it off. -/
def start (cycleArmed cycleDisarmed : Bool) (toneStart : ℕ) : Cycles where
  cycleArmed
  cycleDisarmed
  toneStart

/-- The cycle of this packet is the one after the last packet's. -/
def Continues (s : Cycles) (q0 : Quadlet) : Prop := linearCycle q0 = (s.lastCycle + 1) % (8 * 8000)

/-- Stamps count 8000 cycles a second, and within a session follow each other. -/
def Steady (s : Cycles) : CycleAct → Prop
  | .packet q0 => cycleCount q0 < 8000 ∧ (s.first = false → s.Continues q0)
  | _ => True

/-- The first packet of a session continues the session before, if the pump has
not forgotten it. -/
def Seamless (s : Cycles) : CycleAct → Prop
  | .packet q0 => s.first = true → s.haveCycle = true → s.Continues q0
  | _ => True

instance (s : Cycles) (q0 : Quadlet) : Decidable (s.Continues q0) := inferInstanceAs (Decidable (_ = _))

instance (s : Cycles) : ∀ a, Decidable (s.Steady a)
  | .packet _ => inferInstanceAs (Decidable (_ ∧ (_ → _)))
  | .rateChange | .drained _ | .wedge | .tickEnd | .sessionStarts | .sessionFails => .isTrue trivial

instance (s : Cycles) : ∀ a, Decidable (s.Seamless a)
  | .packet _ => inferInstanceAs (Decidable (_ → _ → _))
  | .rateChange | .drained _ | .wedge | .tickEnd | .sessionStarts | .sessionFails => .isTrue trivial

variable {s t : Cycles} {q0 : Quadlet}

theorem step_packet (h : s.step (.packet q0) = some t) : t = s.packet q0 := by
  cases hp : s.phase <;> simp only [step, hp, reduceCtorEq, Option.some.injEq] at h
  · exact h.symm
  · exact h.symm

/-- A step is the check of a packet, the end of a drain, or none of this. -/
theorem step_cases {a : CycleAct} (h : s.step a = some t) :
    (∃ q0, a = .packet q0 ∧ t = s.packet q0) ∨ (∃ now, a = .drained now ∧ t = (s.arm now).actOnGap now) ∨
      ∃ p first, t = { s with phase := p, first } := by
  cases a with
  | packet q0 => exact .inl ⟨q0, rfl, step_packet h⟩
  | drained now =>
    right; left
    cases hp : s.phase <;> simp only [step, hp, reduceCtorEq, Option.some.injEq] at h
    · exact ⟨now, rfl, h.symm⟩
    · exact ⟨now, rfl, h.symm⟩
  | rateChange | wedge | tickEnd | sessionStarts | sessionFails =>
    cases hp : s.phase <;> simp only [step, hp, reduceCtorEq, Option.some.injEq] at h
    exact .inr (.inr ⟨_, _, h.symm⟩)

/-! ## Stamps -/

theorem linearCycle_lt (h : cycleCount q0 < 8000) : linearCycle q0 < 8 * 8000 := by
  have hsec := (q0.extractLsb' 13 3).isLt
  unfold linearCycle
  omega

/-- Two cycles are one apart exactly if the second continues the first. -/
theorem gap_eq_one (hlast : s.lastCycle < 8 * 8000) (h : cycleCount q0 < 8000) : s.gap q0 = 1 ↔ s.Continues q0 := by
  have hlt := linearCycle_lt h
  unfold gap Continues
  dsimp only
  split <;> omega

/-! ## While no gap is counted -/

/-- The check as it starts, wherever the last packet was. -/
structure Clean (cycleDisarmed : Bool) (s : Cycles) : Prop where
  gaps : s.cycleGaps = 0
  missed : s.missedCycles = 0
  worst : s.worstGap = 0
  restarts : s.cycleRestarts = 0
  disarmed : s.cycleDisarmed = cycleDisarmed
  last : s.lastCycle < 8 * 8000

variable {cycleDisarmed : Bool}

theorem start_clean (cycleArmed cycleDisarmed : Bool) (toneStart : ℕ) :
    (start cycleArmed cycleDisarmed toneStart).Clean cycleDisarmed :=
  ⟨rfl, rfl, rfl, rfl, rfl, Nat.zero_lt_succ _⟩

theorem packet_clean (hi : s.Clean cycleDisarmed) (hcount : cycleCount q0 < 8000)
    (hnext : s.haveCycle = true → s.Continues q0) : (s.packet q0).Clean cycleDisarmed := by
  have hlt := linearCycle_lt hcount
  unfold packet
  split
  · rename_i hhave
    have hone := (gap_eq_one hi.last hcount).2 (hnext hhave)
    have hsmall : ¬ kCycleGapRestart < s.gap q0 := by
      rw [hone]
      decide
    refine ⟨?_, ?_, ?_, hi.restarts, hi.disarmed, hlt⟩
    · simp only [hone, ne_eq, not_true_eq_false, if_false, hi.gaps]
    · simp only [hone, ne_eq, not_true_eq_false, if_false, hi.missed]
    · simp only [if_neg hsmall, hi.worst]
  · exact ⟨hi.gaps, hi.missed, hi.worst, hi.restarts, hi.disarmed, hlt⟩

theorem drained_clean (hi : s.Clean cycleDisarmed) (now : ℕ) : ((s.arm now).actOnGap now).Clean cycleDisarmed := by
  have harm : (s.arm now).Clean cycleDisarmed := by
    unfold arm
    split
    · rw [if_pos hi.gaps]
      exact ⟨hi.gaps, hi.missed, hi.worst, hi.restarts, hi.disarmed, hi.last⟩
    · exact hi
  unfold actOnGap
  rw [if_neg fun h => h.1 harm.worst]
  exact ⟨harm.gaps, harm.missed, rfl, harm.restarts, harm.disarmed, harm.last⟩

theorem step_clean (s : Cycles) (a : CycleAct) (t : Cycles) (hi : s.Clean cycleDisarmed)
    (hok : s.Steady a ∧ s.Seamless a) (h : s.step a = some t) : t.Clean cycleDisarmed := by
  rcases step_cases h with ⟨q0, rfl, rfl⟩ | ⟨now, rfl, rfl⟩ | ⟨p, first, rfl⟩
  · obtain ⟨⟨hcount, hwithin⟩, hseam⟩ := hok
    refine packet_clean hi hcount fun hhave => ?_
    cases hf : s.first with
    | false => exact hwithin hf
    | true => exact hseam hf hhave
  · exact drained_clean hi now
  · exact ⟨hi.gaps, hi.missed, hi.worst, hi.restarts, hi.disarmed, hi.last⟩

/-! ## A gap once counted stays counted -/

theorem arm_gaps (s : Cycles) (now : ℕ) : (s.arm now).cycleGaps = s.cycleGaps := by
  unfold arm
  split
  · split <;> rfl
  · rfl

theorem actOnGap_gaps (s : Cycles) (now : ℕ) : (s.actOnGap now).cycleGaps = s.cycleGaps := by
  unfold actOnGap
  split
  · dsimp only
    split <;> split <;> rfl
  · rfl

theorem packet_gaps (s : Cycles) (q0 : Quadlet) : s.cycleGaps ≤ (s.packet q0).cycleGaps := by
  unfold packet
  split
  · dsimp only
    split
    · exact Nat.le_succ _
    · exact le_refl _
  · exact le_refl _

theorem step_gaps (s : Cycles) (a : CycleAct) (t : Cycles) (h : s.step a = some t) : s.cycleGaps ≤ t.cycleGaps := by
  rcases step_cases h with ⟨q0, rfl, rfl⟩ | ⟨now, rfl, rfl⟩ | ⟨p, first, rfl⟩
  · exact s.packet_gaps q0
  · rw [actOnGap_gaps, arm_gaps]
  · exact le_refl _

theorem run_gaps {as : List CycleAct} (h : run step s as = some t) : s.cycleGaps ≤ t.cycleGaps :=
  run_inv (fun u => s.cycleGaps ≤ u.cycleGaps) (fun u a v hle huv => hle.trans (step_gaps u a v huv)) h (le_refl _)

theorem drained_last (s : Cycles) (now : ℕ) : ((s.arm now).actOnGap now).lastCycle = s.lastCycle := by
  have harm : (s.arm now).lastCycle = s.lastCycle := by
    unfold arm
    split
    · split <;> rfl
    · rfl
  unfold actOnGap
  split
  · dsimp only
    split <;> split <;> exact harm
  · exact harm

theorem step_last {a : CycleAct} (h : s.step a = some t) (hok : s.Steady a) (hlast : s.lastCycle < 8 * 8000) :
    t.lastCycle < 8 * 8000 := by
  rcases step_cases h with ⟨q0, rfl, rfl⟩ | ⟨now, rfl, rfl⟩ | ⟨p, first, rfl⟩
  · exact linearCycle_lt hok.1
  · rwa [drained_last]
  · exact hlast

/-- A packet that does not continue the last one is a gap. -/
theorem packet_gap (hlast : s.lastCycle < 8 * 8000) (hcount : cycleCount q0 < 8000) (hhave : s.haveCycle = true)
    (hn : ¬ s.Continues q0) : (s.packet q0).cycleGaps = s.cycleGaps + 1 := by
  have hne : s.gap q0 ≠ 1 := fun h => hn ((gap_eq_one hlast hcount).1 h)
  unfold packet
  rw [if_pos hhave, if_pos hne]

/-- A run that ends without a gap had none at the seams. -/
theorem seamless_of_no_gap {as : List CycleAct} (hsteady : Meets step Steady s as) (h : run step s as = some t)
    (hlast : s.lastCycle < 8 * 8000) (ht : t.cycleGaps = 0) : Meets step Seamless s as := by
  induction as generalizing s with
  | nil => trivial
  | cons a as ih =>
    rw [run_cons, Option.bind_eq_some_iff] at h
    obtain ⟨u, hu, h⟩ := h
    have hrest := ih (hsteady.2 u hu) h (step_last hu hsteady.1 hlast)
    refine ⟨?_, fun v hv => Option.some.inj (hu.symm.trans hv) ▸ hrest⟩
    cases a with
    | packet q0 =>
      intro hf hhave
      by_contra hn
      have hgap := packet_gap hlast hsteady.1.1 hhave hn
      have hle := run_gaps h
      rw [step_packet hu, hgap, ht] at hle
      exact absurd hle (Nat.not_succ_le_zero _)
    | rateChange | drained now | wedge | tickEnd | sessionStarts | sessionFails => trivial

end Cycles

/-- In a run whose packets follow each other cycle by cycle within each session,
no gap, missed cycle, restart or disarming comes of a session restart exactly if
at each seam not forgotten the new session's first packet continues the old
session. -/
theorem seams (cycleArmed cycleDisarmed : Bool) (toneStart : ℕ) {as : List CycleAct} {s : Cycles}
    (hsteady : Meets Cycles.step Cycles.Steady (Cycles.start cycleArmed cycleDisarmed toneStart) as)
    (h : run Cycles.step (Cycles.start cycleArmed cycleDisarmed toneStart) as = some s) :
    (s.cycleGaps = 0 ∧ s.missedCycles = 0 ∧ s.cycleRestarts = 0 ∧ s.cycleDisarmed = cycleDisarmed) ↔
      Meets Cycles.step Cycles.Seamless (Cycles.start cycleArmed cycleDisarmed toneStart) as := by
  have hstart := Cycles.start_clean cycleArmed cycleDisarmed toneStart
  refine ⟨fun hs => Cycles.seamless_of_no_gap hsteady h hstart.last hs.1, fun hseam => ?_⟩
  have hi := (hsteady.and hseam).inv (Cycles.Clean cycleDisarmed) Cycles.step_clean h hstart
  exact ⟨hi.gaps, hi.missed, hi.restarts, hi.disarmed⟩

/-- A packet, ten clean seconds that arm the restart, and a change of rate. -/
def changingRate : List CycleAct :=
  [.packet 5, .drained 110000000000, .tickEnd, .rateChange, .sessionStarts]

/-- The new session happens to begin in the next cycle. -/
theorem seams_next : ∃ s,
    run Cycles.step (Cycles.start false false 100000000000)
      (changingRate ++ [.packet 6, .drained 110500000000]) = some s ∧
      s.cycleArmed = true ∧ s.cycleGaps = 0 ∧ s.missedCycles = 0 ∧ s.cycleRestarts = 0 ∧ s.cycleDisarmed = false := by
  have h : (run Cycles.step (Cycles.start false false 100000000000)
      (changingRate ++ [.packet 6, .drained 110500000000])).map (·.cycleArmed) = some true := by decide +kernel
  have hsteady : Meets Cycles.step Cycles.Steady (Cycles.start false false 100000000000)
      (changingRate ++ [.packet 6, .drained 110500000000]) := by decide +kernel
  have hseam : Meets Cycles.step Cycles.Seamless (Cycles.start false false 100000000000)
      (changingRate ++ [.packet 6, .drained 110500000000]) := by decide +kernel
  obtain ⟨s, hrun, harmed⟩ := Option.map_eq_some_iff.1 h
  exact ⟨s, hrun, harmed, (seams false false 100000000000 hsteady hrun).2 hseam⟩

/-- It begins 800 cycles later, and the session is restarted for that. -/
theorem counted_seam :
    Meets Cycles.step Cycles.Steady (Cycles.start false false 100000000000)
      (changingRate ++ [.packet 805, .drained 110500000000]) ∧
    ∃ s, run Cycles.step (Cycles.start false false 100000000000)
        (changingRate ++ [.packet 805, .drained 110500000000]) = some s ∧
      s.cycleGaps = 1 ∧ s.missedCycles = 799 ∧ s.cycleRestarts = 1 ∧ s.phase = .restarting := by
  have h : (run Cycles.step (Cycles.start false false 100000000000)
      (changingRate ++ [.packet 805, .drained 110500000000])).map
      (fun s => (s.cycleGaps, s.missedCycles, s.cycleRestarts, s.phase)) = some (1, 799, 1, .restarting) := by
    decide +kernel
  obtain ⟨s, hrun, hs⟩ := Option.map_eq_some_iff.1 h
  simp only [Prod.mk.injEq] at hs
  exact ⟨by decide +kernel, s, hrun, hs⟩

end UserFace800.Session
