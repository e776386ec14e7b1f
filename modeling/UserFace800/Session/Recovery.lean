import UserFace800.Lib.Pacing
import UserFace800.Session.Cycles
import Mathlib.Data.List.Chain
/-!
# When the pump restarts a session

Three things make it: a rate that CoreAudio asks for, a large gap in the cycle times, and
capture that has not advanced for a while. The last backs off after three restarts that
brought no packet; the second gives itself up after three that came too close together; and
when too many sessions in a row did not start the daemon exits, for launchd to start it
again.

`recovery_paced` is how far apart attempts are and when the daemon exits, `gives_up_after`
how long that takes on a device that is simply gone, `cycle_restarts_paced` how often a
false alarm of the cycle check can cost a restart.
-/
open UserFace800.Lib UserFace800.Protocol

namespace UserFace800.Session

/-- The limit after three restarts in vain. -/
def kWedgeBackoffNs : ℕ := 5000000000

/-- The environment: `UF_WEDGE_MS`, `UF_MAX_RESTART_FAILURES`, `UF_NO_WEDGE_RECOVERY`. -/
structure RecoveryConfig where
  kWedgeNs : ℕ := 500000000
  kMaxRestartFailures : ℕ := 5
  wedgeRecovery : Bool := true

/-- How long capture may stall after this many restarts in vain. -/
def RecoveryConfig.limit (c : RecoveryConfig) (wedgeRestarts : ℕ) : ℕ :=
  if 3 ≤ wedgeRestarts then kWedgeBackoffNs else c.kWedgeNs

/-- Why the pump restarts a session. -/
inductive Cause where
  | rateChange
  | cycle
  | wedge
  deriving DecidableEq

/-- A restart: `level` is what `wedgeRestarts` was before it, `quiet` that the wedge check
has seen no change of `consumed` since the restart before, the rewind of that one included. -/
structure Attempt where
  cause : Cause := .wedge
  began : ℕ := 0
  ended : ℕ := 0
  failed : Bool := false
  level : ℕ := 0
  quiet : Bool := true

/-- The variables of the pump that restarts depend on, and the host clock (in ns). Not in
the source: the restart in progress, those before it, the latest first, whether the check has
seen no change of `consumed` since, and when the restarts for a gap were. -/
structure Recovery where
  cycles : Cycles
  now : ℕ
  consumed : ℕ := 0
  lastConsumedForWedge : ℕ := 0
  lastProgress : ℕ
  wedgeRestarts : ℕ := 0
  restartFailures : ℕ := 0
  exited : Bool := false
  attempt : Attempt := {}
  attempts : List Attempt := []
  quiet : Bool := true
  cycleTimes : List ℕ := []

/-- The steps of the pump that restarts depend on. -/
inductive RecoveryAct where
  /-- Time passes. -/
  | pass (ns : ℕ)
  /-- The pump finds a request for another rate. -/
  | rateChange
  | packet (q0 : Quadlet)
  | drained
  | wedgeCheck
  | sessionStarts
  | sessionFails

namespace Recovery

/-- A pump that begins now. -/
def start (cycleArmed cycleDisarmed : Bool) (now : ℕ) : Recovery where
  cycles := .start cycleArmed cycleDisarmed now
  now
  lastProgress := now

/-- `restart_session` is called. -/
def begin (s : Recovery) (cycles : Cycles) (cause : Cause) : Recovery := { s with
  cycles
  attempt := { cause, began := s.now, level := s.wedgeRestarts, quiet := s.quiet }
  wedgeRestarts := if cause = .wedge then s.wedgeRestarts + 1 else s.wedgeRestarts
  cycleTimes := if cause = .cycle then s.now :: s.cycleTimes else s.cycleTimes }

/-- It returns. -/
def finish (s : Recovery) (cycles : Cycles) (failed : Bool) : Recovery := { s with
  cycles
  attempts := { s.attempt with ended := s.now, failed } :: s.attempts
  quiet := true }

variable (c : RecoveryConfig)

/-- The pump's next step, until it exits. -/
def step (s : Recovery) (a : RecoveryAct) : Option Recovery :=
  if s.exited then none
  else match a with
  | .pass ns => some { s with now := s.now + ns }
  | .rateChange => (s.cycles.step .rateChange).map fun v => s.begin v .rateChange
  | .packet q0 => (s.cycles.step (.packet q0)).map fun v => { s with cycles := v, consumed := s.consumed + 1 }
  | .drained => (s.cycles.step (.drained s.now)).map fun v =>
    if v.phase = .restarting then s.begin v .cycle else { s with cycles := v }
  | .wedgeCheck =>
    if s.consumed ≠ s.lastConsumedForWedge then
      -- the rewind of a restart counts as progress here, too
      (s.cycles.step .tickEnd).map fun v => { s with
        cycles := v, lastConsumedForWedge := s.consumed, lastProgress := s.now, wedgeRestarts := 0, quiet := false }
    else if c.wedgeRecovery ∧ c.limit s.wedgeRestarts < s.now - s.lastProgress then
      (s.cycles.step .wedge).map fun v => s.begin v .wedge
    else (s.cycles.step .tickEnd).map fun v => { s with cycles := v }
  | .sessionStarts => (s.cycles.step .sessionStarts).map fun v =>
    { s.finish v false with restartFailures := 0, consumed := 0, lastProgress := s.now }
  | .sessionFails => (s.cycles.step .sessionFails).map fun v =>
    if c.kMaxRestartFailures ≤ s.restartFailures + 1 then
      { s.finish v true with restartFailures := s.restartFailures + 1, exited := true }
    else { s.finish v true with restartFailures := s.restartFailures + 1, lastProgress := s.now }

end Recovery

/-! ## How attempts follow each other -/

/-- What the attempt leaves `wedgeRestarts` at. -/
def Attempt.counts (e : Attempt) : ℕ := if e.cause = .wedge then e.level + 1 else e.level

/-- The next attempt: no earlier, for a wedge later by more than the stall allowed. The level
of that stall goes up with each restart for a wedge, and back to 0 once the check has seen
`consumed` change. -/
structure Follows (c : RecoveryConfig) (next e : Attempt) : Prop where
  span : e.began ≤ e.ended
  after : e.ended ≤ next.began
  backoff : next.cause = .wedge → e.ended + c.limit next.level < next.began
  level : next.level = if next.quiet then e.counts else 0

/-! ## What a step does to the cycle check -/

namespace Cycles

/-- The part of the check that remembers restarts. -/
structure SameRestarts (s t : Cycles) : Prop where
  disarmed : t.cycleDisarmed = s.cycleDisarmed
  restarts : t.cycleRestarts = s.cycleRestarts
  last : t.lastCycleRestart = s.lastCycleRestart
  burst : t.cycleRestartBurst = s.cycleRestartBurst

variable {s t : Cycles}

theorem step_begins {a : CycleAct} (ha : a = .rateChange ∨ a = .wedge) (h : s.step a = some t) :
    s.phase ≠ .restarting ∧ t.phase = .restarting ∧ SameRestarts s t := by
  rcases ha with rfl | rfl
  all_goals
    cases hp : s.phase <;> simp only [step, hp, reduceCtorEq, Option.some.injEq] at h
    subst h
    exact ⟨by simp, rfl, rfl, rfl, rfl, rfl⟩

theorem step_ends {a : CycleAct} (ha : a = .sessionStarts ∨ a = .sessionFails) (h : s.step a = some t) :
    s.phase = .restarting ∧ t.phase ≠ .restarting ∧ SameRestarts s t := by
  rcases ha with rfl | rfl
  all_goals
    cases hp : s.phase <;> simp only [step, hp, reduceCtorEq, Option.some.injEq] at h
    subst h
    exact ⟨rfl, by simp, rfl, rfl, rfl, rfl⟩

theorem step_tickEnd (h : s.step .tickEnd = some t) :
    s.phase ≠ .restarting ∧ t.phase ≠ .restarting ∧ SameRestarts s t := by
  cases hp : s.phase <;> simp only [step, hp, reduceCtorEq, Option.some.injEq] at h
  subst h
  exact ⟨by simp, by simp, rfl, rfl, rfl, rfl⟩

theorem packet_same (s : Cycles) (q0 : Quadlet) : (s.packet q0).phase ≠ .restarting ∧ SameRestarts s (s.packet q0) := by
  refine ⟨by simp [packet], ?_⟩
  unfold packet
  split <;> exact ⟨rfl, rfl, rfl, rfl⟩

theorem step_packet_same {q0 : Quadlet} (h : s.step (.packet q0) = some t) :
    s.phase ≠ .restarting ∧ t.phase ≠ .restarting ∧ SameRestarts s t := by
  obtain ⟨hphase, hsame⟩ := s.packet_same q0
  rw [step_packet h]
  refine ⟨fun hp => ?_, hphase, hsame⟩
  simp [step, hp] at h

/-- The end of a drain restarts the session for a gap, or does not; one that came too soon
is the third in a row at most. -/
theorem step_drained {now : ℕ} (h : s.step (.drained now) = some t) : s.phase ≠ .restarting ∧
    ((t.phase ≠ .restarting ∧ t.cycleRestarts = s.cycleRestarts ∧ (s.cycleDisarmed = true → t.cycleDisarmed = true) ∧
      (t.cycleDisarmed = false → SameRestarts s t)) ∨
    (t.phase = .restarting ∧ s.cycleDisarmed = false ∧ t.cycleDisarmed = false ∧ t.cycleRestarts = s.cycleRestarts + 1 ∧
      t.lastCycleRestart = now ∧
      (now - s.lastCycleRestart < kCycleRestartFloorNs ∧ t.cycleRestartBurst = s.cycleRestartBurst + 1 ∧
          s.cycleRestartBurst < 2 ∨
        kCycleRestartFloorNs ≤ now - s.lastCycleRestart ∧ t.cycleRestartBurst = 0))) := by
  have hphase : s.phase ≠ .restarting := by
    intro hp
    simp [step, hp] at h
  have ht : t = (s.arm now).actOnGap now := by
    cases hp : s.phase <;> simp only [step, hp, reduceCtorEq, Option.some.injEq] at h
    · exact h.symm
    · exact h.symm
  refine ⟨hphase, ?_⟩
  -- arming only ever turns the check on or off
  have harm : (s.cycleDisarmed = true → (s.arm now).cycleDisarmed = true) ∧
      ((s.arm now).cycleDisarmed = false → SameRestarts s (s.arm now)) ∧
      (s.arm now).cycleRestarts = s.cycleRestarts := by
    unfold arm
    split
    next hoff =>
      split
      · exact ⟨id, fun _ => ⟨rfl, rfl, rfl, rfl⟩, rfl⟩
      · exact ⟨fun _ => rfl, fun h => absurd h Bool.noConfusion, rfl⟩
    next => exact ⟨id, fun _ => ⟨rfl, rfl, rfl, rfl⟩, rfl⟩
  obtain ⟨hstays, hsame, hcount⟩ := harm
  generalize s.arm now = u at ht hstays hsame hcount
  subst ht
  unfold actOnGap
  split
  next hgap =>
    have hup : u.cycleDisarmed = false := by simpa using hgap.2.2
    obtain ⟨hdisarmed, -, hlast, hburst⟩ := hsame hup
    dsimp only
    by_cases hnear : now - u.lastCycleRestart < kCycleRestartFloorNs
    · rw [if_pos hnear]
      split
      next hthree => exact .inl ⟨by simp, hcount, fun _ => rfl, fun h => absurd h Bool.noConfusion⟩
      next hfew =>
        right
        refine ⟨rfl, hdisarmed ▸ hup, hup, congrArg (· + 1) hcount, rfl, .inl ⟨hlast ▸ hnear, ?_, ?_⟩⟩
        · exact congrArg (· + 1) hburst
        · have : ¬ 3 ≤ u.cycleRestartBurst + 1 := fun h3 => hfew ⟨hnear, h3⟩
          omega
    · rw [if_neg hnear, if_neg fun h => hnear h.1]
      right
      refine ⟨rfl, hdisarmed ▸ hup, hup, congrArg (· + 1) hcount, rfl, .inr ⟨hlast ▸ Nat.not_lt.1 hnear, ?_⟩⟩
      exact if_neg hnear
  next =>
    exact .inl ⟨by simp, hcount, hstays, fun h => ⟨(hsame h).disarmed, hcount, (hsame h).last, (hsame h).burst⟩⟩

end Cycles

namespace Recovery

variable {c : RecoveryConfig} {s t : Recovery}

/-- Each attempt follows from the one before, and the variables from the last. -/
structure Inv (c : RecoveryConfig) (s : Recovery) : Prop where
  chain : s.attempts.IsChain (Follows c)
  progress : s.lastProgress ≤ s.now
  last : ∀ e ∈ s.attempts.head?, e.began ≤ e.ended ∧ e.ended ≤ s.now ∧ (s.exited = false → e.ended ≤ s.lastProgress)
  level : s.cycles.phase ≠ .restarting → ∀ e ∈ s.attempts.head?, s.wedgeRestarts = if s.quiet then e.counts else 0
  attempt : s.cycles.phase = .restarting → s.attempt.began ≤ s.now ∧ s.wedgeRestarts = s.attempt.counts ∧
    ∀ e ∈ s.attempts.head?, Follows c s.attempt e
  failures : s.restartFailures = (s.attempts.takeWhile fun e => e.failed).length
  exit : s.exited = true ↔ 0 < s.restartFailures ∧ c.kMaxRestartFailures ≤ s.restartFailures

/-- A restart begins: for a wedge, after the stall allowed. -/
theorem begin_inv (hi : s.Inv c) (hup : s.exited = false) (hphase : s.cycles.phase ≠ .restarting) {v : Cycles}
    {cause : Cause}
    (hv : v.phase = .restarting) (hstall : cause = .wedge → s.lastProgress + c.limit s.wedgeRestarts < s.now) :
    (s.begin v cause).Inv c where
  chain := hi.chain
  progress := hi.progress
  last := hi.last
  level hne := absurd hv hne
  attempt _ := by
    refine ⟨Nat.le_refl _, rfl, fun e he => ?_⟩
    obtain ⟨hspan, -, hended⟩ := hi.last e he
    have hended := hended hup
    refine ⟨hspan, hended.trans hi.progress, fun hw => ?_, hi.level hphase e he⟩
    have := hstall hw
    show e.ended + c.limit s.wedgeRestarts < s.now
    omega
  failures := hi.failures
  exit := hi.exit

/-- It ends, and is the last of the attempts. -/
theorem finish_inv (hi : s.Inv c) (hphase : s.cycles.phase = .restarting) {v : Cycles} (hv : v.phase ≠ .restarting)
    {failed exited : Bool} {failures consumed progress : ℕ} (hprogress : progress ≤ s.now)
    (hlast : exited = false → progress = s.now) (hfailures : failures = if failed then s.restartFailures + 1 else 0)
    (hexit : exited = true ↔ 0 < failures ∧ c.kMaxRestartFailures ≤ failures) :
    Inv c { s.finish v failed with
      restartFailures := failures, consumed := consumed, lastProgress := progress, exited := exited } := by
  obtain ⟨hbegan, hlevel, hfollows⟩ := hi.attempt hphase
  refine ⟨List.isChain_cons.2 ⟨fun e he => ?_, hi.chain⟩, hprogress, ?_, fun _ => ?_, fun h => absurd h hv, ?_, hexit⟩
  · obtain ⟨hspan, hafter, hbackoff, hquiet⟩ := hfollows e he
    exact ⟨hspan, hafter, hbackoff, hquiet⟩
  · rintro e ⟨⟩
    exact ⟨hbegan, Nat.le_refl _, fun hup => (hlast hup).ge⟩
  · rintro e ⟨⟩
    exact hlevel
  · show failures =
      (List.takeWhile (fun e => e.failed) ({ s.attempt with ended := s.now, failed } :: s.attempts)).length
    rw [hfailures]
    cases failed with
    | true => simp [hi.failures]
    | false => simp

/-- Where no restart begins or ends. -/
theorem Inv.keep (hi : s.Inv c) {v : Cycles} (hs : s.cycles.phase ≠ .restarting) (hv : v.phase ≠ .restarting) :
    Inv c { s with cycles := v } where
  chain := hi.chain
  progress := hi.progress
  last := hi.last
  level _ := hi.level hs
  attempt h := absurd h hv
  failures := hi.failures
  exit := hi.exit

/-- What a step does, but for the cycle check. -/
theorem step_cases {a : RecoveryAct} (h : s.step c a = some t) : s.exited = false ∧ (
    (∃ ns, t = { s with now := s.now + ns }) ∨
    (∃ v, s.cycles.phase ≠ .restarting ∧ v.phase ≠ .restarting ∧ (t = { s with cycles := v } ∨
      t = { s with cycles := v, consumed := s.consumed + 1 } ∨
      t = { s with
        cycles := v, lastConsumedForWedge := s.consumed, lastProgress := s.now, wedgeRestarts := 0, quiet := false })) ∨
    (∃ v cause, s.cycles.phase ≠ .restarting ∧ v.phase = .restarting ∧ t = s.begin v cause ∧
      (cause = .wedge → s.lastProgress + c.limit s.wedgeRestarts < s.now)) ∨
    (∃ v, s.cycles.phase = .restarting ∧ v.phase ≠ .restarting ∧
      (t = { s.finish v false with restartFailures := 0, consumed := 0, lastProgress := s.now } ∨
      (c.kMaxRestartFailures ≤ s.restartFailures + 1 ∧
        t = { s.finish v true with restartFailures := s.restartFailures + 1, exited := true }) ∨
      (s.restartFailures + 1 < c.kMaxRestartFailures ∧
        t = { s.finish v true with restartFailures := s.restartFailures + 1, lastProgress := s.now })))) := by
  unfold step at h
  split at h
  next => cases h
  next hup =>
    refine ⟨Bool.eq_false_iff.2 hup, ?_⟩
    cases a with
    | pass ns => exact .inl ⟨ns, (Option.some.inj h).symm⟩
    | rateChange =>
      obtain ⟨v, hv, rfl⟩ := Option.map_eq_some_iff.1 h
      obtain ⟨hs, ht, -⟩ := Cycles.step_begins (.inl rfl) hv
      exact .inr (.inr (.inl ⟨v, _, hs, ht, rfl, fun h => (nomatch h)⟩))
    | packet q0 =>
      obtain ⟨v, hv, rfl⟩ := Option.map_eq_some_iff.1 h
      obtain ⟨hs, ht, -⟩ := Cycles.step_packet_same hv
      exact .inr (.inl ⟨v, hs, ht, .inr (.inl rfl)⟩)
    | drained =>
      obtain ⟨v, hv, rfl⟩ := Option.map_eq_some_iff.1 h
      have hs := (Cycles.step_drained hv).1
      split
      next hp => exact .inr (.inr (.inl ⟨v, _, hs, hp, rfl, fun h => (nomatch h)⟩))
      next hp => exact .inr (.inl ⟨v, hs, hp, .inl rfl⟩)
    | wedgeCheck =>
      dsimp only at h
      split at h
      next =>
        obtain ⟨v, hv, rfl⟩ := Option.map_eq_some_iff.1 h
        obtain ⟨hs, ht, -⟩ := Cycles.step_tickEnd hv
        exact .inr (.inl ⟨v, hs, ht, .inr (.inr rfl)⟩)
      next =>
        split at h
        next hstall =>
          obtain ⟨v, hv, rfl⟩ := Option.map_eq_some_iff.1 h
          obtain ⟨hs, ht, -⟩ := Cycles.step_begins (.inr rfl) hv
          exact .inr (.inr (.inl ⟨v, _, hs, ht, rfl, fun _ => by omega⟩))
        next =>
          obtain ⟨v, hv, rfl⟩ := Option.map_eq_some_iff.1 h
          obtain ⟨hs, ht, -⟩ := Cycles.step_tickEnd hv
          exact .inr (.inl ⟨v, hs, ht, .inl rfl⟩)
    | sessionStarts =>
      obtain ⟨v, hv, rfl⟩ := Option.map_eq_some_iff.1 h
      obtain ⟨hs, ht, -⟩ := Cycles.step_ends (.inl rfl) hv
      exact .inr (.inr (.inr ⟨v, hs, ht, .inl rfl⟩))
    | sessionFails =>
      obtain ⟨v, hv, rfl⟩ := Option.map_eq_some_iff.1 h
      obtain ⟨hs, ht, -⟩ := Cycles.step_ends (.inr rfl) hv
      refine .inr (.inr (.inr ⟨v, hs, ht, .inr ?_⟩))
      split
      next hmax => exact .inl ⟨hmax, rfl⟩
      next hmax => exact .inr ⟨Nat.not_le.1 hmax, rfl⟩

theorem step_inv (s : Recovery) (a : RecoveryAct) (t : Recovery) (hi : s.Inv c) (h : s.step c a = some t) :
    t.Inv c := by
  obtain ⟨hup, ⟨ns, rfl⟩ | ⟨v, hs, hv, rfl | rfl | rfl⟩ | ⟨v, cause, hs, hv, rfl, hstall⟩ |
    ⟨v, hs, hv, rfl | ⟨hmax, rfl⟩ | ⟨hmax, rfl⟩⟩⟩ := step_cases h
  · have hpast : s.now ≤ s.now + ns := Nat.le_add_right _ _
    refine { hi with
      progress := hi.progress.trans hpast
      last := fun e he => ⟨(hi.last e he).1, (hi.last e he).2.1.trans hpast, (hi.last e he).2.2⟩
      attempt := fun hp => ?_ }
    obtain ⟨hbegan, hrest⟩ := hi.attempt hp
    exact ⟨hbegan.trans hpast, hrest⟩
  · exact hi.keep hs hv
  · exact { hi.keep hs hv with }
  · refine { hi.keep hs hv with
      progress := Nat.le_refl _
      last := fun e he => ⟨(hi.last e he).1, (hi.last e he).2.1, fun _ => (hi.last e he).2.1⟩
      level := fun _ _ _ => rfl
      attempt := fun hp => absurd hp hv }
  · exact begin_inv hi hup hs hv hstall
  · refine finish_inv hi hs hv (Nat.le_refl _) (fun _ => rfl) rfl ?_
    show s.exited = true ↔ _
    simp [hup]
  · exact finish_inv hi hs hv hi.progress (fun h => nomatch h) rfl ⟨fun _ => ⟨Nat.succ_pos _, hmax⟩, fun _ => rfl⟩
  · refine finish_inv hi hs hv (Nat.le_refl _) (fun _ => rfl) rfl ?_
    show s.exited = true ↔ _
    rw [hup]
    exact ⟨fun h => (nomatch h), fun h => absurd h.2 (Nat.not_le.2 hmax)⟩

theorem start_inv (c : RecoveryConfig) (cycleArmed cycleDisarmed : Bool) (now : ℕ) :
    (start cycleArmed cycleDisarmed now).Inv c where
  chain := .nil
  progress := Nat.le_refl _
  last _ h := nomatch h
  level _ _ h := nomatch h
  attempt h := nomatch h
  failures := rfl
  exit := by simp [start]

/-- In every run, whatever the times, packets, requests and session starts: each attempt
begins after the last has ended, and one for a wedge only after the stall allowed; the level
of the stall goes up with each restart for a wedge until the check sees `consumed` change;
the daemon counts the sessions that failed in a row, and exits when these are as many as it
may fail, and never before. -/
theorem recovery_paced (c : RecoveryConfig) (cycleArmed cycleDisarmed : Bool) (now : ℕ) {as : List RecoveryAct}
    (h : run (step c) (start cycleArmed cycleDisarmed now) as = some s) :
    s.attempts.IsChain (Follows c) ∧ s.restartFailures = (s.attempts.takeWhile fun e => e.failed).length ∧
    (s.exited = true ↔ 0 < s.restartFailures ∧ c.kMaxRestartFailures ≤ s.restartFailures) := by
  have hi := run_inv (Inv c) step_inv h (start_inv c cycleArmed cycleDisarmed now)
  exact ⟨hi.chain, hi.failures, hi.exit⟩

/-- Two half-second stalls that a restart ends, a failure, and a rate asked for in between. -/
def stalling : List RecoveryAct :=
  [.packet 7, .drained, .wedgeCheck, .pass 600000000, .drained, .wedgeCheck, .sessionFails, .rateChange, .sessionFails,
    .pass 600000000, .drained, .wedgeCheck, .pass 1000000, .sessionStarts]

theorem recovery_paced_stalling : ∃ s, run (step {}) (start false false 0) stalling = some s ∧
    s.attempts.length = 3 ∧ s.attempts.IsChain (Follows {}) ∧ s.exited = false := by
  have hr : (run (step {}) (start false false 0) stalling).map (fun s => (s.attempts.length, s.exited)) =
      some (3, false) := by
    decide +kernel
  obtain ⟨s, hs, hsame⟩ := Option.map_eq_some_iff.1 hr
  obtain ⟨hlen, hup⟩ := Prod.mk.inj hsame
  exact ⟨s, hs, hlen, (recovery_paced {} false false 0 hs).1, hup⟩

/-! ## A device that is gone -/

theorem limit_mono (hw : c.kWedgeNs ≤ kWedgeBackoffNs) {k n : ℕ} (h : k ≤ n) : c.limit k ≤ c.limit n := by
  unfold RecoveryConfig.limit
  split
  next hk => rw [if_pos (hk.trans h)]
  next =>
    split
    · exact hw
    · exact Nat.le_refl _

/-- The stalls before `k` restarts for a wedge in a row. -/
def stalls (c : RecoveryConfig) (k : ℕ) : ℕ := ((List.range k).map fun i => c.limit (i + 1)).sum

/-- `k` restarts for a wedge after another take as long as the stalls allowed before them. -/
theorem wedges_span {l : List Attempt} {next e : Attempt} (hc : (next :: l).IsChain (Follows c))
    (hspan : next.began ≤ next.ended) {k : ℕ} (he : (next :: l)[k]? = some e)
    (hwedge : ∀ x ∈ (next :: l).take k, x.cause = .wedge) :
    e.ended + (((next :: l).take k).map fun x => c.limit x.level).sum ≤ next.ended := by
  induction k generalizing l next with
  | zero =>
    obtain rfl := Option.some.inj he
    exact Nat.le_refl _
  | succ k ih =>
    cases l with
    | nil => cases he
    | cons prev l =>
      obtain ⟨hfollows, hrest⟩ := List.isChain_cons_cons.1 hc
      have hended := ih hrest hfollows.span he fun x hx => hwedge x (List.mem_cons_of_mem _ hx)
      have hlater := hfollows.backoff (hwedge next List.mem_cons_self)
      rw [List.take_succ_cons, List.map_cons, List.sum_cons]
      omega

/-- With no packet seen between them their levels go up, and so do the stalls allowed. -/
theorem stalls_le (hw : c.kWedgeNs ≤ kWedgeBackoffNs) {l : List Attempt} {next : Attempt}
    (hc : (next :: l).IsChain (Follows c))
    {k : ℕ} (hk : k ≤ l.length) (hwedge : ∀ x ∈ (next :: l).take (k + 1), x.cause = .wedge)
    (hquiet : ∀ x ∈ (next :: l).take k, x.quiet = true) :
    k ≤ next.level ∧ stalls c k ≤ (((next :: l).take k).map fun x => c.limit x.level).sum := by
  induction k generalizing l next with
  | zero => exact ⟨Nat.zero_le _, Nat.le_refl _⟩
  | succ k ih =>
    cases l with
    | nil => cases hk
    | cons prev l =>
      obtain ⟨hfollows, hrest⟩ := List.isChain_cons_cons.1 hc
      obtain ⟨hlevel, hstalls⟩ := ih hrest (Nat.le_of_succ_le_succ hk)
        (fun x hx => hwedge x (List.mem_cons_of_mem _ hx)) fun x hx => hquiet x (List.mem_cons_of_mem _ hx)
      have hcounts : next.level = prev.level + 1 := by
        rw [hfollows.level, if_pos (hquiet next List.mem_cons_self), Attempt.counts,
          if_pos (hwedge prev (List.mem_cons_of_mem _ List.mem_cons_self))]
      have hmono := limit_mono hw (show k + 1 ≤ next.level by omega)
      have hsum : stalls c (k + 1) = stalls c k + c.limit (k + 1) := by
        simp [stalls, List.range_succ]
      rw [hsum, List.take_succ_cons, List.map_cons, List.sum_cons]
      omega

/-- The attempts that made the daemon exit. -/
theorem exit_attempts (hi : s.Inv c) (hexit : s.exited = true) {k : ℕ} (hk : k < max 1 c.kMaxRestartFailures) :
    ∃ e, s.attempts[k]? = some e ∧ e.failed = true := by
  obtain ⟨hpos, hcount⟩ := hi.exit.1 hexit
  rw [hi.failures] at hpos hcount
  have hlt : k < (s.attempts.takeWhile fun e => e.failed).length := by omega
  refine ⟨(s.attempts.takeWhile fun e => e.failed)[k], ?_, ?_⟩
  · have hprefix := List.takeWhile_prefix (fun e : Attempt => e.failed) (l := s.attempts)
    exact (List.prefix_iff_getElem?.1 hprefix k hlt)
  · exact List.all_eq_true.1 List.all_takeWhile _ (List.getElem_mem hlt)

/-- With the defaults these are 500 ms twice, then 5 s twice. -/
example : stalls {} ((({} : RecoveryConfig).kMaxRestartFailures) - 1) = 11000000000 := by decide

/-- Capture stops, and no session starts. -/
def gone : List RecoveryAct :=
  [.packet 7, .drained, .wedgeCheck] ++
    (List.replicate 3 [.pass 500000001, .drained, .wedgeCheck, .sessionFails]).flatten ++
    (List.replicate 2 [.pass 5000000001, .drained, .wedgeCheck, .sessionFails]).flatten

/-- The first `k` intervals are all shorter than the floor. -/
def Near (ts : List ℕ) (k : ℕ) : Prop :=
  ∀ i < k, ∃ a b, ts[i]? = some a ∧ ts[i + 1]? = some b ∧ a - b < kCycleRestartFloorNs

/-- The restarts for a gap so far: as many as were counted, in order, and paced. -/
structure CyclesPaced (s : Recovery) : Prop where
  count : s.cycleTimes.length = s.cycles.cycleRestarts
  sorted : s.cycleTimes.Pairwise (· ≥ ·)
  past : ∀ t ∈ s.cycleTimes, t ≤ s.now
  paced : Paced 3 kCycleRestartFloorNs s.cycleTimes
  last : s.cycles.cycleDisarmed = false → ∀ t ∈ s.cycleTimes.head?, s.cycles.lastCycleRestart = t
  burst : s.cycles.cycleDisarmed = false → s.cycles.cycleRestartBurst ≤ 2 ∧
    ∀ k, Near s.cycleTimes k → k ≤ s.cycles.cycleRestartBurst

/-- What the check remembers of restarts is left, but that it may be turned off. -/
structure CyclesKept (s t : Recovery) : Prop where
  restarts : t.cycles.cycleRestarts = s.cycles.cycleRestarts
  times : t.cycleTimes = s.cycleTimes
  disarmed : s.cycles.cycleDisarmed = true → t.cycles.cycleDisarmed = true
  same : t.cycles.cycleDisarmed = false → Cycles.SameRestarts s.cycles t.cycles

/-- The session is restarted for a gap. -/
structure CycleRestart (s t : Recovery) : Prop where
  now : t.now = s.now
  before : s.cycles.cycleDisarmed = false
  after : t.cycles.cycleDisarmed = false
  restarts : t.cycles.cycleRestarts = s.cycles.cycleRestarts + 1
  last : t.cycles.lastCycleRestart = s.now
  times : t.cycleTimes = s.now :: s.cycleTimes
  burst : s.now - s.cycles.lastCycleRestart < kCycleRestartFloorNs ∧
      t.cycles.cycleRestartBurst = s.cycles.cycleRestartBurst + 1 ∧ s.cycles.cycleRestartBurst < 2 ∨
    kCycleRestartFloorNs ≤ s.now - s.cycles.lastCycleRestart ∧ t.cycles.cycleRestartBurst = 0

theorem step_cycles {a : RecoveryAct} (h : s.step c a = some t) :
    s.now ≤ t.now ∧ (CyclesKept s t ∨ CycleRestart s t) := by
  have hsame {v : Cycles} {t : Recovery} (hv : Cycles.SameRestarts s.cycles v) (hcycles : t.cycles = v)
      (hnow : s.now ≤ t.now)
      (htimes : t.cycleTimes = s.cycleTimes) : s.now ≤ t.now ∧ (CyclesKept s t ∨ CycleRestart s t) :=
    ⟨hnow, .inl ⟨hcycles ▸ hv.restarts, htimes, fun hd => hcycles ▸ hv.disarmed.trans hd, fun _ => hcycles ▸ hv⟩⟩
  unfold step at h
  split at h
  next => cases h
  next =>
    cases a with
    | pass ns =>
      obtain rfl := Option.some.inj h
      exact hsame ⟨rfl, rfl, rfl, rfl⟩ rfl (Nat.le_add_right _ _) rfl
    | rateChange =>
      obtain ⟨v, hv, rfl⟩ := Option.map_eq_some_iff.1 h
      exact hsame (Cycles.step_begins (.inl rfl) hv).2.2 rfl (Nat.le_refl _) rfl
    | packet q0 =>
      obtain ⟨v, hv, rfl⟩ := Option.map_eq_some_iff.1 h
      exact hsame (Cycles.step_packet_same hv).2.2 rfl (Nat.le_refl _) rfl
    | drained =>
      obtain ⟨v, hv, rfl⟩ := Option.map_eq_some_iff.1 h
      obtain ⟨-, ⟨hphase, hcount, hoff, hkeep⟩ | ⟨hphase, hs, ht, hcount, hlast, hburst⟩⟩ := Cycles.step_drained hv
      · rw [if_neg hphase]
        exact ⟨Nat.le_refl _, .inl ⟨hcount, rfl, hoff, hkeep⟩⟩
      · rw [if_pos hphase]
        exact ⟨Nat.le_refl _, .inr ⟨rfl, hs, ht, hcount, hlast, rfl, hburst⟩⟩
    | wedgeCheck =>
      dsimp only at h
      split at h
      · obtain ⟨v, hv, rfl⟩ := Option.map_eq_some_iff.1 h
        exact hsame (Cycles.step_tickEnd hv).2.2 rfl (Nat.le_refl _) rfl
      · split at h
        · obtain ⟨v, hv, rfl⟩ := Option.map_eq_some_iff.1 h
          exact hsame (Cycles.step_begins (.inr rfl) hv).2.2 rfl (Nat.le_refl _) rfl
        · obtain ⟨v, hv, rfl⟩ := Option.map_eq_some_iff.1 h
          exact hsame (Cycles.step_tickEnd hv).2.2 rfl (Nat.le_refl _) rfl
    | sessionStarts =>
      obtain ⟨v, hv, rfl⟩ := Option.map_eq_some_iff.1 h
      exact hsame (Cycles.step_ends (.inl rfl) hv).2.2 rfl (Nat.le_refl _) rfl
    | sessionFails =>
      obtain ⟨v, hv, rfl⟩ := Option.map_eq_some_iff.1 h
      split <;> exact hsame (Cycles.step_ends (.inr rfl) hv).2.2 rfl (Nat.le_refl _) rfl

theorem step_paced (s : Recovery) (a : RecoveryAct) (t : Recovery) (hi : s.CyclesPaced) (h : s.step c a = some t) :
    t.CyclesPaced := by
  obtain ⟨hnow, ⟨hcount, htimes, -, hsame⟩ | ⟨hat, hs, ht, hcount, hlast, htimes, hburst⟩⟩ := step_cycles h
  · refine ⟨?_, htimes ▸ hi.sorted, fun x hx => ?_, htimes ▸ hi.paced, fun hup => ?_, fun hup => ?_⟩
    · rw [htimes, hi.count, hcount]
    · rw [htimes] at hx
      exact (hi.past x hx).trans hnow
    · have hk := hsame hup
      rw [htimes, hk.last]
      exact hi.last (hk.disarmed ▸ hup)
    · have hk := hsame hup
      rw [htimes, hk.burst]
      exact hi.burst (hk.disarmed ▸ hup)
  · obtain ⟨htwo, hnear⟩ := hi.burst hs
    have hlatest := hi.last hs
    -- a run of short intervals goes on only with a short one
    have hgrows (k : ℕ) (hk : Near (s.now :: s.cycleTimes) k) : k ≤ t.cycles.cycleRestartBurst := by
      cases k with
      | zero => exact Nat.zero_le _
      | succ k =>
        have htail : Near s.cycleTimes k := fun i hik => hk (i + 1) (Nat.succ_lt_succ hik)
        obtain ⟨x, y, hx, hy, hxy⟩ := hk 0 (Nat.succ_pos k)
        obtain rfl := Option.some.inj hx
        have hprev := hlatest y (by simpa [List.head?_eq_getElem?] using hy)
        rcases hburst with ⟨-, hb, -⟩ | ⟨hfar, -⟩
        · rw [hb]
          exact Nat.succ_le_succ (hnear k htail)
        · omega
    have hthree : t.cycles.cycleRestartBurst ≤ 2 := by
      rcases hburst with ⟨-, hb, hlt⟩ | ⟨-, hb⟩ <;> omega
    refine ⟨?_, ?_, ?_, ?_, fun _ => ?_, fun _ => ⟨hthree, ?_⟩⟩
    · rw [htimes, List.length_cons, hi.count, hcount]
    · rw [htimes]
      exact List.pairwise_cons.2 ⟨hi.past, hi.sorted⟩
    · rw [htimes, hat]
      intro x hx
      rcases List.mem_cons.1 hx with rfl | hx
      · exact Nat.le_refl _
      · exact hi.past x hx
    · rw [htimes]
      refine hi.paced.cons fun b hb => ?_
      by_contra hclose
      -- else the last three intervals were all short
      have hsorted : (s.now :: s.cycleTimes).Pairwise (· ≥ ·) := List.pairwise_cons.2 ⟨hi.past, hi.sorted⟩
      have hshort : Near (s.now :: s.cycleTimes) 3 := by
        obtain ⟨hlen, rfl⟩ := List.getElem?_eq_some_iff.1 hb
        intro i hi3
        refine ⟨_, _, List.getElem?_eq_getElem (by omega), List.getElem?_eq_getElem (by omega), ?_⟩
        have hfirst : (s.now :: s.cycleTimes)[i] ≤ s.now := by
          rcases List.mem_cons.1 (List.getElem_mem (show i < (s.now :: s.cycleTimes).length by omega)) with he | hm
          · exact he.le
          · exact hi.past _ hm
        have hsecond : (s.now :: s.cycleTimes)[3] ≤ (s.now :: s.cycleTimes)[i + 1] := by
          rcases Nat.eq_or_lt_of_le (show i + 1 ≤ 3 by omega) with he | hlt
          · simp only [he, Nat.le_refl]
          · exact List.pairwise_iff_getElem.1 hsorted (i + 1) 3 (by omega) hlen hlt
        have hfloor : 0 < kCycleRestartFloorNs := by decide
        omega
      have := hgrows 3 hshort
      omega
    · rw [htimes, hlast]
      rintro x ⟨⟩
      rfl
    · rw [htimes]
      exact hgrows

theorem start_paced (cycleArmed cycleDisarmed : Bool) (now : ℕ) : (start cycleArmed cycleDisarmed now).CyclesPaced where
  count := rfl
  sorted := .nil
  past _ h := nomatch h
  paced := paced_nil
  last _ _ h := nomatch h
  burst _ := by
    refine ⟨Nat.zero_le _, fun k hk => Nat.not_lt.1 fun hpos => ?_⟩
    obtain ⟨a, b, ha, -⟩ := hk 0 hpos
    cases ha

/-- What a run adds to the restarts for a gap. -/
theorem run_cycles {as : List RecoveryAct} (h : run (step c) s as = some t) : s.now ≤ t.now ∧
    (s.cycles.cycleDisarmed = true → t.cycles.cycleDisarmed = true ∧ t.cycles.cycleRestarts = s.cycles.cycleRestarts) ∧
    ∃ added, t.cycleTimes = added ++ s.cycleTimes ∧ ∀ x ∈ added, s.now ≤ x := by
  refine run_inv (fun u => s.now ≤ u.now ∧
    (s.cycles.cycleDisarmed = true → u.cycles.cycleDisarmed = true ∧ u.cycles.cycleRestarts = s.cycles.cycleRestarts) ∧
    ∃ added, u.cycleTimes = added ++ s.cycleTimes ∧ ∀ x ∈ added, s.now ≤ x) ?_ h
    ⟨Nat.le_refl _, fun hd => ⟨hd, rfl⟩, [], rfl, fun x hx => nomatch hx⟩
  rintro u a v ⟨hnow, hoff, added, htimes, hadded⟩ huv
  obtain ⟨hlater, hk | hr⟩ := step_cycles huv
  · refine ⟨hnow.trans hlater, fun hd => ?_, added, hk.times.trans htimes, hadded⟩
    obtain ⟨hu, hcount⟩ := hoff hd
    exact ⟨hk.disarmed hu, hk.restarts.trans hcount⟩
  · refine ⟨hnow.trans hlater, fun hd => ?_, u.now :: added, by rw [hr.times, htimes]; rfl, fun x hx => ?_⟩
    · exact absurd ((hoff hd).1.symm.trans hr.before) (by simp)
    · rcases List.mem_cons.1 hx with rfl | hx
      · exact hnow
      · exact hadded x hx

/-- A false alarm costs a few restarts: in any stretch of any run, at most three for a gap in
each half minute, and none once the check has turned itself off. -/
theorem cycle_restarts_paced (c : RecoveryConfig) (cycleArmed cycleDisarmed : Bool) (now : ℕ) {as bs : List RecoveryAct}
    (h : run (step c) (start cycleArmed cycleDisarmed now) as = some s) (h' : run (step c) s bs = some t) :
    t.cycles.cycleRestarts ≤ s.cycles.cycleRestarts + 3 * ((t.now - s.now) / kCycleRestartFloorNs + 1) ∧
    (s.cycles.cycleDisarmed = true → t.cycles.cycleRestarts = s.cycles.cycleRestarts) := by
  have hs := run_inv CyclesPaced step_paced h (start_paced cycleArmed cycleDisarmed now)
  have ht := run_inv CyclesPaced step_paced h' hs
  obtain ⟨hnow, hoff, added, htimes, hadded⟩ := run_cycles h'
  refine ⟨?_, fun hd => (hoff hd).2⟩
  have hpaced := ht.paced
  have hsorted := ht.sorted
  rw [htimes] at hpaced hsorted
  have hcount := hpaced.of_append.length_le (by decide) (by decide) (List.pairwise_append.1 hsorted).1 hadded
    (fun x hx => ht.past x (htimes ▸ List.mem_append_left _ hx))
  rw [← ht.count, ← hs.count, htimes, List.length_append]
  omega

/-- Ten clean seconds, then one gap after the other. -/
def flapping : List RecoveryAct :=
  [.packet 0, .packet 1, .pass 11000000000, .drained, .wedgeCheck] ++
    (List.replicate 3 [.packet 1, .packet 11, .pass 31000, .drained, .sessionStarts]).flatten ++
    [.packet 1, .packet 11, .drained, .wedgeCheck, .packet 21, .drained, .wedgeCheck]

theorem cycle_restarts_paced_flapping : ∃ t, run (step {}) (start false false 40000000000) flapping = some t ∧
    t.cycles.cycleDisarmed = true ∧ t.cycles.cycleRestarts = 3 ∧
    t.cycles.cycleRestarts ≤ 0 + 3 * ((t.now - 40000000000) / kCycleRestartFloorNs + 1) := by
  have hr : (run (step {}) (start false false 40000000000) flapping).map (fun t =>
      (t.cycles.cycleDisarmed, t.cycles.cycleRestarts)) = some (true, 3) := by decide +kernel
  obtain ⟨t, ht, hsame⟩ := Option.map_eq_some_iff.1 hr
  obtain ⟨hoff, hcount⟩ := Prod.mk.inj hsame
  exact ⟨t, ht, hoff, hcount, (cycle_restarts_paced {} false false 40000000000
    (show run (step {}) (start false false 40000000000) [] = some (start false false 40000000000) from rfl) ht).1⟩

end Recovery

end UserFace800.Session
