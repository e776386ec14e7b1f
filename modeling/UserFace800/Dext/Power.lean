import UserFace800.Lib.Run
import Mathlib.Tactic.Common
/-!
# Sleep and wake

Power events come on another thread, at any point of `Start` and `Stop`. On the way down
the driver only closes the gate in front of its registers; on the way up it queues a
rebuild of the controller, unless `Start` is still to do the bring-up. `power_sound` says
which orders are safe: all but those where an event lands between `Start`'s bring-up
and its last step, which forgets that the power was lost, and a `Stop` before `Start` is
through.
-/
open UserFace800.Lib

namespace UserFace800.Dext

/-- The next of the last steps of `Start`. -/
inductive StartStep where
  | bringUp
  | setStarted
  | clearDown
  | finished
  | failed
  deriving DecidableEq

/-- What the power events read and write: the gate, the driver's fields, the rebuilds
queued, and how far `Start` and `Stop` are. `rebuilt` is whether a bring-up has completed
since the power last went off. -/
structure Power where
  powered : Bool
  started : Bool := false
  wasPoweredDown : Bool := false
  queue : Bool := true
  pending : ℕ := 0
  intEnabled : Bool := true
  itRunning : Bool := false
  isoRunning : Bool := false
  isoContinuous : Bool := false
  start : StartStep := .bringUp
  stopBegun : Bool := false
  rebuilt : Bool := false
  deriving DecidableEq

/-- The power events and the steps they lead to. -/
inductive PowerAct where
  | off
  | on
  | start
  | rebuild
  | stop
  | release

namespace Power

/-- `SetPowerState` without `kIOServicePowerCapabilityOn`. -/
def setPowerOff (s : Power) : Power :=
  { s with
    powered := false
    intEnabled := false
    itRunning := false
    isoRunning := false
    isoContinuous := false
    wasPoweredDown := true
    rebuilt := false }

/-- `SetPowerState` with it. -/
def setPowerOn (s : Power) : Power :=
  if !s.started || !s.wasPoweredDown then { s with powered := true }
  else { s with powered := true, wasPoweredDown := false, pending := if s.queue then s.pending + 1 else s.pending }

/-- Whether a queued rebuild runs `uf_hw_bring_up`. -/
def builds (s : Power) : Bool := s.powered && s.started

/-- The queued block. With the gate open the bring-up succeeds. -/
def runRebuild (s : Power) : Power :=
  if s.builds then { s with pending := s.pending - 1, rebuilt := true, intEnabled := true }
  else { s with pending := s.pending - 1 }

/-- One of the last steps of `Start`. With the gate closed the reset reads all ones and
`Start` gives up. -/
def startNext (s : Power) : Option Power :=
  match s.start with
  | .bringUp =>
    some (if s.powered then { s with start := .setStarted, rebuilt := true } else { s with start := .failed })
  | .setStarted => some { s with started := true, start := .clearDown }
  | .clearDown => some { s with wasPoweredDown := false, start := .finished }
  | .finished => none
  | .failed => none

/-- `Stop` shuts `SetPowerState` out first, and lets go of the queue later. -/
def step (s : Power) : PowerAct → Option Power
  | .off => some s.setPowerOff
  | .on => some s.setPowerOn
  | .start => s.startNext
  | .rebuild => if s.pending = 0 then none else some s.runRebuild
  | .stop => if s.stopBegun then none else some { s with started := false, stopBegun := true }
  | .release => if s.stopBegun && s.queue then some { s with queue := false, intEnabled := false } else none

/-- A queued rebuild that would run now finds `Start` finished, `Stop` not begun and the
gate open; and unless one is queued, the controller was brought up since the power last
went off. -/
structure Sound (s : Power) : Prop where
  rebuild : s.pending ≠ 0 → s.builds = true → s.start = .finished ∧ s.stopBegun = false ∧ s.powered = true
  rebuilt : s.powered = true → s.start = .finished → s.stopBegun = false → s.pending = 0 → s.rebuilt = true

/-- No power-off between the bring-up of `Start` and its last step, no power-on that would
queue a rebuild before that step, and no `Stop` before `Start` has set `started`. -/
def Undisturbed (s : Power) : PowerAct → Prop
  | .off => s.stopBegun = true ∨ s.start ≠ .setStarted ∧ s.start ≠ .clearDown
  | .on => s.start = .clearDown → s.started = true → s.wasPoweredDown = false
  | .stop => s.start ≠ .bringUp ∧ s.start ≠ .setStarted
  | _ => True

instance (s : Power) : ∀ a, Decidable (s.Undisturbed a)
  | .off => inferInstanceAs (Decidable (_ ∨ _))
  | .on => inferInstanceAs (Decidable (_ → _))
  | .stop => inferInstanceAs (Decidable (_ ∧ _))
  | .start => .isTrue trivial
  | .rebuild => .isTrue trivial
  | .release => .isTrue trivial

/-- What holds before each of the last steps of `Start`, and after them. -/
structure Inv (s : Power) : Prop where
  early : s.start = .bringUp ∨ s.start = .setStarted → s.stopBegun = false ∧ s.queue = true
  unstarted : s.start = .bringUp ∨ s.start = .setStarted ∨ s.start = .failed ∨ s.stopBegun = true → s.started = false
  idle : s.start ≠ .finished → s.pending = 0
  built : s.start = .setStarted ∨ s.start = .clearDown → s.stopBegun = false → s.powered = true ∧ s.rebuilt = true
  through : s.start = .clearDown ∨ s.start = .finished → s.stopBegun = false → s.started = true ∧ s.queue = true
  awake : s.start = .finished → s.stopBegun = false → s.powered = true → s.rebuilt = true ∨ s.pending ≠ 0
  asleep : s.start = .finished → s.stopBegun = false → s.powered = false → s.wasPoweredDown = true

variable {s t : Power}

theorem Inv.sound (h : Inv s) : Sound s := by
  refine ⟨fun hp hb => ?_, fun hpow hfin hstop hp => ?_⟩
  · obtain ⟨hpow, hstarted⟩ := Bool.and_eq_true_iff.1 hb
    have hfin : s.start = .finished := by
      by_contra hne
      exact hp (h.idle hne)
    have hstop : s.stopBegun = false := by
      by_contra hne
      have hno := h.unstarted (.inr (.inr (.inr (Bool.eq_true_of_not_eq_false hne))))
      rw [hno] at hstarted
      cases hstarted
    exact ⟨hfin, hstop, hpow⟩
  · exact (h.awake hfin hstop hpow).resolve_right fun hne => hne hp

theorem inv_off (h : Inv s) (hu : s.Undisturbed .off) : Inv s.setPowerOff := by
  have hstart : s.stopBegun = true ∨ s.start ≠ .setStarted ∧ s.start ≠ .clearDown := hu
  refine ⟨h.early, h.unstarted, h.idle, fun hs hstop => ?_, h.through, fun _ _ hp => (nomatch hp), fun _ _ _ => rfl⟩
  change s.stopBegun = false at hstop
  rw [hstop] at hstart
  rcases hstart with hstart | hstart
  · cases hstart
  · exact (hs.elim hstart.1 hstart.2).elim

theorem inv_on (h : Inv s) (hu : s.Undisturbed .on) : Inv s.setPowerOn := by
  unfold setPowerOn
  split
  · rename_i hc
    refine ⟨h.early, h.unstarted, h.idle, fun hs hstop => ⟨rfl, (h.built hs hstop).2⟩, h.through, fun hs hstop _ => ?_,
      fun _ _ hp => (nomatch hp)⟩
    -- nothing is queued here, so the power had not been lost
    have hstarted := (h.through (.inr hs) hstop).1
    have hdown : s.wasPoweredDown = false := by simpa [hstarted] using hc
    refine h.awake hs hstop ?_
    by_contra hp
    have hlost := h.asleep hs hstop (Bool.eq_false_of_not_eq_true hp)
    rw [hdown] at hlost
    cases hlost
  · rename_i hc
    simp only [Bool.or_eq_true, Bool.not_eq_true', not_or, Bool.not_eq_false] at hc
    have hfin : s.start = .finished := by
      cases hs : s.start with
      | finished => rfl
      | clearDown =>
        have hno := hu hs hc.1
        rw [hno] at hc
        cases hc.2
      | bringUp => exact absurd (h.unstarted (.inl hs)) (by simp [hc.1])
      | setStarted => exact absurd (h.unstarted (.inr (.inl hs))) (by simp [hc.1])
      | failed => exact absurd (h.unstarted (.inr (.inr (.inl hs)))) (by simp [hc.1])
    refine ⟨h.early, h.unstarted, fun hs => absurd hfin hs, fun hs hstop => ⟨rfl, (h.built hs hstop).2⟩, h.through,
      fun hs hstop _ => .inr ?_, fun _ _ hp => (nomatch hp)⟩
    change (if s.queue = true then s.pending + 1 else s.pending) ≠ 0
    rw [if_pos (h.through (.inr hs) hstop).2]
    exact Nat.succ_ne_zero _

theorem inv_start (h : Inv s) (hs : s.startNext = some t) : Inv t := by
  unfold startNext at hs
  split at hs
  · rename_i hst
    obtain ⟨hstop, hqueue⟩ := h.early (.inl hst)
    have hno := h.unstarted (.inl hst)
    have hidle := h.idle (by simp [hst])
    cases hs
    split
    · rename_i hp
      exact ⟨fun _ => ⟨hstop, hqueue⟩, fun _ => hno, fun _ => hidle, fun _ _ => ⟨hp, rfl⟩, by simp, by simp, by simp⟩
    · exact ⟨by simp, fun _ => hno, fun _ => hidle, by simp, by simp, by simp, by simp⟩
  · rename_i hst
    obtain ⟨hstop, hqueue⟩ := h.early (.inr hst)
    have hidle := h.idle (by simp [hst])
    have hbuilt := h.built (.inl hst) hstop
    cases hs
    exact ⟨by simp, by simp [hstop], fun _ => hidle, fun _ _ => hbuilt, fun _ _ => ⟨rfl, hqueue⟩, by simp, by simp⟩
  · rename_i hst
    have hidle := h.idle (by simp [hst])
    cases hs
    refine ⟨by simp, ?_, by simp, by simp, fun _ => h.through (.inl hst), fun _ hstop _ => ?_, fun _ hstop hp => ?_⟩
    · intro hcase
      refine h.unstarted (.inr (.inr (.inr ?_)))
      simpa using hcase
    · exact .inl (h.built (.inr hst) hstop).2
    · exact absurd (h.built (.inr hst) hstop).1 (by simp [show s.powered = false from hp])
  · cases hs
  · cases hs

theorem inv_rebuild (h : Inv s) (hp : s.pending ≠ 0) : Inv s.runRebuild := by
  have hfin : s.start = .finished := by
    by_contra hne
    exact hp (h.idle hne)
  unfold runRebuild
  split
  · exact ⟨h.early, h.unstarted, fun hs => absurd hfin hs, fun hs hstop => ⟨(h.built hs hstop).1, rfl⟩, h.through,
      fun _ _ _ => .inl rfl, h.asleep⟩
  · rename_i hb
    refine ⟨h.early, h.unstarted, fun hs => absurd hfin hs, h.built, h.through, fun hs hstop hpow => ?_, h.asleep⟩
    -- with the gate open and `started` set the block does build
    have hstarted := (h.through (.inr hs) hstop).1
    exact absurd (Bool.and_eq_true_iff.2 ⟨hpow, hstarted⟩) hb

theorem step_inv (s : Power) (a : PowerAct) (t : Power) (h : Inv s) (hu : s.Undisturbed a) (hs : s.step a = some t) :
    Inv t := by
  cases a with
  | off =>
    cases hs
    exact inv_off h hu
  | on =>
    cases hs
    exact inv_on h hu
  | start => exact inv_start h hs
  | rebuild =>
    simp only [step] at hs
    split at hs
    · cases hs
    · rename_i hp
      cases hs
      exact inv_rebuild h hp
  | stop =>
    simp only [step] at hs
    split at hs
    · cases hs
    · cases hs
      refine ⟨fun hc => ?_, fun _ => rfl, h.idle, by simp, by simp, by simp, by simp⟩
      exact (hc.elim hu.1 hu.2).elim
  | release =>
    simp only [step] at hs
    split at hs
    · rename_i hc
      obtain ⟨hstop, -⟩ := Bool.and_eq_true_iff.1 hc
      cases hs
      refine ⟨fun hst => ?_, h.unstarted, h.idle, h.built, ?_, h.awake, h.asleep⟩
      · have hno := (h.early hst).1
        rw [hstop] at hno
        cases hno
      · simp [hstop]
    · cases hs

/-! ## The orders left out -/

/-- The power goes off after the bring-up, `Start` goes on to forget it, and the power
comes back. -/
theorem off_unsound (h : Inv s) (hu : ¬ s.Undisturbed .off) :
    ∃ as u, run step s.setPowerOff as = some u ∧ ¬ u.Sound := by
  simp only [Undisturbed, not_or, not_and, not_not, Bool.not_eq_true] at hu
  obtain ⟨hstop, hstart⟩ := hu
  have hpending : s.start = .setStarted ∨ s.start = .clearDown → s.pending = 0 :=
    fun hs => h.idle (by rcases hs with hs | hs <;> simp [hs])
  have hstarted : s.start = .clearDown → s.started = true := fun hs => (h.through (.inl hs) hstop).1
  obtain ⟨powered, started, down, queue, pending, intEnabled, it, iso, cont, start, stop, rebuilt⟩ := s
  dsimp only at hstop hstart hpending hstarted
  subst hstop
  by_cases hs : start = .setStarted
  · subst hs
    cases hpending (.inl rfl)
    refine ⟨[.start, .start, .on], _, rfl, fun hsound => ?_⟩
    cases hsound.rebuilt rfl rfl rfl rfl
  · cases hstart hs
    cases hpending (.inr rfl)
    cases hstarted rfl
    refine ⟨[.start, .on], _, rfl, fun hsound => ?_⟩
    cases hsound.rebuilt rfl rfl rfl rfl

/-- The rebuild is queued before `Start` is through, and may run. -/
theorem on_unsound (h : Inv s) (hu : ¬ s.Undisturbed .on) : ¬ s.setPowerOn.Sound := by
  simp only [Undisturbed, Classical.not_imp, Bool.not_eq_false] at hu
  obtain ⟨hstart, hstarted, hdown⟩ := hu
  have hstop : s.stopBegun = false := by
    by_contra hne
    have hno := h.unstarted (.inr (.inr (.inr (Bool.eq_true_of_not_eq_false hne))))
    rw [hno] at hstarted
    cases hstarted
  have hqueue := (h.through (.inl hstart) hstop).2
  intro hsound
  have hfin := (hsound.rebuild (by simp [setPowerOn, hstarted, hdown, hqueue])
    (by simp [builds, setPowerOn, hstarted, hdown])).1
  simp [setPowerOn, hstarted, hdown, hstart] at hfin

/-- `Start` sets `started` after `Stop` has cleared it. -/
theorem stop_unsound (h : Inv s) (hu : ¬ s.Undisturbed .stop) :
    ∃ as u, run step { s with started := false, stopBegun := true } as = some u ∧ ¬ u.Sound := by
  have hstart : s.start = .bringUp ∨ s.start = .setStarted := by
    by_contra hne
    exact hu (not_or.1 hne)
  obtain ⟨-, hqueue⟩ := h.early hstart
  have hpending : s.pending = 0 := h.idle (by rcases hstart with hs | hs <;> simp [hs])
  obtain ⟨powered, started, down, queue, pending, intEnabled, it, iso, cont, start, stop, rebuilt⟩ := s
  dsimp only at hstart hqueue hpending
  subst hqueue hpending
  rcases hstart with rfl | rfl
  · refine ⟨[.on, .start, .start, .start, .off, .on], _, rfl, fun hsound => ?_⟩
    cases (hsound.rebuild (Nat.succ_ne_zero _) rfl).2.1
  · refine ⟨[.start, .start, .off, .on], _, rfl, fun hsound => ?_⟩
    cases (hsound.rebuild (Nat.succ_ne_zero _) rfl).2.1

/-- Before the last steps of `Start`. -/
def fresh (powered : Bool) : Power := { powered := powered }

theorem fresh_inv (powered : Bool) : Inv (fresh powered) := by
  constructor <;> simp [fresh]

/-- In every state of every run whose steps are undisturbed a rebuild would run only when it
may, and none is missing; and the first step that is disturbed leaves a way to a state where they do not. -/
theorem power_sound {powered : Bool} {acts : List PowerAct} {s : Power}
    (hm : Meets step Undisturbed (fresh powered) acts) (h : run step (fresh powered) acts = some s) :
    s.Sound ∧ ∀ a t, ¬ s.Undisturbed a → s.step a = some t → ∃ as u, run step t as = some u ∧ ¬ u.Sound := by
  have hinv := hm.inv Inv step_inv h (fresh_inv powered)
  refine ⟨hinv.sound, fun a t hu hs => ?_⟩
  cases a with
  | off =>
    cases hs
    exact off_unsound hinv hu
  | on =>
    cases hs
    exact ⟨[], _, rfl, on_unsound hinv hu⟩
  | stop =>
    simp only [step] at hs
    split at hs
    · cases hs
    · cases hs
      exact stop_unsound hinv hu
  | start => exact absurd trivial hu
  | rebuild => exact absurd trivial hu
  | release => exact absurd trivial hu

/-- Two sleeps after `Start`, the second before the first rebuild has run. -/
def asleepTwice : List PowerAct := [.start, .start, .start, .off, .on, .off, .rebuild, .on, .rebuild]

theorem power_sound_asleep : ∃ s, run step (fresh true) asleepTwice = some s ∧ s.Sound ∧ s.rebuilt = true := by
  have h : (run step (fresh true) asleepTwice).map (fun s => s.rebuilt) = some true := by decide
  obtain ⟨s, hs, hr⟩ := Option.map_eq_some_iff.1 h
  exact ⟨s, hs, (power_sound (by decide) hs).1, hr⟩

/-- A sleep and a wake around the last step of `Start`: the controller, which lost its power,
is not brought up, and no rebuild is queued. -/
theorem power_lost : ∃ s, run step (fresh true) [.start, .start, .off, .start, .on] = some s ∧
    s.powered = true ∧ s.start = .finished ∧ s.stopBegun = false ∧ s.pending = 0 ∧ s.rebuilt = false ∧ ¬ s.Sound := by
  refine ⟨_, rfl, rfl, rfl, rfl, rfl, rfl, fun hsound => ?_⟩
  cases hsound.rebuilt rfl rfl rfl rfl

end Power

end UserFace800.Dext
