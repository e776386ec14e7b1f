import UserFace800.Clock.ZeroTimeStamp
/-!
# When the seed moves

CoreAudio re-anchors whenever the seed of a stamp changes, so a seed that moves
too often keeps it from ever locking a rate. `next` can bump it in two places,
the graft of a device timeline and the loss of one. `seed_discipline` says that
one call never does both, and that the seed moves with the lock or with a
restarted device timeline and not otherwise. A grafted anchor is what decides
it: whichever host time the clock ends up holding, it is no older than an anchor
that was just found plausible.
-/
open UserFace800.Lib

namespace UserFace800.Clock

namespace ZeroTimeStampClock

variable {c : ZeroTimeStampClock} {now devHost : ℕ} {devValid : Bool} {devSample : Double}

/-! ## The constants -/

theorem graft_consts (c : ZeroTimeStampClock) (s : ℤ) :
    (c.graft s).val.period = c.period ∧ (c.graft s).val.staleTicks = c.staleTicks ∧
      (c.graft s).val.sample = c.sample ∧ (c.graft s).val.host = c.host := by
  unfold graft
  split <;> exact ⟨rfl, rfl, rfl, rfl⟩

theorem adopt_consts (c : ZeroTimeStampClock) (s : ℤ) (devHost : ℕ) :
    (c.adopt s devHost).period = c.period ∧ (c.adopt s devHost).staleTicks = c.staleTicks ∧
      (c.adopt s devHost).locked = c.locked ∧ (c.adopt s devHost).seed = c.seed := by
  unfold adopt
  split <;> exact ⟨rfl, rfl, rfl, rfl⟩

theorem start_consts (c : ZeroTimeStampClock) (now : ℕ) :
    (c.start now).period = c.period ∧ (c.start now).staleTicks = c.staleTicks ∧
      (c.start now).locked = c.locked ∧ (c.start now).seed = c.seed ∧
      (c.start now).devSampleSeen = c.devSampleSeen := by
  unfold start
  split <;> exact ⟨rfl, rfl, rfl, rfl, rfl⟩

theorem follow_consts (c : ZeroTimeStampClock) (now : ℕ) (devValid : Bool) (devSample : Double) (devHost : ℕ) :
    (c.follow now devValid devSample devHost).val.period = c.period ∧
      (c.follow now devValid devSample devHost).val.staleTicks = c.staleTicks := by
  obtain ⟨hp, hs, -, -⟩ := c.graft_consts (c.quantise devSample)
  obtain ⟨hp', hs', -, -⟩ := (c.graft (c.quantise devSample)).val.adopt_consts (c.quantise devSample) devHost
  unfold follow
  rw [Logged.val_bind]
  split
  · exact ⟨hp'.trans hp, hs'.trans hs⟩
  · exact ⟨rfl, rfl⟩

/-! ## The two halves of `next` -/

/-- A plausible anchor is at most the staleness window behind `now`. -/
theorem plausibleAnchor_fresh (hn : now < 2 ^ 64) (h : (c.plausibleAnchor now devSample devHost).val = true) :
    now - devHost ≤ c.staleTicks.val := by
  unfold plausibleAnchor at h
  cases devSample with
  | fin q =>
    dsimp only at h
    split at h
    · cases h
    · split at h
      · rename_i hgt
        rw [Nat.sub_eq_zero_of_le (le_of_lt hgt)]
        exact Nat.zero_le _
      · rename_i hle
        rw [Logged.val_bind, Logged.val_bind, sub64_val (Nat.le_of_not_lt hle) hn] at h
        exact of_decide_eq_true h
  | inf neg => cases h
  | nan => cases h

theorem believes_fresh (hn : now < 2 ^ 64) (h : (c.believes now devValid devSample devHost).val = true) :
    now - devHost ≤ c.staleTicks.val := by
  unfold believes at h
  split at h
  · exact plausibleAnchor_fresh hn h
  · cases h

/-- A graft locks, moves the seed and sets the offset; without one the clock is as it was. -/
theorem graft_cases (c : ZeroTimeStampClock) (s : ℤ) :
    ((c.locked = false ∨ s < c.devSampleSeen) ∧ (c.graft s).val.locked = true ∧
        (c.graft s).val.seed = (c.seed + 1) % 2 ^ 64 ∧ (c.graft s).val.offset = c.sample + c.period - s) ∨
      (c.locked = true ∧ c.devSampleSeen ≤ s ∧ (c.graft s).val = c) := by
  unfold graft
  split
  · rename_i h
    rw [Bool.not_eq_true'] at h
    exact .inl ⟨h, rfl, rfl, rfl⟩
  · rename_i h
    rw [not_or, Bool.not_eq_true', Bool.not_eq_false, Int.not_lt] at h
    exact .inr ⟨h.1, h.2, rfl⟩

/-- A believed anchor is grafted, if need be, and adopted. -/
theorem follow_believed (hb : (c.believes now devValid devSample devHost).val = true) :
    (c.follow now devValid devSample devHost).val =
      (c.graft (c.quantise devSample)).val.adopt (c.quantise devSample) devHost := by
  unfold follow
  rw [Logged.val_bind, if_pos hb, Logged.val_bind, Logged.val_pure]

theorem follow_ignored (hb : ¬(c.believes now devValid devSample devHost).val = true) :
    (c.follow now devValid devSample devHost).val = c := by
  unfold follow
  rw [Logged.val_bind, if_neg hb, Logged.val_pure]

/-- A graft puts the anchor one period ahead, so only an older host time keeps
it from being adopted. -/
theorem host_of_graft (hp : 0 < c.period) {s : ℤ} (hoff : (c.graft s).val.offset = c.sample + c.period - s)
    (devHost : ℕ) :
    devHost ≤ ((c.graft s).val.adopt s devHost).host := by
  obtain ⟨-, -, hsample, -⟩ := c.graft_consts s
  have hahead : s + (c.graft s).val.offset > (c.graft s).val.sample := by
    rw [hoff, hsample]
    omega
  unfold adopt
  split
  · exact le_refl _
  · rename_i h
    have hold : ¬devHost ≥ (c.graft s).val.host := fun hge => h ⟨hahead, hge⟩
    exact le_of_lt (Nat.lt_of_not_le hold)

/-- The anchor is believed and its frame count is behind the last one seen. -/
def Restarted (c : ZeroTimeStampClock) (now : ℕ) (devValid : Bool) (devSample : Double) (devHost : ℕ) : Prop :=
  (c.believes now devValid devSample devHost).val = true ∧ c.quantise devSample < c.devSampleSeen

/-- What the first half does to the lock and the seed: nothing, a graft that
leaves a fresh anchor, or no graft because the clock is locked and the device
has moved on. -/
theorem follow_cases (hp : 0 < c.period) (hn : now < 2 ^ 64) (devValid : Bool) (devSample : Double) (devHost : ℕ) :
    let e := (c.follow now devValid devSample devHost).val
    ((c.believes now devValid devSample devHost).val = false ∧ e = c) ∨
    ((c.believes now devValid devSample devHost).val = true ∧
      (c.locked = false ∨ c.quantise devSample < c.devSampleSeen) ∧
      e.locked = true ∧ e.seed = (c.seed + 1) % 2 ^ 64 ∧ now - e.host ≤ e.staleTicks.val) ∨
    (c.locked = true ∧ ¬c.quantise devSample < c.devSampleSeen ∧ e.locked = true ∧ e.seed = c.seed) := by
  intro e
  have hconsts := c.follow_consts now devValid devSample devHost
  have he : e = (c.follow now devValid devSample devHost).val := rfl
  by_cases hb : (c.believes now devValid devSample devHost).val = true
  · rw [follow_believed hb] at he
    have hadopt := (c.graft (c.quantise devSample)).val.adopt_consts (c.quantise devSample) devHost
    rcases c.graft_cases (c.quantise devSample) with ⟨hg, hlocked, hseed, hoff⟩ | ⟨hlocked, hahead, hgraft⟩
    · have hhost := host_of_graft hp hoff devHost
      have hfresh := believes_fresh hn hb
      refine .inr (.inl ⟨hb, hg, ?_, ?_, ?_⟩)
      · rw [he, hadopt.2.2.1]
        exact hlocked
      · rw [he, hadopt.2.2.2]
        exact hseed
      · rw [hconsts.2]
        rw [← he] at hhost
        omega
    · rw [hgraft] at he hadopt
      refine .inr (.inr ⟨hlocked, Int.not_lt.2 hahead, ?_, ?_⟩)
      · rw [he, hadopt.2.2.1]
        exact hlocked
      · rw [he, hadopt.2.2.2]
  · rw [follow_ignored hb] at he
    exact .inl ⟨Bool.eq_false_iff.2 hb, he⟩

theorem freeRun_keeps (c : ZeroTimeStampClock) (lag : ℕ) :
    (c.freeRun lag).val.period = c.period ∧ (c.freeRun lag).val.locked = c.locked ∧
    (c.freeRun lag).val.seed = c.seed := by
  unfold freeRun
  split
  · exact ⟨rfl, rfl, rfl⟩
  · dsimp only
    split <;> exact ⟨rfl, rfl, rfl⟩

theorem unlock_cases (c : ZeroTimeStampClock) (lag : ℕ) :
    (c.unlock lag).val = c ∨ (c.locked = true ∧ c.staleTicks.val < lag ∧ (c.unlock lag).val.period = c.period ∧
      (c.unlock lag).val.locked = false ∧ (c.unlock lag).val.seed = (c.seed + 1) % 2 ^ 64) := by
  unfold unlock
  by_cases hl : c.locked = true
  · rw [if_pos hl, Logged.val_bind]
    split
    · rename_i h
      exact .inr ⟨hl, h, rfl, rfl, rfl⟩
    · exact .inl rfl
  · rw [if_neg hl]
    exact .inl rfl

/-- The second half leaves the lock and the seed alone, or loses a lock on an
anchor outside the staleness window. -/
theorem catchUp_cases (hn : now < 2 ^ 64) :
    ((c.catchUp now).val.locked = c.locked ∧ (c.catchUp now).val.seed = c.seed) ∨
    (c.locked = true ∧ c.staleTicks.val < now - c.host ∧ (c.catchUp now).val.locked = false ∧
      (c.catchUp now).val.seed = (c.seed + 1) % 2 ^ 64) := by
  unfold catchUp
  split
  · rename_i h
    rw [Logged.val_bind, Logged.val_bind, sub64_val (le_of_lt h) hn]
    obtain ⟨-, hl, hs⟩ := (c.unlock (now - c.host)).val.freeRun_keeps (now - c.host)
    rw [hl, hs]
    rcases c.unlock_cases (now - c.host) with hu | ⟨hlock, hlag, -, hl', hs'⟩
    · rw [hu]
      exact .inl ⟨rfl, rfl⟩
    · exact .inr ⟨hlock, hlag, hl', hs'⟩
  · exact .inl ⟨rfl, rfl⟩

theorem catchUp_period (c : ZeroTimeStampClock) (now : ℕ) : (c.catchUp now).val.period = c.period := by
  unfold catchUp
  split
  · rw [Logged.val_bind, Logged.val_bind, ((c.unlock _).val.freeRun_keeps _).1]
    rcases c.unlock_cases (sub64 now c.host).val with hu | ⟨-, -, hp, -⟩
    · rw [hu]
    · exact hp
  · rfl

theorem next_period (c : ZeroTimeStampClock) (now : ℕ) (devValid : Bool) (devSample : Double) (devHost : ℕ) :
    (c.next now devValid devSample devHost).val.period = c.period := by
  unfold next
  rw [Logged.val_bind, catchUp_period, (follow_consts ..).1, (start_consts ..).1]

/-! ## One call -/

/-- The call changes whether the clock is locked, or finds the device timeline
restarted and stays locked. -/
def Discontinuity (c d : ZeroTimeStampClock) (now : ℕ) (devValid : Bool) (devSample : Double) (devHost : ℕ) : Prop :=
  c.locked ≠ d.locked ∨ (c.locked = true ∧ d.locked = true ∧ c.Restarted now devValid devSample devHost)

theorem next_seed (hp : 0 < c.period) (hn : now < 2 ^ 64) (devValid : Bool) (devSample : Double) (devHost : ℕ) :
    let d := (c.next now devValid devSample devHost).val
    (c.Discontinuity d now devValid devSample devHost → d.seed = (c.seed + 1) % 2 ^ 64) ∧
      (¬c.Discontinuity d now devValid devSample devHost → d.seed = c.seed) := by
  intro d
  obtain ⟨hsp, hss, hsl, hsd, hsn⟩ := c.start_consts now
  have hb : (c.start now).believes now devValid devSample devHost = c.believes now devValid devSample devHost := by
    unfold start
    split <;> rfl
  have hq : (c.start now).quantise devSample = c.quantise devSample := by
    unfold quantise
    rw [hsp]
  have hfollow := follow_cases (by rw [hsp]; exact hp) hn devValid devSample devHost (c := c.start now)
  rw [hb, hq, hsl, hsd, hsn] at hfollow
  have hcatch := catchUp_cases (c := ((c.start now).follow now devValid devSample devHost).val) hn
  -- `e` is the clock between the two halves
  generalize he : ((c.start now).follow now devValid devSample devHost).val = e at hfollow hcatch
  have hd : d = (e.catchUp now).val := by rw [← he]; rfl
  rw [← hd] at hcatch
  unfold Discontinuity Restarted
  rcases hfollow with ⟨hnb, hec⟩ | ⟨hbel, hg, hel, hes, hfresh⟩ | ⟨hl, hr, hel, hes⟩
  · -- no anchor: only the second half can move the seed
    have hel : e.locked = c.locked := by rw [hec, hsl]
    have hes : e.seed = c.seed := by rw [hec, hsd]
    rw [hel, hes] at hcatch
    rcases hcatch with ⟨hl, hs⟩ | ⟨hl, -, hl', hs⟩
    · refine ⟨fun h => ?_, fun _ => hs⟩
      rcases h with h | ⟨-, -, h, -⟩
      · exact absurd hl.symm h
      · rw [hnb] at h
        cases h
    · exact ⟨fun _ => hs, fun h => absurd (Or.inl (by rw [hl, hl']; decide)) h⟩
  · -- a graft: the anchor is fresh, so the second half keeps the lock
    rcases hcatch with ⟨hl, hs⟩ | ⟨-, hlag, -⟩
    · rw [hel] at hl
      rw [hes] at hs
      refine ⟨fun _ => hs, fun h => absurd ?_ h⟩
      by_cases hcl : c.locked = true
      · rcases hg with hg | hg
        · rw [hcl] at hg
          cases hg
        · exact .inr ⟨hcl, hl, hbel, hg⟩
      · exact .inl (by rw [hl]; exact hcl)
    · exact absurd hfresh (Nat.not_le.2 hlag)
  · rw [hel, hes] at hcatch
    rcases hcatch with ⟨hl', hs⟩ | ⟨-, -, hl', hs⟩
    · refine ⟨fun h => ?_, fun _ => hs⟩
      rcases h with h | ⟨-, -, -, h⟩
      · exact absurd (hl.trans hl'.symm) h
      · exact absurd h hr
    · exact ⟨fun _ => hs, fun h => absurd (Or.inl (by rw [hl, hl']; decide)) h⟩

/-- Without an anchor, a clock whose own is not stale holds what it has. -/
theorem next_holds (hn : now < 2 ^ 64) (hfresh : now - c.host ≤ c.staleTicks.val) (devSample : Double) (devHost : ℕ) :
    (c.next now false devSample devHost).val.locked = c.locked ∧
    (c.next now false devSample devHost).val.seed = c.seed := by
  obtain ⟨-, hss, hsl, hsd, -⟩ := c.start_consts now
  have hsf : now - (c.start now).host ≤ (c.start now).staleTicks.val := by
    rw [hss]
    unfold start
    split
    · exact hfresh
    · exact le_of_eq_of_le (Nat.sub_self now) (Nat.zero_le _)
  have hnext : (c.next now false devSample devHost).val = ((c.start now).catchUp now).val := rfl
  rw [hnext]
  rcases catchUp_cases (c := c.start now) hn with ⟨hl, hs⟩ | ⟨-, hlag, -⟩
  · exact ⟨hl.trans hsl, hs.trans hsd⟩
  · exact absurd hsf (Nat.not_le.2 hlag)

end ZeroTimeStampClock

/-! ## Every call of a run -/

theorem init_period_pos (period : ℕ) (x y : Double) : 0 < (ZeroTimeStampClock.init period x y).period := by
  unfold ZeroTimeStampClock.init ZeroTimeStampClock.setTicksPerFrame
  dsimp only
  split
  · exact Nat.one_pos
  · exact Nat.pos_of_ne_zero ‹_›

theorem step_period {c d : ZeroTimeStampClock} {call : Call} (hs : step c call = some d) : d.period = c.period := by
  cases call with
  | setTicksPerFrame x =>
    cases hs
    rfl
  | next now v s h =>
    cases hs
    exact c.next_period now.toNat v s h.toNat

/-- After any calls with any arguments, the next call of `next` steps the 64-bit
seed once if it gains or loses the lock, or stays locked and accepts a plausible
anchor whose quantised frame count is behind the last one seen; otherwise the
seed is unchanged. Without an anchor, a clock whose own is at most the staleness
window behind keeps its lock and its seed. -/
theorem seed_discipline (period : ℕ) (ticksPerFrame ticksPerSecond : Double) (calls : List Call)
    {c : ZeroTimeStampClock} (hr : run step (.init period ticksPerFrame ticksPerSecond) calls = some c)
    (now : BitVec 64) (devValid : Bool) (devSample : Double) (devHost : BitVec 64) :
    let d := (c.next now.toNat devValid devSample devHost.toNat).val
    (c.Discontinuity d now.toNat devValid devSample devHost.toNat → d.seed = (c.seed + 1) % 2 ^ 64) ∧
      (¬c.Discontinuity d now.toNat devValid devSample devHost.toNat → d.seed = c.seed) ∧
      (devValid = false → now.toNat - c.host ≤ c.staleTicks.val → d.locked = c.locked ∧ d.seed = c.seed) := by
  have hp : 0 < c.period := by
    refine run_inv (fun c => 0 < c.period) (fun s a t hs ht => ?_) hr (init_period_pos _ _ _)
    rw [step_period ht]
    exact hs
  obtain ⟨hyes, hno⟩ := ZeroTimeStampClock.next_seed hp now.isLt devValid devSample devHost.toNat
  refine ⟨hyes, hno, ?_⟩
  rintro rfl hfresh
  exact ZeroTimeStampClock.next_holds now.isLt hfresh devSample devHost.toNat

/-- A locked clock rides out a torn read. -/
theorem seed_discipline_torn :
    ((restarting 2).next 900000 false .nan 7).val.locked = true ∧
    ((restarting 2).next 900000 false .nan 7).val.seed = 2 :=
  (seed_discipline 512 (.fin 500) (.fin 24000000) [.next 5 true (.fin 0) 4] run_first 900000 false .nan 7).2.2 rfl
    (by decide)

end UserFace800.Clock
