import UserFace800.Clock.Seed
/-!
# A locked timeline is the device's

While the seed stays the same and the clock locked, CoreAudio takes the slope between
stamps for the device's rate, so each stamp must be one of the device's anchors, moved by
a constant. `OnTimeline` is the invariant: the offset is the one the graft set, and the
frame count held is not past the last anchor seen. `locked_timeline` says that a stamp
which differs from the one before is the anchor of that very call, and that an anchor
ahead of all others of the run is adopted unless its host time is older.
-/
open UserFace800.Lib

namespace UserFace800.Clock

/-- The stamp the last call of `next` returned. -/
def returned (c : ZeroTimeStampClock) (calls : List Call) : Option Stamp := (outcomes c calls).getLast?.map (·.stamp)

/-- A call of `next` returns this seed and leaves the clock locked. -/
def StaysLocked (seed : ℕ) (c : ZeroTimeStampClock) : Call → Prop
  | .setTicksPerFrame _ => True
  | .next now v s h =>
    (c.next now.toNat v s h.toNat).val.stamp.seed = seed ∧ (c.next now.toNat v s h.toNat).val.locked = true

/-- The quantised frame count of a call's anchor, if it is plausible. -/
def anchor (c : ZeroTimeStampClock) : Call → List ℤ
  | .setTicksPerFrame _ => []
  | .next now v s h => if (c.believes now.toNat v s h.toNat).val then [c.quantise s] else []

/-- The anchors a run of calls believes, quantised. -/
def anchors : ZeroTimeStampClock → List Call → List ℤ
  | _, [] => []
  | c, call :: calls => anchor c call ++ ((step c call).map fun d => anchors d calls).getD []

namespace ZeroTimeStampClock

variable {c : ZeroTimeStampClock} {now devHost : ℕ} {devValid : Bool} {devSample : Double}

/-! ## One call -/

/-- The sample counts and the offset are whole periods. -/
structure Whole (c : ZeroTimeStampClock) : Prop where
  period : 0 < c.period
  sample : (c.period : ℤ) ∣ c.sample
  offset : (c.period : ℤ) ∣ c.offset

theorem Whole.graft (h : c.Whole) {s : ℤ} (hs : (c.period : ℤ) ∣ s) : (c.graft s).val.Whole := by
  unfold ZeroTimeStampClock.graft
  split
  · exact ⟨h.period, h.sample, dvd_sub (dvd_add h.sample (dvd_refl _)) hs⟩
  · exact h

theorem Whole.adopt (h : c.Whole) {s : ℤ} (hs : (c.period : ℤ) ∣ s) (devHost : ℕ) : (c.adopt s devHost).Whole := by
  unfold ZeroTimeStampClock.adopt
  split
  · exact ⟨h.period, dvd_add hs h.offset, h.offset⟩
  · exact ⟨h.period, h.sample, h.offset⟩

theorem Whole.follow (h : c.Whole) : (c.follow now devValid devSample devHost).val.Whole := by
  unfold ZeroTimeStampClock.follow
  rw [Logged.val_bind]
  split
  · rw [Logged.val_bind, Logged.val_pure]
    apply (h.graft (c.quantise_dvd devSample)).adopt
    rw [(c.graft_consts _).1]
    exact c.quantise_dvd devSample
  · exact h

theorem Whole.unlock (h : c.Whole) (lag : ℕ) : (c.unlock lag).val.Whole := by
  unfold ZeroTimeStampClock.unlock
  split
  · rw [Logged.val_bind]
    split
    · exact ⟨h.period, h.sample, h.offset⟩
    · exact h
  · exact h

theorem Whole.freeRun (h : c.Whole) (lag : ℕ) : (c.freeRun lag).val.Whole := by
  unfold ZeroTimeStampClock.freeRun
  split
  · exact h
  · dsimp only
    split
    · refine ⟨h.period, dvd_add h.sample ?_, h.offset⟩
      exact Dvd.intro_left _ rfl
    · exact h

theorem Whole.start (h : c.Whole) (now : ℕ) : (c.start now).Whole := by
  unfold ZeroTimeStampClock.start
  split
  · exact h
  · exact ⟨h.period, h.sample, h.offset⟩

theorem Whole.next (h : c.Whole) : (c.next now devValid devSample devHost).val.Whole := by
  have hstart : (c.start now).Whole := h.start now
  unfold ZeroTimeStampClock.next
  rw [Logged.val_bind]
  unfold catchUp
  split
  · rw [Logged.val_bind, Logged.val_bind]
    exact (hstart.follow.unlock _).freeRun _
  · exact hstart.follow

/-- A clock still locked after the second half was left alone by it. -/
theorem catchUp_locked (c : ZeroTimeStampClock) (now : ℕ) (h : (c.catchUp now).val.locked = true) :
    (c.catchUp now).val = c := by
  unfold catchUp at h ⊢
  split
  · rename_i hlt
    rw [if_pos hlt, Logged.val_bind, Logged.val_bind] at h
    rw [Logged.val_bind, Logged.val_bind]
    rw [((c.unlock _).val.freeRun_keeps _).2.1] at h
    rcases c.unlock_cases (sub64 now c.host).val with hu | ⟨-, -, -, hl, -⟩
    · rw [hu] at h ⊢
      unfold freeRun
      rw [if_pos h]
      rfl
    · rw [hl] at h
      cases h
  · rfl

/-- A call that leaves the clock locked only followed the device. -/
theorem next_locked (h : (c.next now devValid devSample devHost).val.locked = true) :
    (c.next now devValid devSample devHost).val = ((c.start now).follow now devValid devSample devHost).val :=
  catchUp_locked _ now h

theorem graft_started (c : ZeroTimeStampClock) (s : ℤ) : (c.graft s).val.started = c.started := by
  unfold graft
  split <;> rfl

theorem adopt_started (c : ZeroTimeStampClock) (s : ℤ) (devHost : ℕ) : (c.adopt s devHost).started = c.started := by
  unfold adopt
  split <;> rfl

theorem unlock_started (c : ZeroTimeStampClock) (lag : ℕ) : (c.unlock lag).val.started = c.started := by
  unfold unlock
  split
  · rw [Logged.val_bind]
    split <;> rfl
  · rfl

theorem freeRun_started (c : ZeroTimeStampClock) (lag : ℕ) : (c.freeRun lag).val.started = c.started := by
  unfold freeRun
  split
  · rfl
  · dsimp only
    split <;> rfl

theorem next_started (c : ZeroTimeStampClock) (now : ℕ) (devValid : Bool) (devSample : Double) (devHost : ℕ) :
    (c.next now devValid devSample devHost).val.started = true := by
  have hstart : (c.start now).started = true := by
    unfold start
    split
    · assumption
    · rfl
  have hfollow : ((c.start now).follow now devValid devSample devHost).val.started = true := by
    unfold follow
    rw [Logged.val_bind]
    split
    · rw [Logged.val_bind, Logged.val_pure, adopt_started, graft_started]
      exact hstart
    · exact hstart
  unfold next
  rw [Logged.val_bind]
  unfold catchUp
  split
  · rw [Logged.val_bind, Logged.val_bind, freeRun_started, unlock_started]
    exact hfollow
  · exact hfollow

end ZeroTimeStampClock

/-! ## What was returned -/

theorem returned_append (c : ZeroTimeStampClock) {calls : List Call} {d : ZeroTimeStampClock}
    (h : run step c calls = some d) {p : Stamp} (hp : returned c calls = some p) : d.started = true ∧ p = d.stamp := by
  induction calls using List.reverseRecOn generalizing d with
  | nil => cases hp
  | append_singleton calls call ih =>
    obtain ⟨e, he, hd⟩ := run_append_inv h
    rw [returned, outcomes_append he] at hp
    cases call with
    | setTicksPerFrame x =>
      cases hd
      rw [show outcomes e [.setTicksPerFrame x] = [] from rfl, List.append_nil] at hp
      obtain ⟨hstarted, hstamp⟩ := ih he hp
      exact ⟨hstarted, hstamp⟩
    | next now v s dh =>
      cases hd
      have hlast : outcomes e [.next now v s dh] =
          [⟨now.toNat, (e.next now.toNat v s dh.toNat).val.stamp, (e.next now.toNat v s dh.toNat).val.staleTicks.val,
            (e.next now.toNat v s dh.toNat).log⟩] := rfl
      rw [hlast, List.getLast?_concat] at hp
      cases hp
      exact ⟨e.next_started now.toNat v s dh.toNat, rfl⟩

/-! ## Within a run -/

namespace ZeroTimeStampClock

variable {c : ZeroTimeStampClock} {now devHost seed : ℕ} {devValid : Bool} {devSample : Double} {K : ℤ}

/-- The clock within a run whose graft set the offset `K`, after the anchors `seen`. -/
structure OnTimeline (seed : ℕ) (K : ℤ) (seen : List ℤ) (c : ZeroTimeStampClock) : Prop where
  locked : c.locked = true
  started : c.started = true
  seed : c.seed = seed
  offset : c.offset = K
  last : c.devSampleSeen ∈ seen
  top : c.sample ≤ c.devSampleSeen + K

/-- What a call of the run returns, against what the call before returned. -/
structure Faithful (K : ℤ) (seen : List ℤ) (c d : ZeroTimeStampClock) (now : ℕ) (devValid : Bool) (devSample : Double)
    (devHost : ℕ) : Prop where
  moved : (d.sample, d.host) ≠ (c.sample, c.host) →
    ∃ q, devSample = .fin q ∧ d.sample = ⌊q / c.period⌋ * c.period + K ∧ d.host = devHost
  adopted : (c.believes now devValid devSample devHost).val = true → (∀ a ∈ seen, a < c.quantise devSample) →
    c.host ≤ devHost → d.sample = c.quantise devSample + K ∧ d.host = devHost

theorem believes_fin (h : (c.believes now devValid devSample devHost).val = true) : ∃ q, devSample = .fin q := by
  unfold believes at h
  split at h
  · cases devSample with
    | fin q => exact ⟨q, rfl⟩
    | inf neg => cases h
    | nan => cases h
  · cases h

theorem start_of_started (h : c.started = true) (now : ℕ) : c.start now = c := if_pos h

/-- `adopt` takes the anchor whole or not at all. -/
theorem adopt_faithful {s : ℤ} (hs : ∃ q, devSample = .fin q ∧ s = ⌊q / c.period⌋ * c.period) (hoff : c.offset = K) :
    (((c.adopt s devHost).sample, (c.adopt s devHost).host) ≠ (c.sample, c.host) →
      ∃ q, devSample = .fin q ∧ (c.adopt s devHost).sample = ⌊q / c.period⌋ * c.period + K ∧
        (c.adopt s devHost).host = devHost) ∧
    (c.sample < s + K → c.host ≤ devHost → (c.adopt s devHost).sample = s + K ∧
      (c.adopt s devHost).host = devHost) := by
  obtain ⟨q, hq, hs⟩ := hs
  unfold adopt
  split
  · refine ⟨fun _ => ⟨q, hq, ?_, rfl⟩, fun _ _ => ⟨?_, rfl⟩⟩
    · rw [← hs, ← hoff]
    · rw [← hoff]
  · rename_i hno
    refine ⟨fun hne => absurd rfl hne, fun hlt hge => absurd ⟨?_, hge⟩ hno⟩
    rw [hoff]
    exact hlt

theorem adopt_last (c : ZeroTimeStampClock) (s : ℤ) (devHost : ℕ) : (c.adopt s devHost).devSampleSeen = s ∧
    (c.adopt s devHost).offset = c.offset := by
  unfold adopt
  split <;> exact ⟨rfl, rfl⟩

theorem adopt_top {s : ℤ} (h : c.sample ≤ s + c.offset) : (c.adopt s devHost).sample ≤ s + c.offset := by
  unfold adopt
  split
  · exact le_refl _
  · exact h

/-- A call within the run: no graft, and the anchor adopted if it is ahead. -/
theorem next_within {seen : List ℤ} (h : OnTimeline seed K seen c)
    (hstay : (c.next now devValid devSample devHost).val.seed = seed ∧
      (c.next now devValid devSample devHost).val.locked = true) :
    let d := (c.next now devValid devSample devHost).val
    OnTimeline seed K
        (seen ++ if (c.believes now devValid devSample devHost).val then [c.quantise devSample] else []) d ∧
      Faithful K seen c d now devValid devSample devHost := by
  intro d
  have hd : d = (c.follow now devValid devSample devHost).val := by
    rw [← start_of_started h.started now]
    exact next_locked hstay.2
  have hseed : d.seed = seed := hstay.1
  by_cases hb : (c.believes now devValid devSample devHost).val = true
  · rw [follow_believed hb] at hd
    rw [if_pos hb]
    rcases c.graft_cases (c.quantise devSample) with ⟨-, -, hgraft, -⟩ | ⟨-, hahead, hgraft⟩
    · -- a graft would have moved the seed
      rw [hd, ((c.graft _).val.adopt_consts _ _).2.2.2, hgraft, h.seed] at hseed
      omega
    · rw [hgraft] at hd
      rw [hd]
      obtain ⟨-, -, hl, hs⟩ := c.adopt_consts (c.quantise devSample) devHost
      obtain ⟨hlast, hoff⟩ := c.adopt_last (c.quantise devSample) devHost
      obtain ⟨q, hq⟩ := believes_fin hb
      have htop := h.top
      obtain ⟨hmoved, hadopt⟩ := adopt_faithful (s := c.quantise devSample) ⟨q, hq, by rw [hq]; rfl⟩ h.offset
      refine ⟨⟨hl.trans h.locked, (c.adopt_started _ _).trans h.started, hs.trans h.seed, hoff.trans h.offset, ?_, ?_⟩,
        hmoved, fun _ hall => hadopt ?_⟩
      · rw [hlast]
        exact List.mem_append_right _ (List.mem_singleton_self _)
      · rw [hlast, ← h.offset]
        apply adopt_top
        rw [h.offset]
        omega
      · have := hall _ h.last
        omega
  · rw [hd, follow_ignored hb, if_neg hb, List.append_nil]
    exact ⟨h, fun hne => absurd rfl hne, fun hb' => absurd hb' hb⟩

theorem start_reads (c : ZeroTimeStampClock) (now : ℕ) (devValid : Bool) (devSample : Double) (devHost : ℕ) :
    (c.start now).believes now devValid devSample devHost = c.believes now devValid devSample devHost ∧
      (c.start now).quantise devSample = c.quantise devSample := by
  unfold start
  split <;> exact ⟨rfl, rfl⟩

/-- The call that locks the clock sets the offset, a whole number of periods. -/
theorem next_enter (hw : c.Whole) (hout : ¬(c.locked = true ∧ c.seed = seed))
    (hstay : (c.next now devValid devSample devHost).val.seed = seed ∧
      (c.next now devValid devSample devHost).val.locked = true) :
    let d := (c.next now devValid devSample devHost).val
    ∃ K : ℤ, (c.period : ℤ) ∣ K ∧
      OnTimeline seed K (if (c.believes now devValid devSample devHost).val then [c.quantise devSample] else []) d ∧
      (c.started = true → Faithful K [] c d now devValid devSample devHost) := by
  intro d
  have hstarted : d.started = true := c.next_started now devValid devSample devHost
  obtain ⟨hperiod, -, hlock, hseed, -⟩ := c.start_consts now
  have hwhole : (c.start now).Whole := hw.start now
  have hd : d = ((c.start now).follow now devValid devSample devHost).val := next_locked hstay.2
  have hstay' : d.seed = seed ∧ d.locked = true := hstay
  rw [← hlock, ← hseed] at hout
  obtain ⟨hbel, hquant⟩ := c.start_reads now devValid devSample devHost
  rw [← hperiod, ← hbel, ← hquant]
  have hsame : c.started = true → c.start now = c := fun h => start_of_started h now
  generalize c.start now = b at hout hwhole hd hsame ⊢
  by_cases hb : (b.believes now devValid devSample devHost).val = true
  · rw [follow_believed hb] at hd
    rw [if_pos hb]
    rcases b.graft_cases (b.quantise devSample) with ⟨-, -, -, hoff⟩ | ⟨-, -, hgraft⟩
    · obtain ⟨hp, -, hsample, hhost⟩ := b.graft_consts (b.quantise devSample)
      obtain ⟨hlast, hoffset⟩ := (b.graft (b.quantise devSample)).val.adopt_last (b.quantise devSample) devHost
      obtain ⟨q, hq⟩ := believes_fin hb
      have hpos := hwhole.period
      obtain ⟨hmoved, hadopt⟩ := adopt_faithful (s := b.quantise devSample) ⟨q, hq, by rw [hp, hq]; rfl⟩ hoff
      rw [← hd, hsample, hhost, hp] at hmoved
      rw [← hd, hsample, hhost] at hadopt
      refine ⟨b.sample + b.period - b.quantise devSample,
        dvd_sub (dvd_add hwhole.sample (dvd_refl _)) (b.quantise_dvd devSample),
        ⟨hstay'.2, hstarted, hstay'.1, ?_, ?_, ?_⟩, fun h => ?_⟩
      · rw [hd, hoffset, hoff]
      · rw [hd, hlast]
        exact List.mem_singleton_self _
      · rw [hd, hlast, ← hoff]
        apply adopt_top
        rw [hsample, hoff]
        omega
      · rw [← hsame h]
        exact ⟨hmoved, fun _ _ => hadopt (by omega)⟩
    · -- without a graft it was locked before, at this seed
      rw [hgraft] at hd
      obtain ⟨-, -, hl, hs⟩ := b.adopt_consts (b.quantise devSample) devHost
      rw [hd, hl, hs] at hstay'
      exact absurd ⟨hstay'.2, hstay'.1⟩ hout
  · rw [follow_ignored hb] at hd
    rw [hd] at hstay'
    exact absurd ⟨hstay'.2, hstay'.1⟩ hout

end ZeroTimeStampClock

/-! ## The run -/

open ZeroTimeStampClock

theorem whole_of_run {c d : ZeroTimeStampClock} {calls : List Call} (h : run step c calls = some d) (hw : c.Whole) :
    d.Whole := by
  refine run_inv Whole ?_ h hw
  intro c call d hw hs
  cases call with
  | setTicksPerFrame x =>
    cases hs
    exact ⟨hw.period, hw.sample, hw.offset⟩
  | next now v s h =>
    cases hs
    exact hw.next

theorem period_of_run {c d : ZeroTimeStampClock} {calls : List Call} (h : run step c calls = some d) :
    d.period = c.period :=
  run_inv (fun e => e.period = c.period) (fun _ _ _ he hs => (step_period hs).trans he) h rfl

theorem anchors_cons {c d : ZeroTimeStampClock} {call : Call} (h : step c call = some d) (calls : List Call) :
    anchors c (call :: calls) = anchor c call ++ anchors d calls := by
  rw [anchors, h]
  rfl

/-- Once locked, the whole run is on one timeline. -/
theorem run_within {seed : ℕ} {K : ℤ} {seen : List ℤ} {c d : ZeroTimeStampClock} {calls : List Call}
    (hc : OnTimeline seed K seen c) (hm : Meets step (StaysLocked seed) c calls) (h : run step c calls = some d) :
    OnTimeline seed K (seen ++ anchors c calls) d := by
  induction calls generalizing c seen with
  | nil =>
    cases h
    rw [anchors, List.append_nil]
    exact hc
  | cons call calls ih =>
    rw [run_cons, Option.bind_eq_some_iff] at h
    obtain ⟨e, he, h⟩ := h
    rw [anchors_cons he, ← List.append_assoc]
    apply ih ?_ (hm.2 e he) h
    cases call with
    | setTicksPerFrame x =>
      cases he
      rw [anchor, List.append_nil]
      exact ⟨hc.locked, hc.started, hc.seed, hc.offset, hc.last, hc.top⟩
    | next now v s dh =>
      cases he
      exact (next_within hc hm.1).1

/-- Every call of a run that the first one enters is faithful to one timeline. -/
theorem run_faithful {seed : ℕ} {c : ZeroTimeStampClock} {calls : List Call} (hw : c.Whole)
    (hout : ¬(c.locked = true ∧ c.seed = seed)) (hm : Meets step (StaysLocked seed) c calls) :
    ∃ K : ℤ, (c.period : ℤ) ∣ K ∧ ∀ xs now v s h ys d, calls = xs ++ .next now v s h :: ys → run step c xs = some d →
      d.started = true → Faithful K (anchors c xs) d (d.next now.toNat v s h.toNat).val now.toNat v s h.toNat := by
  induction calls generalizing c with
  | nil => exact ⟨0, dvd_zero _, fun xs now v s h ys d hcalls => absurd hcalls (by simp)⟩
  | cons call calls ih =>
    cases call with
    | setTicksPerFrame x =>
      -- a new slope before the first anchor leaves the run to what follows
      obtain ⟨K, hK, hall⟩ := ih (c := c.setTicksPerFrame x) ⟨hw.period, hw.sample, hw.offset⟩ hout (hm.2 _ rfl)
      refine ⟨K, hK, fun xs now v s h ys d hcalls hd => ?_⟩
      rcases List.cons_eq_append_iff.1 hcalls with ⟨-, hnext⟩ | ⟨xs, rfl, rfl⟩
      · cases hnext
      · exact hall xs now v s h ys d rfl hd
    | next now v s h =>
      -- the graft of this call sets the constant for all the others
      obtain ⟨K, hK, hon, hfirst⟩ := next_enter hw hout hm.1
      refine ⟨K, hK, fun xs now' v' s' h' ys d hcalls hd hstarted => ?_⟩
      rcases List.cons_eq_append_iff.1 hcalls with ⟨rfl, hnext⟩ | ⟨xs, rfl, rfl⟩
      · cases hnext
        cases hd
        exact hfirst hstarted
      · have hd' : run step (c.next now.toNat v s h.toNat).val xs = some d := hd
        obtain ⟨hbefore, hstay, -⟩ := (meets_append hd' _).1 (hm.2 _ rfl)
        rw [anchors_cons rfl]
        exact (next_within (run_within hon hbefore hd') hstay).2

/-- Consider calls after which the seed returned is the same and the clock is locked,
before which it was unlocked or the seed another. There is one constant, a multiple of
the period: a stamp which differs from the one before is the anchor of the very call,
quantised and moved by the constant, with its host time. A plausible anchor whose
quantised frame count is ahead of all others of the run is adopted, unless its host
time is older than the one last returned. -/
theorem locked_timeline (period : ℕ) (hp : 0 < period) (ticksPerFrame ticksPerSecond : Double) {pre calls : List Call}
    {c : ZeroTimeStampClock} {seed : ℕ} (hc : run step (.init period ticksPerFrame ticksPerSecond) pre = some c)
    (hout : ¬(c.locked = true ∧ c.seed = seed)) (hlocked : Meets step (StaysLocked seed) c calls) :
    ∃ K : ℤ, (period : ℤ) ∣ K ∧ ∀ xs now v s h ys d p, calls = xs ++ .next now v s h :: ys → run step c xs = some d →
      returned (.init period ticksPerFrame ticksPerSecond) (pre ++ xs) = some p →
      let r := (d.next now.toNat v s h.toNat).val.stamp
      ((r.sampleTime, r.hostTime) ≠ (p.sampleTime, p.hostTime) →
        ∃ q, s = .fin q ∧ r.sampleTime = ⌊q / period⌋ * period + K ∧ r.hostTime = h.toNat) ∧
      ((d.believes now.toNat v s h.toNat).val = true → (∀ a ∈ anchors c xs, a < d.quantise s) → p.hostTime ≤ h.toNat →
        r.sampleTime = d.quantise s + K ∧ r.hostTime = h.toNat) := by
  have hinit : (ZeroTimeStampClock.init period ticksPerFrame ticksPerSecond).Whole :=
    ⟨init_period_pos _ _ _, dvd_zero _, dvd_zero _⟩
  have hcp : c.period = period := (period_of_run hc).trans (init_period hp _ _)
  obtain ⟨K, hK, hall⟩ := run_faithful (whole_of_run hc hinit) hout hlocked
  rw [hcp] at hK
  refine ⟨K, hK, fun xs now v s h ys d p hcalls hd hreturned => ?_⟩
  obtain ⟨hstarted, rfl⟩ := returned_append _ (run_append_some hc hd) hreturned
  have hfaithful := hall xs now v s h ys d hcalls hd hstarted
  have hdp : d.period = period := (period_of_run hd).trans hcp
  refine ⟨?_, hfaithful.adopted⟩
  rw [← hdp]
  exact hfaithful.moved

/-- The 24 MHz host clock at 48 kHz locks at the device's frame 1000. -/
def lock : Call := .next 1000000 true (.fin 1000) 1000000

theorem locked_timeline_lock : ∃ K : ℤ, (512 : ℤ) ∣ K ∧
    ∃ d, run step (.init 512 (.fin 500) (.fin 24000000)) [lock] = some d ∧
      (d.next 1300000 true (.fin 1600) 1290000).val.stamp.sampleTime = 1536 + K ∧
      (d.next 1300000 true (.fin 1600) 1290000).val.stamp.hostTime = 1290000 := by
  have h :=
    @locked_timeline 512 (by decide) (.fin 500) (.fin 24000000) [] [lock, .next 1300000 true (.fin 1600) 1290000]
    _ 2 rfl (by decide)
  obtain ⟨K, hK, hall⟩ := h ⟨show _ ∧ _ by decide +kernel, fun t ht => ⟨by
    rw [← Option.some.inj ht]
    exact show _ ∧ _ by decide +kernel, fun _ _ => trivial⟩⟩
  have hadopted := (hall [lock] 1300000 true (.fin 1600) 1290000 [] _ _ rfl rfl rfl).2
  refine ⟨K, hK, _, rfl, ?_⟩
  obtain ⟨hsample, hhost⟩ := hadopted (by decide +kernel) (by decide +kernel) (by decide +kernel)
  have hquantised :
      (((ZeroTimeStampClock.init 512 (.fin 500) (.fin 24000000)).next 1000000 true (.fin 1000) 1000000).val.quantise
      (.fin 1600)) = 1536 := by decide +kernel
  rw [← hquantised]
  exact ⟨hsample, hhost⟩

end UserFace800.Clock
