import UserFace800.Lib.Run
import UserFace800.Protocol.Registers
/-!
# Rate requests

CoreAudio picks the rate: the plugin stores `requestedRate` and bumps
`requestSeq`, the daemon acts on a sequence number it has not seen and publishes
what is on the wire in `deviceRate`. The number is taken before the restart is
tried, so after one that fails only the recovery paths restart the session, at
the rate of before. `rate_follows` says the request survives in every other run;
`request_lost` is the run with such a recovery.
-/
open UserFace800.Lib UserFace800.Protocol

namespace UserFace800.Session

/-- Where `main` is: before it publishes its first rate, before it loads
`requestSeq`, at the top of a tick, with a new sequence number, past the request
check, or in `restart_session`, on a request or to recover. -/
inductive RatePhase where
  | booting
  | announced
  | ready
  | requested (req : ℕ)
  | checked
  | restarting (newRate : Quadlet) (onRequest : Bool)
  deriving DecidableEq

/-- The rate fields of the capture ring, the daemon's variables and, not in the
source, `publishing` (requests stored and not counted yet), `wanted` (the
supported rate requested last, the start rate at first) and `owed`: the restart
to a requested rate has failed and no request was taken since. -/
structure Rates where
  deviceRate : Quadlet := 0
  requestedRate : Quadlet := 0
  requestSeq : ℕ := 0
  rate : Quadlet
  seenRequest : ℕ := 0
  restartFailures : ℕ := 0
  phase : RatePhase := .booting
  publishing : ℕ := 0
  wanted : Quadlet
  owed : Bool := false

/-- The plugin's steps and the pump's, access by access on the control page. -/
inductive RateAct where
  /-- `SetNominalSampleRateImpl` or a fresh attach stores the rate it asks for, -/
  | store (hz : Quadlet)
  /-- and counts the request. -/
  | bump
  | announce
  | loadSeen
  | loadSeq
  | loadRate
  /-- A cycle discontinuity or a wedge. -/
  | recover
  | tickEnd
  | sessionStarts
  | sessionFails

namespace Rates

/-- A daemon started with this rate. -/
def start (startRate : Quadlet) : Rates where
  rate := startRate
  wanted := startRate

/-- `restart_session` up to the outcome of `session_start`. -/
def restart (s : Rates) (newRate : Quadlet) (onRequest : Bool) : Rates :=
  { s with deviceRate := 0, phase := .restarting newRate onRequest }

/-- The request check, with the sequence number it has loaded. -/
def handle (s : Rates) (req : ℕ) : Rates :=
  let want := s.requestedRate
  let s := { s with seenRequest := req, owed := s.owed && !isSupportedRate want }
  if want ≠ 0 ∧ want ≠ s.rate ∧ isSupportedRate want then s.restart want true else { s with phase := .checked }

/-- With `max` consecutive failures the daemon exits. -/
def step (max : ℕ) (s : Rates) (a : RateAct) : Option Rates :=
  match a, s.phase with
  | .store hz, _ => some { s with
      requestedRate := hz
      publishing := s.publishing + 1
      wanted := if isSupportedRate hz then hz else s.wanted }
  | .bump, _ =>
    if 0 < s.publishing then some { s with requestSeq := s.requestSeq + 1, publishing := s.publishing - 1 } else none
  | .announce, .booting => some { s with deviceRate := s.rate, phase := .announced }
  | .loadSeen, .announced => some { s with seenRequest := s.requestSeq, phase := .ready }
  | .loadSeq, .ready =>
    some { s with phase := if s.requestSeq ≠ s.seenRequest then .requested s.requestSeq else .checked }
  | .loadRate, .requested req => some (s.handle req)
  | .recover, .checked => some (s.restart s.rate false)
  | .tickEnd, .checked => some { s with phase := .ready }
  | .sessionStarts, .restarting newRate _ =>
    some { s with deviceRate := newRate, rate := newRate, restartFailures := 0, phase := .ready }
  | .sessionFails, .restarting _ onRequest =>
    if s.restartFailures + 1 < max then
      some { s with restartFailures := s.restartFailures + 1, phase := .ready, owed := s.owed || onRequest }
    else none
  | _, _ => none

/-- A request is under way: stored and not counted, counted and not seen, or seen
and not taken. -/
def Pending (s : Rates) : Prop := 0 < s.publishing ∨ s.requestSeq ≠ s.seenRequest

/-- It is a request for a supported rate. -/
def Coming (s : Rates) : Prop := s.Pending ∧ isSupportedRate s.requestedRate = true

/-- No request for a supported rate is counted before the daemon loads the
sequence number first, or followed by one for an unsupported rate before it is
taken; and no recovery brings the session back while a request is owed, unless
the next is under way. -/
def Heeded (s : Rates) : RateAct → Prop
  | .store hz => isSupportedRate hz = false → ¬ s.Coming
  | .loadSeen => isSupportedRate s.requestedRate = true → s.requestSeq = 0
  | .sessionStarts => s.owed = true → s.Coming
  | _ => True

instance (s : Rates) : Decidable s.Pending := inferInstanceAs (Decidable (_ ∨ _))

instance (s : Rates) : Decidable s.Coming := inferInstanceAs (Decidable (_ ∧ _))

instance (s : Rates) : ∀ a, Decidable (s.Heeded a)
  | .store _ => inferInstanceAs (Decidable (_ → ¬ _))
  | .loadSeen => inferInstanceAs (Decidable (_ → _))
  | .sessionStarts => inferInstanceAs (Decidable (_ → _))
  | .bump | .announce | .loadSeq | .loadRate | .recover | .tickEnd | .sessionFails => .isTrue trivial

/-! ## The invariant -/

/-- The rate the daemon streams at, or is about to. -/
def target (s : Rates) : Quadlet :=
  match s.phase with
  | .restarting newRate _ => newRate
  | _ => s.rate

/-- What is known in each phase. -/
def InPhase (s : Rates) : Prop :=
  match s.phase with
  | .booting | .announced => s.seenRequest = 0 ∧ s.owed = false
  | .requested req => s.seenRequest < req ∧ req ≤ s.requestSeq
  | .restarting newRate onRequest => s.deviceRate = 0 ∧ (onRequest = false → newRate = s.rate)
  | .ready | .checked => True

/-- Unless a request is coming that will settle it, the daemon's rate is the one
wanted, or the wire is silent and stays so until a recovery. -/
structure Inv (s : Rates) : Prop where
  seen : s.seenRequest ≤ s.requestSeq
  inPhase : s.InPhase
  wire : s.deviceRate = 0 ∨ s.deviceRate = s.rate
  requested : isSupportedRate s.requestedRate = true → s.requestedRate = s.wanted
  settled : ¬ s.Coming → s.owed = false → s.target = s.wanted
  owed : ¬ s.Coming → s.owed = true → s.deviceRate = 0

variable {s t : Rates}

theorem start_inv (startRate : Quadlet) : (start startRate).Inv where
  seen := le_refl 0
  inPhase := ⟨rfl, rfl⟩
  wire := .inl rfl
  requested := fun h => absurd (show isSupportedRate 0 = true from h) (by decide)
  settled := fun _ _ => rfl
  owed := fun _ h => nomatch h

theorem Inv.silent (hi : s.Inv) {newRate : Quadlet} {onRequest : Bool} (hp : s.phase = .restarting newRate onRequest) :
    s.deviceRate = 0 ∧ (onRequest = false → newRate = s.rate) := by
  have h := hi.inPhase
  unfold InPhase at h
  rwa [hp] at h

theorem Inv.taken (hi : s.Inv) {req : ℕ} (hp : s.phase = .requested req) :
    s.seenRequest < req ∧ req ≤ s.requestSeq := by
  have h := hi.inPhase
  unfold InPhase at h
  rwa [hp] at h

theorem Inv.boot (hi : s.Inv) (hp : s.phase = .booting ∨ s.phase = .announced) :
    s.seenRequest = 0 ∧ s.owed = false := by
  have h := hi.inPhase
  unfold InPhase at h
  rcases hp with hp | hp <;> rwa [hp] at h

theorem Inv.deviceRate (hi : s.Inv) (hd : s.deviceRate ≠ 0) (hp : ¬ s.Pending) : s.deviceRate = s.wanted := by
  have hc : ¬ s.Coming := fun hc => hp hc.1
  have howed : s.owed = false := by
    by_contra h
    exact hd (hi.owed hc (Bool.not_eq_false _ ▸ h))
  have htarget : s.target = s.rate := by
    unfold target
    split
    · rename_i hs
      exact absurd (hi.silent hs).1 hd
    · rfl
  rcases hi.wire with h0 | hr
  · exact absurd h0 hd
  · rw [hr, ← htarget, hi.settled hc howed]

/-- A request stored is one to come; one for a rate the device does not have
changes nothing. -/
theorem store_inv (hi : s.Inv) (hz : Quadlet) (hok : s.Heeded (.store hz)) : Inv { s with
    requestedRate := hz
    publishing := s.publishing + 1
    wanted := if isSupportedRate hz then hz else s.wanted } := by
  cases hs : isSupportedRate hz with
  | true =>
    have hcoming : Coming { s with requestedRate := hz, publishing := s.publishing + 1, wanted := hz } :=
      ⟨.inl (Nat.succ_pos _), hs⟩
    exact { hi with
      requested := fun _ => rfl
      settled := fun hc => absurd hcoming hc
      owed := fun hc => absurd hcoming hc }
  | false =>
    have hnot := hok hs
    exact { hi with
      requested := fun h => absurd (hs.symm.trans h) Bool.false_ne_true
      settled := fun _ => hi.settled hnot
      owed := fun _ => hi.owed hnot }

/-- A bump leaves the request to be seen. -/
theorem bump_inv (hi : s.Inv) :
    Inv { s with requestSeq := s.requestSeq + 1, publishing := s.publishing - 1 } := by
  have hseen := hi.seen
  have hcoming (hc : ¬ Coming { s with requestSeq := s.requestSeq + 1, publishing := s.publishing - 1 }) :
      ¬ s.Coming := by
    intro h
    exact hc ⟨.inr (by dsimp only; omega), h.2⟩
  have hphase : InPhase { s with requestSeq := s.requestSeq + 1, publishing := s.publishing - 1 } := by
    have h := hi.inPhase
    unfold InPhase at h ⊢
    cases hp : s.phase <;> simp only [hp] at h ⊢ <;> try exact h
    exact ⟨h.1, Nat.le_succ_of_le h.2⟩
  exact { hi with
    seen := Nat.le_succ_of_le hseen
    inPhase := hphase
    settled := fun hc => hi.settled (hcoming hc)
    owed := fun hc => hi.owed (hcoming hc) }

/-- The daemon says what the session it has started is at. -/
theorem announce_inv (hi : s.Inv) (hp : s.phase = .booting) :
    Inv { s with deviceRate := s.rate, phase := .announced } := by
  obtain ⟨hseen, howed⟩ := hi.boot (.inl hp)
  have htarget : s.target = s.rate := by simp only [target, hp]
  exact { hi with
    inPhase := ⟨hseen, howed⟩
    wire := .inr rfl
    settled := fun hc ho => htarget.symm.trans (hi.settled hc ho)
    owed := fun _ ho => absurd (howed.symm.trans ho) Bool.false_ne_true }

/-- Nothing for a supported rate is taken for seen. -/
theorem loadSeen_inv (hi : s.Inv) (hp : s.phase = .announced)
    (hok : isSupportedRate s.requestedRate = true → s.requestSeq = 0) :
    Inv { s with seenRequest := s.requestSeq, phase := .ready } := by
  obtain ⟨hseen, howed⟩ := hi.boot (.inr hp)
  have htarget : s.target = s.rate := by simp only [target, hp]
  refine { hi with
    seen := le_refl _
    inPhase := trivial
    settled := fun hc ho => htarget.symm.trans (hi.settled ?_ ho)
    owed := fun _ ho => absurd (howed.symm.trans ho) Bool.false_ne_true }
  -- what was coming still is
  rintro ⟨hpending, hs⟩
  refine hc ⟨?_, hs⟩
  rcases hpending with hpub | hseq
  · exact .inl hpub
  · rw [hseen] at hseq
    exact absurd (hok hs) hseq

theorem loadSeq_inv (hi : s.Inv) (hp : s.phase = .ready) :
    Inv { s with phase := if s.requestSeq ≠ s.seenRequest then .requested s.requestSeq else .checked } := by
  have htarget : s.target = s.rate := by simp only [target, hp]
  split
  · rename_i hne
    have hseen := hi.seen
    exact { hi with
      inPhase := ⟨by dsimp only; omega, le_refl _⟩
      settled := fun hc ho => htarget.symm.trans (hi.settled hc ho) }
  · exact { hi with
      inPhase := trivial
      settled := fun hc ho => htarget.symm.trans (hi.settled hc ho) }

theorem handle_unsupported {req : ℕ} (hs : isSupportedRate s.requestedRate = false) :
    s.handle req = { s with seenRequest := req, phase := .checked } := by
  simp [handle, hs]

theorem handle_supported {req : ℕ} (hs : isSupportedRate s.requestedRate = true) :
    s.handle req =
      if s.requestedRate ≠ s.rate then
        ({ s with seenRequest := req, owed := false } : Rates).restart s.requestedRate true
      else { s with seenRequest := req, owed := false, phase := .checked } := by
  have hzero : s.requestedRate ≠ 0 := by
    intro h
    rw [h] at hs
    exact absurd hs (by decide)
  simp only [handle, hs, hzero, ne_eq, not_false_eq_true, true_and, and_true, Bool.not_true, Bool.and_false]

/-- A request taken is followed, if it is for another rate and one the device has. -/
theorem handle_inv (hi : s.Inv) {req : ℕ} (hp : s.phase = .requested req) : (s.handle req).Inv := by
  obtain ⟨-, hle⟩ := hi.taken hp
  cases hs : isSupportedRate s.requestedRate with
  | false =>
    have hnot : ¬ s.Coming := fun hc => Bool.false_ne_true (hs.symm.trans hc.2)
    have htarget : s.target = s.rate := by simp only [target, hp]
    rw [handle_unsupported hs]
    exact { hi with
      seen := hle
      inPhase := trivial
      settled := fun _ ho => htarget.symm.trans (hi.settled hnot ho)
      owed := fun _ => hi.owed hnot }
  | true =>
    have hwanted := hi.requested hs
    rw [handle_supported hs]
    split
    · exact {
        seen := hle
        inPhase := ⟨rfl, fun h => nomatch h⟩
        wire := .inl rfl
        requested := hi.requested
        settled := fun _ _ => hwanted
        owed := fun _ h => nomatch h }
    · rename_i hrate
      have hrate : s.rate = s.requestedRate := (not_not.1 hrate).symm
      exact { hi with
        seen := hle
        inPhase := trivial
        settled := fun _ _ => hrate.trans hwanted
        owed := fun _ h => nomatch h }

/-- The wire is silent while the session restarts at the daemon's rate. -/
theorem recover_inv (hi : s.Inv) (hp : s.phase = .checked) : (s.restart s.rate false).Inv := by
  have htarget : s.target = s.rate := by simp only [target, hp]
  exact { hi with
    inPhase := ⟨rfl, fun _ => rfl⟩
    wire := .inl rfl
    settled := fun hc ho => htarget.symm.trans (hi.settled hc ho)
    owed := fun _ _ => rfl }

theorem tickEnd_inv (hi : s.Inv) (hp : s.phase = .checked) : Inv { s with phase := .ready } := by
  have htarget : s.target = s.rate := by simp only [target, hp]
  exact { hi with
    inPhase := trivial
    settled := fun hc ho => htarget.symm.trans (hi.settled hc ho) }

/-- A session that comes back owes nothing, or there is a request to come. -/
theorem sessionStarts_inv (hi : s.Inv) {newRate : Quadlet} {onRequest : Bool}
    (hp : s.phase = .restarting newRate onRequest) (hok : s.owed = true → s.Coming) :
    Inv { s with deviceRate := newRate, rate := newRate, restartFailures := 0, phase := .ready } := by
  have htarget : s.target = newRate := by simp only [target, hp]
  exact { hi with
    inPhase := trivial
    wire := .inr rfl
    settled := fun hc ho => htarget.symm.trans (hi.settled hc ho)
    owed := fun hc ho => absurd (hok ho) hc }

/-- The wire stays silent, and a recovery that fails leaves the daemon its rate. -/
theorem sessionFails_inv (hi : s.Inv) {newRate : Quadlet} {onRequest : Bool}
    (hp : s.phase = .restarting newRate onRequest) :
    Inv { s with restartFailures := s.restartFailures + 1, phase := .ready, owed := s.owed || onRequest } := by
  obtain ⟨hsilent, hrate⟩ := hi.silent hp
  have htarget : s.target = newRate := by simp only [target, hp]
  refine { hi with
    inPhase := trivial
    settled := ?_
    owed := fun _ _ => hsilent }
  intro hc ho
  obtain ⟨ho, hq⟩ := Bool.or_eq_false_iff.1 ho
  exact (hrate hq).symm.trans (htarget.symm.trans (hi.settled hc ho))

/-- Every step that heeds the request keeps the invariant. -/
theorem step_inv (max : ℕ) (s : Rates) (a : RateAct) (t : Rates) (hi : s.Inv) (hok : s.Heeded a)
    (h : step max s a = some t) : t.Inv := by
  cases a with
  | store hz =>
    cases h
    exact store_inv hi hz hok
  | bump =>
    simp only [step] at h
    split at h
    · cases h
      exact bump_inv hi
    · cases h
  | announce =>
    cases hp : s.phase <;> simp only [step, hp, reduceCtorEq, Option.some.injEq] at h
    exact h ▸ announce_inv hi hp
  | loadSeen =>
    cases hp : s.phase <;> simp only [step, hp, reduceCtorEq, Option.some.injEq] at h
    exact h ▸ loadSeen_inv hi hp hok
  | loadSeq =>
    cases hp : s.phase <;> simp only [step, hp, reduceCtorEq, Option.some.injEq] at h
    exact h ▸ loadSeq_inv hi hp
  | loadRate =>
    cases hp : s.phase <;> simp only [step, hp, reduceCtorEq, Option.some.injEq] at h
    exact h ▸ handle_inv hi hp
  | recover =>
    cases hp : s.phase <;> simp only [step, hp, reduceCtorEq, Option.some.injEq] at h
    exact h ▸ recover_inv hi hp
  | tickEnd =>
    cases hp : s.phase <;> simp only [step, hp, reduceCtorEq, Option.some.injEq] at h
    exact h ▸ tickEnd_inv hi hp
  | sessionStarts =>
    cases hp : s.phase <;> simp only [step, hp, reduceCtorEq, Option.some.injEq] at h
    exact h ▸ sessionStarts_inv hi hp hok
  | sessionFails =>
    cases hp : s.phase <;> simp only [step, hp, reduceCtorEq] at h
    split at h
    · cases h
      exact sessionFails_inv hi hp
    · cases h

end Rates

/-- In a run in which requests are heeded, whenever there is a rate on the wire
and no request under way, it is the supported rate requested last, or the start
rate if none was. -/
theorem rate_follows (max : ℕ) (startRate : Quadlet) {as : List RateAct} {s : Rates}
    (hm : Meets (Rates.step max) Rates.Heeded (Rates.start startRate) as)
    (h : run (Rates.step max) (Rates.start startRate) as = some s) (hd : s.deviceRate ≠ 0) (hp : ¬ s.Pending) :
    s.deviceRate = s.wanted := by
  have hi := hm.inv Rates.Inv (Rates.step_inv max) h (Rates.start_inv startRate)
  exact hi.deviceRate hd hp

/-- The daemon comes up at 48 kHz and CoreAudio asks for 96; the daemon's restart
is under way. -/
def asking : List RateAct := [.announce, .loadSeen, .store 96000, .bump, .loadSeq, .loadRate]

theorem rate_follows_request : ∃ s, run (Rates.step 5) (Rates.start 48000) (asking ++ [.sessionStarts]) = some s ∧
    s.wanted = 96000 ∧ s.deviceRate = s.wanted := by
  have h : (run (Rates.step 5) (Rates.start 48000) (asking ++ [.sessionStarts])).map
      (fun s => (s.deviceRate, s.wanted, s.publishing, s.requestSeq, s.seenRequest)) =
      some (96000, 96000, 0, 1, 1) := by decide +kernel
  have hm : Meets (Rates.step 5) Rates.Heeded (Rates.start 48000) (asking ++ [.sessionStarts]) := by decide +kernel
  obtain ⟨s, hrun, hs⟩ := Option.map_eq_some_iff.1 h
  simp only [Prod.mk.injEq] at hs
  obtain ⟨hrate, hwanted, hpub, hseq, hseen⟩ := hs
  refine ⟨s, hrun, hwanted, rate_follows 5 48000 hm hrun (by rw [hrate]; decide) ?_⟩
  rintro (hp | hp) <;> omega

/-- The restart fails once, and the wedge recovery brings the session back at 48. -/
theorem request_lost : ∃ s, run (Rates.step 5) (Rates.start 48000)
      (asking ++ [.sessionFails, .loadSeq, .recover, .sessionStarts]) = some s ∧
    s.deviceRate ≠ 0 ∧ ¬ s.Pending ∧ s.wanted = 96000 ∧ s.deviceRate = 48000 := by
  have h : (run (Rates.step 5) (Rates.start 48000)
      (asking ++ [.sessionFails, .loadSeq, .recover, .sessionStarts])).map
      (fun s => (s.deviceRate, s.wanted, s.publishing, s.requestSeq, s.seenRequest)) =
      some (48000, 96000, 0, 1, 1) := by decide +kernel
  obtain ⟨s, hrun, hs⟩ := Option.map_eq_some_iff.1 h
  simp only [Prod.mk.injEq] at hs
  obtain ⟨hrate, hwanted, hpub, hseq, hseen⟩ := hs
  refine ⟨s, hrun, by rw [hrate]; decide, ?_, hwanted, hrate⟩
  rintro (hp | hp) <;> omega

end UserFace800.Session
