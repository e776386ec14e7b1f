import UserFace800.Dext.Iso
/-!
# What wakes the pump

The interrupt of every eighth captured packet scans the rings, publishes the status page and
sends a message; the pump blocks on the port, takes what messages there are, and reads the
page. Nothing orders the two: the interrupt can come at any point of a tick, the port drops
messages once it is full, and the pump throws away all but one.

`sleeps_drained` is that no wake-up is lost for all that: while the pump sleeps and nothing
is on its way to it, it has drained all that was published, and less than eight packets are
waiting. `timeouts_silent` is what a timeout says about the device.
-/
open UserFace800.Lib UserFace800.Dext

namespace UserFace800.Session

/-- The timeout of the pump's `wake_wait`, in ns. -/
def kWakeTimeoutNs : ℕ := 20000000

/-- Where the completion interrupt is: not running, called, with the cursors scanned, with
the status published and no message sent yet. -/
inductive Completion where
  | idle
  | called
  | scanned
  | published
  deriving DecidableEq

/-- Where the pump is: at the top of a tick, in the drain up to the count it got, in the
first receive of `wake_wait`, in the loop after it. -/
inductive WakePhase where
  | awake
  | draining (total : ℕ)
  | waiting
  | coalescing
  deriving DecidableEq

/-- The driver, the port and the pump, and the host clock (in ns). `event` is the context's
bit of the receive event register. Not in the source: the packets completed, when the wait
began, when messages were sent, the waits that timed out, how often a message woke the pump. -/
structure Wake where
  iso : Iso := {}
  event : Bool := false
  handler : Completion := .idle
  queue : ℕ := 0
  phase : WakePhase := .awake
  consumed : ℕ := 0
  wakeTimeouts : ℕ := 0
  now : ℕ
  completed : ℕ := 0
  since : ℕ := 0
  sent : List ℕ := []
  silences : List (ℕ × ℕ) := []
  woken : ℕ := 0

/-- The steps of the controller, of the kernel, of the completion interrupt and of the pump. -/
inductive WakeAct where
  | pass (ns : ℕ)
  /-- The controller completes a packet. -/
  | complete
  | interrupt
  | scan
  | publish (host : ℕ) (cycle : BitVec 32)
  | send
  /-- A tick whose `status_read` succeeds. -/
  | tickPage (txFill : ℕ)
  /-- A tick that asks the driver instead. -/
  | tickPump (txFill : ℕ)
  /-- A tick that asks in vain. -/
  | tickPumpFails
  | drain
  | tickEnd
  | receive
  | coalesce
  | coalesced
  | timeout

namespace Wake

/-- The first session of a driver. -/
def start (now : ℕ) : Wake where
  now

/-- The port holds `qlimit` messages at most. -/
def step (qlimit : ℕ) (s : Wake) : WakeAct → Option Wake
  | .pass ns => some { s with now := s.now + ns }
  | .complete => some { s with
      iso.rx := s.iso.rx.complete s.completed
      completed := s.completed + 1
      -- every `kUFOhciIrqEvery`-th descriptor has `DESC_IRQ_ALWAYS`
      event := s.event || s.completed % s.iso.rx.isoPackets % kUFOhciIrqEvery == 0 }
  | .interrupt =>
    if s.handler = .idle ∧ s.event = true then some { s with event := false, handler := .called } else none
  | .scan =>
    if s.handler = .called then some { s with iso := s.iso.applyControl.scanCursors, handler := .scanned } else none
  | .publish host cycle =>
    if s.handler = .scanned then some { s with iso := s.iso.publish host cycle, handler := .published } else none
  | .send =>
    if s.handler = .published then
      some { s with queue := min (s.queue + 1) qlimit, sent := s.now :: s.sent, handler := .idle }
    else none
  | .tickPage txFill =>
    if s.phase = .awake ∧ s.iso.status.seq ≠ 0 then
      some { s with iso.control := ⟨s.consumed, txFill⟩, phase := .draining s.iso.status.rxCompleted }
    else none
  | .tickPump txFill =>
    if s.phase = .awake then some { s with
      iso := s.iso.pump s.consumed txFill
      phase := .draining (s.iso.pump s.consumed txFill).rx.isoWriteCursor }
    else none
  | .tickPumpFails => if s.phase = .awake then some { s with phase := .draining s.consumed } else none
  | .drain =>
    match s.phase with
    | .draining total => if s.consumed < total then some { s with consumed := s.consumed + 1 } else none
    | _ => none
  | .tickEnd =>
    match s.phase with
    | .draining total => if total ≤ s.consumed then some { s with phase := .waiting, since := s.now } else none
    | _ => none
  | .receive =>
    if s.phase = .waiting ∧ 0 < s.queue then some { s with queue := s.queue - 1, phase := .coalescing } else none
  | .coalesce => if s.phase = .coalescing ∧ 0 < s.queue then some { s with queue := s.queue - 1 } else none
  | .coalesced =>
    if s.phase = .coalescing ∧ s.queue = 0 then some { s with phase := .awake, woken := s.woken + 1 } else none
  | .timeout =>
    if s.phase = .waiting ∧ s.queue = 0 ∧ s.since + kWakeTimeoutNs ≤ s.now then
      some { s with phase := .awake, wakeTimeouts := s.wakeTimeouts + 1, silences := (s.since, s.now) :: s.silences }
    else none

/-- The controller is not a ring ahead of the daemon, and the driver answers it. -/
def Served (s : Wake) : WakeAct → Prop
  | .complete => s.completed < s.iso.rx.isoReadCursor + kUFOhciIsoMaxPackets
  | .tickPumpFails => False
  | _ => True

instance (s : Wake) : ∀ a, Decidable (s.Served a)
  | .complete => inferInstanceAs (Decidable (_ < _))
  | .tickPumpFails => .isFalse id
  | .pass _ | .interrupt | .scan | .publish _ _ | .send | .tickPage _ | .tickPump _ | .drain | .tickEnd | .receive
  | .coalesce | .coalesced | .timeout => .isTrue trivial

end Wake

end UserFace800.Session

/-! ## What a scan reaches -/

namespace UserFace800.Dext

namespace Receive

variable {r : Receive} {completed : ℕ}

/-- The controller is not a ring ahead, and each packet it completed that the scan has not
passed is marked as such. -/
structure Marked (r : Receive) (completed : ℕ) : Prop where
  ahead : completed ≤ r.isoReadCursor + kUFOhciIsoMaxPackets
  marked : ∀ k, r.isoWriteCursor ≤ k → k < completed → r.isoDesc (k % kUFOhciIsoMaxPackets) = true

theorem complete_marked (hp : r.isoPackets = kUFOhciIsoMaxPackets) (hm : r.Marked completed)
    (hahead : completed < r.isoReadCursor + kUFOhciIsoMaxPackets) : (r.complete completed).Marked (completed + 1) := by
  refine ⟨hahead, fun k hk hlt => ?_⟩
  simp only [complete, hp, Function.update_apply]
  split
  · rfl
  next hne => exact hm.marked k hk (Nat.lt_of_le_of_ne (Nat.le_of_lt_succ hlt) fun h => hne (h ▸ rfl))

theorem rearm_marked (n : ℕ) (hi : r.Inv completed) (hm : r.Marked completed)
    (hn : r.isoReadCursor + n ≤ r.isoWriteCursor) : (r.rearm n).Marked completed := by
  induction n generalizing r with
  | zero => exact hm
  | succ n ih =>
    refine ih (rearm_one hi (by omega)) ⟨hm.ahead.trans (by dsimp only; omega), fun k hk hlt => ?_⟩
      (by dsimp only; omega)
    have hk : r.isoWriteCursor ≤ k := hk
    have hahead := hm.ahead
    -- the slot re-armed is that of another packet
    have hne : k % kUFOhciIsoMaxPackets ≠ r.isoReadCursor % kUFOhciIsoMaxPackets := by
      intro he
      have hdvd := Nat.dvd_of_mod_eq_zero (Nat.sub_mod_eq_zero_of_mod_eq he)
      have := Nat.le_of_dvd (by omega) hdvd
      omega
    simp only [hi.packets, Function.update_of_ne hne]
    exact hm.marked k hk hlt

theorem release_marked (hi : r.Inv completed) (hm : r.Marked completed) (upTo : ℕ) :
    (r.release upTo).Marked completed := by
  unfold release
  split
  · exact hm
  · have := hi.read
    exact rearm_marked _ hi hm (by omega)

/-- Where the scan stops there is no room, or no mark. -/
theorem scan_stops (r : Receive) (fuel w : ℕ) :
    r.scan fuel w = w + fuel ∨ r.isoPackets ≤ r.scan fuel w - r.isoReadCursor ∨
    r.isoDesc (r.scan fuel w % r.isoPackets) = false := by
  induction fuel generalizing w with
  | zero => exact .inl rfl
  | succ fuel ih =>
    unfold scan
    split
    next hroom =>
      split
      · rcases ih (w + 1) with h | h
        · exact .inl (by omega)
        · exact .inr h
      next hmark => exact .inr (.inr (Bool.eq_false_iff.2 hmark))
    next hroom => exact .inr (.inl (by omega))

/-- It reaches every packet the controller has completed. -/
theorem advance_reaches (hi : r.Inv completed) (hm : r.Marked completed) :
    r.advance.isoWriteCursor = completed ∧ r.advance.Marked completed := by
  have hdone := (advance_inv hi).1.done
  have hgrows := (advance_inv hi).2
  have hread := hi.read
  have hahead := hm.ahead
  have hreach : r.advance.isoWriteCursor = completed := by
    refine hdone.antisymm (Nat.not_lt.1 fun hlt => ?_)
    have hmark := hm.marked r.advance.isoWriteCursor hgrows hlt
    have hstop := r.scan_stops r.isoPackets r.isoWriteCursor
    change r.advance.isoWriteCursor = _ ∨ _ ≤ r.advance.isoWriteCursor - _ ∨
      r.isoDesc (r.advance.isoWriteCursor % _) = false at hstop
    rw [hi.packets, hmark] at hstop
    rcases hstop with h | h | h
    · omega
    · omega
    · cases h
  exact ⟨hreach, hahead, fun k hk => hm.marked k (hgrows.trans hk)⟩

theorem rearm_running (r : Receive) (n : ℕ) :
    (r.rearm n).isoRunning = r.isoRunning ∧ (r.rearm n).isoContinuous = r.isoContinuous := by
  induction n generalizing r with
  | zero => exact ⟨rfl, rfl⟩
  | succ n ih =>
    unfold rearm
    exact ih _

theorem release_running (r : Receive) (upTo : ℕ) :
    (r.release upTo).isoRunning = r.isoRunning ∧ (r.release upTo).isoContinuous = r.isoContinuous := by
  unfold release
  split
  · exact ⟨rfl, rfl⟩
  · exact r.rearm_running _

/-- A capture ring in use, of which a scan has reached all. -/
structure Reached (r : Receive) (completed : ℕ) : Prop where
  rx : r.Inv completed
  marked : r.Marked completed
  running : r.isoRunning = true ∧ r.isoContinuous = true
  reached : r.isoWriteCursor = completed

theorem advance_reached (hi : r.Inv completed) (hm : r.Marked completed)
    (hr : r.isoRunning = true ∧ r.isoContinuous = true) : r.advance.Reached completed :=
  ⟨(advance_inv hi).1, (advance_reaches hi hm).2, hr, (advance_reaches hi hm).1⟩

end Receive

namespace Iso

variable {v : Iso} {completed : ℕ}

theorem scan_reached (hi : v.rx.Inv completed) (hm : v.rx.Marked completed)
    (hr : v.rx.isoRunning = true ∧ v.rx.isoContinuous = true) : v.applyControl.scanCursors.rx.Reached completed := by
  have happly : v.applyControl.rx.Inv completed ∧ v.applyControl.rx.Marked completed ∧
      v.applyControl.rx.isoRunning = true ∧ v.applyControl.rx.isoContinuous = true := by
    unfold applyControl
    dsimp only
    split
    · have hrun := v.rx.release_running v.control.releaseUpTo
      exact ⟨(Receive.release_inv hi _).1, Receive.release_marked hi hm _, hrun.1.trans hr.1, hrun.2.trans hr.2⟩
    · exact ⟨hi, hm, hr⟩
  obtain ⟨hi, hm, hr⟩ := happly
  simp only [scanCursors, hr, and_self, if_true]
  exact Receive.advance_reached hi hm hr

theorem pump_reached (hi : v.rx.Inv completed) (hm : v.rx.Marked completed)
    (hr : v.rx.isoRunning = true ∧ v.rx.isoContinuous = true) (release txFill : ℕ) :
    (v.pump release txFill).rx.Reached completed := by
  have hrun := v.rx.release_running release
  exact Receive.advance_reached (Receive.release_inv hi _).1 (Receive.release_marked hi hm _)
    ⟨hrun.1.trans hr.1, hrun.2.trans hr.2⟩

end Iso

end UserFace800.Dext

namespace UserFace800.Session.Wake

/-! ## While the pump sleeps -/

variable {s t : Wake}

/-- How far the pump has drained, or will by the end of the tick. -/
def reach (s : Wake) : ℕ :=
  match s.phase with
  | .draining total => max s.consumed total
  | _ => s.consumed

/-- Whatever is completed the pump has taken, or is on its way to being told of. -/
structure Inv (s : Wake) : Prop where
  rx : s.iso.rx.Inv s.completed
  marked : s.iso.rx.Marked s.completed
  running : s.iso.rx.isoRunning = true ∧ s.iso.rx.isoContinuous = true
  page : s.iso.status.rxCompleted ≤ s.iso.rx.isoWriteCursor
  /-- Each packet with an interrupt is scanned, or the interrupt is yet to scan. -/
  signalled : ∀ k < s.completed, k % kUFOhciIrqEvery = 0 →
    s.event = true ∨ s.handler = .called ∨ k < s.iso.rx.isoWriteCursor
  /-- What is scanned is published or drained, or about to be published. -/
  told : s.handler = .scanned ∨ s.iso.rx.isoWriteCursor ≤ max s.iso.status.rxCompleted s.reach
  /-- What is published is drained, or a message is on its way, or the pump is about to look. -/
  seen : s.phase = .awake ∨ s.phase = .coalescing ∨ s.iso.status.rxCompleted ≤ s.reach ∨ 0 < s.queue ∨
      s.handler = .published

theorem start_inv (now : ℕ) : (start now).Inv where
  rx := Receive.startContinuous_inv {}
  marked := ⟨Nat.zero_le _, fun _ _ h => (nomatch h)⟩
  running := ⟨rfl, rfl⟩
  page := Nat.le_refl _
  signalled _ h := nomatch h
  told := .inr (Nat.zero_le _)
  seen := .inl rfl

variable {qlimit : ℕ}

/-- The packet is marked, and one of eight raises the interrupt. -/
theorem complete_inv (hi : s.Inv) (hok : s.Served .complete) (h : s.step qlimit .complete = some t) : t.Inv := by
  cases h
  have hp := hi.rx.packets
  have hahead : s.completed < s.iso.rx.isoReadCursor + kUFOhciIsoMaxPackets := hok
  refine ⟨Receive.complete_inv hi.rx, Receive.complete_marked hp hi.marked hahead, hi.running, hi.page,
    fun k hk hirq => ?_, hi.told, hi.seen⟩
  rcases Nat.eq_or_lt_of_le (Nat.le_of_lt_succ hk) with rfl | hk
  · left
    have hslot : s.completed % kUFOhciIsoMaxPackets % kUFOhciIrqEvery = 0 := by
      rw [Nat.mod_mod_of_dvd _ (by decide), hirq]
    simp only [hp, hslot, beq_self_eq_true, Bool.or_true]
  · exact (hi.signalled k hk hirq).imp_left fun he => by simp only [he, Bool.true_or]

theorem interrupt_inv (hi : s.Inv) (h : s.step qlimit .interrupt = some t) : t.Inv := by
  simp only [step, Option.ite_none_right_eq_some, Option.some.injEq] at h
  obtain ⟨⟨hidle, -⟩, rfl⟩ := h
  refine ⟨hi.rx, hi.marked, hi.running, hi.page, fun _ _ _ => .inr (.inl rfl), ?_, ?_⟩
  · exact .inr (hi.told.resolve_left (by simp [hidle]))
  · exact hi.seen.imp_right (.imp_right (.imp_right (.imp_right fun hp => by simp [hidle] at hp)))

/-- The scan reaches every packet completed. -/
theorem scan_inv (hi : s.Inv) (h : s.step qlimit .scan = some t) : t.Inv := by
  simp only [step, Option.ite_none_right_eq_some, Option.some.injEq] at h
  obtain ⟨hcalled, rfl⟩ := h
  obtain ⟨hrx, hmarked, hrun, hreached⟩ := Iso.scan_reached hi.rx hi.marked hi.running
  refine ⟨hrx, hmarked, hrun, ?_, fun k hk _ => .inr (.inr ?_), .inl rfl, ?_⟩
  · exact (hi.page.trans hi.rx.done).trans hreached.ge
  · exact hk.trans_le hreached.ge
  · exact hi.seen.imp_right (.imp_right (.imp_right (.imp_right fun hp => by simp [hcalled] at hp)))

theorem publish_inv {host : ℕ} {cycle : BitVec 32} (hi : s.Inv) (h : s.step qlimit (.publish host cycle) = some t) :
    t.Inv := by
  simp only [step, Option.ite_none_right_eq_some, Option.some.injEq] at h
  obtain ⟨hscanned, rfl⟩ := h
  refine ⟨hi.rx, hi.marked, hi.running, Nat.le_refl _, fun k hk hirq => ?_, .inr (Nat.le_max_left _ _), ?_⟩
  · rcases hi.signalled k hk hirq with he | hc | hk
    · exact .inl he
    · simp [hscanned] at hc
    · exact .inr (.inr hk)
  · exact .inr (.inr (.inr (.inr rfl)))

/-- The message is at the port, or others are. -/
theorem send_inv (hq : 0 < qlimit) (hi : s.Inv) (h : s.step qlimit .send = some t) : t.Inv := by
  simp only [step, Option.ite_none_right_eq_some, Option.some.injEq] at h
  obtain ⟨hpublished, rfl⟩ := h
  refine ⟨hi.rx, hi.marked, hi.running, hi.page, fun k hk hirq => ?_, ?_, ?_⟩
  · rcases hi.signalled k hk hirq with he | hc | hk
    · exact .inl he
    · simp [hpublished] at hc
    · exact .inr (.inr hk)
  · exact .inr (hi.told.resolve_left (by simp [hpublished]))
  · exact .inr (.inr (.inr (.inl (show 0 < min (s.queue + 1) qlimit by omega))))

theorem tickPage_inv {txFill : ℕ} (hi : s.Inv) (h : s.step qlimit (.tickPage txFill) = some t) : t.Inv := by
  simp only [step, Option.ite_none_right_eq_some, Option.some.injEq] at h
  obtain ⟨⟨hawake, -⟩, rfl⟩ := h
  have hreach : s.reach = s.consumed := by simp [reach, hawake]
  refine ⟨hi.rx, hi.marked, hi.running, hi.page, hi.signalled, hi.told.imp_right fun htold => ?_, ?_⟩
  · rw [hreach] at htold
    show s.iso.rx.isoWriteCursor ≤ max s.iso.status.rxCompleted (max s.consumed s.iso.status.rxCompleted)
    omega
  · exact .inr (.inr (.inl (Nat.le_max_right _ _)))

/-- The pump has the driver scan. -/
theorem tickPump_inv {txFill : ℕ} (hi : s.Inv) (h : s.step qlimit (.tickPump txFill) = some t) : t.Inv := by
  simp only [step, Option.ite_none_right_eq_some, Option.some.injEq] at h
  obtain ⟨hawake, rfl⟩ := h
  obtain ⟨hrx, hmarked, hrun, hreached⟩ := Iso.pump_reached hi.rx hi.marked hi.running s.consumed txFill
  have hpage : s.iso.status.rxCompleted ≤ (s.iso.pump s.consumed txFill).rx.isoWriteCursor :=
    (hi.page.trans hi.rx.done).trans hreached.ge
  refine ⟨hrx, hmarked, hrun, hpage, fun k hk _ => .inr (.inr (hk.trans_le hreached.ge)), .inr ?_, ?_⟩
  · exact (Nat.le_max_right _ _).trans (Nat.le_max_right _ _)
  · exact .inr (.inr (.inl (hpage.trans (Nat.le_max_right _ _))))

theorem drain_inv (hi : s.Inv) (h : s.step qlimit .drain = some t) : t.Inv := by
  simp only [step] at h
  split at h
  next total hp =>
    rw [Option.ite_none_right_eq_some, Option.some.injEq] at h
    obtain ⟨hlt, rfl⟩ := h
    have hreach : reach { s with consumed := s.consumed + 1 } = s.reach := by
      simp only [reach, hp]
      omega
    exact ⟨hi.rx, hi.marked, hi.running, hi.page, hi.signalled, hreach ▸ hi.told, hreach ▸ hi.seen⟩
  next => cases h

/-- The pump goes to sleep with what it has seen drained. -/
theorem tickEnd_inv (hi : s.Inv) (h : s.step qlimit .tickEnd = some t) : t.Inv := by
  simp only [step] at h
  split at h
  next total hp =>
    rw [Option.ite_none_right_eq_some, Option.some.injEq] at h
    obtain ⟨hle, rfl⟩ := h
    have hreach : s.reach = s.consumed := by
      simp only [reach, hp]
      omega
    refine ⟨hi.rx, hi.marked, hi.running, hi.page, hi.signalled, hreach ▸ hi.told, .inr (.inr ?_)⟩
    rcases hi.seen with hs | hs | hs
    · cases hp.symm.trans hs
    · cases hp.symm.trans hs
    · exact hreach ▸ hs
  next => cases h

theorem step_inv (hq : 0 < qlimit) (s : Wake) (a : WakeAct) (t : Wake) (hi : s.Inv) (hok : s.Served a)
    (h : s.step qlimit a = some t) : t.Inv := by
  cases a with
  | pass ns =>
    cases h
    exact { hi with }
  | complete => exact complete_inv hi hok h
  | interrupt => exact interrupt_inv hi h
  | scan => exact scan_inv hi h
  | publish host cycle => exact publish_inv hi h
  | send => exact send_inv hq hi h
  | tickPage txFill => exact tickPage_inv hi h
  | tickPump txFill => exact tickPump_inv hi h
  | tickPumpFails => exact hok.elim
  | drain => exact drain_inv hi h
  | tickEnd => exact tickEnd_inv hi h
  | receive =>
    simp only [step, Option.ite_none_right_eq_some, Option.some.injEq] at h
    obtain ⟨⟨hwait, -⟩, rfl⟩ := h
    exact ⟨hi.rx, hi.marked, hi.running, hi.page, hi.signalled, by simpa [reach, hwait] using hi.told, .inr (.inl rfl)⟩
  | coalesce =>
    simp only [step, Option.ite_none_right_eq_some, Option.some.injEq] at h
    obtain ⟨⟨hc, -⟩, rfl⟩ := h
    exact ⟨hi.rx, hi.marked, hi.running, hi.page, hi.signalled, hi.told, .inr (.inl hc)⟩
  | coalesced =>
    simp only [step, Option.ite_none_right_eq_some, Option.some.injEq] at h
    obtain ⟨⟨hc, -⟩, rfl⟩ := h
    exact ⟨hi.rx, hi.marked, hi.running, hi.page, hi.signalled, by simpa [reach, hc] using hi.told, .inl rfl⟩
  | timeout =>
    simp only [step, Option.ite_none_right_eq_some, Option.some.injEq] at h
    obtain ⟨⟨hwait, -⟩, rfl⟩ := h
    exact ⟨hi.rx, hi.marked, hi.running, hi.page, hi.signalled, by simpa [reach, hwait] using hi.told, .inl rfl⟩

/-- In every run, wherever the interrupt falls and however small the port: while the pump
sleeps with no message at the port and none about to be sent, it has drained what the last
interrupt published; and with no interrupt under way either, less than eight packets are
waiting for it. -/
theorem sleeps_drained (hq : 0 < qlimit) (now : ℕ) {as : List WakeAct} (hm : Meets (step qlimit) Served (start now) as)
    (h : run (step qlimit) (start now) as = some s) (hwait : s.phase = .waiting) (hqueue : s.queue = 0)
    (hsent : s.handler ≠ .published) : s.iso.status.rxCompleted ≤ s.consumed ∧
    (s.handler = .idle → s.event = false → s.completed < s.consumed + kUFOhciIrqEvery) := by
  have hi := hm.inv Inv (step_inv hq) h (start_inv now)
  have hreach : s.reach = s.consumed := by simp only [reach, hwait]
  have hdrained : s.iso.status.rxCompleted ≤ s.consumed := by
    rcases hi.seen with hs | hs | hs | hs | hs
    · cases hwait.symm.trans hs
    · cases hwait.symm.trans hs
    · exact hreach ▸ hs
    · omega
    · exact absurd hs hsent
  refine ⟨hdrained, fun hidle hevent => Nat.not_le.1 fun hmany => ?_⟩
  have hscanned := hi.told.resolve_left (by simp [hidle])
  rw [hreach, Nat.max_eq_right hdrained] at hscanned
  -- of eight packets in a row one raises the interrupt
  have hirq : ∃ k, s.consumed ≤ k ∧ k < s.consumed + kUFOhciIrqEvery ∧ k % kUFOhciIrqEvery = 0 :=
    ⟨s.consumed + (kUFOhciIrqEvery - s.consumed % kUFOhciIrqEvery) % kUFOhciIrqEvery, by
      simp only [kUFOhciIrqEvery]; omega⟩
  obtain ⟨k, hk, hlt, hmod⟩ := hirq
  rcases hi.signalled k (by omega) hmod with hs | hs | hs
  · simp [hevent] at hs
  · simp [hidle] at hs
  · omega

/-- Eight packets more than the first tick drains, with the interrupts of two of them. -/
def streaming : List WakeAct :=
  [.tickPump 0, .tickEnd, .complete, .interrupt, .scan, .publish 5 0, .send, .receive] ++ List.replicate 8 .complete ++
    [.interrupt, .scan, .publish 9 0, .coalesced, .tickPage 640] ++ List.replicate 9 .drain ++
    [.tickEnd, .send, .receive, .coalesced, .tickPage 640, .complete, .tickEnd]

theorem sleeps_drained_streaming : ∃ s, run (step 5) (start 0) streaming = some s ∧ s.completed = 10 ∧
    s.iso.status.rxCompleted ≤ s.consumed ∧ s.completed < s.consumed + kUFOhciIrqEvery := by
  have hr : (run (step 5) (start 0) streaming).map (fun s =>
      ((s.completed, s.phase), (s.queue, s.handler), s.event)) =
      some ((10, .waiting), (0, .idle), false) := by decide +kernel
  obtain ⟨s, hs, hsame⟩ := Option.map_eq_some_iff.1 hr
  simp only [Prod.mk.injEq] at hsame
  obtain ⟨⟨hcompleted, hwait⟩, ⟨hqueue, hidle⟩, hevent⟩ := hsame
  obtain ⟨hdrained, hfew⟩ := sleeps_drained (by decide) 0 (by decide +kernel) hs hwait hqueue (by simp [hidle])
  exact ⟨s, hs, hcompleted, hdrained, hfew hidle hevent⟩

/-! ## What a timeout says -/

/-- A message sent is not of the future, and one that is unread is at the port. -/
structure Timed (now : ℕ) (s : Wake) : Prop where
  past : ∀ x ∈ s.sent, x ≤ s.now
  since : s.phase = .waiting → s.since ≤ s.now
  /-- A message sent since the wait began would be at the port. -/
  quiet : s.phase = .waiting → s.queue = 0 → ∀ x ∈ s.sent, x ≤ s.since
  silent : ∀ w ∈ s.silences, w.1 + kWakeTimeoutNs ≤ w.2 ∧ w.2 ≤ s.now ∧ ∀ x ∈ s.sent, ¬(w.1 < x ∧ x < w.2)
  count : s.wakeTimeouts = s.silences.length
  spent : now + kWakeTimeoutNs * s.wakeTimeouts ≤ if s.phase = .waiting then s.since else s.now
  messages : s.woken + s.queue + (if s.phase = .coalescing then 1 else 0) ≤ s.sent.length

theorem start_timed (now : ℕ) : (start now).Timed now where
  past _ h := nomatch h
  since h := nomatch h
  quiet h := nomatch h
  silent _ h := nomatch h
  count := rfl
  spent := Nat.le_refl _
  messages := Nat.le_refl _

variable {now : ℕ}

theorem Timed.spent_now (hi : s.Timed now) : now + kWakeTimeoutNs * s.wakeTimeouts ≤ s.now := by
  have hspent := hi.spent
  split at hspent
  next hwait => exact hspent.trans (hi.since hwait)
  next => exact hspent

/-- Where the phase, the clock, the port and what was sent stay. -/
theorem Timed.keep (hi : s.Timed now) (hphase : t.phase = s.phase ∨ s.phase ≠ .waiting ∧ s.phase ≠ .coalescing ∧
      t.phase ≠ .waiting ∧ t.phase ≠ .coalescing)
    (hsame : t.now = s.now ∧ t.queue = s.queue ∧ t.sent = s.sent ∧ t.since = s.since)
    (hcounts : t.silences = s.silences ∧ t.wakeTimeouts = s.wakeTimeouts ∧ t.woken = s.woken) : t.Timed now := by
  obtain ⟨hnow, hqueue, hsent, hsince⟩ := hsame
  obtain ⟨hsil, htime, hwok⟩ := hcounts
  have hw : t.phase = .waiting ↔ s.phase = .waiting := by
    rcases hphase with h | ⟨h1, -, h2, -⟩
    · rw [h]
    · exact ⟨fun h => absurd h h2, fun h => absurd h h1⟩
  have hc : t.phase = .coalescing ↔ s.phase = .coalescing := by
    rcases hphase with h | ⟨-, h1, -, h2⟩
    · rw [h]
    · exact ⟨fun h => absurd h h2, fun h => absurd h h1⟩
  constructor
  · simpa only [hsent, hnow] using hi.past
  · simpa only [hw, hsince, hnow] using hi.since
  · simpa only [hw, hqueue, hsent, hsince] using hi.quiet
  · simpa only [hsil, hnow, hsent] using hi.silent
  · rw [htime, hsil, hi.count]
  · simpa only [htime, hw, hsince, hnow] using hi.spent
  · simpa only [hwok, hqueue, hc, hsent] using hi.messages

theorem pass_timed {ns : ℕ} (hi : s.Timed now) (h : s.step qlimit (.pass ns) = some t) : t.Timed now := by
  cases h
  refine ⟨fun x hx => (hi.past x hx).trans (Nat.le_add_right _ _), fun hw => (hi.since hw).trans (Nat.le_add_right _ _),
    hi.quiet, fun w hw => ?_, hi.count, hi.spent.trans ?_, hi.messages⟩
  · obtain ⟨hlong, hpast, hsent⟩ := hi.silent w hw
    exact ⟨hlong, hpast.trans (Nat.le_add_right _ _), hsent⟩
  · dsimp only
    split <;> omega

/-- No wait with an empty port is under way once it is sent. -/
theorem send_timed (hq : 0 < qlimit) (hi : s.Timed now) (h : s.step qlimit .send = some t) : t.Timed now := by
  simp only [step, Option.ite_none_right_eq_some, Option.some.injEq] at h
  obtain ⟨-, rfl⟩ := h
  refine ⟨?_, hi.since, fun _ hempty => ?_, fun w hw => ?_, hi.count, hi.spent, ?_⟩
  · rintro x (_ | ⟨_, hx⟩)
    · exact Nat.le_refl _
    · exact hi.past x hx
  · have hempty : min (s.queue + 1) qlimit = 0 := hempty
    omega
  · obtain ⟨hlong, hpast, hsent⟩ := hi.silent w hw
    refine ⟨hlong, hpast, ?_⟩
    rintro x (_ | ⟨_, hx⟩)
    · exact fun hin => absurd hpast (Nat.not_le.2 hin.2)
    · exact hsent x hx
  · have := hi.messages
    simp only [List.length_cons]
    omega

theorem tickEnd_timed (hi : s.Timed now) (h : s.step qlimit .tickEnd = some t) : t.Timed now := by
  simp only [step] at h
  split at h
  next total hp =>
    rw [Option.ite_none_right_eq_some, Option.some.injEq] at h
    obtain ⟨-, rfl⟩ := h
    refine ⟨hi.past, fun _ => Nat.le_refl _, fun _ _ => hi.past, hi.silent, hi.count, hi.spent_now, ?_⟩
    simpa [hp] using hi.messages
  next => cases h

theorem receive_timed (hi : s.Timed now) (h : s.step qlimit .receive = some t) : t.Timed now := by
  simp only [step, Option.ite_none_right_eq_some, Option.some.injEq] at h
  obtain ⟨⟨hwait, hone⟩, rfl⟩ := h
  refine ⟨hi.past, nofun, nofun, hi.silent, hi.count, hi.spent_now, ?_⟩
  have hmessages := hi.messages
  rw [hwait, if_neg (by decide)] at hmessages
  show s.woken + (s.queue - 1) + 1 ≤ s.sent.length
  omega

theorem coalesce_timed (hi : s.Timed now) (h : s.step qlimit .coalesce = some t) : t.Timed now := by
  simp only [step, Option.ite_none_right_eq_some, Option.some.injEq] at h
  obtain ⟨⟨hc, -⟩, rfl⟩ := h
  refine ⟨hi.past, hi.since, fun hw => ?_, hi.silent, hi.count, hi.spent, ?_⟩
  · cases hc.symm.trans hw
  · have := hi.messages
    dsimp only
    omega

theorem coalesced_timed (hi : s.Timed now) (h : s.step qlimit .coalesced = some t) : t.Timed now := by
  simp only [step, Option.ite_none_right_eq_some, Option.some.injEq] at h
  obtain ⟨⟨hc, -⟩, rfl⟩ := h
  refine ⟨hi.past, nofun, nofun, hi.silent, hi.count, hi.spent_now, ?_⟩
  have hmessages := hi.messages
  rw [hc, if_pos rfl] at hmessages
  show s.woken + 1 + s.queue + 0 ≤ s.sent.length
  omega

/-- The wait that ends was one without a message. -/
theorem timeout_timed (hi : s.Timed now) (h : s.step qlimit .timeout = some t) : t.Timed now := by
  simp only [step, Option.ite_none_right_eq_some, Option.some.injEq] at h
  obtain ⟨⟨hwait, hempty, hlong⟩, rfl⟩ := h
  have hquiet := hi.quiet hwait hempty
  have hspent := hi.spent
  have hmessages := hi.messages
  rw [if_pos hwait] at hspent
  rw [hwait, if_neg (by decide)] at hmessages
  refine ⟨hi.past, nofun, nofun, ?_, congrArg (· + 1) hi.count, ?_, hmessages⟩
  · rintro w (_ | ⟨_, hw⟩)
    · exact ⟨hlong, Nat.le_refl _, fun x hx hin => absurd (hquiet x hx) (Nat.not_le.2 hin.1)⟩
    · exact hi.silent w hw
  · show now + kWakeTimeoutNs * (s.wakeTimeouts + 1) ≤ s.now
    rw [Nat.mul_succ]
    omega

theorem step_timed (hq : 0 < qlimit) (s : Wake) (a : WakeAct) (t : Wake) (hi : s.Timed now)
    (h : s.step qlimit a = some t) :
    t.Timed now := by
  cases a with
  | pass ns => exact pass_timed hi h
  | complete =>
    cases h
    exact hi.keep (.inl rfl) ⟨rfl, rfl, rfl, rfl⟩ ⟨rfl, rfl, rfl⟩
  | interrupt =>
    simp only [step, Option.ite_none_right_eq_some, Option.some.injEq] at h
    obtain ⟨-, rfl⟩ := h
    exact hi.keep (.inl rfl) ⟨rfl, rfl, rfl, rfl⟩ ⟨rfl, rfl, rfl⟩
  | scan =>
    simp only [step, Option.ite_none_right_eq_some, Option.some.injEq] at h
    obtain ⟨-, rfl⟩ := h
    exact hi.keep (.inl rfl) ⟨rfl, rfl, rfl, rfl⟩ ⟨rfl, rfl, rfl⟩
  | publish host cycle =>
    simp only [step, Option.ite_none_right_eq_some, Option.some.injEq] at h
    obtain ⟨-, rfl⟩ := h
    exact hi.keep (.inl rfl) ⟨rfl, rfl, rfl, rfl⟩ ⟨rfl, rfl, rfl⟩
  | send => exact send_timed hq hi h
  | tickPage txFill =>
    simp only [step, Option.ite_none_right_eq_some, Option.some.injEq] at h
    obtain ⟨⟨hawake, -⟩, rfl⟩ := h
    exact hi.keep (.inr (by simp [hawake])) ⟨rfl, rfl, rfl, rfl⟩ ⟨rfl, rfl, rfl⟩
  | tickPump txFill =>
    simp only [step, Option.ite_none_right_eq_some, Option.some.injEq] at h
    obtain ⟨hawake, rfl⟩ := h
    exact hi.keep (.inr (by simp [hawake])) ⟨rfl, rfl, rfl, rfl⟩ ⟨rfl, rfl, rfl⟩
  | tickPumpFails =>
    simp only [step, Option.ite_none_right_eq_some, Option.some.injEq] at h
    obtain ⟨hawake, rfl⟩ := h
    exact hi.keep (.inr (by simp [hawake])) ⟨rfl, rfl, rfl, rfl⟩ ⟨rfl, rfl, rfl⟩
  | drain =>
    simp only [step] at h
    split at h
    next total hp =>
      rw [Option.ite_none_right_eq_some, Option.some.injEq] at h
      obtain ⟨-, rfl⟩ := h
      exact hi.keep (.inl rfl) ⟨rfl, rfl, rfl, rfl⟩ ⟨rfl, rfl, rfl⟩
    next => cases h
  | tickEnd => exact tickEnd_timed hi h
  | receive => exact receive_timed hi h
  | coalesce => exact coalesce_timed hi h
  | coalesced => exact coalesced_timed hi h
  | timeout => exact timeout_timed hi h

/-- In every run, each timeout of the pump is a wait of 20 ms in which the driver sent no
message, and all of them together are no longer than the run; and of the messages each wakes
the pump at most once. -/
theorem timeouts_silent (hq : 0 < qlimit) (now : ℕ) {as : List WakeAct}
    (h : run (step qlimit) (start now) as = some s) : s.wakeTimeouts = s.silences.length ∧
    (∀ w ∈ s.silences, w.1 + kWakeTimeoutNs ≤ w.2 ∧ ∀ x ∈ s.sent, ¬(w.1 < x ∧ x < w.2)) ∧
    now + kWakeTimeoutNs * s.wakeTimeouts ≤ s.now ∧ s.woken ≤ s.sent.length := by
  have hi := run_inv (Timed now) (step_timed hq) h (start_timed now)
  refine ⟨hi.count, fun w hw => ⟨(hi.silent w hw).1, (hi.silent w hw).2.2⟩, hi.spent_now, ?_⟩
  have := hi.messages
  omega

/-- The device falls silent after two packets. -/
def fallsSilent : List WakeAct :=
  [.complete, .interrupt, .scan, .publish 5 0, .send, .tickPump 0, .drain, .tickEnd, .receive, .coalesced, .tickPage 0,
    .complete, .tickEnd, .pass 20000000, .timeout, .tickPump 0, .drain, .tickEnd, .pass 30000000, .timeout]

theorem timeouts_silent_twice : ∃ s, run (step 5) (start 7) fallsSilent = some s ∧ s.wakeTimeouts = 2 ∧
    7 + kWakeTimeoutNs * s.wakeTimeouts ≤ s.now ∧ s.woken ≤ s.sent.length := by
  have hr : (run (step 5) (start 7) fallsSilent).map (fun s => s.wakeTimeouts) = some 2 := by decide +kernel
  obtain ⟨s, hs, hcount⟩ := Option.map_eq_some_iff.1 hr
  obtain ⟨-, -, hspent, hwoken⟩ := timeouts_silent (by decide) 7 hs
  exact ⟨s, hs, hcount, hspent, hwoken⟩

end UserFace800.Session.Wake
