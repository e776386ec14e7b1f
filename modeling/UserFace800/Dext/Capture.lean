import UserFace800.Dext.Iso
/-!
# Capture across sessions

The daemon's pump against the driver: it reads the status page (or asks with
`kUFOhciPump`), drains the capture slots below the count it got, and restarts
the session when it must. A restart rewinds the cursors on both sides but leaves
the status page as it is. `attributed` says every frame is counted in the
session it was received in, if no tick reads a page from before the restart;
`stale_page` is the run in which one does.
-/
open UserFace800.Lib

namespace UserFace800.Dext

/-- A slot of the capture buffer, as the daemon maps it. -/
def kDextSlotBytes : ℕ := 2048

/-- `frames_in_payload`; a session without a rate has no frames. -/
def framesInPayload (payloadBytes pcmChannels : ℕ) : ℕ :=
  if pcmChannels ≠ 0 then payloadBytes / (pcmChannels * 4) else 0

/-- A capture slot: the length of its packet and the session it was received in. -/
structure Slot where
  len : ℕ
  session : ℕ
  deriving DecidableEq

/-- Frames counted by the drain: the session they are counted in, the one they
were received in, and how many. -/
structure Counted where
  counted : ℕ
  received : ℕ
  frames : ℕ
  deriving DecidableEq

/-- Where the pump thread is: at the top of a tick, with the count of a snapshot,
in the drain, after it, or in `restart_session` (before the contexts are
stopped, after, and after each of the two starts). -/
inductive Phase where
  | ready
  | snapped (total : ℕ)
  | draining (total : ℕ)
  | drained
  | stopping
  | stopped
  | receiving
  | transmitting
  deriving DecidableEq

/-- The driver, the capture buffer and the pump. Not in the source are `session`
(the `IsoStartContinuous` calls so far), `completed` (the packets since the last
one), `fresh` (the status page was published since) and `log`. -/
structure Link where
  iso : Iso
  slots : ℕ → Slot
  phase : Phase := .ready
  dbq : ℕ
  consumed : ℕ := 0
  deviceFrames : ℕ := 0
  session : ℕ := 1
  completed : ℕ := 0
  fresh : Bool := false
  log : List Counted := []

/-- The steps of the controller, of the completion interrupt and of the pump. -/
inductive LinkAct where
  /-- The controller completes a packet. -/
  | complete (len : ℕ)
  /-- The controller has transmitted the packet of slot `i`. -/
  | transmit (i : ℕ)
  | interrupt (host : ℕ) (cycle : BitVec 32)
  /-- A tick that reads the status page. -/
  | tickPage (txFill : ℕ)
  /-- A tick that asks the driver. -/
  | tickPump (txFill : ℕ)
  /-- A tick that asks in vain: its count is that of the last one. -/
  | tickPumpFails
  | drain
  | drainEnd
  | tickEnd
  | restart
  | isoStop
  | startFails
  | isoStartContinuous
  | isoTxStart (fullCount : ℕ)
  | restarted (dbq : ℕ)

namespace Link

/-- The controller fills the next slot, released or not. -/
def complete (s : Link) (len : ℕ) : Option Link :=
  if s.iso.rx.isoRunning then
    some { s with
      iso.rx := s.iso.rx.complete s.completed
      slots := Function.update s.slots (s.completed % s.iso.rx.isoPackets) ⟨len, s.session⟩
      completed := s.completed + 1 }
  else none

/-- `uf_iso_completion` publishes the status page. -/
def interrupt (s : Link) (host : ℕ) (cycle : BitVec 32) : Link :=
  { s with iso := s.iso.isoCompletion host cycle, fresh := true }

/-- `status_read` succeeds once a status was published. -/
def tickPage (s : Link) (txFill : ℕ) : Option Link :=
  if s.iso.status.seq ≠ 0 then
    some { s with
      iso.control := ⟨s.consumed, txFill⟩
      phase := .snapped s.iso.status.rxCompleted }
  else none

/-- `Pump` releases, and returns the count. -/
def tickPump (s : Link) (txFill : ℕ) : Link :=
  { s with
    iso := s.iso.pump s.consumed txFill
    phase := .snapped (s.iso.pump s.consumed txFill).rx.isoWriteCursor }

/-- The frames of a slot, if its length is one a packet can have. -/
def slotFrames (s : Link) (slot : Slot) : ℕ :=
  if slot.len ≠ 0 ∧ slot.len ≤ kDextSlotBytes - 8 then framesInPayload slot.len s.dbq else 0

/-- One turn of the drain loop. -/
def drain (s : Link) (total : ℕ) : Option Link :=
  if s.consumed < total then
    let slot := s.slots (s.consumed % kUFOhciIsoMaxPackets)
    some { s with
      phase := .draining total
      deviceFrames := s.deviceFrames + s.slotFrames slot
      consumed := s.consumed + 1
      log := ⟨s.session, slot.session, s.slotFrames slot⟩ :: s.log }
  else none

/-- The drain ends at the count of its snapshot. -/
def drainEnd (s : Link) (total : ℕ) : Option Link :=
  if s.consumed < total then none else some { s with phase := .drained }

/-- `restart_session` drops the cursors in the control block first. -/
def restart (s : Link) : Link := { s with iso.control := {}, phase := .stopping }

/-- `restart_session` stops both contexts. -/
def isoStop (s : Link) : Link := { s with iso.rx := s.iso.rx.stop, iso.tx := s.iso.tx.stop, phase := .stopped }

/-- `IsoStartContinuous`: the cursors are rewound, the status page is not touched. -/
def isoStartContinuous (s : Link) : Link :=
  { s with
    iso.rx := s.iso.rx.startContinuous
    iso.isoIrqEvery := kUFOhciIrqEvery
    session := s.session + 1
    completed := 0
    fresh := false
    phase := .receiving }

/-- The controller and the interrupt go at any time, the pump from phase to phase. -/
def step (s : Link) (a : LinkAct) : Option Link :=
  match a, s.phase with
  | .complete len, _ => s.complete len
  | .transmit i, _ => some { s with iso.tx.itDesc := Function.update s.iso.tx.itDesc (i % kITPackets) true }
  | .interrupt host cycle, _ => some (s.interrupt host cycle)
  | .tickPage txFill, .ready => s.tickPage txFill
  | .tickPump txFill, .ready => some (s.tickPump txFill)
  | .tickPumpFails, .ready => some { s with phase := .snapped s.consumed }
  | .drain, .snapped total | .drain, .draining total => s.drain total
  | .drainEnd, .snapped total | .drainEnd, .draining total => s.drainEnd total
  | .tickEnd, .drained => some { s with phase := .ready }
  | .restart, .snapped _ | .restart, .drained => some s.restart
  | .isoStop, .stopping => some s.isoStop
  | .startFails, .stopped => some { s with phase := .ready }
  | .isoStartContinuous, .stopped => some s.isoStartContinuous
  | .isoTxStart fullCount, .receiving => some { s with iso.tx := s.iso.tx.start fullCount, phase := .transmitting }
  | .restarted dbq, .receiving | .restarted dbq, .transmitting => some { s with consumed := 0, dbq, phase := .ready }
  | _, _ => none

/-- What a step does, with the phase it is taken in. -/
inductive Moves (s : Link) : LinkAct → Link → Prop where
  | complete (len : ℕ) (t : Link) (h : s.complete len = some t) : Moves s (.complete len) t
  | transmit (i : ℕ) :
      Moves s (.transmit i) { s with iso.tx.itDesc := Function.update s.iso.tx.itDesc (i % kITPackets) true }
  | interrupt (host : ℕ) (cycle : BitVec 32) : Moves s (.interrupt host cycle) (s.interrupt host cycle)
  | tickPage (txFill : ℕ) (t : Link) (hp : s.phase = .ready) (h : s.tickPage txFill = some t) :
      Moves s (.tickPage txFill) t
  | tickPump (txFill : ℕ) (hp : s.phase = .ready) : Moves s (.tickPump txFill) (s.tickPump txFill)
  | tickPumpFails (hp : s.phase = .ready) : Moves s .tickPumpFails { s with phase := .snapped s.consumed }
  | drain (total : ℕ) (t : Link) (hp : s.phase = .snapped total ∨ s.phase = .draining total)
      (h : s.drain total = some t) : Moves s .drain t
  | drainEnd (total : ℕ) (t : Link) (hp : s.phase = .snapped total ∨ s.phase = .draining total)
      (h : s.drainEnd total = some t) : Moves s .drainEnd t
  | tickEnd (hp : s.phase = .drained) : Moves s .tickEnd { s with phase := .ready }
  | restart (hp : (∃ total, s.phase = .snapped total) ∨ s.phase = .drained) : Moves s .restart s.restart
  | isoStop (hp : s.phase = .stopping) : Moves s .isoStop s.isoStop
  | startFails (hp : s.phase = .stopped) : Moves s .startFails { s with phase := .ready }
  | isoStartContinuous (hp : s.phase = .stopped) : Moves s .isoStartContinuous s.isoStartContinuous
  | isoTxStart (fullCount : ℕ) (hp : s.phase = .receiving) : Moves s (.isoTxStart fullCount)
      { s with iso.tx := s.iso.tx.start fullCount, phase := .transmitting }
  | restarted (dbq : ℕ) (hp : s.phase = .receiving ∨ s.phase = .transmitting) :
      Moves s (.restarted dbq) { s with consumed := 0, dbq, phase := .ready }

theorem moves_of_step {s t : Link} {a : LinkAct} (h : s.step a = some t) : s.Moves a t := by
  cases a with
  | complete len => exact .complete len t h
  | transmit i => cases h; exact .transmit i
  | interrupt host cycle => cases h; exact .interrupt host cycle
  | tickPage txFill =>
    cases hp : s.phase <;> simp only [step, hp, reduceCtorEq] at h
    exact .tickPage txFill t hp h
  | tickPump txFill =>
    cases hp : s.phase <;> simp only [step, hp, reduceCtorEq, Option.some.injEq] at h
    exact h ▸ .tickPump txFill hp
  | tickPumpFails =>
    cases hp : s.phase <;> simp only [step, hp, reduceCtorEq, Option.some.injEq] at h
    exact h ▸ .tickPumpFails hp
  | drain =>
    cases hp : s.phase <;> simp only [step, hp, reduceCtorEq] at h
    case snapped total => exact .drain total t (.inl hp) h
    case draining total => exact .drain total t (.inr hp) h
  | drainEnd =>
    cases hp : s.phase <;> simp only [step, hp, reduceCtorEq] at h
    case snapped total => exact .drainEnd total t (.inl hp) h
    case draining total => exact .drainEnd total t (.inr hp) h
  | tickEnd =>
    cases hp : s.phase <;> simp only [step, hp, reduceCtorEq, Option.some.injEq] at h
    exact h ▸ .tickEnd hp
  | restart =>
    cases hp : s.phase <;> simp only [step, hp, reduceCtorEq, Option.some.injEq] at h
    case snapped total => exact h ▸ .restart (.inl ⟨total, hp⟩)
    case drained => exact h ▸ .restart (.inr hp)
  | isoStop =>
    cases hp : s.phase <;> simp only [step, hp, reduceCtorEq, Option.some.injEq] at h
    exact h ▸ .isoStop hp
  | startFails =>
    cases hp : s.phase <;> simp only [step, hp, reduceCtorEq, Option.some.injEq] at h
    exact h ▸ .startFails hp
  | isoStartContinuous =>
    cases hp : s.phase <;> simp only [step, hp, reduceCtorEq, Option.some.injEq] at h
    exact h ▸ .isoStartContinuous hp
  | isoTxStart fullCount =>
    cases hp : s.phase <;> simp only [step, hp, reduceCtorEq, Option.some.injEq] at h
    exact h ▸ .isoTxStart fullCount hp
  | restarted dbq =>
    cases hp : s.phase <;> simp only [step, hp, reduceCtorEq, Option.some.injEq] at h
    case receiving => exact h ▸ .restarted dbq (.inl hp)
    case transmitting => exact h ▸ .restarted dbq (.inr hp)

/-- A daemon whose first session has just started, on a driver that may have
served others before: the shared page and the slots are as those left them. -/
def start (status : UFOhciStatus) (control : UFOhciControl) (slots : ℕ → ℕ) (dbq : ℕ) : Link where
  iso := { status, control }
  slots := fun i => ⟨slots i, 0⟩
  dbq

end Link

/-! ## Frames are counted in the session they were received in -/

/-- The driver's cursors are rewound and `consumed` is not yet. -/
def Phase.Rewound (p : Phase) : Prop := p = .receiving ∨ p = .transmitting

namespace Link

/-- A tick that reads the status page finds one published since the most recent
`IsoStartContinuous`. -/
def Fresh (s : Link) : LinkAct → Prop
  | .tickPage _ => s.fresh = true
  | _ => True

instance (s : Link) (a : LinkAct) : Decidable (s.Fresh a) := by
  cases a <;> unfold Fresh <;> infer_instance

/-- No count the pump works with is more than the controller has completed, and
the slots below that are of this session. -/
structure Inv (s : Link) : Prop where
  rx : s.iso.rx.Inv s.completed
  slots : ∀ k < s.completed, (s.slots (k % kUFOhciIsoMaxPackets)).session = s.session
  page : s.fresh = true → s.iso.status.rxCompleted ≤ s.completed
  total : ∀ t, s.phase = .snapped t ∨ s.phase = .draining t → t ≤ s.completed
  consumed : ¬ s.phase.Rewound → s.consumed ≤ s.completed
  log : ∀ e ∈ s.log, e.counted = e.received
  frames : s.deviceFrames = (s.log.map Counted.frames).sum

variable {s t : Link}

theorem start_inv (status : UFOhciStatus) (control : UFOhciControl) (slots : ℕ → ℕ) (dbq : ℕ) :
    (start status control slots dbq).Inv where
  rx := Receive.startContinuous_inv {}
  slots := fun _ hk => absurd hk (Nat.not_lt_zero _)
  page := fun h => nomatch h
  total := fun _ h => by simp [start] at h
  consumed := fun _ => le_refl 0
  log := fun _ he => nomatch he
  frames := rfl

/-- A packet completed extends what the slots hold of this session. -/
theorem complete_inv (hi : s.Inv) {len : ℕ} (h : s.complete len = some t) : t.Inv := by
  unfold complete at h
  split at h
  · cases h
    refine ⟨Receive.complete_inv hi.rx, ?_, fun hf => Nat.le_succ_of_le (hi.page hf),
      fun n hn => Nat.le_succ_of_le (hi.total n hn), fun hp => Nat.le_succ_of_le (hi.consumed hp), hi.log, hi.frames⟩
    intro k hk
    simp only [hi.rx.packets]
    by_cases hmod : k % kUFOhciIsoMaxPackets = s.completed % kUFOhciIsoMaxPackets
    · simp [hmod]
    · rw [Function.update_of_ne hmod]
      have hne : k ≠ s.completed := fun he => hmod (he ▸ rfl)
      exact hi.slots k (Nat.lt_of_le_of_ne (Nat.le_of_lt_succ hk) hne)
  · cases h

/-- A page published counts no more than the write cursor. -/
theorem interrupt_inv (hi : s.Inv) (host : ℕ) (cycle : BitVec 32) : (s.interrupt host cycle).Inv := by
  obtain ⟨hrx, hstatus⟩ := Iso.isoCompletion_inv hi.rx host cycle
  exact { hi with rx := hrx, page := fun _ => hstatus ▸ hrx.done }

theorem tickPage_inv (hi : s.Inv) (hready : s.phase = .ready) (hf : s.fresh = true) {txFill : ℕ}
    (h : s.tickPage txFill = some t) : t.Inv := by
  unfold tickPage at h
  split at h
  · cases h
    refine { hi with total := ?_, consumed := fun _ => hi.consumed (by simp [Phase.Rewound, hready]) }
    rintro n (hn | hn)
    · cases hn
      exact hi.page hf
    · cases hn
  · cases h

theorem tickPump_inv (hi : s.Inv) (hready : s.phase = .ready) (txFill : ℕ) : (s.tickPump txFill).Inv := by
  obtain ⟨hrx, -⟩ := Iso.pump_inv hi.rx s.consumed txFill
  refine { hi with rx := hrx, total := ?_, consumed := fun _ => hi.consumed (by simp [Phase.Rewound, hready]) }
  rintro n (hn | hn)
  · cases hn
    exact hrx.done
  · cases hn

theorem tickPumpFails_inv (hi : s.Inv) (hready : s.phase = .ready) :
    Inv { s with phase := .snapped s.consumed } := by
  have hc := hi.consumed (by simp [Phase.Rewound, hready])
  refine { hi with total := ?_, consumed := fun _ => hc }
  rintro n (hn | hn)
  · cases hn
    exact hc
  · cases hn

/-- A slot below a count of this session was received in this session. -/
theorem drain_inv (hi : s.Inv) {total : ℕ} (htotal : total ≤ s.completed) (h : s.drain total = some t) : t.Inv := by
  unfold drain at h
  split at h
  · rename_i hlt
    cases h
    refine { hi with total := ?_, consumed := fun _ => hlt.trans_le htotal, log := ?_, frames := ?_ }
    · rintro n (hn | hn)
      · cases hn
      · cases hn
        exact htotal
    · intro e he
      rcases List.mem_cons.1 he with rfl | he
      · exact (hi.slots s.consumed (hlt.trans_le htotal)).symm
      · exact hi.log e he
    · simp only [List.map_cons, List.sum_cons, hi.frames]
      omega
  · cases h

theorem drainEnd_inv (hi : s.Inv) (hs : ¬ s.phase.Rewound) {total : ℕ} (h : s.drainEnd total = some t) : t.Inv := by
  unfold drainEnd at h
  split at h
  · cases h
  · cases h
    exact { hi with total := fun _ hn => by simp at hn, consumed := fun _ => hi.consumed hs }

theorem restart_inv (hi : s.Inv) (hs : ¬ s.phase.Rewound) : s.restart.Inv :=
  { hi with
    rx := hi.rx
    page := hi.page
    total := fun _ hn => by simp [restart] at hn
    consumed := fun _ => hi.consumed hs }

theorem isoStop_inv (hi : s.Inv) (hs : ¬ s.phase.Rewound) : s.isoStop.Inv :=
  { hi with
    rx := Receive.stop_inv hi.rx
    page := hi.page
    total := fun _ hn => by simp [isoStop] at hn
    consumed := fun _ => hi.consumed hs }

/-- With both cursors at 0 nothing is known of the slots, and the page is not
fresh until the next interrupt. -/
theorem isoStartContinuous_inv (hi : s.Inv) : s.isoStartContinuous.Inv where
  rx := Receive.startContinuous_inv s.iso.rx
  slots := fun _ hk => absurd hk (Nat.not_lt_zero _)
  page := fun h => nomatch h
  total := fun _ hn => by simp [isoStartContinuous] at hn
  consumed := fun hp => absurd (.inl rfl) hp
  log := hi.log
  frames := hi.frames

theorem isoTxStart_inv (hi : s.Inv) (fullCount : ℕ) :
    Inv { s with iso.tx := s.iso.tx.start fullCount, phase := .transmitting } :=
  { hi with
    rx := hi.rx
    page := hi.page
    total := fun _ hn => by simp at hn
    consumed := fun hp => absurd (.inr rfl) hp }

theorem ready_inv (hi : s.Inv) (hs : ¬ s.phase.Rewound) : Inv { s with phase := .ready } :=
  { hi with total := fun _ hn => by simp at hn, consumed := fun _ => hi.consumed hs }

theorem restarted_inv (hi : s.Inv) (dbq : ℕ) : Inv { s with consumed := 0, dbq, phase := .ready } :=
  { hi with
    total := fun _ hn => by simp at hn
    consumed := fun _ => Nat.zero_le _ }

/-- Every step keeps the invariant, a tick on a page of before the restart excepted. -/
theorem step_inv (s : Link) (a : LinkAct) (t : Link) (hi : s.Inv) (hok : s.Fresh a)
    (h : s.step a = some t) : t.Inv := by
  cases moves_of_step h with
  | complete len t h => exact complete_inv hi h
  | transmit i => exact { hi with rx := hi.rx, page := hi.page }
  | interrupt host cycle => exact interrupt_inv hi host cycle
  | tickPage txFill t hp h => exact tickPage_inv hi hp hok h
  | tickPump txFill hp => exact tickPump_inv hi hp txFill
  | tickPumpFails hp => exact tickPumpFails_inv hi hp
  | drain total t hp h => exact drain_inv hi (hi.total total hp) h
  | drainEnd total t hp h => exact drainEnd_inv hi (by rcases hp with hp | hp <;> simp [Phase.Rewound, hp]) h
  | tickEnd hp => exact ready_inv hi (by simp [Phase.Rewound, hp])
  | restart hp => exact restart_inv hi (by rcases hp with ⟨total, hp⟩ | hp <;> simp [Phase.Rewound, hp])
  | isoStop hp => exact isoStop_inv hi (by simp [Phase.Rewound, hp])
  | startFails hp => exact ready_inv hi (by simp [Phase.Rewound, hp])
  | isoStartContinuous hp => exact isoStartContinuous_inv hi
  | isoTxStart fullCount hp => exact isoTxStart_inv hi fullCount
  | restarted dbq hp => exact restarted_inv hi dbq

/-- A run whose ticks find a fresh page. -/
theorem run_inv {as : List LinkAct} (hm : Meets step Fresh s as) (h : run step s as = some t) (hi : s.Inv) : t.Inv :=
  hm.inv Inv step_inv h hi

end Link

/-- In a run in which no tick reads a page from before the most recent restart,
`consumed` is at most the packets completed since then (from the start of the
contexts to `consumed = 0` apart, where no tick is), and every frame counted in
`deviceFrames` is counted in the session it was received in. -/
theorem attributed (status : UFOhciStatus) (control : UFOhciControl) (slots : ℕ → ℕ) (dbq : ℕ)
    {as : List LinkAct} {s : Link} (hm : Meets Link.step Link.Fresh (Link.start status control slots dbq) as)
    (h : run Link.step (Link.start status control slots dbq) as = some s) :
    (¬ s.phase.Rewound → s.consumed ≤ s.completed) ∧ (∀ e ∈ s.log, e.counted = e.received) ∧
      s.deviceFrames = (s.log.map Counted.frames).sum := by
  have hi := Link.run_inv hm h (Link.start_inv status control slots dbq)
  exact ⟨hi.consumed, hi.log, hi.frames⟩

/-- A daemon at 48 kHz, on a driver that has served no one before. -/
def booted : Link := Link.start {} {} (fun _ => 0) 28

/-- The controller interrupts for the first packet of a session: six frames of
28 channels. -/
def firstPacket : List LinkAct := [.complete 672, .interrupt 5 0, .tickPage 640, .drain, .drainEnd]

/-- A restart, from the teardown to the new session. -/
def restarting : List LinkAct := [.restart, .isoStop, .isoStartContinuous, .isoTxStart 640, .restarted 28]

theorem attributed_restart : ∃ s, run Link.step booted (firstPacket ++ restarting ++ firstPacket) = some s ∧
    (s.session = 2 ∧ s.deviceFrames = 12) ∧ s.consumed ≤ s.completed ∧ ∀ e ∈ s.log, e.counted = e.received := by
  have h : (run Link.step booted (firstPacket ++ restarting ++ firstPacket)).map
      (fun s => (s.session, s.deviceFrames, s.phase)) = some (2, 12, .drained) := by decide +kernel
  have hm : Meets Link.step Link.Fresh booted (firstPacket ++ restarting ++ firstPacket) := by decide +kernel
  obtain ⟨s, hrun, hs⟩ := Option.map_eq_some_iff.1 h
  simp only [Prod.mk.injEq] at hs
  obtain ⟨hsession, hframes, hphase⟩ := hs
  obtain ⟨hconsumed, hlog, -⟩ := attributed {} {} (fun _ => 0) 28 hm hrun
  exact ⟨s, hrun, ⟨hsession, hframes⟩, hconsumed (by simp [Phase.Rewound, hphase]), hlog⟩

/-- A device that sends nothing after the restart: the page is still that of the
first session, and the tick counts a packet of then once more. -/
theorem stale_page : ∃ s,
    run Link.step booted (firstPacket ++ restarting ++ [.tickPage 640, .drain, .drainEnd]) = some s ∧
    s.phase = .drained ∧ s.completed < s.consumed ∧ ∃ e ∈ s.log, e.counted ≠ e.received := by
  have h : (run Link.step booted (firstPacket ++ restarting ++ [.tickPage 640, .drain, .drainEnd])).map
      (fun s => (s.phase, s.completed, s.consumed, s.log.head?)) = some (.drained, 0, 1, some ⟨2, 1, 6⟩) := by
    decide +kernel
  obtain ⟨s, hrun, hs⟩ := Option.map_eq_some_iff.1 h
  simp only [Prod.mk.injEq] at hs
  obtain ⟨hphase, hcompleted, hconsumed, hlog⟩ := hs
  exact ⟨s, hrun, hphase, by omega, _, List.mem_of_mem_head? hlog, by simp⟩

/-! ## What a stale page does -/

namespace Link

theorem drain_spec {s : Link} {total : ℕ} (hlt : s.consumed < total) : ∃ u, s.drain total = some u ∧
    u.phase = .draining total ∧ u.consumed = s.consumed + 1 ∧ u.completed = s.completed := by
  unfold drain
  rw [if_pos hlt]
  exact ⟨_, rfl, rfl, rfl, rfl⟩

/-- Left alone, the drain ends with `consumed` at the count. -/
theorem drain_all (s : Link) (total : ℕ) (hp : s.phase = .snapped total ∨ s.phase = .draining total)
    (hle : s.consumed ≤ total) : ∃ n t, run step s (List.replicate n .drain ++ [.drainEnd]) = some t ∧
      t.phase = .drained ∧ t.consumed = total ∧ t.completed = s.completed := by
  induction hn : total - s.consumed generalizing s with
  | zero =>
    have hend : s.step .drainEnd = s.drainEnd total := by rcases hp with hp | hp <;> simp [step, hp]
    have hge : ¬ s.consumed < total := by omega
    exact ⟨0, _, run_cons_some (hend.trans (if_neg hge)) rfl, rfl, Nat.le_antisymm hle (Nat.not_lt.1 hge), rfl⟩
  | succ n ih =>
    have hdrain : s.step .drain = s.drain total := by rcases hp with hp | hp <;> simp [step, hp]
    obtain ⟨u, hu, huphase, huconsumed, hucompleted⟩ := drain_spec (show s.consumed < total by omega)
    obtain ⟨m, t, hrun, hphase, hconsumed, hcompleted⟩ := ih u (.inr huphase) (by omega) (by omega)
    exact ⟨m + 1, t, run_cons_some (hdrain.trans hu) hrun, hphase, hconsumed, hcompleted.trans hucompleted⟩

/-- A tick on a page that counts more than the controller has completed, with
nothing completed meanwhile, leaves `consumed` too far. -/
theorem stale_tick {s : Link} (hready : s.phase = .ready) (hseq : s.iso.status.seq ≠ 0)
    (hpage : s.completed < s.iso.status.rxCompleted) (hc : s.consumed ≤ s.completed) (txFill : ℕ) :
    ∃ n t, run step s (.tickPage txFill :: (List.replicate n .drain ++ [.drainEnd])) = some t ∧
      t.phase = .drained ∧ t.completed < t.consumed := by
  have htick : s.step (.tickPage txFill) = s.tickPage txFill := by simp [step, hready]
  obtain ⟨n, t, hrun, hphase, hconsumed, hcompleted⟩ :=
    drain_all { s with iso.control := ⟨s.consumed, txFill⟩, phase := .snapped s.iso.status.rxCompleted } _
      (.inl rfl) (hc.trans hpage.le)
  refine ⟨n, t, run_cons_some (htick.trans (if_pos hseq)) hrun, hphase, ?_⟩
  rw [hconsumed, hcompleted]
  exact hpage

end Link

end UserFace800.Dext
