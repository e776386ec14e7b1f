import UserFace800.Dext.Capture
/-!
# The cursors handed back, across sessions and daemons

The control block is shared memory that only the driver's `Start` zeroes. A
restart of the session drops the daemon's cursors from it first; a new daemon
starts a session before it has mapped the block, with the cursors of the daemon
before still in it. `hand_back` says the driver moves its cursors only as far as
the daemon of the session has come, if no interrupt finds such a block;
`earlier_daemon` is a run in which one does.
-/
open UserFace800.Lib

namespace UserFace800.Dext

/-- The driver with the daemon of the moment. Not in the source are `drained`
(the packets of the session its daemon has drained), `published` (the largest
fill cursor it has handed back) and `kept`: the session is that of a daemon that
has not written the control block. -/
structure Host where
  link : Link
  drained : ℕ := 0
  published : ℕ := 0
  kept : Bool := false
  booting : Bool := true

/-- A step of the driver and its pump, or a new daemon. -/
inductive HostAct where
  | link (a : LinkAct)
  /-- The daemon ends, by itself (`session_stop`) or killed, and a new one comes up. -/
  | daemonRestart (stopped : Bool)

/-- The phases of `restart_session` after the cursors were dropped. -/
def Phase.Restarting (p : Phase) : Prop := p = .stopping ∨ p = .stopped ∨ p.Rewound

namespace Host

/-- The packet of the next slot, if it is one of the session. -/
def ofSession (s : Host) : ℕ :=
  if (s.link.slots (s.link.consumed % kUFOhciIsoMaxPackets)).session = s.link.session then 1 else 0

/-- What a step adds to the history. -/
def after (s : Host) (t : Link) : LinkAct → Host
  | .tickPage txFill => { s with link := t, published := max s.published txFill, kept := false }
  | .tickPump txFill => { s with link := t, published := max s.published txFill }
  | .drain => { s with link := t, drained := s.drained + s.ofSession }
  | .restart => { s with link := t, kept := false }
  | .isoStartContinuous => { s with link := t, drained := 0, kept := s.booting }
  | .isoTxStart _ => { s with link := t, published := 0 }
  | .restarted _ => { s with link := t, booting := false }
  | _ => { s with link := t }

/-- What a daemon leaves of its session. -/
def ended (s : Host) (stopped : Bool) : Iso := if stopped then s.link.isoStop.iso else s.link.iso

/-- The new daemon has its counters at 0 and starts a session next. -/
def daemonRestart (s : Host) (stopped : Bool) : Host :=
  { s with
    link := { s.link with
      iso := s.ended stopped
      phase := .stopped
      consumed := 0
      deviceFrames := 0
      log := [] }
    booting := true }

/-- Daemons follow one another; each goes on as its pump does. -/
def step (s : Host) : HostAct → Option Host
  | .daemonRestart stopped => some (s.daemonRestart stopped)
  -- `main` retries its first session in place
  | .link .startFails => if s.booting then some s else (s.link.step .startFails).map (s.after · .startFails)
  | .link a => (s.link.step a).map (s.after · a)

/-- The driver's `Start`: the page is zeroed, and the first daemon comes up. -/
def start (slots : ℕ → ℕ) (dbq : ℕ) : Host where
  link := { Link.start {} {} slots dbq with iso.rx := Receive.stop {}, phase := .stopped }

/-- An interrupt finds no cursors of an earlier daemon, and a tick that reads the
status page finds one of the session. -/
def Own (s : Host) : HostAct → Prop
  | .link (.interrupt _ _) => s.kept = true → s.link.iso.control.releaseUpTo = 0 ∧ s.link.iso.control.txFillUpTo = 0
  | .link a => s.link.Fresh a
  | .daemonRestart _ => True

instance (s : Host) : ∀ a, Decidable (s.Own a)
  | .link (.interrupt _ _) => inferInstanceAs (Decidable (_ → _ ∧ _))
  | .link (.tickPage _) => inferInstanceAs (Decidable (_ = true))
  | .link (.complete _) | .link (.transmit _) | .link (.tickPump _) | .link .tickPumpFails | .link .drain
  | .link .drainEnd | .link .tickEnd | .link .restart | .link .isoStop | .link .startFails
  | .link .isoStartContinuous | .link (.isoTxStart _) | .link (.restarted _) | .daemonRestart _ => .isTrue trivial

/-! ## The invariant -/

/-- Each cursor the driver has applied, or will, is one this session's daemon
has come to. -/
structure Inv (s : Host) : Prop where
  link : s.link.Inv
  consumed : ¬ s.link.phase.Rewound → s.link.consumed ≤ s.drained
  read : s.link.iso.rx.isoReadCursor ≤ s.drained
  fill : s.link.iso.tx.itFillCursor ≤ max kITPackets s.published
  release : s.kept = false → s.link.iso.control.releaseUpTo ≤ s.drained
  txFill : s.kept = false → s.link.iso.control.txFillUpTo ≤ s.published
  boot : s.booting = true → s.link.phase = .stopped ∨ s.link.phase.Rewound ∧ s.kept = true
  zero : s.booting = false → s.link.phase.Restarting →
    s.link.iso.control.releaseUpTo = 0 ∧ s.link.iso.control.txFillUpTo = 0

variable {s t : Host}

theorem start_inv (slots : ℕ → ℕ) (dbq : ℕ) : (start slots dbq).Inv where
  link := { Link.start_inv {} {} slots dbq with
    rx := Receive.stop_inv (Receive.startContinuous_inv {})
    total := fun _ h => by simp [start] at h
    consumed := fun _ => le_refl 0 }
  consumed := fun _ => le_refl 0
  read := le_refl 0
  fill := Nat.zero_le _
  release := fun _ => le_refl 0
  txFill := fun _ => le_refl 0
  boot := fun _ => .inl rfl
  zero := fun h => Bool.noConfusion h

theorem complete_inv (hi : s.Inv) {u : Link} (hu : u.Inv) {len : ℕ} (h : s.link.complete len = some u) :
    (s.after u (.complete len)).Inv := by
  unfold Link.complete at h
  split at h
  · cases h
    exact { hi with link := hu }
  · cases h

/-- The interrupt applies what the control block holds, which is of the session
or nothing. -/
theorem interrupt_inv (hi : s.Inv) {host : ℕ} {cycle : BitVec 32} (hok : s.Own (.link (.interrupt host cycle)))
    (hu : (s.link.interrupt host cycle).Inv) :
    (s.after (s.link.interrupt host cycle) (.interrupt host cycle)).Inv := by
  have hread := (s.link.iso.isoCompletion_read host cycle).2
  have hfill := s.link.iso.isoCompletion_fill host cycle
  have happlied : s.link.iso.control.releaseUpTo ≤ s.drained ∧
      s.link.iso.control.txFillUpTo ≤ max kITPackets s.published := by
    cases hk : s.kept with
    | false => exact ⟨hi.release hk, (hi.txFill hk).trans (Nat.le_max_right _ _)⟩
    | true =>
      obtain ⟨h1, h2⟩ := hok hk
      omega
  exact { hi with
    link := hu
    read := hread.trans (max_le hi.read happlied.1)
    fill := hfill.trans (max_le hi.fill happlied.2) }

/-- A daemon in its pump has started its session. -/
theorem Inv.running (hi : s.Inv) (hs : s.link.phase ≠ .stopped) (hr : ¬ s.link.phase.Rewound) : s.booting = false := by
  by_contra hb
  rcases hi.boot (Bool.not_eq_false _ ▸ hb) with hp | ⟨hp, -⟩
  · exact hs hp
  · exact hr hp

theorem tickPage_inv (hi : s.Inv) (hready : s.link.phase = .ready) {u : Link} (hu : u.Inv) {txFill : ℕ}
    (h : s.link.tickPage txFill = some u) : (s.after u (.tickPage txFill)).Inv := by
  have hconsumed := hi.consumed (by simp [Phase.Rewound, hready])
  have hboot := hi.running (by simp [hready]) (by simp [Phase.Rewound, hready])
  unfold Link.tickPage at h
  split at h
  · cases h
    refine ⟨hu, fun _ => hconsumed, hi.read, ?_, fun _ => hconsumed, fun _ => Nat.le_max_right _ _,
      fun hb => absurd (hboot.symm.trans hb) Bool.false_ne_true,
      fun _ hp => by simp [after, Phase.Restarting, Phase.Rewound] at hp⟩
    exact hi.fill.trans (max_le_max_left _ (Nat.le_max_left _ _))
  · cases h

theorem tickPump_inv (hi : s.Inv) (hready : s.link.phase = .ready) {txFill : ℕ} (hu : (s.link.tickPump txFill).Inv) :
    (s.after (s.link.tickPump txFill) (.tickPump txFill)).Inv := by
  have hconsumed := hi.consumed (by simp [Phase.Rewound, hready])
  have hboot := hi.running (by simp [hready]) (by simp [Phase.Rewound, hready])
  refine ⟨hu, fun _ => hconsumed, ?_, ?_, hi.release, fun hk => (hi.txFill hk).trans (Nat.le_max_left _ _),
    fun hb => absurd (hboot.symm.trans hb) Bool.false_ne_true,
    fun _ hp => by simp [after, Link.tickPump, Phase.Restarting, Phase.Rewound] at hp⟩
  · exact (s.link.iso.pump_read s.link.consumed txFill).trans (max_le hi.read hconsumed)
  · refine (s.link.iso.pump_fill s.link.consumed txFill).trans (max_le ?_ ?_)
    · exact hi.fill.trans (max_le_max_left _ (Nat.le_max_left _ _))
    · exact (Nat.le_max_right _ _).trans (Nat.le_max_right _ _)

/-- A step of the pump that leaves the cursors as they are. -/
theorem pumped_inv (hi : s.Inv) (hboot : s.booting = false) (hr : ¬ s.link.phase.Rewound) {p : Phase}
    (hp : ¬ p.Restarting) (hu : Link.Inv { s.link with phase := p }) :
    Inv { s with link := { s.link with phase := p } } :=
  ⟨hu, fun _ => hi.consumed hr, hi.read, hi.fill, hi.release, hi.txFill,
    fun hb => absurd (hboot.symm.trans hb) Bool.false_ne_true, fun _ h => absurd h hp⟩

/-- What is drained below a count of this session is a packet of this session. -/
theorem drain_inv (hi : s.Inv) {total : ℕ} (hp : s.link.phase = .snapped total ∨ s.link.phase = .draining total)
    {u : Link} (hu : u.Inv) (h : s.link.drain total = some u) : (s.after u .drain).Inv := by
  have hpump : s.link.phase ≠ .stopped ∧ ¬ s.link.phase.Rewound := by
    rcases hp with hp | hp <;> simp [Phase.Rewound, hp]
  have hboot := hi.running hpump.1 hpump.2
  have htotal := hi.link.total total hp
  unfold Link.drain at h
  split at h
  · rename_i hlt
    cases h
    have hone : s.ofSession = 1 := if_pos (hi.link.slots s.link.consumed (hlt.trans_le htotal))
    have hconsumed := hi.consumed hpump.2
    refine ⟨hu, fun _ => ?_, hi.read.trans (Nat.le_add_right _ _), hi.fill,
      fun hk => (hi.release hk).trans (Nat.le_add_right _ _), hi.txFill,
      fun hb => absurd (hboot.symm.trans hb) Bool.false_ne_true,
      fun _ hp => by simp [after, Phase.Restarting, Phase.Rewound] at hp⟩
    simp only [after, hone]
    omega
  · cases h

/-- The cursors of the session are dropped before it ends. -/
theorem restart_inv (hi : s.Inv) (hs : s.link.phase ≠ .stopped) (hr : ¬ s.link.phase.Rewound)
    (hu : s.link.restart.Inv) : (s.after s.link.restart .restart).Inv := by
  have hboot := hi.running hs hr
  exact ⟨hu, fun _ => hi.consumed hr, hi.read, hi.fill, fun _ => Nat.zero_le _, fun _ => Nat.zero_le _,
    fun hb => absurd (hboot.symm.trans hb) Bool.false_ne_true, fun _ _ => ⟨rfl, rfl⟩⟩

theorem stop_read (r : Receive) : r.stop.isoReadCursor = r.isoReadCursor := by
  unfold Receive.stop
  split <;> rfl

theorem isoStop_inv (hi : s.Inv) (hp : s.link.phase = .stopping) (hu : s.link.isoStop.Inv) :
    (s.after s.link.isoStop .isoStop).Inv := by
  have hboot := hi.running (by simp [hp]) (by simp [Phase.Rewound, hp])
  refine ⟨hu, fun _ => hi.consumed (by simp [Phase.Rewound, hp]), ?_, hi.fill, hi.release, hi.txFill,
    fun hb => absurd (hboot.symm.trans hb) Bool.false_ne_true, fun hb _ => hi.zero hb (.inl hp)⟩
  exact (stop_read _).trans_le hi.read

/-- Of a session of the same daemon the block holds nothing; of a new daemon's it
holds what the one before left. -/
theorem isoStartContinuous_inv (hi : s.Inv) (hp : s.link.phase = .stopped) (hu : s.link.isoStartContinuous.Inv) :
    (s.after s.link.isoStartContinuous .isoStartContinuous).Inv where
  link := hu
  consumed := fun h => absurd (.inl rfl) h
  read := le_refl 0
  fill := hi.fill
  release := fun hk => (hi.zero hk (.inr (.inl hp))).1.le
  txFill := fun hk => (hi.zero hk (.inr (.inl hp))).2.trans_le (Nat.zero_le _)
  boot := fun hb => .inr ⟨.inl rfl, hb⟩
  zero := fun hb _ => hi.zero hb (.inr (.inl hp))

theorem isoTxStart_inv (hi : s.Inv) (hp : s.link.phase = .receiving) {fullCount : ℕ}
    (hu : Link.Inv { s.link with iso.tx := s.link.iso.tx.start fullCount, phase := .transmitting }) :
    (s.after { s.link with iso.tx := s.link.iso.tx.start fullCount, phase := .transmitting }
      (.isoTxStart fullCount)).Inv where
  link := hu
  consumed := fun h => absurd (.inr rfl) h
  read := hi.read
  fill := Nat.le_max_left _ _
  release := hi.release
  txFill := by
    intro hk
    have hboot : s.booting = false := by
      by_contra hb
      rcases hi.boot (Bool.not_eq_false _ ▸ hb) with hs | ⟨-, hkept⟩
      · simp [hp] at hs
      · exact Bool.false_ne_true (hk.symm.trans hkept)
    exact (hi.zero hboot (.inr (.inr (.inl hp)))).2.le
  boot := by
    intro hb
    rcases hi.boot hb with hs | ⟨-, hk⟩
    · simp [hp] at hs
    · exact .inr ⟨.inr rfl, hk⟩
  zero := fun hb _ => hi.zero hb (.inr (.inr (.inl hp)))

theorem restarted_inv (hi : s.Inv) {dbq : ℕ} (hu : Link.Inv { s.link with consumed := 0, dbq, phase := .ready }) :
    (s.after { s.link with consumed := 0, dbq, phase := .ready } (.restarted dbq)).Inv where
  link := hu
  consumed := fun _ => Nat.zero_le _
  read := hi.read
  fill := hi.fill
  release := hi.release
  txFill := hi.txFill
  boot := fun h => Bool.noConfusion h
  zero := fun _ hp => by simp [after, Phase.Restarting, Phase.Rewound] at hp

theorem ended_spec (s : Host) (stopped : Bool) :
    (s.ended stopped).rx.isoReadCursor = s.link.iso.rx.isoReadCursor ∧
      (s.ended stopped).tx.itFillCursor = s.link.iso.tx.itFillCursor ∧
      (s.ended stopped).control = s.link.iso.control ∧ (s.ended stopped).status = s.link.iso.status := by
  cases stopped with
  | false => exact ⟨rfl, rfl, rfl, rfl⟩
  | true => exact ⟨stop_read _, rfl, rfl, rfl⟩

theorem daemonRestart_inv (hi : s.Inv) (stopped : Bool) : (s.daemonRestart stopped).Inv := by
  obtain ⟨hread, hfill, hcontrol, hstatus⟩ := s.ended_spec stopped
  have hrx : (s.ended stopped).rx.Inv s.link.completed := by
    cases stopped with
    | false => exact hi.link.rx
    | true => exact Receive.stop_inv hi.link.rx
  have hlink : (s.daemonRestart stopped).link.Inv :=
    { rx := hrx
      slots := hi.link.slots
      page := fun hf => (congrArg UFOhciStatus.rxCompleted hstatus).trans_le (hi.link.page hf)
      total := fun _ h => by simp [daemonRestart] at h
      consumed := fun _ => Nat.zero_le _
      log := fun _ h => absurd h List.not_mem_nil
      frames := rfl }
  exact {
    link := hlink
    consumed := fun _ => Nat.zero_le _
    read := hread.trans_le hi.read
    fill := hfill.trans_le hi.fill
    release := fun hk => (congrArg UFOhciControl.releaseUpTo hcontrol).trans_le (hi.release hk)
    txFill := fun hk => (congrArg UFOhciControl.txFillUpTo hcontrol).trans_le (hi.txFill hk)
    boot := fun _ => .inl rfl
    zero := fun h => Bool.noConfusion h }

/-! ## Every run -/

/-- A step is the new daemon's coming up, its failure to start a session, or a
step of the link. -/
theorem step_cases {a : HostAct} (h : s.step a = some t) :
    (∃ stopped, a = .daemonRestart stopped ∧ t = s.daemonRestart stopped) ∨ t = s ∨
      ∃ b u, a = .link b ∧ (b = .startFails → s.booting = false) ∧ s.link.step b = some u ∧ t = s.after u b := by
  cases a with
  | daemonRestart stopped =>
    cases h
    exact .inl ⟨stopped, rfl, rfl⟩
  | link b =>
    have hlink (hb : b = .startFails → s.booting = false) (h : (s.link.step b).map (s.after · b) = some t) :
        ∃ b' u, HostAct.link b = .link b' ∧ (b' = .startFails → s.booting = false) ∧ s.link.step b' = some u ∧
          t = s.after u b' := by
      obtain ⟨u, hu, rfl⟩ := Option.map_eq_some_iff.1 h
      exact ⟨b, u, rfl, hb, hu, rfl⟩
    cases b with
    | startFails =>
      simp only [step] at h
      split at h
      · cases h
        exact .inr (.inl rfl)
      · rename_i hb
        exact .inr (.inr (hlink (fun _ => Bool.not_eq_true _ ▸ hb) h))
    | _ => exact .inr (.inr (hlink (fun hb => by cases hb) h))

theorem link_inv (hi : s.Inv) {b : LinkAct} {u : Link} (hok : s.Own (.link b))
    (hb : b = .startFails → s.booting = false) (h : s.link.step b = some u) : (s.after u b).Inv := by
  have hfresh : s.link.Fresh b := by
    cases b with
    | interrupt host cycle => trivial
    | _ => exact hok
  have hu := Link.step_inv s.link b u hi.link hfresh h
  cases Link.moves_of_step h with
  | complete len u h => exact complete_inv hi hu h
  | transmit i => exact { hi with link := hu }
  | interrupt host cycle => exact interrupt_inv hi hok hu
  | tickPage txFill u hp h => exact tickPage_inv hi hp hu h
  | tickPump txFill hp => exact tickPump_inv hi hp hu
  | tickPumpFails hp =>
    have hr : ¬ s.link.phase.Rewound := by simp [Phase.Rewound, hp]
    exact pumped_inv hi (hi.running (by simp [hp]) hr) hr (by simp [Phase.Restarting, Phase.Rewound]) hu
  | drain total u hp h => exact drain_inv hi hp hu h
  | drainEnd total u hp h =>
    have hpump : s.link.phase ≠ .stopped ∧ ¬ s.link.phase.Rewound := by
      rcases hp with hp | hp <;> simp [Phase.Rewound, hp]
    unfold Link.drainEnd at h
    split at h
    · cases h
    · cases h
      exact pumped_inv hi (hi.running hpump.1 hpump.2) hpump.2 (by simp [Phase.Restarting, Phase.Rewound]) hu
  | tickEnd hp =>
    have hr : ¬ s.link.phase.Rewound := by simp [Phase.Rewound, hp]
    exact pumped_inv hi (hi.running (by simp [hp]) hr) hr (by simp [Phase.Restarting, Phase.Rewound]) hu
  | restart hp =>
    have hpump : s.link.phase ≠ .stopped ∧ ¬ s.link.phase.Rewound := by
      rcases hp with ⟨total, hp⟩ | hp <;> simp [Phase.Rewound, hp]
    exact restart_inv hi hpump.1 hpump.2 hu
  | isoStop hp => exact isoStop_inv hi hp hu
  | startFails hp =>
    exact pumped_inv hi (hb rfl) (by simp [Phase.Rewound, hp]) (by simp [Phase.Restarting, Phase.Rewound]) hu
  | isoStartContinuous hp => exact isoStartContinuous_inv hi hp hu
  | isoTxStart fullCount hp => exact isoTxStart_inv hi hp hu
  | restarted dbq hp => exact restarted_inv hi hu

theorem step_inv (s : Host) (a : HostAct) (t : Host) (hi : s.Inv) (hok : s.Own a) (h : s.step a = some t) : t.Inv := by
  rcases step_cases h with ⟨stopped, rfl, rfl⟩ | rfl | ⟨b, u, rfl, hb, hu, rfl⟩
  · exact daemonRestart_inv hi stopped
  · exact hi
  · exact link_inv hi hok hb hu

end Host

/-- From the driver's `Start`, through any number of restarts of the session and
of the daemon, in a run in which no interrupt finds the cursors of an earlier
daemon in a session that is not its own and no tick a page of before the session:
the read cursor is at most the packets of the session its daemon has drained, and
the fill cursor at most what it has handed back. -/
theorem hand_back (slots : ℕ → ℕ) (dbq : ℕ) {as : List HostAct} {s : Host}
    (hm : Meets Host.step Host.Own (Host.start slots dbq) as) (h : run Host.step (Host.start slots dbq) as = some s) :
    s.link.iso.rx.isoReadCursor ≤ s.drained ∧ s.link.iso.tx.itFillCursor ≤ max kITPackets s.published := by
  have hi := hm.inv Host.Inv Host.step_inv h (Host.start_inv slots dbq)
  exact ⟨hi.read, hi.fill⟩

/-- A daemon starts a session. -/
def startingUp : List HostAct := [.link .isoStartContinuous, .link (.isoTxStart 640), .link (.restarted 28)]

/-- A packet is drained, and its slot given back with the next tick. -/
def drainingOne : List HostAct :=
  [.link (.complete 672), .link (.interrupt 5 0), .link (.tickPage 700), .link .drain, .link .drainEnd, .link .tickEnd,
    .link (.tickPage 708)]

theorem hand_back_one : ∃ s, run Host.step (Host.start (fun _ => 0) 28)
      (startingUp ++ drainingOne ++ [.link (.transmit 0), .link (.interrupt 6 0), .link (.interrupt 7 0)]) = some s ∧
    (s.link.iso.rx.isoReadCursor = 1 ∧ s.link.iso.tx.itFillCursor = 641) ∧
    s.link.iso.rx.isoReadCursor ≤ s.drained ∧ s.link.iso.tx.itFillCursor ≤ max kITPackets s.published := by
  have h : (run Host.step (Host.start (fun _ => 0) 28)
      (startingUp ++ drainingOne ++ [.link (.transmit 0), .link (.interrupt 6 0), .link (.interrupt 7 0)])).map
      (fun s => (s.link.iso.rx.isoReadCursor, s.link.iso.tx.itFillCursor)) = some (1, 641) := by decide +kernel
  have hm : Meets Host.step Host.Own (Host.start (fun _ => 0) 28)
      (startingUp ++ drainingOne ++ [.link (.transmit 0), .link (.interrupt 6 0), .link (.interrupt 7 0)]) := by
    decide +kernel
  obtain ⟨s, hrun, hs⟩ := Option.map_eq_some_iff.1 h
  rw [Prod.mk.injEq] at hs
  exact ⟨s, hrun, hs, hand_back (fun _ => 0) 28 hm hrun⟩

/-- The session of the next daemon begins with the cursors of the one before: its
second interrupt gives back a packet it has not drained, and a slot of the
transmit ring it has not filled. -/
theorem earlier_daemon : ∃ s, run Host.step (Host.start (fun _ => 0) 28)
      (startingUp ++ drainingOne ++ [.daemonRestart true] ++ startingUp ++
        [.link (.complete 672), .link (.transmit 0), .link (.interrupt 8 0), .link (.interrupt 9 0)]) = some s ∧
    s.drained < s.link.iso.rx.isoReadCursor ∧ max kITPackets s.published < s.link.iso.tx.itFillCursor := by
  have h : (run Host.step (Host.start (fun _ => 0) 28)
      (startingUp ++ drainingOne ++ [.daemonRestart true] ++ startingUp ++
        [.link (.complete 672), .link (.transmit 0), .link (.interrupt 8 0), .link (.interrupt 9 0)])).map
      (fun s => (s.drained, s.link.iso.rx.isoReadCursor, s.published, s.link.iso.tx.itFillCursor)) =
      some (0, 1, 0, 641) := by decide +kernel
  obtain ⟨s, hrun, hs⟩ := Option.map_eq_some_iff.1 h
  simp only [Prod.mk.injEq] at hs
  obtain ⟨hdrained, hread, hpublished, hfill⟩ := hs
  refine ⟨s, hrun, by omega, ?_⟩
  rw [hpublished, hfill]
  decide

end UserFace800.Dext
