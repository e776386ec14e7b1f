import UserFace800.Control.Contain
import UserFace800.Control.Restart
/-!
# Clock-source requests

CoreAudio picks the clock source: the plugin stores `requestedClockSource` and bumps
`controlSeq`, the pump acts on a number it has not seen, in `g_settings`, and writes the
conf block and the clock-config register at once. `SetSettings` writes the same two, an
idle drain only adopts, and a session start writes the conf block alone.

What the device was last told is read off the log of all writes. `conf_follows` is about
the conf block, in every run; `clock_follows` is about a request, and needs the pump to
have loaded the number once before it is counted.
-/
open UserFace800.Lib UserFace800.Protocol UserFace800.Mixer

namespace UserFace800.Control

/-! ## What a register was last told -/

/-- Where a write goes. -/
def DevWrite.addr : DevWrite → ℕ
  | .quadlet a _ => a
  | .block a _ => a

/-- The last write to `a`, if there was one. -/
def lastWrite (a : ℕ) (log : List DevWrite) : Option DevWrite := (log.filter fun w => DevWrite.addr w == a).getLast?

theorem lastWrite_append (a : ℕ) (log ws : List DevWrite) :
    lastWrite a (log ++ ws) = (lastWrite a ws).or (lastWrite a log) := by
  unfold lastWrite
  rw [List.filter_append, List.getLast?_append]

theorem lastWrite_of_not {a : ℕ} {ws : List DevWrite} (h : ∀ w ∈ ws, DevWrite.addr w ≠ a) : lastWrite a ws = none := by
  unfold lastWrite
  rw [List.filter_eq_nil_iff.2 fun w hw => by simpa using h w hw]
  rfl

/-- Writes elsewhere are not seen. -/
theorem lastWrite_elsewhere {a : ℕ} {log ws : List DevWrite} (h : ∀ w ∈ ws, DevWrite.addr w ≠ a) :
    lastWrite a (log ++ ws) = lastWrite a log := by
  rw [lastWrite_append, lastWrite_of_not h, Option.none_or]

/-! ## The system -/

/-- The value the enumeration has on the shared page. -/
def ClockSource.raw : ClockSource → Quadlet
  | .internal => 0
  | .wordClock => 1
  | .adat1 => 2
  | .adat2 => 3
  | .spdif => 4
  | .tco => 5

theorem ClockSource.ofRaw_raw (src : ClockSource) : ClockSource.ofRaw src.raw = some src := by
  cases src <;> rfl

/-- Where `main` is: without a session, with its first one and the rings made, at the top
of a tick, past the drain, with a new number, or past the clock request. -/
inductive ClockPhase where
  | waiting | booted | ready | drained | requested | checked
  deriving DecidableEq

/-- The control fields of the capture ring, the daemon, and what it wrote. Not in the
source: the stores not counted yet, the source stored last, whether a `SetSettings` came
after that store, and the rate at which a request was last carried out. -/
structure ClockSys where
  daemon : Daemon
  log : List DevWrite := []
  requestedClockSource : Quadlet := 0
  controlSeq : ℕ := 0
  seenControl : ℕ := 0
  phase : ClockPhase := .waiting
  publishing : ℕ := 0
  asked : Option ClockSource := none
  overruled : Bool := false
  clockRate : Quadlet := 0

/-- The daemon's steps, access by access on the control page, and those of the plugin. -/
inductive ClockAct where
  | idle (cs : List CtlCommand)
  /-- A session start or restart; the device may publish its channel or not. -/
  | start (rate : Quadlet) (channel : Bool)
  /-- `SetPropertyData` stores a source, which it has checked, and counts the request. -/
  | store (src : ClockSource)
  | bump
  | loadSeen
  | tick (cs : List CtlCommand)
  | loadSeq
  | loadWant
  | tickEnd
  | restart (rate : Quadlet) (channel : Bool)

namespace Daemon

/-- All that `session_start` writes. -/
def bringUpWrites (d : Daemon) (rate : Quadlet) (channel : Bool) : List DevWrite :=
  if isSupportedRate rate then d.setupWrites rate ++ if channel then d.applyWrites rate else [] else []

/-- The daemon after it. -/
def started (d : Daemon) (rate : Quadlet) (channel : Bool) : Daemon :=
  if isSupportedRate rate && channel then d.sessionStart rate else d

end Daemon

namespace ClockSys

/-- The daemon before its first session, with a control page of zeros. -/
def boot (d : Daemon) : ClockSys := { daemon := d }

/-- A request the pump has loaded. -/
def handle (s : ClockSys) (want : Quadlet) : ClockSys :=
  match ClockSource.ofRaw want with
  | none => { s with phase := .checked }
  | some src => { s with
      daemon := s.daemon.selectClock src, log := s.log ++ (s.daemon.selectClock src).clockWrites
      clockRate := s.daemon.rate, phase := .checked }

/-- The daemon waits for the device, or is somewhere in a tick; the plugin stores and counts
beside it. -/
def step (s : ClockSys) (a : ClockAct) : Option ClockSys :=
  match a, s.phase with
  | .idle cs, .waiting => some { s with daemon := s.daemon.drainCtlIdle cs }
  | .start rate channel, .waiting => some { s with
      daemon := s.daemon.started rate channel, log := s.log ++ s.daemon.bringUpWrites rate channel
      phase := if isSupportedRate rate && channel then .booted else .waiting }
  | .store _, .waiting => none
  | .store src, _ => some { s with
      requestedClockSource := src.raw, publishing := s.publishing + 1, asked := some src, overruled := false }
  | .bump, _ =>
    if 0 < s.publishing then some { s with controlSeq := s.controlSeq + 1, publishing := s.publishing - 1 } else none
  | .loadSeen, .booted => some { s with seenControl := s.controlSeq, phase := .ready }
  | .tick cs, .ready => some { s with
      daemon := s.daemon.tick cs, log := s.log ++ s.daemon.tickWrites cs
      overruled := s.overruled || cs.any (fun c => c.type == .setSettings), phase := .drained }
  | .loadSeq, .drained =>
    if s.controlSeq ≠ s.seenControl then some { s with seenControl := s.controlSeq, phase := .requested }
    else some { s with phase := .checked }
  | .loadWant, .requested => some (s.handle s.requestedClockSource)
  | .tickEnd, .checked => some { s with phase := .ready }
  | .restart rate channel, .checked => some { s with
      daemon := s.daemon.started rate channel
      log := s.log ++ (s.daemon.stopWrites ++ s.daemon.bringUpWrites rate channel), phase := .ready }
  | _, _ => none

end ClockSys

/-! ## What each write leaves of the two registers -/

/-- The conf block the device was told last is that of the settings. -/
def Mirrored (d : Daemon) (log : List DevWrite) : Prop :=
  lastWrite Reg.kConfBlock log = some (.block Reg.kConfBlock (assembleConfBlock d.settings))

namespace Daemon

variable {d : Daemon} {log : List DevWrite}

theorem pumpCommand_settings (d : Daemon) (c : CtlCommand) : (d.pumpCommand c).settings = c.adopt d.settings := by
  simp only [pumpCommand, foldl_mark]

theorem drainCtl_settings (d : Daemon) {cs : List CtlCommand} (h : cs.any (fun c => c.type == .setSettings) = false) :
    (d.drainCtl cs).settings = d.settings := by
  induction cs generalizing d with
  | nil => rfl
  | cons c cs ih =>
    rw [List.any_cons, Bool.or_eq_false_iff] at h
    refine (ih (d.pumpCommand c) h.2).trans ?_
    rw [pumpCommand_settings, CtlCommand.adopt]
    cases ht : c.type <;> simp [ht] at h ⊢

theorem pushDirty_settings (d : Daemon) : d.pushDirty.settings = d.settings := by
  unfold pushDirty
  dsimp only
  split <;> rfl

/-- Both registers lie behind every cell a message can name, but for the clock-config one,
which a source or a destination far out of range runs into. -/
theorem entered_ne_conf (c : CtlCommand) : Reg.kConfBlock ∉ entered c := by
  have hs := c.src.isLt
  have hd := c.dest.isLt
  have ho := c.out.isLt
  have hcell (k : MixerSrcKind) (i j : ℕ) (hi : i < 2 ^ 16) (hj : j < 2 ^ 16) : (MixerModel.renderCell {} k i j).addr ≠
      Reg.kConfBlock := by
    rw [show (MixerModel.renderCell {} k i j).addr = _ from coeffAddr_eq k hi hj]
    unfold cellIndex Reg.kConfBlock Reg.kMixerRam
    cases k <;> simp only [half] <;> omega
  have hfader (o : ℕ) (ho : o < 2 ^ 16) : (MixerModel.renderOutput {} o).addr ≠ Reg.kConfBlock := by
    rw [show (MixerModel.renderOutput {} o).addr = _ from outputFaderAddr_eq ho]
    unfold faderIndex Reg.kConfBlock Reg.kMixerRam
    omega
  intro h
  obtain ⟨w, hw, haddr⟩ := List.mem_map.1 h
  unfold CtlCommand.touched at hw
  cases ht : c.type <;> simp only [ht, List.mem_singleton, List.not_mem_nil] at hw
  case setMixer | setCellFlags => exact hcell _ _ _ hs hd (hw ▸ haddr)
  case setFader | setOutFlags => exact hfader _ ho (hw ▸ haddr)
  case submix =>
    obtain ⟨i, hi, hw⟩ := List.mem_flatMap.1 hw
    have hi := List.mem_range.1 hi
    have hK := kCh_eq
    rcases List.mem_pair.1 hw with rfl | rfl <;> exact hcell _ _ _ (by omega) hd haddr

theorem direct_mirrored (hm : Mirrored d log) (c : CtlCommand) : Mirrored (d.pumpCommand c) (log ++ c.direct d) := by
  unfold Mirrored at hm ⊢
  rw [pumpCommand_settings]
  unfold CtlCommand.direct CtlCommand.adopt
  cases ht : c.type
  case setSettings =>
    rw [lastWrite_append]
    rfl
  case setOutFlags =>
    refine (lastWrite_elsewhere fun w hw => ?_).trans hm
    dsimp only at hw
    split at hw
    · rw [List.mem_singleton.1 hw]
      exact (by decide : Reg.kOutputRecMask ≠ Reg.kConfBlock)
    · cases hw
  all_goals simpa using hm

theorem drain_mirrored (hm : Mirrored d log) (cs : List CtlCommand) :
    Mirrored (d.drainCtl cs) (log ++ d.drainWrites cs) := by
  induction cs generalizing d log with
  | nil => simpa [drainWrites, drainCtl] using hm
  | cons c cs ih =>
    rw [drainWrites, ← List.append_assoc]
    exact ih (direct_mirrored hm c)

/-- What is pushed is what was entered. -/
theorem push_elsewhere {a : ℕ} {cs : List CtlCommand} (hd : ¬ d.ctlDirty.Has a) (hcs : ∀ c ∈ cs, a ∉ entered c) :
    (∀ w ∈ (d.drainCtl cs).toPush.map fun e => DevWrite.quadlet e.1 e.2, DevWrite.addr w ≠ a) ∧
    ¬ (d.tick cs).ctlDirty.Has a := by
  have hno : ¬ (d.drainCtl cs).ctlDirty.Has a := by
    rw [drainCtl_has]
    rintro (h | ⟨c, hc, h⟩)
    · exact hd h
    · exact hcs c hc h
  rw [SortedMap.has_split _ kCtlWritesPerTick, not_or] at hno
  constructor
  · intro w hw hwa
    obtain ⟨e, he, rfl⟩ := List.mem_map.1 hw
    exact hno.1 ⟨e, he, hwa⟩
  · rw [tick, pushDirty_ctlDirty]
    exact hno.2

theorem tick_mirrored (hm : Mirrored d log) (hd : ¬ d.ctlDirty.Has Reg.kConfBlock) (cs : List CtlCommand) :
    Mirrored (d.tick cs) (log ++ d.tickWrites cs) := by
  unfold Mirrored
  rw [tick, pushDirty_settings, tickWrites, ← List.append_assoc,
    lastWrite_elsewhere (push_elsewhere hd fun c _ => entered_ne_conf c).1]
  exact drain_mirrored hm cs

theorem select_mirrored (d : Daemon) (log : List DevWrite) (src : ClockSource) :
    Mirrored (d.selectClock src) (log ++ (d.selectClock src).clockWrites) := by
  unfold Mirrored
  rw [lastWrite_append]
  rfl

/-- Writes of the matrix lie in its RAM. -/
theorem applyWrites_elsewhere (d : Daemon) (rate : Quadlet) {a : ℕ} (ha : Reg.kMixerRam + 4 * kCells ≤ a)
    (hstart : a ≠ Reg.kInitBankStart) (hstatus : a ≠ Reg.kStatus0) : ∀ w ∈ d.applyWrites rate, DevWrite.addr w ≠ a := by
  intro w hw
  rcases List.mem_append.1 hw with hw | hw
  · obtain ⟨x, hx, rfl⟩ := List.mem_map.1 hw
    obtain ⟨i, -, rfl⟩ := List.mem_map.1 hx
    have hi := i.isLt
    simp only [DevWrite.addr]
    omega
  · rcases List.mem_pair.1 hw with rfl | rfl
    · exact Ne.symm hstart
    · exact Ne.symm hstatus

theorem started_settings (d : Daemon) (rate : Quadlet) (channel : Bool) :
    (d.started rate channel).settings = d.settings := by
  unfold started
  split <;> rfl

theorem started_ctlDirty (d : Daemon) (rate : Quadlet) (channel : Bool) :
    (d.started rate channel).ctlDirty = d.ctlDirty := by
  unfold started
  split <;> rfl

theorem setup_mirrored (d : Daemon) (log : List DevWrite) (rate : Quadlet) (channel : Bool) :
    Mirrored d (log ++ (d.setupWrites rate ++ if channel then d.applyWrites rate else [])) := by
  unfold Mirrored
  rw [← List.append_assoc, lastWrite_elsewhere, lastWrite_append]
  · rfl
  · split
    · exact applyWrites_elsewhere d rate (by decide) (by decide) (by decide)
    · intro w hw
      cases hw

/-- Neither a start nor a stop says anything about the clock. -/
theorem bringUpWrites_elsewhere (d : Daemon) (rate : Quadlet) (channel : Bool) :
    ∀ w ∈ d.bringUpWrites rate channel, DevWrite.addr w ≠ Reg.kClockConfig := by
  unfold bringUpWrites
  split
  · intro w hw
    rcases List.mem_append.1 hw with hw | hw
    · simp only [setupWrites, List.mem_cons, List.not_mem_nil, or_false] at hw
      rcases hw with rfl | rfl | rfl | rfl | rfl <;> simp only [DevWrite.addr] <;> decide
    · split at hw
      · exact applyWrites_elsewhere d rate (by decide) (by decide) (by decide) w hw
      · cases hw
  · intro w hw
    cases hw

theorem stopWrites_elsewhere (d : Daemon) {a : ℕ} (hstatus : a ≠ Reg.kStatus0) (hstop : a ≠ Reg.kInitBankStop) :
    ∀ w ∈ d.stopWrites, DevWrite.addr w ≠ a := by
  intro w hw
  rcases List.mem_pair.1 hw with rfl | rfl
  · exact Ne.symm hstatus
  · exact Ne.symm hstop

end Daemon
namespace ClockSys

variable {s t : ClockSys}

/-! ## The conf block, in every run -/

/-- From the first session on the conf block last written is the shadow's, and nothing else is
to be written there. -/
structure Inv (s : ClockSys) : Prop where
  conf : s.phase ≠ .waiting → Mirrored s.daemon s.log
  dirty : ¬ s.daemon.ctlDirty.Has Reg.kConfBlock
  seen : s.seenControl ≤ s.controlSeq

theorem drainCtlIdle_ctlDirty (d : Daemon) (cs : List CtlCommand) : (d.drainCtlIdle cs).ctlDirty = d.ctlDirty := by
  unfold Daemon.drainCtlIdle
  dsimp only
  split <;> rfl

theorem start_mirrored (d : Daemon) (log : List DevWrite) {rate : Quadlet} (channel : Bool)
    (hrate : isSupportedRate rate = true) :
    Mirrored (d.started rate channel) (log ++ d.bringUpWrites rate channel) := by
  unfold Mirrored
  rw [d.started_settings, Daemon.bringUpWrites, if_pos hrate]
  exact d.setup_mirrored log rate channel

/-- A restart, whatever becomes of it. -/
theorem restart_mirrored {d : Daemon} {log : List DevWrite} (hm : Mirrored d log) (rate : Quadlet) (channel : Bool) :
    Mirrored (d.started rate channel) (log ++ (d.stopWrites ++ d.bringUpWrites rate channel)) := by
  rw [← List.append_assoc]
  cases hrate : isSupportedRate rate with
  | true => exact start_mirrored d _ channel hrate
  | false =>
    unfold Mirrored
    rw [d.started_settings, Daemon.bringUpWrites, hrate]
    simp only [Bool.false_eq_true, if_false, List.append_nil]
    exact (lastWrite_elsewhere (d.stopWrites_elsewhere (by decide) (by decide))).trans hm

theorem handle_cases (s : ClockSys) (want : Quadlet) :
    (ClockSource.ofRaw want = none ∧ s.handle want = { s with phase := .checked }) ∨
    ∃ src, ClockSource.ofRaw want = some src ∧ s.handle want = { s with
      daemon := s.daemon.selectClock src, log := s.log ++ (s.daemon.selectClock src).clockWrites
      clockRate := s.daemon.rate, phase := .checked } := by
  unfold handle
  cases h : ClockSource.ofRaw want with
  | none => exact .inl ⟨rfl, rfl⟩
  | some src => exact .inr ⟨src, rfl, rfl⟩

theorem step_inv (s : ClockSys) (a : ClockAct) (t : ClockSys) (hi : Inv s) (h : s.step a = some t) : Inv t := by
  obtain ⟨hconf, hdirty, hseen⟩ := hi
  unfold step at h
  split at h
  next cs hp =>
    obtain rfl := Option.some.inj h
    exact ⟨fun hn => absurd hp hn, (drainCtlIdle_ctlDirty _ cs).symm ▸ hdirty, hseen⟩
  next rate channel hp =>
    obtain rfl := Option.some.inj h
    refine ⟨fun hn => ?_, (Daemon.started_ctlDirty _ rate channel).symm ▸ hdirty, hseen⟩
    have hrate : isSupportedRate rate = true := by
      by_contra hr
      simp [hr] at hn
    exact start_mirrored s.daemon s.log channel hrate
  next => cases h
  next => exact Option.some.inj h ▸ ⟨hconf, hdirty, hseen⟩
  next =>
    split at h
    · exact Option.some.inj h ▸ ⟨hconf, hdirty, Nat.le_succ_of_le hseen⟩
    · cases h
  next hp => exact Option.some.inj h ▸ ⟨fun _ => hconf (by simp [hp]), hdirty, Nat.le_refl _⟩
  next cs hp =>
    obtain rfl := Option.some.inj h
    exact ⟨fun _ => Daemon.tick_mirrored (hconf (by simp [hp])) hdirty cs,
      (Daemon.push_elsewhere hdirty fun c _ => Daemon.entered_ne_conf c).2, hseen⟩
  next hp =>
    split at h
    · exact Option.some.inj h ▸ ⟨fun _ => hconf (by simp [hp]), hdirty, Nat.le_refl _⟩
    · exact Option.some.inj h ▸ ⟨fun _ => hconf (by simp [hp]), hdirty, hseen⟩
  next hp =>
    obtain rfl := Option.some.inj h
    rcases s.handle_cases s.requestedClockSource with ⟨-, heq⟩ | ⟨src, -, heq⟩ <;> rw [heq]
    · exact ⟨fun _ => hconf (by simp [hp]), hdirty, hseen⟩
    · exact ⟨fun _ => Daemon.select_mirrored s.daemon s.log src, hdirty, hseen⟩
  next hp => exact Option.some.inj h ▸ ⟨fun _ => hconf (by simp [hp]), hdirty, hseen⟩
  next rate channel hp =>
    obtain rfl := Option.some.inj h
    exact ⟨fun _ => restart_mirrored (hconf (by simp [hp])) rate channel,
      (Daemon.started_ctlDirty _ rate channel).symm ▸ hdirty, hseen⟩
  next => cases h

theorem boot_inv {d : Daemon} (hd : d.ctlDirty = .empty) : Inv (boot d) where
  conf h := absurd rfl h
  dirty := by
    rw [show (boot d).daemon.ctlDirty = d.ctlDirty from rfl, hd]
    exact SortedMap.not_has_empty _
  seen := Nat.le_refl _

/-- From the first session on, between any two steps of the pump: whatever commands, with
whatever fields, clock requests, restarts and failures there were, the conf block written
last is the one of the settings in force. -/
theorem conf_follows (diag : Bool) (saved : Saved) (pub : Option Published) {as : List ClockAct}
    (h : run step (boot (.boot diag saved pub)) as = some s) (hup : s.phase ≠ .waiting) : Mirrored s.daemon s.log :=
  (run_inv Inv step_inv h (boot_inv rfl)).conf hup

/-- After a restart that fails, with settings that came while there was no device. -/
theorem conf_follows_idle : ∃ s, run step (boot (.boot true .absent none))
      [.idle [phantomOn], .start 48000 true, .loadSeen, .tick [], .loadSeq, .restart 96000 false] = some s ∧
    s.daemon.settings.phantom7 = true ∧ Mirrored s.daemon s.log := by
  have hr : (run step (boot (.boot true .absent none))
      [.idle [phantomOn], .start 48000 true, .loadSeen, .tick [], .loadSeq, .restart 96000 false]).map
        (fun s => (s.daemon.settings.phantom7, s.phase)) = some (true, .ready) := by decide +kernel
  obtain ⟨s, hs, hsame⟩ := Option.map_eq_some_iff.1 hr
  obtain ⟨hphantom, hphase⟩ := Prod.mk.inj hsame
  exact ⟨s, hs, hphantom, conf_follows true .absent none hs (by simp [hphase])⟩

/-! ## A request -/

/-- It is on its way to the daemon. -/
def Pending (s : ClockSys) : Prop := 0 < s.publishing ∨ s.controlSeq ≠ s.seenControl ∨ s.phase = .requested

/-- The source is in force: in the settings, and in what the clock-config register was told. -/
structure Honoured (src : ClockSource) (s : ClockSys) : Prop where
  master : s.daemon.settings.clock_master = clockSourceIsMaster src
  sync_ref : s.daemon.settings.sync_ref = clockSourceSyncRef src
  told : lastWrite Reg.kClockConfig s.log = some (.quadlet Reg.kClockConfig
    (assembleClockConfig (clockSourceIsMaster src) (clockSourceSyncRef src) s.clockRate))

/-- Nothing is counted before the pump has loaded the number once, and no mixer command
names a cell so far out of range that it is the clock-config register. -/
def InTime (s : ClockSys) : ClockAct → Prop
  | .bump => s.phase ≠ .booted
  | .tick cs => ∀ c ∈ cs, Reg.kClockConfig ∉ Daemon.entered c
  | _ => True

instance (s : ClockSys) : ∀ a, Decidable (s.InTime a)
  | .bump => inferInstanceAs (Decidable (s.phase ≠ .booted))
  | .tick cs => inferInstanceAs (Decidable (∀ c ∈ cs, Reg.kClockConfig ∉ Daemon.entered c))
  | .idle _ | .start .. | .store _ | .loadSeen | .loadSeq | .loadWant | .tickEnd | .restart .. => .isTrue trivial

/-- A request asked for and not overruled is pending or honoured. -/
structure Told (s : ClockSys) : Prop where
  inv : Inv s
  dirty : ¬ s.daemon.ctlDirty.Has Reg.kClockConfig
  waiting : s.phase = .waiting → s.publishing = 0 ∧ s.asked = none
  early : s.phase = .waiting ∨ s.phase = .booted → s.controlSeq = 0
  stored : ∀ src, s.asked = some src → s.requestedClockSource = src.raw
  told : ∀ src, s.asked = some src → s.overruled = false → s.Pending ∨ Honoured src s

theorem Honoured.keep {src : ClockSource} (h : Honoured src s) (hsettings : t.daemon.settings = s.daemon.settings)
    (hlog : lastWrite Reg.kClockConfig t.log = lastWrite Reg.kClockConfig s.log) (hrate : t.clockRate = s.clockRate) :
    Honoured src t where
  master := hsettings ▸ h.master
  sync_ref := hsettings ▸ h.sync_ref
  told := by rw [hlog, hrate, h.told]

theorem handle_honoured (s : ClockSys) (src : ClockSource) : Honoured src (s.handle src.raw) := by
  rw [handle, src.ofRaw_raw]
  refine ⟨rfl, rfl, ?_⟩
  rw [lastWrite_append]
  rfl

/-- Commands that set nothing and enter nothing there say nothing about the clock. -/
theorem drain_elsewhere (d : Daemon) {cs : List CtlCommand} (h : cs.any (fun c => c.type == .setSettings) = false) :
    ∀ w ∈ d.drainWrites cs, DevWrite.addr w ≠ Reg.kClockConfig := by
  induction cs generalizing d with
  | nil =>
    intro w hw
    cases hw
  | cons c cs ih =>
    rw [List.any_cons, Bool.or_eq_false_iff] at h
    intro w hw
    rcases List.mem_append.1 hw with hw | hw
    · unfold CtlCommand.direct at hw
      cases ht : c.type <;> simp only [ht, List.not_mem_nil] at hw
      case setSettings => simp [ht] at h
      case setOutFlags =>
        split at hw
        · rw [List.mem_singleton.1 hw]
          exact (by decide : Reg.kOutputRecMask ≠ Reg.kClockConfig)
        · cases hw
    · exact ih (d.pumpCommand c) h.2 w hw

theorem tick_honoured {src : ClockSource} {cs : List CtlCommand} {phase : ClockPhase} {overruled : Bool}
    (h : Honoured src s) (hdirty : ¬ s.daemon.ctlDirty.Has Reg.kClockConfig)
    (hcs : ∀ c ∈ cs, Reg.kClockConfig ∉ Daemon.entered c)
    (hnone : cs.any (fun c => c.type == .setSettings) = false) : Honoured src { s with
      daemon := s.daemon.tick cs, log := s.log ++ s.daemon.tickWrites cs, overruled := overruled, phase := phase } := by
  refine h.keep ?_ ?_ rfl
  · rw [Daemon.tick, Daemon.pushDirty_settings, Daemon.drainCtl_settings _ hnone]
  · rw [Daemon.tickWrites, ← List.append_assoc, lastWrite_elsewhere (Daemon.push_elsewhere hdirty hcs).1,
      lastWrite_elsewhere (drain_elsewhere s.daemon hnone)]

/-- The pump goes on in a session: what was asked for is pending, or honoured. -/
theorem Told.onward (hi : Told s) (hinv : Inv t) (hdirty : ¬ t.daemon.ctlDirty.Has Reg.kClockConfig)
    (hphase : t.phase ≠ .waiting ∧ t.phase ≠ .booted) (hsource : t.requestedClockSource = s.requestedClockSource)
    (hasked : t.asked = s.asked)
    (htold : ∀ src, s.asked = some src → t.overruled = false → t.Pending ∨ Honoured src t) : Told t where
  inv := hinv
  dirty := hdirty
  waiting h := absurd h hphase.1
  early h := (h.elim hphase.1 hphase.2).elim
  stored src hs := hsource.trans (hi.stored src (hasked ▸ hs))
  told src hs := htold src (hasked ▸ hs)

/-- Where nothing is being loaded, what is pending is stored or counted. -/
theorem Told.cases (hi : Told s) (hp : s.phase ≠ .requested) {src : ClockSource} (hs : s.asked = some src)
    (hover : s.overruled = false) : 0 < s.publishing ∨ s.controlSeq ≠ s.seenControl ∨ Honoured src s := by
  rcases hi.told src hs hover with (hpub | hseq | hreq) | hdone
  · exact .inl hpub
  · exact .inr (.inl hseq)
  · exact absurd hreq hp
  · exact .inr (.inr hdone)

theorem Told.store (hi : Told s) {src : ClockSource} (hp : s.phase ≠ .waiting) (hinv : Inv { s with
      requestedClockSource := src.raw, publishing := s.publishing + 1, asked := some src, overruled := false }) :
    Told { s with
      requestedClockSource := src.raw, publishing := s.publishing + 1, asked := some src, overruled := false } where
  inv := hinv
  dirty := hi.dirty
  waiting h := absurd h hp
  early := hi.early
  stored src' h := by
    cases h
    rfl
  told _ _ _ := .inl (.inl (Nat.succ_pos _))

theorem Told.bump (hi : Told s) (hp : s.phase ≠ .booted) (hpub : 0 < s.publishing)
    (hinv : Inv { s with controlSeq := s.controlSeq + 1, publishing := s.publishing - 1 }) :
    Told { s with controlSeq := s.controlSeq + 1, publishing := s.publishing - 1 } := by
  have hseen := hi.inv.seen
  have hbooted : s.phase ≠ .waiting := fun hw => absurd (hi.waiting hw).1 (Nat.ne_of_gt hpub)
  refine hi.onward hinv hi.dirty ⟨hbooted, hp⟩ rfl rfl fun _ _ _ => .inl (.inr (.inl ?_))
  dsimp only
  omega

/-- The first load of the count: nothing was counted, so what is on its way is yet to be. -/
theorem Told.loadSeen (hi : Told s) (hp : s.phase = .booted)
    (hinv : Inv { s with seenControl := s.controlSeq, phase := .ready }) :
    Told { s with seenControl := s.controlSeq, phase := .ready } := by
  have hseen := hi.inv.seen
  have hearly := hi.early (.inr hp)
  refine hi.onward hinv hi.dirty (by simp) rfl rfl fun src hs hover => ?_
  rcases hi.cases (by simp [hp]) hs hover with hpub | hseq | hdone
  · exact .inl (.inl hpub)
  · omega
  · exact .inr (hdone.keep rfl rfl rfl)

theorem Told.tick (hi : Told s) {cs : List CtlCommand} (hp : s.phase = .ready)
    (hcs : ∀ c ∈ cs, Reg.kClockConfig ∉ Daemon.entered c) (hinv : Inv { s with
      daemon := s.daemon.tick cs, log := s.log ++ s.daemon.tickWrites cs
      overruled := s.overruled || cs.any (fun c => c.type == .setSettings), phase := .drained }) :
    Told { s with
      daemon := s.daemon.tick cs, log := s.log ++ s.daemon.tickWrites cs
      overruled := s.overruled || cs.any (fun c => c.type == .setSettings), phase := .drained } := by
  refine hi.onward hinv (Daemon.push_elsewhere hi.dirty hcs).2 (by simp) rfl rfl fun src hs hover => ?_
  rw [Bool.or_eq_false_iff] at hover
  rcases hi.cases (by simp [hp]) hs hover.1 with hpub | hseq | hdone
  · exact .inl (.inl hpub)
  · exact .inl (.inr (.inl hseq))
  · exact .inr (tick_honoured hdone hi.dirty hcs hover.2)

/-- The pump finds nothing new to load. -/
theorem Told.unchanged (hi : Told s) (hp : s.phase ≠ .requested) (hsame : s.controlSeq = s.seenControl)
    (hinv : Inv { s with phase := .checked }) : Told { s with phase := .checked } := by
  refine hi.onward hinv hi.dirty (by simp) rfl rfl fun src hs hover => ?_
  rcases hi.cases hp hs hover with hpub | hseq | hdone
  · exact .inl (.inl hpub)
  · exact absurd hsame hseq
  · exact .inr (hdone.keep rfl rfl rfl)

/-- The source it loads is the one stored last, if any was. -/
theorem Told.handle (hi : Told s) (hinv : Inv (s.handle s.requestedClockSource)) :
    Told (s.handle s.requestedClockSource) := by
  have hload (src) (hs : s.asked = some src) : Honoured src (s.handle s.requestedClockSource) :=
    hi.stored src hs ▸ handle_honoured s src
  rcases s.handle_cases s.requestedClockSource with ⟨-, heq⟩ | ⟨src', -, heq⟩ <;> rw [heq] at hload hinv ⊢
  · exact hi.onward hinv hi.dirty (by simp) rfl rfl fun src hs _ => .inr (hload src hs)
  · exact hi.onward hinv hi.dirty (by simp) rfl rfl fun src hs _ => .inr (hload src hs)

theorem Told.tickEnd (hi : Told s) (hp : s.phase ≠ .requested) (hinv : Inv { s with phase := .ready }) :
    Told { s with phase := .ready } := by
  refine hi.onward hinv hi.dirty (by simp) rfl rfl fun src hs hover => ?_
  rcases hi.cases hp hs hover with hpub | hseq | hdone
  · exact .inl (.inl hpub)
  · exact .inl (.inr (.inl hseq))
  · exact .inr (hdone.keep rfl rfl rfl)

/-- A restart leaves the clock-config register and the settings alone. -/
theorem Told.restart (hi : Told s) {rate : Quadlet} {channel : Bool} (hp : s.phase = .checked) (hinv : Inv { s with
      daemon := s.daemon.started rate channel
      log := s.log ++ (s.daemon.stopWrites ++ s.daemon.bringUpWrites rate channel), phase := .ready }) :
    Told { s with
      daemon := s.daemon.started rate channel
      log := s.log ++ (s.daemon.stopWrites ++ s.daemon.bringUpWrites rate channel), phase := .ready } := by
  have hdirty := (Daemon.started_ctlDirty s.daemon rate channel).symm ▸ hi.dirty
  refine hi.onward hinv hdirty (by simp) rfl rfl fun src hs hover => ?_
  rcases hi.cases (by simp [hp]) hs hover with hpub | hseq | hdone
  · exact .inl (.inl hpub)
  · exact .inl (.inr (.inl hseq))
  · refine .inr (hdone.keep (Daemon.started_settings ..) ?_ rfl)
    rw [← List.append_assoc, lastWrite_elsewhere (Daemon.bringUpWrites_elsewhere _ _ _),
      lastWrite_elsewhere (Daemon.stopWrites_elsewhere _ (by decide) (by decide))]

/-- Before the first session nothing can be asked for. -/
theorem Told.early_daemon (hi : Told s) (hp : s.phase = .waiting) {d : Daemon} {log : List DevWrite}
    {phase : ClockPhase} (hd : d.ctlDirty = s.daemon.ctlDirty) (hinv : Inv { s with daemon := d, log, phase }) :
    Told { s with daemon := d, log, phase } where
  inv := hinv
  dirty := hd.symm ▸ hi.dirty
  waiting _ := hi.waiting hp
  early _ := hi.early (.inl hp)
  stored := hi.stored
  told src hs := absurd ((hi.waiting hp).2.symm.trans hs) (by simp)

theorem step_told (s : ClockSys) (a : ClockAct) (t : ClockSys) (hi : Told s) (ha : s.InTime a)
    (h : s.step a = some t) : Told t := by
  have hinv := step_inv s a t hi.inv h
  unfold step at h
  split at h
  next cs hp =>
    obtain rfl := Option.some.inj h
    exact hi.early_daemon hp (drainCtlIdle_ctlDirty _ cs) hinv
  next rate channel hp =>
    obtain rfl := Option.some.inj h
    exact hi.early_daemon hp (Daemon.started_ctlDirty _ rate channel) hinv
  next => cases h
  next src hp =>
    obtain rfl := Option.some.inj h
    exact hi.store hp hinv
  next =>
    split at h
    next hpub =>
      obtain rfl := Option.some.inj h
      exact hi.bump ha hpub hinv
    · cases h
  next hp =>
    obtain rfl := Option.some.inj h
    exact hi.loadSeen hp hinv
  next cs hp =>
    obtain rfl := Option.some.inj h
    exact hi.tick hp ha hinv
  next hp =>
    split at h
    · obtain rfl := Option.some.inj h
      exact hi.onward hinv hi.dirty (by simp) rfl rfl fun _ _ _ => .inl (.inr (.inr rfl))
    next hsame =>
      obtain rfl := Option.some.inj h
      exact hi.unchanged (by simp [hp]) (not_not.1 hsame) hinv
  next =>
    obtain rfl := Option.some.inj h
    exact hi.handle hinv
  next hp =>
    obtain rfl := Option.some.inj h
    exact hi.tickEnd (by simp [hp]) hinv
  next rate channel hp =>
    obtain rfl := Option.some.inj h
    exact hi.restart hp hinv
  next => cases h

theorem boot_told {d : Daemon} (hd : d.ctlDirty = .empty) : Told (boot d) where
  inv := boot_inv hd
  dirty := by
    rw [show (boot d).daemon.ctlDirty = d.ctlDirty from rfl, hd]
    exact SortedMap.not_has_empty _
  waiting _ := ⟨rfl, rfl⟩
  early _ := rfl
  stored _ h := nomatch h
  told _ h := nomatch h

/-- Once every request is counted and the pump has taken what is counted, the last source
asked for is in force, unless settings came after it: in the settings, and with the rate of
the tick that took it in what the clock-config register was told last. -/
theorem clock_follows (diag : Bool) (saved : Saved) (pub : Option Published) {as : List ClockAct}
    (h : run step (boot (.boot diag saved pub)) as = some s)
    (htime : Meets step InTime (boot (.boot diag saved pub)) as)
    {src : ClockSource} (hasked : s.asked = some src) (hover : s.overruled = false) (hpub : s.publishing = 0)
    (hseen : s.controlSeq = s.seenControl) (hphase : s.phase ≠ .requested) : Honoured src s := by
  rcases (htime.inv Told step_told h (boot_told rfl)).told src hasked hover with (h | h | h) | h
  · omega
  · exact absurd hseen h
  · exact absurd h hphase
  · exact h

/-- Word clock is asked for, a fader moves, and the rate changes afterwards. -/
def wordClockAsked : List ClockAct :=
  [.start 48000 true, .store .wordClock, .loadSeen, .bump, .tick [{ type := .setFader, coeff := 0x4000 }], .loadSeq,
    .loadWant, .restart 96000 true]

theorem clock_follows_wordClock :
    ∃ s, run step (boot (.boot true .absent none)) wordClockAsked = some s ∧ s.daemon.rate = 96000 ∧
    Honoured .wordClock s ∧ s.clockRate = 48000 := by
  have htime : Meets step InTime (boot (.boot true .absent none)) wordClockAsked := by decide +kernel
  have hr : (run step (boot (.boot true .absent none)) wordClockAsked).map (fun s =>
      ((s.daemon.rate, s.clockRate), (s.asked, s.overruled), (s.publishing, s.controlSeq), s.seenControl, s.phase)) =
      some ((96000, 48000), (some .wordClock, false), (0, 1), 1, .ready) := by decide +kernel
  obtain ⟨s, hs, hsame⟩ := Option.map_eq_some_iff.1 hr
  simp only [Prod.mk.injEq] at hsame
  obtain ⟨⟨hrate, hclock⟩, ⟨hasked, hover⟩, ⟨hpub, hseq⟩, hseen, hphase⟩ := hsame
  exact ⟨s, hs, hrate, clock_follows true .absent none hs htime hasked hover hpub (hseq.trans hseen.symm)
    (by simp [hphase]), hclock⟩

/-- Counted before the pump loads the number first, a request is taken for an old one. -/
theorem clock_request_lost : ∃ s, run step (boot (.boot true .absent none))
      [.start 48000 true, .store .wordClock, .bump, .loadSeen, .tick [], .loadSeq, .tickEnd] = some s ∧
    s.daemon.settings.clock_master = true := by
  have hr : (run step (boot (.boot true .absent none))
      [.start 48000 true, .store .wordClock, .bump, .loadSeen, .tick [], .loadSeq, .tickEnd]).map
        (fun s => s.daemon.settings.clock_master) = some true := by decide +kernel
  obtain ⟨s, hs, hmaster⟩ := Option.map_eq_some_iff.1 hr
  exact ⟨s, hs, hmaster⟩

end ClockSys
end UserFace800.Control
