import UserFace800.Control.Drain
import UserFace800.Mixer.Persist
/-!
# What a restart keeps

A daemon shut down through `~SaverGuard` and the next one, started on the same state
file. The mixer is kept: once anything has changed it, the snapshot the guard writes is
the model as it stands (`Snapped`), and a snapshot read back renders alike. The settings
are in no file, so the next daemon starts from the defaults whatever was accepted:
its session start writes what the old one's would exactly if the settings assembled
to the default conf block (`restart_transparent`).
-/
open UserFace800.Lib UserFace800.Protocol UserFace800.Mixer

namespace UserFace800.Control

/-! ## Clock sources -/

/-- What a front-end can choose the clock to follow. -/
inductive ClockSource where
  | internal | wordClock | adat1 | adat2 | spdif | tco
  deriving DecidableEq

/-- A source off the shared page, if `is_valid_clock_source`. -/
def ClockSource.ofRaw (v : Quadlet) : Option ClockSource :=
  match v.toNat with
  | 0 => some .internal
  | 1 => some .wordClock
  | 2 => some .adat1
  | 3 => some .adat2
  | 4 => some .spdif
  | 5 => some .tco
  | _ => none

/-- Only the internal clock makes the device master. -/
def clockSourceIsMaster (s : ClockSource) : Bool := s == .internal

/-- The device's name for the source. -/
def clockSourceSyncRef : ClockSource → SyncRef
  | .wordClock => .wordClock
  | .adat1 => .adat1
  | .adat2 => .adat2
  | .spdif => .spdif
  | .tco => .tco
  | .internal => .adat1

namespace Daemon

/-- A request for a clock source, as the pump takes it. -/
def selectClock (d : Daemon) (src : ClockSource) : Daemon :=
  { d with settings := { d.settings with
      clock_master := clockSourceIsMaster src, sync_ref := clockSourceSyncRef src } }

/-- What a change of the clock source writes: the conf block and the clock register. -/
def clockWrites (d : Daemon) : List DevWrite :=
  [.block Reg.kConfBlock (assembleConfBlock d.settings),
    .quadlet Reg.kClockConfig (assembleClockConfig d.settings.clock_master d.settings.sync_ref d.rate)]

/-- The state file `~SaverGuard` leaves, its save succeeding. -/
def save (d : Daemon) (file : Saved) : Saved := if d.stateSnapSeq = 0 then file else .blob d.stateSnap

/-- The daemon that starts after it. -/
def restart (d : Daemon) (diag : Bool) (file : Saved) (pub : Option Published) : Daemon := .boot diag (d.save file) pub

end Daemon

/-- What a daemon processes before it is shut down. -/
inductive Event where
  | act (a : Act)
  | clock (want : Quadlet)

/-- The pump drops a source that is not valid; without a session nobody looks. -/
def World.process (w : World) : Event → Option World
  | .act a => w.step a
  | .clock want =>
    if w.up then
      match ClockSource.ofRaw want with
      | none => some w
      | some src => some { w.write (w.daemon.selectClock src).clockWrites with daemon := w.daemon.selectClock src }
    else none

/-! ## The snapshot follows the model -/

/-- After `n` snapshots. Before the first the mixer is as it came up. -/
structure Snapped (start : MixerModel) (n : ℕ) (d : Daemon) : Prop where
  seq : d.stateSnapSeq = BitVec.ofNat 64 n
  fresh : n = 0 → d.model = start
  snap : n ≠ 0 → d.stateSnap = d.model.toBlob

theorem Snapped.snapshot {start : MixerModel} {n : ℕ} {d : Daemon} (h : d.stateSnapSeq = BitVec.ofNat 64 n) :
    Snapped start (n + 1) d.snapshot := by
  refine ⟨?_, fun h0 => (nomatch h0), fun _ => rfl⟩
  change d.stateSnapSeq + 1 = _
  rw [h, BitVec.ofNat_add]
  rfl

theorem Snapped.keep {start : MixerModel} {n : ℕ} {d d' : Daemon} (h : Snapped start n d) (hm : d'.model = d.model)
    (hs : d'.stateSnap = d.stateSnap) (hq : d'.stateSnapSeq = d.stateSnapSeq) : Snapped start n d' := by
  refine ⟨hq.trans h.seq, fun h0 => hm.trans (h.fresh h0), fun h0 => ?_⟩
  rw [hs, hm]
  exact h.snap h0

/-- One of the six commands that edit the mixer. -/
def CtlCommand.edits (c : CtlCommand) : Bool := Daemon.changes c && c.type != .setSettings

namespace Daemon

theorem edit_of_not_edits {c : CtlCommand} (h : c.edits = false) (m : MixerModel) : c.edit m = m := by
  unfold CtlCommand.edits changes at h
  unfold CtlCommand.edit
  cases ht : c.type <;> simp [ht] at h ⊢

theorem foldl_edit {cs : List CtlCommand} (h : ∀ c ∈ cs, c.edits = false) (m : MixerModel) :
    cs.foldl (fun m c => c.edit m) m = m := by
  induction cs with
  | nil => rfl
  | cons c cs ih =>
    rw [List.foldl_cons, edit_of_not_edits (h c List.mem_cons_self)]
    exact ih fun e he => h e (List.mem_cons_of_mem _ he)

/-- A command that leaves nothing to push and marks nothing was no edit. -/
theorem pumpCommand_clean {d : Daemon} {c : CtlCommand} (hdirty : (d.pumpCommand c).ctlDirty.entries = [])
    (hstate : (d.pumpCommand c).stateDirty = false) :
    d.ctlDirty.entries = [] ∧ d.stateDirty = false ∧ c.edits = false := by
  have hput : ∀ (ws : List Write) (m : SortedMap ℕ Quadlet),
      (ws.foldl (fun m w => m.set w.addr w.value) m).entries = [] → ws = [] ∧ m.entries = [] := by
    intro ws
    induction ws with
    | nil => exact fun m h => ⟨rfl, h⟩
    | cons w ws ih =>
      intro m h
      obtain ⟨-, hset⟩ := ih _ h
      -- the map has at least what was just put into it
      have hget := m.get_set w.addr w.addr w.value
      rw [if_pos rfl] at hget
      unfold SortedMap.get at hget
      rw [hset] at hget
      cases hget
  rw [pumpCommand_ctlDirty] at hdirty
  obtain ⟨htouched, hentries⟩ := hput _ _ hdirty
  have hs : (d.stateDirty || c.type == .setStereo) = false := hstate
  rw [Bool.or_eq_false_iff] at hs
  refine ⟨hentries, hs.1, ?_⟩
  unfold CtlCommand.touched at htouched
  unfold CtlCommand.edits changes
  have hK := kCh_eq
  cases ht : c.type <;> simp only [ht] at htouched hs ⊢
  case setMixer | setFader | setCellFlags | setOutFlags => cases htouched
  case setStereo => exact absurd hs.2 (by decide)
  case submix => cases htouched
  case hello | helloAck | setSettings => rfl

theorem drainCtl_clean {d : Daemon} {cs : List CtlCommand} (hdirty : (d.drainCtl cs).ctlDirty.entries = [])
    (hstate : (d.drainCtl cs).stateDirty = false) :
    d.ctlDirty.entries = [] ∧ d.stateDirty = false ∧ ∀ c ∈ cs, c.edits = false := by
  induction cs generalizing d with
  | nil => exact ⟨hdirty, hstate, fun c hc => absurd hc List.not_mem_nil⟩
  | cons c cs ih =>
    obtain ⟨h1, h2, h3⟩ := ih (d := d.pumpCommand c) hdirty hstate
    obtain ⟨g1, g2, g3⟩ := pumpCommand_clean h1 h2
    exact ⟨g1, g2, List.forall_mem_cons.2 ⟨g3, h3⟩⟩

theorem drainCtl_snap (d : Daemon) (cs : List CtlCommand) :
    (d.drainCtl cs).stateSnap = d.stateSnap ∧ (d.drainCtl cs).stateSnapSeq = d.stateSnapSeq := by
  induction cs generalizing d with
  | nil => exact ⟨rfl, rfl⟩
  | cons c cs ih =>
    have hone : (d.pumpCommand c).stateSnap = d.stateSnap ∧ (d.pumpCommand c).stateSnapSeq = d.stateSnapSeq := by
      simp only [pumpCommand, foldl_mark, and_self]
    obtain ⟨h1, h2⟩ := ih (d.pumpCommand c)
    exact ⟨h1.trans hone.1, h2.trans hone.2⟩

theorem front_nil {m : SortedMap ℕ Quadlet} (h : m.front kCtlWritesPerTick = []) : m.entries = [] := by
  unfold SortedMap.front kCtlWritesPerTick at h
  rw [List.take_eq_nil_iff] at h
  exact h.resolve_left (by decide)

theorem not_edits {cs : List CtlCommand} (h : ¬ cs.any changes = true) : ∀ c ∈ cs, c.edits = false := by
  intro c hc
  have hno : changes c = false := Bool.eq_false_iff.2 fun hch => h (List.any_eq_true.2 ⟨c, hc, hch⟩)
  rw [CtlCommand.edits, hno, Bool.false_and]

/-- A tick either takes a snapshot after all of its edits, or makes none. -/
theorem tick_snapped {start : MixerModel} {n : ℕ} {d : Daemon} (h : Snapped start n d) (cs : List CtlCommand) :
    ∃ n' ≤ n + 1, Snapped start n' (d.tick cs) := by
  obtain ⟨hsnap, hseq⟩ := drainCtl_snap d cs
  unfold tick pushDirty
  dsimp only
  split
  · exact ⟨n + 1, le_refl _, Snapped.snapshot (hseq.trans h.seq)⟩
  · -- nothing to push and nothing marked
    rename_i hclean
    rw [not_or, not_not, Bool.not_eq_true] at hclean
    obtain ⟨-, -, hnone⟩ := drainCtl_clean (front_nil hclean.1) hclean.2
    have hmodel : (d.drainCtl cs).model = d.model := by rw [drainCtl_model, foldl_edit hnone]
    exact ⟨n, Nat.le_succ n, h.keep hmodel hsnap hseq⟩

theorem idle_snapped {start : MixerModel} {n : ℕ} {d : Daemon} (h : Snapped start n d) (cs : List CtlCommand) :
    ∃ n' ≤ n + 1, Snapped start n' (d.drainCtlIdle cs) := by
  unfold drainCtlIdle
  dsimp only
  split
  · refine ⟨n + 1, le_refl _, ?_⟩
    have hnext : Snapped start (n + 1) ({ d with
        model := cs.foldl (fun m c => c.edit m) d.model
        settings := cs.foldl (fun s c => c.adopt s) d.settings
        mixer := (cs.foldl (fun m c => c.edit m) d.model).render } : Daemon).snapshot := Snapped.snapshot h.seq
    exact hnext.keep rfl rfl rfl
  · rename_i hnone
    exact ⟨n, Nat.le_succ n, h.keep (foldl_edit (not_edits hnone) d.model) rfl rfl⟩

end Daemon

namespace World

theorem process_snapped {start : MixerModel} {n : ℕ} {w v : World} {e : Event} (h : Snapped start n w.daemon)
    (hp : w.process e = some v) : ∃ n' ≤ n + 1, Snapped start n' v.daemon := by
  have hstay : Snapped start n v.daemon → ∃ n' ≤ n + 1, Snapped start n' v.daemon := fun hs => ⟨n, Nat.le_succ n, hs⟩
  cases e with
  | act a =>
    simp only [process] at hp
    cases a with
    | idle cs =>
      simp only [step] at hp
      split at hp <;> cases hp
      exact Daemon.idle_snapped h cs
    | tick cs =>
      simp only [step] at hp
      split at hp <;> cases hp
      exact Daemon.tick_snapped h cs
    | start rate channel garbage =>
      have hs : (if w.up then w.write w.daemon.stopWrites else w).daemon = w.daemon := by split <;> rfl
      simp only [step] at hp
      split at hp
      · cases hp
        exact hstay (hs.symm ▸ h)
      · split at hp <;> cases hp
        · exact hstay
            (h.keep (congrArg Daemon.model hs) (congrArg Daemon.stateSnap hs) (congrArg Daemon.stateSnapSeq hs))
        · exact hstay (h.keep rfl rfl rfl)
  | clock want =>
    simp only [process] at hp
    split at hp
    · split at hp <;> cases hp
      · exact hstay h
      · exact hstay (h.keep rfl rfl rfl)
    · cases hp

theorem run_snapped {start : MixerModel} {n : ℕ} {w v : World} {es : List Event} (h : Snapped start n w.daemon)
    (hr : run process w es = some v) : ∃ n' ≤ n + es.length, Snapped start n' v.daemon := by
  induction es generalizing w n with
  | nil =>
    cases hr
    exact ⟨n, le_refl _, h⟩
  | cons e es ih =>
    rw [run_cons, Option.bind_eq_some_iff] at hr
    obtain ⟨u, hu, hr⟩ := hr
    obtain ⟨m, hm, hs⟩ := process_snapped h hu
    obtain ⟨n', hn', hs'⟩ := ih hs hr
    refine ⟨n', ?_, hs'⟩
    rw [List.length_cons]
    omega

end World

/-! ## The next daemon -/

/-- Alike for the device and for a front-end: the image, the loopback flags, the pairings. -/
structure MixerAlike (m m' : MixerModel) : Prop where
  render : m'.render = m.render
  recBlock : ∀ dbq, m'.recBlock dbq = m.recBlock dbq
  stereoIn : m'.stereoIn = m.stereoIn
  stereoPb : m'.stereoPb = m.stereoPb

/-- A snapshot read back. -/
theorem fromBlob_alike (t m : MixerModel) : MixerAlike m (t.fromBlob m.toBlob) where
  render := render_fromBlob t m
  recBlock _ := rfl
  stereoIn := rfl
  stereoPb := rfl

/-- The mixer survives, as long as the count of snapshots has not come round to 0. -/
theorem restart_mixer {diag : Bool} {saved : Saved} {n : ℕ} {d : Daemon} (pub : Option Published)
    (h : Snapped (mixerInit kCh diag saved) n d) (hn : d.stateSnapSeq = 0 → n = 0) :
    MixerAlike d.model (d.restart diag saved pub).model := by
  change MixerAlike d.model (mixerInit kCh diag (d.save saved))
  unfold Daemon.save
  by_cases hseq : d.stateSnapSeq = 0
  · -- nothing was saved, and nothing changed: the file brings up the same mixer again
    rw [if_pos hseq, ← h.fresh (hn hseq)]
    exact ⟨rfl, fun _ => rfl, rfl, rfl⟩
  · rw [if_neg hseq]
    have hne : n ≠ 0 := by
      rintro rfl
      exact hseq h.seq
    rw [h.snap hne]
    exact fromBlob_alike _ _

/-- What the next daemon's session start writes. -/
theorem writes_alike {d d' : Daemon} (h : MixerAlike d.model d'.model) (rate : Quadlet) :
    (d'.setupWrites rate = d.setupWrites rate ↔ assembleConfBlock d'.settings = assembleConfBlock d.settings) ∧
    d'.applyWrites rate = d.applyWrites rate := by
  constructor
  · unfold Daemon.setupWrites
    dsimp only
    rw [h.recBlock]
    constructor
    · intro heq
      exact (DevWrite.block.inj (List.cons.inj (List.cons.inj heq).2).1).2
    · intro heq
      rw [heq]
  · unfold Daemon.applyWrites
    rw [h.render]

/-- In every state of every run: the daemon that comes after writes at its session
start what this one would have, and shows the same pairings, exactly if the settings
this one has make the default conf block. -/
theorem restart_transparent {diag : Bool} {saved : Saved} {pub : Option Published} {ram : ℕ → Quadlet}
    {es : List Event} {w : World} (h : run World.process (World.boot diag saved pub ram) es = some w)
    (hseq : w.daemon.stateSnapSeq = 0 → es.length < 2 ^ 64) (rate : Quadlet) (pub' : Option Published) :
    ((w.daemon.restart diag saved pub').setupWrites rate = w.daemon.setupWrites rate ∧
      (w.daemon.restart diag saved pub').applyWrites rate = w.daemon.applyWrites rate ∧
      (w.daemon.restart diag saved pub').model.stereoIn = w.daemon.model.stereoIn ∧
      (w.daemon.restart diag saved pub').model.stereoPb = w.daemon.model.stereoPb) ↔
    assembleConfBlock w.daemon.settings = assembleConfBlock {} := by
  have hstart : Snapped (mixerInit kCh diag saved) 0 (World.boot diag saved pub ram).daemon :=
    ⟨rfl, fun _ => rfl, fun h0 => absurd rfl h0⟩
  obtain ⟨n, hn, hsnap⟩ := World.run_snapped hstart h
  have halike := restart_mixer pub' hsnap fun h0 => by
    have hlt := hseq h0
    have hmod := congrArg BitVec.toNat (hsnap.seq.symm.trans h0)
    rw [BitVec.toNat_ofNat] at hmod
    change n % 2 ^ 64 = 0 at hmod
    omega
  obtain ⟨hsetup, happly⟩ := writes_alike halike rate
  rw [hsetup]
  constructor
  · rintro ⟨hconf, -⟩
    exact hconf.symm
  · intro hconf
    exact ⟨hconf.symm, happly, halike.stereoIn, halike.stereoPb⟩

/-- A route set while streaming is there for the next daemon. -/
theorem restart_transparent_route : ∃ w, run World.process (World.boot true .absent none fun _ => 0)
      [.act (.start 48000 true fun _ => 7), .act (.tick [World.route])] = some w ∧
    (w.daemon.restart true .absent none).applyWrites 96000 = w.daemon.applyWrites 96000 := by
  have hr : (run World.process (World.boot true .absent none fun _ => 0)
      [.act (.start 48000 true fun _ => 7), .act (.tick [World.route])]).map
        (fun w => (w.daemon.settings, w.daemon.stateSnapSeq)) = some ({}, 1) := by decide +kernel
  obtain ⟨w, hw, hsame⟩ := Option.map_eq_some_iff.1 hr
  obtain ⟨hsettings, hseq⟩ := Prod.mk.inj hsame
  refine ⟨w, hw, ((restart_transparent hw (fun _ => by decide) 96000 none).2 ?_).2.1⟩
  rw [hsettings]

/-- Phantom power on input 7. -/
def phantomOn : CtlCommand := { type := .setSettings, settings := { phantom7 := true } }

/-- A setting accepted while idle is not. -/
theorem phantom_forgotten : ∃ w, run World.process (World.boot true .absent none fun _ => 0)
      [.act (.idle [phantomOn])] = some w ∧
    (w.daemon.restart true .absent none).setupWrites 48000 ≠ w.daemon.setupWrites 48000 := by
  refine ⟨_, rfl, fun h => ?_⟩
  have hconf := (DevWrite.block.inj (List.cons.inj (List.cons.inj h).2).1).2
  exact absurd hconf (by decide)

end UserFace800.Control
