import UserFace800.Mixer.Model
import UserFace800.Control.Proto
import UserFace800.Lib.SortedMap
import Mathlib.Data.Nat.Basic
/-!
# The daemon's control plane

What `uf-daemon.cpp` keeps about the mixer and the settings, the two places it
applies queued commands in (`drain_ctl_idle` while there is no device, the pump
while there is one), the rate-limited push to the device, and the writes of a
session start. Each function returns the register writes it makes, in order.
Sessions are as configured by default, without the `UF_` debugging variables.
-/
open UserFace800.Lib UserFace800.Protocol UserFace800.Mixer

namespace UserFace800.Control

/-- What `publish_mixer` and its callers show to front-ends. -/
structure Published where
  cells : MixerShadow
  model : Blob
  settings : SettingsShadow

/-- What the daemon keeps: `g_model`, `g_mixer`, `g_settings`, the snapshots published of them,
and the writes still to send. -/
structure Daemon where
  model : MixerModel
  mixer : MixerShadow
  settings : SettingsShadow := {}
  stateSnap : Blob := .zero
  stateSnapSeq : BitVec 64 := 0
  pub : Option Published := none
  ctlDirty : SortedMap ℕ Quadlet := .empty
  stateDirty : Bool := false
  rate : Quadlet := 48000
  dbq : ℕ := kCh

/-- The daemon before it has seen a device: the model brought up at full width
and rendered. -/
def Daemon.boot (diag : Bool) (saved : Saved) (pub : Option Published) : Daemon :=
  let m := mixerInit kCh diag saved
  { model := m, mixer := m.render, pub := pub.map fun _ => ⟨m.render, m.toBlob, {}⟩ }

/-! ## Applying a command -/

/-- The command's `srcKind`. -/
def CtlCommand.kind (c : CtlCommand) : MixerSrcKind := .ofRaw c.srcKind

/-- `(flags & ~mask) | (value & mask)`, truncated to the flag byte. -/
def CtlCommand.mergeFlags (c : CtlCommand) (f : BitVec 8) : BitVec 8 :=
  (f &&& (~~~c.mask).setWidth 8) ||| (c.flags &&& c.mask).setWidth 8

/-- The edit of the model, which both drains make. -/
def CtlCommand.edit (c : CtlCommand) (m : MixerModel) : MixerModel :=
  match c.type with
  | .setMixer => m.setCell c.kind c.src.toNat c.dest.toNat
      { m.cell c.kind c.src.toNat c.dest.toNat with gain := c.coeff }
  | .setFader => m.setOutput c.out.toNat { m.output c.out.toNat with gain := c.coeff }
  | .setCellFlags =>
    let x := m.cell c.kind c.src.toNat c.dest.toNat
    m.setCell c.kind c.src.toNat c.dest.toNat { x with flags := c.mergeFlags x.flags }
  | .setOutFlags =>
    let x := m.output c.out.toNat
    m.setOutput c.out.toNat { x with flags := c.mergeFlags x.flags }
  | .setStereo => m.setStereo c.kind c.src.toNat (c.on != 0)
  | .submix => if c.on ≠ 0 then m.clearSubmix c.dest.toNat else m.copySubmix c.src.toNat c.dest.toNat
  | _ => m

/-- The cells the pump renders after the edit. -/
def CtlCommand.touched (c : CtlCommand) (m : MixerModel) : List Write :=
  match c.type with
  | .setMixer => [m.renderCell c.kind c.src.toNat c.dest.toNat]
  | .setFader => [m.renderOutput c.out.toNat]
  | .setCellFlags => [m.renderCell c.kind c.src.toNat c.dest.toNat]
  | .setOutFlags => [m.renderOutput c.out.toNat]
  | .submix => (List.range kCh).flatMap fun s =>
      [m.renderCell .input s c.dest.toNat, m.renderCell .playback s c.dest.toNat]
  | _ => []

/-- Settings are adopted whole. -/
def CtlCommand.adopt (c : CtlCommand) (s : SettingsShadow) : SettingsShadow :=
  match c.type with
  | .setSettings => c.settings
  | _ => s

/-- What the pump writes at once: the record mask when a loopback flag moved,
and the settings. -/
def CtlCommand.direct (c : CtlCommand) (d : Daemon) : List DevWrite :=
  match c.type with
  | .setOutFlags =>
    let m := c.edit d.model
    if (d.model.output c.out.toNat).has kMfRec ≠ (m.output c.out.toNat).has kMfRec then
      [.block Reg.kOutputRecMask (m.recBlock d.dbq)]
    else []
  | .setSettings =>
    [.block Reg.kConfBlock (assembleConfBlock c.settings),
      .quadlet Reg.kClockConfig
        (assembleClockConfig c.settings.clock_master c.settings.sync_ref (if c.rate ≠ 0 then c.rate else d.rate))]
  | _ => []

namespace Daemon

/-- `dirty`: into the image, and into the map of cells to push. -/
def mark (d : Daemon) (w : Write) : Daemon :=
  { d with mixer := d.mixer.setAt w, ctlDirty := d.ctlDirty.set w.addr w.value }

/-- The pump's handling of one command. -/
def pumpCommand (d : Daemon) (c : CtlCommand) : Daemon :=
  let m := c.edit d.model
  let d' := (c.touched m).foldl mark { d with model := m, settings := c.adopt d.settings }
  { d' with
    stateDirty := d.stateDirty || c.type == .setStereo
    pub := if c.type = .setSettings then d.pub.map fun p => { p with settings := c.settings } else d.pub }

/-- The drain of a tick, command by command. -/
def drainCtl (d : Daemon) (cs : List CtlCommand) : Daemon := cs.foldl pumpCommand d

/-- The writes the drain itself makes, in order. -/
def drainWrites : Daemon → List CtlCommand → List DevWrite
  | _, [] => []
  | d, c :: cs => c.direct d ++ drainWrites (d.pumpCommand c) cs

/-- The cells sent in one tick, at most. -/
def kCtlWritesPerTick : ℕ := 8

/-- The cells pushed this tick. -/
def toPush (d : Daemon) : List (ℕ × Quadlet) := d.ctlDirty.front kCtlWritesPerTick

/-- A copy of the model for the saver thread, and one for front-ends. -/
def snapshot (d : Daemon) : Daemon :=
  { d with
    stateSnap := d.model.toBlob
    stateSnapSeq := d.stateSnapSeq + 1
    pub := d.pub.map fun p => { p with cells := d.mixer, model := d.model.toBlob } }

/-- The front of the dirty cells is sent, and a change is published. -/
def pushDirty (d : Daemon) : Daemon :=
  let d' := { d with ctlDirty := d.ctlDirty.rest kCtlWritesPerTick }
  if d.toPush ≠ [] ∨ d.stateDirty then { d' with stateDirty := false }.snapshot else d'

/-- One tick: drain the queue, then push. -/
def tick (d : Daemon) (cs : List CtlCommand) : Daemon := (d.drainCtl cs).pushDirty

/-- The writes of a tick: the drain's own, then the dirty cells'. -/
def tickWrites (d : Daemon) (cs : List CtlCommand) : List DevWrite :=
  d.drainWrites cs ++ (d.drainCtl cs).toPush.map fun e => .quadlet e.1 e.2

/-- Whether the idle drain counts a command as a change. -/
def changes (c : CtlCommand) : Bool := c.type != .hello && c.type != .helloAck

/-- `drain_ctl_idle`: the model and settings only, then the whole image. -/
def drainCtlIdle (d : Daemon) (cs : List CtlCommand) : Daemon :=
  let d' := { d with
    model := cs.foldl (fun m c => c.edit m) d.model
    settings := cs.foldl (fun s c => c.adopt s) d.settings }
  if cs.any changes then
    let d'' := { d' with mixer := d'.model.render }.snapshot
    { d'' with pub := d''.pub.map fun p => { p with settings := d''.settings } }
  else d'

/-! ## Sessions -/

/-- `session_stop`: fetch off, then the stop blob. -/
def stopWrites (d : Daemon) : List DevWrite :=
  [.block Reg.kStatus0 (List.replicate d.dbq 1), .block Reg.kInitBankStop [0, 0, 0]]

/-- What `session_start` writes before it waits for the device's channel. -/
def setupWrites (d : Daemon) (rate : Quadlet) : List DevWrite :=
  let dbq := dataBlockQuadlets (speedForRate rate)
  [.quadlet Reg.kHostLed 0, .block Reg.kConfBlock (assembleConfBlock d.settings),
    .block Reg.kStatus0 (List.replicate dbq 1), .block Reg.kOutputRecMask (d.model.recBlock dbq),
    .block Reg.kInitBankStream
      [rate, (BitVec.ofNat 32 dbq <<< 11) ||| 1, BitVec.ofNat 32 dbq ||| 0x800]]

/-- The matrix, comm-start and fetch-enable, once the channel is known. -/
def applyWrites (d : Daemon) (rate : Quadlet) : List DevWrite :=
  let dbq := dataBlockQuadlets (speedForRate rate)
  (d.model.render.applyAll.map fun w => .quadlet w.addr w.value) ++
    [.quadlet Reg.kInitBankStart (0x80000000 ||| BitVec.ofNat 32 dbq ||| 0x800),
      .block Reg.kStatus0 (List.replicate dbq 0)]

/-- `session_start` when the device publishes its channel: the image is
rendered again and applied. -/
def sessionStart (d : Daemon) (rate : Quadlet) : Daemon :=
  { d with mixer := d.model.render, rate := rate, dbq := dataBlockQuadlets (speedForRate rate) }

end Daemon

/-! ## The daemon and its device -/

/-- The daemon, the device's registers, and whether a session was brought up. -/
structure World where
  daemon : Daemon
  ram : ℕ → Quadlet
  up : Bool := false

/-- What can happen: an idle drain, a tick of the pump, a session start or
restart, with or without the device publishing its channel. When it does, its
registers may hold anything by the time the matrix is applied. -/
inductive Act where
  | idle (cs : List CtlCommand)
  | tick (cs : List CtlCommand)
  | start (rate : Quadlet) (channel : Bool) (garbage : ℕ → Quadlet)

namespace World

/-- The device takes the writes. -/
def write (w : World) (ws : List DevWrite) : World := { w with ram := ws.foldl DevWrite.apply w.ram }

/-- Commands are drained idle while there is no session, and by ticks when there is one. -/
def step (w : World) : Act → Option World
  | .idle cs => if w.up then none else some { w with daemon := w.daemon.drainCtlIdle cs }
  | .tick cs =>
    if w.up then some { w.write (w.daemon.tickWrites cs) with daemon := w.daemon.tick cs } else none
  | .start rate channel garbage =>
    let stopped := if w.up then w.write w.daemon.stopWrites else w
    if !isSupportedRate rate then some stopped
    else if !channel then some (stopped.write (w.daemon.setupWrites rate))
    else
      let blank : World := ⟨w.daemon, garbage, true⟩
      some { blank.write (w.daemon.applyWrites rate) with daemon := w.daemon.sessionStart rate }

/-- A booted daemon, and a device whose RAM holds anything. -/
def boot (diag : Bool) (saved : Saved) (pub : Option Published) (ram : ℕ → Quadlet) : World :=
  ⟨.boot diag saved pub, ram, false⟩

end World

end UserFace800.Control
