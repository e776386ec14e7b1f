import UserFace800.Protocol.Registers
import Mathlib.Logic.Function.Basic
import Mathlib.Data.Int.Notation
/-!
# The mixer: logical model and device image

`mixer.hpp`, `uf_mixer_shadow.hpp` and `uf_mixer_model.hpp`. The model is what
the user means: a gain and flags per crosspoint and per output. The shadow is
what the device gets: 2048 quadlets of matrix RAM. Model accesses are range
checked (an index out of range lands on the scratch cell), the address
functions are not, and both are kept so here.
-/
open UserFace800.Protocol

namespace UserFace800.Mixer

/-! ## Addresses and coefficients -/

/-- The bytes of a block of sources. -/
def kMixerBlock : ℕ := 0x80

/-- Where the output faders are in the matrix RAM. -/
def kOutputFaderBase : ℕ := 0x1f80

/-- The channels of the mixer, at single speed. -/
abbrev kCh : ℕ := 28

theorem kCh_eq : kCh = 28 := rfl

/-- The coefficient of silence. -/
def kMixerMute : Quadlet := 0

/-- The coefficient of 0 dB. -/
def kMixerUnity : Quadlet := 0x8000

/-- The largest coefficient, +6 dB. -/
def kMixerMax : Quadlet := 0x10000

/-- What a cell mixes in: an input of the device or a playback channel. -/
inductive MixerSrcKind where
  | input
  | playback
  deriving DecidableEq

/-- A kind off the wire: the code only ever asks whether it is `Playback`. -/
def MixerSrcKind.ofRaw (k : BitVec 16) : MixerSrcKind := if k = 1 then .playback else .input

/-- Channel arithmetic is 32-bit; the sum is a 64-bit address. -/
def inputCoeffAddr (src dest : ℕ) : ℕ :=
  Reg.kMixerRam + dest * 2 * kMixerBlock % 2 ^ 32 + 4 * src % 2 ^ 32

/-- The playback block of an output follows its input block. -/
def playbackCoeffAddr (src dest : ℕ) : ℕ :=
  Reg.kMixerRam + dest * 2 * kMixerBlock % 2 ^ 32 + kMixerBlock + 4 * src % 2 ^ 32

/-- The address of an output fader. -/
def outputFaderAddr (out : ℕ) : ℕ := Reg.kMixerRam + kOutputFaderBase + 4 * out % 2 ^ 32

/-- The address of a cell of either kind. -/
def coeffAddr (kind : MixerSrcKind) (src dest : ℕ) : ℕ :=
  match kind with
  | .playback => playbackCoeffAddr src dest
  | .input => inputCoeffAddr src dest

/-- Magnitude and phase as one signed coefficient; an inverted zero is -1. -/
def signedCoeff (magnitude : Quadlet) (inverted : Bool) : ℤ :=
  let m := if magnitude > kMixerMax then kMixerMax else magnitude
  if inverted then -(if m = 0 then 1 else (m.toNat : ℤ)) else m.toNat

/-- A coefficient as the device has it, in two's complement. -/
def coeffQuadlet (coeff : ℤ) : Quadlet := BitVec.ofInt 32 coeff

/-- And back. -/
def quadletCoeff (q : Quadlet) : ℤ := q.toInt

/-- A coefficient without its phase. -/
def coeffMagnitude (coeff : ℤ) : Quadlet := BitVec.ofInt 32 (if coeff < 0 then -coeff else coeff)

/-! ## The device image -/

/-- The quadlets of the matrix RAM. -/
abbrev kCells : ℕ := 2048

theorem kCells_eq : kCells = 2048 := rfl

/-- `MixerShadow`: the whole matrix RAM. -/
structure MixerShadow where
  cells : Fin kCells → Quadlet

/-- An address and the quadlet for it. -/
structure Write where
  addr : ℕ
  value : Quadlet
  deriving DecidableEq

namespace MixerShadow

/-- A RAM of silence. -/
def clear : MixerShadow := ⟨fun _ => kMixerMute⟩

/-- `(addr - kMixerRam) / 4`, the difference in 64 bits and the index in 32. -/
def indexOf (addr : ℕ) : ℕ := (2 ^ 64 - Reg.kMixerRam + addr) % 2 ^ 64 / 4 % 2 ^ 32

/-- An index outside the RAM is ignored. -/
def setCell (sh : MixerShadow) (i : ℕ) (coeff : Quadlet) : MixerShadow :=
  if h : i < kCells then ⟨Function.update sh.cells ⟨i, h⟩ coeff⟩ else sh

/-- A write goes to the quadlet its address names. -/
def setAt (sh : MixerShadow) (w : Write) : MixerShadow := sh.setCell (indexOf w.addr) w.value

/-- One quadlet write per cell, in order. -/
def applyAll (sh : MixerShadow) : List Write :=
  (List.finRange kCells).map fun i => ⟨Reg.kMixerRam + i.val * 4, sh.cells i⟩

end MixerShadow

/-! ## The logical model -/

/-- The flag of a muted cell. -/
def kMfMuted : BitVec 8 := 0x01

/-- The flag of an inverted phase. -/
def kMfInverted : BitVec 8 := 0x02

/-- The flag of an output that is recorded. -/
def kMfRec : BitVec 8 := 0x04

/-- A gain and its flags, of a cell or of an output. -/
structure Cell where
  gain : Quadlet := kMixerMute
  flags : BitVec 8 := 0
  deriving DecidableEq

/-- `flags & bit`. -/
def Cell.has (c : Cell) (bit : BitVec 8) : Bool := c.flags &&& bit != 0

/-- `MixerModel`: the two grids, the outputs, the stereo pairs and the scratch cell. -/
structure MixerModel where
  inputs : Fin kCh → Fin kCh → Cell := fun _ _ => {}
  playback : Fin kCh → Fin kCh → Cell := fun _ _ => {}
  outputs : Fin kCh → Cell := fun _ => {}
  stereoIn : BitVec 32 := 0
  stereoPb : BitVec 32 := 0
  scratch : Cell := {}

/-- Mute is gain 0, phase the sign: the one place where state becomes a quadlet. -/
def quadlet (c : Cell) : Quadlet :=
  coeffQuadlet (signedCoeff (if c.has kMfMuted then kMixerMute else c.gain) (c.has kMfInverted))

/-- The grid with one entry replaced. -/
def setGrid (g : Fin kCh → Fin kCh → Cell) (src dest : Fin kCh) (c : Cell) : Fin kCh → Fin kCh → Cell :=
  Function.update g src (Function.update (g src) dest c)

namespace MixerModel

/-- `cell` as it is read; outside the grid it is the scratch cell. -/
def cell (m : MixerModel) (kind : MixerSrcKind) (src dest : ℕ) : Cell :=
  if h : src < kCh ∧ dest < kCh then
    match kind with
    | .playback => m.playback ⟨src, h.1⟩ ⟨dest, h.2⟩
    | .input => m.inputs ⟨src, h.1⟩ ⟨dest, h.2⟩
  else m.scratch

/-- Assignment through the reference `cell` returns. -/
def setCell (m : MixerModel) (kind : MixerSrcKind) (src dest : ℕ) (c : Cell) : MixerModel :=
  if h : src < kCh ∧ dest < kCh then
    match kind with
    | .playback => { m with playback := setGrid m.playback ⟨src, h.1⟩ ⟨dest, h.2⟩ c }
    | .input => { m with inputs := setGrid m.inputs ⟨src, h.1⟩ ⟨dest, h.2⟩ c }
  else { m with scratch := c }

/-- `output` as it is read. -/
def output (m : MixerModel) (out : ℕ) : Cell := if h : out < kCh then m.outputs ⟨out, h⟩ else m.scratch

/-- `output` as it is assigned. -/
def setOutput (m : MixerModel) (out : ℕ) (c : Cell) : MixerModel :=
  if h : out < kCh then { m with outputs := Function.update m.outputs ⟨out, h⟩ c } else { m with scratch := c }

/-- A channel is paired with its neighbour, or no longer. -/
def setStereo (m : MixerModel) (kind : MixerSrcKind) (ch : ℕ) (on : Bool) : MixerModel :=
  if ch ≥ kCh then m
  else
    let bit : BitVec 32 := 1 <<< (ch / 2)
    let put (b : BitVec 32) : BitVec 32 := if on then b ||| bit else b &&& ~~~bit
    match kind with
    | .playback => { m with stereoPb := put m.stereoPb }
    | .input => { m with stereoIn := put m.stereoIn }

/-- What is mixed into one output is mixed into another. -/
def copySubmix (m : MixerModel) (src dest : ℕ) : MixerModel :=
  if h : src < kCh ∧ dest < kCh ∧ src ≠ dest then
    { m with
      inputs := fun s => Function.update (m.inputs s) ⟨dest, h.2.1⟩ (m.inputs s ⟨src, h.1⟩)
      playback := fun s => Function.update (m.playback s) ⟨dest, h.2.1⟩ (m.playback s ⟨src, h.1⟩) }
  else m

/-- Nothing is mixed into an output any more. -/
def clearSubmix (m : MixerModel) (out : ℕ) : MixerModel :=
  if h : out < kCh then
    { m with
      inputs := fun s => Function.update (m.inputs s) ⟨out, h⟩ {}
      playback := fun s => Function.update (m.playback s) ⟨out, h⟩ {} }
  else m

/-- Defaults: each playback channel to its own output, the faders at unity. -/
def resetDefaults (dbq : ℕ) (diag : Bool) : MixerModel :=
  { playback := fun s d => if s = d ∧ s < min dbq kCh ∧ diag then { gain := kMixerUnity } else {}
    outputs := fun o => if o < min dbq kCh then { gain := kMixerUnity } else {} }

/-! ### Rendering -/

/-- The write of a cell. -/
def renderCell (m : MixerModel) (kind : MixerSrcKind) (src dest : ℕ) : Write :=
  ⟨coeffAddr kind src dest, quadlet (m.cell kind src dest)⟩

/-- The write of an output. -/
def renderOutput (m : MixerModel) (out : ℕ) : Write := ⟨outputFaderAddr out, quadlet (m.output out)⟩

/-- What `render` stores into the cleared image: the columns, then the faders. -/
def renderWrites (m : MixerModel) : List Write :=
  ((List.finRange kCh).flatMap fun d => (List.finRange kCh).flatMap fun s =>
    [⟨inputCoeffAddr s d, quadlet (m.inputs s d)⟩, ⟨playbackCoeffAddr s d, quadlet (m.playback s d)⟩]) ++
  (List.finRange kCh).map fun o => ⟨outputFaderAddr o, quadlet (m.outputs o)⟩

/-- The device image of the model. -/
@[irreducible] def render (m : MixerModel) : MixerShadow := m.renderWrites.foldl MixerShadow.setAt MixerShadow.clear

/-- The output-record mask, one quadlet per output. -/
def recMask (m : MixerModel) : List Quadlet :=
  (List.finRange kCh).map fun o => if (m.outputs o).has kMfRec then 1 else 0

/-- The mask as written: `dbq` quadlets, zero past the model's channels. -/
def recBlock (m : MixerModel) (dbq : ℕ) : List Quadlet :=
  (List.range dbq).map fun i => m.recMask.getD i 0

end MixerModel

/-! ### Persistence -/

/-- `MixerModel::Blob`, the saved form. -/
structure Blob where
  stereoIn : BitVec 32
  stereoPb : BitVec 32
  inputGain : Fin kCh → Fin kCh → Quadlet
  playbackGain : Fin kCh → Fin kCh → Quadlet
  outputGain : Fin kCh → Quadlet
  inputFlags : Fin kCh → Fin kCh → BitVec 8
  playbackFlags : Fin kCh → Fin kCh → BitVec 8
  outputFlags : Fin kCh → BitVec 8

/-- The all-zero blob of a fresh snapshot. -/
def Blob.zero : Blob :=
  ⟨0, 0, fun _ _ => 0, fun _ _ => 0, fun _ => 0, fun _ _ => 0, fun _ _ => 0, fun _ => 0⟩

namespace MixerModel

/-- The model without its scratch cell. -/
def toBlob (m : MixerModel) : Blob where
  stereoIn := m.stereoIn
  stereoPb := m.stereoPb
  inputGain s d := (m.inputs s d).gain
  playbackGain s d := (m.playback s d).gain
  outputGain o := (m.outputs o).gain
  inputFlags s d := (m.inputs s d).flags
  playbackFlags s d := (m.playback s d).flags
  outputFlags o := (m.outputs o).flags

/-- A gain as `from_blob` takes it. -/
def clampGain (g : Quadlet) : Quadlet := if g > kMixerMax then kMixerMax else g

/-- The scratch cell is not part of a blob. -/
def fromBlob (m : MixerModel) (b : Blob) : MixerModel where
  inputs s d := ⟨clampGain (b.inputGain s d), b.inputFlags s d⟩
  playback s d := ⟨clampGain (b.playbackGain s d), b.playbackFlags s d⟩
  outputs o := ⟨clampGain (b.outputGain o), b.outputFlags o⟩
  stereoIn := b.stereoIn
  stereoPb := b.stereoPb
  scratch := m.scratch

/-- A cell adopted from a rendered coefficient: the sign is the phase. -/
def adopt (v : ℤ) : Cell := ⟨coeffMagnitude v, if v < 0 then kMfInverted else 0⟩

/-- Adopts a rendered matrix; cells past its end count as 0. -/
def importCells (m : MixerModel) (cells : List Quadlet) : MixerModel :=
  let get (a : ℕ) : ℤ :=
    match cells[MixerShadow.indexOf a]? with
    | some q => quadletCoeff q
    | none => 0
  { m with
    inputs := fun s d => adopt (get (inputCoeffAddr s d))
    playback := fun s d => adopt (get (playbackCoeffAddr s d))
    outputs := fun o => adopt (get (outputFaderAddr o)) }

end MixerModel

/-- What the state file held: nothing usable, a model, or an old rendered matrix. -/
inductive Saved where
  | absent
  | blob (b : Blob)
  | cells (cs : List Quadlet)

/-- `mixer_init_once`: defaults, then whatever was saved over the top. -/
def mixerInit (dbq : ℕ) (diag : Bool) (saved : Saved) : MixerModel :=
  let m := MixerModel.resetDefaults dbq diag
  match saved with
  | .absent => m
  | .blob b => m.fromBlob b
  | .cells cs => m.importCells cs

end UserFace800.Mixer
