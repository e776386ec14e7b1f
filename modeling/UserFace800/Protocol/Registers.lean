import Mathlib.Data.List.Basic
import Mathlib.Data.BitVec
import Mathlib.Logic.Function.Basic
/-!
# The device's registers

The register addresses, rates and configuration quadlets the daemon writes:
`registers.hpp`, `rate.hpp`, `channels.hpp`, `settings.hpp` and `clock.hpp`. An
address is the full 48-bit one as a natural number; a quadlet is 32 bits.
-/

namespace UserFace800.Protocol

/-- A quadlet of the device. -/
abbrev Quadlet := BitVec 32

namespace Reg

/-- The conf block, three quadlets of settings. -/
def kConfBlock : ℕ := 0xfc88f014

/-- The stream format, in the bank the daemon uses. -/
def kInitBankStream : ℕ := 0x20000001c

/-- Starts the stream. -/
def kInitBankStart : ℕ := 0x200000028

/-- Stops it. -/
def kInitBankStop : ℕ := 0x200000034

/-- The status register, written as the mask of the channels to fetch. -/
def kStatus0 : ℕ := 0x801c0000

/-- The clock register. -/
def kClockConfig : ℕ := 0x801c0004

/-- The mask of the outputs that are recorded. -/
def kOutputRecMask : ℕ := 0x801c0080

/-- The matrix RAM of the mixer. -/
def kMixerRam : ℕ := 0x80080000

/-- Where MIDI bytes are written. -/
def kMidiOut : ℕ := 0x80180000

/-- The host's light. -/
def kHostLed : ℕ := 0x200000324

end Reg

/-- What the daemon asks of the device: a quadlet write or a block write. -/
inductive DevWrite where
  | quadlet (addr : ℕ) (v : Quadlet)
  | block (addr : ℕ) (vs : List Quadlet)
  deriving DecidableEq

/-- The device's registers after a write. -/
def DevWrite.apply (ram : ℕ → Quadlet) : DevWrite → ℕ → Quadlet
  | .quadlet a v => Function.update ram a v
  | .block a vs => fun x => if a ≤ x ∧ (x - a) % 4 = 0 then vs.getD ((x - a) / 4) (ram x) else ram x

/-! ## Rates -/

/-- Single, double and quadruple speed. -/
inductive Speed where
  | x1
  | x2
  | x4
  deriving DecidableEq

/-- The nine supported rates with their clock-config codes. -/
def kRates : List (Quadlet × Quadlet × Speed) :=
  [(32000, 0x02, .x1), (44100, 0x00, .x1), (48000, 0x06, .x1), (64000, 0x0a, .x2), (88200, 0x08, .x2),
    (96000, 0x0e, .x2), (128000, 0x12, .x4), (176400, 0x10, .x4), (192000, 0x16, .x4)]

/-- The rate is one of the nine. -/
def isSupportedRate (hz : Quadlet) : Bool := kRates.any fun r => r.1 == hz

/-- The speed class of a rate. -/
def speedForRate (hz : Quadlet) : Speed :=
  if hz < 64000 then .x1 else if hz < 128000 then .x2 else .x4

/-- `none` is the code 0xffffffff of an unsupported rate. -/
def clockConfigRateCode (hz : Quadlet) : Option Quadlet := (kRates.find? fun r => r.1 == hz).map (·.2.1)

/-- The ADAT channels of a speed class. -/
def adatChannels : Speed → ℕ
  | .x1 => 16
  | .x2 => 8
  | .x4 => 0

/-- PCM channels of a speed class: ten analog, two SPDIF, and ADAT. -/
def dataBlockQuadlets (s : Speed) : ℕ := 10 + 2 + adatChannels s

/-! ## Settings

The enumerations travel as 32-bit words off a socket, so each has a case for a
word that names none of its values; the assembly gives such a word no bits. -/

/-- The line inputs' level. -/
inductive InputLevel where
  | loGain
  | p4dBu
  | m10dBV
  | other (raw : Quadlet)
  deriving DecidableEq

/-- The line outputs' level. -/
inductive OutputLevel where
  | hiGain
  | p4dBu
  | m10dBV
  | other (raw : Quadlet)
  deriving DecidableEq

/-- The headphones' level. -/
inductive PhonesLevel where
  | p4dBu
  | m10dBV
  | hiGain
  | other (raw : Quadlet)
  deriving DecidableEq

/-- Which of an input's two jacks is used. -/
inductive InputSource where
  | unset
  | front
  | rear
  | other (raw : Quadlet)
  deriving DecidableEq

/-- What the clock follows when it is not master. -/
inductive SyncRef where
  | adat1
  | adat2
  | spdif
  | wordClock
  | tco
  | other (raw : Quadlet)
  deriving DecidableEq

/-- `SettingsShadow`, with its defaults. -/
structure SettingsShadow where
  phantom7 : Bool := false
  phantom8 : Bool := false
  phantom9 : Bool := false
  phantom10 : Bool := false
  input_level : InputLevel := .p4dBu
  output_level : OutputLevel := .p4dBu
  phones_level : PhonesLevel := .p4dBu
  filter : Bool := false
  drive : Bool := false
  input1 : InputSource := .unset
  input7 : InputSource := .unset
  input8 : InputSource := .unset
  spdif_out_pro : Bool := false
  spdif_out_emphasis : Bool := false
  spdif_out_nonaudio : Bool := false
  spdif_out_optical : Bool := false
  spdif_in_optical : Bool := false
  clock_master : Bool := true
  sync_ref : SyncRef := .adat1
  word_clock_1x : Bool := false
  disable_limiter : Bool := false
  deriving DecidableEq

/-- `bits` when `b`, else none. -/
def bit (b : Bool) (bits : Quadlet) : Quadlet := if b then bits else 0

/-- The first quadlet of the conf block. -/
def assembleCr0 (s : SettingsShadow) : Quadlet :=
  bit s.phantom7 0x1 ||| bit s.phantom8 0x80 ||| bit s.phantom9 0x2 ||| bit s.phantom10 0x100 |||
  bit s.filter 0x4 ||| bit s.drive 0x200 |||
  (match s.input_level with
    | .loGain => 0x8
    | .p4dBu => 0x10
    | .m10dBV => 0x20
    | .other _ => 0) |||
  (match s.output_level with
    | .hiGain => 0x400
    | .p4dBu => 0x800
    | .m10dBV => 0x1000
    | .other _ => 0) |||
  match s.phones_level with
    | .p4dBu => 0
    | .m10dBV => 0x10000
    | .hiGain => 0x20000
    | .other _ => 0

/-- The source-select bits of one input. -/
def sourceBits (front rear : Quadlet) : InputSource → Quadlet
  | .front => front
  | .rear => rear
  | .unset => 0
  | .other _ => 0

/-- The second. -/
def assembleCr1 (s : SettingsShadow) : Quadlet :=
  (match s.input_level with
    | .loGain => 0
    | .p4dBu => 0x2
    | .m10dBV => 0x3
    | .other _ => 0) |||
  (match s.output_level with
    | .hiGain => 0x10
    | .p4dBu => 0x18
    | .m10dBV => 0x8
    | .other _ => 0) |||
  bit s.drive 0x200 ||| sourceBits (if s.filter then 0x400 else 0x800) 0x4 s.input1 |||
  sourceBits 0x20 0x40 s.input7 ||| sourceBits 0x80 0x100 s.input8

/-- The third's bits of a sync reference. -/
def syncRefBits : SyncRef → Quadlet
  | .adat1 => 0
  | .adat2 => 0x400
  | .spdif => 0xc00
  | .wordClock => 0x1000
  | .tco => 0x1400
  | .other _ => 0

/-- The third. -/
def assembleCr2 (s : SettingsShadow) : Quadlet :=
  0x80000000 ||| bit s.clock_master 0x1 ||| bit s.spdif_out_pro 0x20 ||| bit s.spdif_out_emphasis 0x40 |||
  bit s.spdif_out_nonaudio 0x80 ||| bit s.spdif_out_optical 0x100 ||| bit s.spdif_in_optical 0x200 |||
  syncRefBits s.sync_ref ||| bit s.word_clock_1x 0x2000 ||| bit s.disable_limiter 0x10000

/-- The whole conf block. -/
def assembleConfBlock (s : SettingsShadow) : List Quadlet := [assembleCr0 s, assembleCr1 s, assembleCr2 s]

/-- The clock-config field of a sync reference; TCO differs from CR2's. -/
def clockConfigSourceBits : SyncRef → Quadlet
  | .adat1 => 0
  | .adat2 => 0x400
  | .spdif => 0xc00
  | .wordClock => 0x1000
  | .tco => 0x1800
  | .other _ => 0

/-- The clock register's bits of a rate. -/
def kRateMask : Quadlet := 0x1e

/-- The clock register's quadlet; an unsupported rate has no bits. -/
def assembleClockConfig (master : Bool) (source : SyncRef) (rate : Quadlet) : Quadlet :=
  bit master 0x1 ||| clockConfigSourceBits source |||
  match clockConfigRateCode rate with
    | some code => code &&& kRateMask
    | none => 0

end UserFace800.Protocol
