import UserFace800.Protocol.Registers
/-!
# The control socket

`uf_ctl_proto.hpp` and `CtlServer::handle`: the fixed-size messages clients send
and how one is read off the byte stream of a connection. Everything is little
endian. `handle` validates the length, the version and the size of the type it
names, and nothing about the fields: what it enqueues carries whatever 16 and 32
bit values the client sent.
-/
open UserFace800.Protocol

namespace UserFace800.Control

/-- A byte of a message. -/
abbrev Byte := BitVec 8

/-- The version of the protocol. -/
def kCtlVersion : BitVec 16 := 2
/-- The longest message the daemon receives. -/
def kMaxMsgBytes : ℕ := 256
/-- The size of `MsgHeader`. -/
def kHeaderBytes : ℕ := 8

/-- `MsgType`, in the source's order. -/
inductive MsgType where
  | hello
  | helloAck
  | setMixer
  | setFader
  | setSettings
  | setCellFlags
  | setOutFlags
  | setStereo
  | submix
  deriving DecidableEq

/-- `none` is a type this daemon does not know. -/
def MsgType.ofRaw (t : BitVec 16) : Option MsgType :=
  match t.toNat with
  | 1 => some .hello
  | 2 => some .helloAck
  | 3 => some .setMixer
  | 4 => some .setFader
  | 5 => some .setSettings
  | 6 => some .setCellFlags
  | 7 => some .setOutFlags
  | 8 => some .setStereo
  | 9 => some .submix
  | _ => none

/-- One decoded command, as it crosses into the pump. -/
structure CtlCommand where
  type : MsgType
  srcKind : BitVec 16 := 0
  src : BitVec 16 := 0
  dest : BitVec 16 := 0
  out : BitVec 16 := 0
  coeff : BitVec 32 := 0
  mask : BitVec 16 := 0
  flags : BitVec 16 := 0
  on : BitVec 16 := 0
  rate : BitVec 32 := 0
  settings : SettingsShadow := {}
  deriving DecidableEq

/-! ## Fields off the wire -/

/-- A field of one byte. -/
def u8At (b : List Byte) (off : ℕ) : Byte := b.getD off 0
/-- A little-endian field of two bytes. -/
def u16At (b : List Byte) (off : ℕ) : BitVec 16 := u8At b (off + 1) ++ u8At b off
/-- A little-endian field of four bytes. -/
def u32At (b : List Byte) (off : ℕ) : BitVec 32 := u16At b (off + 2) ++ u16At b off
/-- A `bool` of a message: any byte but zero. -/
def boolAt (b : List Byte) (off : ℕ) : Bool := u8At b off != 0

/-- The level with this number, named if the enumeration names it. -/
def InputLevel.ofRaw (r : Quadlet) : InputLevel :=
  if r = 0 then .loGain else if r = 1 then .p4dBu else if r = 2 then .m10dBV else .other r

/-- The level with this number. -/
def OutputLevel.ofRaw (r : Quadlet) : OutputLevel :=
  if r = 0 then .hiGain else if r = 1 then .p4dBu else if r = 2 then .m10dBV else .other r

/-- The level with this number. -/
def PhonesLevel.ofRaw (r : Quadlet) : PhonesLevel :=
  if r = 0 then .p4dBu else if r = 1 then .m10dBV else if r = 2 then .hiGain else .other r

/-- The source with this number. -/
def InputSource.ofRaw (r : Quadlet) : InputSource :=
  if r = 0 then .unset else if r = 1 then .front else if r = 2 then .rear else .other r

/-- The reference with this number. -/
def SyncRef.ofRaw (r : Quadlet) : SyncRef :=
  if r = 0 then .adat1 else if r = 1 then .adat2 else if r = 2 then .spdif else if r = 3 then .wordClock
  else if r = 4 then .tco else .other r

/-- The 48-byte `SettingsShadow`, flags as bytes and enumerations as words. -/
def settingsAt (b : List Byte) (o : ℕ) : SettingsShadow where
  phantom7 := boolAt b o
  phantom8 := boolAt b (o + 1)
  phantom9 := boolAt b (o + 2)
  phantom10 := boolAt b (o + 3)
  input_level := InputLevel.ofRaw (u32At b (o + 4))
  output_level := OutputLevel.ofRaw (u32At b (o + 8))
  phones_level := PhonesLevel.ofRaw (u32At b (o + 12))
  filter := boolAt b (o + 16)
  drive := boolAt b (o + 17)
  input1 := InputSource.ofRaw (u32At b (o + 20))
  input7 := InputSource.ofRaw (u32At b (o + 24))
  input8 := InputSource.ofRaw (u32At b (o + 28))
  spdif_out_pro := boolAt b (o + 32)
  spdif_out_emphasis := boolAt b (o + 33)
  spdif_out_nonaudio := boolAt b (o + 34)
  spdif_out_optical := boolAt b (o + 35)
  spdif_in_optical := boolAt b (o + 36)
  clock_master := boolAt b (o + 37)
  sync_ref := SyncRef.ofRaw (u32At b (o + 40))
  word_clock_1x := boolAt b (o + 44)
  disable_limiter := boolAt b (o + 45)

/-! ## Reading one message -/

/-- The answer to a `Hello`. -/
structure HelloAck where
  ok : BitVec 32
  daemonVersion : BitVec 32 := 2
  deriving DecidableEq

/-- What `handle` did: the client is dropped, or kept with the rest of its
stream; it may have been answered, and a command may have been pushed. -/
inductive Handled where
  | drop (ack : Option HelloAck)
  | keep (ack : Option HelloAck) (cmd : Option CtlCommand) (rest : List Byte)
  deriving DecidableEq

/-- The size of each message that carries a command. -/
def MsgType.size : MsgType → Option ℕ
  | .setMixer => some 20
  | .setFader => some 16
  | .setSettings => some 64
  | .setCellFlags => some 20
  | .setOutFlags => some 16
  | .setStereo => some 16
  | .submix => some 16
  | .hello => none
  | .helloAck => none

/-- The command of a message of the right size. -/
def MsgType.command (t : MsgType) (b : List Byte) : CtlCommand :=
  match t with
  | .setMixer => { type := .setMixer, srcKind := u16At b 8, src := u16At b 10, dest := u16At b 12, coeff := u32At b 16 }
  | .setFader => { type := .setFader, out := u16At b 8, coeff := u32At b 12 }
  | .setSettings => { type := .setSettings, rate := u32At b 8, settings := settingsAt b 16 }
  | .setCellFlags =>
    { type := .setCellFlags, srcKind := u16At b 8, src := u16At b 10, dest := u16At b 12,
      mask := u16At b 14, flags := u16At b 16 }
  | .setOutFlags => { type := .setOutFlags, out := u16At b 8, mask := u16At b 10, flags := u16At b 12 }
  | .setStereo => { type := .setStereo, srcKind := u16At b 8, src := u16At b 10, on := u16At b 12 }
  | .submix =>
    { type := .submix, src := u16At b 8, dest := u16At b 10, on := if u32At b 12 = 0 then 0 else 1 }
  | .hello => { type := .hello }
  | .helloAck => { type := .helloAck }

/-- Reads one message off a stream. `sent` is whether the answer to a greeting
went out whole. A type without a handler is skipped by its length. -/
def handle (sent : Bool) (stream : List Byte) : Handled :=
  let version := u16At stream 0
  let type := u16At stream 2
  let length := (u32At stream 4).toNat
  if stream.length < kHeaderBytes then .drop none
  else if length < kHeaderBytes ∨ length > kMaxMsgBytes then .drop none
  else if stream.length < length then .drop none
  else if version ≠ kCtlVersion then
    .drop (if MsgType.ofRaw type = some .hello then some { ok := 0 } else none)
  else
    let rest := stream.drop length
    match MsgType.ofRaw type with
    | none => .keep none none rest
    | some .hello => if sent then .keep (some { ok := 1 }) none rest else .drop (some { ok := 1 })
    | some t =>
      match t.size with
      | none => .keep none none rest
      | some n => if length = n then .keep none (some (t.command (stream.take n))) rest else .drop none

end UserFace800.Control
